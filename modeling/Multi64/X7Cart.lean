import Multi64.Lib.Act
import Multi64.Lib.Store
import Multi64.X7Wire

/-! An EverDrive X7's USB unit as the console reaches it over the PI bus, and
the driver's own state. Everything outside the driver is a schedule: which
access the PI is busy for, when host bytes arrive, what the clock reads. -/

namespace Multi64

def edWindow : Nat := 512

def edRxqCap : Nat := 4 * edWindow

def edTicksPerMs : UInt32 := 46875

def edBusySpins : Nat := 20000

def edBusyTicks : UInt32 := 75 * edTicksPerMs

def edReceiveTicks : UInt32 := 100 * edTicksPerMs

def edBurstTicks : UInt32 := 30 * edTicksPerMs

def edSendTicks : UInt32 := 250 * edTicksPerMs

def edReadAheadMax : Nat := 32

/-- What one PI access meets: host bytes that arrive before it, bytes a write
under way gets out before it, whether the PI stays busy, whether a store that
was made is seen to land, and how many words of a busy run were stored. -/
structure PiAccess where
  arrive : Nat
  goOut : Nat
  busy : Bool
  landed : Bool
  powered : Bool
  partly : Nat

structure X7Env where
  host : Bytes
  pi : Nat → PiAccess
  clock : Nat → UInt32
  /-- Rounds a send makes for one block before the model gives it up. -/
  patience : Nat

inductive RxPhase where
  | header | room | payload | trailer
  deriving DecidableEq, Repr

/-- The cart's USB unit. A read under way fills the window's last `rdWant`
bytes, a write sends its last `wrWant`. -/
structure UsbUnit where
  arrived : Nat
  taken : Nat
  rdWant : Nat
  wrWant : Nat
  window : Store
  sent : Bytes

/-- Where the receive path is in the host's stream and its queue, with two
records the driver does not keep: whether it ever abandoned a read, and how far
into the queue's buffer it ever wrote. -/
structure RxPath where
  rxq : Store
  rxqOff : Nat
  rxqLen : Nat
  rxqLost : Bool
  rxqBeforeLoss : Nat
  phase : RxPhase
  pull : Nat
  msgSize : Nat
  msgLeft : Nat
  msgGot : Nat
  owed : Nat
  rxCut : Bool
  abandoned : Bool
  high : Nat

structure X7 extends UsbUnit, RxPath where
  accesses : Nat
  readings : Nat
  callAt : UInt32
  callTicks : UInt32
  retry : Bool
  reading : Bool
  rxUsed : UInt32

/-- As `ed64Init` leaves it: nothing taken, nothing held. -/
def X7.start : X7 where
  arrived := 0
  taken := 0
  rdWant := 0
  wrWant := 0
  window := fun _ => 0
  sent := []
  accesses := 0
  readings := 0
  callAt := 0
  callTicks := 0
  retry := false
  rxq := fun _ => 0
  rxqOff := 0
  rxqLen := 0
  rxqLost := false
  rxqBeforeLoss := 0
  phase := .header
  pull := 0
  msgSize := 0
  msgLeft := 0
  msgGot := 0
  owed := 0
  reading := false
  rxCut := false
  rxUsed := 0
  abandoned := false
  high := 0

abbrev Drv := StateM X7

section Cart

variable (env : X7Env)

/-- What the cart does between two accesses: bytes arrive, a read under way
takes what there is, a write under way gets on. -/
def X7.pump (a : PiAccess) (s : X7) : X7 :=
  let arrived := min env.host.length (s.arrived + a.arrive)
  let n := min s.rdWant (arrived - s.taken)
  let m := min s.wrWant a.goOut
  { s with
    accesses := s.accesses + 1
    arrived := arrived
    window := s.window.write (edWindow - s.rdWant) (slice env.host s.taken n)
    taken := s.taken + n
    rdWant := s.rdWant - n
    sent := s.sent ++ s.window.read (edWindow - s.wrWant) m
    wrWant := s.wrWant - m }

inductive UsbMode where
  | rdNop
  | rd (addr : Nat)
  | wrNop
  | wr (addr : Nat)

/-- A transfer mode ends the one before it. -/
def X7.setMode (mode : UsbMode) (s : X7) : X7 :=
  match mode with
  | .rdNop | .wrNop => { s with rdWant := 0, wrWant := 0 }
  | .rd addr => { s with rdWant := edWindow - addr, wrWant := 0 }
  | .wr addr => { s with rdWant := 0, wrWant := edWindow - addr }

def piAccess : Drv PiAccess := do
  let s ← get
  let a := env.pi s.accesses
  modify (X7.pump env a)
  pure a

structure UsbStatus where
  act : Bool
  rxf : Bool
  power : Bool
  deriving DecidableEq, Repr

def X7.status (a : PiAccess) (s : X7) : UsbStatus where
  act := 0 < s.rdWant ∨ 0 < s.wrWant
  rxf := s.taken = s.arrived
  power := a.powered

/-- `pi_io_read` of `USBCFG`. -/
def piReadStatus : Drv (Option UsbStatus) := do
  let a ← piAccess env
  let s ← get
  if a.busy then pure none
  else pure (some (s.status a))

structure PiStore where
  ok : Bool
  stored : Bool

/-- `pi_io_write_stored` of `USBCFG`. A store that was made takes effect,
whether or not it is seen to land. -/
def piWriteStored (mode : UsbMode) : Drv PiStore := do
  let a ← piAccess env
  if a.busy then pure ⟨false, false⟩
  else do
    modify (X7.setMode mode)
    pure ⟨a.landed, true⟩

def piWrite (mode : UsbMode) : Drv Bool := do
  let w ← piWriteStored env mode
  pure w.ok

/-- The window's words from `first` on, the byte at `first` first. -/
def piLoadWords (first words : Nat) : Drv (Option Bytes) := do
  let a ← piAccess env
  let s ← get
  if a.busy then pure none
  else pure (some (s.window.read first (4 * words)))

def piStoreWords (words : Bytes) (first : Nat) : Drv Bool := do
  let a ← piAccess env
  let stored := if a.busy then words.take (4 * a.partly) else words
  modify fun s => { s with window := s.window.write first stored }
  pure (!a.busy)

def edCount : Drv UInt32 := do
  let s ← get
  modify fun s => { s with readings := s.readings + 1 }
  pure (env.clock s.readings)

end Cart

end Multi64
