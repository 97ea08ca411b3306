import Multi64.Lib.Act

/-! The agent's SummerCart64 driver: the cart's command registers, its staging
buffer and its write-enable as the driver reaches them over the PI bus. Which
accesses find the bus taken, and what the cart answers, is a schedule. -/

namespace Multi64

namespace Sc64Driver

def srCmdError : UInt32 := 0x40000000

def srCmdBusy : UInt32 := 0x80000000

/-- `USB_WRITE_BUSY` and `USB_READ_BUSY`. -/
def usbBusy : UInt32 := 0x80000000

def cfgRomWriteEnable : UInt32 := 1

def sc64Buffer : UInt32 := 0x1FFE0000

def sc64BufferSize : Nat := 8192

def piChunkWords : Nat := 64

def sc64CmdSpins : Nat := 100000

inductive Reg where
  | srCmd | data0 | data1

inductive Cmd where
  | configSet | usbWriteStatus | usbWrite | usbReadStatus | usbRead
  deriving DecidableEq

/-- What the cart makes of one command: how many reads of the status find it at
work, whether it refuses, what it leaves in the data registers when the command
is not CONFIG_SET, and the host's packet, for a USB_READ. -/
structure Reply where
  busyReads : Nat
  refused : Bool
  data0 : UInt32
  data1 : UInt32
  packet : Nat → UInt32

structure Env where
  /-- Whether the driver finds the bus taken, the nth time it looks. -/
  pi : Nat → Bool
  reply : Nat → Reply

structure Cart where
  data0 : UInt32
  data1 : UInt32
  romWrite : UInt32
  busyReads : Nat
  refused : Bool
  buffer : Nat → UInt32

/-- The cart, how far the schedule has come, and the driver's own two words. -/
structure Driver extends Cart where
  looks : Nat
  commands : Nat
  romWriteRestore : UInt32
  romWriteRestorePending : Bool

abbrev Agent := StateM Driver

section Registers

/-- The command store: the cart runs the command as it lands. -/
def Cart.command (r : Reply) (cmd : Cmd) (c : Cart) : Cart :=
  let c := { c with busyReads := r.busyReads, refused := r.refused }
  if r.refused then { c with data0 := r.data0, data1 := r.data1 }
  else
    match cmd with
    | .configSet =>
      if c.data0 = cfgRomWriteEnable then { c with data0 := 0, romWrite := c.data1, data1 := c.romWrite }
      else { c with data0 := 0 }
    | .usbRead => { c with data0 := r.data0, data1 := r.data1, buffer := r.packet }
    | _ => { c with data0 := r.data0, data1 := r.data1 }

def Cart.load (reg : Reg) (c : Cart) : UInt32 × Cart :=
  match reg with
  | .data0 => (c.data0, c)
  | .data1 => (c.data1, c)
  | .srCmd =>
    if 0 < c.busyReads then (srCmdBusy, { c with busyReads := c.busyReads - 1 })
    else (if c.refused then srCmdError else 0, c)

/-- Stores to the buffer land only while ROM writes are enabled. -/
def Cart.stage (pos : Nat) (word : UInt32) (c : Cart) : Cart :=
  if c.romWrite = 0 then c else { c with buffer := fun i => if i = pos then word else c.buffer i }

variable (env : Env)

def Driver.looked (s : Driver) : Driver := { s with looks := s.looks + 1 }

/-- Wait for the bus, and whether it came free. -/
def piIdle : Agent Bool := fun s => (!env.pi s.looks, s.looked)

def ioRead (reg : Reg) : Agent (Option UInt32) := do
  if ← piIdle env then
    let s ← get
    set { s with toCart := (s.toCart.load reg).2 }
    pure (some (s.toCart.load reg).1)
  else pure none

def ioWrite (store : Cart → Cart) : Agent Bool := do
  if ← piIdle env then
    modify fun s => { s with toCart := store s.toCart }
    pure true
  else pure false

def ioCommand (cmd : Cmd) : Agent Bool := do
  if ← piIdle env then
    modify fun s => { s with toCart := s.toCart.command (env.reply s.commands) cmd, commands := s.commands + 1 }
    pure true
  else pure false

/-- One word of `pi_copy` from the cart. -/
def loadWord (pos : Nat) : Agent (Option UInt32) := do
  if ← piIdle env then return some ((← get).buffer pos) else pure none

/-- One masked span of `pi_copy` to the cart: stores are posted, so each waits
for the one before it. -/
def storeWords (data : Nat → UInt32) : (pos n : Nat) → Agent Bool
  | _, 0 => piIdle env
  | pos, n + 1 => do
    if ← ioWrite env (Cart.stage pos (data pos)) then storeWords data (pos + 1) n else pure false

/-- `pi_copy` to the cart, with as many spans left as `fuel`. -/
def storeSpans (data : Nat → UInt32) (words : Nat) : (fuel done : Nat) → Agent Bool
  | 0, _ => pure true
  | fuel + 1, done =>
    if done < words then do
      if ← piIdle env then
        let n := min (words - done) piChunkWords
        if ← storeWords env data done n then storeSpans data words fuel (done + n) else pure false
      else pure false
    else pure true

def piCopyToCart (data : Nat → UInt32) (len : Nat) : Agent Bool :=
  let words := (len + 3) / 4
  storeSpans env data words words 0

end Registers

section Commands

variable (env : Env)

/-- How a command went: it never reached the cart, it did but cannot be told to
have completed, or it is done. -/
inductive Ran where
  | notSent
  | unknown
  | done (result0 result1 : UInt32)
  deriving DecidableEq

def storeArgs : Option (UInt32 × UInt32) → Agent Bool
  | none => pure true
  | some (arg0, arg1) => do
    if ← ioWrite env fun c => { c with data0 := arg0 } then ioWrite env fun c => { c with data1 := arg1 } else pure false

/-- The status the command ended with. -/
def awaitCmd : Nat → Agent (Option UInt32)
  | 0 => pure none
  | n + 1 => do
    match ← ioRead env .srCmd with
    | none => pure none
    | some sr => if sr &&& srCmdBusy = 0 then pure (some sr) else awaitCmd n

/-- The result registers, for a caller that asks for them. -/
def loadResult (wanted : Bool) : Agent (Option (UInt32 × UInt32)) :=
  if wanted then do
    match ← ioRead env .data0 with
    | none => pure none
    | some result0 =>
      match ← ioRead env .data1 with
      | none => pure none
      | some result1 => pure (some (result0, result1))
  else pure (some (0, 0))

def awaitResult (wanted : Bool) : Agent Ran := do
  match ← awaitCmd env sc64CmdSpins with
  | none => pure .unknown
  | some sr =>
    match ← loadResult env wanted with
    | none => pure .unknown
    | some result => pure (if sr &&& srCmdError = 0 then .done result.1 result.2 else .unknown)

def sc64CmdSent (cmd : Cmd) (args : Option (UInt32 × UInt32)) (wanted : Bool) : Agent Ran := do
  if ← storeArgs env args then
    if ← ioCommand env cmd then awaitResult env wanted else pure .notSent
  else pure .notSent

def Ran.result : Ran → Option (UInt32 × UInt32)
  | .done result0 result1 => some (result0, result1)
  | _ => none

def sc64Cmd (cmd : Cmd) (args : Option (UInt32 × UInt32)) (wanted : Bool) : Agent (Option (UInt32 × UInt32)) := do
  return (← sc64CmdSent env cmd args wanted).result

/-- The cart's write-enable, with the previous setting for the result's second
word. -/
def setRomWritable (enable : UInt32) : Agent Ran := sc64CmdSent env .configSet (some (cfgRomWriteEnable, enable)) true

def romWriteRestore : Agent Unit := do
  match ← setRomWritable env (← get).romWriteRestore with
  | .done _ _ => modify fun s => { s with romWriteRestorePending := false }
  | _ => modify fun s => { s with romWriteRestorePending := true }

def retryRestore : Agent Unit := do
  if (← get).romWriteRestorePending then romWriteRestore env else pure ()

/-- Ask for a transfer's status until it is over. -/
def awaitUsb (status : Cmd) : Nat → Agent Bool
  | 0 => pure false
  | n + 1 => do
    match ← sc64Cmd env status none true with
    | none => pure false
    | some result => if result.1 &&& usbBusy = 0 then pure true else awaitUsb status n

/-- The packet's size, 0 for none, and its type when the host has one. -/
def sc64Poll : Agent (UInt32 × Option UInt8) := do
  retryRestore env
  match ← sc64Cmd env .usbReadStatus none true with
  | none => pure (0, none)
  | some result =>
    let size := result.2 &&& 0x00FFFFFF
    let datatype := result.1.toUInt8
    if size = 0 then pure (0, none)
    else if sc64BufferSize < size.toNat then pure (0, some datatype)
    else
      match ← sc64Cmd env .usbRead (some (sc64Buffer, size)) false with
      | none => pure (0, some datatype)
      | some _ => return (if ← awaitUsb env .usbReadStatus sc64CmdSpins then size else 0, some datatype)

end Commands

section Write

variable (env : Env)

/-- A restore still pending is put back first, and a transfer still running is
not waited for. -/
def readyToWrite : Agent Bool := do
  retryRestore env
  match ← sc64Cmd env .usbWriteStatus none true with
  | none => pure false
  | some result => pure (result.1 &&& usbBusy = 0)

/-- Write-enable spans the staging copy only. -/
def stage (data : Nat → UInt32) (len : Nat) : Agent Bool := do
  match ← setRomWritable env 1 with
  | .notSent => pure false
  | .unknown => do
    romWriteRestore env
    pure false
  | .done _ previous => do
    modify fun s => if s.romWriteRestorePending then s else { s with romWriteRestore := previous }
    let staged ← piCopyToCart env data len
    romWriteRestore env
    pure staged

/-- The ends of what was staged are the packet's. -/
def readBack (data : Nat → UInt32) (len : Nat) : Agent Bool := do
  let tail := (len + 3) / 4 - 1
  match ← loadWord env 0 with
  | none => pure false
  | some first =>
    match ← loadWord env tail with
    | none => pure false
    | some last => pure (first = data 0 ∧ (8 ≤ len → last = data tail))

def sc64Write (datatype : UInt8) (data : Nat → UInt32) (len : Nat) : Agent Bool :=
  if len = 0 ∨ sc64BufferSize < len then pure false
  else do
    if ← readyToWrite env then
      if ← stage env data len then
        if ← readBack env data len then
          let header := datatype.toUInt32 <<< 24 ||| (UInt32.ofNat len &&& 0x00FFFFFF)
          match ← sc64Cmd env .usbWrite (some (sc64Buffer, header)) false with
          | none => pure false
          | some _ => awaitUsb env .usbWriteStatus sc64CmdSpins
        else pure false
      else pure false
    else pure false

end Write

/-- Before the agent's first call. -/
def Driver.start (cart : Cart) : Driver where
  toCart := cart
  looks := 0
  commands := 0
  romWriteRestore := 0
  romWriteRestorePending := false

/-- What the agent calls. -/
inductive Call where
  | poll
  | write (datatype : UInt8) (data : Nat → UInt32) (len : Nat)

def Driver.call (env : Env) (s : Driver) : Call → Driver
  | .poll => ((sc64Poll env).run s).2
  | .write datatype data len => ((sc64Write env datatype data len).run s).2

def Driver.run (env : Env) (s : Driver) (calls : List Call) : Driver := calls.foldl (Driver.call env) s

end Sc64Driver

end Multi64
