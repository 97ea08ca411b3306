import Multi64.L3Decode
import Multi64.M64p

/-! The agent's receive side on a stream cart: L3 reassembly over several
deliveries and the per-frame tick that hands a payload to the protocol
handler. -/

namespace Multi64

def agentRxCap : Nat := headerLen + m64pAppCap + 256 + 16

def agentStreamPulls : Nat := 32

def agentStreamStaleTicks : Nat := 60

def agentInitAttempts : Nat := 16

/-- A frame magic, or the start of one cut off by the end of the data, begins
the bytes `rx`. -/
def rxMagicAt (rx : Bytes) : Bool := (rx.take 4).isPrefixOf magic

/-- The bytes before the first place where `rxMagicAt` holds. -/
def rxNoise : Bytes → Nat
  | [] => 0
  | b :: rest => if rxMagicAt (b :: rest) then 0 else rxNoise rest + 1

def rxHeaderPlausible (rx : Bytes) : Bool :=
  [0x01, 0x02, 0x03, 0x10, 0x11, 0x12, 0x20, 0x21, 0x30, 0x31, 0x32, 0x33].contains (byteAt rx 4) &&
    !(0x03 ≤ byteAt rx 5 && byteAt rx 5 ≤ 0x7F) &&
    (readBe32 rx 12).toNat ≤ agentRxCap - headerLen

/-- The length of the complete frame at the start, 0 if none yet, and the
buffer without what was before it. A turn that goes on drops a byte. -/
def rxFrameLenFuel : Nat → Bytes → Nat × Bytes
  | 0, rx => (0, rx)
  | fuel + 1, rx =>
    let rx := rx.drop (rxNoise rx)
    if rx.length < headerLen then (0, rx)
    else if !rxHeaderPlausible rx then rxFrameLenFuel fuel (rx.drop 1)
    else
      let payloadLen := (readBe32 rx 12).toNat
      if rx.length < headerLen + payloadLen then (0, rx) else (headerLen + payloadLen, rx)

def rxFrameLen (rx : Bytes) : Nat × Bytes := rxFrameLenFuel (rx.length + 1) rx

/-- What the cart driver does at one receive with what the host has sent:
deliver up to `k` of the next bytes, or lose the next `k`. -/
inductive Cut where
  | take (k : Nat)
  | lose (k : Nat)
  deriving DecidableEq, Repr

/-- The receive buffer, and the bytes the driver has not consumed yet. -/
structure Pulled where
  rx : Bytes
  pending : Bytes
  arrived : Bool
  lost : Bool
  deriving DecidableEq, Repr

/-- The receive loop of `stream_frame`. The driver delivers nothing once
`cuts` are used up. -/
def pull : Nat → List Cut → Pulled → Pulled
  | 0, _, p => p
  | pulls + 1, cuts, p =>
    if agentRxCap ≤ p.rx.length then p
    else
      let r := rxFrameLen p.rx
      let p := { p with rx := r.2 }
      if r.1 ≠ 0 then p
      else
        match cuts with
        | [] => p
        | .lose k :: _ => { p with rx := [], pending := p.pending.drop k, lost := true }
        | .take k :: cuts =>
          let n := min k (min (agentRxCap - p.rx.length) p.pending.length)
          if n = 0 then p
          else pull pulls cuts
            { p with rx := p.rx ++ p.pending.take n, pending := p.pending.drop n, arrived := true }

structure Agent where
  ready : Bool
  initAttempts : Nat
  rx : Bytes
  rxDone : Nat
  rxIdleTicks : Nat
  deriving DecidableEq, Repr

def Agent.boot : Agent := ⟨false, 0, [], 0, 0⟩

/-- What one tick did: the frame it took off the buffer, the payload given to
`m64p_handle`, and whether the driver reported a loss or a partial frame was
thrown away for its age. -/
structure TickOut where
  frame : Option Bytes
  handled : Option Bytes
  lost : Bool
  expired : Bool
  deriving DecidableEq, Repr

/-- What `stream_frame` returns, and what it leaves. -/
structure Streamed where
  len : Nat
  agent : Agent
  pending : Bytes
  lost : Bool
  expired : Bool
  deriving DecidableEq, Repr

/-- The length of a complete frame now at the start of the buffer, or 0. The
call drops the frame the last one returned. -/
def Agent.streamFrame (a : Agent) (pending : Bytes) (cuts : List Cut) : Streamed :=
  let p := pull agentStreamPulls cuts ⟨a.rx.drop a.rxDone, pending, false, false⟩
  let r := rxFrameLen p.rx
  let a := { a with rx := r.2, rxDone := 0 }
  if r.1 ≠ 0 then ⟨r.1, { a with rxDone := r.1, rxIdleTicks := 0 }, p.pending, p.lost, false⟩
  else if p.arrived || a.rx.length = 0 then
    ⟨0, { a with rxIdleTicks := 0 }, p.pending, p.lost, false⟩
  -- A request cut short by a lost piece would otherwise swallow the host's retry.
  else if agentStreamStaleTicks ≤ a.rxIdleTicks + 1 then
    ⟨0, { a with rx := [], rxIdleTicks := 0 }, p.pending, p.lost, true⟩
  else ⟨0, { a with rxIdleTicks := a.rxIdleTicks + 1 }, p.pending, p.lost, false⟩

/-- The payload `agent_tick` finds in the frame of `size` bytes at the start
of the buffer: DATA on the application channel and not empty. -/
def tickPayload (rx : Bytes) (size : Nat) : Option Bytes :=
  if rx.take 4 ≠ magic then none
  else if byteAt rx 4 ≠ 0x10 || byteAt rx 5 ≠ 0x00 then none
  else
    let payloadLen := (readBe32 rx 12).toNat
    if payloadLen = 0 || size - headerLen < payloadLen then none
    else some (slice rx headerLen payloadLen)

/-- What a tick is given: whether the cart answers an initialization, and the
driver's receives. -/
structure TickIn where
  init : Bool
  cuts : List Cut
  deriving DecidableEq, Repr

def Agent.tick (a : Agent) (pending : Bytes) (input : TickIn) : TickOut × Agent × Bytes :=
  if !a.ready && agentInitAttempts ≤ a.initAttempts then (⟨none, none, false, false⟩, a, pending)
  else
    let a := if a.ready then a else { a with ready := input.init, initAttempts := a.initAttempts + 1 }
    if !a.ready then (⟨none, none, false, false⟩, a, pending)
    else
      let r := a.streamFrame pending input.cuts
      if r.len = 0 then (⟨none, none, r.lost, r.expired⟩, r.agent, r.pending)
      else
        (⟨some (r.agent.rx.take r.len), tickPayload r.agent.rx r.len, r.lost, r.expired⟩,
          r.agent, r.pending)

/-- What a run of ticks did, and where it ended. -/
structure Ran where
  outs : List TickOut
  agent : Agent
  pending : Bytes
  deriving DecidableEq, Repr

/-- A run of ticks over the bytes the host sends. -/
def Agent.run : Agent → Bytes → List TickIn → Ran
  | a, pending, [] => ⟨[], a, pending⟩
  | a, pending, input :: ins =>
    let r := a.tick pending input
    let rest := r.2.1.run r.2.2 ins
    { rest with outs := r.1 :: rest.outs }

/-- The frames of a whole byte string: the leftmost magic with an acceptable
header whose length fits the receive buffer, and on behind it; one byte on
past a rejected header. -/
def referenceRequests (s : Bytes) : List Bytes :=
  match findMagic s with
  | none => []
  | some i =>
    let t := s.drop i
    if _ : t.length < headerLen then []
    else if !rxHeaderPlausible t then referenceRequests (t.drop 1)
    else
      let len := headerLen + (readBe32 t 12).toNat
      if t.length < len then [] else t.take len :: referenceRequests (t.drop len)
termination_by s.length
decreasing_by
  · simp only [headerLen, List.length_drop, t] at *; omega
  · simp only [headerLen, List.length_drop, t, len] at *; omega

end Multi64
