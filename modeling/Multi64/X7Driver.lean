import Multi64.X7Cart

/-! `ed64.c`: the agent's driver for the EverDrive X7. -/

namespace Multi64

section Unit

variable (env : X7Env)

def callBegin (ticks : UInt32) : Drv Unit := do
  let now ← edCount env
  modify fun s => { s with callAt := now, callTicks := ticks, retry := false }

def outOfTime : Drv Bool := do
  let now ← edCount env
  let s ← get
  pure (decide (s.callTicks ≤ now - s.callAt))

inductive UsbIdle where
  | busy
  | idle (status : UsbStatus)
  | stuck

/-- The status reads of `usbIdle`; `none` once the transfer is overdue. -/
def usbIdleLoop (began : UInt32) : Nat → Drv (Option UsbIdle)
  | 0 => pure none
  | spins + 1 => do
    if (← outOfTime env) then pure (some .busy)
    else
      match (← piReadStatus env) with
      | none => do
        let s ← get
        if s.retry then usbIdleLoop began spins else pure (some .busy)
      | some status =>
        if status.act then do
          let now ← edCount env
          if edBusyTicks ≤ now - began then pure none else usbIdleLoop began spins
        else do
          modify fun s => { s with reading := false }
          pure (some (.idle status))

/-- The read under way is given up: where the stream stands is not known. -/
def X7.abandonRead (s : X7) : X7 :=
  { s with
    rxCut := s.pull != 0
    reading := false
    pull := 0
    owed := 0
    phase := .header
    abandoned := true }

def usbIdle : Drv UsbIdle := do
  let began ← edCount env
  match (← usbIdleLoop env began edBusySpins) with
  | some r => pure r
  | none => do
    let w ← piWriteStored env .rdNop
    if !w.ok && !w.stored then pure .busy
    else do
      let s ← get
      if s.reading then do
        modify X7.abandonRead
        pure .stuck
      else pure .stuck

/-- Ask for a read of `n` bytes into the window's end. -/
def usbAsk (n : Nat) : Drv Bool := do
  if (← outOfTime env) then pure false
  else do
    let w ← piWriteStored env (.rd (edWindow - n))
    if !w.ok && !w.stored then pure false
    else do
      modify fun s => { s with reading := true }
      pure true

/-- Wait for the read of `pull` bytes and load them. -/
def usbTake : Drv (Option Bytes) := do
  let s ← get
  let addr := edWindow - s.pull
  let first := addr / 4 * 4
  match (← usbIdle env) with
  | .idle _ => do
    if (← outOfTime env) then pure none
    else
      match (← piLoadWords env first ((edWindow - first) / 4)) with
      | none => pure none
      | some b => do
        modify fun s => { s with pull := 0 }
        pure (some (b.drop (addr - first)))
  | _ => pure none

end Unit

section Receive

variable (env : X7Env)

inductive Rx where
  | busy | clear | done | lost | full
  deriving DecidableEq, Repr

def X7.rxqToFront (s : X7) : X7 :=
  { s with rxq := s.rxq.write 0 (s.rxq.read s.rxqOff s.rxqLen), rxqOff := 0 }

def rxStopped : Drv Rx := do
  let s ← get
  if s.rxCut then do
    modify fun s => { s with rxCut := false }
    pure .lost
  else pure .busy

/-- With no read to take, wait out what is active and take what is owed off USB
unread. The status is the last one read, if one was. -/
def drainOwed : Nat → Drv (Except Rx UsbStatus)
  | 0 => pure (.error .busy)
  | fuel + 1 => do
    let s ← get
    if s.pull = 0 then do
      let n := min s.owed edWindow
      match (← usbIdle env) with
      | .idle status =>
        if n = 0 then pure (.ok status)
        else do
          if (← usbAsk env n) then do
            modify fun s => { s with owed := s.owed - n }
            drainOwed fuel
          else pure (.error .busy)
      | _ => do
        let r ← rxStopped
        pure (.error r)
    else pure (.ok ⟨false, false, false⟩)

def rxTrailer : Drv Rx := do
  match (← usbTake env) with
  | none => rxStopped
  | some b => do
    modify fun s => { s with phase := .header }
    if b.take 4 ≠ cmpMagic then pure .lost
    else do
      modify fun s => { s with rxqLen := s.rxqLen + s.msgGot }
      pure .done

/-- Bytes of the message go to the queue's end, but not the padding byte. -/
def X7.put (b : Bytes) (s : X7) : X7 :=
  { s with
    rxq := s.rxq.write (s.rxqOff + s.rxqLen + s.msgGot) (b.take (s.msgSize - s.msgGot))
    msgGot := s.msgGot + min b.length (s.msgSize - s.msgGot)
    high := max s.high (s.rxqOff + s.rxqLen + s.msgGot + min b.length (s.msgSize - s.msgGot)) }

/-- `none` once the payload is read. -/
def payloadLoop : Nat → Drv (Option Rx)
  | 0 => pure (some .busy)
  | fuel + 1 => do
    let s ← get
    if s.pull ≠ 0 then
      match (← usbTake env) with
      | none => do
        let r ← rxStopped
        pure (some r)
      | some b => do
        modify (X7.put b)
        payloadLoop fuel
    else if 0 < s.msgLeft then do
      let n := min s.msgLeft edWindow
      if (← usbAsk env n) then do
        modify fun s => { s with pull := n, msgLeft := s.msgLeft - n }
        payloadLoop fuel
      else pure (some .busy)
    else pure none

def rxPayload : Drv Rx := do
  let s ← get
  match (← payloadLoop env (2 * s.msgLeft + 2)) with
  | some r => pure r
  | none => do
    if (← usbAsk env 4) then do
      modify fun s => { s with pull := 4, phase := .trailer }
      rxTrailer env
    else pure .busy

def rxRoom : Drv Rx := do
  modify X7.rxqToFront
  let s ← get
  if edRxqCap - s.rxqLen < s.msgSize then pure .full
  else do
    modify fun s => { s with phase := .payload }
    rxPayload env

/-- What a header's eight bytes say. -/
def rxHead (b : Bytes) : Drv Rx := do
  if b.take 4 ≠ dmaMagic then pure .lost
  else do
    let size := headSize b
    let left := (size + 1) / 2 * 2
    if byteAt b 4 ≠ multi64L3Type then do
      modify fun s => { s with msgLeft := left, owed := left + 4 }
      pure .done
    else if edRxqCap < size then do
      modify fun s => { s with msgLeft := left, owed := left + 4 }
      pure .lost
    else do
      modify fun s => { s with msgLeft := left, msgSize := size, msgGot := 0, phase := .room }
      rxRoom env

def rxTakeHeader : Drv Rx := do
  match (← usbTake env) with
  | none => rxStopped
  | some b => rxHead env b

def rxHeader (v : UsbStatus) : Drv Rx := do
  let s ← get
  if s.pull = 0 then
    if !v.power || v.rxf then pure .clear
    else do
      if (← usbAsk env 8) then do
        modify fun s => { s with pull := 8 }
        rxTakeHeader env
      else pure .busy
  else rxTakeHeader env

/-- Carry the receive path on from where it stands, as far as one message's end. -/
def usbReceive : Drv Rx := do
  let s ← get
  match (← drainOwed env (s.owed + 1)) with
  | .error r => pure r
  | .ok v => do
    let s ← get
    match s.phase with
    | .header => rxHeader env v
    | .room => rxRoom env
    | .payload => rxPayload env
    | .trailer => rxTrailer env

end Receive

section Api

variable (env : X7Env)

inductive Received where
  | bytes (b : Bytes)
  | lost
  deriving DecidableEq, Repr

/-- Hand over what is queued: a loss where it fell, else as much as `cap` allows. -/
def rxqTake (cap : Nat) : Drv Received := do
  let s ← get
  if s.rxqLost && s.rxqBeforeLoss == 0 then do
    modify fun s => { s with rxqLost := false }
    pure .lost
  else do
    let n := min s.rxqLen cap
    let n := if s.rxqLost then min n s.rxqBeforeLoss else n
    modify fun s =>
      { s with
        rxqOff := s.rxqOff + n
        rxqLen := s.rxqLen - n
        rxqBeforeLoss := if s.rxqLost then s.rxqBeforeLoss - n else s.rxqBeforeLoss }
    pure (.bytes (s.rxq.read s.rxqOff n))

def receiveOne (cap : Nat) : Drv Received := do
  callBegin env edReceiveTicks
  match (← usbReceive env) with
  | .done => rxqTake cap
  | .lost => pure .lost
  | _ => pure (.bytes [])

def receiveFromUsb (cap : Nat) : Drv Received := do
  let n ← receiveOne env cap
  let now ← edCount env
  modify fun s => { s with rxUsed := s.rxUsed + (now - s.callAt) }
  pure n

def ed64Receive (cap : Nat) : Drv Received := do
  let n ← rxqTake cap
  let s ← get
  if n = .bytes [] ∧ s.rxqLen = 0 then
    if edBurstTicks ≤ s.rxUsed then do
      modify fun s => { s with rxUsed := 0 }
      pure (.bytes [])
    else do
      let n ← receiveFromUsb env cap
      if n = .bytes [] ∨ n = .lost then do
        modify fun s => { s with rxUsed := 0 }
        pure n
      else pure n
  else if n = .bytes [] ∨ n = .lost then do
    modify fun s => { s with rxUsed := 0 }
    pure n
  else pure n

/-- Mark a loss read ahead; a second folds into the first, with what lay between. -/
def X7.markLoss (s : X7) : X7 :=
  if s.rxqLost then { s with rxqLen := s.rxqBeforeLoss }
  else { s with rxqLost := true, rxqBeforeLoss := s.rxqLen }

def readAheadLoop : Nat → Drv Bool
  | 0 => pure false
  | passes + 1 => do
    match (← usbReceive env) with
    | .clear => pure true
    | .done => readAheadLoop passes
    | .lost => do
      modify X7.markLoss
      readAheadLoop passes
    | _ => pure false

/-- Read every message the host has sent into the queue. -/
def readAhead : Drv Bool := readAheadLoop env edReadAheadMax

/-- One round of `startBlock`: whether the transfer has been asked for. -/
def tryBlock (words : Bytes) (first addr : Nat) : Drv Bool := do
  if (← outOfTime env) then pure false
  else if (← piWrite env .wrNop) then
    if (← outOfTime env) then pure false
    else if (← piStoreWords env words first) then
      if (← outOfTime env) then pure false
      else do
        let w ← piWriteStored env (.wr addr)
        pure (w.ok || w.stored)
    else pure false
  else pure false

def startBlock (words : Bytes) (first addr : Nat) : Nat → Drv Bool
  | 0 => pure false
  | rounds + 1 => do
    if (← tryBlock env words first addr) then pure true
    else do
      let s ← get
      if s.retry then
        if (← outOfTime env) then pure false
        else startBlock words first addr rounds
      else pure false

/-- The words the block of `n` bytes of the message at `p` is stored as, with
what fills the word it starts in. -/
def blockWords (data : Bytes) (p n : Nat) : Bytes :=
  let addr := edWindow - n
  List.replicate (addr - addr / 4 * 4) 0 ++ (List.range n).map fun i => messageByte data (p + i)

def sendLoop (data : Bytes) (total : Nat) : Nat → Nat → Drv Bool
  | 0, _ => pure false
  | fuel + 1, p => do
    if p < total then
      let n := min (total - p) edWindow
      let addr := edWindow - n
      if (← startBlock env (blockWords data p n) (addr / 4 * 4) addr env.patience) then do
        modify fun s => { s with retry := true }
        match (← usbIdle env) with
        | .idle _ => sendLoop data total fuel (p + n)
        | _ => pure false
      else pure false
    else pure true

def ed64Send (data : Bytes) : Drv Bool := do
  let total := messageTotal data.length
  if data.length = 0 ∨ maxMessageBytes < data.length then pure false
  else do
    callBegin env edSendTicks
    modify fun s => { s with rxUsed := 0 }
    if (← readAhead env) then do
      modify fun s => { s with retry := false }
      sendLoop env data total (total + 1) 0
    else pure false

end Api

end Multi64
