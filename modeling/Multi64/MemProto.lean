import Multi64.Lib.Ring
import Multi64.M64p

/-! The agent's protocol handler, `mem_proto.c`: reads and writes of RDRAM,
reads of cartridge ROM, watched slots, and the write it holds. An access
outside its bounds is a fault. -/

namespace Multi64

inductive Fault where
  | payload | rdram | reply | slot
  deriving DecidableEq, Repr

structure Rdram where
  size : UInt32
  byte : Nat → UInt8

structure WatchSlot where
  addr : UInt32
  len : UInt8
  at_ : UInt8
  values : Bytes
  last : Bytes
  haveLast : Bool
  deriving DecidableEq, Repr

structure WatchEvent where
  slot : UInt8
  bytes : Bytes
  deriving DecidableEq, Repr, Inhabited

/-- The statics of `mem_proto.c`, with the RDRAM they are used on. `watch` is
the slots watched now; `held` is the rid and count of the write acknowledged
last, while no other request was served. -/
structure MemProto where
  ram : Rdram
  watch : List WatchSlot
  events : Ring WatchEvent m64pWatchQueue
  dropped : UInt16
  requests : UInt32
  bytesRead : UInt32
  bytesWritten : UInt32
  errors : UInt32
  lastError : UInt8
  held : Option (UInt16 × UInt8)

/-- The build's switch and the cartridge hooks. `romBusy i` is what the PI is
like at the `i`-th read of a request. -/
structure Hooks where
  pokeOnce : Bool
  romSize : UInt32
  rom : Nat → UInt8
  romBusy : Nat → Bool

section Access

def load8 (p : Bytes) (i : Nat) : Except Fault UInt8 :=
  if i < p.length then .ok (byteAt p i) else .error .payload

def load16 (p : Bytes) (i : Nat) : Except Fault UInt16 :=
  if i + 2 ≤ p.length then .ok (readBe16 p i) else .error .payload

def load32 (p : Bytes) (i : Nat) : Except Fault UInt32 :=
  if i + 4 ≤ p.length then .ok (readBe32 p i) else .error .payload

def Rdram.load (r : Rdram) (a : Nat) : Except Fault UInt8 :=
  if a < r.size.toNat then .ok (r.byte a) else .error .rdram

def Rdram.store (r : Rdram) (a : Nat) (v : UInt8) : Except Fault Rdram :=
  if a < r.size.toNat then .ok { r with byte := Function.update r.byte a v } else .error .rdram

/-- Write behind what the reply buffer holds. -/
def putReply (reply b : Bytes) : Except Fault Bytes :=
  if reply.length + b.length ≤ m64pAppCap then .ok (reply ++ b) else .error .reply

end Access

def sendErr (s : MemProto) (rid : UInt16) (e : M64pErr) : MemProto × Bytes :=
  ({ s with errors := s.errors + 1, lastError := e.code }, appHeader .err ++ putBe16 rid ++ [e.code])

def watchClear (s : MemProto) : MemProto :=
  { s with watch := [], events := s.events.clear, dropped := 0 }

def handleHello (h : Hooks) (s : MemProto) : MemProto × Bytes :=
  let flags := m64pFlagWritable ||| (if h.pokeOnce then m64pFlagPokeOnce else 0) |||
    (if h.romSize ≠ 0 then m64pFlagCartRom else 0) ||| m64pFlagWatch
  (watchClear s,
    appHeader .helloAck ++ [m64pProtoVersion] ++ putBe16 0x0100 ++ putBe32 s.ram.size ++ [flags] ++
      (if h.romSize ≠ 0 then putBe32 h.romSize else []) ++ [UInt8.ofNat m64pWatchSlots])

/-- The walk of `validate_regions` from `off`, with `n` regions to go. -/
def validateLoop (body : Bytes) (strideIncludesData : Bool) (space : UInt32) :
    Nat → Nat → Nat → Except Fault (Except M64pErr Nat)
  | 0, _, total => return .ok total
  | n + 1, off, total =>
    if body.length < off + 6 then return .error .malformed
    else do
      let addr ← load32 body off
      let len ← load16 body (off + 4)
      let off := off + 6
      if m64pMaxRegionBytes < len.toNat then return .error .tooLarge
      else if m64pMaxTotalBytes < total + len.toNat then return .error .tooLarge
      else if space < addr || space - addr < len.toUInt32 then return .error .range
      else if strideIncludesData && body.length < off + len.toNat then return .error .malformed
      else
        validateLoop body strideIncludesData space n
          (if strideIncludesData then off + len.toNat else off) (total + len.toNat)

def validateRegions (body : Bytes) (n : UInt8) (strideIncludesData : Bool) (space : UInt32) :
    Except Fault (Except M64pErr Nat) :=
  if m64pMaxRegions < n.toNat then return .error .tooMany
  else validateLoop body strideIncludesData space n.toNat 3 0

section Watch

/-- Queue one event, dropping the oldest when the queue is full. -/
def watchPush (s : MemProto) (e : WatchEvent) : MemProto :=
  let dropped :=
    if s.events.count = m64pWatchQueue ∧ s.dropped ≠ 0xFFFF then s.dropped + 1 else s.dropped
  { s with events := s.events.push e, dropped := dropped }

/-- One slot of `m64p_watch_tick`: what it remembers, and the event if there
is one. -/
def watchSlotTick (ram : Rdram) (i : Nat) (w : WatchSlot) : WatchSlot × Option WatchEvent :=
  let now := (List.range w.len.toNat).map fun j => ram.byte (w.addr.toNat + j)
  let w' := { w with last := now, haveLast := true }
  if !w.haveLast then (w', none)
  else if now = w.last || now.all (· = 0) then (w', none)
  else if w.values = [] || w.values.any (· = byteAt now w.at_.toNat) then
    (w', some ⟨UInt8.ofNat i, now⟩)
  else (w', none)

def watchTickLoop : Nat → List WatchSlot → MemProto → MemProto
  | _, [], s => s
  | i, w :: ws, s =>
    let r := watchSlotTick s.ram i w
    let s := { s with watch := s.watch.set i r.1 }
    watchTickLoop (i + 1) ws (match r.2 with | some e => watchPush s e | none => s)

/-- `m64p_watch_tick`, once per game frame. -/
def m64pWatchTick (s : MemProto) : MemProto := watchTickLoop 0 s.watch s

/-- The queued events a trailer has room for behind `at` bytes of it. -/
def trailerEvents (room : Nat) : List WatchEvent → Nat → List WatchEvent
  | [], _ => []
  | e :: es, at_ =>
    if room < at_ + 2 + e.bytes.length then []
    else e :: trailerEvents room es (at_ + 2 + e.bytes.length)

def WatchEvent.encode (e : WatchEvent) : Bytes := [e.slot, UInt8.ofNat e.bytes.length] ++ e.bytes

/-- The trailer that fits in `room`, and the queue without its events. -/
def watchTrailer (s : MemProto) (room : Nat) : Bytes × MemProto :=
  if room < 3 then ([], s)
  else
    let es := trailerEvents room s.events.contents 3
    ([UInt8.ofNat es.length] ++ putBe16 s.dropped ++ es.flatMap WatchEvent.encode,
      { s with events := s.events.dropFirst es.length })

/-- The slots of a WATCH from `off`, behind the `i` already built. -/
def watchSlotsLoop (body : Bytes) (size : UInt32) :
    Nat → Nat → Nat → Except Fault (Except M64pErr (List WatchSlot))
  | 0, _, _ => return .ok []
  | n + 1, i, off =>
    if body.length < off + 7 then return .error .malformed
    else do
      let len ← load8 body (off + 4)
      let nvalues ← load8 body (off + 6)
      if len = 0 || m64pWatchMaxLen < len.toNat || m64pWatchMaxValues < nvalues.toNat then
        return .error .tooLarge
      else if body.length < off + 7 + nvalues.toNat then return .error .malformed
      else
        if m64pWatchSlots ≤ i then throw .slot
        let addr ← load32 body off
        let at_ ← load8 body (off + 5)
        if nvalues ≠ 0 && len ≤ at_ then return .error .range
        else if size < addr + len.toUInt32 || size < addr then return .error .range
        else
          let values := slice body (off + 7) nvalues.toNat
          let w : WatchSlot := ⟨addr, len, at_, values, List.replicate len.toNat 0, false⟩
          match ← watchSlotsLoop body size n (i + 1) (off + 7 + nvalues.toNat) with
          | .error e => return .error e
          | .ok ws => return .ok (w :: ws)

def handleWatch (s : MemProto) (body : Bytes) : Except Fault (MemProto × Bytes) :=
  if body.length < 3 then return sendErr s 0 .malformed
  else do
    let rid ← load16 body 0
    let n ← load8 body 2
    if m64pWatchSlots < n.toNat then return sendErr s rid .tooMany
    else
      match ← watchSlotsLoop body s.ram.size n.toNat 0 3 with
      | .error e => return sendErr s rid e
      | .ok next =>
        let s := watchClear s
        return ({ s with watch := next, requests := s.requests + 1 },
          appHeader .watchAck ++ putBe16 rid ++ [n])

end Watch

section Regions

def copyOut (ram : Rdram) : Nat → Nat → Bytes → Except Fault Bytes
  | 0, _, reply => return reply
  | k + 1, addr, reply => do
    let b ← ram.load addr
    let reply ← putReply reply [b]
    copyOut ram k (addr + 1) reply

def peekLoop (ram : Rdram) (body : Bytes) : Nat → Nat → Bytes → Except Fault Bytes
  | 0, _, reply => return reply
  | n + 1, off, reply => do
    let addr ← load32 body off
    let len ← load16 body (off + 4)
    let reply ← putReply reply (putBe16 len)
    let reply ← copyOut ram len.toNat addr.toNat reply
    peekLoop ram body n (off + 6) reply

def handlePeekv (s : MemProto) (body : Bytes) : Except Fault (MemProto × Bytes) :=
  if body.length < 3 then return sendErr s 0 .malformed
  else do
    let rid ← load16 body 0
    let n ← load8 body 2
    match ← validateRegions body n false s.ram.size with
    | .error e => return sendErr s rid e
    | .ok total =>
      let reply ← putReply [] (appHeader .peekvResp ++ putBe16 rid ++ [n])
      let reply ← peekLoop s.ram body n.toNat 3 reply
      let (trailer, s) := if s.watch = [] then ([], s) else watchTrailer s (m64pAppCap - reply.length)
      let reply ← putReply reply trailer
      return ({ s with requests := s.requests + 1, bytesRead := s.bytesRead + UInt32.ofNat total },
        reply)

def copyIn (body : Bytes) : Nat → Nat → Nat → Rdram → Except Fault Rdram
  | 0, _, _, ram => return ram
  | k + 1, src, addr, ram => do
    let b ← load8 body src
    let ram ← ram.store addr b
    copyIn body k (src + 1) (addr + 1) ram

def pokeLoop (body : Bytes) : Nat → Nat → Rdram → Except Fault Rdram
  | 0, _, ram => return ram
  | n + 1, off, ram => do
    let addr ← load32 body off
    let len ← load16 body (off + 4)
    let ram ← copyIn body len.toNat (off + 6) addr.toNat ram
    pokeLoop body n (off + 6 + len.toNat) ram

def handlePokev (s : MemProto) (body : Bytes) : Except Fault (MemProto × Bytes) :=
  if body.length < 3 then return sendErr s 0 .malformed
  else do
    let rid ← load16 body 0
    let n ← load8 body 2
    match ← validateRegions body n true s.ram.size with
    | .error e => return sendErr s rid e
    | .ok total =>
      -- Validated in full before the first byte lands.
      let ram ← pokeLoop body n.toNat 3 s.ram
      return ({ s with
          ram := ram, requests := s.requests + 1
          bytesWritten := s.bytesWritten + UInt32.ofNat total },
        appHeader .pokeAck ++ putBe16 rid ++ [n])

/-- `none` is a PI that stayed busy. It may have left part of the bytes in
the buffer. -/
def romLoop (h : Hooks) (body : Bytes) : Nat → Nat → Nat → Bytes → Except Fault (Option Bytes)
  | 0, _, _, reply => return some reply
  | n + 1, i, off, reply => do
    let addr ← load32 body off
    let len ← load16 body (off + 4)
    let reply ← putReply reply (putBe16 len)
    let reply ← putReply reply ((List.range len.toNat).map fun j => h.rom (addr.toNat + j))
    if len ≠ 0 && h.romBusy i then return none
    else romLoop h body n (i + 1) (off + 6) reply

def handlePeekrom (h : Hooks) (s : MemProto) (body : Bytes) : Except Fault (MemProto × Bytes) :=
  if body.length < 3 then return sendErr s 0 .malformed
  else do
    let rid ← load16 body 0
    let n ← load8 body 2
    if h.romSize = 0 then return sendErr s rid .unsupported
    else
      match ← validateRegions body n false h.romSize with
      | .error e => return sendErr s rid e
      | .ok total =>
        let reply ← putReply [] (appHeader .peekromResp ++ putBe16 rid ++ [n])
        match ← romLoop h body n.toNat 0 3 reply with
        | none => return sendErr s rid .busy
        | some reply =>
          return ({ s with requests := s.requests + 1, bytesRead := s.bytesRead + UInt32.ofNat total },
            reply)

end Regions

/-- The dispatcher: the new state and the reply, or `none` for a payload that
is not M64P. -/
def m64pDispatch (h : Hooks) (s : MemProto) (p : Bytes) : Except Fault (Option (MemProto × Bytes)) :=
  if p.length < 5 then return none
  else if p.take 4 ≠ m64pMagic then return none
  else do
    let msg ← load8 p 4
    let body := p.drop 5
    if msg = M64pMsg.hello.code then return some (handleHello h { s with requests := s.requests + 1 })
    else if msg = M64pMsg.peekv.code then return some (← handlePeekv s body)
    else if msg = M64pMsg.pokev.code then return some (← handlePokev s body)
    else if msg = M64pMsg.peekrom.code then return some (← handlePeekrom h s body)
    else if msg = M64pMsg.watch.code then return some (← handleWatch s body)
    else if 2 ≤ body.length then return some (sendErr s (← load16 body 0) .malformed)
    else return some (sendErr s 0 .malformed)

/-- Serve a request that is no repeat, and hold it if it is a write that
raised no error. -/
def m64pServe (h : Hooks) (s : MemProto) (p : Bytes) (poke : Bool) :
    Except Fault (Option (MemProto × Bytes)) := do
  match ← m64pDispatch h s p with
  | none => return none
  | some (s', reply) =>
    if poke && s'.errors = s.errors then
      return some ({ s' with held := some (← load16 p 5, ← load8 p 7) }, reply)
    else return some ({ s' with held := none }, reply)

/-- `m64p_handle`. A build without the switch has the dispatcher alone. -/
def m64pHandle (h : Hooks) (s : MemProto) (p : Bytes) : Except Fault (Option (MemProto × Bytes)) :=
  if !h.pokeOnce then m64pDispatch h s p
  else do
    let poke : Bool := 8 ≤ p.length && byteAt p 4 = M64pMsg.pokev.code && p.take 4 = m64pMagic
    match poke, s.held with
    | true, some (rid, applied) =>
      if (← load16 p 5) = rid then
        return some ({ s with requests := s.requests + 1 },
          appHeader .pokeAck ++ [← load8 p 5, ← load8 p 6, applied])
      else m64pServe h s p poke
    | _, _ => m64pServe h s p poke

end Multi64
