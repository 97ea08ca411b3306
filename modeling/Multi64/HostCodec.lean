import Multi64.MemRequest

/-! The host's side of M64P, `m64p.rs`: requests to bytes, and bytes back to
responses. -/

namespace Multi64

inductive M64pError where
  | notM64p
  | truncated
  | unknownMsg (msg : UInt8)
  | echoedRequest (msg : UInt8)
  | tooManyRegions (n : Nat)
  | regionTooLarge (n : Nat)
  | totalTooLarge (n : Nat)
  deriving DecidableEq, Repr

inductive Response where
  | helloAck (proto : UInt8) (agentVer : UInt16) (rdramBytes : UInt32) (flags : UInt8)
      (romBytes : Option UInt32) (watchSlots : Option UInt8)
  | peekV (rid : UInt16) (regions : List Bytes) (events : List WatchEvent) (dropped : UInt16)
  | peekRom (rid : UInt16) (regions : List Bytes)
  | pokeAck (rid : UInt16) (applied : UInt8)
  | watchAck (rid : UInt16) (watching : UInt8)
  | err (rid : UInt16) (code : UInt8)
  deriving DecidableEq, Repr

/-- The request a response answers. A `HELLO_ACK` carries none. -/
def Response.rid : Response → Option UInt16
  | .helloAck .. => none
  | .peekV rid .. | .peekRom rid _ | .pokeAck rid _ | .watchAck rid _ | .err rid _ => some rid

/-- A slot to watch, as the host names it. -/
structure Slot where
  addr : UInt32
  len : UInt8
  at_ : UInt8
  values : Bytes
  deriving DecidableEq, Repr

section Encode

def checkLimits (lens : List Nat) : Except M64pError Unit :=
  if m64pMaxRegions < lens.length then .error (.tooManyRegions lens.length)
  else
    match lens.find? (m64pMaxRegionBytes < ·) with
    | some len => .error (.regionTooLarge len)
    | none => if m64pMaxTotalBytes < lens.sum then .error (.totalTooLarge lens.sum) else .ok ()

def encodeHello : Bytes := appHeader .hello

def encodePeek (msg : M64pMsg) (rid : UInt16) (regions : List (Region false)) : Except M64pError Bytes :=
  (checkLimits (regions.map (·.len.toNat))).map fun _ =>
    appHeader msg ++ encodeList rid (regions.map Region.encode)

def encodePeekv (rid : UInt16) (regions : List (Region false)) : Except M64pError Bytes :=
  encodePeek .peekv rid regions

def encodePeekrom (rid : UInt16) (regions : List (Region false)) : Except M64pError Bytes :=
  encodePeek .peekrom rid regions

def encodeWrite (w : UInt32 × Bytes) : Bytes := putBe32 w.1 ++ putBe16 (UInt16.ofNat w.2.length) ++ w.2

def encodePokev (rid : UInt16) (writes : List (UInt32 × Bytes)) : Except M64pError Bytes :=
  (checkLimits (writes.map (·.2.length))).map fun _ => appHeader .pokev ++ encodeList rid (writes.map encodeWrite)

def Slot.check (s : Slot) : Except M64pError Unit :=
  if m64pWatchMaxLen < s.len.toNat ∨ s.len = 0 then .error (.regionTooLarge s.len.toNat)
  else if m64pWatchMaxValues < s.values.length then .error (.regionTooLarge s.values.length)
  else if s.values ≠ [] ∧ s.len ≤ s.at_ then .error (.regionTooLarge s.at_.toNat)
  else .ok ()

def Slot.encode (s : Slot) : Bytes :=
  putBe32 s.addr ++ [s.len, s.at_, UInt8.ofNat s.values.length] ++ s.values

def encodeWatch (rid : UInt16) (slots : List Slot) : Except M64pError Bytes :=
  if 0xFF < slots.length then .error (.tooManyRegions slots.length)
  else
    (slots.forM Slot.check).map fun _ => appHeader .watch ++ encodeList rid (slots.map Slot.encode)

end Encode

section Parse

/-- The `n` length-prefixed blocks at `off`, and where they end. -/
def parseRegions (b : Bytes) : Nat → Nat → Except M64pError (List Bytes × Nat)
  | 0, off => .ok ([], off)
  | n + 1, off =>
    if b.length < off + 2 then .error .truncated
    else
      let len := (readBe16 b off).toNat
      if b.length < off + 2 + len then .error .truncated
      else (parseRegions b n (off + 2 + len)).map fun r => (slice b (off + 2) len :: r.1, r.2)

def parseEvents (b : Bytes) : Nat → Nat → Except M64pError (List WatchEvent)
  | 0, _ => .ok []
  | n + 1, off =>
    if b.length < off + 2 then .error .truncated
    else
      let len := (byteAt b (off + 1)).toNat
      if b.length < off + 2 + len then .error .truncated
      else (parseEvents b n (off + 2 + len)).map fun es => ⟨byteAt b off, slice b (off + 2) len⟩ :: es

/-- What is behind the regions of a `PEEKV_RESP`. -/
def parseTrailer (b : Bytes) (off : Nat) : Except M64pError (List WatchEvent × UInt16) :=
  if off + 3 ≤ b.length then
    (parseEvents b (byteAt b off).toNat (off + 3)).map fun es => (es, readBe16 b (off + 1))
  else .ok ([], 0)

def parseHelloAck (b : Bytes) : Except M64pError Response :=
  if b.length < 8 then .error .truncated
  else
    let flags := byteAt b 7
    let hasRom : Bool := flags &&& m64pFlagCartRom ≠ 0
    if hasRom ∧ b.length < 12 then .error .truncated
    else
      let romBytes := if hasRom then some (readBe32 b 8) else none
      let off := if hasRom then 12 else 8
      if flags &&& m64pFlagWatch ≠ 0 then
        if off < b.length then
          .ok (.helloAck (byteAt b 0) (readBe16 b 1) (readBe32 b 3) flags romBytes (some (byteAt b off)))
        else .error .truncated
      else .ok (.helloAck (byteAt b 0) (readBe16 b 1) (readBe32 b 3) flags romBytes none)

def parsePeek (b : Bytes) (rom : Bool) : Except M64pError Response :=
  if b.length < 3 then .error .truncated
  else do
    let (regions, off) ← parseRegions b (byteAt b 2).toNat 3
    if rom then .ok (.peekRom (readBe16 b 0) regions)
    else
      let (events, dropped) ← parseTrailer b off
      .ok (.peekV (readBe16 b 0) regions events dropped)

/-- One application payload. -/
def parse (app : Bytes) : Except M64pError Response :=
  if app.length < 5 ∨ app.take 4 ≠ m64pMagic then .error .notM64p
  else
    let msg := byteAt app 4
    let b := app.drop 5
    if msg = M64pMsg.helloAck.code then parseHelloAck b
    else if msg = M64pMsg.peekvResp.code then parsePeek b false
    else if msg = M64pMsg.peekromResp.code then parsePeek b true
    else if msg = M64pMsg.pokeAck.code then
      if b.length < 3 then .error .truncated else .ok (.pokeAck (readBe16 b 0) (byteAt b 2))
    else if msg = M64pMsg.watchAck.code then
      if b.length < 3 then .error .truncated else .ok (.watchAck (readBe16 b 0) (byteAt b 2))
    else if msg = M64pMsg.err.code then
      if b.length < 3 then .error .truncated else .ok (.err (readBe16 b 0) (byteAt b 2))
    else if [M64pMsg.hello, .peekv, .pokev, .peekrom, .watch].any (·.code = msg) then
      .error (.echoedRequest msg)
    else .error (.unknownMsg msg)

end Parse

end Multi64
