import Multi64.MemProto

/-! What an M64P request means: the regions and slots it names, the bytes it
is sent as, and what serving it does. -/

namespace Multi64

/-- A region of a request. In a write it carries its bytes. -/
@[ext] structure Region (withData : Bool) where
  addr : UInt32
  len : UInt16
  data : Bytes
  carries : data.length = if withData then len.toNat else 0
  deriving DecidableEq

/-- A slot as a WATCH describes it. -/
@[ext] structure SlotSpec where
  addr : UInt32
  len : UInt8
  at_ : UInt8
  values : Bytes
  short : values.length < 0x100
  deriving DecidableEq

inductive Request where
  | hello
  | peekv (rid : UInt16) (rs : List (Region false))
  | pokev (rid : UInt16) (rs : List (Region true))
  | peekrom (rid : UInt16) (rs : List (Region false))
  | watch (rid : UInt16) (slots : List SlotSpec)
  deriving DecidableEq

section Encode

variable {w : Bool}

def Region.encode (r : Region w) : Bytes := putBe32 r.addr ++ putBe16 r.len ++ r.data

def SlotSpec.encode (s : SlotSpec) : Bytes :=
  putBe32 s.addr ++ [s.len, s.at_, UInt8.ofNat s.values.length] ++ s.values

def encodeList (rid : UInt16) (items : List Bytes) : Bytes :=
  putBe16 rid ++ [UInt8.ofNat items.length] ++ items.flatten

def Request.encode : Request → Bytes
  | .hello => appHeader .hello
  | .peekv rid rs => appHeader .peekv ++ encodeList rid (rs.map Region.encode)
  | .pokev rid rs => appHeader .pokev ++ encodeList rid (rs.map Region.encode)
  | .peekrom rid rs => appHeader .peekrom ++ encodeList rid (rs.map Region.encode)
  | .watch rid slots => appHeader .watch ++ encodeList rid (slots.map SlotSpec.encode)

end Encode

section Fits

variable {w : Bool}

/-- In range and no longer than a region may be. -/
def Region.FitsIn (space : UInt32) (r : Region w) : Prop :=
  r.addr.toNat + r.len.toNat ≤ space.toNat ∧ r.len.toNat ≤ m64pMaxRegionBytes

def totalLen (rs : List (Region w)) : Nat := (rs.map fun r => r.len.toNat).sum

structure RegionsFit (space : UInt32) (rs : List (Region w)) : Prop where
  count : rs.length ≤ m64pMaxRegions
  fits : ∀ r ∈ rs, r.FitsIn space
  total : totalLen rs ≤ m64pMaxTotalBytes

/-- The agent's test of a slot. Its address sum is the code's, modulo 2^32. -/
structure SlotSpec.FitsIn (size : UInt32) (s : SlotSpec) : Prop where
  len_pos : s.len ≠ 0
  len_le : s.len.toNat ≤ m64pWatchMaxLen
  values_le : s.values.length ≤ m64pWatchMaxValues
  filter : s.values ≠ [] → s.at_ < s.len
  range : s.addr + s.len.toUInt32 ≤ size ∧ s.addr ≤ size

/-- What the agent demands of a request before it serves it. -/
def Request.Fits (h : Hooks) (size : UInt32) : Request → Prop
  | .hello => True
  | .peekv _ rs => RegionsFit size rs
  | .pokev _ rs => RegionsFit size rs
  | .peekrom _ rs => h.romSize ≠ 0 ∧ RegionsFit h.romSize rs
  | .watch _ slots => slots.length ≤ m64pWatchSlots ∧ ∀ s ∈ slots, s.FitsIn size

end Fits

section Perform

def Rdram.bytes (r : Rdram) (addr k : Nat) : Bytes :=
  (List.range k).map fun j => r.byte (addr + j)

def Rdram.write (r : Rdram) (addr : Nat) (data : Bytes) : Rdram :=
  { r with byte := fun a =>
      if addr ≤ a ∧ a < addr + data.length then byteAt data (a - addr) else r.byte a }

def Rdram.writeAll (r : Rdram) (rs : List (Region true)) : Rdram :=
  rs.foldl (fun ram x => ram.write x.addr.toNat x.data) r

def SlotSpec.slot (s : SlotSpec) : WatchSlot :=
  ⟨s.addr, s.len, s.at_, s.values, List.replicate s.len.toNat 0, false⟩

def peekReply (ram : Rdram) (rs : List (Region false)) : Bytes :=
  rs.flatMap fun r => putBe16 r.len ++ ram.bytes r.addr.toNat r.len.toNat

def romReply (h : Hooks) (rs : List (Region false)) : Bytes :=
  rs.flatMap fun r => putBe16 r.len ++ (List.range r.len.toNat).map fun j => h.rom (r.addr.toNat + j)

/-- The reply of a list request: its message, rid and count in front. -/
def listReply (msg : M64pMsg) (rid : UInt16) (n : Nat) (rest : Bytes) : Bytes :=
  appHeader msg ++ putBe16 rid ++ [UInt8.ofNat n] ++ rest

/-- The trailer behind a PEEKV reply whose regions take `used` bytes. -/
def peekTrailer (s : MemProto) (used : Nat) : Bytes × MemProto :=
  if s.watch = [] then ([], s) else watchTrailer s (m64pAppCap - used)

/-- Serving a request that fits. -/
def perform (h : Hooks) (s : MemProto) : Request → MemProto × Bytes
  | .hello => handleHello h { s with requests := s.requests + 1 }
  | .peekv rid rs =>
    let reply := listReply .peekvResp rid rs.length (peekReply s.ram rs)
    let r := peekTrailer s reply.length
    ({ r.2 with
        requests := r.2.requests + 1, bytesRead := r.2.bytesRead + UInt32.ofNat (totalLen rs) },
      reply ++ r.1)
  | .pokev rid rs =>
    ({ s with
        ram := s.ram.writeAll rs, requests := s.requests + 1
        bytesWritten := s.bytesWritten + UInt32.ofNat (totalLen rs) },
      listReply .pokeAck rid rs.length [])
  | .peekrom rid rs =>
    ({ s with requests := s.requests + 1, bytesRead := s.bytesRead + UInt32.ofNat (totalLen rs) },
      listReply .peekromResp rid rs.length (romReply h rs))
  | .watch rid slots =>
    ({ watchClear s with watch := slots.map SlotSpec.slot, requests := s.requests + 1 },
      listReply .watchAck rid slots.length [])

/-- What the agent holds once it served `r`. -/
def Request.hold (h : Hooks) (old : Option (UInt16 × UInt8)) : Request → Option (UInt16 × UInt8)
  | .pokev rid rs => if h.pokeOnce then some (rid, UInt8.ofNat rs.length) else old
  | _ => if h.pokeOnce then none else old

end Perform

end Multi64
