import Multi64.Lib.Bytes

/-! `DMA@` messages between host and an EverDrive X7: the host's encoder and
parser from `ed64-l2`, and the bytes the cart's driver sends. -/

namespace Multi64

def dmaMagic : Bytes := [0x44, 0x4D, 0x41, 0x40]

def cmpMagic : Bytes := [0x43, 0x4D, 0x50, 0x48]

def wireAlign : Nat := 2

def maxMessageBytes : Nat := 0x00FFFFFF

def multi64L3Type : UInt8 := 0x01

def alignUp (n unit : Nat) : Nat := (n + (unit - 1)) / unit * unit

/-- The datatype and the 24 bits of the size. -/
def messageHead (datatype : UInt8) (size : Nat) : Bytes :=
  [datatype, UInt8.ofNat (size / 0x10000), UInt8.ofNat (size / 0x100), UInt8.ofNat size]

/-- The size a header names. -/
def headSize (h : Bytes) : Nat := (byteAt h 5).toNat * 0x10000 + (byteAt h 6).toNat * 0x100 + (byteAt h 7).toNat

section Host

inductive WireError where
  | tooLong (len : Nat)
  | badTrailer (got : Bytes)
  deriving DecidableEq, Repr

/-- A message for the cart: the payload is padded, the trailer behind it. -/
def encodeMessage (datatype : UInt8) (payload : Bytes) : Except WireError Bytes :=
  if maxMessageBytes < payload.length then .error (.tooLong payload.length)
  else
    let padded := alignUp payload.length wireAlign
    .ok (dmaMagic ++ messageHead datatype payload.length ++
      (payload ++ List.replicate (padded - payload.length) 0) ++ cmpMagic)

structure WireMessage where
  datatype : UInt8
  payload : Bytes
  deriving DecidableEq, Repr

structure WireBuffer where
  buf : Bytes
  deriving DecidableEq, Repr

def findDma : Bytes → Option Nat
  | [] => none
  | b :: rest => if (b :: rest).take 4 = dmaMagic then some 0 else (findDma rest).map (· + 1)

/-- Drop what is before the first `DMA@`, but for a part of one at the end. -/
def WireBuffer.resync (w : WireBuffer) : WireBuffer :=
  match findDma w.buf with
  | some i => ⟨w.buf.drop i⟩
  | none => ⟨w.buf.drop (w.buf.length - min (dmaMagic.length - 1) w.buf.length)⟩

/-- A message from the cart: the trailer is right behind the payload, and the
whole is padded. -/
def WireBuffer.nextMessage (w : WireBuffer) : Except WireError (Option WireMessage) × WireBuffer :=
  let w := w.resync
  if w.buf.length < 8 then (.ok none, w)
  else
    let size := headSize w.buf
    let trailer := 8 + size
    let total := alignUp (trailer + cmpMagic.length) wireAlign
    if w.buf.length < total then (.ok none, w)
    else if slice w.buf trailer cmpMagic.length ≠ cmpMagic then
      (.error (.badTrailer (slice w.buf trailer cmpMagic.length)), ⟨w.buf.drop dmaMagic.length⟩)
    else (.ok (some ⟨byteAt w.buf 4, slice w.buf 8 size⟩), ⟨w.buf.drop total⟩)

end Host

section Cart

/-- Byte `p` of the message the cart sends. -/
def messageByte (data : Bytes) (p : Nat) : UInt8 :=
  let len := data.length
  if p < 4 then byteAt dmaMagic p
  else if p < 8 then byteAt (messageHead multi64L3Type len) (p - 4)
  else if p - 8 < len then byteAt data (p - 8)
  else if p - 8 - len < 4 then byteAt cmpMagic (p - 8 - len)
  else 0

/-- The length of the whole message. -/
def messageTotal (len : Nat) : Nat := (8 + len + 4 + 1) / 2 * 2

end Cart

section Head

variable {n : Nat}

theorem headSize_messageHead (datatype : UInt8) (h : n ≤ maxMessageBytes) (t : Bytes) :
    headSize (dmaMagic ++ (messageHead datatype n ++ t)) = n := by
  have hmax : maxMessageBytes = 0xFFFFFF := rfl
  have h5 : (UInt8.ofNat (n / 0x10000)).toNat = n / 0x10000 := by
    rw [UInt8.toNat_ofNat']
    omega
  have h6 : (UInt8.ofNat (n / 0x100)).toNat = n / 0x100 % 0x100 := UInt8.toNat_ofNat'
  have h7 : (UInt8.ofNat n).toNat = n % 0x100 := UInt8.toNat_ofNat'
  change (UInt8.ofNat (n / 0x10000)).toNat * 0x10000 + (UInt8.ofNat (n / 0x100)).toNat * 0x100 +
    (UInt8.ofNat n).toNat = n
  rw [h5, h6, h7]
  omega

@[simp] theorem messageHead_length (datatype : UInt8) (n : Nat) : (messageHead datatype n).length = 4 := rfl

@[simp] theorem dmaMagic_length : dmaMagic.length = 4 := rfl

@[simp] theorem cmpMagic_length : cmpMagic.length = 4 := rfl

end Head

section CartToHost

/-- The message the cart sends, all of it. -/
def cartMessage (data : Bytes) : Bytes := (List.range (messageTotal data.length)).map (messageByte data)

theorem map_range_add {α : Type} (f : Nat → α) (n m : Nat) :
    (List.range (n + m)).map f = (List.range n).map f ++ (List.range m).map fun i => f (n + i) := by
  rw [List.range_add, List.map_append, List.map_map]
  rfl

theorem map_range_byteAt (b : Bytes) : (List.range b.length).map (byteAt b) = b := by
  induction b with
  | nil => rfl
  | cons x b ih =>
    rw [List.length_cons, List.range_succ_eq_map, List.map_cons, List.map_map]
    exact congrArg (List.cons x) ih

theorem cartMessage_eq (data : Bytes) : cartMessage data =
    dmaMagic ++ (messageHead multi64L3Type data.length ++ (data ++ (cmpMagic ++
      List.replicate (messageTotal data.length - (12 + data.length)) 0))) := by
  have htotal : messageTotal data.length =
      4 + (4 + (data.length + (4 + (messageTotal data.length - (12 + data.length))))) := by
    unfold messageTotal
    omega
  have hmagic : (List.range 4).map (messageByte data) = dmaMagic := rfl
  have hhead : (List.range 4).map (fun i => messageByte data (4 + i)) = messageHead multi64L3Type data.length := rfl
  have hdata : (List.range data.length).map (fun i => messageByte data (4 + (4 + i))) = data := by
    refine (List.map_congr_left fun i hi => ?_).trans (map_range_byteAt data)
    have hlt := List.mem_range.mp hi
    rw [messageByte, if_neg (by omega), if_neg (by omega), if_pos (by omega),
      show 4 + (4 + i) - 8 = i by omega]
  have hcmp : (List.range 4).map (fun i => messageByte data (4 + (4 + (data.length + i)))) = cmpMagic := by
    refine (List.map_congr_left fun i hi => ?_).trans (map_range_byteAt cmpMagic)
    have hlt := List.mem_range.mp hi
    rw [messageByte, if_neg (by omega), if_neg (by omega), if_neg (by omega), if_pos (by omega),
      show 4 + (4 + (data.length + i)) - 8 - data.length = i by omega]
  have hpad : ∀ k, (List.range k).map (fun i => messageByte data (4 + (4 + (data.length + (4 + i))))) =
      List.replicate k 0 := by
    intro k
    refine List.eq_replicate_iff.mpr ⟨by rw [List.length_map, List.length_range], fun x hx => ?_⟩
    obtain ⟨i, -, rfl⟩ := List.mem_map.mp hx
    rw [messageByte, if_neg (by omega), if_neg (by omega), if_neg (by omega), if_neg (by omega)]
  rw [cartMessage, htotal, map_range_add, map_range_add, map_range_add, map_range_add, hmagic, hhead, hdata, hcmp,
    hpad, ← htotal]

/-- What the cart sends for a payload of any length is read back as it, and the
next byte is the one behind the padding. -/
theorem nextMessage_cartMessage {data : Bytes} (h : data.length ≤ maxMessageBytes) (rest : Bytes) :
    WireBuffer.nextMessage ⟨cartMessage data ++ rest⟩ = (.ok (some ⟨multi64L3Type, data⟩), ⟨rest⟩) := by
  have hlen : (cartMessage data).length = messageTotal data.length := by
    rw [cartMessage, List.length_map, List.length_range]
  have hge : 12 + data.length ≤ messageTotal data.length := by
    unfold messageTotal
    omega
  have heq := cartMessage_eq data
  generalize messageTotal data.length - (12 + data.length) = k at heq
  have hbuf : cartMessage data ++ rest = dmaMagic ++ (messageHead multi64L3Type data.length ++
      (data ++ (cmpMagic ++ (List.replicate k 0 ++ rest)))) := by
    simp only [heq, List.append_assoc]
  have hsync : WireBuffer.resync ⟨cartMessage data ++ rest⟩ = ⟨cartMessage data ++ rest⟩ := by
    rw [hbuf]
    rfl
  have hsize : headSize (cartMessage data ++ rest) = data.length := by
    rw [hbuf]
    exact headSize_messageHead _ h _
  have htotal : alignUp (8 + data.length + cmpMagic.length) wireAlign = messageTotal data.length := rfl
  have hdrop8 : (cartMessage data ++ rest).drop 8 = data ++ (cmpMagic ++ (List.replicate k 0 ++ rest)) := by
    rw [hbuf]
    rfl
  have hdata : slice (cartMessage data ++ rest) 8 data.length = data := by
    rw [slice, hdrop8, List.take_left' rfl]
  have hcmp : slice (cartMessage data ++ rest) (8 + data.length) cmpMagic.length = cmpMagic := by
    rw [slice, ← List.drop_drop, hdrop8, List.drop_left' rfl, List.take_left' rfl]
  have hdrop : (cartMessage data ++ rest).drop (messageTotal data.length) = rest := List.drop_left' hlen
  have hhead : byteAt (cartMessage data ++ rest) 4 = multi64L3Type := by
    rw [hbuf]
    rfl
  rw [WireBuffer.nextMessage, hsync]
  simp only [hsize, htotal, hcmp, hdata, hdrop, hhead]
  rw [if_neg (by rw [List.length_append]; omega), if_neg (by rw [List.length_append]; omega),
    if_neg (fun hne => hne rfl)]

end CartToHost

end Multi64
