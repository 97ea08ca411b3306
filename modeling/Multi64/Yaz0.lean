import Mathlib
import Multi64.Lib.Bytes

/-! The decompressor of `transform.rs` and the image it builds from a file
table: what a Yaz0 stream comes to, and when it stays within its file. -/

namespace Multi64

inductive TransformError where
  | noHeader (at_ : Nat)
  | tooBig (at_ size max : Nat)
  | corrupt (at_ : Nat)
  | tablePastEnd
  | tableEndless
  | noTable (table : Nat)
  | overLimit (size : Nat)
  | endsBeforeStart
  | filePastEnd (vrom : Nat)
  | inFile (vrom : Nat) (why : TransformError)
  deriving DecidableEq

def readU32 (b : Bytes) (i : Nat) : Option UInt32 := if i + 4 ≤ b.length then some (readBe32 b i) else none

section Decompress

variable (src : Bytes) (size at_ : Nat)

def yazMagic : Bytes := [0x59, 0x61, 0x7A, 0x30]

/-- `n` bytes from `dist` back, each one once it is there. -/
def copyBack (dist : Nat) : Nat → Bytes → Bytes
  | 0, out => out
  | n + 1, out => copyBack dist n (out ++ [byteAt out (out.length - dist)])

def yazByte (i : Nat) : Except TransformError UInt8 := if i < src.length then .ok (byteAt src i) else .error (.corrupt at_)

/-- What is left of a group: its code byte and `left` bits of it. -/
def yazGroup (code : UInt8) : Nat → Nat → Bytes → Except TransformError (Nat × Bytes)
  | 0, s, out => .ok (s, out)
  | left + 1, s, out =>
    if size ≤ out.length then .ok (s, out)
    else if code &&& (0x80 >>> UInt8.ofNat (7 - left)) ≠ 0 then do
      let b ← yazByte src at_ s
      yazGroup code left (s + 1) (out ++ [b])
    else do
      let b1 := (← yazByte src at_ s).toNat
      let b2 := (← yazByte src at_ (s + 1)).toNat
      let dist := b1 % 0x10 * 0x100 + b2 + 1
      if b1 / 0x10 = 0 then
        let n := (← yazByte src at_ (s + 2)).toNat + 0x12
        if out.length < dist then .error (.corrupt at_) else yazGroup code left (s + 3) (copyBack dist n out)
      else if out.length < dist then .error (.corrupt at_)
      else yazGroup code left (s + 2) (copyBack dist (b1 / 0x10 + 2) out)

/-- Group after group. Each takes its code byte, so `fuel` beyond the end of the
source is never used up. -/
def yazLoop : Nat → Nat → Bytes → Except TransformError Bytes
  | 0, _, out => if size ≤ out.length then .ok out else .error (.corrupt at_)
  | fuel + 1, s, out =>
    if size ≤ out.length then .ok out
    else do
      let code ← yazByte src at_ s
      let (s, out) ← yazGroup src size at_ code 8 (s + 1) out
      yazLoop fuel s out

/-- The size the header declares. -/
def yazSize : Nat := (readBe32 src (at_ + 4)).toNat

def yaz0 (max : Nat) : Except TransformError Bytes :=
  if ¬(at_ + 4 ≤ src.length ∧ slice src at_ 4 = yazMagic) then .error (.noHeader at_)
  else
    match readU32 src (at_ + 4) with
    | none => .error (.corrupt at_)
    | some size =>
      if max < size.toNat then .error (.tooBig at_ size.toNat max)
      else yazLoop src size.toNat at_ (src.length + 1) (at_ + 16) []

end Decompress

section Table

structure DmaEntry where
  at_ : Nat
  vromStart : UInt32
  vromEnd : UInt32
  romStart : UInt32
  romEnd : UInt32
  deriving DecidableEq

def dmaEntry (rom : Bytes) (at_ : Nat) : Option DmaEntry := do
  return ⟨at_, ← readU32 rom at_, ← readU32 rom (at_ + 4), ← readU32 rom (at_ + 8), ← readU32 rom (at_ + 12)⟩

/-- Entries up to the one that ends the table, of which `room` more may come. -/
def dmaLoop (rom : Bytes) (table : Nat) : Nat → Nat → Except TransformError (List DmaEntry)
  | room, at_ =>
    match dmaEntry rom at_ with
    | none => .error .tablePastEnd
    | some e =>
      if e.vromStart = 0 ∧ e.vromEnd = 0 ∧ table < at_ then .ok []
      else
        match room with
        | 0 => .error .tableEndless
        | room + 1 => (e :: ·) <$> dmaLoop rom table room (at_ + 16)

def dmaEntries (rom : Bytes) (table : Nat) : Except TransformError (List DmaEntry) := dmaLoop rom table 0x2000 table

/-- Whether the ROM holds the file at all. -/
def DmaEntry.used (e : DmaEntry) : Bool := e.romStart ≠ 0xFFFFFFFF

/-- How an image fails to be built: with an error, or in a panic. -/
inductive TransformFailure where
  | refused (e : TransformError)
  | panic
  deriving DecidableEq

/-- Copy over part of an image; what does not fit is a panic. -/
def copyInto (out : Bytes) (at_ : Nat) (b : Bytes) : Except TransformFailure Bytes :=
  if at_ + b.length ≤ out.length then .ok (overwrite out at_ b) else .error .panic

/-- The bytes of a file, decompressed where it is compressed. -/
def fileData (rom : Bytes) (e : DmaEntry) : Except TransformError Bytes :=
  if e.vromEnd < e.vromStart then .error .endsBeforeStart
  else
    let len := (e.vromEnd - e.vromStart).toNat
    if e.romEnd = 0 then
      if e.romStart.toNat + len ≤ rom.length then .ok (slice rom e.romStart.toNat len) else .error (.filePastEnd e.vromStart.toNat)
    else
      match yaz0 rom e.romStart.toNat len with
      | .ok data => .ok data
      | .error why => .error (.inFile e.vromStart.toNat why)

def placeFile (rom out : Bytes) (e : DmaEntry) : Except TransformFailure Bytes :=
  match fileData rom e with
  | .ok data => copyInto out e.vromStart.toNat data
  | .error why => .error (.refused why)

/-- The entry of a file that is plain where it is. -/
def rewriteEntry (out : Bytes) (e : DmaEntry) : Except TransformFailure Bytes :=
  copyInto out e.at_ (putBe32 e.vromStart ++ putBe32 e.vromEnd ++ putBe32 e.vromStart ++ putBe32 0)

/-- Where the last file of the image ends. -/
def imageEnd (entries : List DmaEntry) : Nat := (entries.map fun e => e.vromEnd.toNat).foldl max 0

def yaz0Dmadata (rom : Bytes) (table : UInt32) : Except TransformFailure Bytes :=
  match dmaEntries rom table.toNat with
  | .error why => .error (.refused why)
  | .ok entries =>
    if ¬entries.any (fun e => e.vromStart = table ∧ e.romStart = table) then .error (.refused (.noTable table.toNat))
    else
      let files := entries.filter (·.used)
      let last := imageEnd files
      if 0x04000000 < last then .error (.refused (.overLimit last))
      else if rom.length < 0x1000 then .error .panic
      else do
        let out ← copyInto (List.replicate (max last 0x00101000) 0) 0 (rom.take 0x1000)
        let out ← files.foldlM (placeFile rom) out
        files.foldlM rewriteEntry out

end Table

end Multi64
