import Multi64.Lib.Image
import Multi64.Yaz0

/-! The header checksum that boot code verifies, `crc.rs`: the boot chip a ROM's
code belongs to, the two words it sums the ROM to, and where they are stored. -/

namespace Multi64

namespace Patch

def crcStart : Nat := 0x1000

def crcEnd : Nat := 0x101000

def crcOffset : Nat := 0x10

inductive Cic where
  | cic6101
  | cic6102
  | cic6103
  | cic6105
  deriving DecidableEq, Repr

def Cic.fromStr (s : String) : Option Cic :=
  if s = "6101" then some .cic6101
  else if s = "6102" then some .cic6102
  else if s = "6103" then some .cic6103
  else if s = "6105" then some .cic6105
  else none

def hexChar (n : Nat) : Char := .ofNat (if n < 10 then 0x30 + n else 0x57 + n)

def hex (b : Bytes) : String := .ofList (b.flatMap fun x => [hexChar (x.toNat / 0x10), hexChar (x.toNat % 0x10)])

def knownIpl3 : List (String × Cic) := [
  ("eaadcb8cca9c6ba1445f98f1727bf4adbabb88b2", .cic6101),
  ("b2afae246e1dab746bfb28cb346e2911965eefa1", .cic6102),
  ("3f7347aa0426ee97d96721b09b918d4c9cddb69b", .cic6103),
  ("4159269055e8a5be2e5c8e3e0f5e0d552f1e85ad", .cic6105)]

/-- The digest of the boot code that unit tests use for a retail one. -/
def testIpl3 : String := "49be16b4d8512c9fc2b7d0894757d87001090ccd"

section Identify

variable (sha1 : Bytes → Bytes) (cfgTest : Bool)

def identify (rom : Bytes) : Option Cic :=
  if rom.length < 0x1000 then none
  else
    let digest := hex (sha1 (slice rom 0x40 0xFC0))
    if cfgTest && digest = testIpl3 then some .cic6102
    else (knownIpl3.find? (·.1 = digest)).map (·.2)

end Identify

section Sum

variable (rom : Bytes) (cic : Cic)

structure Sums where
  t1 : UInt32
  t2 : UInt32
  t3 : UInt32
  t4 : UInt32
  t5 : UInt32
  t6 : UInt32

def seed : UInt32 :=
  match cic with
  | .cic6101 | .cic6102 => 0xF8CA4DDC
  | .cic6103 => 0xA3886759
  | .cic6105 => 0xDF26F436

def rotateLeft (d n : UInt32) : UInt32 := d <<< n ||| d >>> (32 - n)

/-- What the word at `i` adds. Only 6105's boot code mixes in a word of itself. -/
def mix (s : Sums) (i : Nat) : Sums :=
  let d := readBe32 rom i
  let t6 := s.t6 + d
  let t4 := if t6 < s.t6 then s.t4 + 1 else s.t4
  let t3 := s.t3 ^^^ d
  let rot := rotateLeft d (d &&& 0x1F)
  let t5 := s.t5 + rot
  let t2 := s.t2 ^^^ (if d < s.t2 then rot else t6 ^^^ d)
  let t1 := s.t1 +
    match cic with
    | .cic6105 => readBe32 rom (0x40 + 0x0710 + i % 0x100) ^^^ d
    | _ => t5 ^^^ d
  ⟨t1, t2, t3, t4, t5, t6⟩

def crcWords : List Nat := (List.range ((crcEnd - crcStart) / 4)).map fun k => crcStart + 4 * k

/-- The two words of a ROM that is at least `crcEnd` bytes long. -/
def compute : UInt32 × UInt32 :=
  let s := crcWords.foldl (mix rom cic) ⟨seed cic, seed cic, seed cic, seed cic, seed cic, seed cic⟩
  match cic with
  | .cic6103 => ((s.t6 ^^^ s.t4) + s.t3, (s.t5 ^^^ s.t2) + s.t1)
  | _ => (s.t6 ^^^ s.t4 ^^^ s.t3, s.t5 ^^^ s.t2 ^^^ s.t1)

def stored : Option (UInt32 × UInt32) := do
  let a ← readU32 rom crcOffset
  let b ← readU32 rom (crcOffset + 4)
  return (a, b)

/-- Where the ROM is too short to be summed, the code panics. -/
def fix : Option Bytes :=
  if rom.length < crcEnd then none
  else
    let (a, b) := compute rom cic
    some (overwrite (overwrite rom crcOffset (putBe32 a)) (crcOffset + 4) (putBe32 b))

end Sum

section Lemmas

variable {rom rom' out : Bytes} {cic : Cic}

/-- The checksum does not cover the header it is kept in. -/
theorem compute_congr (h : ∀ i, crcOffset + 8 ≤ i → byteAt rom' i = byteAt rom i) : compute rom' cic = compute rom cic := by
  have hword {i : Nat} (hi : 0x40 ≤ i) : readBe32 rom' i = readBe32 rom i :=
    readBe32_congr fun j hj _ => h j (by simp only [crcOffset]; omega)
  have hmix (s : Sums) : ∀ i ∈ crcWords, mix rom' cic s i = mix rom cic s i := by
    intro i hi
    obtain ⟨k, -, rfl⟩ := List.mem_map.mp hi
    have hstart : 0x40 ≤ crcStart + 4 * k := by
      simp only [crcStart]
      omega
    simp only [mix, hword hstart, hword (show 0x40 ≤ 0x40 + 0x0710 + (crcStart + 4 * k) % 0x100 by omega)]
  have hfold (s : Sums) : crcWords.foldl (mix rom' cic) s = crcWords.foldl (mix rom cic) s := List.foldl_ext _ _ s hmix
  unfold compute
  rw [hfold]

theorem stored_eq (h : 0x18 ≤ rom.length) : stored rom = some (readBe32 rom crcOffset, readBe32 rom (crcOffset + 4)) := by
  have ha : crcOffset + 4 ≤ rom.length := by
    simp only [crcOffset]
    omega
  have hb : crcOffset + 4 + 4 ≤ rom.length := by
    simp only [crcOffset]
    omega
  simp only [stored, readU32, if_pos ha, if_pos hb]
  rfl

/-- What storing the checksum leaves: the words it summed the ROM to, and the rest of the ROM. -/
structure Fixed (rom : Bytes) (cic : Cic) (out : Bytes) : Prop where
  long : crcEnd ≤ rom.length
  size : out.length = rom.length
  keeps : ∀ i, i < crcOffset ∨ crcOffset + 8 ≤ i → byteAt out i = byteAt rom i
  sums : stored out = some (compute out cic)

theorem fix_some (h : fix rom cic = some out) : Fixed rom cic out := by
  rw [fix] at h
  by_cases hlen : rom.length < crcEnd
  · rw [if_pos hlen] at h
    cases h
  rw [if_neg hlen] at h
  have hlong : crcEnd ≤ rom.length := Nat.not_lt.mp hlen
  have hhead : crcOffset + 4 + 4 ≤ rom.length := by
    simp only [crcEnd, crcOffset] at hlong ⊢
    omega
  generalize hab : compute rom cic = ab at h
  obtain ⟨a, b⟩ := ab
  have hmid : (overwrite rom crcOffset (putBe32 a)).length = rom.length := overwrite_length (by rw [putBe32_length]; omega)
  have hin : crcOffset + 4 + (putBe32 b).length ≤ (overwrite rom crcOffset (putBe32 a)).length := by
    rw [hmid, putBe32_length]
    omega
  obtain rfl := Option.some.inj h
  have hsize := (overwrite_length hin).trans hmid
  have hkeeps : ∀ i, i < crcOffset ∨ crcOffset + 8 ≤ i →
      byteAt (overwrite (overwrite rom crcOffset (putBe32 a)) (crcOffset + 4) (putBe32 b)) i = byteAt rom i := by
    intro i hi
    rw [byteAt_overwrite_outside hin (by rw [putBe32_length]; omega),
      byteAt_overwrite_outside (by rw [putBe32_length]; omega) (by rw [putBe32_length]; omega)]
  have hfirst : readBe32 (overwrite (overwrite rom crcOffset (putBe32 a)) (crcOffset + 4) (putBe32 b)) crcOffset = a := by
    rw [readBe32_congr fun j _ hj => byteAt_overwrite_outside hin (.inl hj)]
    exact readBe32_overwrite (by omega) a
  refine ⟨hlong, hsize, hkeeps, ?_⟩
  rw [stored_eq (by simp only [crcOffset] at hhead; omega), compute_congr fun i hi => hkeeps i (.inr hi), hab, hfirst,
    readBe32_overwrite (by rw [hmid]; omega)]

end Lemmas

end Patch

end Multi64
