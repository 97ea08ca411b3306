import Mathlib

/-! Text as Unicode characters: white space, trimming, splitting, and UTF-16. -/

namespace Multi64

abbrev Text := List Char

/-- The characters with the property White_Space. -/
def isWhitespace (c : Char) : Bool :=
  let n := c.toNat
  (9 ≤ n && n ≤ 13) || n = 0x20 || n = 0x85 || n = 0xA0 || n = 0x1680 || (0x2000 ≤ n && n ≤ 0x200A) || n = 0x2028 ||
    n = 0x2029 || n = 0x202F || n = 0x205F || n = 0x3000

namespace Text

def splitWhitespace (s : Text) : List Text := (s.splitOnP isWhitespace).filter (· ≠ [])

def trim (s : Text) : Text := (s.dropWhile isWhitespace).rdropWhile isWhitespace

/-- Split at the last `c`. -/
def rsplitOnce (c : Char) : Text → Option (Text × Text)
  | [] => none
  | x :: s =>
    match rsplitOnce c s with
    | some (a, b) => some (x :: a, b)
    | none => if x = c then some ([], s) else none

def encodeChar (c : Char) : List UInt16 :=
  let n := c.toNat
  if n < 0x10000 then [.ofNat n] else [.ofNat (0xD800 + (n - 0x10000) / 0x400), .ofNat (0xDC00 + (n - 0x10000) % 0x400)]

def encodeUtf16 (s : Text) : List UInt16 := s.flatMap encodeChar

/-- Surrogates that are not one of a pair become U+FFFD. -/
def fromUtf16Lossy : List UInt16 → Text
  | [] => []
  | u :: units =>
    let n := u.toNat
    if n < 0xD800 ∨ 0xDFFF < n then .ofNat n :: fromUtf16Lossy units
    else
      match units with
      | [] => [.ofNat 0xFFFD]
      | u' :: units' =>
        let n' := u'.toNat
        if n < 0xDC00 ∧ 0xDC00 ≤ n' ∧ n' ≤ 0xDFFF then
          .ofNat (0x10000 + (n - 0xD800) * 0x400 + (n' - 0xDC00)) :: fromUtf16Lossy units'
        else .ofNat 0xFFFD :: fromUtf16Lossy (u' :: units')

section Lemmas

variable {s t : Text} {c : Char}

theorem fromUtf16Lossy_encodeChar (c : Char) (units : List UInt16) :
    fromUtf16Lossy (encodeChar c ++ units) = c :: fromUtf16Lossy units := by
  have hvalid : c.toNat < 0xD800 ∨ 0xDFFF < c.toNat ∧ c.toNat < 0x110000 := by
    rcases c.valid with h | h
    · exact .inl h
    · exact .inr h
  unfold encodeChar
  by_cases hsmall : c.toNat < 0x10000
  · rw [if_pos hsmall, List.singleton_append, fromUtf16Lossy.eq_def]
    have hn : (UInt16.ofNat c.toNat).toNat = c.toNat := by
      rw [UInt16.toNat_ofNat', Nat.mod_eq_of_lt hsmall]
    simp only [hn]
    rw [if_pos (by omega), Char.ofNat_toNat]
  · rw [if_neg hsmall]
    have hhigh : (UInt16.ofNat (0xD800 + (c.toNat - 0x10000) / 0x400)).toNat = 0xD800 + (c.toNat - 0x10000) / 0x400 := by
      rw [UInt16.toNat_ofNat', Nat.mod_eq_of_lt (by omega)]
    have hlow : (UInt16.ofNat (0xDC00 + (c.toNat - 0x10000) % 0x400)).toNat = 0xDC00 + (c.toNat - 0x10000) % 0x400 := by
      rw [UInt16.toNat_ofNat', Nat.mod_eq_of_lt (by omega)]
    have hback : 0x10000 + (0xD800 + (c.toNat - 0x10000) / 0x400 - 0xD800) * 0x400 +
        (0xDC00 + (c.toNat - 0x10000) % 0x400 - 0xDC00) = c.toNat := by
      omega
    simp only [List.cons_append, List.nil_append, fromUtf16Lossy, hhigh, hlow]
    rw [if_neg (by omega), if_pos (by omega), hback, Char.ofNat_toNat]

theorem fromUtf16Lossy_encodeUtf16 (s : Text) : fromUtf16Lossy (encodeUtf16 s) = s := by
  induction s with
  | nil => simp [encodeUtf16, fromUtf16Lossy]
  | cons c s ih => rw [encodeUtf16, List.flatMap_cons, fromUtf16Lossy_encodeChar, ← encodeUtf16, ih]

/-- Only white space is trimmed. -/
theorem trim_spec (s : Text) : ∃ a b, s = a ++ trim s ++ b ∧ (∀ c ∈ a, isWhitespace c) ∧ ∀ c ∈ b, isWhitespace c := by
  have hfront := @List.takeWhile_append_dropWhile _ isWhitespace s
  have hback := @List.rdropWhile_append_rtakeWhile _ isWhitespace (s.dropWhile isWhitespace)
  refine ⟨s.takeWhile isWhitespace, (s.dropWhile isWhitespace).rtakeWhile isWhitespace, ?_, ?_, ?_⟩
  · rw [trim, List.append_assoc, hback, hfront]
  · exact fun c hc => List.mem_takeWhile_imp hc
  · exact fun c hc => List.mem_rtakeWhile_imp hc

theorem trim_eq_nil : trim s = [] ↔ ∀ c ∈ s, isWhitespace c := by
  constructor
  · intro h c hc
    obtain ⟨a, b, hs, ha, hb⟩ := trim_spec s
    rw [h, List.append_nil] at hs
    rw [hs] at hc
    exact (List.mem_append.mp hc).elim (ha c) (hb c)
  · intro h
    rw [trim, List.dropWhile_eq_nil_iff.mpr h, List.rdropWhile_nil]

end Lemmas

end Text

end Multi64
