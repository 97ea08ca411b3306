import Multi64.Lib.LuaValue

/-! Comparisons and sums of Lua's numbers, whichever of integer and float they are,
and the parts of a string between two of them. Whole numbers that are small are
compared, added and subtracted as they are. -/

namespace Multi64

namespace Flt

def add : Flt → Flt → Flt
  | .finite a, .finite b => .ofRat (a.val + b.val)
  | .inf a, .inf b => if a = b then .inf a else .nan
  | .nan, _ | _, .nan => .nan
  | .inf a, _ => .inf a
  | _, .inf b => .inf b

def sub : Flt → Flt → Flt
  | .finite a, .finite b => .ofRat (a.val - b.val)
  | .inf a, .inf b => if a = b then .nan else .inf a
  | .nan, _ | _, .nan => .nan
  | .inf a, _ => .inf a
  | _, .inf b => .inf !b

end Flt

namespace Lua

namespace Num

/-- A finite number as it is. -/
def exact : Num → Option ℚ
  | .int n => some n
  | .float (.finite d) => some d.val
  | .float _ => none

/-- Which infinity a number is. -/
def infinite : Num → Option Bool
  | .float (.inf negative) => some negative
  | _ => none

/-- Integers and floats are compared by what they are, without rounding. -/
def compare (finite : ℚ → ℚ → Bool) (equal : Bool) (a b : Num) : Bool :=
  match a.exact, b.exact, a.infinite, b.infinite with
  | some p, some q, _, _ => finite p q
  | _, _, some m, some n => (m && !n) || (equal && m = n)
  | _, some _, some m, _ => m
  | some _, _, _, some n => !n
  | _, _, _, _ => false

def lt (a b : Num) : Bool := compare (fun p q => p < q) false a b

def le (a b : Num) : Bool := compare (fun p q => p ≤ q) true a b

def add : Num → Num → Num
  | .int a, .int b => .int (wrap (a + b))
  | a, b => .float (a.toFlt.add b.toFlt)

def sub : Num → Num → Num
  | .int a, .int b => .int (wrap (a - b))
  | a, b => .float (a.toFlt.sub b.toFlt)

/-- `math.max`. -/
def max (a b : Num) : Num := if a.lt b then b else a

/-- `math.min`. -/
def min (a b : Num) : Num := if b.lt a then b else a

/-- A number that is whole, as an integer or as a float. -/
def Is (x : Num) (n : Int) : Prop := x.toInteger = some n

variable {x y : Num} {a b : Int}

@[simp] theorem is_int (n : Int) : Is (.int n) n := rfl

theorem Is.exact (h : x.Is a) : x.exact = some (a : ℚ) := by
  cases x with
  | int n =>
    obtain rfl : n = a := Option.some.inj h
    rfl
  | float x =>
    cases x with
    | finite d =>
      simp only [Is, toInteger] at h
      split at h
      next hwhole =>
        rw [Num.exact, ← hwhole.1, Option.some.inj h]
      · cases h
    | inf negative => cases h
    | nan => cases h

theorem Is.unique (h : x.Is a) (h' : x.Is b) : a = b := Option.some.inj (h.symm.trans h')

theorem Is.lt_iff (hx : x.Is a) (hy : y.Is b) : x.lt y ↔ a < b := by
  simp [lt, compare, hx.exact, hy.exact]

theorem Is.le_iff (hx : x.Is a) (hy : y.Is b) : x.le y ↔ a ≤ b := by
  simp [le, compare, hx.exact, hy.exact]

theorem Is.max (hx : x.Is a) (hy : y.Is b) : (x.max y).Is (Max.max a b) := by
  rw [Num.max]
  by_cases h : x.lt y
  · rw [if_pos h, max_eq_right ((hx.lt_iff hy).mp h).le]
    exact hy
  · rw [if_neg h, max_eq_left (not_lt.mp fun hlt => h ((hx.lt_iff hy).mpr hlt))]
    exact hx

theorem Is.min (hx : x.Is a) (hy : y.Is b) : (x.min y).Is (Min.min a b) := by
  rw [Num.min]
  by_cases h : y.lt x
  · rw [if_pos h, min_eq_right ((hy.lt_iff hx).mp h).le]
    exact hy
  · rw [if_neg h, min_eq_left (not_lt.mp fun hlt => h ((hy.lt_iff hx).mpr hlt))]
    exact hx

theorem double_of_small {n : Int} (h : |n| < 2 ^ 53) : |(n : ℚ)| < 2 ^ 1024 := by
  have hn : |(n : ℚ)| < 2 ^ 53 := by exact_mod_cast h
  exact hn.trans (pow_lt_pow_right₀ (by norm_num) (by norm_num))

theorem is_ofRat {n : Int} (h : |n| < 2 ^ 53) : (Num.float (.ofRat n)).Is n := by
  have hbounds := abs_lt.mp h
  rw [Is, Flt.ofRat_eq (isDouble_intCast h.le) (double_of_small h)]
  simp only [toInteger, Int.floor_intCast]
  rw [if_pos ⟨trivial, by omega, by omega⟩]

theorem Is.toFlt (h : x.Is a) (hsmall : |a| < 2 ^ 53) : ∃ d : Double, x.toFlt = .finite d ∧ d.val = a := by
  have hexact := h.exact
  cases x with
  | int n =>
    obtain rfl : n = a := Option.some.inj h
    exact ⟨_, Flt.ofRat_eq (isDouble_intCast hsmall.le) (double_of_small hsmall), rfl⟩
  | float x =>
    cases x with
    | finite d => exact ⟨d, rfl, Option.some.inj hexact⟩
    | inf negative => exact nomatch h
    | nan => exact nomatch h

theorem wrap_small {n : Int} (h : |n| < 2 ^ 53) : wrap n = n := by
  have hbounds := abs_lt.mp h
  rw [wrap]
  exact Int.bmod_eq_of_le_mul_two (by push_cast; omega) (by push_cast; omega)

theorem Is.add (hx : x.Is a) (hy : y.Is b) (ha : |a| < 2 ^ 53) (hb : |b| < 2 ^ 53) (hsum : |a + b| < 2 ^ 53) :
    (x.add y).Is (a + b) := by
  obtain ⟨d, hd, hda⟩ := hx.toFlt ha
  obtain ⟨e, he, heb⟩ := hy.toFlt hb
  have hfloat : (Num.float (x.toFlt.add y.toFlt)).Is (a + b) := by
    have hrat := is_ofRat hsum
    push_cast at hrat
    rw [hd, he, Flt.add, hda, heb]
    exact hrat
  cases x with
  | float x => exact hfloat
  | int n =>
    cases y with
    | float y => exact hfloat
    | int m =>
      obtain rfl : n = a := Option.some.inj hx
      obtain rfl : m = b := Option.some.inj hy
      rw [Num.add, wrap_small hsum]
      exact is_int _

theorem Is.sub (hx : x.Is a) (hy : y.Is b) (ha : |a| < 2 ^ 53) (hb : |b| < 2 ^ 53) (hdiff : |a - b| < 2 ^ 53) :
    (x.sub y).Is (a - b) := by
  obtain ⟨d, hd, hda⟩ := hx.toFlt ha
  obtain ⟨e, he, heb⟩ := hy.toFlt hb
  have hfloat : (Num.float (x.toFlt.sub y.toFlt)).Is (a - b) := by
    have hrat := is_ofRat hdiff
    push_cast at hrat
    rw [hd, he, Flt.sub, hda, heb]
    exact hrat
  cases x with
  | float x => exact hfloat
  | int n =>
    cases y with
    | float y => exact hfloat
    | int m =>
      obtain rfl : n = a := Option.some.inj hx
      obtain rfl : m = b := Option.some.inj hy
      rw [Num.sub, wrap_small hdiff]
      exact is_int _

section Natural

variable {a b : Nat}

theorem Is.le_nat (hx : x.Is a) (hy : y.Is b) : x.le y ↔ a ≤ b := by
  rw [hx.le_iff hy]
  exact Int.ofNat_le

theorem Is.lt_nat (hx : x.Is a) (hy : y.Is b) : x.lt y ↔ a < b := by
  rw [hx.lt_iff hy]
  exact Int.ofNat_lt

theorem Is.max_nat (hx : x.Is a) (hy : y.Is b) : (x.max y).Is (Max.max a b : Nat) := by
  push_cast
  exact hx.max hy

theorem Is.min_nat (hx : x.Is a) (hy : y.Is b) : (x.min y).Is (Min.min a b : Nat) := by
  push_cast
  exact hx.min hy

theorem Is.add_nat (hx : x.Is a) (hy : y.Is b) (h : a + b < 2 ^ 53) : (x.add y).Is (a + b : Nat) := by
  push_cast
  exact hx.add hy (abs_lt.mpr ⟨by omega, by omega⟩) (abs_lt.mpr ⟨by omega, by omega⟩) (abs_lt.mpr ⟨by omega, by omega⟩)

theorem Is.sub_nat (hx : x.Is a) (hy : y.Is b) (ha : a < 2 ^ 53) (h : b ≤ a) : (x.sub y).Is (a - b : Nat) := by
  push_cast [Nat.cast_sub h]
  exact hx.sub hy (abs_lt.mpr ⟨by omega, by omega⟩) (abs_lt.mpr ⟨by omega, by omega⟩) (abs_lt.mpr ⟨by omega, by omega⟩)

theorem Is.succ (hx : x.Is a) (h : a + 1 < 2 ^ 53) : (x.add (.int 1)).Is (a + 1) :=
  hx.add (is_int 1) (abs_lt.mpr ⟨by omega, by omega⟩) (by norm_num) (abs_lt.mpr ⟨by omega, by omega⟩)

theorem Is.isNeg (hx : x.Is a) : x.isNeg = false := by
  cases x with
  | int n =>
    obtain rfl : n = (a : Int) := Option.some.inj hx
    simp [Num.isNeg]
  | float x =>
    have hval := hx.exact
    cases x with
    | finite d =>
      have hd : d.val = (a : ℚ) := by exact_mod_cast Option.some.inj hval
      simp [Num.isNeg, hd]
    | inf negative => exact nomatch hx
    | nan => exact nomatch hx

theorem Is.isPos (hx : x.Is a) : x.isPos ↔ 0 < a := by
  cases x with
  | int n =>
    obtain rfl : n = (a : Int) := Option.some.inj hx
    simp [Num.isPos]
  | float x =>
    have hval := hx.exact
    cases x with
    | finite d =>
      have hd : d.val = (a : ℚ) := by exact_mod_cast Option.some.inj hval
      simp [Num.isPos, hd]
    | inf negative => exact nomatch hx
    | nan => exact nomatch hx

end Natural

end Num

section Strings

variable {s : Bytes} {i j : Num} {a n : Nat}

/-- `s:sub(i, j)` of integers, where what is below 0 counts from the end. -/
def between (s : Bytes) (i j : Int) : Bytes :=
  let size : Int := s.length
  let first := if 0 < i then i else if i = 0 ∨ i < -size then 1 else size + i + 1
  let last := if size < j then size else if 0 ≤ j then j else if j < -size then 0 else size + j + 1
  slice s (first - 1).toNat (last - first + 1).toNat

/-- `s:sub(i, j)`. -/
def part (s : Bytes) (i j : Num) : Except Unit Bytes :=
  match i.toInteger, j.toInteger with
  | some i, some j => .ok (between s i j)
  | _, _ => .error ()

theorem between_slice (h : a + n ≤ s.length) : between s (a + 1) (a + n) = slice s a n := by
  have hfirst : ((a : Int) + 1 - 1).toNat = a := by omega
  have hcount : ((a : Int) + n - (a + 1) + 1).toNat = n := by omega
  rw [between, if_pos (by omega), if_neg (by omega), if_pos (by omega), hfirst, hcount]

theorem between_drop (h : a ≤ s.length) : between s (a + 1) (-1) = s.drop a := by
  have hfirst : ((a : Int) + 1 - 1).toNat = a := by omega
  rw [between, if_pos (by omega), if_neg (by omega), if_neg (by omega), hfirst]
  by_cases hnone : s.length = 0
  · simp [slice, List.length_eq_zero_iff.mp hnone]
  · have hcount : ((s.length : Int) + -1 + 1 - (a + 1) + 1).toNat = s.length - a := by omega
    rw [if_neg (by omega), hcount, slice, List.take_of_length_le (by simp)]

theorem part_slice (hi : i.Is (a + 1)) (hj : j.Is (a + n)) (h : a + n ≤ s.length) : part s i j = .ok (slice s a n) := by
  have hfirst : i.toInteger = some ((a : Int) + 1) := hi
  have hlast : j.toInteger = some ((a : Int) + n) := hj
  simp only [part, hfirst, hlast, between_slice h]

theorem part_drop (hi : i.Is (a + 1)) (h : a ≤ s.length) : part s i (.int (-1)) = .ok (s.drop a) := by
  have hfirst : i.toInteger = some ((a : Int) + 1) := hi
  have hlast : (Num.int (-1)).toInteger = some (-1) := rfl
  simp only [part, hfirst, hlast, between_drop h]

end Strings

end Lua

end Multi64
