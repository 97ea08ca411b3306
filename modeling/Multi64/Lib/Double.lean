import Mathlib

/-! Numbers of double precision, as rationals with 53 bits: rounding to them, and
the operations on them that lose nothing. -/

namespace Multi64

/-- A rational with 53 bits that are not too small. -/
def IsDouble (q : ℚ) : Prop := ∃ m e : ℤ, |m| ≤ 2 ^ 53 ∧ -1074 ≤ e ∧ q = m * 2 ^ e

theorem isDouble_intCast {n : ℤ} (h : |n| ≤ 2 ^ 53) : IsDouble n := ⟨n, 0, h, by norm_num, by simp⟩

structure Double where
  val : ℚ
  exact : IsDouble val
  small : |val| < 2 ^ 1024
  deriving DecidableEq

inductive Flt where
  | finite (d : Double)
  | inf (negative : Bool)
  | nan
  deriving DecidableEq

def roundHalfEven (q : ℚ) : ℤ :=
  let below := q - ⌊q⌋
  if below < 1 / 2 ∨ below = 1 / 2 ∧ ⌊q⌋ % 2 = 0 then ⌊q⌋ else ⌊q⌋ + 1

@[simp] theorem roundHalfEven_intCast (n : ℤ) : roundHalfEven n = n := by simp [roundHalfEven]

theorem roundHalfEven_floor (q : ℚ) : roundHalfEven q = ⌊q⌋ ∨ roundHalfEven q = ⌊q⌋ + 1 := by
  simp only [roundHalfEven]
  split
  · exact .inl rfl
  · exact .inr rfl

/-- The exponent of the last bit. -/
def lastBit (q : ℚ) : ℤ := max (Int.log 2 |q| - 52) (-1074)

def rounded (q : ℚ) : ℚ := roundHalfEven (q / 2 ^ lastBit q) * 2 ^ lastBit q

section Rounding

variable {q : ℚ}

theorem two_zpow_pos (e : ℤ) : (0 : ℚ) < 2 ^ e := zpow_pos (by norm_num) e

theorem abs_lt_lastBit (q : ℚ) : |q / 2 ^ lastBit q| < 2 ^ 53 := by
  have hpow := two_zpow_pos (lastBit q)
  have hlog := Int.lt_zpow_succ_log_self (R := ℚ) (show 1 < 2 by norm_num) |q|
  have hexp : Int.log 2 |q| + 1 ≤ 53 + lastBit q := by
    have := le_max_left (Int.log 2 |q| - 52) (-1074)
    simp only [lastBit]
    omega
  have hle : (2 : ℚ) ^ (Int.log 2 |q| + 1) ≤ 2 ^ (53 + lastBit q) := zpow_le_zpow_right₀ (by norm_num) hexp
  rw [abs_div, abs_of_pos hpow, div_lt_iff₀ hpow]
  calc |q| < 2 ^ (Int.log 2 |q| + 1) := by exact_mod_cast hlog
    _ ≤ 2 ^ (53 + lastBit q) := hle
    _ = 2 ^ 53 * 2 ^ lastBit q := by rw [zpow_add₀ (by norm_num)]; norm_num

theorem rounded_isDouble (q : ℚ) : IsDouble (rounded q) := by
  have hlt := abs_lt.mp (abs_lt_lastBit q)
  refine ⟨roundHalfEven (q / 2 ^ lastBit q), lastBit q, ?_, le_max_right _ _, rfl⟩
  have hlow : -(2 : ℤ) ^ 53 ≤ ⌊q / 2 ^ lastBit q⌋ := Int.le_floor.mpr (by exact_mod_cast hlt.1.le)
  have hhigh : ⌊q / 2 ^ lastBit q⌋ < (2 : ℤ) ^ 53 := Int.floor_lt.mpr (by exact_mod_cast hlt.2)
  rw [abs_le]
  rcases roundHalfEven_floor (q / 2 ^ lastBit q) with h | h
  · rw [h]
    omega
  · rw [h]
    omega

/-- A double's last bit is not above the one it is given with. -/
theorem lastBit_le {m e : ℤ} (hm : |m| < 2 ^ 53) (hne : m ≠ 0) (he : -1074 ≤ e) : lastBit (m * 2 ^ e) ≤ e := by
  have hpow := two_zpow_pos e
  have hm' : |(m : ℚ)| < 2 ^ 53 := by exact_mod_cast hm
  have habs : |(m : ℚ) * 2 ^ e| = |(m : ℚ)| * 2 ^ e := by rw [abs_mul, abs_of_pos hpow]
  have hpos : 0 < |(m : ℚ) * 2 ^ e| := by
    rw [habs]
    exact mul_pos (abs_pos.mpr (by exact_mod_cast hne)) hpow
  have hsmall : |(m : ℚ) * 2 ^ e| < 2 ^ (53 + e) := by
    rw [habs, zpow_add₀ (by norm_num)]
    exact mul_lt_mul_of_pos_right (by exact_mod_cast hm') hpow
  have hlog := (Int.lt_zpow_iff_log_lt (R := ℚ) (show 1 < 2 by norm_num) hpos).mp (by exact_mod_cast hsmall)
  simp only [lastBit]
  omega

/-- The one number of 54 bits among the doubles' is twice a shorter one. -/
theorem IsDouble.short (h : IsDouble q) : ∃ m e : ℤ, |m| < 2 ^ 53 ∧ -1074 ≤ e ∧ q = m * 2 ^ e := by
  obtain ⟨m, e, hm, he, rfl⟩ := h
  by_cases hlt : |m| < 2 ^ 53
  · exact ⟨m, e, hlt, he, rfl⟩
  · have heven : m = 2 * (m / 2) := by
      rcases abs_cases m with ⟨habs, _⟩ | ⟨habs, _⟩
      all_goals omega
    refine ⟨m / 2, e + 1, ?_, by omega, ?_⟩
    · rcases abs_cases m with ⟨habs, _⟩ | ⟨habs, _⟩
      all_goals rcases abs_cases (m / 2) with ⟨habs', _⟩ | ⟨habs', _⟩
      all_goals omega
    · rw [zpow_add_one₀ (by norm_num)]
      have hcast : (m : ℚ) = 2 * ((m / 2 : ℤ) : ℚ) := by exact_mod_cast heven
      rw [hcast]
      ring

theorem rounded_nonneg (h : 0 ≤ q) : 0 ≤ rounded q := by
  have hpow := two_zpow_pos (lastBit q)
  have hfloor := Int.floor_nonneg.mpr (div_nonneg h hpow.le)
  have hround : 0 ≤ roundHalfEven (q / 2 ^ lastBit q) := by
    rcases roundHalfEven_floor (q / 2 ^ lastBit q) with hr | hr
    all_goals omega
  exact mul_nonneg (by exact_mod_cast hround) hpow.le

theorem rounded_eq (h : IsDouble q) : rounded q = q := by
  obtain ⟨m, e, hm, he, rfl⟩ := h.short
  by_cases hne : m = 0
  · simp [hne, rounded, roundHalfEven]
  · obtain ⟨k, hk⟩ := Int.le.dest (lastBit_le hm hne he)
    have hpow := two_zpow_pos (lastBit (m * 2 ^ e))
    have hint : (m : ℚ) * 2 ^ e / 2 ^ lastBit (m * 2 ^ e) = ((m * 2 ^ k : ℤ) : ℚ) := by
      rw [div_eq_iff hpow.ne']
      conv_lhs => rw [← hk, zpow_add₀ (by norm_num)]
      push_cast
      rw [zpow_natCast]
      ring
    rw [rounded, hint, roundHalfEven_intCast, ← hint, div_mul_cancel₀ _ hpow.ne']

end Rounding

def Flt.ofRat (q : ℚ) : Flt :=
  if h : |rounded q| < 2 ^ 1024 then .finite ⟨rounded q, rounded_isDouble q, h⟩ else .inf (q < 0)

/-- Toward zero. -/
def truncated (q : ℚ) : ℤ := if q < 0 then ⌈q⌉ else ⌊q⌋

/-- The remainder of C's `fmod`, which has the sign of the dividend. -/
def fmod (q m : ℚ) : ℚ := q - m * truncated (q / m)

section Integers

variable {q : ℚ}

theorem Flt.ofRat_val (d : Double) : Flt.ofRat d.val = .finite d := by
  have hr := rounded_eq d.exact
  have hsmall : |rounded d.val| < 2 ^ 1024 := hr.symm ▸ d.small
  rw [Flt.ofRat, dif_pos hsmall]
  congr

theorem Flt.ofRat_eq (h : IsDouble q) (hsmall : |q| < 2 ^ 1024) : Flt.ofRat q = .finite ⟨q, h, hsmall⟩ := Flt.ofRat_val ⟨q, h, hsmall⟩

theorem Flt.ofRat_finite {d : Double} (h : Flt.ofRat q = .finite d) : d.val = rounded q := by
  rw [Flt.ofRat] at h
  split at h
  · rw [← Flt.finite.inj h]
  · exact nomatch h

/-- A double that is not whole is below the doubles that are all whole. -/
theorem IsDouble.whole (h : IsDouble q) : (∃ n : ℤ, q = n) ∨ |q| < 2 ^ 53 := by
  obtain ⟨m, e, hm, -, rfl⟩ := h
  by_cases he : 0 ≤ e
  · obtain ⟨k, rfl⟩ := Int.eq_ofNat_of_zero_le he
    exact .inl ⟨m * 2 ^ k, by push_cast; rw [zpow_natCast]⟩
  · right
    have hpow := two_zpow_pos e
    have hsmall : (2 : ℚ) ^ e < 1 := zpow_lt_one_of_neg₀ (by norm_num) (by omega)
    have hm' : |(m : ℚ)| ≤ 2 ^ 53 := by exact_mod_cast hm
    rw [abs_mul, abs_of_pos hpow]
    nlinarith [abs_nonneg (m : ℚ)]

theorem IsDouble.ceil (h : IsDouble q) : IsDouble ⌈q⌉ := by
  obtain ⟨n, rfl⟩ | hsmall := h.whole
  · rwa [Int.ceil_intCast]
  · refine isDouble_intCast (abs_le.mpr ⟨?_, Int.ceil_le.mpr (by exact_mod_cast (abs_lt.mp hsmall).2.le)⟩)
    have hle : ((-2 ^ 53 : ℤ) : ℚ) < ⌈q⌉ := by
      push_cast
      exact (abs_lt.mp hsmall).1.trans_le (Int.le_ceil q)
    exact (by exact_mod_cast hle : (-2 ^ 53 : ℤ) < ⌈q⌉).le

theorem IsDouble.neg (h : IsDouble q) : IsDouble (-q) := by
  obtain ⟨m, e, hm, he, rfl⟩ := h
  exact ⟨-m, e, by rwa [abs_neg], he, by push_cast; ring⟩

theorem IsDouble.floor (h : IsDouble q) : IsDouble ⌊q⌋ := by
  have hneg := h.neg.ceil.neg
  rwa [Int.ceil_neg, Int.cast_neg, neg_neg] at hneg

theorem IsDouble.truncated (h : IsDouble q) : IsDouble (truncated q) := by
  by_cases hq : q < 0
  · rw [Multi64.truncated, if_pos hq]
    exact h.ceil
  · rw [Multi64.truncated, if_neg hq]
    exact h.floor

end Integers

end Multi64
