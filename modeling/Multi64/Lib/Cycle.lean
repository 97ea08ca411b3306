import Mathlib

/-! A word over and over, and the lists that go on as they began. -/

namespace Multi64

section Cycle

variable {α : Type} {w x y : List α} {k n : Nat}

/-- The word `k` times. -/
def cycles (w : List α) (k : Nat) : List α := (List.replicate k w).flatten

theorem cycles_succ (w : List α) (k : Nat) : cycles w (k + 1) = w ++ cycles w k := by
  simp [cycles, List.replicate_succ]

theorem cycles_prefix (w : List α) (k : Nat) : cycles w k <+: cycles w (k + 1) := by
  simp [cycles, List.replicate_succ']

theorem prefix_cycles (hw : w ≠ []) (h : w ++ x = x ++ y) : ∃ k, w ++ x <+: cycles w k := by
  induction hn : x.length using Nat.strong_induction_on generalizing x with
  | h n ih =>
    have hx : x <+: w ++ x := h ▸ List.prefix_append x y
    by_cases hshort : x.length ≤ w.length
    · have hin := List.prefix_of_prefix_length_le hx (List.prefix_append w x) hshort
      refine ⟨2, ?_⟩
      have htwo : cycles w 2 = w ++ w := by simp [cycles]
      rw [htwo]
      exact (List.prefix_append_right_inj w).mpr hin
    · obtain ⟨x', rfl⟩ := List.prefix_of_prefix_length_le (List.prefix_append w x) hx (by omega)
      have hpos := List.length_pos_of_ne_nil hw
      rw [List.append_assoc] at h
      have hnext := List.append_cancel_left h
      rw [List.length_append] at hn
      obtain ⟨k, hk⟩ := ih x'.length (by omega) hnext rfl
      refine ⟨k + 1, ?_⟩
      rw [cycles_succ]
      exact (List.prefix_append_right_inj w).mpr hk

/-- A list begins with a word and then with itself exactly where it is that word
over and over, and a word longer than what is repeated. -/
theorem append_eq_iff_cycles (hw : w ≠ []) : w ++ x = x ++ y ↔ y.length = w.length ∧ ∃ k, x ++ y <+: cycles w k := by
  constructor
  · intro h
    have hlen := congrArg List.length h
    rw [List.length_append, List.length_append] at hlen
    exact ⟨by omega, h ▸ prefix_cycles hw h⟩
  · rintro ⟨hlen, k, hk⟩
    have hx : x <+: cycles w k := (List.prefix_append x y).trans hk
    have hfirst : w ++ x <+: cycles w (k + 1) := by
      rw [cycles_succ]
      exact (List.prefix_append_right_inj w).mpr hx
    have hsecond := hk.trans ( cycles_prefix w k)
    have hsame : (w ++ x).length = (x ++ y).length := by
      rw [List.length_append, List.length_append]
      omega
    exact (List.prefix_of_prefix_length_le hfirst hsecond (Nat.le_of_eq hsame)).eq_of_length hsame

end Cycle

end Multi64
