import Mathlib

/-! What holds of every entry of a history and the entries before it. -/

namespace Multi64

variable {α : Type} {P Q : List α → α → Prop} {t : List α} {x : α}

def Every (P : List α → α → Prop) (t : List α) : Prop := ∀ before x, before ++ [x] <+: t → P before x

theorem Every.nil : Every P [] := by
  intro before x h
  simp at h

theorem Every.snoc (h : Every P t) (hx : P t x) : Every P (t ++ [x]) := by
  intro before y hy
  rcases List.prefix_concat_iff.mp hy with heq | hpre
  · obtain ⟨rfl, hlast⟩ := List.append_inj' heq rfl
    obtain rfl := List.singleton_inj.mp hlast
    exact hx
  · exact h before y hpre

/-- Where an entry stands in a history that has one more. -/
theorem split_snoc {before after : List α} {y : α} (h : t ++ [x] = before ++ y :: after) :
    (t = before ∧ x = y ∧ after = []) ∨ ∃ rest, t = before ++ y :: rest ∧ after = rest ++ [x] := by
  induction after using List.reverseRecOn with
  | nil =>
    obtain ⟨rfl, hlast⟩ := List.append_inj' h rfl
    exact .inl ⟨rfl, List.singleton_inj.mp hlast, rfl⟩
  | append_singleton rest z _ =>
    rw [← List.cons_append, ← List.append_assoc] at h
    obtain ⟨ht, hlast⟩ := List.append_inj' h rfl
    exact .inr ⟨rest, ht, by rw [List.singleton_inj.mp hlast]⟩

end Multi64
