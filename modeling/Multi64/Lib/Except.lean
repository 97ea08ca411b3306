import Mathlib

/-! Going through a list with a function that may fail. -/

namespace Multi64

section MapM

variable {ε α β : Type} {f : α → Except ε β} {l : List α} {l' : List β}

theorem except_bind_ok {x : Except ε α} {b : β} (h : x >>= f = .ok b) : ∃ a, x = .ok a ∧ f a = .ok b := by
  cases x with
  | error e => exact nomatch h
  | ok a => exact ⟨a, rfl, h⟩

theorem except_map_ok {x : Except ε α} {g : α → β} {b : β} (h : x.map g = .ok b) : ∃ a, x = .ok a ∧ g a = b := by
  cases x with
  | error e => exact nomatch h
  | ok a => exact ⟨a, rfl, Except.ok.inj h⟩

theorem mapM_cons_ok {a : α} {bs : List β} (h : (a :: l).mapM f = .ok bs) :
    ∃ b bs', f a = .ok b ∧ l.mapM f = .ok bs' ∧ bs = b :: bs' := by
  rw [List.mapM_cons] at h
  obtain ⟨b, hb, h⟩ := except_bind_ok h
  obtain ⟨bs', hl, h⟩ := except_bind_ok h
  exact ⟨b, bs', hb, hl, (Except.ok.inj h).symm⟩

theorem mapM_forall₂ (h : l.mapM f = .ok l') : List.Forall₂ (fun a b => f a = .ok b) l l' := by
  induction l generalizing l' with
  | nil =>
    have hnil : l' = [] := (Except.ok.inj h).symm
    rw [hnil]
    exact .nil
  | cons a l ih =>
    obtain ⟨b, bs, hb, hl, rfl⟩ := mapM_cons_ok h
    exact .cons hb (ih hl)

/-- What was got came from an element. -/
theorem mapM_mem (h : l.mapM f = .ok l') {b : β} (hb : b ∈ l') : ∃ a ∈ l, f a = .ok b := by
  induction l generalizing l' with
  | nil =>
    have hnil : l' = [] := (Except.ok.inj h).symm
    simp [hnil] at hb
  | cons a l ih =>
    obtain ⟨c, cs, hc, hl, rfl⟩ := mapM_cons_ok h
    rcases List.mem_cons.mp hb with rfl | hb
    · exact ⟨a, List.mem_cons_self, hc⟩
    · obtain ⟨a', ha', h'⟩ := ih hl hb
      exact ⟨a', List.mem_cons_of_mem a ha', h'⟩

theorem mapM_of_ok {g : α → β} (h : ∀ a ∈ l, f a = .ok (g a)) : l.mapM f = .ok (l.map g) := by
  induction l with
  | nil => rfl
  | cons a l ih =>
    rw [List.mapM_cons, h a List.mem_cons_self, ih fun b hb => h b (List.mem_cons_of_mem a hb)]
    rfl

end MapM

end Multi64
