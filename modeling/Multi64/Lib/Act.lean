import Mathlib

/-! Actions on a state: what an action makes true of its result and the state it
leaves, with a rule for each way to build one. -/

namespace Multi64

variable {σ α β : Type} {P P' : σ → Prop} {Q Q' : α → σ → Prop}

/-- From a state with `P`, the action `m` ends in a result and a state with `Q`. -/
structure Ensures (P : σ → Prop) (m : StateM σ α) (Q : α → σ → Prop) : Prop where
  holds : ∀ s, P s → Q (m.run s).1 (m.run s).2

namespace Ensures

theorem weaken {m : StateM σ α} (h : Ensures P' m Q') (hp : ∀ s, P s → P' s) (hq : ∀ a s, Q' a s → Q a s) :
    Ensures P m Q :=
  ⟨fun s hs => hq _ _ (h.holds s (hp s hs))⟩

theorem ends {m : StateM σ α} (h : Ensures P m Q') (hq : ∀ a s, Q' a s → Q a s) : Ensures P m Q :=
  h.weaken (fun _ hs => hs) hq

theorem starts {m : StateM σ α} (h : Ensures P' m Q) (hp : ∀ s, P s → P' s) : Ensures P m Q :=
  h.weaken hp fun _ _ hq => hq

theorem and {m : StateM σ α} (h : Ensures P m Q) (h' : Ensures P' m Q') :
    Ensures (fun s => P s ∧ P' s) m fun a s => Q a s ∧ Q' a s :=
  ⟨fun s hs => ⟨h.holds s hs.1, h'.holds s hs.2⟩⟩

theorem pure {a : α} (h : ∀ s, P s → Q a s) : Ensures P (Pure.pure a : StateM σ α) Q :=
  ⟨h⟩

theorem bind {m : StateM σ β} {f : β → StateM σ α} (M : β → σ → Prop) (hm : Ensures P m M)
    (hf : ∀ b, Ensures (M b) (f b) Q) : Ensures P (m >>= f) Q :=
  ⟨fun s hs => (hf _).holds _ (hm.holds s hs)⟩

theorem modify_bind {f : σ → σ} {m : PUnit → StateM σ α} (M : σ → Prop) (h : ∀ s, P s → M (f s))
    (hm : Ensures M (m ⟨⟩) Q) : Ensures P (modify f >>= m) Q :=
  ⟨fun s hs => hm.holds _ (h s hs)⟩

/-- It is enough to start from each state with `P`. -/
theorem each {m : StateM σ α} (h : ∀ x, P x → Ensures (fun s => s = x) m Q) : Ensures P m Q :=
  ⟨fun s hs => (h s hs).holds s rfl⟩

section Here

variable {x : σ}

theorem here {m : StateM σ α} (h : Ensures P m Q) (hx : P x) : Ensures (fun s => s = x) m Q :=
  h.starts fun _ hs => hs ▸ hx

theorem pure_here {a : α} (h : Q a x) : Ensures (fun s => s = x) (Pure.pure a : StateM σ α) Q :=
  pure fun _ hs => hs ▸ h

theorem modify_here {f : σ → σ} {m : PUnit → StateM σ α} (M : σ → Prop) (h : M (f x))
    (hm : Ensures M (m ⟨⟩) Q) : Ensures (fun s => s = x) (modify f >>= m) Q :=
  modify_bind M (fun _ hs => hs ▸ h) hm

end Here

theorem modify {f : σ → σ} {Q : PUnit → σ → Prop} (h : ∀ s, P s → Q ⟨⟩ (f s)) :
    Ensures P (modify f : StateM σ PUnit) Q :=
  ⟨h⟩

/-- The state an action reads is a constant of what follows. -/
theorem get_bind {f : σ → StateM σ α} (h : ∀ x, P x → Ensures (fun s => s = x) (f x) Q) :
    Ensures P (get >>= f) Q :=
  ⟨fun s hs => (h s hs).holds s rfl⟩

theorem ite {c : Prop} [Decidable c] {m m' : StateM σ α} (hm : c → Ensures P m Q) (hm' : ¬c → Ensures P m' Q) :
    Ensures P (if c then m else m') Q := by
  by_cases h : c
  · rw [if_pos h]
    exact hm h
  · rw [if_neg h]
    exact hm' h

end Ensures

end Multi64
