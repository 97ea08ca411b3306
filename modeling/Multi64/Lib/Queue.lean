import Mathlib

/-! Commands that wait in a queue for a state they change, each with an outcome
nobody chose yet, and what holds whatever the outcomes are. -/

namespace Multi64

variable {σ κ ω : Type} (exec : σ → κ → ω → σ) {P Q : σ → Prop}

/-- `P` holds, and still after each of the queued commands. -/
def Lasts (P : σ → Prop) : List κ → σ → Prop
  | [], s => P s
  | k :: ks, s => P s ∧ ∀ o, Lasts P ks (exec s k o)

variable {exec} {k : κ} {ks : List κ} {s : σ}

theorem Lasts.now (h : Lasts exec P ks s) : P s := by
  cases ks with
  | nil => exact h
  | cons k ks => exact h.1

theorem Lasts.all (h : ∀ s, P s) (ks : List κ) (s : σ) : Lasts exec P ks s := by
  induction ks generalizing s with
  | nil => exact h s
  | cons k ks ih => exact ⟨h s, fun o => ih (exec s k o)⟩

theorem Lasts.mono (h : Lasts exec P ks s) (hpq : ∀ s, P s → Q s) : Lasts exec Q ks s := by
  induction ks generalizing s with
  | nil => exact hpq s h
  | cons k ks ih => exact ⟨hpq s h.1, fun o => ih (h.2 o)⟩

/-- One command more, which leaves `P` alone. -/
theorem Lasts.append (h : Lasts exec P ks s) (hk : ∀ s o, P s → P (exec s k o)) : Lasts exec P (ks ++ [k]) s := by
  induction ks generalizing s with
  | nil => exact ⟨h, fun o => hk s o h⟩
  | cons k' ks ih => exact ⟨h.1, fun o => ih (h.2 o)⟩

end Multi64
