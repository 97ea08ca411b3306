import Mathlib

/-! Computations that read and change a state and may fail, and what holds of
them: that a run is a path of a step relation, and what it ends with. A failed
computation keeps the state it failed in. -/

namespace Multi64

def Eff (ε σ α : Type) : Type := σ → Except ε α × σ

namespace Eff

variable {ε σ α β : Type}

instance : Monad (Eff ε σ) where
  pure a := fun s => (.ok a, s)
  bind m f := fun s =>
    match m s with
    | (.ok a, s') => f a s'
    | (.error e, s') => (.error e, s')

def fail (e : ε) : Eff ε σ α := fun s => (.error e, s)

def get : Eff ε σ σ := fun s => (.ok s, s)

def modify (f : σ → σ) : Eff ε σ Unit := fun s => (.ok (), f s)

/-- Run `m` and hand its result on, an error included. -/
def attempt (m : Eff ε σ α) : Eff ε σ (Except ε α) := fun s => (.ok (m s).1, (m s).2)

theorem bind_run (m : Eff ε σ α) (f : α → Eff ε σ β) (s : σ) :
    (m >>= f) s = match m s with
      | (.ok a, s') => f a s'
      | (.error e, s') => (.error e, s') := rfl

theorem bind_ok {m : Eff ε σ α} {f : α → Eff ε σ β} {s : σ} {a : α} (h : (m s).1 = .ok a) :
    (m >>= f) s = f a (m s).2 := by
  rw [bind_run]
  revert h
  cases m s with
  | mk r s' =>
    intro h
    obtain rfl : r = .ok a := h
    rfl

theorem bind_ok_inv {m : Eff ε σ α} {f : α → Eff ε σ β} {s : σ} {b : β} (h : ((m >>= f) s).1 = .ok b) :
    ∃ a s', m s = (.ok a, s') ∧ (f a s').1 = .ok b := by
  rw [bind_run] at h
  revert h
  cases m s with
  | mk r s' =>
    cases r with
    | ok a => exact fun h => ⟨a, s', rfl, h⟩
    | error e => exact nofun

theorem bind_eq_ok {m : Eff ε σ α} {f : α → Eff ε σ β} {s t : σ} {b : β} (h : (m >>= f) s = (.ok b, t)) :
    ∃ a s', m s = (.ok a, s') ∧ f a s' = (.ok b, t) := by
  rw [bind_run] at h
  revert h
  cases m s with
  | mk r s' =>
    cases r with
    | ok a => exact fun h => ⟨a, s', rfl, h⟩
    | error e => exact nofun

theorem pure_eq_ok {s t : σ} {a b : α} (h : (Pure.pure a : Eff ε σ α) s = (.ok b, t)) : b = a ∧ t = s := by
  obtain ⟨hr, rfl⟩ := Prod.mk.inj h
  exact ⟨(Except.ok.inj hr).symm, rfl⟩

section Runs

variable {R : σ → σ → Prop} {P P' : σ → Prop} {Q Q' : Except ε α → σ → Prop}

/-- From a state with `P`, running `m` is a path of `R` steps that ends in `Q`. -/
def Runs (R : σ → σ → Prop) (P : σ → Prop) (m : Eff ε σ α) (Q : Except ε α → σ → Prop) : Prop :=
  ∀ s, P s → Relation.ReflTransGen R s (m s).2 ∧ Q (m s).1 (m s).2

theorem Runs.weaken {m : Eff ε σ α} (h : Runs R P' m Q') (hp : ∀ s, P s → P' s)
    (hq : ∀ r s, Q' r s → Q r s) : Runs R P m Q :=
  fun s hs => ⟨(h s (hp s hs)).1, hq _ _ (h s (hp s hs)).2⟩

theorem Runs.mono {R' : σ → σ → Prop} {m : Eff ε σ α} (h : Runs R P m Q) (hr : ∀ s s', R s s' → R' s s') :
    Runs R' P m Q :=
  fun s hs => ⟨Relation.ReflTransGen.mono hr _ _ (h s hs).1, (h s hs).2⟩

theorem Runs.and {m : Eff ε σ α} (h : Runs R P m Q) (h' : Runs R P m Q') :
    Runs R P m (fun r s => Q r s ∧ Q' r s) :=
  fun s hs => ⟨(h s hs).1, (h s hs).2, (h' s hs).2⟩

theorem Runs.pure {a : α} (h : ∀ s, P s → Q (.ok a) s) : Runs R P (Pure.pure a : Eff ε σ α) Q :=
  fun s hs => ⟨.refl, h s hs⟩

theorem Runs.fail {e : ε} (h : ∀ s, P s → Q (.error e) s) : Runs R P (Eff.fail e) Q :=
  fun s hs => ⟨.refl, h s hs⟩

theorem Runs.modify {f : σ → σ} {Q : Except ε Unit → σ → Prop} (hr : ∀ s, P s → R s (f s))
    (h : ∀ s, P s → Q (.ok ()) (f s)) : Runs R P (Eff.modify f) Q :=
  fun s hs => ⟨.single (hr s hs), h s hs⟩

theorem Runs.get_bind {f : σ → Eff ε σ α} (h : ∀ x, P x → Runs R (fun s => s = x) (f x) Q) :
    Runs R P (Eff.get >>= f) Q :=
  fun s hs => h s hs s rfl

theorem Runs.bind {m : Eff ε σ β} {f : β → Eff ε σ α} (M : Except ε β → σ → Prop)
    (hm : Runs R P m M) (hf : ∀ b, Runs R (M (.ok b)) (f b) Q)
    (he : ∀ e s, M (.error e) s → Q (.error e) s) : Runs R P (m >>= f) Q := by
  intro s hs
  have hr := hm s hs
  rw [bind_run]
  revert hr
  cases m s with
  | mk r s' =>
    cases r with
    | ok b => exact fun hr => ⟨hr.1.trans (hf b s' hr.2).1, (hf b s' hr.2).2⟩
    | error e => exact fun hr => ⟨hr.1, he e s' hr.2⟩

theorem Runs.attempt_bind {m : Eff ε σ β} {f : Except ε β → Eff ε σ α} (M : Except ε β → σ → Prop)
    (hm : Runs R P m M) (hf : ∀ r, Runs R (M r) (f r) Q) : Runs R P (Eff.attempt m >>= f) Q :=
  fun s hs =>
    have h := hf (m s).1 (m s).2 (hm s hs).2
    ⟨(hm s hs).1.trans h.1, h.2⟩

end Runs

section Keeps

variable {R R' : σ → σ → Prop} {P Q : σ → Prop}

/-- Running `m` from a state with `P` is a path of `R` steps to a state with
`P`, whatever the result. -/
def Keeps (R : σ → σ → Prop) (P : σ → Prop) (m : Eff ε σ α) : Prop := Runs R P m fun _ => P

theorem Keeps.pure (a : α) : Keeps R P (Pure.pure a : Eff ε σ α) := Runs.pure fun _ hs => hs

theorem Keeps.fail (e : ε) : Keeps R P (Eff.fail e : Eff ε σ α) := Runs.fail fun _ hs => hs

theorem Keeps.get : Keeps R P (Eff.get : Eff ε σ σ) := fun _ hs => ⟨.refl, hs⟩

theorem Keeps.modify {f : σ → σ} (hr : ∀ s, P s → R s (f s)) (hp : ∀ s, P s → P (f s)) :
    Keeps R P (Eff.modify f : Eff ε σ Unit) :=
  Runs.modify hr hp

theorem Keeps.bind {m : Eff ε σ α} {f : α → Eff ε σ β} (hm : Keeps R P m) (hf : ∀ a, Keeps R P (f a)) :
    Keeps R P (m >>= f) :=
  Runs.bind (fun _ => P) hm hf fun _ _ hs => hs

theorem Keeps.mono {m : Eff ε σ α} (h : Keeps R P m) (hr : ∀ s s', R s s' → R' s s') : Keeps R' P m :=
  Runs.mono h hr

theorem Keeps.attempt {m : Eff ε σ α} (hm : Keeps R P m) : Keeps R P (Eff.attempt m) := hm

theorem Keeps.ite {c : Prop} [Decidable c] {m m' : Eff ε σ α} (hm : Keeps R P m) (hm' : Keeps R P m') :
    Keeps R P (if c then m else m') := by
  split
  · exact hm
  · exact hm'

/-- What no step leaves, a path does not leave. -/
theorem path_invariant (hstep : ∀ s s', R s s' → P s → P s') {s s' : σ}
    (h : Relation.ReflTransGen R s s') (hs : P s) : P s' := by
  induction h with
  | refl => exact hs
  | tail _ hlast ih => exact hstep _ _ hlast ih

/-- Steps taken where `Q` holds, and which keep it, are steps of `R'`. -/
theorem Runs.lift {m : Eff ε σ α} {S : Except ε α → σ → Prop} (h : Runs R P m S)
    (hstep : ∀ s s', R s s' → Q s → R' s s' ∧ Q s') : Runs R' (fun s => P s ∧ Q s) m fun r s => S r s ∧ Q s := by
  intro s hs
  obtain ⟨hpath, hpost⟩ := h s hs.1
  have hboth : ∀ s', Relation.ReflTransGen R s s' → Relation.ReflTransGen R' s s' ∧ Q s' := by
    intro s' hs'
    induction hs' with
    | refl => exact ⟨.refl, hs.2⟩
    | tail _ hlast ih => exact ⟨ih.1.tail (hstep _ _ hlast ih.2).1, (hstep _ _ hlast ih.2).2⟩
  exact ⟨(hboth _ hpath).1, hpost, (hboth _ hpath).2⟩

theorem Runs.keeping {m : Eff ε σ α} {S : Except ε α → σ → Prop} (h : Runs R P m S)
    (hstep : ∀ s s', R s s' → Q s → Q s') : Runs R (fun s => P s ∧ Q s) m fun r s => S r s ∧ Q s :=
  h.lift fun _ _ hs hq => ⟨hs, hstep _ _ hs hq⟩

end Keeps

end Eff

end Multi64
