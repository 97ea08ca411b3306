import Mathlib

/-! Nodes linked in a circle, both ways, and what taking one out leaves. -/

namespace Multi64

section LinkedRing

variable {α : Type} {next prev next' prev' : α → α} {x n p : α} {a b l : List α}

def Neighbours (next prev : α → α) (a b : α) : Prop := next a = b ∧ prev b = a

/-- Each node is linked to the one behind it, and the last to the first. -/
def Circle (next prev : α → α) : List α → Prop
  | [] => True
  | x :: l => (x :: l ++ [x]).IsChain (Neighbours next prev)

theorem Circle.rotate (h : Circle next prev (a ++ b)) : Circle next prev (b ++ a) := by
  cases a with
  | nil => simpa using h
  | cons x a =>
    cases b with
    | nil => simpa using h
    | cons y b =>
      have hchain : (x :: a ++ y :: (b ++ [x])).IsChain (Neighbours next prev) := by
        simpa [Circle] using h
      obtain ⟨hleft, hright⟩ := List.isChain_split.mp hchain
      have hback : (y :: b ++ x :: (a ++ [y])).IsChain (Neighbours next prev) := List.isChain_split.mpr ⟨hright, hleft⟩
      simpa [Circle] using hback

/-- The links of the first node, to the one behind it and to the last. -/
theorem Circle.ends (h : Circle next prev (x :: l ++ [p])) :
    next p = x ∧ prev x = p := by
  have hchain : (x :: l ++ p :: [x]).IsChain (Neighbours next prev) := by simpa [Circle] using h
  have hpair : Neighbours next prev p x := List.isChain_pair.mp (List.isChain_split.mp hchain).2
  exact hpair

theorem Circle.first (h : Circle next prev (x :: n :: l)) : next x = n ∧ prev n = x := by
  have hchain : (x :: n :: (l ++ [x])).IsChain (Neighbours next prev) := by simpa [Circle] using h
  exact (List.isChain_cons_cons.mp hchain).1

theorem Circle.single (h : Circle next prev [x]) : next x = x ∧ prev x = x := by
  have hpair : Neighbours next prev x x := List.isChain_pair.mp h
  exact hpair

/-- A node is linked to nodes of the circle. -/
theorem Circle.mem (h : Circle next prev l) (hx : x ∈ l) : next x ∈ l ∧ prev x ∈ l := by
  obtain ⟨a, b, rfl⟩ := List.append_of_mem hx
  have hfront : Circle next prev (x :: (b ++ a)) := by simpa using h.rotate
  have hmem : next x ∈ x :: (b ++ a) ∧ prev x ∈ x :: (b ++ a) := by
    rcases List.eq_nil_or_concat (b ++ a) with hnil | ⟨rest, p, hlast⟩
    · rw [hnil] at hfront ⊢
      simp [hfront.single]
    · rw [List.concat_eq_append] at hlast
      rw [hlast] at hfront ⊢
      refine ⟨?_, by simp [hfront.ends.2]⟩
      cases rest with
      | nil => simp [hfront.first.1]
      | cons n rest => simp [hfront.first.1]
  simp only [List.mem_cons, List.mem_append] at hmem ⊢
  tauto

/-- The two links of a node lead back to it. -/
theorem Circle.inverse (h : Circle next prev l) (hx : x ∈ l) : prev (next x) = x ∧ next (prev x) = x := by
  obtain ⟨a, b, rfl⟩ := List.append_of_mem hx
  have hfront : Circle next prev (x :: (b ++ a)) := by simpa using h.rotate
  rcases List.eq_nil_or_concat (b ++ a) with hnil | ⟨rest, p, hlast⟩
  · rw [hnil] at hfront
    simp [hfront.single]
  · rw [List.concat_eq_append] at hlast
    rw [hlast] at hfront
    refine ⟨?_, by rw [hfront.ends.2, hfront.ends.1]⟩
    cases rest with
    | nil => rw [hfront.first.1, hfront.first.2]
    | cons n rest => rw [hfront.first.1, hfront.first.2]

/-- Only a node alone is linked to itself. -/
theorem Circle.alone (h : Circle next prev l) (hnodup : l.Nodup) (hx : x ∈ l) (hself : next x = x) : l = [x] := by
  obtain ⟨a, b, rfl⟩ := List.append_of_mem hx
  have hfront : Circle next prev (x :: (b ++ a)) := by simpa using h.rotate
  have hnone : b ++ a = [] := by
    cases hrest : b ++ a with
    | nil => rfl
    | cons n rest =>
      rw [hrest] at hfront
      have hn : x ∈ b ++ a := by
        rw [hrest, ← hfront.first.1, hself]
        exact List.mem_cons_self
      have hcons := (List.perm_middle.nodup_iff).mp hnodup
      exact absurd (List.perm_append_comm.mem_iff.mp hn) (List.nodup_cons.mp hcons).1
  obtain ⟨rfl, rfl⟩ := List.append_eq_nil_iff.mp hnone
  rfl

theorem Circle.congr (h : Circle next prev l) (hsame : ∀ a ∈ l, next' a = next a ∧ prev' a = prev a) :
    Circle next' prev' l := by
  cases l with
  | nil => trivial
  | cons x l =>
    have hmem : ∀ a ∈ x :: l ++ [x], a ∈ x :: l := by simp [or_comm]
    have hchain : (x :: l ++ [x]).IsChain (Neighbours next prev) := h
    have hchain' : (x :: l ++ [x]).IsChain (Neighbours next' prev') := by
      refine hchain.imp_of_mem_imp fun a b ha hb hab => ?_
      exact ⟨(hsame a (hmem a ha)).1.trans hab.1, (hsame b (hmem b hb)).2.trans hab.2⟩
    exact hchain'

section Remove

variable [DecidableEq α]

/-- The first node is taken out: those on both sides of it are linked. -/
theorem Circle.removeFirst (h : Circle next prev (x :: l)) (hnodup : (x :: l).Nodup)
    (hnext : ∀ a ∈ l, next' a = if next a = x then next x else next a)
    (hprev : ∀ a ∈ l, prev' a = if prev a = x then prev x else prev a) : Circle next' prev' l := by
  cases l with
  | nil => trivial
  | cons n l =>
    obtain ⟨hx, hrest⟩ := List.nodup_cons.mp hnodup
    obtain ⟨front, p, hl⟩ : ∃ front p, n :: l = front ++ [p] := by
      rcases List.eq_nil_or_concat (n :: l) with hnil | ⟨front, p, hl⟩
      · simp at hnil
      · exact ⟨front, p, by rw [hl, List.concat_eq_append]⟩
    have hfirst := h.first
    have hends : next p = x ∧ prev x = p := by
      rw [hl] at h
      exact h.ends
    have hinner : (n :: l).IsChain (Neighbours next prev) := by
      have hchain : (x :: n :: l ++ [x]).IsChain (Neighbours next prev) := h
      exact (List.isChain_append.mp (List.isChain_cons_cons.mp hchain).2).1
    have hinner' : (n :: l).IsChain (Neighbours next' prev') := by
      refine hinner.imp_of_mem_imp fun a b ha hb hab => ?_
      have hbx : next a ≠ x := fun heq => hx (heq ▸ hab.1 ▸ hb)
      have hax : prev b ≠ x := fun heq => hx (heq ▸ hab.2 ▸ ha)
      exact ⟨by rw [hnext a ha, if_neg hbx, hab.1], by rw [hprev b hb, if_neg hax, hab.2]⟩
    have hp : p ∈ n :: l := by simp [hl]
    have hclose : Neighbours next' prev' p n := by
      refine ⟨?_, ?_⟩
      · rw [hnext p hp, if_pos hends.1, hfirst.1]
      · rw [hprev n List.mem_cons_self, if_pos hfirst.2, hends.2]
    have hcircle : (front ++ p :: [n]).IsChain (Neighbours next' prev') :=
      List.isChain_split.mpr ⟨hl ▸ hinner', List.isChain_pair.mpr hclose⟩
    have hwhole : n :: l ++ [n] = front ++ p :: [n] := by rw [hl, List.append_assoc, List.singleton_append]
    change (n :: l ++ [n]).IsChain (Neighbours next' prev')
    rwa [hwhole]

/-- A node is taken out: those on both sides of it are linked. -/
theorem Circle.remove (h : Circle next prev l) (hnodup : l.Nodup) (hx : x ∈ l)
    (hnext : ∀ a ∈ l.erase x, next' a = if a = prev x then next x else next a)
    (hprev : ∀ a ∈ l.erase x, prev' a = if a = next x then prev x else prev a) : Circle next' prev' (l.erase x) := by
  have hbefore : ∀ a ∈ l.erase x, (a = prev x ↔ next a = x) := by
    intro a ha
    constructor
    · rintro rfl
      exact (h.inverse hx).2
    · rintro rfl
      exact (h.inverse (List.mem_of_mem_erase ha)).1.symm
  have hbehind : ∀ a ∈ l.erase x, (a = next x ↔ prev a = x) := by
    intro a ha
    constructor
    · rintro rfl
      exact (h.inverse hx).1
    · rintro rfl
      exact (h.inverse (List.mem_of_mem_erase ha)).2.symm
  obtain ⟨a, b, rfl⟩ := List.append_of_mem hx
  have hxa : x ∉ a := fun hmem => (List.disjoint_of_nodup_append hnodup) hmem List.mem_cons_self
  have herase : (a ++ x :: b).erase x = a ++ b := by
    rw [List.erase_append_right _ hxa, List.erase_cons_head]
  rw [herase] at hnext hprev hbefore hbehind ⊢
  have hfront : Circle next prev (x :: (b ++ a)) := by simpa using h.rotate
  have hnodup' : (x :: (b ++ a)).Nodup :=
    ((List.perm_middle.trans (List.perm_append_comm.cons x)).nodup_iff).mp hnodup
  have hmem : ∀ c, c ∈ b ++ a → c ∈ a ++ b := fun c hc => List.perm_append_comm.mem_iff.mp hc
  refine (hfront.removeFirst hnodup' (fun c hc => ?_) fun c hc => ?_).rotate
  · rw [hnext c (hmem c hc)]
    exact if_congr (hbefore c (hmem c hc)) rfl rfl
  · rw [hprev c (hmem c hc)]
    exact if_congr (hbehind c (hmem c hc)) rfl rfl

/-- The first node once one is out: the next, if it was the first. -/
theorem Circle.headD_erase (h : Circle next prev (n :: l)) (hx : x ∈ n :: l) (hne : next x ≠ x) (d : α) :
    ((n :: l).erase x).headD d = if n = x then next x else n := by
  by_cases hn : n = x
  · subst hn
    rw [if_pos rfl, List.erase_cons_head]
    cases l with
    | nil => exact absurd h.single.1 hne
    | cons y l => exact h.first.1.symm
  · rw [if_neg hn, List.erase_cons_tail (by simpa using hn), List.headD_cons]

end Remove

end LinkedRing

end Multi64
