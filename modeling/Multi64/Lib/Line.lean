import Mathlib

/-! Elements that stand together in a line: between two of them there is
nothing else. -/

namespace Multi64

variable {α : Type} {n x y : α} {l : List α}

/-- Every `n` in the line stands next to the others. -/
def Together (n : α) (l : List α) : Prop := ∀ m, [n, m, n].Sublist l → m = n

theorem Together.sublist {l' : List α} (h : Together n l) (hs : l'.Sublist l) : Together n l' :=
  fun m hm => h m (hm.trans hs)

theorem Together.head (h : Together n (n :: l)) (hn : n ∈ l) : l.head? = some n := by
  cases l with
  | nil => exact nomatch hn
  | cons m l =>
    by_cases hm : m = n
    · rw [hm, List.head?_cons]
    · have hmem : n ∈ l := (List.mem_cons.mp hn).resolve_left fun heq => hm heq.symm
      exact absurd (h m ((List.singleton_sublist.mpr hmem).cons_cons m |>.cons_cons n)) hm

/-- A sublist that does not end in `x` is one of the line without `x`. -/
theorem sublist_concat_of_ne {l' : List α} (h : (l' ++ [y]).Sublist (l ++ [x])) (hne : y ≠ x) :
    (l' ++ [y]).Sublist l := by
  have hr := List.reverse_sublist.mpr h
  simp only [List.reverse_append, List.reverse_cons, List.reverse_nil, List.nil_append, List.cons_append] at hr
  rcases List.cons_sublist_cons'.mp hr with hr | ⟨heq, _⟩
  · have hback := List.reverse_sublist.mpr hr
    simpa using hback
  · exact absurd heq hne

theorem Together.push_other (h : Together n l) (hne : n ≠ x) : Together n (l ++ [x]) :=
  fun m hm => h m (sublist_concat_of_ne (show ([n, m] ++ [n]).Sublist (l ++ [x]) from hm) hne)

/-- A line that ends in `n` takes another. -/
theorem Together.push_same (h : Together n (l ++ [n])) : Together n (l ++ [n] ++ [n]) := by
  intro m hm
  by_cases hmn : m = n
  · exact hmn
  have hr : [n, m].Sublist (l ++ [n]) := by
    have hrev := List.reverse_sublist.mpr hm
    simp only [List.reverse_append, List.reverse_cons, List.reverse_nil, List.nil_append, List.cons_append] at hrev
    have htail : [m, n].Sublist (n :: l.reverse) := by
      rcases List.cons_sublist_cons'.mp hrev with hrev | ⟨_, hrev⟩
      · exact (List.sublist_cons_self n [m, n]).trans hrev
      · exact hrev
    have hback := List.reverse_sublist.mpr htail
    simpa using hback
  have hl := sublist_concat_of_ne (show ([n] ++ [m]).Sublist (l ++ [n]) from hr) hmn
  exact h m (List.Sublist.append hl (List.Sublist.refl [n]))

theorem Together.push_new (hn : n ∉ l) : Together n (l ++ [n] ++ [n]) := by
  have hnone : Together n (l ++ [n]) := by
    intro m hm
    by_cases hmn : m = n
    · exact hmn
    have hl := sublist_concat_of_ne (l := l) (show ([n] ++ [m]).Sublist (l ++ [n]) from
      (List.sublist_append_left [n, m] [n]).trans hm) hmn
    exact absurd (hl.subset List.mem_cons_self) hn
  exact hnone.push_same

end Multi64
