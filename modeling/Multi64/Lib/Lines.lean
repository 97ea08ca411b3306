import Mathlib

/-! A stream of texts that each end in a separator, and what splitting it at the
separators makes of it. -/

namespace Multi64

section Lines

variable {α : Type} [DecidableEq α] {sep : α}

/-- The texts of a stream, each ended by the separator. -/
def ended (sep : α) (l : List (List α)) : List α := l.flatMap (· ++ [sep])

section Inclusive

/-- Split behind the separators. -/
def splitInclusive (sep : α) : List α → List (List α)
  | [] => []
  | a :: s =>
    if a = sep then [a] :: splitInclusive sep s
    else
      match splitInclusive sep s with
      | [] => [[a]]
      | l :: ls => (a :: l) :: ls

/-- A line with its separator. -/
def WholeLine (sep : α) (l : List α) : Prop := ∃ t, sep ∉ t ∧ l = t ++ [sep]

variable {l s t : List α} {ls ls' : List (List α)}

theorem splitInclusive_flatten (sep : α) (s : List α) : (splitInclusive sep s).flatten = s := by
  induction s with
  | nil => rfl
  | cons a s ih =>
    rw [splitInclusive]
    by_cases ha : a = sep
    · rw [if_pos ha, List.flatten_cons, ih, List.singleton_append]
    · rw [if_neg ha]
      cases hs : splitInclusive sep s with
      | nil =>
        rw [hs] at ih
        simpa using ih
      | cons l ls =>
        rw [hs] at ih
        simpa using ih

theorem splitInclusive_whole (h : WholeLine sep l) (s : List α) : splitInclusive sep (l ++ s) = l :: splitInclusive sep s := by
  obtain ⟨t, ht, rfl⟩ := h
  induction t with
  | nil => simp [splitInclusive]
  | cons a t ih =>
    have ha : a ≠ sep := fun ha => ht (by simp [ha])
    have hrest := ih fun hmem => ht (List.mem_cons_of_mem a hmem)
    rw [List.cons_append, List.cons_append, splitInclusive, if_neg ha, hrest]

theorem splitInclusive_lines (h : ∀ l ∈ ls, WholeLine sep l) (s : List α) :
    splitInclusive sep (ls.flatten ++ s) = ls ++ splitInclusive sep s := by
  induction ls with
  | nil => rfl
  | cons l ls ih =>
    have hls := List.forall_mem_cons.mp h
    rw [List.flatten_cons, List.append_assoc, splitInclusive_whole hls.1, ih hls.2, List.cons_append]

theorem splitInclusive_rest (h : sep ∉ t) (hne : t ≠ []) : splitInclusive sep t = [t] := by
  induction t with
  | nil => exact absurd rfl hne
  | cons a t ih =>
    have ha : a ≠ sep := fun ha => h (by simp [ha])
    rw [splitInclusive, if_neg ha]
    cases t with
    | nil => rfl
    | cons b t => rw [ih (fun hmem => h (List.mem_cons_of_mem a hmem)) (by simp)]

/-- Every line but the last has its separator. -/
theorem wholeLine_of_split (h : splitInclusive sep s = ls ++ l :: ls') : ∀ l' ∈ ls, WholeLine sep l' := by
  induction s generalizing ls with
  | nil => simp [splitInclusive] at h
  | cons a s ih =>
    rw [splitInclusive] at h
    cases ls with
    | nil => simp
    | cons x ls =>
      rw [List.cons_append] at h
      by_cases ha : a = sep
      · rw [if_pos ha] at h
        obtain ⟨rfl, hs⟩ := List.cons.inj h
        refine List.forall_mem_cons.mpr ⟨⟨[], by simp [ha]⟩, ih hs⟩
      · rw [if_neg ha] at h
        cases hs : splitInclusive sep s with
        | nil => simp [hs] at h
        | cons y ys =>
          rw [hs] at h
          obtain ⟨rfl, rfl⟩ := List.cons.inj h
          obtain ⟨⟨t, ht, rfl⟩, hrest⟩ := List.forall_mem_cons.mp (@ih (y :: ls) hs)
          exact List.forall_mem_cons.mpr ⟨⟨a :: t, by simp [Ne.symm ha, ht], rfl⟩, hrest⟩

/-- The last line has its separator, or there is none in it. -/
theorem lastLine_of_split (h : splitInclusive sep s = ls ++ [l]) : WholeLine sep l ∨ sep ∉ l ∧ l ≠ [] := by
  induction s generalizing ls l with
  | nil => simp [splitInclusive] at h
  | cons a s ih =>
    rw [splitInclusive] at h
    by_cases ha : a = sep
    · rw [if_pos ha] at h
      cases ls with
      | nil =>
        obtain ⟨rfl, -⟩ := List.cons.inj h
        exact .inl ⟨[], by simp [ha]⟩
      | cons x ls => exact ih (List.cons.inj h).2
    · rw [if_neg ha] at h
      cases hs : splitInclusive sep s with
      | nil =>
        rw [hs] at h
        obtain ⟨rfl, rfl⟩ : ls = [] ∧ l = [a] := by
          cases ls with
          | nil => exact ⟨rfl, (List.cons.inj h).1.symm⟩
          | cons x ls => simp at h
        exact .inr ⟨by simpa using Ne.symm ha, by simp⟩
      | cons y ys =>
        rw [hs] at h
        cases ls with
        | nil =>
          obtain ⟨rfl, rfl⟩ := List.cons.inj h
          rcases @ih y [] hs with ⟨t, ht, rfl⟩ | ⟨hsep, -⟩
          · exact .inl ⟨a :: t, by simp [Ne.symm ha, ht], rfl⟩
          · exact .inr ⟨by simp [Ne.symm ha, hsep], by simp⟩
        | cons x ls =>
          obtain ⟨rfl, rfl⟩ := List.cons.inj h
          exact @ih l (y :: ls) hs

/-- What ends with the separator is split for itself. -/
theorem splitInclusive_append (h : s.getLast? = some sep) (t : List α) :
    splitInclusive sep (s ++ t) = splitInclusive sep s ++ splitInclusive sep t := by
  have hwhole : ∀ l ∈ splitInclusive sep s, WholeLine sep l := by
    rcases List.eq_nil_or_concat (splitInclusive sep s) with hnil | ⟨ls, l, hs⟩
    · simp [hnil]
    · rw [List.concat_eq_append] at hs
      rw [hs, List.forall_mem_append, List.forall_mem_singleton]
      refine ⟨wholeLine_of_split hs, (lastLine_of_split hs).resolve_right fun ⟨hsep, hne⟩ => hsep ?_⟩
      rw [← splitInclusive_flatten sep s, hs, List.flatten_append, List.flatten_singleton,
        List.getLast?_append_of_ne_nil _ hne] at h
      exact List.mem_of_getLast? h
  have hsplit := splitInclusive_lines hwhole t
  rwa [splitInclusive_flatten] at hsplit

/-- The lines up to some line, which a separator may have to be put to. -/
theorem splitInclusive_head (h : splitInclusive sep s = (ls ++ [l]) ++ ls') :
    splitInclusive sep (ls ++ [l]).flatten = ls ++ [l] ∧ splitInclusive sep ls'.flatten = ls' ∧
      ((ls ++ [l]).flatten.getLast? = some sep ∨
        ls' = [] ∧ (ls ++ [l]).flatten.getLast? ≠ some sep ∧
          splitInclusive sep ((ls ++ [l]).flatten ++ [sep]) = ls ++ [l ++ [sep]]) := by
  have hflat : s = (ls ++ [l]).flatten ++ ls'.flatten := by rw [← splitInclusive_flatten sep s, h, List.flatten_append]
  have hbefore : ∀ x ∈ ls, WholeLine sep x := wholeLine_of_split (by rwa [List.append_assoc, List.singleton_append] at h)
  have hall : WholeLine sep l → ∀ x ∈ ls ++ [l], WholeLine sep x := fun hl =>
    List.forall_mem_append.mpr ⟨hbefore, List.forall_mem_singleton.mpr hl⟩
  have hwhole : WholeLine sep l → splitInclusive sep (ls ++ [l]).flatten = ls ++ [l] ∧
      splitInclusive sep ls'.flatten = ls' ∧ (ls ++ [l]).flatten.getLast? = some sep := by
    intro hl
    have hrest := splitInclusive_lines (hall hl) ls'.flatten
    have hself := splitInclusive_lines (hall hl) []
    rw [← hflat, h] at hrest
    obtain ⟨t, -, rfl⟩ := hl
    exact ⟨by simpa [splitInclusive] using hself, (List.append_cancel_left hrest).symm, by simp⟩
  cases ls' with
  | nil =>
    rw [List.append_nil] at h
    rcases lastLine_of_split h with hl | ⟨hsep, hne⟩
    · obtain ⟨hself, hrest, hend⟩ := hwhole hl
      exact ⟨hself, hrest, .inl hend⟩
    · have hself : splitInclusive sep (ls ++ [l]).flatten = ls ++ [l] := by
        rw [← h, splitInclusive_flatten, h]
      have hlast : splitInclusive sep ((ls ++ [l]).flatten ++ [sep]) = ls ++ [l ++ [sep]] := by
        have hline : WholeLine sep (l ++ [sep]) := ⟨l, hsep, rfl⟩
        have hsplit := splitInclusive_lines hbefore (l ++ [sep])
        have hone := splitInclusive_whole hline []
        rw [List.append_nil] at hone
        rw [hone] at hsplit
        simpa [splitInclusive] using hsplit
      refine ⟨hself, rfl, .inr ⟨rfl, fun hend => hsep ?_, hlast⟩⟩
      rw [List.flatten_append, List.flatten_singleton, List.getLast?_append_of_ne_nil _ hne] at hend
      exact List.mem_of_getLast? hend
  | cons x ls' =>
    have hl : WholeLine sep l := wholeLine_of_split h l (by simp)
    obtain ⟨hself, hrest, hend⟩ := hwhole hl
    exact ⟨hself, hrest, .inl hend⟩

end Inclusive

end Lines

end Multi64
