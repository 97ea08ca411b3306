import Mathlib

/-! Items packed in their order into batches of at most so many items and so
much weight, a batch being closed when the next item does not fit. -/

namespace Multi64

section Pack

variable {α : Type} (count total : Nat) (weight : α → Nat)

/-- `items` packed behind a started `batch`. -/
def pack (batch : List α) : List α → List (List α)
  | [] => if batch = [] then [] else [batch]
  | c :: rest =>
    if batch.length = count ∨ total < (batch.map weight).sum + weight c then batch :: pack [c] rest
    else pack (batch ++ [c]) rest

/-- Within both limits. -/
structure Packed (batch : List α) : Prop where
  count : batch.length ≤ count
  total : (batch.map weight).sum ≤ total

variable {count total weight} {batch items : List α}

/-- Nothing is lost or moved, and each batch is one that may go out. -/
theorem pack_spec (hcount : 0 < count) (hitems : ∀ c ∈ items, weight c ≤ total) (hbatch : Packed count total weight batch) :
    (pack count total weight batch items).flatten = batch ++ items ∧
      ∀ b ∈ pack count total weight batch items, b ≠ [] ∧ Packed count total weight b := by
  induction items generalizing batch with
  | nil =>
    unfold pack
    by_cases hnil : batch = []
    · simp [hnil]
    · simp [hnil, hbatch]
  | cons c rest ih =>
    have hc := hitems c List.mem_cons_self
    have hrest := fun x hx => hitems x (List.mem_cons_of_mem c hx)
    unfold pack
    split
    next hfull =>
      have hsingle : Packed count total weight [c] := ⟨hcount, by simpa using hc⟩
      obtain ⟨hflat, hall⟩ := ih hrest hsingle
      refine ⟨by simp [hflat], fun b hb => ?_⟩
      rcases List.mem_cons.mp hb with rfl | hb
      · refine ⟨?_, hbatch⟩
        rintro rfl
        simp only [List.length_nil, List.map_nil, List.sum_nil] at hfull
        omega
      · exact hall b hb
    next hroom =>
      obtain ⟨hlen, hsum⟩ := not_or.mp hroom
      have hle := hbatch.count
      have hmore : Packed count total weight (batch ++ [c]) := by
        constructor
        · rw [List.length_append, List.length_singleton]
          omega
        · simp only [List.map_append, List.map_cons, List.map_nil, List.sum_append, List.sum_cons, List.sum_nil]
          omega
      obtain ⟨hflat, hall⟩ := ih hrest hmore
      exact ⟨by simp [hflat], hall⟩

/-- What fits one batch is not cut. -/
theorem pack_fits (hlen : batch.length + items.length ≤ count)
    (hsum : (batch.map weight).sum + (items.map weight).sum ≤ total) :
    pack count total weight batch items = if batch ++ items = [] then [] else [batch ++ items] := by
  induction items generalizing batch with
  | nil => simp [pack]
  | cons c rest ih =>
    rw [List.length_cons] at hlen
    rw [List.map_cons, List.sum_cons] at hsum
    unfold pack
    rw [if_neg (by omega), ih]
    · simp
    · rw [List.length_append, List.length_singleton]
      omega
    · simp only [List.map_append, List.map_cons, List.map_nil, List.sum_append, List.sum_cons, List.sum_nil]
      omega

end Pack

end Multi64
