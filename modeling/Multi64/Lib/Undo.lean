import Multi64.Lib.Store

/-! Lists of writes to a store, what they leave, and the contents kept from
before each, which take it back. -/

namespace Multi64

namespace Store

variable (m : Store)

/-- One write after another. -/
def writes (ws : List (Nat × Bytes)) : Store := ws.foldl (fun m w => m.write w.1 w.2) m

/-- The writes in `before` again, the last one first. -/
def undo (before : List (Nat × Bytes)) : Store := before.foldr (fun w m => m.write w.1 w.2) m

/-- No byte of the one is a byte of the other. -/
def Apart (w v : Nat × Bytes) : Prop := w.1 + w.2.length ≤ v.1 ∨ v.1 + v.2.length ≤ w.1

section Lemmas

variable {m : Store} {m' : Store} {ws before : List (Nat × Bytes)} {w : Nat × Bytes} {a n : Nat} {b b' : Bytes}

@[simp] theorem writes_nil : m.writes [] = m := rfl

@[simp] theorem writes_cons : m.writes (w :: ws) = (m.write w.1 w.2).writes ws := rfl

theorem writes_append (ws vs : List (Nat × Bytes)) : m.writes (ws ++ vs) = (m.writes ws).writes vs := List.foldl_append

theorem writes_outside (h : ∀ w ∈ ws, a < w.1 ∨ w.1 + w.2.length ≤ a) : m.writes ws a = m a := by
  induction ws generalizing m with
  | nil => rfl
  | cons w ws ih =>
    rw [writes_cons, ih fun v hv => h v (List.mem_cons_of_mem w hv), write_outside _ _ (h w List.mem_cons_self)]

theorem writes_read_apart (h : ∀ w ∈ ws, a + n ≤ w.1 ∨ w.1 + w.2.length ≤ a) : (m.writes ws).read a n = m.read a n := by
  induction ws generalizing m with
  | nil => rfl
  | cons w ws ih =>
    rw [writes_cons, ih fun v hv => h v (List.mem_cons_of_mem w hv), read_write_disjoint _ _ (h w List.mem_cons_self)]

/-- Writes that are apart from each other are all there. -/
theorem writes_read (hapart : ws.Pairwise Apart) (h : w ∈ ws) : (m.writes ws).read w.1 w.2.length = w.2 := by
  induction ws generalizing m with
  | nil => nomatch h
  | cons v ws ih =>
    obtain ⟨hfirst, hrest⟩ := List.pairwise_cons.mp hapart
    rw [writes_cons]
    rcases List.mem_cons.mp h with rfl | h
    · rw [writes_read_apart hfirst, read_write]
    · exact ih hrest h

theorem undo_concat : m.undo (before ++ [w]) = (m.write w.1 w.2).undo before := by simp [undo]

theorem undo_reverse (before : List (Nat × Bytes)) : m.undo before = m.writes before.reverse := by
  simp [undo, writes, List.foldl_reverse]

theorem write_write (h : b.length = b'.length) : (m.write a b).write a b' = m.write a b' := by
  funext i
  by_cases hi : a ≤ i ∧ i < a + b'.length
  · obtain ⟨k, rfl⟩ := Nat.exists_eq_add_of_le hi.1
    rw [write_inside _ _ (by omega), write_inside _ _ (by omega)]
  · rw [write_outside _ _ (by omega), write_outside _ _ (by omega), write_outside _ _ (by omega)]

/-- What was there before a write takes it back. -/
theorem write_back (h : b.length = n) : (m.write a b).write a (m.read a n) = m := by
  rw [write_write (by rw [h, read_length]), write_read]

/-- Stores that differ in one run only differ by a write. -/
theorem write_read_of_agree (h : ∀ i, i < a ∨ a + n ≤ i → m' i = m i) : m.write a (m'.read a n) = m' := by
  funext i
  by_cases hi : a ≤ i ∧ i < a + n
  · obtain ⟨k, rfl⟩ := Nat.exists_eq_add_of_le hi.1
    rw [write_inside _ _ (by rw [read_length]; omega), byteAt_read _ _ _ (by omega)]
  · rw [write_outside _ _ (by rw [read_length]; omega), h i (by omega)]

end Lemmas

end Store

end Multi64
