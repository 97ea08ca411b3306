import Multi64.Lib.Bytes

/-! A store of bytes with an address each: reads and writes of ranges, and how
they meet. -/

namespace Multi64

abbrev Store := Nat → UInt8

namespace Store

variable (m : Store) (a n : Nat)

def read : Bytes := (List.range n).map fun i => m (a + i)

def write (b : Bytes) : Store := fun i => if a ≤ i ∧ i < a + b.length then byteAt b (i - a) else m i

@[simp] theorem read_length : (m.read a n).length = n := by simp [read]

@[simp] theorem read_zero : m.read a 0 = [] := rfl

theorem byteAt_read {i : Nat} (h : i < n) : byteAt (m.read a n) i = m (a + i) := by
  simp [byteAt, read, List.getD_eq_getElem?_getD, h]

theorem read_append (k : Nat) : m.read a (n + k) = m.read a n ++ m.read (a + n) k := by
  simp only [read, List.range_add, List.map_append, List.map_map, Nat.add_assoc]
  rfl

theorem read_congr {m' : Store} (h : ∀ i, a ≤ i → i < a + n → m i = m' i) : m.read a n = m'.read a n :=
  List.map_congr_left fun i hi => h _ (Nat.le_add_right a i) (Nat.add_lt_add_left (List.mem_range.mp hi) a)

theorem slice_read {i k : Nat} (h : i + k ≤ n) : slice (m.read a n) i k = m.read (a + i) k := by
  obtain ⟨rest, rfl⟩ := Nat.exists_eq_add_of_le h
  rw [Nat.add_assoc, read_append, read_append, slice, List.drop_left' (m.read_length a i),
    List.take_left' (m.read_length (a + i) k)]

theorem ext_byteAt {b b' : Bytes} (hlen : b.length = b'.length) (h : ∀ i < b.length, byteAt b i = byteAt b' i) :
    b = b' := by
  refine List.ext_getElem hlen fun i hi hi' => ?_
  have hb := h i hi
  simpa [byteAt, List.getD_eq_getElem?_getD, hi, hi'] using hb

theorem write_inside {b : Bytes} {i : Nat} (h : i < b.length) : m.write a b (a + i) = byteAt b i := by
  rw [write, if_pos ⟨Nat.le_add_right a i, by omega⟩, Nat.add_sub_cancel_left]

theorem write_outside {b : Bytes} {i : Nat} (h : i < a ∨ a + b.length ≤ i) : m.write a b i = m i :=
  if_neg (by omega)

@[simp] theorem write_nil : m.write a [] = m := by
  funext i
  exact m.write_outside a (by rw [List.length_nil]; omega)

theorem read_write (b : Bytes) : (m.write a b).read a b.length = b := by
  refine ext_byteAt (read_length ..) fun i hi => ?_
  rw [read_length] at hi
  rw [byteAt_read _ _ _ hi, write_inside _ _ hi]

theorem read_write_disjoint {b : Bytes} {c k : Nat} (h : c + k ≤ a ∨ a + b.length ≤ c) :
    (m.write a b).read c k = m.read c k :=
  read_congr _ _ _ fun i hi hlt => m.write_outside a (by omega)

/-- Writing two runs one behind the other. -/
theorem write_append (b c : Bytes) : m.write a (b ++ c) = (m.write a b).write (a + b.length) c := by
  funext i
  simp only [write, List.length_append]
  by_cases hb : a ≤ i ∧ i < a + b.length
  · rw [if_pos (by omega), if_neg (by omega), if_pos hb, byteAt_append_left (by omega)]
  · by_cases hc : a + b.length ≤ i ∧ i < a + b.length + c.length
    · rw [if_pos (by omega), if_pos hc]
      obtain ⟨j, rfl⟩ := Nat.exists_eq_add_of_le hc.1
      rw [show a + b.length + j - a = b.length + j by omega, byteAt_append_right, Nat.add_sub_cancel_left]
    · rw [if_neg (by omega), if_neg hc, if_neg hb]

theorem write_read : m.write a (m.read a n) = m := by
  funext i
  by_cases h : a ≤ i ∧ i < a + n
  · obtain ⟨j, rfl⟩ := Nat.exists_eq_add_of_le h.1
    rw [write_inside _ _ (by rw [read_length]; omega), byteAt_read _ _ _ (by omega)]
  · exact m.write_outside a (by rw [read_length]; omega)

theorem take_read {i : Nat} (h : i ≤ n) : (m.read a n).take i = m.read a i := by
  obtain ⟨rest, rfl⟩ := Nat.exists_eq_add_of_le h
  rw [read_append, List.take_left' (m.read_length a i)]

theorem drop_read {i : Nat} (h : i ≤ n) : (m.read a n).drop i = m.read (a + i) (n - i) := by
  obtain ⟨rest, rfl⟩ := Nat.exists_eq_add_of_le h
  rw [read_append, List.drop_left' (m.read_length a i), Nat.add_sub_cancel_left]

/-- A run written into the middle of what is read. -/
theorem read_write_inside {b : Bytes} {i : Nat} (h : i + b.length ≤ n) :
    (m.write (a + i) b).read a n = overwrite (m.read a n) i b := by
  obtain ⟨rest, rfl⟩ := Nat.exists_eq_add_of_le h
  have hbefore : (m.write (a + i) b).read a i = m.read a i := m.read_write_disjoint _ (.inl (Nat.le_refl _))
  have hbehind : (m.write (a + i) b).read (a + i + b.length) rest = m.read (a + i + b.length) rest :=
    m.read_write_disjoint _ (.inr (Nat.le_refl _))
  rw [overwrite, m.take_read _ _ (by omega), m.drop_read _ _ (by omega), Nat.add_sub_cancel_left, ← Nat.add_assoc a i,
    Nat.add_assoc i, read_append, read_append, read_write, hbefore, hbehind, List.append_assoc]

/-- Read, change, write back: a run written into the middle. -/
theorem write_overwrite {b : Bytes} {i : Nat} (h : i + b.length ≤ n) :
    m.write a (overwrite (m.read a n) i b) = m.write (a + i) b := by
  rw [← m.read_write_inside a n h]
  funext j
  by_cases hj : a ≤ j ∧ j < a + n
  · obtain ⟨k, rfl⟩ := Nat.exists_eq_add_of_le hj.1
    rw [write_inside _ _ (by rw [read_length]; omega), byteAt_read _ _ _ (by omega)]
  · rw [m.write_outside a (by rw [read_length]; omega), m.write_outside _ (by omega)]

end Store

end Multi64
