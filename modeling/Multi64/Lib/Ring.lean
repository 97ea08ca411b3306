import Mathlib

/-! Fixed arrays used as rings: a first cell, a count, and cells behind it
that wrap around. The contents are a list, oldest first. -/

namespace Multi64

structure Ring (α : Type*) (cap : Nat) where
  cells : Fin cap → α
  first : Fin cap
  count : Nat
  count_le : count ≤ cap

namespace Ring

variable {α : Type*} {cap : Nat}

/-- The cell `k` places behind the first. -/
def slot (r : Ring α cap) (k : Nat) : Fin cap :=
  ⟨(r.first.val + k) % cap, Nat.mod_lt _ (Nat.lt_of_le_of_lt (Nat.zero_le _) r.first.isLt)⟩

def contents (r : Ring α cap) : List α := (List.range r.count).map fun k => r.cells (r.slot k)

def dropFirst (r : Ring α cap) (k : Nat) : Ring α cap :=
  ⟨r.cells, r.slot k, r.count - k, Nat.le_trans (Nat.sub_le _ _) r.count_le⟩

def append (r : Ring α cap) (x : α) (h : r.count < cap) : Ring α cap :=
  ⟨Function.update r.cells (r.slot r.count) x, r.first, r.count + 1, h⟩

theorem pos (r : Ring α cap) : 0 < cap := Nat.lt_of_le_of_lt (Nat.zero_le _) r.first.isLt

def clear (r : Ring α cap) : Ring α cap := ⟨r.cells, ⟨0, r.pos⟩, 0, Nat.zero_le _⟩

/-- Behind a full ring the oldest item makes room for the new one. -/
def push (r : Ring α cap) (x : α) : Ring α cap :=
  if h : r.count < cap then r.append x h
  else (r.dropFirst 1).append x (by have hp := r.pos; have hc := r.count_le; simp only [dropFirst]; omega)

@[simp] theorem contents_length (r : Ring α cap) : r.contents.length = r.count := by
  simp only [contents, List.length_map, List.length_range]

@[simp] theorem contents_clear (r : Ring α cap) : r.clear.contents = [] := rfl

theorem slot_dropFirst (r : Ring α cap) (k j : Nat) : (r.dropFirst k).slot j = r.slot (k + j) := by
  apply Fin.ext
  simp only [slot, dropFirst, Nat.mod_add_mod, Nat.add_assoc]

theorem slot_injective (r : Ring α cap) {i j : Nat} (hi : i < cap) (hj : j < cap)
    (h : r.slot i = r.slot j) : i = j := by
  have hmod : Nat.ModEq cap (r.first.val + i) (r.first.val + j) := congrArg Fin.val h
  have hij := Nat.ModEq.add_left_cancel' _ hmod
  exact Nat.ModEq.eq_of_lt_of_lt hij hi hj

theorem contents_dropFirst (r : Ring α cap) (k : Nat) :
    (r.dropFirst k).contents = r.contents.drop k := by
  apply List.ext_getElem
  · simp only [contents_length, List.length_drop, dropFirst]
  · intro j h1 h2
    simp only [contents, List.getElem_map, List.getElem_range, List.getElem_drop, slot_dropFirst]
    rfl

theorem contents_append (r : Ring α cap) (x : α) (h : r.count < cap) :
    (r.append x h).contents = r.contents ++ [x] := by
  have hslot : ∀ k, (r.append x h).slot k = r.slot k := fun _ => rfl
  simp only [contents, append, List.range_succ, List.map_append, List.map_cons, List.map_nil]
  congr 1
  · apply List.map_congr_left
    intro k hk
    have hlt := List.mem_range.mp hk
    rw [Function.update_of_ne]
    · rfl
    · intro he
      have hkc := r.slot_injective (Nat.lt_trans hlt h) h he
      omega
  · change [Function.update r.cells (r.slot r.count) x (r.slot r.count)] = [x]
    rw [Function.update_self]

theorem contents_push (r : Ring α cap) (x : α) :
    (r.push x).contents =
      if r.count < cap then r.contents ++ [x] else r.contents.drop 1 ++ [x] := by
  unfold push
  split
  · rw [contents_append]
  · rw [contents_append, contents_dropFirst]

end Ring

end Multi64
