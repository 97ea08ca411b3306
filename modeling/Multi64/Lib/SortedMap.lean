import Mathlib

/-! A finite map as a list of entries in the order of their keys. -/

namespace Multi64

structure SortedMap (K V : Type) [LT K] where
  entries : List (K × V)
  sorted : entries.Pairwise (·.1 < ·.1)

namespace SortedMap

variable {K V : Type} [LinearOrder K]

def empty : SortedMap K V := ⟨[], .nil⟩

variable (m : SortedMap K V)

def keys : List K := m.entries.map Prod.fst

def get (k : K) : Option V := (m.entries.find? fun e => e.1 = k).map Prod.snd

/-- The entries `p` holds of. -/
def restrict (p : K × V → Bool) : SortedMap K V := ⟨m.entries.filter p, m.sorted.filter p⟩

def erase (k : K) : SortedMap K V := m.restrict fun e => e.1 ≠ k

/-- The last entry at or before `k`. -/
def lastLE (k : K) : Option (K × V) := (m.entries.filter fun e => e.1 ≤ k).getLast?

def insert (k : K) (v : V) : SortedMap K V where
  entries := (m.entries.filter fun e => e.1 < k) ++ (k, v) :: m.entries.filter fun e => k < e.1
  sorted := by
    refine List.pairwise_append.mpr ⟨m.sorted.filter _, List.pairwise_cons.mpr ⟨fun e he => ?_, m.sorted.filter _⟩,
      fun e he e' he' => ?_⟩
    · exact of_decide_eq_true (List.mem_filter.mp he).2
    · have hlt : e.1 < k := of_decide_eq_true (List.mem_filter.mp he).2
      rcases List.mem_cons.mp he' with rfl | he'
      · exact hlt
      · exact lt_trans hlt (of_decide_eq_true (List.mem_filter.mp he').2)

section Lemmas

variable {m} {k : K} {v : V} {e : K × V}

theorem nodup_keys : m.keys.Nodup := by
  have hs : m.keys.Pairwise (· < ·) := List.pairwise_map.mpr m.sorted
  exact hs.imp fun h => ne_of_lt h

theorem nodup : m.entries.Nodup := List.Nodup.of_map Prod.fst nodup_keys

theorem mem_restrict {p : K × V → Bool} : e ∈ (m.restrict p).entries ↔ e ∈ m.entries ∧ p e = true :=
  List.mem_filter

theorem mem_erase : e ∈ (m.erase k).entries ↔ e ∈ m.entries ∧ e.1 ≠ k := by
  rw [erase, mem_restrict, decide_eq_true_eq]

theorem mem_insert : e ∈ (m.insert k v).entries ↔ e = (k, v) ∨ e ∈ m.entries ∧ e.1 ≠ k := by
  simp only [insert, List.mem_append, List.mem_cons, List.mem_filter, decide_eq_true_eq]
  constructor
  · rintro (⟨h, hlt⟩ | rfl | ⟨h, hlt⟩)
    · exact .inr ⟨h, ne_of_lt hlt⟩
    · exact .inl rfl
    · exact .inr ⟨h, (ne_of_lt hlt).symm⟩
  · rintro (rfl | ⟨h, hne⟩)
    · exact .inr (.inl rfl)
    · rcases lt_or_gt_of_ne hne with hlt | hlt
      · exact .inl ⟨h, hlt⟩
      · exact .inr (.inr ⟨h, hlt⟩)

theorem lastLE_mem (h : m.lastLE k = some e) : e ∈ m.entries ∧ e.1 ≤ k := by
  have hmem := List.mem_filter.mp (List.mem_of_getLast? h)
  exact ⟨hmem.1, of_decide_eq_true hmem.2⟩

theorem get_mem (h : m.get k = some v) : (k, v) ∈ m.entries := by
  obtain ⟨e, he, rfl⟩ := Option.map_eq_some_iff.mp h
  have hk : e.1 = k := of_decide_eq_true (List.find?_some (p := fun e : K × V => decide (e.1 = k)) he)
  rw [← hk]
  exact List.mem_of_find?_eq_some he

theorem get_none (h : m.get k = none) (he : e ∈ m.entries) : e.1 ≠ k := by
  have hnone := List.find?_eq_none.mp (Option.map_eq_none_iff.mp h) e he
  exact fun heq => hnone (decide_eq_true heq)

theorem get_eq_some : m.get k = some v ↔ (k, v) ∈ m.entries := by
  refine ⟨get_mem, fun h => ?_⟩
  cases hg : m.get k with
  | none => exact absurd rfl (get_none hg h)
  | some v' =>
    have heq := List.inj_on_of_nodup_map nodup_keys h (get_mem hg) rfl
    rw [(Prod.mk.inj heq).2]

theorem get_insert_self : (m.insert k v).get k = some v :=
  get_eq_some.mpr (mem_insert.mpr (.inl rfl))

theorem get_insert_of_ne {k' : K} (h : k' ≠ k) : (m.insert k v).get k' = m.get k' := by
  ext v'
  rw [get_eq_some, get_eq_some, mem_insert]
  constructor
  · rintro (heq | ⟨hmem, _⟩)
    · exact absurd (Prod.mk.inj heq).1 h
    · exact hmem
  · exact fun hmem => .inr ⟨hmem, h⟩

/-- Erasing takes one entry out. -/
theorem erase_perm (h : (k, v) ∈ m.entries) : m.entries.Perm ((k, v) :: (m.erase k).entries) := by
  refine (List.perm_ext_iff_of_nodup m.nodup (List.nodup_cons.mpr ⟨fun hin => ?_, nodup⟩)).mpr fun e => ?_
  · exact (mem_erase.mp hin).2 rfl
  · rw [List.mem_cons, mem_erase]
    constructor
    · intro he
      by_cases hk : e.1 = k
      · have heq := List.inj_on_of_nodup_map nodup_keys he h hk
        exact .inl heq
      · exact .inr ⟨he, hk⟩
    · rintro (rfl | he)
      · exact h
      · exact he.1

theorem insert_perm : (m.insert k v).entries.Perm ((k, v) :: (m.erase k).entries) := by
  refine (List.perm_ext_iff_of_nodup nodup (List.nodup_cons.mpr ⟨fun hin => ?_, nodup⟩)).mpr fun e => ?_
  · exact (mem_erase.mp hin).2 rfl
  · rw [List.mem_cons, mem_erase, mem_insert]

end Lemmas

end SortedMap

end Multi64
