import Multi64.ExfatPlace

/-! The slots of a directory in its clusters, `ExfatDirSlots`: how they are read,
and what writing some of them leaves. -/

namespace Multi64

namespace Exfat

/-- The clusters of a directory in stream order, by their offsets in the volume. -/
structure ExfatDirSlots where
  clusterOffsets : List Nat
  slotsPerCluster : Nat

def slotBytes : Nat := 32

namespace ExfatDirSlots

variable (dir : ExfatDirSlots)

def slotCount : Nat := dir.clusterOffsets.length * dir.slotsPerCluster

def offset (slot : Nat) : Except PathError Nat :=
  match dir.clusterOffsets[slot / dir.slotsPerCluster]? with
  | none => .error (.invalidData "exFAT entry set runs past the end of its directory")
  | some base => .ok (base + slot % dir.slotsPerCluster * slotBytes)

def offsets (first count : Nat) : Except PathError (List Nat) := (List.range' first count).mapM dir.offset

def maxChunkSlots : Nat := 256

/-- Slots read at a time, none of them in another cluster. -/
def chunkSlots : Nat := if maxChunkSlots ∣ dir.slotsPerCluster then maxChunkSlots else dir.slotsPerCluster

/-- A slot of its chunk, as `ExfatSlotReader` reads it. -/
def readSlot (p : Partition) (m : Store) (slot : Nat) : Except PathError Bytes :=
  match dir.offset (slot / dir.chunkSlots * dir.chunkSlots) with
  | .error e => .error e
  | .ok at_ => .ok (slice (m.read (p.start * 512 + at_) (dir.chunkSlots * slotBytes)) (slot % dir.chunkSlots * slotBytes) slotBytes)

/-- The clusters are whole ones of the partition, and no two the same. -/
structure Sound (p : Partition) : Prop where
  perCluster : 0 < dir.slotsPerCluster
  inside : ∀ o ∈ dir.clusterOffsets, o + dir.slotsPerCluster * 32 ≤ p.bytes
  aligned : ∀ o ∈ dir.clusterOffsets, 512 ∣ o
  apart : dir.clusterOffsets.Pairwise fun a b => a + dir.slotsPerCluster * 32 ≤ b ∨ b + dir.slotsPerCluster * 32 ≤ a

def slotAddress (slot : Nat) : Nat := dir.clusterOffsets.getD (slot / dir.slotsPerCluster) 0 + slot % dir.slotsPerCluster * 32

/-- What the slots of the directory hold. -/
def contents (p : Partition) (m : Store) : List Bytes :=
  (List.range dir.slotCount).map fun i => m.read (p.start * 512 + dir.slotAddress i) 32

section Lemmas

variable {dir : ExfatDirSlots} {p : Partition} {m : Store} {i j r n : Nat} {set : List Slab}

@[simp] theorem contents_length : (dir.contents p m).length = dir.slotCount := by simp [contents]

theorem slot_contents (h : i < dir.slotCount) : slot (dir.contents p m) i = m.read (p.start * 512 + dir.slotAddress i) 32 := by
  simp [slot, contents, h]

theorem cluster_lt (h : i < dir.slotCount) : i / dir.slotsPerCluster < dir.clusterOffsets.length :=
  Nat.div_lt_of_lt_mul (by rwa [Nat.mul_comm])

theorem offset_ok (h : i < dir.slotCount) : dir.offset i = .ok (dir.slotAddress i) := by
  have hcluster := cluster_lt h
  simp [offset, slotAddress, hcluster, slotBytes]

theorem offsets_ok (h : r + n ≤ dir.slotCount) : dir.offsets r n = .ok ((List.range' r n).map dir.slotAddress) := by
  unfold offsets
  induction n generalizing r with
  | zero => rfl
  | succ n ih =>
    rw [List.range'_succ, List.mapM_cons, offset_ok (by omega), ih (by omega)]
    rfl

/-- The chunks hold what the slots do. -/
theorem readSlot_contents (hdir : dir.Sound p) (h : i < dir.slotCount) : dir.readSlot p m i = .ok (slot (dir.contents p m) i) := by
  have hpos := hdir.perCluster
  have hchunk : 0 < dir.chunkSlots ∧ dir.chunkSlots ∣ dir.slotsPerCluster := by
    unfold chunkSlots
    by_cases hdvd : maxChunkSlots ∣ dir.slotsPerCluster
    · rw [if_pos hdvd]
      exact ⟨by decide, hdvd⟩
    · rw [if_neg hdvd]
      exact ⟨hpos, Nat.dvd_refl _⟩
  obtain ⟨hcpos, q, hq⟩ := hchunk
  have hfirst : i / dir.chunkSlots * dir.chunkSlots ≤ i := Nat.div_mul_le_self i _
  have hdiv := Nat.div_add_mod i dir.chunkSlots
  have hmod := Nat.mod_lt i hcpos
  have hcluster : i / dir.chunkSlots * dir.chunkSlots / dir.slotsPerCluster = i / dir.slotsPerCluster := by
    rw [hq, ← Nat.div_div_eq_div_mul, ← Nat.div_div_eq_div_mul, Nat.mul_div_cancel _ hcpos]
  have hwithin : i / dir.chunkSlots * dir.chunkSlots % dir.slotsPerCluster + i % dir.chunkSlots = i % dir.slotsPerCluster := by
    rw [hq, Nat.mul_comm (i / dir.chunkSlots), Nat.mul_mod_mul_left, Nat.mod_mul, Nat.add_comm]
  have haddr : p.start * 512 + dir.slotAddress (i / dir.chunkSlots * dir.chunkSlots) + i % dir.chunkSlots * slotBytes =
      p.start * 512 + dir.slotAddress i := by
    rw [slotAddress, slotAddress, hcluster, ← hwithin, slotBytes]
    omega
  rw [readSlot, offset_ok (by omega), slot_contents h]
  simp only
  rw [Store.slice_read _ _ _ (by unfold slotBytes; omega), haddr, slotBytes]

theorem slots_apart (hdir : dir.Sound p) (hi : i < dir.slotCount) (hj : j < dir.slotCount) (hne : i ≠ j) :
    dir.slotAddress i + 32 ≤ dir.slotAddress j ∨ dir.slotAddress j + 32 ≤ dir.slotAddress i := by
  have hpos := hdir.perCluster
  have hmi := Nat.mod_lt i hpos
  have hmj := Nat.mod_lt j hpos
  have hdi := Nat.div_add_mod i dir.slotsPerCluster
  have hdj := Nat.div_add_mod j dir.slotsPerCluster
  unfold slotAddress
  by_cases hsame : i / dir.slotsPerCluster = j / dir.slotsPerCluster
  · rw [hsame] at hdi ⊢
    omega
  · have hci := cluster_lt hi
    have hcj := cluster_lt hj
    have hapart : ∀ a b (ha : a < dir.clusterOffsets.length) (hb : b < dir.clusterOffsets.length), a < b →
        dir.clusterOffsets[a] + dir.slotsPerCluster * 32 ≤ dir.clusterOffsets[b] ∨
          dir.clusterOffsets[b] + dir.slotsPerCluster * 32 ≤ dir.clusterOffsets[a] :=
      fun a b ha hb hlt => List.pairwise_iff_getElem.mp hdir.apart a b ha hb hlt
    simp only [List.getD_eq_getElem?_getD, List.getElem?_eq_getElem hci, List.getElem?_eq_getElem hcj, Option.getD_some]
    rcases Nat.lt_or_gt_of_ne hsame with hlt | hlt
    · have hab := hapart _ _ hci hcj hlt
      omega
    · have hab := hapart _ _ hcj hci hlt
      omega

/-- The slots of a set, as addresses of the card. -/
theorem slabBytes_slots (hlen : set.length = n) : slabBytes p ((List.range' r n).map dir.slotAddress) set =
    (List.range n).map fun k => (p.start * 512 + dir.slotAddress (r + k), ((set[k]?).map Slab.bytes).getD []) := by
  refine List.ext_getElem (by simp [slabBytes, hlen]) fun k hk hk' => ?_
  have hkn : k < set.length := by simpa [hlen] using hk'
  simp [slabBytes, hkn]

/-- Writing a set over slots of a directory puts it there and leaves the others. -/
theorem contents_write (hdir : dir.Sound p) (hlen : set.length = n) (hin : r + n ≤ dir.slotCount) :
    dir.contents p (m.writes (slabBytes p ((List.range' r n).map dir.slotAddress) set)) =
      (dir.contents p m).take r ++ (set.map Slab.bytes ++ (dir.contents p m).drop (r + n)) := by
  have hsize : ∀ k (hk : k < set.length), ((set[k]?.map Slab.bytes).getD []).length = 32 := by
    intro k hk
    simpa [hk] using set[k].size
  have hlist : (dir.contents p m).length = dir.slotCount := contents_length
  rw [slabBytes_slots hlen]
  refine List.ext_getElem ?_ fun i hi _ => ?_
  · simp only [List.length_append, List.length_take, List.length_drop, List.length_map, contents_length]
    omega
  have hic : i < dir.slotCount := by simpa using hi
  have hread : (dir.contents p (m.writes ((List.range n).map fun k =>
      (p.start * 512 + dir.slotAddress (r + k), ((set[k]?).map Slab.bytes).getD []))))[i] =
      (m.writes ((List.range n).map fun k => (p.start * 512 + dir.slotAddress (r + k), ((set[k]?).map Slab.bytes).getD []))).read
        (p.start * 512 + dir.slotAddress i) 32 := by
    simp [contents]
  rw [hread]
  by_cases hregion : r ≤ i ∧ i < r + n
  · obtain ⟨k, rfl⟩ := Nat.exists_eq_add_of_le hregion.1
    have hk : k < set.length := by omega
    have hapart : ((List.range n).map fun k => (p.start * 512 + dir.slotAddress (r + k),
        ((set[k]?).map Slab.bytes).getD [])).Pairwise Store.Apart := by
      refine List.pairwise_map.mpr (List.pairwise_lt_range.imp_of_mem fun {a b} ha hb hab => ?_)
      have ha' := List.mem_range.mp ha
      have hb' := List.mem_range.mp hb
      have hslots := slots_apart hdir (i := r + a) (j := r + b) (by omega) (by omega) (by omega)
      simp only [Store.Apart, hsize a (by omega), hsize b (by omega)]
      omega
    have hmem : (p.start * 512 + dir.slotAddress (r + k), ((set[k]?).map Slab.bytes).getD []) ∈ (List.range n).map fun k =>
        (p.start * 512 + dir.slotAddress (r + k), ((set[k]?).map Slab.bytes).getD []) :=
      List.mem_map.mpr ⟨k, List.mem_range.mpr (by omega), rfl⟩
    have hval := Store.writes_read (m := m) hapart hmem
    simp only [hsize k hk] at hval
    rw [hval]
    have htake : ((dir.contents p m).take r).length = r := by
      rw [List.length_take]
      omega
    rw [List.getElem_append_right (by omega), List.getElem_append_left (by simp; omega)]
    simp [htake, hk]
  · have houtside : ∀ w ∈ (List.range n).map fun k => (p.start * 512 + dir.slotAddress (r + k), ((set[k]?).map Slab.bytes).getD []),
        p.start * 512 + dir.slotAddress i + 32 ≤ w.1 ∨ w.1 + w.2.length ≤ p.start * 512 + dir.slotAddress i := by
      intro w hw
      obtain ⟨k, hk, rfl⟩ := List.mem_map.mp hw
      have hk' := List.mem_range.mp hk
      have hslots := slots_apart hdir hic (j := r + k) (by omega) (by omega)
      simp only [hsize k (by omega)]
      omega
    rw [Store.writes_read_apart houtside]
    have hi : i < (dir.contents p m).length := by omega
    have hold : (dir.contents p m)[i] = m.read (p.start * 512 + dir.slotAddress i) 32 := by simp [contents]
    by_cases hbefore : i < r
    · rw [List.getElem_append_left (by rw [List.length_take]; omega), List.getElem_take, hold]
    · have htake : ((dir.contents p m).take r).length = r := by
        rw [List.length_take]
        omega
      rw [List.getElem_append_right (by omega), List.getElem_append_right (by rw [List.length_map]; omega), List.getElem_drop]
      simp only [htake, List.length_map, hlen]
      rw [← hold]
      congr 1
      omega

end Lemmas

end ExfatDirSlots

end Exfat

end Multi64
