import Multi64.ExfatNewEntry

/-! A listing where a listed set is written anew in its own slots, or marked
deleted. -/

namespace Multi64

namespace Exfat

section Listed

variable {slots slots' : List Bytes} {i j k : Nat} {e e' : DecodedEntry}

/-- What is listed before and behind a listed set. -/
theorem listSlots_around (hmem : (i, e) ∈ listSlots slots) : ∃ l₁, Walk slots 0 l₁ i ∧
    decodeEntrySet slots i = some (e, secondaryCount slots i) ∧
      listSlots slots = l₁ ++ (i, e) :: listAt slots (i + (1 + secondaryCount slots i)) := by
  obtain ⟨p, hwalk, _⟩ := @walk_of_list slots 0
  obtain ⟨l₁, l₂, k, _, hfront, hd, _⟩ := hwalk.at_entry hmem
  obtain rfl := (decode_bound hd).2
  refine ⟨l₁, hfront, hd, ?_⟩
  have hlist : listSlots slots = l₁ ++ listAt slots i := hfront.list
  rw [hlist, listAt_set hd, Nat.add_assoc]

theorem listed_fits (hmem : (i, e) ∈ listSlots slots) : i + (1 + secondaryCount slots i) ≤ slots.length := by
  obtain ⟨_, _, hd, _⟩ := listSlots_around hmem
  have hlast := (decode_bound hd).1
  omega

/-- A set written in the slots of a listed one is listed in its place. -/
theorem listSlots_rewrite (h : SameOutside slots slots' i (1 + secondaryCount slots i)) (hmem : (i, e) ∈ listSlots slots)
    (hd : decodeEntrySet slots' i = some (e', k)) (hk : k ≤ secondaryCount slots i)
    (hrest : ∀ j, i + 1 + k ≤ j → j < i + (1 + secondaryCount slots i) →
      byteAt (slot slots' j) 0 ≠ 0 ∧ byteAt (slot slots' j) 0 ≠ entryFileDirectory) :
    ∃ l₁ l₂, listSlots slots = l₁ ++ (i, e) :: l₂ ∧ listSlots slots' = l₁ ++ (i, e') :: l₂ := by
  obtain ⟨l₁, hwalk, hold, hlist⟩ := listSlots_around hmem
  have hfits := listed_fits hmem
  obtain ⟨m, hm⟩ := Nat.exists_eq_add_of_le hk
  have hthrough : Walk slots' (i + 1 + k) [] (i + 1 + k + m) :=
    Walk.through (by rw [h.length]; omega) fun j hj hlt => hrest j hj (by omega)
  have hset : Walk slots' i [(i, e')] (i + (1 + secondaryCount slots i)) := by
    rw [show i + (1 + secondaryCount slots i) = i + 1 + k + m by omega]
    exact .set hd hthrough
  refine ⟨l₁, _, hlist, ?_⟩
  rw [listSlots_region h (by omega) (notSecondary_of_decode hold) (notSecondary_of_decode hd) hwalk hset, List.append_assoc,
    List.singleton_append]

/-- A set whose slots are marked is not listed any more. -/
theorem listSlots_delete (h : SameOutside slots slots' i (1 + secondaryCount slots i)) (hmem : (i, e) ∈ listSlots slots)
    (hfirst : NotSecondary (slot slots' i)) (hgone : ∀ j, i ≤ j → j < i + (1 + secondaryCount slots i) →
      byteAt (slot slots' j) 0 ≠ 0 ∧ byteAt (slot slots' j) 0 ≠ entryFileDirectory) :
    ∃ l₁ l₂, listSlots slots = l₁ ++ (i, e) :: l₂ ∧ listSlots slots' = l₁ ++ l₂ := by
  obtain ⟨l₁, hwalk, hold, hlist⟩ := listSlots_around hmem
  have hfits := listed_fits hmem
  have hthrough : Walk slots' i [] (i + (1 + secondaryCount slots i)) := Walk.through (by rw [h.length]; omega) hgone
  refine ⟨l₁, _, hlist, ?_⟩
  rw [listSlots_region h (by omega) (notSecondary_of_decode hold) hfirst hwalk hthrough, List.append_nil]

end Listed

/-- An entry but for what a rename changes of its set: the count of its slots and
its checksum. -/
def DecodedEntry.view (e : DecodedEntry) : DecodedEntry := { e with primary := e.primary.drop 4 }

section Renamed

variable {slots front back : List Bytes} {i k : Nat} {e : DecodedEntry} {nameHash : Text → UInt16} {name : Text} {set : List Slab}

theorem overwrite_three {b : Bytes} {x y z : UInt8} (hb : b.length = 32) : (overwrite b 1 [x, y, z]).length = 32 ∧
    byteAt (overwrite b 1 [x, y, z]) 0 = byteAt b 0 ∧ byteAt (overwrite b 1 [x, y, z]) 1 = x ∧
      (overwrite b 1 [x, y, z]).drop 4 = b.drop 4 ∧ readLe (overwrite b 1 [x, y, z]) 4 2 = readLe b 4 2 := by
  obtain ⟨b₀, t, rfl⟩ : ∃ b₀ t, b = b₀ :: t := List.exists_cons_of_ne_nil fun hnil => by simp [hnil] at hb
  have hsplit : overwrite (b₀ :: t) 1 [x, y, z] = [b₀, x, y, z] ++ (b₀ :: t).drop 4 := by simp [overwrite]
  have hfour : (b₀ :: t).take 4 ++ (b₀ :: t).drop 4 = b₀ :: t := List.take_append_drop 4 _
  have htake : ((b₀ :: t).take 4).length = 4 := by
    rw [List.length_take, hb]
    rfl
  have hnew := readLe_append_right [b₀, x, y, z] ((b₀ :: t).drop 4) 0 2
  have hold := readLe_append_right ((b₀ :: t).take 4) ((b₀ :: t).drop 4) 0 2
  rw [htake, hfour] at hold
  rw [hsplit]
  refine ⟨?_, rfl, rfl, rfl, hnew.trans hold.symm⟩
  rw [List.length_append, List.length_drop, hb]
  rfl

theorem buildRenameEntrySetBytes_ok (h : buildRenameEntrySetBytes nameHash e name = .ok set) :
    validateRenameName name = .ok () ∧ set = entrySet nameHash (overwrite e.primary 1 [.ofNat (1 + nameEntryCount name), 0, 0])
      (if e.noFatChain then 0x03 else 0x01) name (.ofNat e.validDataLength) (.ofNat e.firstCluster) (.ofNat e.dataLength) := by
  unfold buildRenameEntrySetBytes at h
  cases hname : validateRenameName name with
  | error err =>
    rw [hname] at h
    nomatch h
  | ok u =>
    rw [hname] at h
    exact ⟨rfl, (Except.ok.inj h).symm⟩

theorem renamed_length (h : buildRenameEntrySetBytes nameHash e name = .ok set) : set.length = 2 + nameEntryCount name := by
  obtain ⟨_, rfl⟩ := buildRenameEntrySetBytes_ok h
  exact entrySet_length

/-- The set of a rename is read as the old one, but for its name. -/
theorem decode_renamed (hd : decodeEntrySet slots i = some (e, k)) (hsize : (slot slots i).length = 32)
    (h : buildRenameEntrySetBytes nameHash e name = .ok set) :
    ∃ e', decodeEntrySet (front ++ (set.map Slab.bytes ++ back)) front.length = some (e', 1 + nameEntryCount name) ∧
      e'.view = { e.view with name := name } := by
  obtain ⟨hname, rfl⟩ := buildRenameEntrySetBytes_ok h
  obtain ⟨h0, h1⟩ := validateRenameName_ok hname
  obtain ⟨hs, _, units, _, he⟩ := decodeEntrySet_some hd
  have hprimary : e.primary = slot slots i := by rw [he]
  have hkind : byteAt e.primary 0 = entryFileDirectory := hprimary ▸ (hasStream_file hs).2
  obtain ⟨hlen, h0', h1', hdrop, hattr⟩ := @overwrite_three e.primary (.ofNat (1 + nameEntryCount name)) 0 0 (hprimary ▸ hsize)
  obtain ⟨primary, hdecode, _, hrest⟩ := @decode_entrySet name nameHash (overwrite e.primary 1 [.ofNat (1 + nameEntryCount name), 0, 0])
    (if e.noFatChain then 0x03 else 0x01) (.ofNat e.validDataLength) (.ofNat e.dataLength) (.ofNat e.firstCluster) front back hlen
    (h0'.trans hkind) h1' h0 h1
  refine ⟨_, hdecode, ?_⟩
  have hvalid : e.validDataLength < 2 ^ 64 := by
    rw [he]
    exact readLe_lt _ 8 _
  have hfirst : e.firstCluster < 2 ^ 32 := by
    rw [he]
    exact readLe_lt _ 4 _
  have hdata : e.dataLength < 2 ^ 64 := by
    rw [he]
    exact readLe_lt _ 8 _
  have hattributes : readLe e.primary 4 2 = e.attributes := by rw [he]
  simp only [DecodedEntry.view, hattr, hattributes, hrest, hdrop, contiguous_flag, UInt64.toNat_ofNat', UInt32.toNat_ofNat',
    Nat.mod_eq_of_lt hvalid, Nat.mod_eq_of_lt hfirst, Nat.mod_eq_of_lt hdata]

end Renamed

/-- A slot that is not in use and no end marker either. -/
def Gone (b : Bytes) : Prop := byteAt b 0 ≠ 0 ∧ byteAt b 0 &&& entryInUse = 0

/-- A secondary entry in use. -/
def Secondary (b : Bytes) : Prop := byteAt b 0 &&& entryInUse ≠ 0 ∧ byteAt b 0 &&& 0x40 ≠ 0

/-- A directory as exFAT has it: behind its end marker nothing, in each set its
secondaries, no two names the same, and the sets in step. -/
structure WellFormed (toUppercase : Char → Text) (slots : List Bytes) : Prop where
  size : ∀ b ∈ slots, b.length = 32
  tail : TailUnused slots
  secondaries : ∀ i e, (i, e) ∈ listSlots slots → ∀ j, i < j → j < i + (1 + secondaryCount slots i) → Secondary (slot slots j)
  inStep : InStep slots
  named : (listSlots slots).Pairwise fun a b => fatNamesEqual toUppercase a.2.name b.2.name = false

section Moves

variable {slots new gone tail : List Bytes} {b : Bytes} {i j k n r : Nat} {e : DecodedEntry} {toUppercase : Char → Text}
  {nameHash : Text → UInt16} {name : Text} {set : List Slab}

theorem Gone.barren (h : Gone b) : byteAt b 0 ≠ 0 ∧ byteAt b 0 ≠ entryFileDirectory := by
  refine ⟨h.1, fun hkind => ?_⟩
  have huse := h.2
  rw [hkind] at huse
  exact absurd huse (by decide)

theorem Secondary.barren (h : Secondary b) : byteAt b 0 ≠ 0 ∧ byteAt b 0 ≠ entryFileDirectory := by
  constructor
  · intro hzero
    exact h.1 (by rw [hzero]; decide)
  · intro hkind
    exact h.2 (by rw [hkind]; decide)

theorem slot_splice (hr : r ≤ slots.length) (hk : k < new.length) :
    slot (slots.take r ++ (new ++ slots.drop (r + n))) (r + k) = new.get ⟨k, hk⟩ := by
  have htake : (slots.take r).length = r := List.length_take_of_le hr
  rw [slot, List.getD_eq_getElem?_getD, List.getElem?_append_right (by omega), htake, Nat.add_sub_cancel_left,
    List.getElem?_append_left hk, List.getElem?_eq_getElem hk]
  rfl

/-- The slots of a splice, each one that was put there. -/
theorem slot_splice_mem (hr : r ≤ slots.length) (hj : r ≤ j) (hlt : j < r + new.length) :
    slot (slots.take r ++ (new ++ slots.drop (r + n))) j ∈ new := by
  obtain ⟨k, rfl⟩ := Nat.exists_eq_add_of_le hj
  rw [slot_splice hr (by omega)]
  exact List.get_mem _ _

theorem WellFormed.sets (h : WellFormed toUppercase slots) : SetsInUse slots := by
  intro i e hmem j hij hlt hu
  by_cases hfirst : j = i
  · obtain ⟨_, _, hd, _⟩ := listSlots_around hmem
    rw [Unused, hfirst, (hasStream_file (decodeEntrySet_some hd).1).2] at hu
    exact absurd hu (by decide)
  · exact (h.secondaries i e hmem j (by omega) (by omega)).1 hu

/-- A rename within the slots of the old set, whatever becomes of those it leaves
over. -/
theorem rename_in_place (hwf : WellFormed toUppercase slots) (hmem : (i, e) ∈ listSlots slots)
    (h : buildRenameEntrySetBytes nameHash e name = .ok set) (hfits : set.length + tail.length = 1 + secondaryCount slots i)
    (htail : ∀ b ∈ tail, byteAt b 0 ≠ 0 ∧ byteAt b 0 ≠ entryFileDirectory) :
    ∃ l₁ l₂ e', listSlots slots = l₁ ++ (i, e) :: l₂ ∧ e'.view = { e.view with name := name } ∧
      listSlots (slots.take i ++ (set.map Slab.bytes ++ tail ++ slots.drop (i + (1 + secondaryCount slots i)))) = l₁ ++ (i, e') :: l₂ := by
  obtain ⟨_, _, hd, _⟩ := listSlots_around hmem
  have hin := listed_fits hmem
  have hlen : set.length = 2 + nameEntryCount name := renamed_length h
  have htake : (slots.take i).length = i := List.length_take_of_le (by omega)
  have hsize : (slot slots i).length = 32 := hwf.size _ (by
    rw [slot, List.getD_eq_getElem?_getD, List.getElem?_eq_getElem (by omega)]
    exact List.getElem_mem _)
  obtain ⟨e', hdecode, hview⟩ := @decode_renamed slots (slots.take i) (tail ++ slots.drop (i + (1 + secondaryCount slots i))) i _ e
    nameHash name set hd hsize h
  rw [htake, ← List.append_assoc (set.map Slab.bytes)] at hdecode
  have hnew : (set.map Slab.bytes ++ tail).length = 1 + secondaryCount slots i := by rw [List.length_append, List.length_map, hfits]
  obtain ⟨l₁, l₂, hold, hlist⟩ := listSlots_rewrite (sameOutside_splice hnew hin) hmem hdecode (by omega) fun j hj hlt => by
    obtain ⟨m, rfl⟩ := Nat.exists_eq_add_of_le hj
    have hm : set.length + m < (set.map Slab.bytes ++ tail).length := by omega
    have hslot := @slot_splice slots (set.map Slab.bytes ++ tail) (set.length + m) (1 + secondaryCount slots i) i (by omega) hm
    rw [show i + 1 + (1 + nameEntryCount name) + m = i + (set.length + m) by omega, hslot]
    refine htail _ ?_
    simp
  exact ⟨l₁, l₂, e', hold, hview, hlist⟩

/-- A rename to free slots, the old set marked. -/
theorem rename_moved (hwf : WellFormed toUppercase slots) (hmem : (i, e) ∈ listSlots slots)
    (h : buildRenameEntrySetBytes nameHash e name = .ok set)
    (hrun : findFreeEntryRun slots set.length (i, i + (1 + secondaryCount slots i)) = .ok r)
    (hlen : gone.length = 1 + secondaryCount slots i) (hgone : ∀ b ∈ gone, Gone b) :
    ∃ others e', (listSlots slots).Perm ((i, e) :: others) ∧ e'.view = { e.view with name := name } ∧
      (listSlots ((slots.take r ++ (set.map Slab.bytes ++ slots.drop (r + set.length))).take i ++ (gone ++
        (slots.take r ++ (set.map Slab.bytes ++ slots.drop (r + set.length))).drop (i + (1 + secondaryCount slots i))))).Perm
          ((r, e') :: others) := by
  obtain ⟨_, _, hd, _⟩ := listSlots_around hmem
  have hin := listed_fits hmem
  have hset : set.length = 2 + nameEntryCount name := renamed_length h
  obtain ⟨hfree, hroom⟩ := findFreeEntryRun_run hrun (by omega)
  have htake : (slots.take r).length = r := List.length_take_of_le (by omega)
  have hsize : (slot slots i).length = 32 := hwf.size _ (by
    rw [slot, List.getD_eq_getElem?_getD, List.getElem?_eq_getElem (by omega)]
    exact List.getElem_mem _)
  obtain ⟨e', hdecode, hview⟩ := @decode_renamed slots (slots.take r) (slots.drop (r + set.length)) i _ e nameHash name set hd hsize h
  rw [htake] at hdecode
  have hspliced : SameOutside slots (slots.take r ++ (set.map Slab.bytes ++ slots.drop (r + set.length))) r set.length :=
    sameOutside_splice (List.length_map ..) hroom
  generalize slots.take r ++ (set.map Slab.bytes ++ slots.drop (r + set.length)) = moved at hdecode hspliced ⊢
  -- The slot before the run is in use, be it of the old set or of another.
  have hstart : r = 0 ∨ ¬Unused slots (r - 1) := by
    rcases hfree.start with hzero | hskip | hused
    · exact .inl hzero
    · exact .inr (hwf.sets i e hmem (r - 1) hskip.1 (by omega))
    · exact .inr hused
  obtain ⟨l₁, l₂, hold, hnew⟩ := @listSlots_insert slots moved r (1 + nameEntryCount name) e'
    (by rwa [show 1 + nameEntryCount name + 1 = set.length by omega]) (by omega) hwf.tail hwf.sets hstart
    (fun j hj hlt => (hfree.free j hj (by omega)).2) hdecode
  have hslot : slot moved i = slot slots i := by
    by_cases hbefore : i < r
    · exact hspliced.before i hbefore
    · refine hspliced.behind i ?_
      by_contra hcover
      exact (hfree.free i (by omega) (by omega)).1 ⟨Nat.le_refl i, by omega⟩
  have hsec : secondaryCount moved i = secondaryCount slots i := by rw [secondaryCount, secondaryCount, hslot]
  have hmem' : (i, e) ∈ listSlots moved := by
    rw [hold] at hmem
    rw [hnew]
    rcases List.mem_append.mp hmem with hfront | hback
    · exact List.mem_append_left _ hfront
    · exact List.mem_append_right _ (List.mem_cons_of_mem _ hback)
  have hcut : SameOutside moved (moved.take i ++ (gone ++ moved.drop (i + (1 + secondaryCount slots i)))) i
      (1 + secondaryCount moved i) := by
    rw [hsec]
    exact sameOutside_splice hlen (by rw [hspliced.length]; exact hin)
  have hregion {j : Nat} (hj : i ≤ j) (hlt : j < i + (1 + secondaryCount slots i)) :
      Gone (slot (moved.take i ++ (gone ++ moved.drop (i + (1 + secondaryCount slots i)))) j) :=
    hgone _ (slot_splice_mem (by rw [hspliced.length]; omega) hj (by omega))
  have hfirst : NotSecondary (slot (moved.take i ++ (gone ++ moved.drop (i + (1 + secondaryCount slots i)))) i) :=
    Unused.notSecondary (hregion (Nat.le_refl i) (by omega)).2
  obtain ⟨m₁, m₂, hwith, hwithout⟩ := listSlots_delete hcut hmem' hfirst fun j hj hlt => (hregion hj (by omega)).barren
  obtain ⟨a₁, a₂, hsplit⟩ := List.append_of_mem hmem
  refine ⟨a₁ ++ a₂, e', ?_, hview, ?_⟩
  · rw [hsplit]
    exact List.perm_middle
  · rw [hwithout]
    -- Both are what is listed while there are two sets, less the old one.
    have hboth : (l₁ ++ (r, e') :: l₂).Perm (m₁ ++ (i, e) :: m₂) := by rw [← hnew, hwith]
    have htwo : List.Perm ((i, e) :: (m₁ ++ m₂)) ((i, e) :: (r, e') :: (a₁ ++ a₂)) :=
      calc List.Perm ((i, e) :: (m₁ ++ m₂)) (l₁ ++ (r, e') :: l₂) := (hboth.trans List.perm_middle).symm
        List.Perm _ ((r, e') :: listSlots slots) := by
          rw [hold]
          exact List.perm_middle
        List.Perm _ ((r, e') :: (i, e) :: (a₁ ++ a₂)) := by
          rw [hsplit]
          exact List.Perm.cons _ List.perm_middle
        List.Perm _ ((i, e) :: (r, e') :: (a₁ ++ a₂)) := List.Perm.swap _ _ _
    exact htwo.cons_inv

end Moves

end Exfat

end Multi64
