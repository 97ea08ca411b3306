import Multi64.Lib.Except
import Multi64.ExfatRename
import Multi64.ExfatRewrite

/-! What a rename finds of a well-formed directory before it writes: the set of the
old name, whether the new one is free, and the slots the new set goes to. -/

namespace Multi64

namespace Exfat

section Results

variable {ε ε' α β : Type} {x : Except ε α} {f : α → Except ε β} {g : ε → ε'} {a : α} {b : β}

theorem except_bind_ok : (x >>= f) = .ok b ↔ ∃ a, x = .ok a ∧ f a = .ok b := by
  cases x with
  | ok a => simp [bind, Except.bind]
  | error e => simp [bind, Except.bind]

theorem mapError_ok : x.mapError g = .ok a ↔ x = .ok a := by
  cases x with
  | ok b => simp [Except.mapError]
  | error e => simp [Except.mapError]

theorem pure_ok {c : α} : (pure c : Except ε α) = .ok a ↔ a = c := ⟨fun h => (Except.ok.inj h).symm, fun h => h ▸ rfl⟩

theorem stage_ok {reads : Nat → Bool} {n : Nat} {u : Unit} : stage reads n = .ok u ↔ reads n = true := by
  unfold stage
  by_cases h : reads n = true
  · simp [h]
  · simp [h]

end Results

section Lookups

variable {toUppercase : Char → Text} {slots : List Bytes} {i j : Nat} {e f : DecodedEntry} {a b c name : Text}

theorem fatNamesEqual_symm (h : fatNamesEqual toUppercase a b = true) : fatNamesEqual toUppercase b a = true := by
  simp only [fatNamesEqual, Bool.or_eq_true, decide_eq_true_eq] at h ⊢
  exact h.imp Eq.symm Eq.symm

theorem fatNamesEqual_trans (h : fatNamesEqual toUppercase a b = true) (h' : fatNamesEqual toUppercase b c = true) :
    fatNamesEqual toUppercase a c = true := by
  simp only [fatNamesEqual, Bool.or_eq_true, decide_eq_true_eq] at h h' ⊢
  rcases h with rfl | h
  · exact h'
  · rcases h' with rfl | h'
    · exact .inr h
    · exact .inr (h.trans h')

/-- No two listed sets have names that compare equal. -/
theorem WellFormed.same (hwf : WellFormed toUppercase slots) (he : (i, e) ∈ listSlots slots) (hf : (j, f) ∈ listSlots slots)
    (h : fatNamesEqual toUppercase e.name f.name = true) : (i, e) = (j, f) := by
  by_contra hne
  have hsymm : Std.Symm fun a b : Nat × DecodedEntry => fatNamesEqual toUppercase a.2.name b.2.name = false :=
    ⟨fun x y hxy => Bool.eq_false_iff.mpr fun hyx => by simp [fatNamesEqual_symm hyx] at hxy⟩
  have hapart := hwf.named.forall he hf hne
  simp [h] at hapart

theorem findListed_some (h : findListed toUppercase slots name = some (j, f)) :
    (j, f) ∈ listSlots slots ∧ fatNamesEqual toUppercase f.name name = true := by
  unfold findListed at h
  have hname := List.find?_some h
  exact ⟨List.mem_of_find?_eq_some h, hname⟩

theorem WellFormed.find (hwf : WellFormed toUppercase slots) (he : (i, e) ∈ listSlots slots)
    (h : fatNamesEqual toUppercase e.name name = true) : findListed toUppercase slots name = some (i, e) := by
  cases hfound : findListed toUppercase slots name with
  | none =>
    have hnone := List.find?_eq_none.mp hfound (i, e) he
    exact absurd h hnone
  | some x =>
    obtain ⟨j, f⟩ := x
    obtain ⟨hf, hname⟩ := findListed_some hfound
    rw [hwf.same he hf (fatNamesEqual_trans h (fatNamesEqual_symm hname))]

theorem WellFormed.locate (hwf : WellFormed toUppercase slots) (he : (i, e) ∈ listSlots slots) : locateSet slots e = .ok i := by
  have hfound := (agrees_of_inStep hwf.inStep).found i e he fun j f hf hid => by
    have hname : f.name = e.name := congrArg EntryIdentity.name hid
    have hsame := hwf.same hf he (by simp [fatNamesEqual, hname])
    exact congrArg Prod.fst hsame
  rw [locateSet, hfound]

/-- No other listed set has the name. -/
def NameFree (toUppercase : Char → Text) (slots : List Bytes) (i : Nat) (name : Text) : Prop :=
  ∀ j f, (j, f) ∈ listSlots slots → fatNamesEqual toUppercase f.name name = true → j = i

variable {p : Partition} {dir : ExfatDirSlots} {m : Store} {reads : Nat → Bool} {nameFrom nameTo : Text}

theorem findOld_ok (hwf : WellFormed toUppercase (dir.contents p m)) (he : (i, e) ∈ listSlots (dir.contents p m))
    (hfrom : fatNamesEqual toUppercase e.name nameFrom = true) {x : Nat × DecodedEntry} :
    findOld toUppercase p dir reads nameFrom m = .ok x ↔ reads 0 = true ∧ reads 1 = true ∧ x = (i, e) := by
  unfold findOld
  simp only [hwf.find he hfrom, hwf.locate he, except_bind_ok, stage_ok, pure_ok]
  simp

theorem checkNameFree_ok (hwf : WellFormed toUppercase (dir.contents p m)) {u : Unit} :
    checkNameFree toUppercase p dir reads nameTo m i = .ok u ↔ reads 2 = true ∧
      ((findListed toUppercase (dir.contents p m) nameTo).isSome → reads 3 = true) ∧ NameFree toUppercase (dir.contents p m) i nameTo := by
  unfold checkNameFree
  cases hfound : findListed toUppercase (dir.contents p m) nameTo with
  | none =>
    have hfree : NameFree toUppercase (dir.contents p m) i nameTo := fun j f hf hname =>
      absurd hname (List.find?_eq_none.mp hfound (j, f) hf)
    simp [except_bind_ok, stage_ok, hfree]
  | some x =>
    obtain ⟨j, f⟩ := x
    obtain ⟨hf, hname⟩ := findListed_some hfound
    have hfree : NameFree toUppercase (dir.contents p m) i nameTo ↔ j = i := by
      refine ⟨fun h => h j f hf hname, fun hij k g hg hgname => ?_⟩
      have hsame := hwf.same hg hf (fatNamesEqual_trans hgname (fatNamesEqual_symm hname))
      exact (congrArg Prod.fst hsame).trans hij
    simp only [hwf.locate hf, except_bind_ok, stage_ok, hfree]
    by_cases hij : j = i
    · simp [hij]
    · simp [hij]

end Lookups

namespace ExfatDirSlots

variable (dir : ExfatDirSlots) (p : Partition) (m : Store)

/-- Where `n` slots from slot `r` on are. -/
def addresses (r n : Nat) : List Nat := (List.range' r n).map dir.slotAddress

/-- What they hold. -/
def held (r n : Nat) : List Slab := (List.range' r n).map fun j => structToEntryBytes (slot (dir.contents p m) j)

end ExfatDirSlots

section Planned

variable {toUppercase : Char → Text} {nameHash : Text → UInt16} {p : Partition} {dir : ExfatDirSlots} {m : Store} {reads : Nat → Bool}
  {nameFrom nameTo : Text} {i : Nat} {e : DecodedEntry} {slabs : List Slab} {plan : RenamePlan}

theorem readOldSet_ok (hdir : dir.Sound p) (he : (i, e) ∈ listSlots (dir.contents p m)) {x : List Slab × List Nat} :
    readOldSet p dir reads m i = .ok x ↔ reads 4 = true ∧ x = (dir.held p m i (1 + secondaryCount (dir.contents p m) i),
      dir.addresses i (1 + secondaryCount (dir.contents p m) i)) := by
  obtain ⟨_, _, hd, _⟩ := listSlots_around he
  have hfits := listed_fits he
  rw [ExfatDirSlots.contents_length] at hfits
  have hs := (decodeEntrySet_some hd).1
  simp only [hasStream, Bool.and_eq_true, decide_eq_true_eq] at hs
  have hcount : ¬¬(2 ≤ secondaryCount (dir.contents p m) i ∧ secondaryCount (dir.contents p m) i ≤ 18) :=
    not_not.mpr ⟨hs.1.1.1.2, hs.1.1.2⟩
  have hread : (List.range' i (1 + secondaryCount (dir.contents p m) i)).mapM (dir.readSlot p m) =
      .ok ((List.range' i (1 + secondaryCount (dir.contents p m) i)).map (slot (dir.contents p m))) :=
    mapM_of_ok fun j hj => ExfatDirSlots.readSlot_contents hdir (by
      have hj' := List.mem_range'_1.mp hj
      omega)
  unfold readOldSet
  simp only [if_neg hcount, hread, ExfatDirSlots.offsets_ok hfits, except_bind_ok, mapError_ok, stage_ok, pure_ok]
  simp [ExfatDirSlots.held, ExfatDirSlots.addresses, Function.comp_def]

theorem planMove_ok {old : List Slab} {oldOffsets : List Nat} {n : Nat} (hold : old.length = n) (hpos : 0 < slabs.length) :
    planMove p dir reads m i slabs old oldOffsets = .ok plan ↔ reads 5 = true ∧ reads 6 = true ∧
      ∃ r, findFreeEntryRun (dir.contents p m) slabs.length (i, i + n) = .ok r ∧
        plan = .moved (dir.addresses r slabs.length) slabs (dir.held p m r slabs.length) oldOffsets (old.map deletedSlab) := by
  have hplace {r : Nat} (hrun : findFreeEntryRun (dir.contents p m) slabs.length (i, i + n) = .ok r) :
      dir.offsets r slabs.length = .ok (dir.addresses r slabs.length) ∧
        (dir.addresses r slabs.length).map (fun o => structToEntryBytes (m.read (p.start * 512 + o) 32)) = dir.held p m r slabs.length := by
    obtain ⟨_, hin⟩ := findFreeEntryRun_run hrun hpos
    rw [ExfatDirSlots.contents_length] at hin
    refine ⟨ExfatDirSlots.offsets_ok hin, ?_⟩
    rw [ExfatDirSlots.addresses, ExfatDirSlots.held, List.map_map]
    refine List.map_congr_left fun j hj => ?_
    have hj' := List.mem_range'_1.mp hj
    rw [ExfatDirSlots.slot_contents (by omega)]
    rfl
  unfold planMove
  simp only [except_bind_ok, mapError_ok, stage_ok, pure_ok, hold]
  constructor
  · rintro ⟨_, h5, r, hrun, offsets, hoff, _, h6, rfl⟩
    obtain ⟨hoff', hheld⟩ := hplace hrun
    obtain rfl := Except.ok.inj (hoff'.symm.trans hoff)
    exact ⟨h5, h6, r, hrun, by rw [hheld]⟩
  · rintro ⟨h5, h6, r, hrun, rfl⟩
    obtain ⟨hoff, hheld⟩ := hplace hrun
    exact ⟨(), h5, r, hrun, _, hoff, (), h6, by rw [hheld]⟩

/-- The lookups that every rename makes. -/
structure Finds (toUppercase : Char → Text) (slots : List Bytes) (reads : Nat → Bool) (nameTo : Text) : Prop where
  old : reads 0 = true ∧ reads 1 = true
  new : reads 2 = true ∧ ((findListed toUppercase slots nameTo).isSome → reads 3 = true)
  set : reads 4 = true

/-- What a rename is to write. -/
inductive Planned (p : Partition) (dir : ExfatDirSlots) (m : Store) (reads : Nat → Bool) (i : Nat) (slabs : List Slab) : RenamePlan → Prop where
  | inPlace {surplus : Nat} (h : slabs.length + surplus = 1 + secondaryCount (dir.contents p m) i) :
      Planned p dir m reads i slabs (.inPlace (dir.addresses i slabs.length) slabs (dir.addresses (i + slabs.length) surplus)
        ((dir.held p m (i + slabs.length) surplus).map deletedSlab))
  | moved {r : Nat} (h : 1 + secondaryCount (dir.contents p m) i < slabs.length) (reads5 : reads 5 = true) (reads6 : reads 6 = true)
      (run : findFreeEntryRun (dir.contents p m) slabs.length (i, i + (1 + secondaryCount (dir.contents p m) i)) = .ok r) :
      Planned p dir m reads i slabs (.moved (dir.addresses r slabs.length) slabs (dir.held p m r slabs.length)
        (dir.addresses i (1 + secondaryCount (dir.contents p m) i))
        ((dir.held p m i (1 + secondaryCount (dir.contents p m) i)).map deletedSlab))

theorem planRename_ok (hdir : dir.Sound p) (hwf : WellFormed toUppercase (dir.contents p m)) (he : (i, e) ∈ listSlots (dir.contents p m))
    (hfrom : fatNamesEqual toUppercase e.name nameFrom = true) :
    planRename toUppercase nameHash p dir reads nameFrom nameTo m = .ok plan ↔
      Finds toUppercase (dir.contents p m) reads nameTo ∧ NameFree toUppercase (dir.contents p m) i nameTo ∧
        ∃ slabs, buildRenameEntrySetBytes nameHash e nameTo = .ok slabs ∧ Planned p dir m reads i slabs plan := by
  have hcut (n k : Nat) : (dir.addresses i (n + k)).take n = dir.addresses i n ∧ (dir.addresses i (n + k)).drop n = dir.addresses (i + n) k ∧
      (dir.held p m i (n + k)).drop n = dir.held p m (i + n) k := by
    simp [ExfatDirSlots.addresses, ExfatDirSlots.held, ← List.range'_append_1]
  unfold planRename
  simp only [except_bind_ok, mapError_ok, findOld_ok hwf he hfrom, Prod.exists, Prod.mk.injEq]
  constructor
  · rintro ⟨i, e, ⟨h0, h1, rfl, rfl⟩, _, hfree, slabs, hbuild, old, oldOffsets, hold, hplan⟩
    obtain ⟨h2, h3, hnone⟩ := (checkNameFree_ok hwf).mp hfree
    obtain ⟨h4, hset⟩ := (readOldSet_ok hdir he).mp hold
    obtain ⟨rfl, rfl⟩ := Prod.mk.inj hset
    refine ⟨⟨⟨h0, h1⟩, ⟨h2, h3⟩, h4⟩, hnone, slabs, hbuild, ?_⟩
    have hlen : (dir.held p m i (1 + secondaryCount (dir.contents p m) i)).length = 1 + secondaryCount (dir.contents p m) i := by
      simp [ExfatDirSlots.held]
    rw [hlen] at hplan
    by_cases hfits : slabs.length ≤ 1 + secondaryCount (dir.contents p m) i
    · rw [if_pos hfits] at hplan
      obtain rfl := pure_ok.mp hplan
      obtain ⟨k, hk⟩ := Nat.exists_eq_add_of_le hfits
      obtain ⟨htake, hdrop, hheld⟩ := hcut slabs.length k
      rw [hk, htake, hdrop, hheld]
      exact .inPlace hk.symm
    · rw [if_neg hfits] at hplan
      have hpos : 0 < slabs.length := by omega
      obtain ⟨h5, h6, r, hrun, rfl⟩ := (planMove_ok hlen hpos).mp hplan
      exact .moved (by omega) h5 h6 hrun
  · rintro ⟨hfinds, hfree, slabs, hbuild, hplanned⟩
    refine ⟨i, e, ⟨hfinds.old.1, hfinds.old.2, rfl, rfl⟩, (), (checkNameFree_ok hwf).mpr ⟨hfinds.new.1, hfinds.new.2, hfree⟩, slabs,
      hbuild, _, _, (readOldSet_ok hdir he).mpr ⟨hfinds.set, rfl⟩, ?_⟩
    have hlen : (dir.held p m i (1 + secondaryCount (dir.contents p m) i)).length = 1 + secondaryCount (dir.contents p m) i := by
      simp [ExfatDirSlots.held]
    rw [hlen]
    cases hplanned with
    | @inPlace k h =>
      obtain ⟨htake, hdrop, hheld⟩ := hcut slabs.length k
      rw [if_pos (by omega), ← h, htake, hdrop, hheld]
      rfl
    | moved h h5 h6 hrun =>
      rw [if_neg (by omega)]
      exact (planMove_ok hlen (by omega)).mpr ⟨h5, h6, _, hrun, rfl⟩

end Planned

end Exfat

end Multi64
