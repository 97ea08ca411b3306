import Mathlib
import Multi64.ExfatRenamePlan

/-! What a rename leaves, command by command: of its two writes and the flush after
them, the one that fails decides. -/

namespace Multi64

open SectorPartitionDisk

section Runs

variable {link link' : FlakyCard} {written : Store} {r : SlabsWritten} {k n f g : Nat} {p : Partition} {offsets : List Nat}
  {slabs : List Slab}

theorem FlakyCard.FailsAt.unique (h : link.FailsAt f) (h' : link.FailsAt g) : f = g := by
  rcases Nat.lt_trichotomy f g with hlt | heq | hlt
  · exact absurd h'.1 (h.not_works hlt)
  · exact heq
  · exact absurd h.1 (h'.not_works hlt)

/-- A write of an entry set to `n` sectors, and what it leaves. -/
structure Wrote (n : Nat) (link link' : FlakyCard) (written : Store) (r : SlabsWritten) : Prop where
  spends : SetSpends n 0 link r link'
  whole : WholeOrBack link'.card written link.card r

theorem Wrote.cases (h : Wrote n link link' written r) :
    (link.Works (3 * n) ∧ r = .ok ∧ link'.card = written ∧ link'.outcomes = link.outcomes ∧ link'.commands = link.commands + 3 * n) ∨
      ∃ f < 3 * n, link.FailsAt f ∧ ∃ e restored, r = .failed e restored ∧
        (restored = true ↔ (link.after (f + 1)).Works (2 * ((f + 2) / 3))) ∧ (restored = true → link'.card = link.card) := by
  have hwhole := h.whole
  rcases works_or_fails link (3 * n) with hworks | ⟨f, hf, hfails⟩
  · obtain ⟨hok, hcommands⟩ := h.spends.done hworks
    rw [hok] at hwhole
    exact .inl ⟨hworks, hok, hwhole, h.spends.outcomes, hcommands⟩
  · obtain ⟨e, restored, hr, hback⟩ := h.spends.failed f hf hfails
    rw [hr] at hwhole
    rw [Nat.zero_add] at hback
    exact .inr ⟨f, hf, hfails, e, restored, hr, hback, hwhole⟩

/-- Slots in whole sectors of the partition are grouped. -/
theorem groupLoop_some (h : ∀ o ∈ offsets, sectorStart o + 512 ≤ p.bytes) (i : Nat) (sectors : List (Nat × List Nat)) :
    groupLoop p.bytes offsets i sectors ≠ none := by
  induction offsets generalizing i sectors with
  | nil => exact nofun
  | cons o offsets ih =>
    have ho := h o List.mem_cons_self
    have hrest := ih fun o' ho' => h o' (List.mem_cons_of_mem o ho')
    rw [groupLoop]
    simp only [if_neg (Nat.not_lt.mpr ho)]
    cases sectors.getLast? with
    | none => exact hrest _ _
    | some g =>
      by_cases hs : g.1 = sectorStart o
      · simp only [if_pos hs]
        exact hrest _ _
      · simp only [if_neg hs]
        exact hrest _ _

theorem wrote_slabs (hslots : Slotted offsets slabs) (hin : ∀ o ∈ offsets, sectorStart o + 512 ≤ p.bytes) (link : FlakyCard) :
    Wrote (sectorCount p offsets) link (exfatWriteEntrySlabsRestoring FlakyCard.sdCard p offsets slabs link).2
      (link.card.writes (slabBytes p offsets slabs)) (exfatWriteEntrySlabsRestoring FlakyCard.sdCard p offsets slabs link).1 :=
  ⟨entry_slabs_commands hslots (groupLoop_some hin 0 []) link, slabs_whole hslots.1 link⟩

end Runs

namespace Exfat

/-- Marking no slots is writing none. -/
theorem markSlotsDeleted_eq {σ : Type} (t : SdCard σ) (p : Partition) (offsets : List Nat) (gone : List Slab) (link : σ) :
    markSlotsDeleted t p offsets gone link = exfatWriteEntrySlabsRestoring t p offsets gone link := by
  unfold markSlotsDeleted
  by_cases hnone : offsets = []
  · rw [if_pos hnone, hnone]
    rfl
  · rw [if_neg hnone]

section Flush

variable {link : FlakyCard} {k n : Nat}

theorem flushSerial_cases (link : FlakyCard) :
    (link.Works 1 ∧ flushSerial FlakyCard.sdCard link = (.ok, link.spent)) ∨
      (link.FailsAt 0 ∧ flushSerial FlakyCard.sdCard link = (.failed (.flush FlakyCard.timedOut), link.spent)) := by
  unfold flushSerial
  simp only [FlakyCard.sdCard, FlakyCard.answer]
  cases hnext : link.outcomes link.commands with
  | works =>
    refine .inl ⟨fun i hi => ?_, rfl⟩
    obtain rfl : i = 0 := by omega
    exact hnext
  | fails landed =>
    refine .inr ⟨⟨fun i hi => absurd hi (Nat.not_lt_zero i), ?_⟩, rfl⟩
    rw [Nat.add_zero, hnext]
    intro hworks
    cases hworks

end Flush

section Writes

variable {p : Partition} {link : FlakyCard} {n k : Nat} {mid fin back : Store} {offsets surplus oldOffsets : List Nat}
  {slabs gone freeBefore : List Slab}

/-- How a rename in the old set's slots ends. -/
inductive InPlaceEnd (n k : Nat) (link : FlakyCard) (mid fin : Store) : RenameResult → Store → Prop where
  | done (h : link.Works (3 * (n + k) + 1)) : InPlaceEnd n k link mid fin .ok fin
  | written {f : Nat} {e : IoFailure} {restored : Bool} {m : Store} (hf : f < 3 * n) (h : link.FailsAt f)
      (back : restored = true → m = link.card) : InPlaceEnd n k link mid fin (.failed (.written e restored)) m
  | surplus {f : Nat} {e : IoFailure} {restored : Bool} {m : Store} (hf : f < 3 * k) (h : link.FailsAt (3 * n + f))
      (hback : restored = true ↔ (link.after (3 * n + f + 1)).Works (2 * ((f + 2) / 3))) (back : restored = true → m = mid) :
      InPlaceEnd n k link mid fin (.failed (.surplus e restored)) m
  | flush {e : DiskError} (h : link.FailsAt (3 * (n + k))) : InPlaceEnd n k link mid fin (.failed (.flush e)) fin

/-- How a rename to other slots ends. -/
inductive MovedEnd (n k : Nat) (link : FlakyCard) (back fin : Store) : RenameResult → Store → Prop where
  | done (h : link.Works (3 * (n + k) + 1)) : MovedEnd n k link back fin .ok fin
  | undone {f : Nat} {why : RenameFailure} {m : Store} (hf : f < 3 * (n + k)) (h : link.FailsAt f)
      (hm : why.restored = true → m = link.card ∨ m = back) : MovedEnd n k link back fin (.failed why) m
  | flush {e : DiskError} (h : link.FailsAt (3 * (n + k))) : MovedEnd n k link back fin (.failed (.flush e)) fin

theorem writeRename_inPlace (hfirst : ∀ l, Wrote n l (exfatWriteEntrySlabsRestoring FlakyCard.sdCard p offsets slabs l).2
      (l.card.writes (slabBytes p offsets slabs)) (exfatWriteEntrySlabsRestoring FlakyCard.sdCard p offsets slabs l).1)
    (hsecond : ∀ l, Wrote k l (exfatWriteEntrySlabsRestoring FlakyCard.sdCard p surplus gone l).2
      (l.card.writes (slabBytes p surplus gone)) (exfatWriteEntrySlabsRestoring FlakyCard.sdCard p surplus gone l).1) :
    InPlaceEnd n k link (link.card.writes (slabBytes p offsets slabs))
      ((link.card.writes (slabBytes p offsets slabs)).writes (slabBytes p surplus gone))
      (writeRename FlakyCard.sdCard p (.inPlace offsets slabs surplus gone) link).1
      (writeRename FlakyCard.sdCard p (.inPlace offsets slabs surplus gone) link).2.card := by
  rw [writeRename]
  have hrun := (hfirst link).cases
  revert hrun
  obtain ⟨r, l⟩ := exfatWriteEntrySlabsRestoring FlakyCard.sdCard p offsets slabs link
  rintro (⟨hworks, rfl, hcard, houtcomes, hcommands⟩ | ⟨f, hf, hfails, e, restored, rfl, _, hback⟩)
  · simp only [markSlotsDeleted_eq]
    have hrun := (hsecond l).cases
    revert hrun
    obtain ⟨r, l'⟩ := exfatWriteEntrySlabsRestoring FlakyCard.sdCard p surplus gone l
    simp only at hcard houtcomes hcommands
    rintro (⟨hworks', rfl, hcard', houtcomes', hcommands'⟩ | ⟨f, hf, hfails, e, restored, rfl, hiff, hback⟩)
    · simp only at hcard' houtcomes' hcommands'
      have hboth : link.Works (3 * (n + k)) := by
        rw [Nat.mul_add]
        exact works_add.mpr ⟨hworks, (works_congr (s := link.after (3 * n)) houtcomes hcommands).mp hworks'⟩
      have hthere : l'.outcomes = (link.after (3 * (n + k))).outcomes ∧ l'.commands = (link.after (3 * (n + k))).commands := by
        refine ⟨houtcomes'.trans houtcomes, ?_⟩
        simp only [FlakyCard.after]
        omega
      rcases flushSerial_cases l' with ⟨hlast, hflush⟩ | ⟨hlast, hflush⟩
      · simp only [hflush, FlakyCard.spent, hcard', hcard]
        exact .done (works_add.mpr ⟨hboth, (works_congr hthere.1 hthere.2).mp hlast⟩)
      · simp only [hflush, FlakyCard.spent, hcard', hcard]
        exact .flush (failsAt_add.mpr ⟨hboth, (failsAt_congr hthere.1 hthere.2).mp hlast⟩)
    · refine .surplus hf (failsAt_add.mpr ⟨hworks, (failsAt_congr (s := link.after (3 * n)) houtcomes hcommands).mp hfails⟩) (hiff.trans ?_)
        fun hrestored => (hback hrestored).trans hcard
      refine works_congr houtcomes ?_
      simp only [FlakyCard.after]
      omega
  · exact .written hf hfails hback

theorem writeRename_moved (hfirst : ∀ l, Wrote n l (exfatWriteEntrySlabsRestoring FlakyCard.sdCard p offsets slabs l).2
      (l.card.writes (slabBytes p offsets slabs)) (exfatWriteEntrySlabsRestoring FlakyCard.sdCard p offsets slabs l).1)
    (hsecond : ∀ l, Wrote k l (exfatWriteEntrySlabsRestoring FlakyCard.sdCard p oldOffsets gone l).2
      (l.card.writes (slabBytes p oldOffsets gone)) (exfatWriteEntrySlabsRestoring FlakyCard.sdCard p oldOffsets gone l).1)
    (hundo : ∀ l, Wrote n l (exfatWriteEntrySlabsRestoring FlakyCard.sdCard p offsets freeBefore l).2
      (l.card.writes (slabBytes p offsets freeBefore)) (exfatWriteEntrySlabsRestoring FlakyCard.sdCard p offsets freeBefore l).1) :
    MovedEnd n k link ((link.card.writes (slabBytes p offsets slabs)).writes (slabBytes p offsets freeBefore))
      ((link.card.writes (slabBytes p offsets slabs)).writes (slabBytes p oldOffsets gone))
      (writeRename FlakyCard.sdCard p (.moved offsets slabs freeBefore oldOffsets gone) link).1
      (writeRename FlakyCard.sdCard p (.moved offsets slabs freeBefore oldOffsets gone) link).2.card := by
  rw [writeRename]
  have hrun := (hfirst link).cases
  revert hrun
  obtain ⟨r, l⟩ := exfatWriteEntrySlabsRestoring FlakyCard.sdCard p offsets slabs link
  rintro (⟨hworks, rfl, hcard, houtcomes, hcommands⟩ | ⟨f, hf, hfails, e, restored, rfl, _, hback⟩)
  · simp only [markSlotsDeleted_eq]
    have hrun := (hsecond l).cases
    revert hrun
    obtain ⟨r, l'⟩ := exfatWriteEntrySlabsRestoring FlakyCard.sdCard p oldOffsets gone l
    simp only at hcard houtcomes hcommands
    rintro (⟨hworks', rfl, hcard', houtcomes', hcommands'⟩ | ⟨f, hf, hfails, e, restored, rfl, _, hback⟩)
    · simp only at hcard' houtcomes' hcommands'
      have hboth : link.Works (3 * (n + k)) := by
        rw [Nat.mul_add]
        exact works_add.mpr ⟨hworks, (works_congr (s := link.after (3 * n)) houtcomes hcommands).mp hworks'⟩
      have hthere : l'.outcomes = (link.after (3 * (n + k))).outcomes ∧ l'.commands = (link.after (3 * (n + k))).commands := by
        refine ⟨houtcomes'.trans houtcomes, ?_⟩
        simp only [FlakyCard.after]
        omega
      rcases flushSerial_cases l' with ⟨hlast, hflush⟩ | ⟨hlast, hflush⟩
      · simp only [hflush, FlakyCard.spent, hcard', hcard]
        exact .done (works_add.mpr ⟨hboth, (works_congr hthere.1 hthere.2).mp hlast⟩)
      · simp only [hflush, FlakyCard.spent, hcard', hcard]
        exact .flush (failsAt_add.mpr ⟨hboth, (failsAt_congr hthere.1 hthere.2).mp hlast⟩)
    · have hlate := failsAt_add.mpr ⟨hworks, (failsAt_congr (s := link.after (3 * n)) houtcomes hcommands).mp hfails⟩
      have hlt : 3 * n + f < 3 * (n + k) := by omega
      simp only at hback
      change MovedEnd n k link _ _ (takeBack FlakyCard.sdCard p offsets freeBefore e restored l').1
        (takeBack FlakyCard.sdCard p offsets freeBefore e restored l').2.card
      rw [takeBack]
      have hrun := (hundo l').cases
      revert hrun
      obtain ⟨r, l''⟩ := exfatWriteEntrySlabsRestoring FlakyCard.sdCard p offsets freeBefore l'
      rintro (⟨_, rfl, hcard'', _⟩ | ⟨_, _, _, e', restored', rfl, _⟩)
      · have hundone : (RenameFailure.takenBack e restored).restored = true → l''.card = link.card ∨
            l''.card = (link.card.writes (slabBytes p offsets slabs)).writes (slabBytes p offsets freeBefore) := by
          intro hrestored
          simp only at hcard''
          rw [hcard'', hback hrestored, hcard]
          exact .inr rfl
        exact .undone hlt hlate hundone
      · have htwice : (RenameFailure.twoNames e e').restored = true → l''.card = link.card ∨
            l''.card = (link.card.writes (slabBytes p offsets slabs)).writes (slabBytes p offsets freeBefore) :=
          fun hrestored => absurd hrestored Bool.false_ne_true
        exact .undone hlt hlate htwice
  · exact .undone (by omega) hfails fun hrestored => .inl (hback hrestored)

end Writes

/-- Nothing of the card changed but in the slots of the directory. -/
def DataKept (p : Partition) (dir : ExfatDirSlots) (m m' : Store) : Prop :=
  ∀ a, (∀ j < dir.slotCount, a < p.start * 512 + dir.slotAddress j ∨ p.start * 512 + dir.slotAddress j + 32 ≤ a) → m' a = m a

section Slots

variable {p : Partition} {dir : ExfatDirSlots} {m m' m'' : Store} {set : List Slab} {r n : Nat}

theorem DataKept.trans (h : DataKept p dir m m') (h' : DataKept p dir m' m'') : DataKept p dir m m'' :=
  fun a ha => (h' a ha).trans (h a ha)

theorem addresses_length : (dir.addresses r n).length = n := by simp [ExfatDirSlots.addresses]

theorem held_length : (dir.held p m r n).length = n := by simp [ExfatDirSlots.held]

theorem slotAddress_dvd (hdir : dir.Sound p) (j : Nat) : 32 ∣ dir.slotAddress j := by
  unfold ExfatDirSlots.slotAddress
  refine Nat.dvd_add ?_ (Nat.dvd_mul_left 32 _)
  by_cases hcluster : j / dir.slotsPerCluster < dir.clusterOffsets.length
  · have haligned := hdir.aligned _ (List.getElem_mem hcluster)
    rw [List.getD_eq_getElem?_getD, List.getElem?_eq_getElem hcluster, Option.getD_some]
    exact Nat.dvd_trans (by decide) haligned
  · rw [List.getD_eq_getElem?_getD, List.getElem?_eq_none (Nat.not_lt.mp hcluster), Option.getD_none]
    exact Nat.dvd_zero 32

theorem slotAddress_fits (hdir : dir.Sound p) {j : Nat} (h : j < dir.slotCount) : dir.slotAddress j + 32 ≤ p.bytes := by
  have hcluster := ExfatDirSlots.cluster_lt h
  have hinside := hdir.inside _ (List.getElem_mem hcluster)
  have hmod := Nat.mod_lt j hdir.perCluster
  unfold ExfatDirSlots.slotAddress
  rw [List.getD_eq_getElem?_getD, List.getElem?_eq_getElem hcluster, Option.getD_some]
  have hwithin : j % dir.slotsPerCluster * 32 + 32 ≤ dir.slotsPerCluster * 32 := by omega
  omega

theorem wrote_slots (hdir : dir.Sound p) (hlen : set.length = n) (hin : r + n ≤ dir.slotCount) (link : FlakyCard) :
    Wrote (sectorCount p (dir.addresses r n)) link (exfatWriteEntrySlabsRestoring FlakyCard.sdCard p (dir.addresses r n) set link).2
      (link.card.writes (slabBytes p (dir.addresses r n) set))
      (exfatWriteEntrySlabsRestoring FlakyCard.sdCard p (dir.addresses r n) set link).1 := by
  refine wrote_slabs ⟨addresses_length.trans hlen.symm, fun o ho => ?_⟩ (fun o ho => ?_) link
  · obtain ⟨j, _, rfl⟩ := List.mem_map.mp ho
    exact slotAddress_dvd hdir j
  · obtain ⟨j, hj, rfl⟩ := List.mem_map.mp ho
    have hj' := List.mem_range'_1.mp hj
    have hfits := slotAddress_fits hdir (by omega : j < dir.slotCount)
    obtain ⟨q, hq⟩ := p.sectors
    unfold sectorStart
    omega

theorem writes_kept (hlen : set.length = n) (hin : r + n ≤ dir.slotCount) : DataKept p dir m (m.writes (slabBytes p (dir.addresses r n) set)) := by
  intro a ha
  refine Store.writes_outside fun w hw => ?_
  rw [ExfatDirSlots.addresses, ExfatDirSlots.slabBytes_slots hlen] at hw
  obtain ⟨k, hk, rfl⟩ := List.mem_map.mp hw
  have hk' := List.mem_range.mp hk
  have hset : k < set.length := by omega
  have hsize : ((set[k]?.map Slab.bytes).getD []).length = 32 := by simpa [hset] using set[k].size
  rw [hsize]
  exact ha (r + k) (by omega)

end Slots

section Kept

variable (p : Partition) (dir : ExfatDirSlots) (reads : Nat → Bool) (i : Nat) (e : DecodedEntry) (name : Text) (m m' : Store)

/-- What a rename of the set at `i` promises by its result. -/
def RenameKept : RenameResult → Prop
  | .ok => (∃ others j e', (listSlots (dir.contents p m)).Perm ((i, e) :: others) ∧
      (listSlots (dir.contents p m')).Perm ((j, e') :: others) ∧ e'.view = { e.view with name := name }) ∧ DataKept p dir m m'
  | .failed why => why.restored = true →
      (listEntries (dir.contents p m')).map DecodedEntry.view = (listEntries (dir.contents p m)).map DecodedEntry.view ∧ DataKept p dir m m'
  | .panic => False

/-- The rename is complete but for marking slots or the last flush, and there a
command fails. Of the marked slots the sectors are put back. -/
inductive LateFailure (len : Nat) (link : FlakyCard) : Prop where
  | surplus {surplus f : Nat} (fits : len + surplus = 1 + secondaryCount (dir.contents p m) i)
      (hf : f < 3 * sectorCount p (dir.addresses (i + len) surplus)) (fails : link.FailsAt (3 * sectorCount p (dir.addresses i len) + f))
      (back : (link.after (3 * sectorCount p (dir.addresses i len) + f + 1)).Works (2 * ((f + 2) / 3)))
  | inPlace {surplus : Nat} (fits : len + surplus = 1 + secondaryCount (dir.contents p m) i)
      (fails : link.FailsAt (3 * (sectorCount p (dir.addresses i len) + sectorCount p (dir.addresses (i + len) surplus))))
  | moved {r : Nat} (long : 1 + secondaryCount (dir.contents p m) i < len) (read : reads 5 = true ∧ reads 6 = true)
      (run : findFreeEntryRun (dir.contents p m) len (i, i + (1 + secondaryCount (dir.contents p m) i)) = .ok r)
      (fails : link.FailsAt (3 * (sectorCount p (dir.addresses r len) +
        sectorCount p (dir.addresses i (1 + secondaryCount (dir.contents p m) i)))))

/-- The set at `i` has the new name, in its place. -/
def RenamedAt : Prop := ∃ l₁ l₂ e', listSlots (dir.contents p m) = l₁ ++ (i, e) :: l₂ ∧ e'.view = { e.view with name := name } ∧
  listSlots (dir.contents p m') = l₁ ++ (i, e') :: l₂

/-- It has it elsewhere. -/
def RenamedTo (r : Nat) : Prop := ∃ others e', (listSlots (dir.contents p m)).Perm ((i, e) :: others) ∧
  e'.view = { e.view with name := name } ∧ (listSlots (dir.contents p m')).Perm ((r, e') :: others)

end Kept

section Views

variable {p : Partition} {dir : ExfatDirSlots} {i r : Nat} {e e' : DecodedEntry} {name : Text} {m m' : Store}

theorem view_name (h : e'.view = { e.view with name := name }) : e'.view = e.view ↔ e.name = name := by
  constructor
  · intro hsame
    have hname := congrArg DecodedEntry.name (hsame.symm.trans h)
    exact hname
  · rintro rfl
    exact h

theorem RenamedAt.moved (h : RenamedAt p dir i e name m m') : RenamedTo p dir i e name m m' i := by
  obtain ⟨l₁, l₂, e', hold, hview, hnew⟩ := h
  refine ⟨l₁ ++ l₂, e', ?_, hview, ?_⟩
  · rw [hold]
    exact List.perm_middle
  · rw [hnew]
    exact List.perm_middle

theorem RenamedAt.views (h : RenamedAt p dir i e name m m') (hname : e.name = name) :
    (listEntries (dir.contents p m')).map DecodedEntry.view = (listEntries (dir.contents p m)).map DecodedEntry.view := by
  obtain ⟨l₁, l₂, e', hold, hview, hnew⟩ := h
  simp [listEntries, hold, hnew, (view_name hview).mpr hname]

/-- A new name shows in the listing. -/
theorem RenamedTo.views (h : RenamedTo p dir i e name m m' r)
    (hsame : (listEntries (dir.contents p m')).map DecodedEntry.view = (listEntries (dir.contents p m)).map DecodedEntry.view) :
    e.name = name := by
  obtain ⟨others, e', hold, hview, hnew⟩ := h
  have hold' := (hold.map Prod.snd).map DecodedEntry.view
  have hnew' := (hnew.map Prod.snd).map DecodedEntry.view
  simp only [listEntries] at hsame
  rw [hsame] at hnew'
  have hperm := hnew'.symm.trans hold'
  simp only [List.map_cons] at hperm
  have hcons := Multiset.coe_eq_coe.mpr hperm
  rw [← Multiset.cons_coe, ← Multiset.cons_coe, Multiset.cons_inj_left] at hcons
  exact (view_name hview).mp hcons

end Views

section Contents

variable {toUppercase : Char → Text} {nameHash : Text → UInt16} {p : Partition} {dir : ExfatDirSlots} {i r n k : Nat} {e : DecodedEntry}
  {name : Text} {m : Store} {slabs : List Slab} {slots new : List Bytes} {b : Bytes}

theorem splice_parts (hr : r ≤ slots.length) (hn : new.length = n) :
    (slots.take r ++ (new ++ slots.drop (r + n))).take r = slots.take r ∧
      (slots.take r ++ (new ++ slots.drop (r + n))).take (r + n) = slots.take r ++ new ∧
        (slots.take r ++ (new ++ slots.drop (r + n))).drop (r + n + k) = slots.drop (r + n + k) := by
  have htake : (slots.take r).length = r := List.length_take_of_le hr
  have hboth : (slots.take r ++ new).length = r + n := by rw [List.length_append, htake, hn]
  refine ⟨List.take_left' htake, ?_, ?_⟩
  · rw [← List.append_assoc]
    exact List.take_left' hboth
  · rw [← List.append_assoc, ← List.drop_drop, List.drop_left' hboth, List.drop_drop]

theorem contents_size : ∀ b ∈ dir.contents p m, b.length = 32 := by
  intro b hb
  obtain ⟨j, _, rfl⟩ := List.mem_map.mp hb
  exact Store.read_length ..

theorem slot_size {j : Nat} (h : j < (dir.contents p m).length) : (slot (dir.contents p m) j).length = 32 := by
  rw [slot, List.getD_eq_getElem?_getD, List.getElem?_eq_getElem h, Option.getD_some]
  exact contents_size _ (List.getElem_mem h)

theorem held_bytes (hin : r + n ≤ dir.slotCount) :
    (dir.held p m r n).map Slab.bytes = ((dir.contents p m).drop r).take n := by
  refine List.ext_getElem (by simp [ExfatDirSlots.held]; omega) fun k hk hk' => ?_
  have hkn : k < n := by simpa [ExfatDirSlots.held] using hk
  have hlt : r + k < (dir.contents p m).length := by
    rw [ExfatDirSlots.contents_length]
    omega
  have hslot : slot (dir.contents p m) (r + k) = (dir.contents p m).get ⟨r + k, hlt⟩ := by
    rw [slot, List.getD_eq_getElem?_getD, List.getElem?_eq_getElem hlt, Option.getD_some]
    rfl
  simp only [ExfatDirSlots.held, List.map_map, List.getElem_map, List.getElem_range', Nat.one_mul, Function.comp_apply,
    List.getElem_take, List.getElem_drop]
  rw [structToEntryBytes_eq (slot_size hlt), hslot]
  rfl

theorem deletedSlab_byte (hb : b.length = 32) : byteAt (deletedSlab (structToEntryBytes b)).bytes 0 = byteAt b 0 &&& ~~~entryInUse := by
  unfold deletedSlab
  have hlen : (overwrite b 0 [byteAt b 0 &&& ~~~entryInUse]).length = 32 := by rw [overwrite_length (by simp [hb]), hb]
  rw [structToEntryBytes_eq hb, structToEntryBytes_eq hlen]
  rfl

/-- The slots of a listed set, marked, are gone. -/
theorem held_gone (hwf : WellFormed toUppercase (dir.contents p m)) (he : (i, e) ∈ listSlots (dir.contents p m)) (hi : i ≤ r)
    (hn : r + n ≤ i + (1 + secondaryCount (dir.contents p m) i)) :
    ∀ b ∈ ((dir.held p m r n).map deletedSlab).map Slab.bytes, Gone b := by
  have hin := listed_fits he
  intro b hb
  simp only [ExfatDirSlots.held, List.map_map, List.mem_map, Function.comp_apply] at hb
  obtain ⟨j, hj, rfl⟩ := hb
  have hj' := List.mem_range'_1.mp hj
  have hsize : (slot (dir.contents p m) j).length = 32 := slot_size (by omega)
  rw [Gone, deletedSlab_byte hsize]
  have hclear : (~~~entryInUse &&& entryInUse : UInt8) = 0 ∧ (~~~entryInUse &&& 0x40 : UInt8) = 0x40 := by decide
  refine ⟨fun hzero => ?_, by rw [UInt8.and_assoc, hclear.1, UInt8.and_zero]⟩
  by_cases hfirst : j = i
  · obtain ⟨_, _, hd, _⟩ := listSlots_around he
    rw [hfirst, (hasStream_file (decodeEntrySet_some hd).1).2] at hzero
    exact absurd hzero (by decide)
  · have hsecond := (hwf.secondaries i e he j (by omega) (by omega)).2
    have hbit := congrArg (· &&& 0x40) hzero
    simp only [UInt8.and_assoc, hclear.2] at hbit
    exact hsecond (hbit.trans (by decide))

theorem renamed_in_place (hdir : dir.Sound p) (hwf : WellFormed toUppercase (dir.contents p m)) (he : (i, e) ∈ listSlots (dir.contents p m))
    (hbuild : buildRenameEntrySetBytes nameHash e name = .ok slabs) (hfits : slabs.length + k = 1 + secondaryCount (dir.contents p m) i) :
    RenamedAt p dir i e name m (m.writes (slabBytes p (dir.addresses i slabs.length) slabs)) ∧
      RenamedAt p dir i e name m ((m.writes (slabBytes p (dir.addresses i slabs.length) slabs)).writes
        (slabBytes p (dir.addresses (i + slabs.length) k) ((dir.held p m (i + slabs.length) k).map deletedSlab))) := by
  have hin := listed_fits he
  have hpos : slabs.length = 2 + nameEntryCount name := renamed_length hbuild
  have hcount : (dir.contents p m).length = dir.slotCount := ExfatDirSlots.contents_length
  have hmid := ExfatDirSlots.contents_write (m := m) hdir rfl (by omega : i + slabs.length ≤ dir.slotCount)
  obtain ⟨_, htake, hdrop⟩ := @splice_parts i slabs.length k (dir.contents p m) (slabs.map Slab.bytes) (by omega) (List.length_map _)
  have hend : i + slabs.length + k = i + (1 + secondaryCount (dir.contents p m) i) := by omega
  constructor
  · have hrest : (dir.contents p m).drop (i + slabs.length) = ((dir.contents p m).drop (i + slabs.length)).take k ++
        (dir.contents p m).drop (i + (1 + secondaryCount (dir.contents p m) i)) := by
      rw [← hend, ← List.drop_drop (i := k), List.take_append_drop]
    have hlen : (((dir.contents p m).drop (i + slabs.length)).take k).length = k := by
      rw [List.length_take, List.length_drop]
      omega
    obtain ⟨l₁, l₂, e', hold, hview, hnew⟩ := rename_in_place hwf he hbuild (by rw [hlen, hfits]) fun b hb => by
      rw [← held_bytes (by omega)] at hb
      simp only [ExfatDirSlots.held, List.map_map, List.mem_map, Function.comp_apply] at hb
      obtain ⟨j, hj, rfl⟩ := hb
      have hj' := List.mem_range'_1.mp hj
      have hsize : (slot (dir.contents p m) j).length = 32 := slot_size (by omega)
      rw [structToEntryBytes_eq hsize]
      exact (hwf.secondaries i e he j (by omega) (by omega)).barren
    refine ⟨l₁, l₂, e', hold, hview, ?_⟩
    rw [ExfatDirSlots.addresses, hmid, hrest, ← List.append_assoc (slabs.map Slab.bytes)]
    exact hnew
  · have hgone : ((dir.held p m (i + slabs.length) k).map deletedSlab).length = k := by rw [List.length_map, held_length]
    obtain ⟨l₁, l₂, e', hold, hview, hnew⟩ := rename_in_place hwf he hbuild (by rw [List.length_map, hgone, hfits]) fun b hb =>
      (held_gone hwf he (by omega : i ≤ i + slabs.length) (by omega) b hb).barren
    refine ⟨l₁, l₂, e', hold, hview, ?_⟩
    rw [ExfatDirSlots.addresses, ExfatDirSlots.addresses, ExfatDirSlots.contents_write hdir hgone (by omega), hmid, htake, hdrop, hend,
      List.append_assoc, ← List.append_assoc (slabs.map Slab.bytes)]
    exact hnew

theorem renamed_moved (hdir : dir.Sound p) (hwf : WellFormed toUppercase (dir.contents p m)) (he : (i, e) ∈ listSlots (dir.contents p m))
    (hbuild : buildRenameEntrySetBytes nameHash e name = .ok slabs)
    (hrun : findFreeEntryRun (dir.contents p m) slabs.length (i, i + (1 + secondaryCount (dir.contents p m) i)) = .ok r) :
    RenamedTo p dir i e name m ((m.writes (slabBytes p (dir.addresses r slabs.length) slabs)).writes
        (slabBytes p (dir.addresses i (1 + secondaryCount (dir.contents p m) i))
          ((dir.held p m i (1 + secondaryCount (dir.contents p m) i)).map deletedSlab))) r ∧
      dir.contents p ((m.writes (slabBytes p (dir.addresses r slabs.length) slabs)).writes
        (slabBytes p (dir.addresses r slabs.length) (dir.held p m r slabs.length))) = dir.contents p m := by
  have hin := listed_fits he
  have hpos : slabs.length = 2 + nameEntryCount name := renamed_length hbuild
  obtain ⟨_, hroom⟩ := findFreeEntryRun_run hrun (by omega)
  have hcount : (dir.contents p m).length = dir.slotCount := ExfatDirSlots.contents_length
  have hmid := ExfatDirSlots.contents_write (m := m) hdir rfl (by omega : r + slabs.length ≤ dir.slotCount)
  constructor
  · have hgone : ((dir.held p m i (1 + secondaryCount (dir.contents p m) i)).map deletedSlab).length =
        1 + secondaryCount (dir.contents p m) i := by rw [List.length_map, held_length]
    obtain ⟨others, e', hold, hview, hnew⟩ := rename_moved hwf he hbuild hrun (by rw [List.length_map, hgone])
      (held_gone hwf he (Nat.le_refl i) (Nat.le_refl _))
    refine ⟨others, e', hold, hview, ?_⟩
    rw [ExfatDirSlots.addresses, ExfatDirSlots.addresses, ExfatDirSlots.contents_write hdir hgone (by omega), hmid]
    exact hnew
  · obtain ⟨hfront, _, hback⟩ := @splice_parts r slabs.length 0 (dir.contents p m) (slabs.map Slab.bytes) (by omega) (List.length_map _)
    rw [Nat.add_zero] at hback
    rw [ExfatDirSlots.addresses, ExfatDirSlots.contents_write hdir held_length (by omega), hmid, hfront, hback, held_bytes (by omega),
      ← List.drop_drop, List.take_append_drop, List.take_append_drop]

end Contents

section Same

variable {toUppercase : Char → Text} {slots : List Bytes} {i nameLen : Nat} {e : DecodedEntry} {es : List Bytes} {acc units : List UInt16}

theorem collectUnits_length (h : collectUnits nameLen es acc = some units) : units.length ≤ acc.length + 15 * es.length := by
  induction es generalizing acc with
  | nil =>
    obtain rfl := Option.some.inj h
    exact Nat.le_add_right _ _
  | cons b es ih =>
    rw [collectUnits] at h
    by_cases hdone : nameLen ≤ acc.length
    · rw [if_pos hdone] at h
      obtain rfl := Option.some.inj h
      exact Nat.le_add_right _ _
    rw [if_neg hdone] at h
    by_cases hkind : byteAt b 0 ≠ entryFileName
    · rw [if_pos hkind] at h
      cases h
    rw [if_neg hkind] at h
    have hmore := ih h
    have hfifteen := entryUnits_length b
    rw [List.length_append, List.length_take] at hmore
    rw [List.length_cons]
    omega

/-- A listed set has room for its own name. -/
theorem own_name_fits (hwf : WellFormed toUppercase slots) (he : (i, e) ∈ listSlots slots) :
    2 + nameEntryCount e.name ≤ 1 + secondaryCount slots i := by
  obtain ⟨_, _, hd, _⟩ := listSlots_around he
  have hs := (decodeEntrySet_some hd).1
  simp only [hasStream, Bool.and_eq_true, decide_eq_true_eq] at hs
  have hown := inStep_own (Nat.le_refl _) hwf.inStep he
  have hunits := nameUnits_of_matches hown
  have hlen : (Text.encodeUtf16 e.name).length ≤ 15 * (nameSlots slots i).length := by
    unfold nameUnits at hunits
    simp only at hunits
    cases hcollect : collectUnits (byteAt (slot slots (i + 1)) 3).toNat (nameSlots slots i) [] with
    | none =>
      rw [hcollect] at hunits
      cases hunits
    | some units =>
      simp only [hcollect] at hunits
      have hall := collectUnits_length hcollect
      by_cases hne : units.length ≠ (byteAt (slot slots (i + 1)) 3).toNat
      · rw [if_pos hne] at hunits
        cases hunits
      · rw [if_neg hne] at hunits
        have heq : units = Text.encodeUtf16 e.name := Option.some.inj hunits
        rw [← heq]
        simpa using hall
  have hslots : (nameSlots slots i).length ≤ secondaryCount slots i - 1 := by
    rw [nameSlots]
    exact List.length_take_le _ _
  unfold nameEntryCount charsPerNameEntry
  omega

end Same

section Main

variable {toUppercase : Char → Text} {nameHash : Text → UInt16} {p : Partition} {dir : ExfatDirSlots} {reads : Nat → Bool}
  {i : Nat} {e : DecodedEntry} {nameFrom nameTo : Text} {link : FlakyCard} {slabs : List Slab} {plan : RenamePlan}

theorem entrySetLen_eq (name : Text) : entrySetLen name = 2 + nameEntryCount name := by
  unfold entrySetLen nameEntryCount charsPerNameEntry
  omega

theorem late_inPlace {len k : Nat} (fits : len + k = 1 + secondaryCount (dir.contents p link.card) i) :
    LateFailure p dir reads i link.card len link ↔
      (∃ f < 3 * sectorCount p (dir.addresses (i + len) k), link.FailsAt (3 * sectorCount p (dir.addresses i len) + f) ∧
        (link.after (3 * sectorCount p (dir.addresses i len) + f + 1)).Works (2 * ((f + 2) / 3))) ∨
      link.FailsAt (3 * (sectorCount p (dir.addresses i len) + sectorCount p (dir.addresses (i + len) k))) := by
  constructor
  · intro h
    cases h with
    | @surplus k' f fits' hf fails back =>
      obtain rfl : k' = k := by omega
      exact .inl ⟨f, hf, fails, back⟩
    | @inPlace k' fits' fails =>
      obtain rfl : k' = k := by omega
      exact .inr fails
    | moved long _ _ _ => omega
  · rintro (⟨f, hf, fails, back⟩ | fails)
    · exact .surplus fits hf fails back
    · exact .inPlace fits fails

theorem late_moved {len r : Nat} (long : 1 + secondaryCount (dir.contents p link.card) i < len) (read : reads 5 = true ∧ reads 6 = true)
    (run : findFreeEntryRun (dir.contents p link.card) len (i, i + (1 + secondaryCount (dir.contents p link.card) i)) = .ok r) :
    LateFailure p dir reads i link.card len link ↔ link.FailsAt (3 * (sectorCount p (dir.addresses r len) +
      sectorCount p (dir.addresses i (1 + secondaryCount (dir.contents p link.card) i)))) := by
  constructor
  · intro h
    cases h with
    | surplus fits _ _ _ => omega
    | inPlace fits _ => omega
    | moved _ _ run' fails =>
      obtain rfl := Except.ok.inj (run.symm.trans run')
      exact fails
  · exact .moved long read run

section Ends

variable {n k r : Nat} {mid fin back m : Store} {result : RenameResult}

theorem InPlaceEnd.kept_iff (h : InPlaceEnd n k link mid fin result m) (hmid : RenamedAt p dir i e nameTo link.card mid)
    (hfin : RenamedAt p dir i e nameTo link.card fin) (hdata : DataKept p dir link.card mid) (hdata' : DataKept p dir link.card fin) :
    RenameKept p dir i e nameTo link.card m result ↔ ¬(e.name ≠ nameTo ∧ ((∃ f < 3 * k, link.FailsAt (3 * n + f) ∧
      (link.after (3 * n + f + 1)).Works (2 * ((f + 2) / 3))) ∨ link.FailsAt (3 * (n + k)))) := by
  cases h with
  | done hworks =>
    have hnot : ¬((∃ f < 3 * k, link.FailsAt (3 * n + f) ∧ (link.after (3 * n + f + 1)).Works (2 * ((f + 2) / 3))) ∨
        link.FailsAt (3 * (n + k))) := by
      rintro (⟨f, hf, hfails, _⟩ | hfails)
      · exact hfails.not_works (by omega) hworks
      · exact hfails.not_works (by omega) hworks
    refine iff_of_true ?_ fun hlate => hnot hlate.2
    obtain ⟨others, e', hold, hview, hnew⟩ := hfin.moved
    exact ⟨⟨others, i, e', hold, hnew, hview⟩, hdata'⟩
  | @written f _ _ _ hf hfails hback =>
    have hnot : ¬((∃ f < 3 * k, link.FailsAt (3 * n + f) ∧ (link.after (3 * n + f + 1)).Works (2 * ((f + 2) / 3))) ∨
        link.FailsAt (3 * (n + k))) := by
      rintro (⟨g, _, hfails', _⟩ | hfails')
      · have := hfails.unique hfails'
        omega
      · have := hfails.unique hfails'
        omega
    refine iff_of_true (fun hrestored => ?_) fun hlate => hnot hlate.2
    rw [hback hrestored]
    exact ⟨rfl, fun _ _ => rfl⟩
  | @surplus f _ restored _ hf hfails hiff hback =>
    constructor
    · rintro hkept ⟨hne, hlate⟩
      have hworks : (link.after (3 * n + f + 1)).Works (2 * ((f + 2) / 3)) := by
        rcases hlate with ⟨g, _, hfails', hworks⟩ | hfails'
        · obtain rfl : f = g := by
            have := hfails.unique hfails'
            omega
          exact hworks
        · have := hfails.unique hfails'
          omega
      have hrestored : restored = true := hiff.mpr hworks
      obtain ⟨hviews, _⟩ := hkept hrestored
      rw [hback hrestored] at hviews
      exact hne (hmid.moved.views hviews)
    · intro hnot hrestored
      have hname : e.name = nameTo := by
        by_contra hne
        exact hnot ⟨hne, .inl ⟨f, hf, hfails, hiff.mp hrestored⟩⟩
      rw [hback hrestored]
      exact ⟨hmid.views hname, hdata⟩
  | flush hfails =>
    constructor
    · rintro hkept ⟨hne, _⟩
      exact hne (hfin.moved.views (hkept rfl).1)
    · intro hnot _
      have hname : e.name = nameTo := by
        by_contra hne
        exact hnot ⟨hne, .inr hfails⟩
      exact ⟨hfin.views hname, hdata'⟩

theorem MovedEnd.kept_iff (h : MovedEnd n k link back fin result m) (hfin : RenamedTo p dir i e nameTo link.card fin r)
    (hback : dir.contents p back = dir.contents p link.card) (hdata : DataKept p dir link.card back)
    (hdata' : DataKept p dir link.card fin) (hne : e.name ≠ nameTo) :
    RenameKept p dir i e nameTo link.card m result ↔ ¬link.FailsAt (3 * (n + k)) := by
  cases h with
  | done hworks =>
    refine iff_of_true ?_ fun hfails => hfails.not_works (by omega) hworks
    obtain ⟨others, e', hold, hview, hnew⟩ := hfin
    exact ⟨⟨others, r, e', hold, hnew, hview⟩, hdata'⟩
  | @undone f _ _ hf hfails hm =>
    refine iff_of_true (fun hrestored => ?_) fun hfails' => ?_
    · rcases hm hrestored with rfl | rfl
      · exact ⟨rfl, fun _ _ => rfl⟩
      · exact ⟨by rw [hback], hdata⟩
    · have := hfails.unique hfails'
      omega
  | flush hfails => exact iff_of_false (fun hkept => hne (hfin.views (hkept rfl).1)) (not_not.mpr hfails)

end Ends

theorem planned_kept_iff (hdir : dir.Sound p) (hwf : WellFormed toUppercase (dir.contents p link.card))
    (he : (i, e) ∈ listSlots (dir.contents p link.card)) (hbuild : buildRenameEntrySetBytes nameHash e nameTo = .ok slabs)
    (hplan : Planned p dir link.card reads i slabs plan) :
    RenameKept p dir i e nameTo link.card (writeRename FlakyCard.sdCard p plan link).2.card (writeRename FlakyCard.sdCard p plan link).1 ↔
      ¬(e.name ≠ nameTo ∧ LateFailure p dir reads i link.card slabs.length link) := by
  have hin := listed_fits he
  rw [ExfatDirSlots.contents_length] at hin
  cases hplan with
  | @inPlace k hfits =>
    have hgone : ((dir.held p link.card (i + slabs.length) k).map deletedSlab).length = k := by rw [List.length_map, held_length]
    have hfirst : i + slabs.length ≤ dir.slotCount := by omega
    have hsecond : i + slabs.length + k ≤ dir.slotCount := by omega
    have hend := @writeRename_inPlace p link _ _ _ _ _ _ (wrote_slots hdir rfl hfirst) (wrote_slots hdir hgone hsecond)
    obtain ⟨hmid, hfin⟩ := renamed_in_place hdir hwf he hbuild hfits
    have hkept : DataKept p dir link.card (link.card.writes (slabBytes p (dir.addresses i slabs.length) slabs)) := writes_kept rfl hfirst
    rw [late_inPlace hfits]
    exact hend.kept_iff hmid hfin hkept (hkept.trans (writes_kept hgone hsecond))
  | @moved r hlong h5 h6 hrun =>
    have hlen := renamed_length hbuild
    obtain ⟨_, hroom⟩ := findFreeEntryRun_run hrun (by omega)
    rw [ExfatDirSlots.contents_length] at hroom
    have hne : e.name ≠ nameTo := by
      rintro rfl
      have hown := own_name_fits hwf he
      omega
    have hgone : ((dir.held p link.card i (1 + secondaryCount (dir.contents p link.card) i)).map deletedSlab).length =
        1 + secondaryCount (dir.contents p link.card) i := by rw [List.length_map, held_length]
    have hheld : (dir.held p link.card r slabs.length).length = slabs.length := held_length
    have hend := @writeRename_moved p link _ _ _ _ _ _ _ (wrote_slots hdir rfl hroom) (wrote_slots hdir hgone hin)
      (wrote_slots hdir hheld hroom)
    obtain ⟨hfin, hback⟩ := renamed_moved hdir hwf he hbuild hrun
    have hkept : DataKept p dir link.card (link.card.writes (slabBytes p (dir.addresses r slabs.length) slabs)) := writes_kept rfl hroom
    rw [late_moved hlong ⟨h5, h6⟩ hrun, hend.kept_iff hfin hback (hkept.trans (writes_kept hheld hroom))
      (hkept.trans (writes_kept hgone hin)) hne]
    exact not_congr (and_iff_right hne).symm

theorem LateFailure.planned (h : LateFailure p dir reads i link.card slabs.length link) :
    ∃ plan, Planned p dir link.card reads i slabs plan := by
  cases h with
  | surplus fits _ _ _ => exact ⟨_, .inPlace fits⟩
  | inPlace fits _ => exact ⟨_, .inPlace fits⟩
  | moved long read run _ => exact ⟨_, .moved long read.1 read.2 run⟩

theorem buildRenameEntrySetBytes_valid (h : validateRenameName nameTo = .ok ()) :
    ∃ slabs, buildRenameEntrySetBytes nameHash e nameTo = .ok slabs := by
  unfold buildRenameEntrySetBytes
  rw [h]
  exact ⟨_, rfl⟩

/-- What a rename reports is so exactly where no command fails behind the write of
its new set, but one whose marks of the old set are taken back with the new set. -/
theorem rename_kept_iff (hdir : dir.Sound p) (hwf : WellFormed toUppercase (dir.contents p link.card))
    (he : (i, e) ∈ listSlots (dir.contents p link.card)) (hfrom : fatNamesEqual toUppercase e.name nameFrom = true) :
    RenameKept p dir i e nameTo link.card
        (renameCartExfat p toUppercase nameHash dir reads nameFrom nameTo link).2.card
        (renameCartExfat p toUppercase nameHash dir reads nameFrom nameTo link).1 ↔
      ¬(Finds toUppercase (dir.contents p link.card) reads nameTo ∧ NameFree toUppercase (dir.contents p link.card) i nameTo ∧
        validateRenameName nameTo = .ok () ∧ e.name ≠ nameTo ∧ LateFailure p dir reads i link.card (entrySetLen nameTo) link) := by
  have hlen {slabs : List Slab} (hbuild : buildRenameEntrySetBytes nameHash e nameTo = .ok slabs) : slabs.length = entrySetLen nameTo :=
    (renamed_length hbuild).trans (entrySetLen_eq nameTo).symm
  unfold renameCartExfat
  cases hplan : planRename toUppercase nameHash p dir reads nameFrom nameTo link.card with
  | error why =>
    refine iff_of_true (fun _ => ⟨rfl, fun _ _ => rfl⟩) ?_
    rintro ⟨hfinds, hfree, hvalid, _, hlate⟩
    obtain ⟨slabs, hbuild⟩ := @buildRenameEntrySetBytes_valid nameHash e nameTo hvalid
    rw [← hlen hbuild] at hlate
    obtain ⟨plan, hplanned⟩ := hlate.planned
    have hok := (@planRename_ok toUppercase nameHash p dir link.card reads nameFrom nameTo i e _ hdir hwf he hfrom).mpr ⟨hfinds, hfree, slabs, hbuild, hplanned⟩
    rw [hplan] at hok
    nomatch hok
  | ok plan =>
    obtain ⟨hfinds, hfree, slabs, hbuild, hplanned⟩ := (planRename_ok hdir hwf he hfrom).mp hplan
    have hvalid := (buildRenameEntrySetBytes_ok hbuild).1
    rw [← hlen hbuild]
    refine (planned_kept_iff hdir hwf he hbuild hplanned).trans (not_congr ?_)
    exact ⟨fun h => ⟨hfinds, hfree, hvalid, h⟩, fun h => h.2.2.2⟩

end Main

/-- A directory with one file, of a name that takes two slots. -/
def longSlots : List Bytes :=
  (entrySet (fun _ => 0) (fileEntry 3 0x20 ⟨0, 0, 0⟩) 0x03 (List.replicate 16 'a') 7 5 7).map Slab.bytes

def longContents : List Bytes := sectorDir.contents sectorPartition (slotCard longSlots).card

theorem longContents_first : (listSlots longContents).map Prod.fst = [0] := by decide +kernel

theorem longContents_wellFormed : WellFormed upcaseAscii longContents := by
  have hsec : secondaryCount longContents 0 = 3 := by decide +kernel
  have hkinds : ∀ j < 4, 0 < j → byteAt (slot longContents j) 0 &&& entryInUse ≠ 0 ∧ byteAt (slot longContents j) 0 &&& 0x40 ≠ 0 := by
    decide +kernel
  have hzero : ∀ i < 4, byteAt (slot longContents i) 0 ≠ 0 := by decide +kernel
  have hfree : ∀ j < 16, 4 ≤ j → Unused longContents j := by decide +kernel
  have hfirst {i : Nat} {e : DecodedEntry} (he : (i, e) ∈ listSlots longContents) : i = 0 := by
    have hi := List.mem_map_of_mem (f := Prod.fst) he
    rw [longContents_first] at hi
    exact List.mem_singleton.mp hi
  refine ⟨contents_size, fun i j hij hz => ?_, fun i e he j hij hlt => ?_, by decide +kernel, ?_⟩
  · have hi : 4 ≤ i := Nat.not_lt.mp fun hlt => hzero i hlt hz
    by_cases hj : j < 16
    · exact hfree j hj (by omega)
    · exact slot_past (by rw [longContents, ExfatDirSlots.contents_length]; exact Nat.not_lt.mp hj)
  · obtain rfl := hfirst he
    rw [hsec] at hlt
    exact hkinds j hlt hij
  · obtain ⟨x, hx⟩ := List.length_eq_one_iff.mp (by simpa using congrArg List.length longContents_first)
    rw [hx]
    exact List.pairwise_singleton _ _

theorem rename_kept_shorter : ∃ e, (0, e) ∈ listSlots longContents ∧ e.name = List.replicate 16 'a' ∧
    RenameKept sectorPartition sectorDir 0 e ['b'] (slotCard longSlots).card
      (renameCartExfat sectorPartition upcaseAscii (fun _ => 0) sectorDir (fun _ => true) (List.replicate 16 'A') ['b'] (slotCard longSlots)).2.card
      (renameCartExfat sectorPartition upcaseAscii (fun _ => 0) sectorDir (fun _ => true) (List.replicate 16 'A') ['b'] (slotCard longSlots)).1 := by
  obtain ⟨⟨i, e⟩, hx⟩ := List.length_eq_one_iff.mp (by simpa using congrArg List.length longContents_first)
  have hname : (listSlots longContents).map (fun x => (x.1, x.2.name)) = [(0, List.replicate 16 'a')] := by decide +kernel
  rw [hx] at hname
  obtain ⟨rfl, hname⟩ := Prod.mk.inj (List.cons.inj hname).1
  have he : (0, e) ∈ listSlots longContents := by simp [hx]
  have hfails (f : Nat) : ¬(slotCard longSlots).FailsAt f := fun h => h.2 rfl
  have hfrom : fatNamesEqual upcaseAscii e.name (List.replicate 16 'A') = true := by
    rw [hname]
    decide +kernel
  have hwf : WellFormed upcaseAscii (sectorDir.contents sectorPartition (slotCard longSlots).card) := longContents_wellFormed
  have hkept := @rename_kept_iff upcaseAscii (fun _ => 0) sectorPartition sectorDir (fun _ => true) 0 e (List.replicate 16 'A') ['b']
    (slotCard longSlots) sectorDir_sound hwf he hfrom
  refine ⟨e, he, hname, ?_⟩
  rw [hkept]
  rintro ⟨_, _, _, _, hlate⟩
  cases hlate with
  | surplus _ _ h _ => exact hfails _ h
  | inPlace _ h => exact hfails _ h
  | moved _ _ _ h => exact hfails _ h

/-- The slot left over cannot be marked: its sector is put back, and the file keeps
the new name. -/
theorem rename_not_kept :
    let link : FlakyCard := { slotCard longSlots with outcomes := fun n => if n = 4 then .fails false else .works }
    let renamed := renameCartExfat sectorPartition upcaseAscii (fun _ => 0) sectorDir (fun _ => true) (List.replicate 16 'a') ['b'] link
    WellFormed upcaseAscii (sectorDir.contents sectorPartition link.card) ∧
      renamed.1 = .failed (.surplus (.disk FlakyCard.timedOut) true) ∧
      (listEntries (sectorDir.contents sectorPartition link.card)).map (·.name) = [List.replicate 16 'a'] ∧
      (listEntries (sectorDir.contents sectorPartition renamed.2.card)).map (·.name) = [['b']] :=
  ⟨longContents_wellFormed, by decide +kernel, by decide +kernel, by decide +kernel⟩

end Exfat

end Multi64
