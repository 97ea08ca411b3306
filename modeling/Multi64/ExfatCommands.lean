import Multi64.ExfatRestore

/-! Which commands a write of an entry set gives the card, and what its result
says of those that failed. -/

namespace Multi64

open SectorPartitionDisk

/-- The next `k` commands work. -/
def FlakyCard.Works (s : FlakyCard) (k : Nat) : Prop := ∀ i < k, s.outcomes (s.commands + i) = .works

/-- The `f`th command from here is the first that fails. -/
def FlakyCard.FailsAt (s : FlakyCard) (f : Nat) : Prop := s.Works f ∧ s.outcomes (s.commands + f) ≠ .works

/-- `k` commands on, as far as what becomes of them goes. -/
def FlakyCard.after (s : FlakyCard) (k : Nat) : FlakyCard := { s with commands := s.commands + k }

section Spending

variable {ε α β : Type} {k n f : Nat} {s s' : FlakyCard}

theorem works_or_fails (s : FlakyCard) (k : Nat) : s.Works k ∨ ∃ f < k, s.FailsAt f := by
  induction k with
  | zero => exact .inl fun i hi => absurd hi (Nat.not_lt_zero i)
  | succ k ih =>
    rcases ih with hworks | ⟨f, hf, hfails⟩
    · by_cases hlast : s.outcomes (s.commands + k) = .works
      · refine .inl fun i hi => ?_
        by_cases heq : i = k
        · exact heq ▸ hlast
        · exact hworks i (by omega)
      · exact .inr ⟨k, Nat.lt_succ_self k, hworks, hlast⟩
    · exact .inr ⟨f, by omega, hfails⟩

theorem works_add : s.Works (k + n) ↔ s.Works k ∧ (s.after k).Works n := by
  constructor
  · intro h
    refine ⟨fun i hi => h i (by omega), fun i hi => ?_⟩
    have hnext := h (k + i) (by omega)
    rwa [← Nat.add_assoc] at hnext
  · rintro ⟨hfirst, hrest⟩ i hi
    by_cases hlt : i < k
    · exact hfirst i hlt
    · obtain ⟨j, rfl⟩ := Nat.exists_eq_add_of_le (Nat.not_lt.mp hlt)
      rw [← Nat.add_assoc]
      exact hrest j (by omega)

theorem failsAt_add : s.FailsAt (k + f) ↔ s.Works k ∧ (s.after k).FailsAt f := by
  unfold FlakyCard.FailsAt
  rw [works_add, and_assoc, ← Nat.add_assoc]
  rfl

theorem FlakyCard.FailsAt.not_works (h : s.FailsAt f) (hf : f < k) : ¬s.Works k := fun hworks => h.2 (hworks f hf)

/-- What becomes of commands is the same at the same place of the same card. -/
theorem works_congr (ho : s'.outcomes = s.outcomes) (hc : s'.commands = s.commands) : s'.Works k ↔ s.Works k := by
  rw [FlakyCard.Works, FlakyCard.Works, ho, hc]

theorem failsAt_congr (ho : s'.outcomes = s.outcomes) (hc : s'.commands = s.commands) : s'.FailsAt f ↔ s.FailsAt f := by
  rw [FlakyCard.FailsAt, FlakyCard.FailsAt, works_congr ho hc, ho, hc]

/-- A computation gives `k` commands one after another, and fails with the first
of them that does. -/
structure Spends (k : Nat) (s : FlakyCard) (r : Except ε α) (s' : FlakyCard) : Prop where
  outcomes : s'.outcomes = s.outcomes
  done : s.Works k → (∃ a, r = .ok a) ∧ s'.commands = s.commands + k
  failed : ∀ f < k, s.FailsAt f → (∃ e, r = .error e) ∧ s'.commands = s.commands + (f + 1)

theorem Spends.ok_iff {r : Except ε α} (h : Spends k s r s') : (∃ a, r = .ok a) ↔ s.Works k := by
  constructor
  · rintro ⟨a, ha⟩
    rcases works_or_fails s k with hworks | ⟨f, hf, hfails⟩
    · exact hworks
    · obtain ⟨⟨e, he⟩, _⟩ := h.failed f hf hfails
      rw [ha] at he
      nomatch he
  · exact fun hworks => (h.done hworks).1

/-- One computation after another. -/
theorem Spends.then {r : Except ε α} {r' : Except ε β} {s'' : FlakyCard} (h : Spends k s r s')
    (hok : ∀ a, r = .ok a → Spends n s' r' s'') (herr : ∀ e, r = .error e → r' = .error e ∧ s'' = s') :
    Spends (k + n) s r' s'' := by
  have hsame (hworks : s.Works k) : s'.outcomes = (s.after k).outcomes ∧ s'.commands = (s.after k).commands :=
    ⟨h.outcomes, (h.done hworks).2⟩
  constructor
  · cases hr : r with
    | ok a => exact (hok a hr).outcomes.trans h.outcomes
    | error e => rw [(herr e hr).2, h.outcomes]
  · intro hworks
    obtain ⟨hfirst, hrest⟩ := works_add.mp hworks
    obtain ⟨⟨a, ha⟩, hcommands⟩ := h.done hfirst
    have hsame' := hsame hfirst
    obtain ⟨hdone, hmore⟩ := (hok a ha).done ((works_congr hsame'.1 hsame'.2).mpr hrest)
    exact ⟨hdone, by omega⟩
  · intro f hf hfails
    by_cases hlt : f < k
    · obtain ⟨⟨e, he⟩, hcommands⟩ := h.failed f hlt hfails
      obtain ⟨hr', hs''⟩ := herr e he
      exact ⟨⟨e, hr'⟩, hs'' ▸ hcommands⟩
    · obtain ⟨g, rfl⟩ := Nat.exists_eq_add_of_le (Nat.not_lt.mp hlt)
      obtain ⟨hfirst, hrest⟩ := failsAt_add.mp hfails
      obtain ⟨⟨a, ha⟩, hcommands⟩ := h.done hfirst
      have hsame' := hsame hfirst
      obtain ⟨hfailed, hmore⟩ := (hok a ha).failed g (by omega) ((failsAt_congr hsame'.1 hsame'.2).mpr hrest)
      exact ⟨hfailed, by omega⟩

/-- One command. -/
theorem spends_answer {a : α} {g : DiskError → ε} (ho : s'.outcomes = s.outcomes) (hc : s'.commands = s.commands + 1) :
    Spends 1 s ((s.answer a).mapError g) s' := by
  refine ⟨ho, fun hworks => ?_, fun f hf hfails => ?_⟩
  · have hnext : s.outcomes s.commands = .works := hworks 0 Nat.one_pos
    exact ⟨⟨a, by simp [FlakyCard.answer, hnext, Except.mapError]⟩, hc⟩
  · obtain rfl : f = 0 := by omega
    refine ⟨⟨g FlakyCard.timedOut, ?_⟩, hc⟩
    cases hnext : s.outcomes s.commands with
    | works => exact absurd hnext hfails.2
    | fails landed => simp [FlakyCard.answer, hnext, Except.mapError]

end Spending

section Sectors

variable {d : SectorPartitionDisk FlakyCard} {start : Nat} {sector : Bytes}

theorem getSector_spends (h : IsSector d.partition start) :
    Spends 1 d.link ((seekStart start >>= fun _ => readExact FlakyCard.sdCard 512) d).1
      ((seekStart start >>= fun _ => readExact FlakyCard.sdCard 512) d).2.link := by
  have hin := h.fits
  have hseek : seekStart start d = (.ok start, { d with pos := start }) := seekStart_run (by omega)
  have hat : IsSector ({ d with pos := start } : SectorPartitionDisk FlakyCard).partition start := h
  obtain ⟨pos, hread⟩ := readExact_sector (d := { d with pos := start }) hat
  rw [Eff.bind_run, hseek]
  simp only [hread]
  exact spends_answer rfl rfl

theorem putSector_spends (h : IsSector d.partition start) (hw : d.writable = true) (hlen : sector.length = 512) :
    Spends 2 d.link (putSector FlakyCard.sdCard start sector d).1 (putSector FlakyCard.sdCard start sector d).2.link := by
  have hin := h.fits
  have hseek : seekStart start d = (.ok start, { d with pos := start }) := seekStart_run (by omega)
  have hat : IsSector ({ d with pos := start } : SectorPartitionDisk FlakyCard).partition start := h
  obtain ⟨pos, hrun⟩ := writeAll_run (d := { d with pos := start }) hat hw hlen
  unfold putSector
  rw [Eff.bind_run, hseek]
  simp only
  rw [Eff.bind_run, hrun]
  have hfirst : Spends 1 d.link ((d.link.answer ()).mapError IoFailure.disk)
      { d.link.spent with card := d.link.stored (word (d.partition.start + start / 512)) sector } := spends_answer rfl rfl
  refine hfirst.then (n := 1) (fun a ha => ?_) fun e he => ?_
  · rw [ha]
    exact spends_answer rfl rfl
  · rw [he]
    exact ⟨rfl, rfl⟩

end Sectors

section Sets

variable {p : Partition} {offsets : List Nat} {slabs : List Slab} {start : Nat} {group : List Nat} {before : List (Nat × Bytes)}
  {sectors : List (Nat × List Nat)} {d : SectorPartitionDisk FlakyCard}

theorem restoreSectors_commands (hkept : KeptSectors d.partition before) (hw : d.writable = true) (restored : Bool) :
    ((restoreSectors FlakyCard.sdCard before restored d).1 = true ↔ restored = true ∧ d.link.Works (2 * before.length)) ∧
      (restoreSectors FlakyCard.sdCard before restored d).2.link.outcomes = d.link.outcomes := by
  induction before generalizing d restored with
  | nil =>
    have hnone : d.link.Works (2 * ([] : List (Nat × Bytes)).length) := fun i hi => absurd hi (Nat.not_lt_zero i)
    exact ⟨⟨fun h => ⟨h, hnone⟩, fun h => h.1⟩, rfl⟩
  | cons w before ih =>
    obtain ⟨start, sector⟩ := w
    obtain ⟨hsector, hlen⟩ := hkept (start, sector) List.mem_cons_self
    have hput := putSector_put hsector hw hlen
    have hspends := putSector_spends hsector hw hlen
    have hrest : KeptSectors (putSector FlakyCard.sdCard start sector d).2.partition before := by
      rw [hput.partition]
      exact fun w hw => hkept w (List.mem_cons_of_mem _ hw)
    obtain ⟨hiff, hout⟩ := ih hrest (hput.writable.trans hw) (restored && (putSector FlakyCard.sdCard start sector d).1.isOk)
    have hisOk : (putSector FlakyCard.sdCard start sector d).1.isOk = true ↔ d.link.Works 2 := by
      rw [← hspends.ok_iff]
      cases (putSector FlakyCard.sdCard start sector d).1 with
      | ok u => simp [Except.isOk, Except.toBool]
      | error e => simp [Except.isOk, Except.toBool]
    have hlength : 2 * ((start, sector) :: before).length = 2 + 2 * before.length := by
      rw [List.length_cons]
      omega
    rw [restoreSectors, hlength]
    refine ⟨?_, hout.trans hspends.outcomes⟩
    rw [hiff, Bool.and_eq_true, hisOk, works_add, and_assoc]
    refine and_congr_right fun _ => and_congr_right fun hworks => ?_
    exact works_congr hspends.outcomes (hspends.done hworks).2

theorem writeSector_commands (hslots : Slotted offsets slabs) (hsector : IsSector d.partition start) (hw : d.writable = true)
    (hin : ∀ i ∈ group, i < offsets.length ∧ sectorStart (offsets.getD i 0) = start) :
    ∃ r, (writeSector FlakyCard.sdCard offsets slabs start group before d).1.1 = some r ∧
      Spends 3 d.link r (writeSector FlakyCard.sdCard offsets slabs start group before d).2.link ∧
      ∀ f < 3, d.link.FailsAt f →
        (writeSector FlakyCard.sdCard offsets slabs start group before d).1.2.length = before.length + (f + 2) / 3 := by
  have hgot := getSector_got hsector
  have hread := getSector_spends hsector
  unfold writeSector
  revert hgot hread
  obtain ⟨r, d'⟩ := (seekStart start >>= fun _ => readExact FlakyCard.sdCard 512) d
  intro hgot hread
  have hp : d'.partition = d.partition := hgot.partition
  have hw' : d'.writable = true := hgot.writable.trans hw
  cases r with
  | error e =>
    refine ⟨.error e, rfl, hread.then (n := 2) nofun fun _ he => ⟨?_, rfl⟩, fun f hf hfails => ?_⟩
    · obtain rfl := Except.error.inj he
      rfl
    · have hzero : f = 0 := by
        by_contra hne
        have hworks : d.link.Works 1 := fun i hi => hfails.1 i (by omega)
        obtain ⟨⟨a, ha⟩, _⟩ := hread.done hworks
        nomatch ha
      simp [hzero]
  | ok sector =>
    have hlen : sector.length = 512 := by rw [hgot.done sector rfl, Store.read_length]
    obtain ⟨changed, hchanged⟩ := Option.ne_none_iff_exists'.mp (patchSector_fits hslots hlen hin)
    have hsize : changed.length = 512 := (patchSector_length hchanged).trans hlen
    have hput := putSector_spends (d := d') (hp ▸ hsector) hw' hsize
    simp only [hchanged]
    refine ⟨_, rfl, hread.then (n := 2) (fun _ _ => hput) nofun, fun f hf hfails => ?_⟩
    have hpos : f ≠ 0 := by
      rintro rfl
      obtain ⟨⟨e, he⟩, _⟩ := hread.failed 0 Nat.one_pos hfails
      nomatch he
    rw [List.length_append, List.length_singleton]
    omega

/-- What the result of a set's write says of its commands, `n` sectors of them
with `b` kept before. -/
structure SetSpends (n b : Nat) (s : FlakyCard) (r : SlabsWritten) (s' : FlakyCard) : Prop where
  outcomes : s'.outcomes = s.outcomes
  done : s.Works (3 * n) → r = .ok ∧ s'.commands = s.commands + 3 * n
  failed : ∀ f < 3 * n, s.FailsAt f → ∃ e restored, r = .failed e restored ∧
    (restored = true ↔ (s.after (f + 1)).Works (2 * (b + (f + 2) / 3)))

theorem writeSectors_commands (hslots : Slotted offsets slabs) (hsectors : InGroups d.partition offsets sectors)
    (hindex : ∀ s ∈ sectors, ∀ i ∈ s.2, i < offsets.length) (hw : d.writable = true) (hkept : KeptSectors d.partition before) :
    SetSpends sectors.length before.length d.link (writeSectors FlakyCard.sdCard offsets slabs sectors before d).1
      (writeSectors FlakyCard.sdCard offsets slabs sectors before d).2.link := by
  induction sectors generalizing before d with
  | nil => exact ⟨rfl, fun _ => ⟨rfl, rfl⟩, fun f hf => absurd hf (Nat.not_lt_zero f)⟩
  | cons s sectors ih =>
    obtain ⟨start, group⟩ := s
    obtain ⟨hsector, hgroup⟩ := hsectors (start, group) List.mem_cons_self
    have hle : ∀ i ∈ group, start ≤ offsets.getD i 0 := fun i hi => Nat.le_trans (Nat.le_of_eq (hgroup i hi).symm) (sectorStart_le _)
    have hturn : Turn offsets slabs group before d (writeSector FlakyCard.sdCard offsets slabs start group before d) :=
      writeSector_turn hsector hw hle hkept
    have hgrow : ∀ u, (writeSector FlakyCard.sdCard offsets slabs start group before d).1.1 = some (.ok u) →
        (writeSector FlakyCard.sdCard offsets slabs start group before d).1.2.length = before.length + 1 := by
      intro u hu
      unfold writeSector at hu ⊢
      cases hread : (seekStart start >>= fun _ => readExact FlakyCard.sdCard 512) d with
      | mk r d' =>
        rw [hread] at hu
        cases r with
        | error e => cases hu
        | ok sector =>
          cases hpatch : patchSector offsets slabs start group sector with
          | none => simp [hpatch] at hu
          | some changed => simp [hpatch]
    obtain ⟨r, hr, hspends, hlength⟩ := @writeSector_commands offsets slabs start group before d hslots hsector hw
      fun i hi => ⟨hindex _ List.mem_cons_self i hi, hgroup i hi⟩
    rw [writeSectors]
    revert hturn hr hspends hlength hgrow
    obtain ⟨⟨r', before'⟩, d'⟩ := writeSector FlakyCard.sdCard offsets slabs start group before d
    intro hturn hgrow hr hspends hlength
    have hp : d'.partition = d.partition := hturn.partition
    have hkept' : KeptSectors d'.partition before' := hp ▸ hturn.kept
    obtain rfl : r' = some r := hr
    simp only at hspends hlength hgrow
    have hcount : 3 * ((start, group) :: sectors).length = 3 + 3 * sectors.length := by
      rw [List.length_cons]
      omega
    cases r with
    | ok u =>
      have hworks : d.link.Works 3 := hspends.ok_iff.mp ⟨u, rfl⟩
      have hcommands := (hspends.done hworks).2
      have hmore : before'.length = before.length + 1 := hgrow u rfl
      have hrest : InGroups d'.partition offsets sectors := by
        rw [hp]
        exact fun s hs => hsectors s (List.mem_cons_of_mem _ hs)
      have hnext := ih hrest (fun s hs => hindex s (List.mem_cons_of_mem _ hs)) hturn.writable hkept'
      have hafter : d'.link.outcomes = (d.link.after 3).outcomes ∧ d'.link.commands = (d.link.after 3).commands :=
        ⟨hspends.outcomes, hcommands⟩
      refine ⟨hnext.outcomes.trans hspends.outcomes, fun hall => ?_, fun f hf hfails => ?_⟩
      · rw [hcount] at hall ⊢
        obtain ⟨hdone, hcommands'⟩ := hnext.done ((works_congr hafter.1 hafter.2).mpr (works_add.mp hall).2)
        refine ⟨hdone, hcommands'.trans ?_⟩
        omega
      · have hpast : 3 ≤ f := by
          by_contra hlt
          exact hfails.not_works (Nat.not_le.mp hlt) hworks
        obtain ⟨g, rfl⟩ := Nat.exists_eq_add_of_le hpast
        obtain ⟨e, restored, hresult, hback⟩ := hnext.failed g (by omega)
          ((failsAt_congr hafter.1 hafter.2).mpr (failsAt_add.mp hfails).2)
        refine ⟨e, restored, hresult, hback.trans ?_⟩
        have hkeptCount : 2 * (before'.length + (g + 2) / 3) = 2 * (before.length + (3 + g + 2) / 3) := by omega
        rw [hkeptCount]
        refine works_congr hspends.outcomes ?_
        simp only [FlakyCard.after]
        omega
    | error e =>
      have hnot : ¬d.link.Works 3 := fun hworks => by
        obtain ⟨⟨u, hu⟩, _⟩ := hspends.done hworks
        cases hu
      obtain ⟨g, hg, hgfails⟩ := (works_or_fails d.link 3).resolve_left hnot
      have hrev : KeptSectors d'.partition before'.reverse := fun w hmem => hkept' w (List.mem_reverse.mp hmem)
      obtain ⟨hiff, hout⟩ := restoreSectors_commands hrev hturn.writable true
      refine ⟨hout.trans hspends.outcomes, fun hall => ?_, fun f hf hfails => ?_⟩
      · rw [hcount] at hall
        exact absurd (works_add.mp hall).1 hnot
      · have hsame : f = g := by
          rcases Nat.lt_trichotomy f g with hlt | heq | hlt
          · exact absurd hgfails.1 (hfails.not_works hlt)
          · exact heq
          · exact absurd hfails.1 (hgfails.not_works hlt)
        subst hsame
        refine ⟨e, _, rfl, hiff.trans ?_⟩
        rw [List.length_reverse, hlength f hg hgfails]
        refine (and_iff_right rfl).trans (works_congr hspends.outcomes ?_)
        have hcommands := (hspends.failed f hg hgfails).2
        exact hcommands

/-- The sectors that slots at these offsets are in, each time it is another than
the one before. -/
def sectorCount (p : Partition) (offsets : List Nat) : Nat := ((groupLoop p.bytes offsets 0 []).getD []).length

/-- Where every offset is within the partition, the commands of a set's write. -/
theorem entry_slabs_commands (hslots : Slotted offsets slabs) (hin : groupLoop p.bytes offsets 0 [] ≠ none) (link : FlakyCard) :
    SetSpends (sectorCount p offsets) 0 link (exfatWriteEntrySlabsRestoring FlakyCard.sdCard p offsets slabs link).1
      (exfatWriteEntrySlabsRestoring FlakyCard.sdCard p offsets slabs link).2 := by
  obtain ⟨sectors, hgroups⟩ := Option.ne_none_iff_exists'.mp hin
  unfold exfatWriteEntrySlabsRestoring sectorCount
  rw [hgroups]
  have hnone : InGroups p offsets [] := fun _ hs => nomatch hs
  obtain ⟨hsectors, hflat⟩ := groupLoop_groups hgroups rfl (Nat.zero_le _) hnone
  have hkept : KeptSectors p [] := fun _ hw => nomatch hw
  refine @writeSectors_commands offsets slabs [] sectors ⟨link, p, 0, true⟩ hslots hsectors (fun s hs i hi => ?_) rfl hkept
  have hmem : i ∈ List.range' 0 offsets.length := by
    have hflat' := List.mem_flatMap_of_mem hs hi
    rw [hflat] at hflat'
    simpa using hflat'
  simpa using hmem

end Sets

end Multi64
