import Multi64.ExfatSlabs

/-! That an entry set is written whole or not at all: what one sector's commands
leave, what the kept contents take back, and what a whole write comes to. -/

namespace Multi64

namespace SectorPartitionDisk

section Sectors

variable {d : SectorPartitionDisk FlakyCard} {start : Nat} {sector : Bytes}

/-- A whole sector of the partition starts here. -/
structure IsSector (p : Partition) (start : Nat) : Prop where
  aligned : 512 ∣ start
  fits : start + 512 ≤ p.bytes

theorem sector_address {p : Partition} (h : IsSector p start) :
    word (p.start + start / 512) * 512 = p.start * 512 + start := by
  have hword := p.fits
  obtain ⟨k, rfl⟩ := h.aligned
  obtain ⟨q, hq⟩ := p.sectors
  have hfits := h.fits
  rw [word_eq (by omega)]
  omega

theorem seekStart_run {n : Nat} (h : n ≤ d.partition.bytes) : seekStart n d = (.ok n, { d with pos := n }) := by
  have hbytes := d.partition.word
  have hn : (UInt64.ofNat n).toNat = n := by
    rw [UInt64.toNat_ofNat']
    omega
  have hseek : seekTo "seek past end of partition" d.partition.bytes d.pos (.start (.ofNat n)) = .ok n := by
    have hword : word n = n := word_eq (by omega)
    simp [seekTo, SeekFrom.newPos, hn, hword, Nat.not_lt.mpr h]
  simp [seekStart, lift, SectorPartitionDisk.seek, hseek, Except.mapError]

theorem readLoop_sector {σ : Type} (t : SdCardTransport σ) {p : Partition} (h : IsSector p start) :
    readLoop t p start 512 512 [] =
      t.readSdSectors (word (p.start + start / 512)) 512 >>= fun b => readLoop t p start 512 511 b := by
  have hin := h.fits
  have hoff : start % 512 = 0 := Nat.mod_eq_zero_of_dvd h.aligned
  have hwant : min 512 (p.bytes - start) = 512 := by omega
  have hmax : min (512 / 512) (sdCardBufferMaxBytes / 512) * 512 = 512 := rfl
  rw [readLoop]
  simp only [List.length_nil, Nat.add_zero, Nat.sub_zero, hoff, hwant, hmax, List.nil_append]
  rfl

theorem writeLoop_sector {σ : Type} (t : SdCardTransport σ) {p : Partition} (h : IsSector p start) (hlen : sector.length = 512) :
    writeLoop t p start sector 512 0 = t.writeSdSectors (word (p.start + start / 512)) sector >>= fun _ => pure 512 := by
  have hin := h.fits
  have hoff : start % 512 = 0 := Nat.mod_eq_zero_of_dvd h.aligned
  have hroom : ¬p.bytes ≤ start := by omega
  have hwant : min 512 (p.bytes - start) = 512 := by omega
  have hmax : min (512 / 512) (sdCardBufferMaxBytes / 512) * 512 = 512 := rfl
  have hslice : slice sector 0 512 = sector := by rw [slice, List.drop_zero, List.take_of_length_le (by omega)]
  have hdone : writeLoop t p start sector 511 512 = pure 512 := by
    rw [writeLoop]
    simp [hlen]
  rw [writeLoop]
  simp only [hlen, Nat.add_zero, Nat.sub_zero, hoff, hroom, hwant, hmax, hslice, Nat.zero_add, hdone]
  rfl

theorem answer_cases {α : Type} (s : FlakyCard) (a : α) : s.answer a = .ok a ∨ s.answer a = .error FlakyCard.timedOut := by
  cases h : s.outcomes s.commands with
  | works => exact .inl (by simp [FlakyCard.answer, h])
  | fails landed => exact .inr (by simp [FlakyCard.answer, h])

/-- What a read of the sector comes to: its bytes, or an error. -/
theorem readExact_sector (h : IsSector d.partition d.pos) :
    ∃ pos, readExact FlakyCard.sdCard 512 d =
      ((d.link.answer (d.link.card.read (d.partition.start * 512 + d.pos) 512)).mapError .disk, { d with link := d.link.spent, pos := pos }) := by
  have hin := h.fits
  have hroom : ¬d.partition.bytes ≤ d.pos := by omega
  have hwant : min 512 (d.partition.bytes - d.pos) = 512 := by omega
  have hlen : (d.link.card.read (d.partition.start * 512 + d.pos) 512).length = 512 := Store.read_length ..
  have hread : FlakyCard.sdCard.readSdSectors (word (d.partition.start + d.pos / 512)) 512 d.link =
      (d.link.answer (d.link.card.read (d.partition.start * 512 + d.pos) 512), d.link.spent) := by
    rw [← sector_address h]
    rfl
  have hloop := congrFun (readLoop_sector FlakyCard.sdCard.toSdCardTransport h) d.link
  rw [Eff.bind_run, hread] at hloop
  rcases answer_cases d.link (d.link.card.read (d.partition.start * 512 + d.pos) 512) with hok | herr
  · rw [hok] at hloop ⊢
    have hdone : readLoop FlakyCard.sdCard.toSdCardTransport d.partition d.pos 512 511
        (d.link.card.read (d.partition.start * 512 + d.pos) 512) =
          pure (d.link.card.read (d.partition.start * 512 + d.pos) 512) := by
      rw [readLoop]
      simp [hlen]
    simp only [hdone] at hloop
    have hcall : d.read FlakyCard.sdCard.toSdCardTransport 512 = (.ok (d.link.card.read (d.partition.start * 512 + d.pos) 512),
        { d with link := d.link.spent, pos := d.pos + 512 }) := by
      rw [SectorPartitionDisk.read, if_neg (by omega), if_neg hroom]
      simp only [hwant, hloop, pure, hlen]
    refine ⟨d.pos + 512, ?_⟩
    have hne : d.link.card.read (d.partition.start * 512 + d.pos) 512 ≠ [] := fun hnil => by simp [hnil] at hlen
    have hend : readExactLoop FlakyCard.sdCard 512 511 (d.link.card.read (d.partition.start * 512 + d.pos) 512) =
        pure (d.link.card.read (d.partition.start * 512 + d.pos) 512) := by
      rw [readExactLoop]
      simp [hlen]
    rw [readExact, readExactLoop]
    simp [Eff.bind_run, lift, hcall, Except.mapError, hne, hend, pure]
  · rw [herr] at hloop ⊢
    simp only at hloop
    refine ⟨d.pos, ?_⟩
    have hcall : d.read FlakyCard.sdCard.toSdCardTransport 512 = (.error FlakyCard.timedOut, { d with link := d.link.spent }) := by
      rw [SectorPartitionDisk.read, if_neg (by omega), if_neg hroom]
      simp only [hwant, hloop]
    rw [readExact, readExactLoop]
    simp [Eff.bind_run, lift, hcall, Except.mapError]

/-- What a command to write a sector leaves: the sector, or what was there, and
the sector where it says so. -/
structure Put (start : Nat) (sector : Bytes) (d : SectorPartitionDisk FlakyCard)
    (r : Except IoFailure Unit × SectorPartitionDisk FlakyCard) : Prop where
  partition : r.2.partition = d.partition
  writable : r.2.writable = d.writable
  card : r.2.link.card = d.link.card ∨ r.2.link.card = d.link.card.write (d.partition.start * 512 + start) sector
  done : r.1 = .ok () → r.2.link.card = d.link.card.write (d.partition.start * 512 + start) sector

/-- What a write of the sector comes to: done, or an error. -/
theorem writeAll_run (h : IsSector d.partition d.pos) (hw : d.writable = true) (hlen : sector.length = 512) :
    ∃ pos, writeAll FlakyCard.sdCard sector d = ((d.link.answer ()).mapError .disk,
      { d with link := { d.link.spent with card := d.link.stored (word (d.partition.start + d.pos / 512)) sector }, pos := pos }) := by
  have hin := h.fits
  have hne : sector ≠ [] := fun hnil => by simp [hnil] at hlen
  have hloop := congrFun (writeLoop_sector FlakyCard.sdCard.toSdCardTransport h hlen) d.link
  have hwrite : FlakyCard.sdCard.writeSdSectors (word (d.partition.start + d.pos / 512)) sector d.link =
      (d.link.answer (), { d.link.spent with card := d.link.stored (word (d.partition.start + d.pos / 512)) sector }) := rfl
  have hfirst : writeAll FlakyCard.sdCard sector =
      lift (fun d => d.write FlakyCard.sdCard.toSdCardTransport sector) >>= fun k =>
        if k = 0 then Eff.fail .failedToWrite else writeAllLoop FlakyCard.sdCard 511 (sector.drop k) := by
    rw [writeAll, hlen, writeAllLoop, if_neg hne]
  rw [Eff.bind_run, hwrite] at hloop
  rw [hfirst, Eff.bind_run]
  rcases answer_cases d.link () with hok | herr
  · rw [hok] at hloop ⊢
    have hcall : d.write FlakyCard.sdCard.toSdCardTransport sector = (.ok 512, { d with
        link := { d.link.spent with card := d.link.stored (word (d.partition.start + d.pos / 512)) sector }
        pos := d.pos + 512 }) := by
      rw [SectorPartitionDisk.write, if_neg (by simp [hw]), if_neg hne, hlen]
      simp only [hloop]
      rfl
    have hend : writeAllLoop FlakyCard.sdCard 511 (sector.drop 512) = pure () := by
      rw [List.drop_eq_nil_of_le (by omega), writeAllLoop, if_pos rfl]
    simp only [lift, hcall, Except.mapError, hend]
    exact ⟨d.pos + 512, rfl⟩
  · rw [herr] at hloop ⊢
    have hcall : d.write FlakyCard.sdCard.toSdCardTransport sector = (.error FlakyCard.timedOut, { d with
        link := { d.link.spent with card := d.link.stored (word (d.partition.start + d.pos / 512)) sector } }) := by
      rw [SectorPartitionDisk.write, if_neg (by simp [hw]), if_neg hne, hlen]
      simp only [hloop]
    simp only [lift, hcall, Except.mapError]
    exact ⟨d.pos, rfl⟩

theorem writeAll_sector (h : IsSector d.partition d.pos) (hw : d.writable = true) (hlen : sector.length = 512) :
    Put d.pos sector d (writeAll FlakyCard.sdCard sector d) := by
  obtain ⟨pos, hrun⟩ := writeAll_run h hw hlen
  rw [hrun]
  cases hout : d.link.outcomes d.link.commands with
  | works =>
    have hstored : d.link.stored (word (d.partition.start + d.pos / 512)) sector =
        d.link.card.write (d.partition.start * 512 + d.pos) sector := by
      simp [FlakyCard.stored, hout, sector_address h]
    exact ⟨rfl, rfl, .inr hstored, fun _ => hstored⟩
  | fails landed =>
    have herr : d.link.answer () = .error FlakyCard.timedOut := by simp [FlakyCard.answer, hout]
    rw [herr]
    refine ⟨rfl, rfl, ?_, nofun⟩
    cases landed with
    | false => exact .inl (by simp [FlakyCard.stored, hout])
    | true => exact .inr (by simp [FlakyCard.stored, hout, sector_address h])

theorem flush_run : ∃ r link, flush FlakyCard.sdCard d = (r, { d with link := link }) ∧ link.card = d.link.card :=
  ⟨_, d.link.spent, rfl, rfl⟩

theorem putSector_put (h : IsSector d.partition start) (hw : d.writable = true) (hlen : sector.length = 512) :
    Put start sector d (putSector FlakyCard.sdCard start sector d) := by
  have hin := h.fits
  have hseek : seekStart start d = (.ok start, { d with pos := start }) := seekStart_run (by omega)
  have hat : IsSector ({ d with pos := start } : SectorPartitionDisk FlakyCard).partition start := h
  have hput := writeAll_sector (d := { d with pos := start }) hat hw hlen
  unfold putSector
  rw [Eff.bind_run, hseek]
  simp only
  rw [Eff.bind_run]
  revert hput
  obtain ⟨r, d'⟩ := writeAll FlakyCard.sdCard sector { d with pos := start }
  intro hput
  cases r with
  | error e => exact ⟨hput.partition, hput.writable, hput.card, nofun⟩
  | ok u =>
    obtain ⟨r', link, hflush, hcard⟩ := flush_run (d := d')
    have hdone := hput.done rfl
    simp only [hflush]
    exact ⟨hput.partition, hput.writable, .inr (hcard.trans hdone), fun _ => hcard.trans hdone⟩

/-- What reading a sector leaves: the card, and its bytes where it says so. -/
structure Got (start : Nat) (d : SectorPartitionDisk FlakyCard) (r : Except IoFailure Bytes × SectorPartitionDisk FlakyCard) :
    Prop where
  partition : r.2.partition = d.partition
  writable : r.2.writable = d.writable
  card : r.2.link.card = d.link.card
  done : ∀ b, r.1 = .ok b → b = d.link.card.read (d.partition.start * 512 + start) 512

theorem getSector_got (h : IsSector d.partition start) :
    Got start d ((seekStart start >>= fun _ => readExact FlakyCard.sdCard 512) d) := by
  have hin := h.fits
  have hseek : seekStart start d = (.ok start, { d with pos := start }) := seekStart_run (by omega)
  have hat : IsSector ({ d with pos := start } : SectorPartitionDisk FlakyCard).partition start := h
  obtain ⟨pos, hread⟩ := readExact_sector (d := { d with pos := start }) hat
  rw [Eff.bind_run, hseek]
  simp only [hread]
  refine ⟨rfl, rfl, rfl, fun b hb => ?_⟩
  rcases answer_cases d.link (d.link.card.read (d.partition.start * 512 + start) 512) with hok | herr
  · rw [hok] at hb
    exact (Except.ok.inj hb).symm
  · rw [herr] at hb
    nomatch hb

end Sectors

end SectorPartitionDisk

section Writes

open SectorPartitionDisk

variable {p : Partition} {offsets : List Nat} {slabs : List Slab} {start : Nat} {group : List Nat} {sector changed : Bytes}
  {before : List (Nat × Bytes)} {sectors : List (Nat × List Nat)} {d : SectorPartitionDisk FlakyCard}

/-- The writes of slots by number, as addresses of the card. -/
def slabWrites (p : Partition) (offsets : List Nat) (slabs : List Slab) (group : List Nat) : List (Nat × Bytes) :=
  group.map fun i => (p.start * 512 + offsets.getD i 0, ((slabs[i]?).map Slab.bytes).getD [])

/-- What was kept, as addresses of the card. -/
def keptWrites (p : Partition) (before : List (Nat × Bytes)) : List (Nat × Bytes) :=
  before.map fun w => (p.start * 512 + w.1, w.2)

theorem patchSector_writes {m : Store} (h : patchSector offsets slabs start group (m.read (p.start * 512 + start) 512) = some changed)
    (hin : ∀ i ∈ group, start ≤ offsets.getD i 0) :
    changed = (m.writes (slabWrites p offsets slabs group)).read (p.start * 512 + start) 512 ∧
      ∀ w ∈ slabWrites p offsets slabs group, p.start * 512 + start ≤ w.1 ∧ w.1 + w.2.length ≤ p.start * 512 + start + 512 := by
  induction group generalizing m with
  | nil =>
    obtain rfl := Option.some.inj h
    exact ⟨rfl, (by intros; contradiction)⟩
  | cons i group ih =>
    rw [patchSector] at h
    cases hslab : slabs[i]? with
    | none => simp [hslab] at h
    | some slab =>
      have hle := hin i List.mem_cons_self
      have hsize : slab.1.length = 32 := slab.2
      simp only [hslab, Store.read_length] at h
      by_cases hfit : offsets.getD i 0 - start + 32 ≤ 512
      · have haddr : p.start * 512 + start + (offsets.getD i 0 - start) = p.start * 512 + offsets.getD i 0 := by omega
        rw [if_pos hfit, ← m.read_write_inside _ _ (by omega), haddr] at h
        obtain ⟨hchanged, hrest⟩ := ih h fun j hj => hin j (List.mem_cons_of_mem i hj)
        have hcons : slabWrites p offsets slabs (i :: group) =
            (p.start * 512 + offsets.getD i 0, slab.1) :: slabWrites p offsets slabs group := by
          simp only [slabWrites, List.map_cons, hslab]
          rfl
        rw [hcons]
        refine ⟨hchanged, fun w hw => ?_⟩
        rcases List.mem_cons.mp hw with rfl | hw
        · simp only
          omega
        · exact hrest w hw
      · rw [if_neg hfit] at h
        cases h

theorem patchSector_length (h : patchSector offsets slabs start group sector = some changed) : changed.length = sector.length := by
  induction group generalizing sector with
  | nil => exact congrArg List.length (Option.some.inj h).symm
  | cons i group ih =>
    rw [patchSector] at h
    cases hslab : slabs[i]? with
    | none => simp [hslab] at h
    | some slab =>
      have hsize : slab.1.length = 32 := slab.2
      simp only [hslab] at h
      by_cases hfit : offsets.getD i 0 - start + 32 ≤ sector.length
      · rw [if_pos hfit] at h
        rw [ih h, overwrite_length (by omega)]
      · rw [if_neg hfit] at h
        cases h

/-- KeptSectors contents are of sectors of the partition. -/
def KeptSectors (p : Partition) (before : List (Nat × Bytes)) : Prop := ∀ w ∈ before, IsSector p w.1 ∧ w.2.length = 512

/-- What went back whole is as it was kept. -/
theorem restoreSectors_card (hkept : KeptSectors d.partition before) (hw : d.writable = true) {restored : Bool}
    (h : (restoreSectors FlakyCard.sdCard before restored d).1 = true) :
    restored = true ∧
      (restoreSectors FlakyCard.sdCard before restored d).2.link.card = d.link.card.writes (keptWrites d.partition before) := by
  induction before generalizing d restored with
  | nil => exact ⟨h, rfl⟩
  | cons w before ih =>
    obtain ⟨start, sector⟩ := w
    obtain ⟨hsector, hlen⟩ := hkept (start, sector) List.mem_cons_self
    have hput := putSector_put hsector hw hlen
    rw [restoreSectors] at h ⊢
    have hrest : KeptSectors (putSector FlakyCard.sdCard start sector d).2.partition before := by
      rw [hput.partition]
      exact fun w hw => hkept w (List.mem_cons_of_mem _ hw)
    obtain ⟨hand, hcard⟩ := ih hrest (hput.writable.trans hw) h
    obtain ⟨hold, hok⟩ := Bool.and_eq_true_iff.mp hand
    have hdone : (putSector FlakyCard.sdCard start sector d).1 = .ok () := by
      cases hr : (putSector FlakyCard.sdCard start sector d).1 with
      | ok u => rfl
      | error e => simp [hr, Except.isOk, Except.toBool] at hok
    rw [hput.partition, hput.done hdone] at hcard
    exact ⟨hold, hcard⟩

/-- What one sector's turn leaves: what was kept takes it back, and where it
says so its slots are written. -/
structure Turn (offsets : List Nat) (slabs : List Slab) (group : List Nat) (before : List (Nat × Bytes))
    (d : SectorPartitionDisk FlakyCard) (r : (Option (Except IoFailure Unit) × List (Nat × Bytes)) × SectorPartitionDisk FlakyCard) :
    Prop where
  partition : r.2.partition = d.partition
  writable : r.2.writable = true
  kept : KeptSectors d.partition r.1.2
  undo : r.2.link.card.undo (keptWrites d.partition r.1.2) = d.link.card.undo (keptWrites d.partition before)
  done : r.1.1 = some (.ok ()) → r.2.link.card = d.link.card.writes (slabWrites d.partition offsets slabs group)

theorem writeSector_turn (h : IsSector d.partition start) (hw : d.writable = true) (hin : ∀ i ∈ group, start ≤ offsets.getD i 0)
    (hkept : KeptSectors d.partition before) :
    Turn offsets slabs group before d (writeSector FlakyCard.sdCard offsets slabs start group before d) := by
  have hgot := getSector_got h
  unfold writeSector
  revert hgot
  obtain ⟨r, d'⟩ := (seekStart start >>= fun _ => readExact FlakyCard.sdCard 512) d
  intro hgot
  have hp : d'.partition = d.partition := hgot.partition
  have hw' : d'.writable = true := hgot.writable.trans hw
  have hcard : d'.link.card = d.link.card := hgot.card
  cases r with
  | error e => exact ⟨hp, hw', hkept, by simp only [hcard], nofun⟩
  | ok sector =>
    have hsector : sector = d'.link.card.read (d'.partition.start * 512 + start) 512 := by
      rw [hcard, hp]
      exact hgot.done sector rfl
    have hlen : sector.length = 512 := by rw [hsector, Store.read_length]
    have hmore : KeptSectors d.partition (before ++ [(start, sector)]) := by
      intro w hmem
      rcases List.mem_append.mp hmem with hmem | hmem
      · exact hkept w hmem
      · obtain rfl := List.mem_singleton.mp hmem
        exact ⟨h, hlen⟩
    have hundo (m : Store) : m.undo (keptWrites d.partition (before ++ [(start, sector)])) =
        (m.write (d.partition.start * 512 + start) sector).undo (keptWrites d.partition before) := by
      simp only [keptWrites, List.map_append, List.map_cons, List.map_nil, Store.undo_concat]
    have hsame : d'.link.card.write (d.partition.start * 512 + start) sector = d.link.card := by
      rw [hsector, hp, Store.write_read, hcard]
    cases hpatch : patchSector offsets slabs start group sector with
    | none =>
      simp only [hpatch]
      exact ⟨hp, hw', hmore, by rw [hundo, hsame], nofun⟩
    | some changed =>
      have hchanged : changed.length = 512 := (patchSector_length hpatch).trans hlen
      have hput := putSector_put (d := d') (hp ▸ h) hw' hchanged
      simp only [hpatch]
      refine ⟨hput.partition.trans hp, hput.writable.trans hw', hmore, ?_, fun hok => ?_⟩
      · rw [hundo]
        rcases hput.card with heq | heq
        · simp only [heq, hsame]
        · have hback : (d'.link.card.write (d.partition.start * 512 + start) changed).write (d.partition.start * 512 + start) sector =
              d.link.card := by
            rw [Store.write_write (hchanged.trans hlen.symm), hsame]
          simp only [heq, hp, hback]
      · rw [hsector] at hpatch
        obtain ⟨hwrites, hinside⟩ := patchSector_writes hpatch hin
        have hdone := hput.done (Option.some.inj hok)
        rw [hdone, hwrites, Store.write_read_of_agree, hp, hcard]
        intro j hj
        refine Store.writes_outside fun w hmem => ?_
        obtain ⟨hfrom, hto⟩ := hinside w hmem
        omega

/-- Each group is of slots in one sector of the partition. -/
def InGroups (p : Partition) (offsets : List Nat) (sectors : List (Nat × List Nat)) : Prop :=
  ∀ s ∈ sectors, IsSector p s.1 ∧ ∀ i ∈ s.2, sectorStart (offsets.getD i 0) = s.1

theorem sectorStart_le (offset : Nat) : sectorStart offset ≤ offset := Nat.sub_le _ _

theorem isSector_start {offset : Nat} (h : ¬p.bytes < sectorStart offset + 512) : IsSector p (sectorStart offset) := by
  refine ⟨⟨offset / 512, ?_⟩, by omega⟩
  unfold sectorStart
  omega

/-- Every slot is in its sector's group, in order. -/
theorem groupLoop_groups {all : List Nat} {i : Nat} {out : List (Nat × List Nat)} (h : groupLoop p.bytes offsets i sectors = some out)
    (hall : all.drop i = offsets) (hi : i ≤ all.length) (hsectors : InGroups p all sectors) :
    InGroups p all out ∧ out.flatMap (·.2) = sectors.flatMap (·.2) ++ List.range' i offsets.length := by
  induction offsets generalizing i sectors with
  | nil =>
    obtain rfl := Option.some.inj h
    exact ⟨hsectors, by simp⟩
  | cons offset offsets ih =>
    have hlt : i < all.length := by
      have hlen := congrArg List.length hall
      rw [List.length_drop, List.length_cons] at hlen
      omega
    have hget : all.getD i 0 = offset := by
      rw [List.drop_eq_getElem_cons hlt] at hall
      simp [List.getD_eq_getElem?_getD, hlt, (List.cons.inj hall).1]
    have hrest : all.drop (i + 1) = offsets := by
      rw [List.drop_eq_getElem_cons hlt] at hall
      exact (List.cons.inj hall).2
    rw [groupLoop] at h
    by_cases hpast : p.bytes < sectorStart offset + 512
    · rw [if_pos hpast] at h
      nomatch h
    rw [if_neg hpast] at h
    have hsector := isSector_start hpast
    have hone : ∀ j ∈ [i], sectorStart (all.getD j 0) = sectorStart offset := by
      intro j hj
      rw [List.mem_singleton.mp hj, hget]
    cases hlast : sectors.getLast? with
    | none =>
      obtain rfl := List.getLast?_eq_none_iff.mp hlast
      simp only [hlast] at h
      have hnew : InGroups p all [(sectorStart offset, [i])] := by
        intro s hs
        obtain rfl := List.mem_singleton.mp hs
        exact ⟨hsector, hone⟩
      obtain ⟨hout, hflat⟩ := ih h hrest hlt hnew
      exact ⟨hout, by simpa [List.range'_succ] using hflat⟩
    | some g =>
      obtain ⟨s, group⟩ := g
      obtain ⟨front, rfl⟩ := List.getLast?_eq_some_iff.mp hlast
      simp only [hlast] at h
      obtain ⟨hfront, hback⟩ := List.forall_mem_append.mp hsectors
      obtain ⟨hs, hgroup⟩ := hback _ List.mem_cons_self
      by_cases hsame : s = sectorStart offset
      · rw [if_pos hsame, List.dropLast_concat] at h
        have hnew : InGroups p all (front ++ [(s, group ++ [i])]) := by
          refine List.forall_mem_append.mpr ⟨hfront, fun g hg => ?_⟩
          obtain rfl := List.mem_singleton.mp hg
          exact ⟨hs, List.forall_mem_append.mpr ⟨hgroup, hsame ▸ hone⟩⟩
        obtain ⟨hout, hflat⟩ := ih h hrest hlt hnew
        exact ⟨hout, by simpa [List.range'_succ] using hflat⟩
      · rw [if_neg hsame] at h
        have hnew : InGroups p all (front ++ [(s, group)] ++ [(sectorStart offset, [i])]) := by
          refine List.forall_mem_append.mpr ⟨hsectors, fun g hg => ?_⟩
          obtain rfl := List.mem_singleton.mp hg
          exact ⟨hsector, hone⟩
        obtain ⟨hout, hflat⟩ := ih h hrest hlt hnew
        exact ⟨hout, by simpa [List.range'_succ] using hflat⟩

theorem slabWrites_append (group group' : List Nat) :
    slabWrites p offsets slabs (group ++ group') = slabWrites p offsets slabs group ++ slabWrites p offsets slabs group' :=
  List.map_append

/-- What a write of an entry set comes to: all of it, or what can be taken back. -/
def WholeOrBack (card written back : Store) : SlabsWritten → Prop
  | .ok => card = written
  | .failed _ restored => restored = true → card = back
  | .panic => True

theorem writeSectors_whole (hsectors : InGroups d.partition offsets sectors) (hw : d.writable = true) (hkept : KeptSectors d.partition before) :
    WholeOrBack (writeSectors FlakyCard.sdCard offsets slabs sectors before d).2.link.card
      (d.link.card.writes (slabWrites d.partition offsets slabs (sectors.flatMap (·.2))))
      (d.link.card.undo (keptWrites d.partition before)) (writeSectors FlakyCard.sdCard offsets slabs sectors before d).1 := by
  induction sectors generalizing before d with
  | nil => rfl
  | cons s sectors ih =>
    obtain ⟨start, group⟩ := s
    obtain ⟨hsector, hgroup⟩ := hsectors (start, group) List.mem_cons_self
    have hin : ∀ i ∈ group, start ≤ offsets.getD i 0 := fun i hi => Nat.le_trans (Nat.le_of_eq (hgroup i hi).symm) (sectorStart_le _)
    have hturn : Turn offsets slabs group before d (writeSector FlakyCard.sdCard offsets slabs start group before d) :=
      writeSector_turn hsector hw hin hkept
    rw [writeSectors]
    revert hturn
    obtain ⟨⟨r, before'⟩, d'⟩ := writeSector FlakyCard.sdCard offsets slabs start group before d
    intro hturn
    have hp : d'.partition = d.partition := hturn.partition
    have hundo : d'.link.card.undo (keptWrites d.partition before') = d.link.card.undo (keptWrites d.partition before) := hturn.undo
    cases r with
    | none => trivial
    | some r =>
      cases r with
      | ok u =>
        have hrest : InGroups d'.partition offsets sectors := by
          rw [hp]
          exact fun s hs => hsectors s (List.mem_cons_of_mem _ hs)
        have hkept' : KeptSectors d'.partition before' := hp ▸ hturn.kept
        have hwhole := ih hrest hturn.writable hkept'
        have hdone : d'.link.card = d.link.card.writes (slabWrites d.partition offsets slabs group) := hturn.done rfl
        rw [hp, hundo, hdone, ← Store.writes_append, ← slabWrites_append] at hwhole
        exact hwhole
      | error e =>
        intro hrestored
        have hkept' : KeptSectors d'.partition before'.reverse := by
          rw [hp]
          exact fun w hmem => hturn.kept w (List.mem_reverse.mp hmem)
        obtain ⟨_, hcard⟩ := restoreSectors_card hkept' hturn.writable hrestored
        simp only
        rw [hcard, ← hundo, hp, Store.undo_reverse, keptWrites, keptWrites, List.map_reverse]

/-- The slots of a write, as addresses of the card. -/
def slabBytes (p : Partition) (offsets : List Nat) (slabs : List Slab) : List (Nat × Bytes) :=
  (offsets.zip slabs).map fun w => (p.start * 512 + w.1, w.2.1)

theorem slabWrites_range (hlen : offsets.length = slabs.length) :
    slabWrites p offsets slabs (List.range' 0 offsets.length) = slabBytes p offsets slabs := by
  refine List.ext_getElem (by simp [slabWrites, slabBytes, hlen]) fun i hi _ => ?_
  have hoff : i < offsets.length := by simpa [slabWrites] using hi
  have hslab : i < slabs.length := by omega
  simp only [slabWrites, slabBytes, List.getElem_map, List.getElem_range', List.getElem_zip, Nat.zero_add, Nat.one_mul,
    List.getD_eq_getElem?_getD, List.getElem?_eq_getElem hoff, List.getElem?_eq_getElem hslab]
  rfl

theorem slabs_whole (hlen : offsets.length = slabs.length) (link : FlakyCard) :
    WholeOrBack (exfatWriteEntrySlabsRestoring FlakyCard.sdCard p offsets slabs link).2.card
      (link.card.writes (slabBytes p offsets slabs)) link.card
      (exfatWriteEntrySlabsRestoring FlakyCard.sdCard p offsets slabs link).1 := by
  unfold exfatWriteEntrySlabsRestoring
  cases hgroups : groupLoop p.bytes offsets 0 [] with
  | none => exact fun _ => rfl
  | some sectors =>
    have hnone : InGroups p offsets [] := fun _ hs => nomatch hs
    obtain ⟨hsectors, hflat⟩ := groupLoop_groups hgroups rfl (Nat.zero_le _) hnone
    have hkept : KeptSectors p [] := fun _ hw => nomatch hw
    have hwhole := @writeSectors_whole offsets slabs [] sectors ⟨link, p, 0, true⟩ hsectors rfl hkept
    rw [hflat] at hwhole
    simp only [List.flatMap_nil, List.nil_append, slabWrites_range hlen] at hwhole
    exact hwhole

/-- Slots that a directory's clusters have: at offsets of whole slots, and each
with what is to be written. -/
def Slotted (offsets : List Nat) (slabs : List Slab) : Prop :=
  offsets.length = slabs.length ∧ ∀ o ∈ offsets, 32 ∣ o

theorem patchSector_fits (hslots : Slotted offsets slabs) (hlen : sector.length = 512)
    (hin : ∀ i ∈ group, i < offsets.length ∧ sectorStart (offsets.getD i 0) = start) :
    patchSector offsets slabs start group sector ≠ none := by
  induction group generalizing sector with
  | nil => exact nofun
  | cons i group ih =>
    obtain ⟨hi, hstart⟩ := hin i List.mem_cons_self
    have hslab : i < slabs.length := hslots.1 ▸ hi
    have hget : slabs[i]? = some (slabs.get ⟨i, hslab⟩) := List.getElem?_eq_getElem hslab
    have hsize : (slabs.get ⟨i, hslab⟩).1.length = 32 := (slabs.get ⟨i, hslab⟩).2
    have hoff : offsets.getD i 0 = offsets.get ⟨i, hi⟩ := by simp [List.getD_eq_getElem?_getD, hi]
    obtain ⟨k, hk⟩ := hslots.2 _ (List.get_mem offsets ⟨i, hi⟩)
    have hfit : offsets.getD i 0 - start + 32 ≤ sector.length := by
      rw [hoff, hk] at hstart ⊢
      unfold sectorStart at hstart
      omega
    rw [patchSector, hget]
    simp only [if_pos hfit]
    refine ih ?_ fun j hj => hin j (List.mem_cons_of_mem i hj)
    rw [overwrite_length (by omega), hlen]

theorem writeSectors_runs (hslots : Slotted offsets slabs) (hsectors : InGroups d.partition offsets sectors)
    (hindex : ∀ s ∈ sectors, ∀ i ∈ s.2, i < offsets.length) (hw : d.writable = true) (hkept : KeptSectors d.partition before) :
    (writeSectors FlakyCard.sdCard offsets slabs sectors before d).1 ≠ .panic := by
  induction sectors generalizing before d with
  | nil => exact nofun
  | cons s sectors ih =>
    obtain ⟨start, group⟩ := s
    obtain ⟨hsector, hgroup⟩ := hsectors (start, group) List.mem_cons_self
    have hin : ∀ i ∈ group, start ≤ offsets.getD i 0 := fun i hi => Nat.le_trans (Nat.le_of_eq (hgroup i hi).symm) (sectorStart_le _)
    have hturn : Turn offsets slabs group before d (writeSector FlakyCard.sdCard offsets slabs start group before d) :=
      writeSector_turn hsector hw hin hkept
    have hsome : (writeSector FlakyCard.sdCard offsets slabs start group before d).1.1 ≠ none := by
      have hgot := getSector_got hsector
      unfold writeSector
      revert hgot
      obtain ⟨r, d'⟩ := (seekStart start >>= fun _ => readExact FlakyCard.sdCard 512) d
      intro hgot
      cases r with
      | error e => exact nofun
      | ok sector =>
        have hlen : sector.length = 512 := by rw [hgot.done sector rfl, Store.read_length]
        have hpatch : patchSector offsets slabs start group sector ≠ none :=
          patchSector_fits hslots hlen fun i hi => ⟨hindex _ List.mem_cons_self i hi, hgroup i hi⟩
        obtain ⟨changed, hchanged⟩ := Option.ne_none_iff_exists'.mp hpatch
        simp [hchanged]
    rw [writeSectors]
    revert hturn hsome
    obtain ⟨⟨r, before'⟩, d'⟩ := writeSector FlakyCard.sdCard offsets slabs start group before d
    intro hturn hsome
    have hp : d'.partition = d.partition := hturn.partition
    cases r with
    | none => exact absurd rfl hsome
    | some r =>
      cases r with
      | error e => exact nofun
      | ok u =>
        have hrest : InGroups d'.partition offsets sectors := by
          rw [hp]
          exact fun s hs => hsectors s (List.mem_cons_of_mem _ hs)
        have hkept' : KeptSectors d'.partition before' := hp ▸ hturn.kept
        exact ih hrest (fun s hs => hindex s (List.mem_cons_of_mem _ hs)) hturn.writable hkept'

theorem slabs_run (hslots : Slotted offsets slabs) (link : FlakyCard) :
    (exfatWriteEntrySlabsRestoring FlakyCard.sdCard p offsets slabs link).1 ≠ .panic := by
  unfold exfatWriteEntrySlabsRestoring
  cases hgroups : groupLoop p.bytes offsets 0 [] with
  | none => exact nofun
  | some sectors =>
    have hnone : InGroups p offsets [] := fun _ hs => nomatch hs
    obtain ⟨hsectors, hflat⟩ := groupLoop_groups hgroups rfl (Nat.zero_le _) hnone
    have hkept : KeptSectors p [] := fun _ hw => nomatch hw
    refine @writeSectors_runs offsets slabs [] sectors ⟨link, p, 0, true⟩ hslots hsectors (fun s hs i hi => ?_) rfl hkept
    have hmem : i ∈ List.range' 0 offsets.length := by
      have hflat' := List.mem_flatMap_of_mem hs hi
      rw [hflat] at hflat'
      simpa using hflat'
    simpa using hmem

/-- However the commands of a write fail, an entry set that is reported written
is there and nothing else of the card has changed, and one that is reported put
back has left the card as it was. -/
theorem entry_slabs_restored (hlen : offsets.length = slabs.length) (link : FlakyCard) :
    ((exfatWriteEntrySlabsRestoring FlakyCard.sdCard p offsets slabs link).1 = .ok →
      ((slabBytes p offsets slabs).Pairwise Store.Apart → ∀ w ∈ slabBytes p offsets slabs,
        (exfatWriteEntrySlabsRestoring FlakyCard.sdCard p offsets slabs link).2.card.read w.1 w.2.length = w.2) ∧
      ∀ a, (∀ w ∈ slabBytes p offsets slabs, a < w.1 ∨ w.1 + w.2.length ≤ a) →
        (exfatWriteEntrySlabsRestoring FlakyCard.sdCard p offsets slabs link).2.card a = link.card a) ∧
    (∀ e, (exfatWriteEntrySlabsRestoring FlakyCard.sdCard p offsets slabs link).1 = .failed e true →
      (exfatWriteEntrySlabsRestoring FlakyCard.sdCard p offsets slabs link).2.card = link.card) ∧
    ((∀ o ∈ offsets, 32 ∣ o) → (exfatWriteEntrySlabsRestoring FlakyCard.sdCard p offsets slabs link).1 ≠ .panic) := by
  have hwhole := slabs_whole (p := p) hlen link
  refine ⟨fun hok => ?_, fun e he => ?_, fun haligned => slabs_run ⟨hlen, haligned⟩ link⟩
  · rw [hok] at hwhole
    rw [show (exfatWriteEntrySlabsRestoring FlakyCard.sdCard p offsets slabs link).2.card = _ from hwhole]
    exact ⟨fun hapart w hw => Store.writes_read hapart hw, fun a ha => Store.writes_outside ha⟩
  · rw [he] at hwhole
    exact hwhole rfl

/-- A slot of one byte over and over. -/
def filledSlab (b : UInt8) : Slab := ⟨List.replicate 32 b, List.length_replicate ..⟩

/-- Two slots over the end of a sector, the second sector's write having failed
on the card. -/
theorem entry_slabs_restored_over_sectors :
    let p : Partition := ⟨0, 1024, by decide, by decide, by decide⟩
    let link : FlakyCard := ⟨fun _ => 0, fun n => if n = 4 then .fails true else .works, 0⟩
    (exfatWriteEntrySlabsRestoring FlakyCard.sdCard p [480, 512] [filledSlab 1, filledSlab 2] link).2.card = link.card ∧
      (exfatWriteEntrySlabsRestoring FlakyCard.sdCard p [480, 512] [filledSlab 1, filledSlab 2] link).1 ≠ .panic := by
  intro p link
  have hback := @entry_slabs_restored p [480, 512] [filledSlab 1, filledSlab 2] rfl link
  exact ⟨hback.2.1 (.disk FlakyCard.timedOut) (by decide +kernel), hback.2.2 (by decide)⟩

end Writes

end Multi64
