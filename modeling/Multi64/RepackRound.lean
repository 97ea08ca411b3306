import Multi64.RepackRun

/-! The round trip of `repack`: the ROM it lays a patched image out to decompresses to
that image, and keeps what the seed stores of the files that the patch left alone. -/

namespace Multi64

/-- A place of what the ROM stores of a file. -/
def DmaEntry.Stores (o : DmaEntry) (j : Nat) : Prop := o.romStart.toNat ≤ j ∧ j < o.storedEnd

/-- A file that is whole within its own bytes, and fills its span. -/
structure StoredFile (seed : Bytes) (o : DmaEntry) : Prop where
  fits : o.storedEnd ≤ seed.length
  whole : ∃ data, fileData (seed.take o.storedEnd) o = .ok data ∧ o.vromStart.toNat + data.length = o.vromEnd.toNat

/-- A seed with a file table, its files apart from each other in the image and in the ROM. -/
structure WholeSeed (seed : Bytes) (table : UInt32) (old : List DmaEntry) : Prop where
  read : dmaEntries seed table.toNat = .ok old
  files : ∀ o ∈ old, o.used → StoredFile seed o
  spans : (old.filter (·.used)).Pairwise DmaEntry.Apart
  places : (old.filter (·.used)).Pairwise fun o o' => ∀ j, o.Stores j → ¬o'.Stores j
  header : ∀ o ∈ old, o.used → o.romStart.toNat < 0x1000 → o.romStart = o.vromStart ∧ o.romEnd = 0
  behind : 0x1000 ≤ table.toNat

/-- An image whose table, stored plain and in place, may have got more files. -/
structure PatchedImage (seed patched : Bytes) (table : UInt32) (old new : List DmaEntry) : Prop where
  read : dmaEntries patched table.toNat = .ok new
  grown : old.length ≤ new.length
  tableFile : ∃ (i : Nat) (o e : DmaEntry), old[i]? = some o ∧ new[i]? = some e ∧ e.used ∧ o.vromStart = table ∧ o.romStart = table ∧
    o.romEnd = 0 ∧ e.vromStart = table ∧ e.vromEnd = o.vromEnd ∧ table.toNat + 16 * (new.length + 1) ≤ o.vromEnd.toNat
  plain : ∀ e ∈ new, e.used → e.romStart = e.vromStart ∧ e.romEnd = 0 ∧ e.vromStart ≤ e.vromEnd
  absent : ∀ (i : Nat) (e : DmaEntry), new[i]? = some e → ¬e.used → old[i]? = some e
  size : patched.length = max (imageEnd (new.filter (·.used))) 0x00101000
  limit : imageEnd (new.filter (·.used)) ≤ 0x04000000
  rest : ∀ j, 0x1000 ≤ j → (∀ e ∈ new.filter (·.used), ¬e.Spans j) → byteAt patched j = 0
  room : seed.length + (new.map fun e => e.span + 15).sum < 2 ^ 32 - 1

/-- The ROM before its files are laid out: the seed's data under the image's header. -/
def startRom (seed patched : Bytes) (old : List DmaEntry) : Bytes :=
  overwrite (seed.take (seedKept seed old)) 0 (patched.take 0x1000)

section Kept

variable {seed patched : Bytes} {table : UInt32} {old new : List DmaEntry} {o : DmaEntry}

theorem foldl_max_le {l : List Nat} {a n : Nat} : l.foldl max a ≤ n ↔ a ≤ n ∧ ∀ x ∈ l, x ≤ n := by
  induction l generalizing a with
  | nil => simp
  | cons x l ih =>
    rw [List.foldl_cons, ih, List.forall_mem_cons, Nat.max_le, and_assoc]

theorem seedKept_bounds (seed : Bytes) (old : List DmaEntry) : seedDataEnd seed old ≤ seedKept seed old ∧ seedKept seed old ≤ seed.length := by
  have hle : seedDataEnd seed old ≤ seed.length := Nat.min_le_right ..
  rw [seedKept]
  split
  · exact ⟨Nat.le_refl _, hle⟩
  · exact ⟨hle, Nat.le_refl _⟩

/-- What is kept of a seed holds all that it stores. -/
theorem storedEnd_le_kept (ho : o ∈ old) (hused : o.used) (hfits : o.storedEnd ≤ seed.length) : o.storedEnd ≤ seedKept seed old := by
  have hmem : o.storedEnd ∈ (old.filter (·.used)).map (·.storedEnd) := List.mem_map_of_mem (List.mem_filter.mpr ⟨ho, hused⟩)
  have hmax := (foldl_max_le.mp (Nat.le_refl (((old.filter (·.used)).map (·.storedEnd)).foldl max 0))).2 _ hmem
  have hend : o.storedEnd ≤ seedDataEnd seed old := by
    rw [seedDataEnd]
    omega
  have hkept := (seedKept_bounds seed old).1
  omega

theorem header_kept (hlong : 0x1000 ≤ seed.length) (old : List DmaEntry) : 0x1000 ≤ seedKept seed old := by
  have hkept := (seedKept_bounds seed old).1
  have hend : 0x1000 ≤ seedDataEnd seed old := by
    simp only [seedDataEnd, Patch.crcEnd]
    omega
  omega

theorem startRom_spec (hlong : 0x1000 ≤ seed.length) (hpatched : 0x1000 ≤ patched.length) (old : List DmaEntry) :
    (startRom seed patched old).length = seedKept seed old ∧ (∀ j < 0x1000, byteAt (startRom seed patched old) j = byteAt patched j) ∧
      ∀ j, 0x1000 ≤ j → j < seedKept seed old → byteAt (startRom seed patched old) j = byteAt seed j := by
  have hkept := header_kept hlong old
  have hle := (seedKept_bounds seed old).2
  have hhead : (patched.take 0x1000).length = 0x1000 := by
    rw [List.length_take]
    omega
  have hseed : (seed.take (seedKept seed old)).length = seedKept seed old := by
    rw [List.length_take]
    omega
  have hin : 0 + (patched.take 0x1000).length ≤ (seed.take (seedKept seed old)).length := by omega
  refine ⟨(overwrite_length hin).trans hseed, fun j hj => ?_, fun j hj hlt => ?_⟩
  · have hbyte := byteAt_overwrite_inside hin (j := j) (by omega)
    rw [Nat.zero_add] at hbyte
    rw [startRom, hbyte, byteAt_take hj]
  · rw [startRom, byteAt_overwrite_outside hin (.inr (by omega)), byteAt_take hlt]

theorem StoredFile.span (h : StoredFile seed o) : o.vromStart ≤ o.vromEnd := by
  obtain ⟨data, hdata, -⟩ := h.whole
  exact fileData_span hdata

theorem fileData_zero {rom : Bytes} (hspan : o.vromStart ≤ o.vromEnd) (hzero : o.romEnd = 0) (hin : o.romStart.toNat + o.span ≤ rom.length) :
    fileData rom o = .ok (slice rom o.romStart.toNat o.span) := by
  have hlen : (o.vromEnd - o.vromStart).toNat = o.span := UInt32.toNat_sub_of_le _ _ hspan
  simp only [fileData, if_neg (UInt32.not_lt.mpr hspan), if_pos hzero, hlen, if_pos hin]

/-- A plain file has its whole span stored. -/
theorem StoredFile.plain (h : StoredFile seed o) (hzero : o.romEnd = 0) : o.storedEnd = o.romStart.toNat + o.span := by
  obtain ⟨data, hdata, -⟩ := h.whole
  have hspan := fileData_span hdata
  have hlen : (o.vromEnd - o.vromStart).toNat = o.span := UInt32.toNat_sub_of_le _ _ hspan
  simp only [fileData, if_neg (UInt32.not_lt.mpr hspan), if_pos hzero, hlen] at hdata
  split at hdata
  · rename_i hin
    rw [List.length_take, Nat.min_eq_left h.fits] at hin
    simp only [DmaEntry.storedEnd, hzero, ne_eq, not_true_eq_false, if_false, DmaEntry.span] at hin ⊢
    omega
  · cases hdata

theorem StoredFile.data_plain (h : StoredFile seed o) (hzero : o.romEnd = 0) :
    fileData seed o = .ok (slice seed o.romStart.toNat o.span) :=
  fileData_zero h.span hzero (h.plain hzero ▸ h.fits)

/-- What a file is, from the bytes that any ROM stores of it. -/
theorem StoredFile.elsewhere {rom : Bytes} (h : StoredFile seed o) (hlen : o.storedEnd ≤ rom.length)
    (hsame : ∀ j, o.Stores j → byteAt rom j = byteAt seed j) : ∃ data, fileData seed o = .ok data ∧ fileData rom o = .ok data ∧
      o.vromStart.toNat + data.length = o.vromEnd.toNat := by
  obtain ⟨data, hdata, hspan⟩ := h.whole
  have htake : (seed.take o.storedEnd).length = o.storedEnd := by
    rw [List.length_take, Nat.min_eq_left h.fits]
  have hseed : SameFrom o.romStart.toNat (seed.take o.storedEnd) seed :=
    ⟨by have hfits := h.fits; omega, fun j _ hj => (byteAt_take (by omega)).symm⟩
  have hrom : SameFrom o.romStart.toNat (seed.take o.storedEnd) rom := by
    refine ⟨by omega, fun j hlo hj => ?_⟩
    rw [htake] at hj
    rw [hsame j ⟨hlo, hj⟩, byteAt_take hj]
  exact ⟨data, hseed.fileData hdata, hrom.fileData hdata, hspan⟩

/-- The file that the table is, of the seed and of the image. -/
structure TableFile (table : UInt32) (old new : List DmaEntry) (i : Nat) (o e : DmaEntry) : Prop where
  before : old[i]? = some o
  now : new[i]? = some e
  used : o.used ∧ e.used
  starts : o.vromStart = table ∧ o.romStart = table ∧ o.romEnd = 0
  same : e.vromStart = table ∧ e.vromEnd = o.vromEnd
  fits : table.toNat + 16 * (new.length + 1) ≤ o.vromEnd.toNat

theorem PatchedImage.table_file (h : PatchedImage seed patched table old new) : ∃ i o e, TableFile table old new i o e := by
  obtain ⟨i, o, e, ho, he, hused, hvs, hrs, hzero, hevs, heve, hfits⟩ := h.tableFile
  have hplain := (h.plain e (List.mem_of_getElem? he) hused).1
  have hused' : o.used = true := by
    rw [DmaEntry.used] at hused ⊢
    rw [hrs, ← hevs, ← hplain]
    exact hused
  exact ⟨i, o, e, ho, he, ⟨hused', hused⟩, ⟨hvs, hrs, hzero⟩, ⟨hevs, heve⟩, hfits⟩

/-- What is kept of the seed holds the whole table, and a slot for the entry that ends it. -/
theorem TableFile.kept {i : Nat} {e : DmaEntry} (ht : TableFile table old new i o e) (hseed : WholeSeed seed table old) :
    table.toNat + 16 * (new.length + 1) ≤ seedKept seed old := by
  have hmem := List.mem_of_getElem? ht.before
  have hfile := hseed.files o hmem ht.used.1
  have hend := storedEnd_le_kept hmem ht.used.1 hfile.fits
  have hfits := ht.fits
  rw [hfile.plain ht.starts.2.2, DmaEntry.span, ht.starts.1, ht.starts.2.1] at hend
  omega

end Kept

/-- A ROM as `repack` leaves it: the files stored, and then their entries written. -/
structure Laid (seed original patched : Bytes) (table : UInt32) (old new : List DmaEntry) (mid : Bytes)
    (stored : List (FileStored × DmaEntry)) (rom : Bytes) : Prop where
  seedOk : WholeSeed seed table old
  imageOk : PatchedImage seed patched table old new
  built : Built seed table old original
  left : FilesLeft original patched (seedKept seed old) (startRom seed patched old) old new mid stored
  size : rom.length = mid.length
  outside : ∀ j, j < table.toNat ∨ table.toNat + 16 * new.length ≤ j → byteAt rom j = byteAt mid j
  records : ∀ (i : Nat) (w : DmaEntry), (stored.map (·.2))[i]? = some w → ∀ k < 16, byteAt rom (w.at_ + k) = byteAt w.bytes k

namespace Laid

variable {seed original patched mid rom : Bytes} {table : UInt32} {old new : List DmaEntry} {o e w : DmaEntry} {i j : Nat}
variable {stored : List (FileStored × DmaEntry)} {s : FileStored × DmaEntry}

section

variable (h : Laid seed original patched table old new mid stored rom)

include h

theorem newTable : TableAt patched table.toNat table.toNat 0x2000 new := dmaLoop_iff.mp h.imageOk.read

theorem seed_long : 0x1000 ≤ seed.length ∧ 0x1000 ≤ patched.length ∧ seedKept seed old ≤ mid.length ∧ patched.length < 2 ^ 32 := by
  have hsize := h.imageOk.size
  have hlimit := h.imageOk.limit
  have hgrows := h.left.grows.1
  have hstart := (@startRom_spec _ patched h.built.long (by omega) old).1
  exact ⟨h.built.long, by omega, by omega, by omega⟩

theorem stored_of_new (he : new[i]? = some e) : ∃ s, stored[i]? = some s ∧
    FileOutcome original patched (seedKept seed old) mid old[i]? e s := by
  have hi := (List.getElem?_eq_some_iff.mp he).1
  have hcount := h.left.count
  have hs := List.getElem?_eq_getElem (l := stored) (i := i) (by omega)
  exact ⟨_, hs, h.left.outcomes i e _ he hs⟩

theorem same_file (he : new[i]? = some e) (hs : stored[i]? = some s) :
    s.2.at_ = e.at_ ∧ s.2.vromStart = e.vromStart ∧ s.2.vromEnd = e.vromEnd :=
  (h.left.outcomes i e s he hs).same_file

theorem entry_at (he : new[i]? = some e) (hs : stored[i]? = some s) : s.2.at_ = table.toNat + 16 * i :=
  (h.same_file he hs).1.trans (h.newTable.at_eq he)

/-- What two files store is apart. -/
theorem places_apart {i' : Nat} {o' : DmaEntry} (ho : old[i]? = some o) (ho' : old[i']? = some o') (hne : i ≠ i') (hused : o.used)
    (hused' : o'.used) (hj : o.Stores j) : ¬o'.Stores j := by
  have hpairs := List.pairwise_filter.mp h.seedOk.places
  rw [List.pairwise_iff_getElem] at hpairs
  obtain ⟨hi, rfl⟩ := List.getElem?_eq_some_iff.mp ho
  obtain ⟨hi', rfl⟩ := List.getElem?_eq_some_iff.mp ho'
  rcases Nat.lt_or_gt_of_ne hne with hlt | hgt
  · exact hpairs i i' hi hi' hlt hused hused' j hj
  · exact fun hj' => hpairs i' i hi' hi hgt hused' hused j hj' hj

theorem spans_apart {i' : Nat} {o' : DmaEntry} (ho : old[i]? = some o) (ho' : old[i']? = some o') (hne : i ≠ i') (hused : o.used)
    (hused' : o'.used) (hj : o.Spans j) : ¬o'.Spans j := by
  have hapart : o.Apart o' ∨ o'.Apart o := by
    have hpairs := List.pairwise_filter.mp h.seedOk.spans
    rw [List.pairwise_iff_getElem] at hpairs
    obtain ⟨hi, rfl⟩ := List.getElem?_eq_some_iff.mp ho
    obtain ⟨hi', rfl⟩ := List.getElem?_eq_some_iff.mp ho'
    rcases Nat.lt_or_gt_of_ne hne with hlt | hgt
    · exact .inl (hpairs i i' hi hi' hlt hused hused')
    · exact .inr (hpairs i' i hi' hi hgt hused' hused)
  simp only [DmaEntry.Apart, UInt32.le_iff_toNat_le] at hapart
  simp only [DmaEntry.Spans] at hj ⊢
  omega

theorem plain_stores (ho : o ∈ old) (hused : o.used) (hzero : o.romEnd = 0) : o.Holds j ↔ o.Stores j := by
  rw [DmaEntry.Holds, DmaEntry.Stores, (h.seedOk.files o ho hused).plain hzero]

/-- A place that a file written over its old one has. -/
theorem rewrites_stores (hs : stored[i]? = some s) (hj : Rewrites old[i]? s j) :
    ∃ o e, old[i]? = some o ∧ new[i]? = some e ∧ o.used ∧ e.used ∧ o.romEnd = 0 ∧ o.Stores j ∧ s = (.inPlace, { o with at_ := e.at_ }) ∧
      o.vromStart = e.vromStart ∧ o.vromEnd = e.vromEnd ∧
      byteAt mid j = byteAt patched (o.vromStart.toNat + (j - o.romStart.toNat)) := by
  have hi : i < new.length := h.left.count ▸ (List.getElem?_eq_some_iff.mp hs).1
  obtain ⟨hplace, o, ho, hholds⟩ := hj
  have he := List.getElem?_eq_getElem hi
  have hmem := List.mem_of_getElem? ho
  cases h.left.outcomes i _ s he hs with
  | absent | kept | moved => nomatch hplace
  | inPlace hnew hused hprior hfile hzero hchanged hin hbytes =>
    obtain rfl := Option.some.inj (ho.symm.trans hprior)
    have hspan : o.span = DmaEntry.span new[i] := by rw [DmaEntry.span, hfile.1, hfile.2, DmaEntry.span]
    have hlow := hholds.1
    have hhigh := hholds.2
    have hbyte := hbytes (j - o.romStart.toNat) (by omega)
    rw [Nat.add_sub_cancel' hlow, ← hfile.1] at hbyte
    exact ⟨o, _, ho, he, hused, hnew, hzero, (h.plain_stores hmem hused hzero).mp hholds, rfl, hfile.1, hfile.2, hbyte⟩

/-- What a kept file stores is what the seed stores of it. -/
theorem kept_bytes (ho : old[i]? = some o) (hused : o.used) (hs : stored[i]? = some s) (hnot : s.1 ≠ .inPlace) (hj : o.Stores j)
    (hhead : 0x1000 ≤ j) : byteAt mid j = byteAt seed j := by
  have hfits := storedEnd_le_kept (List.mem_of_getElem? ho) hused (h.seedOk.files o (List.mem_of_getElem? ho) hused).fits
  obtain ⟨hlen, -, hbody⟩ := @startRom_spec _ patched h.seed_long.1 h.seed_long.2.1 old
  have hend := hj.2
  rw [h.left.leaves j (by omega) fun i' s' hs' hrewrites => ?_, hbody j hhead (by omega)]
  obtain ⟨o', e', ho', -, hused', -, -, hstores, hplace, -⟩ := h.rewrites_stores hs' hrewrites
  by_cases hsame : i = i'
  · subst hsame
    obtain rfl := Option.some.inj (hs.symm.trans hs')
    exact hnot (congrArg Prod.fst hplace)
  · exact h.places_apart ho ho' hsame hused hused' hj hstores

theorem header_bytes (hj : j < 0x1000) : byteAt rom j = byteAt patched j := by
  have hbehind := h.seedOk.behind
  obtain ⟨hlong, hpatched, hkept, -⟩ := h.seed_long
  obtain ⟨hlen, hhead, -⟩ := @startRom_spec _ patched hlong hpatched old
  have hroom := header_kept hlong old
  rw [h.outside j (.inl (by omega))]
  by_cases hfree : ∀ (i : Nat) (s : FileStored × DmaEntry), stored[i]? = some s → ¬Rewrites old[i]? s j
  · rw [h.left.leaves j (by omega) hfree, hhead j hj]
  · simp only [not_forall, not_not] at hfree
    obtain ⟨i, s, hs, hrewrites⟩ := hfree
    obtain ⟨o, e, ho, -, hused, -, -, hstores, -, -, -, hbyte⟩ := h.rewrites_stores hs hrewrites
    have hlow := hstores.1
    have hplace := (h.seedOk.header o (List.mem_of_getElem? ho) hused (by omega)).1
    rw [hbyte, ← hplace, Nat.add_sub_cancel' hlow]

theorem mid_short : mid.length < 2 ^ 32 - 1 := by
  have hroom := h.imageOk.room
  have hgrows := h.left.grows.2
  have hkept := (seedKept_bounds seed old).2
  have hlen := (@startRom_spec _ patched h.seed_long.1 h.seed_long.2.1 old).1
  omega

theorem absent_same (he : new[i]? = some e) (hnot : ¬e.used) : absentEntry old[i]? e = e := by
  have hprior : priorOf old[i]? e = some e :=
    Option.filter_eq_some_iff.mpr ⟨h.imageOk.absent i e he hnot, decide_eq_true ⟨rfl, rfl⟩⟩
  rw [absentEntry, hprior]
  rfl

theorem used_iff (he : new[i]? = some e) (hs : stored[i]? = some s) : s.2.used = true ↔ e.used = true := by
  cases h.left.outcomes i e s he hs with
  | absent hnot =>
    have hsame := h.absent_same he hnot
    simp only [hsame]
  | kept he ho hprior hfile hsame => exact iff_of_true ho he
  | inPlace he ho hprior hfile hzero hchanged hin hbytes => exact iff_of_true ho he
  | @moved a he hnone ha hin hbytes =>
    have hshort := h.mid_short
    refine iff_of_true (decide_eq_true fun heq => ?_) he
    have hval := congrArg UInt32.toNat heq
    have hmod : (UInt32.ofNat a).toNat = a := by rw [UInt32.toNat_ofNat', Nat.mod_eq_of_lt (by omega)]
    rw [hmod] at hval
    have hlast : a = 0xFFFFFFFF := hval
    omega

theorem table_stores (ht : TableFile table old new i o e) : o.Stores j ↔ table.toNat ≤ j ∧ j < o.vromEnd.toNat := by
  have hfits := ht.fits
  rw [DmaEntry.Stores, (h.seedOk.files o (List.mem_of_getElem? ht.before) ht.used.1).plain ht.starts.2.2, DmaEntry.span, ht.starts.1,
    ht.starts.2.1]
  omega

theorem oldRecord (hrecord : InRecord (old.filter (·.used)) j) : table.toNat ≤ j ∧ j < table.toNat + 16 * old.length := by
  obtain ⟨f, hf, hlow, hhigh⟩ := hrecord
  obtain ⟨k, hk, hget⟩ := List.mem_iff_getElem.mp (List.mem_of_mem_filter hf)
  have hat := (dmaLoop_iff.mp h.seedOk.read).at_eq (List.getElem?_eq_some_iff.mpr ⟨hk, hget⟩)
  omega

/-- What the image has of a kept file is what the seed has of it. -/
theorem original_file (ho : old[i]? = some o) (hused : o.used) : ∃ data, fileData seed o = .ok data ∧
    o.vromStart.toNat + data.length = o.vromEnd.toNat ∧ ∀ k < data.length, ¬InRecord (old.filter (·.used)) (o.vromStart.toNat + k) →
      byteAt original (o.vromStart.toNat + k) = byteAt data k := by
  have hmem : ∀ f ∈ old.filter (·.used), StoredFile seed f := fun f hf =>
    h.seedOk.files f (List.mem_of_mem_filter hf) (List.mem_filter.mp hf).2
  have hover : ∀ f ∈ old.filter (·.used), ¬FileOverruns seed f := by
    intro f hf
    obtain ⟨data, hdata, -, hspan⟩ := (hmem f hf).elsewhere (hmem f hf).fits fun _ _ => rfl
    refine fileData_within.mp fun data' hdata' => ?_
    obtain rfl := Except.ok.inj (hdata.symm.trans hdata')
    omega
  have hfile := List.mem_filter.mpr ⟨List.mem_of_getElem? ho, hused⟩
  obtain ⟨data, hdata, -, hbytes⟩ := h.built.file h.seedOk.spans hover hfile
  obtain ⟨data', hdata', -, hspan⟩ := (hmem o hfile).elsewhere (hmem o hfile).fits fun _ _ => rfl
  obtain rfl := Except.ok.inj (hdata.symm.trans hdata')
  exact ⟨data, hdata, hspan, hbytes⟩

/-- Behind its entries the table is the image's. -/
theorem slack_bytes (ht : TableFile table old new i o e) (hlow : table.toNat + 16 * new.length ≤ j)
    (hhigh : j < o.vromEnd.toNat) : byteAt mid j = byteAt patched j := by
  obtain ⟨s, hs, houtcome⟩ := h.stored_of_new ht.now
  have hbehind := h.seedOk.behind
  have hgrown := h.imageOk.grown
  have hstores := (h.table_stores ht).mpr ⟨by omega, hhigh⟩
  have hspan : table.toNat + e.span = o.vromEnd.toNat := by
    rw [DmaEntry.span, ht.same.1, ht.same.2]
    omega
  cases houtcome with
  | absent hnot => exact absurd ht.used.2 hnot
  | kept he ho hprior hfile hsame =>
    obtain rfl := Option.some.inj (ht.before.symm.trans hprior)
    obtain ⟨data, hdata, hlen, hbytes⟩ := h.original_file ht.before ht.used.1
    have hplain := (h.seedOk.files o (List.mem_of_getElem? ht.before) ht.used.1).data_plain ht.starts.2.2
    obtain rfl := Except.ok.inj (hdata.symm.trans hplain)
    have hoff : table.toNat + (j - table.toNat) = j := Nat.add_sub_cancel' (by omega)
    have hsum : o.span = e.span := by rw [DmaEntry.span, hfile.1, hfile.2, DmaEntry.span]
    have hseed : byteAt original j = byteAt seed j := by
      have hbyte := hbytes (j - table.toNat) (by rw [ht.starts.1] at hlen; omega) fun hrecord => by
        have hlast := (h.oldRecord hrecord).2
        rw [ht.starts.1] at hlast
        omega
      rw [ht.starts.1, ht.starts.2.1, byteAt_slice (by omega), hoff] at hbyte
      exact hbyte
    have hpatched : byteAt original j = byteAt patched j := by
      have hbyte := congrArg (byteAt · (j - table.toNat)) hsame.2
      rw [byteAt_slice (by omega), byteAt_slice (by omega), ht.same.1, hoff] at hbyte
      exact hbyte
    rw [h.kept_bytes ht.before ht.used.1 hs (fun heq => by cases heq) hstores (by omega), ← hseed, hpatched]
  | inPlace he ho hprior hfile hzero hchanged hin hbytes =>
    obtain rfl := Option.some.inj (ht.before.symm.trans hprior)
    have hbyte := hbytes (j - table.toNat) (by omega)
    rw [ht.starts.2.1, ht.same.1, Nat.add_sub_cancel' (by omega)] at hbyte
    exact hbyte
  | moved he hnone ha hin hbytes =>
    exact absurd ht.starts.2.2 (hnone o ht.before ⟨ht.starts.1.trans ht.same.1.symm, ht.same.2.symm⟩ ht.used.1).1

/-- The files of the ROM's own table. -/
theorem mem_files (hw : w ∈ (stored.map (·.2)).filter (·.used)) : ∃ (i : Nat) (e : DmaEntry) (s : FileStored × DmaEntry), new[i]? = some e ∧ stored[i]? = some s ∧ s.2 = w ∧ e.used ∧
    FileOutcome original patched (seedKept seed old) mid old[i]? e s := by
  obtain ⟨hmem, hused⟩ := List.mem_filter.mp hw
  obtain ⟨s, hs, rfl⟩ := List.mem_map.mp hmem
  obtain ⟨i, hi, hget⟩ := List.mem_iff_getElem.mp hs
  have hs' : stored[i]? = some s := List.getElem?_eq_some_iff.mpr ⟨hi, hget⟩
  have he := List.getElem?_eq_getElem (l := new) (i := i) (h.left.count ▸ hi)
  exact ⟨i, _, s, he, hs', rfl, (h.used_iff he hs').mp hused, h.left.outcomes i _ s he hs'⟩

theorem files_mem (he : new[i]? = some e) (hs : stored[i]? = some s) (hused : e.used) : s.2 ∈ (stored.map (·.2)).filter (·.used) :=
  List.mem_filter.mpr ⟨List.mem_map_of_mem (List.mem_of_getElem? hs), (h.used_iff he hs).mpr hused⟩

/-- The table is the image's, but for the entries of its files. -/
theorem table_bytes (ht : TableFile table old new i o e) (hlow : table.toNat ≤ j) (hhigh : j < o.vromEnd.toNat)
    (hnot : ¬InRecord ((stored.map (·.2)).filter (·.used)) j) : byteAt rom j = byteAt patched j := by
  by_cases hslack : table.toNat + 16 * new.length ≤ j
  · rw [h.outside j (.inr hslack)]
    exact h.slack_bytes ht hslack hhigh
  · obtain ⟨n, k, hk, rfl⟩ : ∃ n k, k < 16 ∧ j = table.toNat + 16 * n + k :=
      ⟨(j - table.toNat) / 16, (j - table.toNat) % 16, Nat.mod_lt _ (by omega), by omega⟩
    have hf := List.getElem?_eq_getElem (l := new) (i := n) (by omega)
    obtain ⟨s, hs, houtcome⟩ := h.stored_of_new hf
    have hat := h.entry_at hf hs
    have hbyte := h.records n s.2 (by rw [List.getElem?_map, hs]; rfl) k hk
    rw [hat] at hbyte
    by_cases hused : (new[n]).used = true
    · exact absurd ⟨s.2, h.files_mem hf hs hused, by omega, by omega⟩ hnot
    · have hread := (h.newTable.reads n _ hf).1
      rw [hbyte, bytes_of_dmaEntry hread hk]
      cases houtcome with
      | absent hnone => rw [h.absent_same hf hused]
      | kept he => exact absurd he hused
      | inPlace he => exact absurd he hused
      | moved he => exact absurd he hused

variable {t : DmaEntry} {n : Nat} {f : DmaEntry}

/-- What a file other than the table stores is behind or before the table. -/
theorem off_table (ht : TableFile table old new n t f) (ho : old[i]? = some o) (hne : i ≠ n) (hused : o.used) (hj : o.Stores j) :
    byteAt rom j = byteAt mid j := by
  have hout := h.places_apart ho ht.before hne hused ht.used.1 hj
  rw [h.table_stores ht] at hout
  have hfits := ht.fits
  exact h.outside j (by omega)

/-- A kept file other than the table is the same in the image as in the seed. -/
theorem kept_image (ht : TableFile table old new n t f) (ho : old[i]? = some o) (hne : i ≠ n) (hused : o.used)
    (hfile : o.vromStart = e.vromStart ∧ o.vromEnd = e.vromEnd)
    (hsame : Untouched original patched e) :
    ∃ data, fileData seed o = .ok data ∧ o.vromStart.toNat + data.length = o.vromEnd.toNat ∧
      ∀ k < data.length, byteAt data k = byteAt patched (o.vromStart.toNat + k) := by
  obtain ⟨data, hdata, hlen, hbytes⟩ := h.original_file ho hused
  have hspan : e.span = data.length := by
    rw [DmaEntry.span, ← hfile.1, ← hfile.2]
    omega
  refine ⟨data, hdata, hlen, fun k hk => ?_⟩
  rw [← hbytes k hk fun hrecord => ?_]
  · have hbyte := congrArg (byteAt · k) hsame.2
    rw [byteAt_slice (by omega), byteAt_slice (by omega), ← hfile.1] at hbyte
    exact hbyte
  · have hin := h.oldRecord hrecord
    have hgrown := h.imageOk.grown
    have hfits := ht.fits
    refine h.spans_apart ho ht.before hne hused ht.used.1 (j := o.vromStart.toNat + k) ⟨by omega, by omega⟩ ⟨?_, by omega⟩
    rw [ht.starts.1]
    exact hin.1

theorem stored_fits (ho : old[i]? = some o) (hused : o.used) : o.storedEnd ≤ rom.length := by
  have hmem := List.mem_of_getElem? ho
  have hend := storedEnd_le_kept hmem hused (h.seedOk.files o hmem hused).fits
  have hkept := h.seed_long.2.2.1
  rw [h.size]
  omega

omit h in
/-- A file that stands plain in the ROM, byte for byte the image's. -/
theorem plain_holds {a : Nat} (hspan : w.vromStart ≤ w.vromEnd) (hzero : w.romEnd = 0) (ha : w.romStart.toNat = a)
    (hin : a + w.span ≤ rom.length) (hbytes : ∀ k < w.span, ¬InRecord ((stored.map (·.2)).filter (·.used)) (w.vromStart.toNat + k) →
      byteAt rom (a + k) = byteAt patched (w.vromStart.toNat + k)) : ∃ data, fileData rom w = .ok data ∧
      w.vromStart.toNat + data.length = w.vromEnd.toNat ∧
      ∀ k < data.length, ¬InRecord ((stored.map (·.2)).filter (·.used)) (w.vromStart.toNat + k) →
        byteAt data k = byteAt patched (w.vromStart.toNat + k) := by
  have hle := UInt32.le_iff_toNat_le.mp hspan
  have hlen := slice_length hin
  refine ⟨slice rom a w.span, ?_, ?_, fun k hk hnot => ?_⟩
  · rw [← ha] at hin ⊢
    exact fileData_zero hspan hzero hin
  · rw [hlen, DmaEntry.span]
    omega
  · rw [hlen] at hk
    rw [byteAt_slice hk]
    exact hbytes k hk hnot

/-- What the ROM has of each of its files. -/
theorem file_holds (hw : w ∈ (stored.map (·.2)).filter (·.used)) : ∃ data, fileData rom w = .ok data ∧
    w.vromStart.toNat + data.length = w.vromEnd.toNat ∧
    ∀ k < data.length, ¬InRecord ((stored.map (·.2)).filter (·.used)) (w.vromStart.toNat + k) →
      byteAt data k = byteAt patched (w.vromStart.toNat + k) := by
  obtain ⟨n, t, f, ht⟩ := h.imageOk.table_file
  obtain ⟨i, e, s, he, hs, rfl, hused, houtcome⟩ := h.mem_files hw
  have hbehind := h.seedOk.behind
  -- the table itself, kept or rewritten
  have htable : i = n → ∀ o, old[i]? = some o → o.used → o.romEnd = 0 → ∃ data, fileData rom { o with at_ := e.at_ } = .ok data ∧
      o.vromStart.toNat + data.length = o.vromEnd.toNat ∧
      ∀ k < data.length, ¬InRecord ((stored.map (·.2)).filter (·.used)) (o.vromStart.toNat + k) →
        byteAt data k = byteAt patched (o.vromStart.toNat + k) := by
    rintro rfl o ho hold hzero
    obtain rfl := Option.some.inj (ht.before.symm.trans ho)
    have hfile := h.seedOk.files t (List.mem_of_getElem? ho) hold
    have hend := h.stored_fits ho hold
    rw [hfile.plain hzero] at hend
    refine plain_holds (a := t.romStart.toNat) (w := { t with at_ := e.at_ }) hfile.span hzero rfl hend fun k hk hnot => ?_
    have hsum : k < t.vromEnd.toNat - t.vromStart.toNat := hk
    have hbyte := h.table_bytes ht (j := table.toNat + k) (by omega) (by rw [ht.starts.1] at hsum; omega) (ht.starts.1 ▸ hnot)
    rw [ht.starts.1, ht.starts.2.1]
    exact hbyte
  cases houtcome with
  | absent hnot => exact absurd hused hnot
  | @kept o _ hold hprior hfile hsame =>
    have hseed := h.seedOk.files o (List.mem_of_getElem? hprior) hold
    by_cases hin : i = n
    · subst hin
      obtain rfl := Option.some.inj (ht.before.symm.trans hprior)
      exact htable rfl t hprior hold ht.starts.2.2
    · obtain ⟨data, hdata, hlen, hbytes⟩ := h.kept_image ht hprior hin hold hfile hsame
      have hrom : ∀ j, o.Stores j → 0x1000 ≤ j → byteAt rom j = byteAt seed j := by
        intro j hj hhead
        rw [h.off_table ht hprior hin hold hj]
        exact h.kept_bytes hprior hold hs (fun heq => (nomatch heq)) hj hhead
      have hfits := h.stored_fits hprior hold
      by_cases hhead : o.romStart.toNat < 0x1000
      · obtain ⟨hplace, hzero⟩ := h.seedOk.header o (List.mem_of_getElem? hprior) hold hhead
        have hplain := Except.ok.inj (hdata.symm.trans (hseed.data_plain hzero))
        have hstored := hseed.plain hzero
        refine plain_holds (a := o.romStart.toNat) (w := { o with at_ := e.at_ }) hseed.span hzero rfl (by rw [hstored] at hfits; exact hfits)
          fun k hk _ => ?_
        have hk' : k < o.span := hk
        have hsum : data.length = o.span := by
          rw [DmaEntry.span]
          omega
        rw [← hbytes k (by omega)]
        by_cases hlow : o.romStart.toNat + k < 0x1000
        · rw [h.header_bytes hlow, hplace, hbytes k (by omega)]
        · rw [hrom _ ⟨by omega, by omega⟩ (by omega), hplain, byteAt_slice hk']
      · obtain ⟨data', hdata', hthere, -⟩ := hseed.elsewhere hfits fun j hj => hrom j hj (by have hlow := hj.1; omega)
        obtain rfl := Except.ok.inj (hdata.symm.trans hdata')
        exact ⟨data, hthere, hlen, fun k hk _ => hbytes k hk⟩
  | @inPlace o _ hold hprior hfile hzero hchanged hroom hbytes =>
    have hseed := h.seedOk.files o (List.mem_of_getElem? hprior) hold
    have hsum : o.span = e.span := by rw [DmaEntry.span, hfile.1, hfile.2, DmaEntry.span]
    by_cases hin : i = n
    · exact htable hin o hprior hold hzero
    · have hfits := h.stored_fits hprior hold
      have hstored := hseed.plain hzero
      refine plain_holds (a := o.romStart.toNat) (w := { o with at_ := e.at_ }) hseed.span hzero rfl (by rw [hstored] at hfits; exact hfits)
        fun k hk _ => ?_
      have hk' : k < o.span := hk
      rw [h.off_table ht hprior hin hold (j := o.romStart.toNat + k) ⟨by omega, by omega⟩, hbytes k (by omega), hfile.1]
  | @moved a _ hnone ha hroom hbytes =>
    have hplain := h.imageOk.plain e (List.mem_of_getElem? he) hused
    have hshort := h.mid_short
    have hval : (UInt32.ofNat a).toNat = a := by rw [UInt32.toNat_ofNat', Nat.mod_eq_of_lt (by omega)]
    have hsize := h.size
    refine plain_holds (w := { e with romStart := .ofNat a, romEnd := 0 }) hplain.2.2 rfl hval (by rw [hsize]; exact hroom)
      fun k hk _ => ?_
    have hend := storedEnd_le_kept (List.mem_of_getElem? ht.before) ht.used.1
      (h.seedOk.files t (List.mem_of_getElem? ht.before) ht.used.1).fits
    have hlast : ¬t.Stores (a + k) := fun hj => by
      have hhigh := hj.2
      omega
    rw [h.table_stores ht] at hlast
    have hfits := ht.fits
    rw [h.outside _ (by omega), hbytes k hk]

/-- The table is read back as it was written. -/
theorem table_read : TableAt rom table.toNat table.toNat 0x2000 (stored.map (·.2)) := by
  obtain ⟨n, t, f, ht⟩ := h.imageOk.table_file
  obtain ⟨hcount, hreads, z, hz, hends⟩ := h.newTable
  have hlen : (stored.map (·.2)).length = new.length := by rw [List.length_map, h.left.count]
  have hfits := ht.fits
  have hroom := h.stored_fits ht.before ht.used.1
  rw [(h.seedOk.files t (List.mem_of_getElem? ht.before) ht.used.1).plain ht.starts.2.2, DmaEntry.span, ht.starts.1, ht.starts.2.1] at hroom
  refine ⟨by omega, fun i w hw => ?_, z, ?_, hends⟩
  · have hi : i < new.length := hlen ▸ (List.getElem?_eq_some_iff.mp hw).1
    have he := List.getElem?_eq_getElem hi
    obtain ⟨s, hs, rfl⟩ : ∃ s, stored[i]? = some s ∧ s.2 = w := by simpa using hw
    obtain ⟨-, hvs, hve⟩ := h.same_file he hs
    have hat := h.entry_at he hs
    have hread := @dmaEntry_of_bytes rom s.2 (by omega) (h.records i s.2 hw)
    rw [hat] at hread
    refine ⟨hread, fun hend => (hreads i _ he).2 ⟨hvs ▸ hend.1, hve ▸ hend.2.1, ?_⟩⟩
    rw [h.newTable.at_eq he, ← hat]
    exact hend.2.2
  · rw [hlen]
    have hat : z.at_ = table.toNat + 16 * new.length := by rw [(dmaEntry_some hz).2]
    rw [← hat]
    refine dmaEntry_of_bytes (by omega) fun k hk => ?_
    rw [← bytes_of_dmaEntry hz hk, hat, h.outside _ (.inr (by omega)), h.slack_bytes ht (by omega) (by omega)]

theorem imageEnd_eq : imageEnd ((stored.map (·.2)).filter (·.used)) = imageEnd (new.filter (·.used)) := by
  have hle : ∀ {files : List DmaEntry} {m : Nat}, (∀ e ∈ files, e.vromEnd.toNat ≤ m) → imageEnd files ≤ m := by
    intro files m hall
    refine foldl_max_le.mpr ⟨Nat.zero_le m, fun x hx => ?_⟩
    obtain ⟨e, he, rfl⟩ := List.mem_map.mp hx
    exact hall e he
  refine Nat.le_antisymm (hle fun w hw => ?_) (hle fun e he => ?_)
  · obtain ⟨i, e, s, he, hs, rfl, hused, -⟩ := h.mem_files hw
    rw [(h.same_file he hs).2.2]
    exact imageEnd_le (List.mem_filter.mpr ⟨List.mem_of_getElem? he, hused⟩)
  · obtain ⟨hmem, hused⟩ := List.mem_filter.mp he
    obtain ⟨i, hi, hget⟩ := List.mem_iff_getElem.mp hmem
    have he' := List.getElem?_eq_some_iff.mpr ⟨hi, hget⟩
    obtain ⟨s, hs, -⟩ := h.stored_of_new he'
    rw [← (h.same_file he' hs).2.2]
    exact imageEnd_le (h.files_mem he' hs hused)

theorem imageOf : ImageOf rom table (stored.map (·.2)) patched := by
  obtain ⟨n, t, f, ht⟩ := h.imageOk.table_file
  obtain ⟨s, hs, houtcome⟩ := h.stored_of_new ht.now
  have hroom := h.stored_fits ht.before ht.used.1
  have hkept := h.seed_long.2.2.1
  have hhead := header_kept h.seed_long.1 old
  refine ⟨dmaLoop_iff.mpr h.table_read, ⟨s.2, List.mem_map_of_mem (List.mem_of_getElem? hs), ?_⟩, ?_, ?_, ?_,
    fun j hj => h.header_bytes hj, fun w hw => h.file_holds hw, fun w hw => ?_, fun j hj hnone => h.imageOk.rest j hj fun e he hspan => ?_⟩
  · refine ⟨(h.same_file ht.now hs).2.1.trans ht.same.1, ?_⟩
    cases houtcome with
    | absent hnot => exact absurd ht.used.2 hnot
    | kept he ho hprior hfile hsame =>
      obtain rfl := Option.some.inj (ht.before.symm.trans hprior)
      exact ht.starts.2.1
    | inPlace he ho hprior hfile hzero hchanged hin hbytes =>
      obtain rfl := Option.some.inj (ht.before.symm.trans hprior)
      exact ht.starts.2.1
    | moved he hnone ha hin hbytes =>
      exact absurd ht.starts.2.2 (hnone t ht.before ⟨ht.starts.1.trans ht.same.1.symm, ht.same.2.symm⟩ ht.used.1).1
  · rw [h.imageEnd_eq, h.imageOk.size]
  · rw [h.imageEnd_eq]
    exact h.imageOk.limit
  · rw [h.size]
    omega
  · obtain ⟨i, e, s, he, hs, rfl, hused, -⟩ := h.mem_files hw
    obtain ⟨hat, hvs, hve⟩ := h.same_file he hs
    have hread := (h.newTable.reads i e he).1
    have hplain := h.imageOk.plain e (List.mem_of_getElem? he) hused
    have hsame : s.2.plain.bytes = e.bytes := by
      rw [DmaEntry.plain, DmaEntry.bytes, DmaEntry.bytes, hvs, hve, hplain.1, hplain.2.1]
    rw [hsame, hat, h.newTable.at_eq he]
    exact ⟨(dmaEntry_some hread).1, fun k hk => (bytes_of_dmaEntry hread hk).symm⟩
  · obtain ⟨hmem, hused⟩ := List.mem_filter.mp he
    obtain ⟨i, hi, hget⟩ := List.mem_iff_getElem.mp hmem
    have he' := List.getElem?_eq_some_iff.mpr ⟨hi, hget⟩
    obtain ⟨s, hs, -⟩ := h.stored_of_new he'
    obtain ⟨-, hvs, hve⟩ := h.same_file he' hs
    refine hnone s.2 (h.files_mem he' hs hused) ?_
    rw [DmaEntry.Spans, hvs, hve]
    exact hspan

/-- What the patch left alone of a file in the header is what the seed has there. -/
theorem header_kept_bytes (ho : old[i]? = some o) (hused : o.used) (hfile : o.vromStart = e.vromStart ∧ o.vromEnd = e.vromEnd)
    (hsame : Untouched original patched e) (hj : o.Stores j) (hhead : j < 0x1000) : byteAt rom j = byteAt seed j := by
  have hseed := h.seedOk.files o (List.mem_of_getElem? ho)
  have hlow := hj.1
  obtain ⟨hplace, hzero⟩ := h.seedOk.header o (List.mem_of_getElem? ho) hused (by omega)
  obtain ⟨data, hdata, hlen, hbytes⟩ := h.original_file ho hused
  obtain rfl := Except.ok.inj (hdata.symm.trans ((hseed hused).data_plain hzero))
  have hhigh := hj.2
  rw [(hseed hused).plain hzero] at hhigh
  have hspan : o.span = e.span := by rw [DmaEntry.span, hfile.1, hfile.2, DmaEntry.span]
  have hoff : o.vromStart.toNat + (j - o.romStart.toNat) = j := by
    rw [← hplace]
    omega
  have hfits : (slice seed o.romStart.toNat o.span).length = o.span := by
    refine slice_length ?_
    rw [← (hseed hused).plain hzero]
    exact (hseed hused).fits
  have hbyte := hbytes (j - o.romStart.toNat) (by omega) fun hrecord => by
    have hbehind := h.seedOk.behind
    have hfirst := (h.oldRecord hrecord).1
    omega
  have hpatched := congrArg (byteAt · (j - o.romStart.toNat)) hsame.2
  rw [byteAt_slice (by omega), byteAt_slice (by omega), ← hfile.1, hoff] at hpatched
  rw [hoff, byteAt_slice (by omega), Nat.add_sub_cancel' hlow] at hbyte
  rw [h.header_bytes hhead, ← hpatched, hbyte]

/-- A file that was left alone keeps its entry and the bytes the seed stores of it. -/
theorem untouched_kept (ho : old[i]? = some o) (he : new[i]? = some e) (hused : o.used ∧ e.used)
    (hfile : o.vromStart = e.vromStart ∧ o.vromEnd = e.vromEnd)
    (hsame : slice original e.vromStart.toNat e.span = slice patched e.vromStart.toNat e.span) :
    dmaEntry rom (table.toNat + 16 * i) = some o ∧ ∀ j, o.Stores j →
      j < table.toNat ∨ table.toNat + 16 * new.length ≤ j → byteAt rom j = byteAt seed j := by
  obtain ⟨s, hs, houtcome⟩ := h.stored_of_new he
  have hread := (h.table_read.reads i s.2 (by rw [List.getElem?_map, hs]; rfl)).1
  have hend : e.vromEnd.toNat ≤ original.length := by
    have hle : o.vromEnd.toNat ≤ imageEnd (old.filter (·.used)) :=
      imageEnd_le (List.mem_filter.mpr ⟨List.mem_of_getElem? ho, hused.1⟩)
    rw [← hfile.2, h.built.size]
    omega
  have hat : o.at_ = e.at_ := ((dmaLoop_iff.mp h.seedOk.read).at_eq ho).trans (h.newTable.at_eq he).symm
  cases houtcome with
  | absent hnot => exact absurd hused.2 hnot
  | kept _ _ hprior _ _ =>
    obtain rfl := Option.some.inj (ho.symm.trans hprior)
    rw [← hat] at hread
    refine ⟨hread, fun j hj hout => ?_⟩
    by_cases hhead : j < 0x1000
    · exact h.header_kept_bytes ho hused.1 hfile ⟨hend, hsame⟩ hj hhead
    · rw [h.outside j hout]
      exact h.kept_bytes ho hused.1 hs (fun heq => (nomatch heq)) hj (by omega)
  | inPlace _ _ _ _ _ hchanged => exact absurd ⟨hend, hsame⟩ hchanged
  | moved _ hnone => exact absurd ⟨hend, hsame⟩ (hnone o ho hfile hused.1).2

end

end Laid

/-- A patched image that is laid out over its seed decompresses to the image again, and
the files that the patch left alone stay as the seed stores them. -/
theorem repack_round_trip {seed original patched : Bytes} {table : UInt32} {old new : List DmaEntry}
    (hseed : WholeSeed seed table old) (himage : PatchedImage seed patched table old new)
    (horiginal : yaz0Dmadata seed table = .ok original) :
    ∃ r, repack seed original patched table = .ok r ∧ yaz0Dmadata r.rom table = .ok patched ∧
      ∀ (i : Nat) (o e : DmaEntry), old[i]? = some o → new[i]? = some e → o.used ∧ e.used →
        o.vromStart = e.vromStart ∧ o.vromEnd = e.vromEnd →
        slice original e.vromStart.toNat e.span = slice patched e.vromStart.toNat e.span →
        dmaEntry r.rom (table.toNat + 16 * i) = some o ∧ ∀ j, o.Stores j →
          j < table.toNat ∨ table.toNat + 16 * new.length ≤ j → byteAt r.rom j = byteAt seed j := by
  obtain ⟨entries, hbuilt⟩ := built_of_ok horiginal
  obtain rfl := Except.ok.inj (hbuilt.read.symm.trans hseed.read)
  have hpatched : 0x1000 ≤ patched.length := by
    rw [himage.size]
    omega
  obtain ⟨hlen, -, -⟩ := startRom_spec hbuilt.long hpatched entries
  obtain ⟨n, t, f, ht⟩ := himage.table_file
  have hroom := ht.kept hseed
  have hspan : ∀ e ∈ new, e.used → e.vromStart ≤ e.vromEnd ∧ e.vromEnd.toNat ≤ patched.length := by
    intro e he hused
    have hle : e.vromEnd.toNat ≤ imageEnd (new.filter (·.used)) := imageEnd_le (List.mem_filter.mpr ⟨he, hused⟩)
    rw [himage.size]
    exact ⟨(himage.plain e he hused).2.2, by omega⟩
  have hplain : ∀ o ∈ entries, o.used → o.romEnd = 0 → o.romStart.toNat + o.span ≤ seedKept seed entries := by
    intro o ho hused hzero
    have hfile := hseed.files o ho hused
    rw [← hfile.plain hzero]
    exact storedEnd_le_kept ho hused hfile.fits
  have hapart : entries.Pairwise PlainApart := by
    refine (List.pairwise_filter.mp hseed.places).imp_of_mem fun {o o'} ho ho' hpair hused hzero hused' hzero' j hj hj' => ?_
    rw [DmaEntry.Holds, ← (hseed.files o ho hused).plain hzero] at hj
    rw [DmaEntry.Holds, ← (hseed.files o' ho' hused').plain hzero'] at hj'
    exact hpair hused hused' j hj hj'
  obtain ⟨mid, stored, hfiles, hleft⟩ := @storeFiles_ok original patched (startRom seed patched entries) (seedKept seed entries) entries new
    (Nat.le_of_eq hlen.symm) hspan hplain hapart
  have hcount : (stored.map (·.2)).length = new.length := by rw [List.length_map, hleft.count]
  have hgrows := hleft.grows.1
  have hat : ∀ (i : Nat) (w : DmaEntry), (stored.map (·.2))[i]? = some w → w.at_ = table.toNat + 16 * i := by
    intro i w hw
    obtain ⟨s, hs, rfl⟩ : ∃ s, stored[i]? = some s ∧ s.2 = w := by simpa using hw
    have hi : i < new.length := hcount ▸ (List.getElem?_eq_some_iff.mp hw).1
    have he := List.getElem?_eq_getElem hi
    rw [(hleft.outcomes i _ s he hs).same_file.1, (dmaLoop_iff.mp himage.read).at_eq he]
  obtain ⟨rom, hrom, hsize, houtside, hrecords⟩ := @writeEntries_ok mid table.toNat (stored.map (·.2)) hat (by omega)
  have hlaid : Laid seed original patched table entries new mid stored rom :=
    ⟨hseed, himage, hbuilt, hleft, hsize, fun j hj => houtside j (by rwa [hcount]), hrecords⟩
  have hfound : entries.any (fun o => o.vromStart = table ∧ o.romStart = table ∧ o.romEnd = 0) = true :=
    List.any_eq_true.mpr ⟨t, List.mem_of_getElem? ht.before, decide_eq_true ht.starts⟩
  have hhead := header_kept hbuilt.long entries
  obtain ⟨r, hr, rfl⟩ : ∃ r, repack seed original patched table = .ok r ∧ r.rom = rom := by
    refine ⟨⟨rom, stored.countP (·.1 = .kept),
      (stored.filter (·.1 = .moved)).map fun s => (s.2.vromStart, s.2.vromEnd, s.2.romStart)⟩, ?_, rfl⟩
    rw [repack, hseed.read, himage.read]
    simp only [hfound, not_true_eq_false, if_false, if_neg (Nat.not_lt.mpr hhead), if_neg (Nat.not_lt.mpr hpatched)]
    rw [startRom] at hfiles
    rw [hfiles]
    simp only [bind, Except.bind, hrom]
    rfl
  exact ⟨r, hr, hlaid.imageOf.decompresses, fun i o e ho he hused hfile hsame => hlaid.untouched_kept ho he hused hfile hsame⟩

section Address

variable {rom : Bytes} {table : UInt32} {entries : List DmaEntry}

end Address

section Example

/-- A table of itself and of a file of four bytes behind it. -/
def demoEntries : List DmaEntry := [⟨0x1000, 0x1000, 0x1030, 0x1000, 0⟩, ⟨0x1010, 0x1030, 0x1034, 0x1030, 0⟩]

def demoSeed (d : Bytes) : Bytes := List.replicate 0x1000 0 ++ demoEntries.flatMap (·.bytes) ++ List.replicate 16 0 ++ d

def demoImage (d : Bytes) : Bytes := resize (demoSeed d) 0x101000

variable {d : Bytes}

theorem demoSeed_length (hd : d.length = 4) : (demoSeed d).length = 0x1034 := by
  simp only [demoSeed, demoEntries, List.length_append, List.length_replicate, List.flatMap_cons, List.flatMap_nil, bytes_length,
    List.length_nil, hd]

theorem byteAt_demoImage (d : Bytes) (j : Nat) (hj : j < 0x101000) : byteAt (demoImage d) j = byteAt (demoSeed d) j := byteAt_resize hj

theorem demoImage_length (d : Bytes) : (demoImage d).length = 0x101000 := resize_length ..

theorem dmaEntry_demoImage (hd : d.length = 4) {at_ : Nat} (hin : at_ + 16 ≤ 0x1034) :
    dmaEntry (demoImage d) at_ = dmaEntry (demoSeed d) at_ := by
  have hword : ∀ i, i + 4 ≤ 0x1034 → readBe32 (demoImage d) i = readBe32 (demoSeed d) i := fun i hi =>
    readBe32_congr fun j _ hj => byteAt_demoImage d j (by omega)
  have hlen := demoSeed_length hd
  have hlen' := demoImage_length d
  rw [@dmaEntry_eq (demoImage d) at_ (by omega), @dmaEntry_eq (demoSeed d) at_ (by omega), hword _ (by omega),
    hword _ (by omega), hword _ (by omega), hword _ (by omega)]

theorem demoEntries_plain : ∀ e ∈ demoEntries, e.used ∧ e.romStart = e.vromStart ∧ e.romEnd = 0 ∧ e.vromStart ≤ e.vromEnd ∧
    0x1000 ≤ e.vromStart.toNat ∧ e.vromStart.toNat + e.span = e.vromEnd.toNat ∧ e.vromEnd.toNat ≤ 0x1034 ∧
    e.storedEnd = e.vromEnd.toNat ∧ e.plain = e := by
  decide +kernel

theorem demoImage_rest (hd : d.length = 4) {j : Nat} (hj : 0x1000 ≤ j) (hnone : ∀ e ∈ demoEntries.filter (·.used), ¬e.Spans j) :
    byteAt (demoImage d) j = 0 := by
  have hfirst := hnone ⟨0x1000, 0x1000, 0x1030, 0x1000, 0⟩ (by decide)
  have hsecond := hnone ⟨0x1010, 0x1030, 0x1034, 0x1030, 0⟩ (by decide)
  have hlow : ¬(0x1000 ≤ j ∧ j < 0x1030) := hfirst
  have hhigh : ¬(0x1030 ≤ j ∧ j < 0x1034) := hsecond
  by_cases hin : j < 0x101000
  · rw [byteAt_demoImage d j hin]
    exact byteAt_past (by rw [demoSeed_length hd]; omega)
  · exact byteAt_past (by rw [demoImage_length]; omega)

theorem demo_table (hd : d.length = 4) (hread : dmaEntries (demoSeed d) 0x1000 = .ok demoEntries) :
    dmaEntries (demoImage d) 0x1000 = .ok demoEntries := by
  obtain ⟨hcount, hreads, z, hz, hends⟩ := dmaLoop_iff.mp hread
  have htwo : demoEntries.length = 2 := rfl
  refine dmaLoop_iff.mpr ⟨hcount, fun i e he => ?_, z, ?_, hends⟩
  · have hi := (List.getElem?_eq_some_iff.mp he).1
    rw [dmaEntry_demoImage hd (by omega)]
    exact hreads i e he
  · rw [dmaEntry_demoImage hd (by omega)]
    exact hz

theorem demo_image (hd : d.length = 4) (hread : dmaEntries (demoSeed d) 0x1000 = .ok demoEntries) :
    ImageOf (demoSeed d) 0x1000 demoEntries (demoImage d) := by
  have hlen := demoSeed_length hd
  refine ⟨hread, ⟨_, List.mem_cons_self, rfl, rfl⟩, ?_, by decide +kernel, by omega, fun j hj => (byteAt_demoImage d j (by omega)).symm,
    fun e he => ?_, fun e he => ?_, fun j hj hnone => demoImage_rest hd hj hnone⟩
  · rw [demoImage_length]
    decide +kernel
  · obtain ⟨-, hplace, hzero, hspan, -, hsum, hend, -, -⟩ := demoEntries_plain e (List.mem_of_mem_filter he)
    have hin : e.romStart.toNat + e.span ≤ (demoSeed d).length := by
      rw [hplace]
      omega
    have hslice := slice_length hin
    refine ⟨_, fileData_zero hspan hzero hin, by omega, fun j hj _ => ?_⟩
    rw [byteAt_slice (by omega), hplace, byteAt_demoImage d _ (by omega)]
  · obtain ⟨-, -, -, -, -, -, -, -, hsame⟩ := demoEntries_plain e (List.mem_of_mem_filter he)
    obtain ⟨i, hi, hget⟩ := List.mem_iff_getElem.mp (List.mem_of_mem_filter he)
    have htable := dmaLoop_iff.mp (demo_table hd hread)
    have hentry := List.getElem?_eq_some_iff.mpr ⟨hi, hget⟩
    have hbytes := (htable.reads i e hentry).1
    rw [hsame, htable.at_eq hentry]
    exact ⟨(dmaEntry_some hbytes).1, fun k hk => (bytes_of_dmaEntry hbytes hk).symm⟩

theorem demo_whole (hd : d.length = 4) (hread : dmaEntries (demoSeed d) 0x1000 = .ok demoEntries) :
    WholeSeed (demoSeed d) 0x1000 demoEntries := by
  have hlen := demoSeed_length hd
  have hall : demoEntries.filter (·.used) = demoEntries := by decide +kernel
  refine ⟨hread, fun e he _ => ?_, ?_, ?_, fun e he _ hhead => ?_, by decide +kernel⟩
  · obtain ⟨-, hplace, hzero, hspan, -, hsum, hend, hstored, -⟩ := demoEntries_plain e he
    have htake : ((demoSeed d).take e.storedEnd).length = e.storedEnd := by
      rw [List.length_take]
      omega
    have hin : e.romStart.toNat + e.span ≤ ((demoSeed d).take e.storedEnd).length := by
      rw [htake, hplace]
      omega
    have hslice := slice_length hin
    exact ⟨by omega, _, fileData_zero hspan hzero hin, by omega⟩
  · rw [hall]
    exact List.pairwise_pair.mpr (.inl (by decide))
  · rw [hall]
    refine List.pairwise_pair.mpr fun j hj hj' => ?_
    have hend : j < 0x1030 := hj.2
    have hstart : 0x1030 ≤ j := hj'.1
    omega
  · obtain ⟨-, hplace, -, -, hlow, -⟩ := demoEntries_plain e he
    rw [hplace] at hhead
    omega

theorem demo_patched (hd : d.length = 4) (hread : dmaEntries (demoSeed d) 0x1000 = .ok demoEntries) (seed : Bytes) (hseed : seed.length = 0x1034) :
    PatchedImage seed (demoImage d) 0x1000 demoEntries demoEntries := by
  refine ⟨demo_table hd hread, Nat.le_refl _, ⟨0, _, _, rfl, rfl, by decide +kernel, rfl, rfl, rfl, rfl, rfl, by decide +kernel⟩,
    fun e he _ => ?_, fun i e he hnot => ?_, ?_, by decide +kernel, fun j hj hnone => demoImage_rest hd hj hnone, ?_⟩
  · obtain ⟨-, hplace, hzero, hspan, -⟩ := demoEntries_plain e he
    exact ⟨hplace, hzero, hspan⟩
  · exact absurd (demoEntries_plain e (List.mem_of_getElem? he)).1 hnot
  · rw [demoImage_length]
    decide +kernel
  · rw [hseed]
    decide +kernel

/-- The file of four bytes is patched, and the table is left alone. -/
theorem repack_round_trip_demo : ∃ r, repack (demoSeed [1, 2, 3, 4]) (demoImage [1, 2, 3, 4]) (demoImage [9, 2, 3, 4]) 0x1000 = .ok r ∧
    yaz0Dmadata r.rom 0x1000 = .ok (demoImage [9, 2, 3, 4]) := by
  have hread : dmaEntries (demoSeed [1, 2, 3, 4]) 0x1000 = .ok demoEntries := by decide +kernel
  have hread' : dmaEntries (demoSeed [9, 2, 3, 4]) 0x1000 = .ok demoEntries := by decide +kernel
  obtain ⟨r, hr, hround, -⟩ := repack_round_trip (demo_whole rfl hread) (demo_patched rfl hread' _ (demoSeed_length rfl))
    (demo_image rfl hread).decompresses
  exact ⟨r, hr, hround⟩

end Example

end Multi64
