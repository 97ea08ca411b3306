import Multi64.RepackImage

/-! The file table of a ROM, read and written: which entries are read, and that the
entries written are the ones read back. -/

namespace Multi64

/-- The entry that ends a table is the first of zeros behind its start. -/
def DmaEntry.Ends (table : Nat) (e : DmaEntry) : Prop := e.vromStart = 0 ∧ e.vromEnd = 0 ∧ table < e.at_

section Read

variable {rom rom' : Bytes} {table at_ room : Nat} {entries : List DmaEntry} {e : DmaEntry}

theorem dmaEntry_some (h : dmaEntry rom at_ = some e) : at_ + 16 ≤ rom.length ∧
    e = ⟨at_, readBe32 rom at_, readBe32 rom (at_ + 4), readBe32 rom (at_ + 8), readBe32 rom (at_ + 12)⟩ := by
  simp only [dmaEntry, readU32] at h
  split at h
  · split at h
    · split at h
      · split at h
        · exact ⟨by omega, (Option.some.inj h).symm⟩
        · cases h
      · cases h
    · cases h
  · cases h

theorem dmaEntry_eq (h : at_ + 16 ≤ rom.length) : dmaEntry rom at_ =
    some ⟨at_, readBe32 rom at_, readBe32 rom (at_ + 4), readBe32 rom (at_ + 8), readBe32 rom (at_ + 12)⟩ := by
  simp only [dmaEntry, readU32, if_pos (show at_ + 4 ≤ rom.length by omega), if_pos (show at_ + 4 + 4 ≤ rom.length by omega),
    if_pos (show at_ + 8 + 4 ≤ rom.length by omega), if_pos (show at_ + 12 + 4 ≤ rom.length by omega)]
  rfl

/-- Entries read from `at_` on, and the one that ends them. -/
structure TableAt (rom : Bytes) (table at_ room : Nat) (entries : List DmaEntry) : Prop where
  count : entries.length ≤ room
  reads : ∀ i e, entries[i]? = some e → dmaEntry rom (at_ + 16 * i) = some e ∧ ¬e.Ends table
  ends : ∃ z, dmaEntry rom (at_ + 16 * entries.length) = some z ∧ z.Ends table

theorem TableAt.at_eq (h : TableAt rom table at_ room entries) {i : Nat} (hi : entries[i]? = some e) : e.at_ = at_ + 16 * i := by
  rw [(dmaEntry_some (h.reads i e hi).1).2]

theorem TableAt.tail (h : TableAt rom table at_ (room + 1) (e :: entries)) : TableAt rom table (at_ + 16) room entries := by
  obtain ⟨hcount, hreads, z, hz, hends⟩ := h
  have hshift : ∀ i, at_ + 16 + 16 * i = at_ + 16 * (i + 1) := fun i => by omega
  rw [List.length_cons] at hcount hz
  refine ⟨by omega, fun i f hf => ?_, z, ?_, hends⟩
  · rw [hshift]
    exact hreads (i + 1) f hf
  · rw [hshift]
    exact hz

theorem TableAt.cons (he : dmaEntry rom at_ = some e) (hnot : ¬e.Ends table) (h : TableAt rom table (at_ + 16) room entries) :
    TableAt rom table at_ (room + 1) (e :: entries) := by
  obtain ⟨hcount, hreads, z, hz, hends⟩ := h
  have hshift : ∀ i, at_ + 16 * (i + 1) = at_ + 16 + 16 * i := fun i => by omega
  refine ⟨by rw [List.length_cons]; omega, fun i f hf => ?_, z, ?_, hends⟩
  · cases i with
    | zero =>
      obtain rfl := Option.some.inj hf
      exact ⟨he, hnot⟩
    | succ i =>
      rw [hshift]
      exact hreads i f hf
  · rw [List.length_cons, hshift]
    exact hz

theorem TableAt.nil (he : dmaEntry rom at_ = some e) (h : e.vromStart = 0 ∧ e.vromEnd = 0 ∧ table < at_) :
    TableAt rom table at_ room [] := by
  have hat : e.at_ = at_ := by rw [(dmaEntry_some he).2]
  exact ⟨Nat.zero_le _, fun i f hf => (nomatch hf), e, he, h.1, h.2.1, hat ▸ h.2.2⟩

theorem TableAt.ends_here (h : TableAt rom table at_ room []) :
    ∃ z, dmaEntry rom at_ = some z ∧ z.vromStart = 0 ∧ z.vromEnd = 0 ∧ table < at_ := by
  obtain ⟨z, hz, hends⟩ := h.ends
  have hat : z.at_ = at_ := by rw [(dmaEntry_some hz).2]; rfl
  exact ⟨z, hz, hends.1, hends.2.1, hat ▸ hends.2.2⟩

/-- Reading a table goes on until the entry that ends it, of which there is room for so many. -/
theorem dmaLoop_iff : dmaLoop rom table room at_ = .ok entries ↔ TableAt rom table at_ room entries := by
  induction room generalizing at_ entries with
  | zero =>
    rw [dmaLoop]
    constructor
    · intro h
      cases he : dmaEntry rom at_ with
      | none =>
        rw [he] at h
        nomatch h
      | some e =>
        rw [he] at h
        simp only at h
        split at h
        · rename_i hend
          obtain rfl := Except.ok.inj h
          exact .nil he hend
        · nomatch h
    · intro h
      obtain rfl := List.length_eq_zero_iff.mp (Nat.le_zero.mp h.count)
      obtain ⟨z, hz, hends⟩ := h.ends_here
      rw [hz]
      exact if_pos hends
  | succ room ih =>
    rw [dmaLoop]
    constructor
    · intro h
      cases he : dmaEntry rom at_ with
      | none =>
        rw [he] at h
        nomatch h
      | some e =>
        have hat : e.at_ = at_ := by rw [(dmaEntry_some he).2]
        rw [he] at h
        simp only at h
        split at h
        · rename_i hend
          obtain rfl := Except.ok.inj h
          exact .nil he hend
        · rename_i hend
          obtain ⟨rest, hrest, rfl⟩ := except_map_ok h
          exact (ih.mp hrest).cons he fun h => hend ⟨h.1, h.2.1, hat ▸ h.2.2⟩
    · intro h
      cases entries with
      | nil =>
        obtain ⟨z, hz, hends⟩ := h.ends_here
        rw [hz]
        exact if_pos hends
      | cons e entries =>
        obtain ⟨he, hnot⟩ := h.reads 0 e rfl
        have hat : e.at_ = at_ := h.at_eq (i := 0) rfl
        rw [show dmaEntry rom at_ = some e from he]
        simp only
        rw [if_neg fun hend => hnot ⟨hend.1, hend.2.1, hat ▸ hend.2.2⟩, ih.mpr h.tail]
        rfl

end Read

section Write

variable {rom rom' : Bytes} {at_ base : Nat} {w e : DmaEntry} {ws : List DmaEntry}

/-- The words of an entry, as they are in its bytes. -/
theorem bytes_words (w : DmaEntry) : readBe32 w.bytes 0 = w.vromStart ∧ readBe32 w.bytes 4 = w.vromEnd ∧
    readBe32 w.bytes 8 = w.romStart ∧ readBe32 w.bytes 12 = w.romEnd := by
  have hword : ∀ (front : Bytes) (v : UInt32) (t : Bytes), readBe32 (front ++ (putBe32 v ++ t)) front.length = v := by
    intro front v t
    have hskip := readBe32_append_right front (putBe32 v ++ t) 0
    rw [Nat.add_zero] at hskip
    rw [hskip, readBe32_putBe32]
  refine ⟨?_, ?_, ?_, ?_⟩
  · rw [DmaEntry.bytes, List.append_assoc, List.append_assoc, readBe32_putBe32]
  · have h := hword (putBe32 w.vromStart) w.vromEnd (putBe32 w.romStart ++ (putBe32 w.romEnd ++ []))
    simpa [DmaEntry.bytes] using h
  · have h := hword (putBe32 w.vromStart ++ putBe32 w.vromEnd) w.romStart (putBe32 w.romEnd ++ [])
    simpa [DmaEntry.bytes] using h
  · have h := hword (putBe32 w.vromStart ++ putBe32 w.vromEnd ++ putBe32 w.romStart) w.romEnd []
    simpa [DmaEntry.bytes] using h

/-- An entry is read where its bytes are. -/
theorem dmaEntry_of_bytes (hin : w.at_ + 16 ≤ rom.length) (h : ∀ k < 16, byteAt rom (w.at_ + k) = byteAt w.bytes k) :
    dmaEntry rom w.at_ = some w := by
  have hword : ∀ i, i + 4 ≤ 16 → readBe32 rom (w.at_ + i) = readBe32 w.bytes i := by
    intro i hi
    simp only [readBe32, Nat.add_assoc]
    rw [h i (by omega), h (i + 1) (by omega), h (i + 2) (by omega), h (i + 3) (by omega)]
  obtain ⟨hvs, hve, hrs, hre⟩ := bytes_words w
  have hfirst := hword 0 (by omega)
  rw [Nat.add_zero] at hfirst
  rw [dmaEntry_eq hin, hfirst, hword 4 (by omega), hword 8 (by omega), hword 12 (by omega), hvs, hve, hrs, hre]

theorem bytes_of_dmaEntry (h : dmaEntry rom at_ = some e) {k : Nat} (hk : k < 16) : byteAt rom (at_ + k) = byteAt e.bytes k := by
  have hbytes : e.bytes = (List.range 16).map fun k => byteAt rom (at_ + k) := by
    rw [(dmaEntry_some h).2]
    simp only [DmaEntry.bytes, readBe32, putBe32_be32]
    rfl
  rw [hbytes]
  simp [byteAt, List.getD_eq_getElem?_getD, hk]

/-- Entries written one behind the other. -/
theorem writeEntries_ok (hat : ∀ (i : Nat) (w : DmaEntry), ws[i]? = some w → w.at_ = base + 16 * i) (hin : base + 16 * ws.length ≤ rom.length) :
    ∃ rom', ws.foldlM writeEntry rom = .ok rom' ∧ rom'.length = rom.length ∧
      (∀ j, j < base ∨ base + 16 * ws.length ≤ j → byteAt rom' j = byteAt rom j) ∧
      ∀ (i : Nat) (w : DmaEntry), ws[i]? = some w → ∀ k < 16, byteAt rom' (w.at_ + k) = byteAt w.bytes k := by
  induction ws generalizing base rom with
  | nil => exact ⟨rom, rfl, rfl, fun _ _ => rfl, fun i w hw => (nomatch hw)⟩
  | cons first ws ih =>
    have hfirst : first.at_ = base := hat 0 first rfl
    rw [List.length_cons] at hin
    have hroom : first.at_ + first.bytes.length ≤ rom.length := by
      rw [bytes_length]
      omega
    have hwrite : writeEntry rom first = .ok (overwrite rom first.at_ first.bytes) := if_pos (by rw [bytes_length] at hroom; exact hroom)
    have hlen : (overwrite rom first.at_ first.bytes).length = rom.length := overwrite_length hroom
    obtain ⟨rom', hrest, hlen', hkeep, hbytes⟩ := @ih (overwrite rom first.at_ first.bytes) (base + 16)
      (fun i w hw => by rw [hat (i + 1) w hw]; omega) (by omega)
    refine ⟨rom', by rw [List.foldlM_cons, hwrite]; exact hrest, hlen'.trans hlen, fun j hj => ?_, fun i w hw k hk => ?_⟩
    · rw [List.length_cons] at hj
      rw [hkeep j (by omega), byteAt_overwrite_outside hroom (by rw [bytes_length]; omega)]
    · cases i with
      | zero =>
        obtain rfl := Option.some.inj hw
        rw [hkeep _ (.inl (by omega)), byteAt_overwrite_inside hroom (by rw [bytes_length]; exact hk)]
      | succ i => exact hbytes i w hw k hk

end Write

end Multi64
