import Multi64.Lib.Except
import Multi64.Lib.Store
import Multi64.Repack
import Multi64.Yaz0Image

/-! What decompressing a ROM gives, where what it stores is known: a file comes to
the same bytes in every ROM that stores it, and the files make up the image. -/

namespace Multi64

/-- A source that has the bytes of another from `lo` on. -/
structure SameFrom (lo : Nat) (src src' : Bytes) : Prop where
  long : src.length ≤ src'.length
  same : ∀ i, lo ≤ i → i < src.length → byteAt src' i = byteAt src i

section Local

variable {src src' out v : Bytes} {lo size at_ max s : Nat} {code : UInt8}

theorem yazByte_ok {i : Nat} {b : UInt8} (h : yazByte src at_ i = .ok b) : i < src.length ∧ byteAt src i = b := by
  rw [yazByte] at h
  split at h
  · exact ⟨‹_›, Except.ok.inj h⟩
  · nomatch h

theorem SameFrom.yazByte (h : SameFrom lo src src') {i : Nat} (hlo : lo ≤ i) {b : UInt8} (hok : yazByte src at_ i = .ok b) :
    yazByte src' at_ i = .ok b := by
  obtain ⟨hi, hb⟩ := yazByte_ok hok
  rw [yazByte_in (Nat.lt_of_lt_of_le hi h.long), h.same i hlo hi, hb]

/-- A group reads forward only, and no further than it says. -/
theorem SameFrom.yazGroup (h : SameFrom lo src src') {left : Nat} (hlo : lo ≤ s) {r : Nat × Bytes}
    (hok : yazGroup src size at_ code left s out = .ok r) : yazGroup src' size at_ code left s out = .ok r ∧ s ≤ r.1 := by
  induction left generalizing s out with
  | zero =>
    obtain rfl := Except.ok.inj hok
    exact ⟨rfl, Nat.le_refl s⟩
  | succ left ih =>
    unfold Multi64.yazGroup at hok ⊢
    by_cases hfull : size ≤ out.length
    · rw [if_pos hfull] at hok ⊢
      obtain rfl := Except.ok.inj hok
      exact ⟨rfl, Nat.le_refl s⟩
    rw [if_neg hfull] at hok ⊢
    by_cases hlit : code &&& (0x80 >>> UInt8.ofNat (7 - left)) ≠ 0
    · rw [if_pos hlit] at hok ⊢
      obtain ⟨b, hb, hrest⟩ := except_bind_ok hok
      rw [h.yazByte hlo hb]
      obtain ⟨hrun, hle⟩ := ih (by omega) hrest
      exact ⟨hrun, by omega⟩
    rw [if_neg hlit] at hok ⊢
    obtain ⟨b1, hb1, hok⟩ := except_bind_ok hok
    obtain ⟨b2, hb2, hok⟩ := except_bind_ok hok
    rw [h.yazByte hlo hb1, h.yazByte (by omega) hb2]
    simp only [bind, Except.bind] at hok ⊢
    by_cases hlong : b1.toNat / 0x10 = 0
    · rw [if_pos hlong] at hok ⊢
      obtain ⟨b3, hb3, hok⟩ := except_bind_ok hok
      rw [h.yazByte (by omega) hb3]
      simp only
      by_cases hdist : out.length < b1.toNat % 0x10 * 0x100 + b2.toNat + 1
      · rw [if_pos hdist] at hok
        cases hok
      · rw [if_neg hdist] at hok ⊢
        obtain ⟨hrun, hle⟩ := ih (by omega) hok
        exact ⟨hrun, by omega⟩
    · rw [if_neg hlong] at hok ⊢
      by_cases hdist : out.length < b1.toNat % 0x10 * 0x100 + b2.toNat + 1
      · rw [if_pos hdist] at hok
        cases hok
      · rw [if_neg hdist] at hok ⊢
        obtain ⟨hrun, hle⟩ := ih (by omega) hok
        exact ⟨hrun, by omega⟩

theorem SameFrom.yazLoop (h : SameFrom lo src src') (hlo : lo ≤ s) {fuel fuel' : Nat} (hfuel : fuel ≤ fuel')
    (hok : yazLoop src size at_ fuel s out = .ok v) : yazLoop src' size at_ fuel' s out = .ok v := by
  induction fuel generalizing s out fuel' with
  | zero =>
    rw [Multi64.yazLoop] at hok
    split at hok
    · rename_i hfull
      cases fuel' with
      | zero => rw [Multi64.yazLoop, if_pos hfull, hok]
      | succ fuel' => rw [Multi64.yazLoop, if_pos hfull, hok]
    · nomatch hok
  | succ fuel ih =>
    obtain ⟨fuel', rfl⟩ : ∃ k, fuel' = k + 1 := ⟨fuel' - 1, by omega⟩
    rw [Multi64.yazLoop] at hok ⊢
    by_cases hfull : size ≤ out.length
    · rw [if_pos hfull] at hok ⊢
      exact hok
    · rw [if_neg hfull] at hok ⊢
      obtain ⟨b, hb, hok⟩ := except_bind_ok hok
      obtain ⟨r, hgroup, hok⟩ := except_bind_ok hok
      obtain ⟨hgroup', hle⟩ := h.yazGroup (by omega) hgroup
      rw [h.yazByte hlo hb]
      change (Multi64.yazGroup src' size at_ b 8 (s + 1) out >>= fun r => Multi64.yazLoop src' size at_ fuel' r.1 r.2) = _
      rw [hgroup']
      exact ih (by omega) (by omega) hok

theorem SameFrom.slice (h : SameFrom lo src src') {i n : Nat} (hlo : lo ≤ i) (hin : i + n ≤ src.length) :
    slice src' i n = slice src i n := by
  have hlong := h.long
  exact slice_congr hin (by omega) fun j hj hlt => h.same j (by omega) (by omega)

theorem SameFrom.readBe32 (h : SameFrom lo src src') {i : Nat} (hlo : lo ≤ i) (hin : i + 4 ≤ src.length) :
    readBe32 src' i = readBe32 src i :=
  readBe32_congr fun j hj hlt => h.same j (by omega) (by omega)

/-- A stream decompresses to the same bytes in every source that has them. -/
theorem SameFrom.yaz0 (h : SameFrom at_ src src') (hok : yaz0 src at_ max = .ok v) : yaz0 src' at_ max = .ok v := by
  have hheader := header_of_yaz0 hok
  have hwhole := hheader.whole
  have hlong := h.long
  have hsize : yazSize src' at_ = yazSize src at_ := by
    rw [yazSize, yazSize, h.readBe32 (by omega) (by omega)]
  have hheader' : YazHeader src' at_ max :=
    ⟨by omega, (h.slice (Nat.le_refl _) (by omega)).trans hheader.magic, by
      rw [hsize]
      exact hheader.fits⟩
  rw [yaz0_header hheader] at hok
  rw [yaz0_header hheader', hsize]
  exact h.yazLoop (by omega) (by omega) hok

/-- So does a file, plain or not. -/
theorem SameFrom.fileData {e : DmaEntry} (h : SameFrom e.romStart.toNat src src') (hok : fileData src e = .ok v) :
    fileData src' e = .ok v := by
  have hlong := h.long
  have hspan := fileData_span hok
  by_cases hplain : e.romEnd = 0
  · simp only [Multi64.fileData, if_neg (UInt32.not_lt.mpr hspan), if_pos hplain] at hok ⊢
    by_cases hin : e.romStart.toNat + (e.vromEnd - e.vromStart).toNat ≤ src.length
    · rw [if_pos hin] at hok
      rw [if_pos (by omega), h.slice (Nat.le_refl _) hin]
      exact hok
    · rw [if_neg hin] at hok
      cases hok
  · rw [fileData_yaz0 hspan hplain] at hok ⊢
    exact h.yaz0 hok

end Local

section Image

variable {rom p out data : Bytes} {table : UInt32} {entries files : List DmaEntry} {e : DmaEntry}

def DmaEntry.Spans (e : DmaEntry) (j : Nat) : Prop := e.vromStart.toNat ≤ j ∧ j < e.vromEnd.toNat

/-- A place in the table that the entry of a file has. -/
def InRecord (files : List DmaEntry) (j : Nat) : Prop := ∃ e ∈ files, e.at_ ≤ j ∧ j < e.at_ + 16

/-- The entry of a file of the image. -/
def DmaEntry.plain (e : DmaEntry) : DmaEntry := { e with romStart := e.vromStart, romEnd := 0 }

@[simp] theorem bytes_length (e : DmaEntry) : e.bytes.length = 16 := by simp [DmaEntry.bytes]

theorem rewriteEntry_eq (out : Bytes) (e : DmaEntry) : rewriteEntry out e = copyInto out e.at_ e.plain.bytes := rfl

/-- An image that the files of a ROM make up, the table's entries apart. -/
structure ImageOf (rom : Bytes) (table : UInt32) (entries : List DmaEntry) (p : Bytes) : Prop where
  read : dmaEntries rom table.toNat = .ok entries
  found : ∃ e ∈ entries, e.vromStart = table ∧ e.romStart = table
  size : p.length = max (imageEnd (entries.filter (·.used))) 0x00101000
  limit : imageEnd (entries.filter (·.used)) ≤ 0x04000000
  long : 0x1000 ≤ rom.length
  header : ∀ j < 0x1000, byteAt rom j = byteAt p j
  files : ∀ e ∈ entries.filter (·.used), ∃ data, fileData rom e = .ok data ∧ e.vromStart.toNat + data.length = e.vromEnd.toNat ∧
    ∀ j < data.length, ¬InRecord (entries.filter (·.used)) (e.vromStart.toNat + j) →
      byteAt data j = byteAt p (e.vromStart.toNat + j)
  records : ∀ e ∈ entries.filter (·.used), e.at_ + 16 ≤ p.length ∧ ∀ j < 16, byteAt e.plain.bytes j = byteAt p (e.at_ + j)
  rest : ∀ j, 0x1000 ≤ j → (∀ e ∈ entries.filter (·.used), ¬e.Spans j) → byteAt p j = 0

theorem placeFiles_agrees {but : Nat → Prop} (hfiles : ∀ e ∈ files, ∃ data, fileData rom e = .ok data ∧
      e.vromStart.toNat + data.length = e.vromEnd.toNat ∧
      ∀ j < data.length, ¬but (e.vromStart.toNat + j) → byteAt data j = byteAt p (e.vromStart.toNat + j))
    (hend : ∀ e ∈ files, e.vromEnd.toNat ≤ p.length) (hlen : out.length = p.length) :
    ∃ out', files.foldlM (placeFile rom) out = .ok out' ∧ out'.length = p.length ∧
      ∀ j, ¬but j → (byteAt out j = byteAt p j ∨ ∃ e ∈ files, e.Spans j) → byteAt out' j = byteAt p j := by
  refine foldlM_agrees (fun e he out hout => ?_) hlen
  obtain ⟨data, hdata, hspan, hagree⟩ := hfiles e he
  have hin : e.vromStart.toNat + data.length ≤ out.length := by
    have hle := hend e he
    omega
  refine ⟨overwrite out e.vromStart.toNat data, ?_, (overwrite_length hin).trans hout, fun j hbut h => ?_⟩
  · simp only [placeFile, hdata, copyInto, if_pos hin]
  · refine overwrite_agrees hin hagree hbut (h.imp_right fun hreach => ?_)
    rw [hspan]
    exact hreach

theorem rewriteEntries_agree
    (hrecords : ∀ e ∈ files, e.at_ + 16 ≤ p.length ∧ ∀ j < 16, byteAt e.plain.bytes j = byteAt p (e.at_ + j))
    (hlen : out.length = p.length) : ∃ out', files.foldlM rewriteEntry out = .ok out' ∧ out'.length = p.length ∧
      ∀ j, ¬False → (byteAt out j = byteAt p j ∨ ∃ e ∈ files, e.at_ ≤ j ∧ j < e.at_ + 16) → byteAt out' j = byteAt p j := by
  refine @foldlM_agrees TransformFailure DmaEntry p out rewriteEntry (fun e j => e.at_ ≤ j ∧ j < e.at_ + 16) (fun _ => False) files
    (fun e he out hout => ?_) hlen
  obtain ⟨hin, hagree⟩ := hrecords e he
  have hin' : e.at_ + e.plain.bytes.length ≤ out.length := by
    rw [bytes_length]
    omega
  refine ⟨overwrite out e.at_ e.plain.bytes, ?_, (overwrite_length hin').trans hout, fun j hbut h => ?_⟩
  · rw [rewriteEntry_eq, copyInto, if_pos hin']
  · refine @overwrite_agrees p out e.plain.bytes e.at_ (fun _ => False) hin' (fun j hj _ => hagree j (by simpa using hj)) j hbut (h.imp_right fun hreach => ?_)
    rw [bytes_length]
    exact hreach

/-- A ROM decompresses to the image that its files make up. -/
theorem ImageOf.decompresses (h : ImageOf rom table entries p) : yaz0Dmadata rom table = .ok p := by
  have hlen : (List.replicate (max (imageEnd (entries.filter (·.used))) 0x00101000) (0 : UInt8)).length = p.length := by
    rw [List.length_replicate, h.size]
  have htake : (rom.take 0x1000).length = 0x1000 := by
    rw [List.length_take]
    have hlong := h.long
    omega
  have hroom : 0 + (rom.take 0x1000).length ≤ p.length := by
    rw [htake, h.size]
    omega
  generalize hzeros : List.replicate (max (imageEnd (entries.filter (·.used))) 0x00101000) (0 : UInt8) = zeros at hlen
  have hstart : (overwrite zeros 0 (rom.take 0x1000)).length = p.length := (overwrite_length (by omega)).trans hlen
  have hbegin : ∀ j, j < 0x1000 ∨ byteAt p j = 0 → byteAt (overwrite zeros 0 (rom.take 0x1000)) j = byteAt p j := by
    intro j hj
    refine @overwrite_agrees p zeros (rom.take 0x1000) 0 (fun _ => False) (by omega) (fun j hj _ => ?_) j not_false ?_
    · rw [htake] at hj
      rw [byteAt_take hj, Nat.zero_add, h.header j hj]
    · rcases hj with hj | hj
      · exact .inr ⟨Nat.zero_le j, by omega⟩
      · refine .inl ?_
        rw [← hzeros, byteAt_replicate_zero, hj]
  have hend : ∀ e ∈ entries.filter (·.used), e.vromEnd.toNat ≤ p.length := by
    intro e he
    have hle := imageEnd_le he
    rw [h.size]
    omega
  obtain ⟨mid, hmid, hmidlen, hplaced⟩ := placeFiles_agrees h.files hend hstart
  obtain ⟨out, hout, houtlen, hrewritten⟩ := rewriteEntries_agree h.records hmidlen
  have hall : ∀ j, byteAt out j = byteAt p j := by
    intro j
    refine hrewritten j not_false ?_
    by_cases hrecord : InRecord (entries.filter (·.used)) j
    · exact .inr hrecord
    · refine .inl (hplaced j hrecord ?_)
      by_cases hspan : ∃ e ∈ entries.filter (·.used), e.Spans j
      · exact .inr hspan
      · refine .inl (hbegin j ?_)
        by_cases hhead : j < 0x1000
        · exact .inl hhead
        · exact .inr (h.rest j (by omega) fun e he hs => hspan ⟨e, he, hs⟩)
  have hsame : out = p := Store.ext_byteAt houtlen fun j _ => hall j
  obtain ⟨t, ht, hvrom, hrom⟩ := h.found
  have hany : entries.any (fun e => e.vromStart = table ∧ e.romStart = table) = true :=
    List.any_eq_true.mpr ⟨t, ht, decide_eq_true ⟨hvrom, hrom⟩⟩
  rw [yaz0Dmadata, h.read]
  simp only [hany, hzeros, not_true_eq_false, if_false, if_neg (Nat.not_lt.mpr h.limit), if_neg (Nat.not_lt.mpr h.long)]
  have hcopy : copyInto zeros 0 (rom.take 0x1000) = .ok (overwrite zeros 0 (rom.take 0x1000)) := if_pos (by omega)
  rw [hcopy, ← hsame]
  simp only [bind, Except.bind, hmid, hout]

theorem rewriteEntries_keep {out' : Bytes} (h : files.foldlM rewriteEntry out = .ok out') :
    out'.length = out.length ∧ ∀ j, ¬InRecord files j → byteAt out' j = byteAt out j := by
  induction files generalizing out with
  | nil =>
    obtain rfl := Except.ok.inj h
    exact ⟨rfl, fun _ _ => rfl⟩
  | cons e files ih =>
    rw [List.foldlM_cons] at h
    obtain ⟨mid, hmid, hrest⟩ := except_bind_ok h
    rw [rewriteEntry_eq, copyInto] at hmid
    split at hmid
    · rename_i hin
      obtain rfl := Except.ok.inj hmid
      obtain ⟨hlen, hkeep⟩ := ih hrest
      refine ⟨hlen.trans (overwrite_length hin), fun j hj => ?_⟩
      rw [hkeep j fun h => hj (h.imp fun f h => ⟨List.mem_cons_of_mem e h.1, h.2⟩)]
      refine byteAt_overwrite_outside hin ?_
      rw [bytes_length]
      have hout : ¬(e.at_ ≤ j ∧ j < e.at_ + 16) := fun hin => hj ⟨e, List.mem_cons_self, hin⟩
      omega
    · cases hmid

theorem placeFiles_length {out' : Bytes} (h : files.foldlM (placeFile rom) out = .ok out') : out'.length = out.length := by
  induction files generalizing out with
  | nil =>
    obtain rfl := Except.ok.inj h
    rfl
  | cons e files ih =>
    rw [List.foldlM_cons] at h
    obtain ⟨mid, hmid, hrest⟩ := except_bind_ok h
    refine (ih hrest).trans ?_
    rw [placeFile] at hmid
    split at hmid
    · rw [copyInto] at hmid
      split at hmid
      · rename_i hin
        obtain rfl := Except.ok.inj hmid
        exact overwrite_length hin
      · cases hmid
    · cases hmid

/-- What building an image went through. -/
structure Built (rom : Bytes) (table : UInt32) (entries : List DmaEntry) (image : Bytes) : Prop where
  read : dmaEntries rom table.toNat = .ok entries
  long : 0x1000 ≤ rom.length
  limit : imageEnd (entries.filter (·.used)) ≤ 0x04000000
  size : image.length = max (imageEnd (entries.filter (·.used))) 0x00101000
  steps : ∃ out mid : Bytes, out.length = max (imageEnd (entries.filter (·.used))) 0x00101000 ∧
    (entries.filter (·.used)).foldlM (placeFile rom) out = .ok mid ∧ (entries.filter (·.used)).foldlM rewriteEntry mid = .ok image

theorem built_of_ok {image : Bytes} (h : yaz0Dmadata rom table = .ok image) : ∃ entries, Built rom table entries image := by
  rw [yaz0Dmadata] at h
  cases hread : dmaEntries rom table.toNat with
  | error why =>
    rw [hread] at h
    cases h
  | ok entries =>
    rw [hread] at h
    simp only at h
    split at h
    · cases h
    split at h
    · cases h
    rename_i hlimit
    split at h
    · cases h
    rename_i hlong
    rw [copyInto] at h
    split at h
    · rename_i hin
      obtain ⟨out, hout, h⟩ := except_bind_ok h
      obtain ⟨mid, hmid, hrewrite⟩ := except_bind_ok h
      have hsize : out.length = max (imageEnd (entries.filter (·.used))) 0x00101000 := by
        rw [← Except.ok.inj hout, overwrite_length hin, List.length_replicate]
      have hlen := (rewriteEntries_keep hrewrite).1.trans ((placeFiles_length hmid).trans hsize)
      exact ⟨entries, hread, Nat.not_lt.mp hlong, Nat.not_lt.mp hlimit, hlen, out, mid, hsize, hmid, hrewrite⟩
    · cases h

/-- Of files that share no byte the image has each, but for the entries of the table. -/
theorem Built.file {image : Bytes} (h : Built rom table entries image)
    (hapart : (entries.filter (·.used)).Pairwise DmaEntry.Apart) (hover : ∀ e ∈ entries.filter (·.used), ¬FileOverruns rom e)
    (he : e ∈ entries.filter (·.used)) : ∃ data, fileData rom e = .ok data ∧ e.vromEnd.toNat ≤ image.length ∧
      ∀ j < data.length, ¬InRecord (entries.filter (·.used)) (e.vromStart.toNat + j) →
        byteAt image (e.vromStart.toNat + j) = byteAt data j := by
  obtain ⟨out, mid, houtlen, hplace, hrewrite⟩ := h.steps
  have hbuilds : Builds (FilesPlaced rom (entries.filter (·.used)) out) ((entries.filter (·.used)).foldlM (placeFile rom) out) :=
    placeFiles_builds fun f hf => ⟨hover f hf, by have hle := imageEnd_le hf; omega⟩
  rw [hplace] at hbuilds
  obtain ⟨data, hdata, hslice⟩ := hbuilds.holds hapart e he
  obtain ⟨hlen, hkeep⟩ := rewriteEntries_keep hrewrite
  have hsize := hbuilds.size
  have hle := imageEnd_le he
  refine ⟨data, hdata, by omega, fun j hj hrecord => ?_⟩
  rw [hkeep _ hrecord, ← hslice, byteAt_slice (by simpa using hj)]

end Image

end Multi64
