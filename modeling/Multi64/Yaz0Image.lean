import Multi64.Yaz0Bound

/-! What the files of a table write into the image: each its own span and
nothing else, unless a stream in it overruns that span. -/

namespace Multi64

section Files

variable {rom out data : Bytes} {e : DmaEntry} {files : List DmaEntry}

/-- A compressed file whose stream ends past the span its entry gives it. -/
def FileOverruns (rom : Bytes) (e : DmaEntry) : Prop :=
  e.vromStart ≤ e.vromEnd ∧ e.romEnd ≠ 0 ∧ YazHeader rom e.romStart.toNat (e.vromEnd - e.vromStart).toNat ∧
    YazOverruns rom e.romStart.toNat (yazSize rom e.romStart.toNat) (e.vromEnd - e.vromStart).toNat

/-- The bytes from `j` on are none of the file's. -/
def DmaEntry.Outside (e : DmaEntry) (j n : Nat) : Prop := j + n ≤ e.vromStart.toNat ∨ e.vromEnd.toNat ≤ j

/-- Files that have no byte in common. -/
def DmaEntry.Apart (e f : DmaEntry) : Prop := e.vromEnd ≤ f.vromStart ∨ f.vromEnd ≤ e.vromStart

theorem span_toNat (h : e.vromStart ≤ e.vromEnd) :
    e.vromStart.toNat + (e.vromEnd - e.vromStart).toNat = e.vromEnd.toNat := by
  have hle := UInt32.le_iff_toNat_le.mp h
  rw [UInt32.toNat_sub_of_le _ _ h]
  omega

theorem fileData_plain (hspan : e.vromStart ≤ e.vromEnd) (hplain : e.romEnd = 0) (h : fileData rom e = .ok data) :
    data.length = (e.vromEnd - e.vromStart).toNat := by
  simp only [fileData, if_neg (UInt32.not_lt.mpr hspan), if_pos hplain] at h
  by_cases hin : e.romStart.toNat + (e.vromEnd - e.vromStart).toNat ≤ rom.length
  · rw [if_pos hin] at h
    obtain rfl := Except.ok.inj h
    exact slice_length hin
  · rw [if_neg hin] at h
    nomatch h

theorem fileData_yaz0 (hspan : e.vromStart ≤ e.vromEnd) (hyaz : e.romEnd ≠ 0) :
    fileData rom e = .ok data ↔ yaz0 rom e.romStart.toNat (e.vromEnd - e.vromStart).toNat = .ok data := by
  simp only [fileData, if_neg (UInt32.not_lt.mpr hspan), if_neg hyaz]
  cases yaz0 rom e.romStart.toNat (e.vromEnd - e.vromStart).toNat with
  | ok v => rfl
  | error why => simp

theorem fileData_span (h : fileData rom e = .ok data) : e.vromStart ≤ e.vromEnd := by
  by_cases hspan : e.vromEnd < e.vromStart
  · simp [fileData, hspan] at h
  · exact UInt32.not_lt.mp hspan

/-- The bytes of a file stay in its span just where no stream in it overruns. -/
theorem fileData_within : (∀ data, fileData rom e = .ok data → e.vromStart.toNat + data.length ≤ e.vromEnd.toNat) ↔
    ¬FileOverruns rom e := by
  constructor
  · rintro h ⟨hspan, hyaz, hheader, hover⟩
    obtain ⟨data, hdata, hlong⟩ := (yaz0_past hheader.fits).mpr ⟨hheader, hover⟩
    have hend := h data ((fileData_yaz0 hspan hyaz).mpr hdata)
    have hlen := span_toNat hspan
    omega
  · intro h data hdata
    have hspan := fileData_span hdata
    have hlen := span_toNat hspan
    by_cases hplain : e.romEnd = 0
    · have hsize := fileData_plain hspan hplain hdata
      omega
    · have hyaz := (fileData_yaz0 hspan hplain).mp hdata
      have hheader := header_of_yaz0 hyaz
      have hshort : ¬(e.vromEnd - e.vromStart).toNat < data.length := fun hlong =>
        h ⟨hspan, hplain, (yaz0_past hheader.fits).mp ⟨data, hyaz, hlong⟩⟩
      omega

/-- What an image is built to, where it is: never a panic. -/
def Builds (keep : Bytes → Prop) : Except TransformFailure Bytes → Prop
  | .ok out => keep out
  | .error (.refused _) => True
  | .error .panic => False

/-- What placing a file leaves: its bytes in its span and the rest as it was. -/
structure FilePlaced (rom : Bytes) (e : DmaEntry) (out out' : Bytes) : Prop where
  size : out'.length = out.length
  holds : ∃ data, fileData rom e = .ok data ∧ e.vromStart.toNat + data.length ≤ e.vromEnd.toNat ∧
    slice out' e.vromStart.toNat data.length = data
  keeps : ∀ j n, e.Outside j n → slice out' j n = slice out j n

theorem placeFile_builds (h : ¬FileOverruns rom e) (hend : e.vromEnd.toNat ≤ out.length) :
    Builds (FilePlaced rom e out) (placeFile rom out e) := by
  cases hdata : fileData rom e with
  | error why => simp [placeFile, hdata, Builds]
  | ok data =>
    have hwithin := fileData_within.mpr h data hdata
    have hin : e.vromStart.toNat + data.length ≤ out.length := by omega
    simp only [placeFile, hdata, copyInto, if_pos hin, Builds]
    refine ⟨overwrite_length hin, ⟨data, hdata, hwithin, slice_overwrite hin⟩, fun j n hout => ?_⟩
    rcases hout with hbefore | hbehind
    · exact slice_overwrite_before (by omega) hbefore
    · exact slice_overwrite_behind hin (by omega)

/-- What placing the files of a table leaves. -/
structure FilesPlaced (rom : Bytes) (files : List DmaEntry) (out out' : Bytes) : Prop where
  size : out'.length = out.length
  keeps : ∀ j n, (∀ e ∈ files, e.Outside j n) → slice out' j n = slice out j n
  holds : files.Pairwise DmaEntry.Apart → ∀ e ∈ files, ∃ data, fileData rom e = .ok data ∧
    slice out' e.vromStart.toNat data.length = data

theorem FilePlaced.step {mid out' : Bytes} (h : FilePlaced rom e out mid) (hs : FilesPlaced rom files mid out') :
    FilesPlaced rom (e :: files) out out' := by
  obtain ⟨data, hdata, hwithin, hslice⟩ := h.holds
  constructor
  · rw [hs.size, h.size]
  · intro j n hout
    rw [hs.keeps j n (fun f hf => hout f (List.mem_cons_of_mem e hf)), h.keeps j n (hout e List.mem_cons_self)]
  · intro hapart f hf
    obtain ⟨hfirst, hrest⟩ := List.pairwise_cons.mp hapart
    rcases List.mem_cons.mp hf with rfl | hf
    · refine ⟨data, hdata, ?_⟩
      rw [hs.keeps, hslice]
      intro g hg
      rcases hfirst g hg with hle | hle
      · have hle' := UInt32.le_iff_toNat_le.mp hle
        exact .inl (by omega)
      · exact .inr (UInt32.le_iff_toNat_le.mp hle)
    · exact hs.holds hrest f hf

theorem placeFiles_builds (h : ∀ e ∈ files, ¬FileOverruns rom e ∧ e.vromEnd.toNat ≤ out.length) :
    Builds (FilesPlaced rom files out) (files.foldlM (placeFile rom) out) := by
  induction files generalizing out with
  | nil => exact ⟨rfl, fun _ _ _ => rfl, fun _ _ hf => absurd hf List.not_mem_nil⟩
  | cons e files ih =>
    obtain ⟨hover, hend⟩ := h e List.mem_cons_self
    have hstep := placeFile_builds hover hend
    rw [List.foldlM_cons]
    cases hplace : placeFile rom out e with
    | error why =>
      rw [hplace] at hstep
      cases why with
      | refused why => trivial
      | panic => exact hstep
    | ok mid =>
      rw [hplace] at hstep
      have hrest : Builds (FilesPlaced rom files mid) (files.foldlM (placeFile rom) mid) :=
        ih fun f hf => by simpa [hstep.size] using h f (List.mem_cons_of_mem e hf)
      revert hrest
      simp only [bind, Except.bind]
      cases files.foldlM (placeFile rom) mid with
      | ok out' => exact hstep.step
      | error why => cases why <;> exact id

theorem imageEnd_le (he : e ∈ files) : e.vromEnd.toNat ≤ imageEnd files := by
  have hmax {l : List Nat} {a : Nat} : a ≤ l.foldl max a ∧ ∀ n ∈ l, n ≤ l.foldl max a := by
    induction l generalizing a with
    | nil => simp
    | cons b l ih =>
      obtain ⟨hacc, hall⟩ := @ih (max a b)
      simp only [List.foldl_cons, List.mem_cons, forall_eq_or_imp]
      exact ⟨by omega, by omega, hall⟩
  exact hmax.2 _ (List.mem_map_of_mem he)

end Files

end Multi64
