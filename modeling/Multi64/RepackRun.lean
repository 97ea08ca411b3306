import Multi64.RepackTable

/-! What `repack` makes of each file of an image, and that storing one leaves alone
what was stored of the others. -/

namespace Multi64

def DmaEntry.span (e : DmaEntry) : Nat := e.vromEnd.toNat - e.vromStart.toNat

/-- A place that a plain file has in the ROM. -/
def DmaEntry.Holds (o : DmaEntry) (j : Nat) : Prop := o.romStart.toNat ≤ j ∧ j < o.romStart.toNat + o.span

section Files

variable {original patched rom rom' : Bytes} {base : Nat} {old new : List DmaEntry} {e o : DmaEntry} {prior : Option DmaEntry}
variable {s : FileStored × DmaEntry} {stored : List (FileStored × DmaEntry)}

/-- The patch left the file as the seed has it. -/
def Untouched (original patched : Bytes) (e : DmaEntry) : Prop :=
  e.vromEnd.toNat ≤ original.length ∧ slice original e.vromStart.toNat e.span = slice patched e.vromStart.toNat e.span

/-- What a file came to, in a ROM whose seed ends at `base`. -/
inductive FileOutcome (original patched : Bytes) (base : Nat) (rom : Bytes) (prior : Option DmaEntry) (e : DmaEntry) :
    FileStored × DmaEntry → Prop where
  | absent : ¬e.used → FileOutcome original patched base rom prior e (.absent, absentEntry prior e)
  | kept {o : DmaEntry} : e.used → o.used → prior = some o → o.vromStart = e.vromStart ∧ o.vromEnd = e.vromEnd →
      Untouched original patched e → FileOutcome original patched base rom prior e (.kept, { o with at_ := e.at_ })
  | inPlace {o : DmaEntry} : e.used → o.used → prior = some o → o.vromStart = e.vromStart ∧ o.vromEnd = e.vromEnd → o.romEnd = 0 →
      ¬Untouched original patched e → o.romStart.toNat + e.span ≤ rom.length →
      (∀ j < e.span, byteAt rom (o.romStart.toNat + j) = byteAt patched (e.vromStart.toNat + j)) →
      FileOutcome original patched base rom prior e (.inPlace, { o with at_ := e.at_ })
  | moved {a : Nat} : e.used → (∀ o, prior = some o → o.vromStart = e.vromStart ∧ o.vromEnd = e.vromEnd → o.used →
        o.romEnd ≠ 0 ∧ ¬Untouched original patched e) → base ≤ a → a + e.span ≤ rom.length → (∀ j < e.span, byteAt rom (a + j) = byteAt patched (e.vromStart.toNat + j)) →
      FileOutcome original patched base rom prior e (.moved, { e with romStart := .ofNat a, romEnd := 0 })

/-- The places that storing a file in place writes. -/
def Rewrites (prior : Option DmaEntry) (s : FileStored × DmaEntry) (j : Nat) : Prop :=
  s.1 = .inPlace ∧ ∃ o, prior = some o ∧ o.Holds j

/-- What stands where later files are not stored stays. -/
theorem FileOutcome.later (h : FileOutcome original patched base rom prior e s) (hlen : rom.length ≤ rom'.length)
    (hplain : ∀ o, prior = some o → o.vromStart = e.vromStart ∧ o.vromEnd = e.vromEnd → o.used → o.romEnd = 0 → ∀ j, o.Holds j →
      byteAt rom' j = byteAt rom j)
    (htail : ∀ j, base ≤ j → j < rom.length → byteAt rom' j = byteAt rom j) : FileOutcome original patched base rom' prior e s := by
  cases h with
  | absent hnot => exact .absent hnot
  | kept he ho hprior hfile hsame => exact .kept he ho hprior hfile hsame
  | @inPlace o he ho hprior hfile hzero hchanged hin hbytes =>
    have hspan : o.span = e.span := by rw [DmaEntry.span, hfile.1, hfile.2, DmaEntry.span]
    refine .inPlace he ho hprior hfile hzero hchanged (by omega) fun j hj => ?_
    rw [hplain o hprior hfile ho hzero _ ⟨by omega, by omega⟩, hbytes j hj]
  | moved he hnone ha hin hbytes =>
    refine .moved he hnone ha (by omega) fun j hj => ?_
    rw [htail _ (by omega) (by omega), hbytes j hj]

theorem align16_length (rom : Bytes) : rom.length ≤ (align16 rom).length ∧ (align16 rom).length ≤ rom.length + 15 := by
  simp only [align16, List.length_append, List.length_replicate]
  omega

theorem priorOf_some (h : priorOf prior e = some o) : prior = some o ∧ o.vromStart = e.vromStart ∧ o.vromEnd = e.vromEnd := by
  obtain ⟨hprior, hfile⟩ := Option.filter_eq_some_iff.mp h
  exact ⟨hprior, of_decide_eq_true hfile⟩

/-- An entry stands for the same file as the image's does. -/
theorem FileOutcome.same_file (h : FileOutcome original patched base rom prior e s) :
    s.2.at_ = e.at_ ∧ s.2.vromStart = e.vromStart ∧ s.2.vromEnd = e.vromEnd := by
  cases h with
  | absent hnot =>
    simp only [absentEntry]
    cases hprior : priorOf prior e with
    | none => exact ⟨rfl, rfl, rfl⟩
    | some o => exact ⟨rfl, (priorOf_some hprior).2⟩
  | kept he ho hprior hfile hsame => exact ⟨rfl, hfile⟩
  | inPlace he ho hprior hfile hzero hchanged hin hbytes => exact ⟨rfl, hfile⟩
  | moved he hnone ha hin hbytes => exact ⟨rfl, rfl, rfl⟩

/-- What storing one file leaves. -/
structure FileLeft (original patched : Bytes) (base : Nat) (rom : Bytes) (prior : Option DmaEntry) (e : DmaEntry) (rom' : Bytes)
    (s : FileStored × DmaEntry) : Prop where
  outcome : FileOutcome original patched base rom' prior e s
  grows : rom.length ≤ rom'.length ∧ rom'.length ≤ rom.length + e.span + 15
  leaves : ∀ j < rom.length, ¬Rewrites prior s j → byteAt rom' j = byteAt rom j

theorem move_left (hused : e.used)
    (hnone : ∀ o, prior = some o → o.vromStart = e.vromStart ∧ o.vromEnd = e.vromEnd → o.used →
      o.romEnd ≠ 0 ∧ ¬Untouched original patched e) (hbase : base ≤ rom.length) (hend : e.vromStart.toNat + e.span ≤ patched.length) :
    FileLeft original patched base rom prior e (align16 rom ++ slice patched e.vromStart.toNat e.span)
      (.moved, { e with romStart := .ofNat (align16 rom).length, romEnd := 0 }) := by
  obtain ⟨hlow, hhigh⟩ := align16_length rom
  have hlen := slice_length hend
  refine ⟨.moved hused hnone (by omega) (by simp [hlen]) fun j hj => ?_, ?_, fun j hj _ => ?_⟩
  · rw [byteAt_append_right, byteAt_slice hj]
  · rw [List.length_append, hlen]
    omega
  · rw [byteAt_append_left (by omega), align16, byteAt_append_left hj]

theorem storeFile_ok (hbase : base ≤ rom.length) (hspan : e.used → e.vromStart ≤ e.vromEnd ∧ e.vromEnd.toNat ≤ patched.length)
    (hplain : ∀ o, prior = some o → o.used → o.romEnd = 0 → o.romStart.toNat + o.span ≤ base) :
    ∃ rom' s, storeFile original patched prior e rom = .ok (rom', s) ∧ FileLeft original patched base rom prior e rom' s := by
  by_cases hused : e.used = true
  · obtain ⟨hle, hend⟩ := hspan hused
    have hle' := UInt32.le_iff_toNat_le.mp hle
    have hfit : e.vromStart.toNat + e.span ≤ patched.length := by
      rw [DmaEntry.span]
      omega
    simp only [storeFile]
    rw [if_neg (not_not.mpr hused), if_neg (not_not.mpr ⟨hle, hend⟩)]
    cases hprior : priorOf prior e with
    | none =>
      refine ⟨_, _, rfl, move_left hused (fun o ho hfile => ?_) hbase hfit⟩
      have hfound : priorOf prior e = some o := Option.filter_eq_some_iff.mpr ⟨ho, decide_eq_true hfile⟩
      rw [hprior] at hfound
      nomatch hfound
    | some o =>
      obtain ⟨hsome, hfile⟩ := priorOf_some hprior
      have hsame : o.span = e.span := by rw [DmaEntry.span, hfile.1, hfile.2, DmaEntry.span]
      simp only
      split
      · rename_i hkept
        exact ⟨rom, _, rfl, .kept hused hkept.1 hsome hfile hkept.2, ⟨Nat.le_refl _, by omega⟩, fun _ _ _ => rfl⟩
      · rename_i hchanged
        split
        · rename_i hplace
          have hroom := hplain o hsome hplace.1 hplace.2
          have hlen : (slice patched e.vromStart.toNat (e.vromEnd.toNat - e.vromStart.toNat)).length = e.span := slice_length hfit
          have hin : o.romStart.toNat + (slice patched e.vromStart.toNat (e.vromEnd.toNat - e.vromStart.toNat)).length ≤ rom.length := by
            omega
          rw [if_pos hin]
          have hsize := overwrite_length hin
          refine ⟨_, _, rfl, .inPlace hused hplace.1 hsome hfile hplace.2 (fun hsame => hchanged ⟨hplace.1, hsame⟩) (by omega) fun j hj => ?_, by omega, fun j hj hnot => ?_⟩
          · rw [byteAt_overwrite_inside hin (by omega)]
            exact byteAt_slice hj
          · refine byteAt_overwrite_outside hin ?_
            have hout : ¬o.Holds j := fun hholds => hnot ⟨rfl, o, hsome, hholds⟩
            rw [DmaEntry.Holds] at hout
            omega
        · rename_i hplace
          refine ⟨_, _, rfl, move_left hused (fun o' ho' _ hused' => ?_) hbase hfit⟩
          obtain rfl := Option.some.inj (hsome.symm.trans ho')
          exact ⟨fun hzero => hplace ⟨hused', hzero⟩, fun hsame => hchanged ⟨hused', hsame⟩⟩
  · refine ⟨rom, (.absent, absentEntry prior e), ?_, .absent hused, ⟨Nat.le_refl _, by omega⟩, fun _ _ _ => rfl⟩
    rw [storeFile, if_pos hused]

/-- What storing the files leaves of each. -/
structure FilesLeft (original patched : Bytes) (base : Nat) (rom : Bytes) (old new : List DmaEntry) (rom' : Bytes)
    (stored : List (FileStored × DmaEntry)) : Prop where
  count : stored.length = new.length
  outcomes : ∀ (i : Nat) (e : DmaEntry) (s : FileStored × DmaEntry), new[i]? = some e → stored[i]? = some s → FileOutcome original patched base rom' old[i]? e s
  grows : rom.length ≤ rom'.length ∧ rom'.length ≤ rom.length + (new.map fun e => e.span + 15).sum
  leaves : ∀ j < rom.length, (∀ (i : Nat) (s : FileStored × DmaEntry), stored[i]? = some s → ¬Rewrites old[i]? s j) → byteAt rom' j = byteAt rom j

/-- Files that are stored plain, apart from each other in the ROM. -/
def PlainApart (o o' : DmaEntry) : Prop := o.used → o.romEnd = 0 → o'.used → o'.romEnd = 0 → ∀ j, o.Holds j → ¬o'.Holds j

theorem FilesLeft.rewritten (h : FilesLeft original patched base rom old new rom' stored) {i j : Nat} (hs : stored[i]? = some s)
    (hj : Rewrites old[i]? s j) : ∃ o ∈ old, o.used ∧ o.romEnd = 0 ∧ o.Holds j := by
  have hi : i < new.length := h.count ▸ (List.getElem?_eq_some_iff.mp hs).1
  obtain ⟨hplace, o, ho, hholds⟩ := hj
  have hmem := List.mem_of_getElem? ho
  cases h.outcomes i _ s (List.getElem?_eq_getElem hi) hs with
  | absent | kept | moved => nomatch hplace
  | inPlace he hused hprior hfile hzero hchanged hin hbytes =>
    obtain rfl := Option.some.inj (hprior.symm.trans ho)
    exact ⟨_, hmem, hused, hzero, hholds⟩

theorem storeFiles_ok (hbase : base ≤ rom.length)
    (hspan : ∀ e ∈ new, e.used → e.vromStart ≤ e.vromEnd ∧ e.vromEnd.toNat ≤ patched.length)
    (hplain : ∀ o ∈ old, o.used → o.romEnd = 0 → o.romStart.toNat + o.span ≤ base) (hapart : old.Pairwise PlainApart) :
    ∃ rom' stored, storeFiles original patched old new rom = .ok (rom', stored) ∧
      FilesLeft original patched base rom old new rom' stored := by
  induction new generalizing old rom with
  | nil => exact ⟨rom, [], rfl, rfl, fun i e s he => (nomatch he), by simp, fun _ _ _ => rfl⟩
  | cons e new ih =>
    obtain ⟨he, hrest⟩ := List.forall_mem_cons.mp hspan
    obtain ⟨mid, s, hfile, hstep⟩ := @storeFile_ok original patched rom base e old.head? hbase he
      fun o ho => hplain o (List.mem_of_head? ho)
    obtain ⟨hlow, hhigh⟩ := hstep.grows
    obtain ⟨rom', stored, hfiles, hleft⟩ := @ih mid old.tail (by omega) hrest (fun o ho => hplain o (List.mem_of_mem_tail ho)) hapart.tail
    obtain ⟨hlow', hhigh'⟩ := hleft.grows
    have hlater : ∀ j < mid.length, (∀ o ∈ old.tail, o.used → o.romEnd = 0 → ¬o.Holds j) → byteAt rom' j = byteAt mid j := by
      intro j hj hfree
      refine hleft.leaves j hj fun i s hs hrewrites => ?_
      obtain ⟨o, ho, hused, hzero, hholds⟩ := hleft.rewritten hs hrewrites
      exact hfree o ho hused hzero hholds
    refine ⟨rom', s :: stored, ?_, by rw [List.length_cons, List.length_cons, hleft.count], fun i f s' hf hs' => ?_, ⟨by omega, ?_⟩,
      fun j hj hfree => ?_⟩
    · rw [storeFiles, hfile]
      change (storeFiles original patched old.tail new mid >>= _) = _
      rw [hfiles]
      rfl
    · cases i with
      | zero =>
        obtain rfl := Option.some.inj hf
        obtain rfl := Option.some.inj hs'
        rw [← List.head?_eq_getElem?]
        refine hstep.outcome.later hlow' (fun o ho _ hused hzero j hholds => ?_) fun j hj hlt => ?_
        · have hroom := hplain o (List.mem_of_head? ho) hused hzero
          have hlt : j < mid.length := by
            have hend := hholds.2
            omega
          refine hlater j hlt fun o' ho' hused' hzero' => ?_
          obtain ⟨tail, rfl⟩ := List.head?_eq_some_iff.mp ho
          exact List.rel_of_pairwise_cons hapart ho' hused hzero hused' hzero' j hholds
        · refine hlater j hlt fun o ho hused hzero hholds => ?_
          have hroom := hplain o (List.mem_of_mem_tail ho) hused hzero
          have hend := hholds.2
          omega
      | succ i =>
        rw [← List.getElem?_tail]
        exact hleft.outcomes i f s' hf hs'
    · rw [List.map_cons, List.sum_cons]
      omega
    · rw [hleft.leaves j (by omega) fun i s' hs' => by
        rw [List.getElem?_tail]
        exact hfree (i + 1) s' hs']
      refine hstep.leaves j hj ?_
      rw [List.head?_eq_getElem?]
      exact hfree 0 s rfl

end Files

end Multi64
