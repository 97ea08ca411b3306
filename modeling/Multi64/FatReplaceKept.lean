import Multi64.ExfatResolve
import Multi64.FatReplace
import Multi64.Lib.Cycle

/-! That a replaced file is never lost: what is relied on of `fatfs`, each step of
`write_file_fat_streaming_impl` over it, and the names whose temporary name is
their own. -/

namespace Multi64

namespace Fat

section Contract

variable {ε σ δ φ : Type}

/-- Nothing but what is at `n` in the folder has changed. -/
def Elsewhere (fold : Text → Text) (file : σ → δ → Text → Option Bytes) (d : δ) (n : Text) (s s' : σ) : Prop :=
  ∀ d' x, ¬(d' = d ∧ fold x = fold n) → file s' d' x = file s d' x

/-- `fatfs` as it is relied on: what the file at a name holds, names compared
ignoring case, and each step complete or nothing but part of a file's contents. -/
structure Fatfs.Contract (D : Fatfs ε σ δ φ) (fold : Text → Text) (file : σ → δ → Text → Option Bytes) (place : φ → δ × Text) : Prop where
  folded {s : σ} {d : δ} {a b : Text} (h : fold a = fold b) : file s d a = file s d b
  fileSystem (s : σ) : file (D.fileSystem s).2 = file s
  openDir (d : δ) (p : Text) (s : σ) : file (D.openDir d p s).2 = file s
  createDir (d : δ) (p : Text) (s : σ) : file (D.createDir d p s).2 = file s
  unmount (s : σ) : file (D.unmount s).2 = file s
  openFile (d : δ) (n : Text) (s : σ) : file (D.openFile d n s).2 = file s
  missing {d : δ} {n : Text} {s : σ} {e : ε} (h : (D.openFile d n s).1 = .error e) (he : D.notFound e = true) : file s d n = none
  createFile_ok {d : δ} {n : Text} {s : σ} {f : φ} (h : (D.createFile d n s).1 = .ok f) :
    place f = (d, n) ∧ Elsewhere fold file d n s (D.createFile d n s).2
  createFile_error {d : δ} {n : Text} {s : σ} {e : ε} (h : (D.createFile d n s).1 = .error e) : file (D.createFile d n s).2 = file s
  remove_ok {d : δ} {n : Text} {s : σ} {u : Unit} (h : (D.remove d n s).1 = .ok u) : Elsewhere fold file d n s (D.remove d n s).2
  remove_error {d : δ} {n : Text} {s : σ} {e : ε} (h : (D.remove d n s).1 = .error e) : file (D.remove d n s).2 = file s
  rename_ok {d : δ} {a b : Text} {s : σ} {u : Unit} (h : (D.rename d a d b s).1 = .ok u) : file (D.rename d a d b s).2 d b = file s d a
  rename_error {d : δ} {a b : Text} {s : σ} {e : ε} (h : (D.rename d a d b s).1 = .error e) : file (D.rename d a d b s).2 = file s
  truncate_ok {f : φ} {s : σ} {u : Unit} (h : (D.truncate f s).1 = .ok u) : file (D.truncate f s).2 (place f).1 (place f).2 = some []
  truncate_else (f : φ) (s : σ) : Elsewhere fold file (place f).1 (place f).2 s (D.truncate f s).2
  writeAll_ok {f : φ} {b c : Bytes} {s : σ} {u : Unit} (h : (D.writeAll f b s).1 = .ok u) (hc : file s (place f).1 (place f).2 = some c) :
    file (D.writeAll f b s).2 (place f).1 (place f).2 = some (c ++ b)
  writeAll_else (f : φ) (b : Bytes) (s : σ) : Elsewhere fold file (place f).1 (place f).2 s (D.writeAll f b s).2
  flush_ok {f : φ} {s : σ} {u : Unit} (h : (D.flush f s).1 = .ok u) : file (D.flush f s).2 = file s
  flush_else (f : φ) (s : σ) : Elsewhere fold file (place f).1 (place f).2 s (D.flush f s).2

/-- What the source supplies. -/
def sourceBytes : List (Except ε Bytes) → Bytes
  | [] => []
  | .error _ :: _ => []
  | .ok b :: source => if b = [] then [] else b ++ sourceBytes source

/-- The new content is whole under the name, or the original is, or the error says
where the new one is. -/
def Kept (file : σ → δ → Text → Option Bytes) (d : δ) (name : Text) (old new : Bytes) : Except (FatError ε) Unit → σ → Prop
  | .ok _, s => file s d name = some new
  | .error e, s => file s d name = some old ∨ file s d name = some new ∨ ∃ t, e.reports = some t ∧ file s d t = some new

end Contract

section Steps

variable {ε ε' σ δ φ α : Type} {D : Fatfs ε σ δ φ} {fold : Text → Text} {file : σ → δ → Text → Option Bytes} {place : φ → δ × Text}
  {d : δ} {name t : Text} {old b c : Bytes} {len turn written : Nat} {source : List (Except ε Bytes)} {progress : Nat → Bool} {s : σ} {f : φ}

/-- From a state with `P`, running `m` ends in `Q`. -/
abbrev Ends (P : σ → Prop) (m : Eff ε σ α) (Q : Except ε α → σ → Prop) : Prop := Eff.Runs (fun _ _ => True) P m Q

theorem ends_of {P : σ → Prop} {m : Eff ε σ α} {Q : Except ε α → σ → Prop} (h : ∀ s, P s → Q (m s).1 (m s).2) : Ends P m Q :=
  fun s hs => ⟨.single trivial, h s hs⟩

/-- `P` holds, and after a success `Q` too. -/
def Got (P : σ → Prop) (Q : α → σ → Prop) : Except ε α → σ → Prop
  | .ok a, s => P s ∧ Q a s
  | .error _, s => P s

theorem got_of {P : σ → Prop} {Q : α → σ → Prop} {r : Except ε α} (h : P s) (hok : ∀ a, r = .ok a → Q a s) : Got P Q r s := by
  cases r with
  | ok a => exact ⟨h, hok a rfl⟩
  | error e => exact h

theorem Ends.given {P : σ → Prop} {R : Prop} {m : Eff ε σ α} {Q : Except ε α → σ → Prop} (h : R → Ends P m Q) :
    Ends (fun s => P s ∧ R) m Q := fun s hs => h hs.2 s hs.1

theorem io_ok {m : Eff ε σ α} {a : α} (h : (io m s).1 = .ok a) : (m s).1 = .ok a := by
  unfold io mapErr at h
  cases hm : (m s).1 with
  | ok b =>
    rw [hm] at h
    exact congrArg Except.ok (Except.ok.inj h)
  | error e =>
    rw [hm] at h
    nomatch h

/-- The original is under its name. -/
def Whole (file : σ → δ → Text → Option Bytes) (d : δ) (name : Text) (old : Bytes) (s : σ) : Prop := file s d name = some old

/-- And the copy so far under the temporary one. -/
def Copying (file : σ → δ → Text → Option Bytes) (d : δ) (name t : Text) (old c : Bytes) (s : σ) : Prop :=
  file s d name = some old ∧ file s d t = some c

theorem Whole.elsewhere {s' : σ} (h : Whole file d name old s) (hne : fold t ≠ fold name) (helse : Elsewhere fold file d t s s') :
    Whole file d name old s' := (helse d name fun hsame => hne hsame.2.symm).trans h

section Replacing

variable (hD : D.Contract fold file place) (hne : fold t ≠ fold name)

include hD hne

theorem create_ends : Ends (Whole file d name old) (io (D.createFile d t)) (Got (Whole file d name old) fun f _ => place f = (d, t)) := by
  refine ends_of fun s hs => ?_
  cases hr : (D.createFile d t s).1 with
  | ok f =>
    obtain ⟨hplace, helse⟩ := hD.createFile_ok hr
    refine got_of (hs.elsewhere hne helse) fun g hg => ?_
    obtain rfl := Except.ok.inj (hr.symm.trans (io_ok hg))
    exact hplace
  | error e =>
    refine got_of ?_ fun g hg => ?_
    · have hsame := hD.createFile_error hr
      exact (congrFun (congrFun hsame d) name).trans hs
    · rw [io_ok hg] at hr
      nomatch hr

theorem truncate_ends (hf : place f = (d, t)) : Ends (Whole file d name old) (io (D.truncate f))
    (Got (Whole file d name old) fun _ s => file s d t = some []) := by
  refine ends_of fun s hs => got_of ?_ fun u hu => ?_
  · have helse := hD.truncate_else f s
    rw [hf] at helse
    exact hs.elsewhere hne helse
  · have hempty := hD.truncate_ok (io_ok hu)
    rwa [hf] at hempty

theorem write_ends (hf : place f = (d, t)) : Ends (Copying file d name t old c) (io (D.writeAll f b))
    (Got (Whole file d name old) fun _ s => file s d t = some (c ++ b)) := by
  refine ends_of fun s hs => got_of ?_ fun u hu => ?_
  · have helse := hD.writeAll_else f b s
    rw [hf] at helse
    exact Whole.elsewhere hs.1 hne helse
  · have hmore := @Fatfs.Contract.writeAll_ok _ _ _ _ _ _ _ _ hD f b c s u (io_ok hu)
    rw [hf] at hmore
    exact hmore hs.2

theorem flush_ends (hf : place f = (d, t)) : Ends (Copying file d name t old c) (io (D.flush f))
    (Got (Whole file d name old) fun _ s => file s d t = some c) := by
  refine ends_of fun s hs => got_of ?_ fun u hu => ?_
  · have helse := hD.flush_else f s
    rw [hf] at helse
    exact Whole.elsewhere hs.1 hne helse
  · have hsame := hD.flush_ok (io_ok hu)
    exact (congrFun (congrFun hsame d) t).trans hs.2

theorem remove_ends : Ends (Whole file d name old) (io (D.remove d t)) fun _ => Whole file d name old := by
  refine ends_of fun s hs => ?_
  cases hr : (D.remove d t s).1 with
  | ok u => exact hs.elsewhere hne (hD.remove_ok hr)
  | error e => exact (congrFun (congrFun (hD.remove_error hr) d) name).trans hs

/-- Every turn adds what it read. -/
theorem copyLoop_ends (hf : place f = (d, t)) : Ends (Copying file d name t old c) (copyLoop D f len progress source turn written)
    (Got (Whole file d name old) fun w s => file s d t = some (c ++ sourceBytes source) ∧ w = written + (sourceBytes source).length) := by
  induction source generalizing c turn written with
  | nil => exact Eff.Runs.pure fun s hs => ⟨hs.1, by simpa [sourceBytes] using hs.2⟩
  | cons r source ih =>
    cases r with
    | error e => exact Eff.Runs.fail fun s hs => hs.1
    | ok b =>
      rw [copyLoop]
      by_cases hb : b = []
      · rw [if_pos hb]
        exact Eff.Runs.pure fun s hs => ⟨hs.1, by simpa [sourceBytes, hb] using hs.2⟩
      rw [if_neg hb]
      by_cases hgrew : len < written + b.length
      · rw [if_pos hgrew]
        exact Eff.Runs.fail fun s hs => hs.1
      rw [if_neg hgrew]
      refine Eff.Runs.bind _ (write_ends hD hne hf) (fun _ => ?_) fun e s hs => hs
      by_cases hstop : progress turn = false
      · rw [if_pos hstop]
        exact Eff.Runs.fail fun s hs => hs.1
      · rw [if_neg hstop]
        refine (ih (c := c ++ b)).weaken (fun s hs => hs) fun r s hr => ?_
        cases r with
        | error e => exact hr
        | ok w =>
          obtain ⟨hwhole, hcopy, hw⟩ := hr
          refine ⟨hwhole, ?_, ?_⟩
          · rw [hcopy, sourceBytes, if_neg hb, List.append_assoc]
          · rw [hw, sourceBytes, if_neg hb, List.length_append, Nat.add_assoc]

theorem writeCopy_ends : Ends (Whole file d name old) (writeCopy D d t len source progress)
    (Got (Whole file d name old) fun _ s => file s d t = some (sourceBytes source) ∧ (sourceBytes source).length = len) := by
  unfold writeCopy
  refine Eff.Runs.bind _ (create_ends hD hne) (fun f => Ends.given fun hf => ?_) fun e s hs => hs
  refine Eff.Runs.bind _ (truncate_ends hD hne hf) (fun _ => ?_) fun e s hs => hs
  refine Eff.Runs.bind _ (copyLoop_ends (c := []) hD hne hf) (fun w => ?_) fun e s hs => hs
  by_cases hlen : w ≠ len
  · rw [if_pos hlen]
    exact Eff.Runs.fail fun s hs => hs.1
  rw [if_neg hlen]
  intro s hs
  obtain ⟨hwhole, hcopy, hw⟩ := hs
  refine (flush_ends hD hne hf).weaken (fun s hs => hs) (fun r s hr => ?_) s ⟨hwhole, hcopy⟩
  cases r with
  | error e => exact hr
  | ok u =>
    refine ⟨hr.1, hr.2, ?_⟩
    rw [Nat.zero_add] at hw
    exact hw.symm.trans (not_not.mp hlen)

/-- With the original taken out the copy is still there. -/
theorem makeRoom_ends : Ends (Copying file d name t old c) (io (D.remove d name)) fun r s =>
    match r with
    | .ok _ => file s d t = some c
    | .error _ => Whole file d name old s := by
  refine ends_of fun s hs => ?_
  unfold io mapErr
  cases hr : (D.remove d name s).1 with
  | ok u => exact (hD.remove_ok hr d t fun hsame => hne hsame.2).trans hs.2
  | error e => exact (congrFun (congrFun (hD.remove_error hr) d) name).trans hs.1

/-- The copy is put in the original's place, or one of the two is where it was. -/
theorem putInPlace_ends : Ends (Copying file d name t old c) (putInPlace D d name t) (Kept file d name old c) := by
  unfold putInPlace
  refine Eff.Runs.bind _ (makeRoom_ends hD hne) (fun _ => ends_of fun s hs => ?_) fun e s hs => .inl hs
  unfold mapErr
  cases hr : (D.rename d t d name s).1 with
  | ok u => exact (hD.rename_ok hr).trans hs
  | error e => exact .inr (.inr ⟨t, rfl, (congrFun (congrFun (hD.rename_error hr) d) t).trans hs⟩)

end Replacing

theorem isReplacing_ends (hD : D.Contract fold file place) : Ends (Whole file d name old) (isReplacing D d name)
    (Got (Whole file d name old) fun replacing _ => replacing = true) := by
  refine ends_of fun s hs => ?_
  unfold isReplacing
  have hsame := congrFun (congrFun (hD.openFile d name s) d) name
  have hmissing := @Fatfs.Contract.missing _ _ _ _ _ _ _ _ hD d name s
  revert hsame hmissing
  obtain ⟨r, s'⟩ := D.openFile d name s
  intro hsame hmissing
  cases r with
  | ok f => exact ⟨hsame.trans hs, rfl⟩
  | error e =>
    by_cases he : D.notFound e = true
    · rw [Whole, hmissing rfl he] at hs
      cases hs
    · simp only [if_neg he]
      exact hsame.trans hs

theorem writeInDir_ends (hD : D.Contract fold file place) (hne : fold (fatReplaceTempName name) ≠ fold name) :
    Ends (Whole file d name old) (writeInDir D d name len source progress) (Kept file d name old (sourceBytes source)) := by
  unfold writeInDir
  refine Eff.Runs.bind _ (isReplacing_ends hD) (fun replacing s hs => ?_) fun e s hs => .inl hs
  obtain ⟨hwhole, rfl⟩ := hs
  simp only [if_true]
  refine Eff.Runs.attempt_bind _ (remove_ends hD hne) (fun _ => ?_) s hwhole
  refine Eff.Runs.attempt_bind _ (writeCopy_ends hD hne) fun r => ?_
  cases r with
  | error e =>
    refine Eff.Runs.attempt_bind _ (remove_ends hD hne) fun _ => ?_
    exact Eff.Runs.fail fun s hs => .inl hs
  | ok u => exact (putInPlace_ends hD hne).weaken (fun s hs => ⟨hs.1, hs.2.1⟩) fun r s hr => hr

theorem walkParents_ends (hD : D.Contract fold file place) (dir : δ) (parents : List Text) :
    Ends (Whole file d name old) (walkParents D dir parents) fun _ => Whole file d name old := by
  induction parents generalizing dir with
  | nil => exact Eff.Runs.pure fun s hs => hs
  | cons p parents ih =>
    refine Eff.Runs.bind (fun _ => Whole file d name old) (ends_of fun s hs => ?_) (fun dir => ih dir) fun e s hs => hs
    unfold openOrCreate
    have hopen := congrFun (congrFun (hD.openDir dir p s) d) name
    revert hopen
    obtain ⟨r, s'⟩ := D.openDir dir p s
    intro hopen
    cases r with
    | ok dir => exact hopen.trans hs
    | error e => exact (congrFun (congrFun (hD.createDir dir p s') d) name).trans (hopen.trans hs)

/-- A file that a path leads to is replaced whole, or is where it was, unless its
temporary name is its own. -/
theorem writeFileFatStreaming_kept (hD : D.Contract fold file place) {path : Text} (hlast : (pathParts path).getLast? = some name)
    (hne : fold (fatReplaceTempName name) ≠ fold name) (hs : file s d name = some old)
    (hdir : ∀ d', (walkParents D D.rootDir (pathParts path).dropLast (D.fileSystem s).2).1 = .ok d' → d' = d) :
    Kept file d name old (sourceBytes source) (writeFileFatStreaming D len source progress path s).1
      (writeFileFatStreaming D len source progress path s).2 := by
  have hmount : Ends (fun s' => s' = s) (io D.fileSystem) (Got (Whole file d name old) fun _ s' => s' = (D.fileSystem s).2) := by
    refine ends_of fun s' hs' => ?_
    rw [hs']
    exact got_of ((congrFun (congrFun (hD.fileSystem s) d) name).trans hs) fun _ _ => rfl
  have hwalk : Ends (fun s' => Whole file d name old s' ∧ s' = (D.fileSystem s).2) (walkParents D D.rootDir (pathParts path).dropLast)
      (Got (Whole file d name old) fun d' _ => d' = d) := by
    refine ends_of fun s' hs' => got_of (walkParents_ends hD D.rootDir _ s' hs'.1).2 fun d' hd' => hdir d' ?_
    rw [← hs'.2]
    exact hd'
  have hunmount : Ends (fun s' => file s' d name = some (sourceBytes source)) (io D.unmount)
      (Kept file d name old (sourceBytes source)) := by
    refine ends_of fun s' hs' => ?_
    have hsame := (congrFun (congrFun (hD.unmount s') d) name).trans hs'
    unfold io mapErr
    cases (D.unmount s').1 with
    | ok u => exact hsame
    | error e => exact .inr (.inl hsame)
  have hall : Ends (fun s' => s' = s) (writeFileFatStreaming D len source progress path) (Kept file d name old (sourceBytes source)) := by
    unfold writeFileFatStreaming
    simp only [hlast]
    refine Eff.Runs.bind _ hmount (fun _ => ?_) fun e s' hs' => .inl hs'
    cases refuseDotNames (pathParts path) with
    | error e => exact Eff.Runs.fail fun s' hs' => .inl hs'.1
    | ok u =>
      refine Eff.Runs.bind _ hwalk (fun d' => Ends.given fun hd' => ?_) fun e s' hs' => .inl hs'
      rw [hd']
      exact Eff.Runs.bind _ (writeInDir_ends hD hne) (fun _ => hunmount) fun e s' hs' => hs'
  exact (hall s rfl).2

end Steps

section Names

variable {toUppercase : Char → Text} {allowed : Char → Bool} {room bytes : Nat} {name : Text}

/-- A name as names are compared. -/
def folded (toUppercase : Char → Text) (name : Text) : Text := name.flatMap toUppercase

theorem keptChars_prefix (room bytes : Nat) (name : Text) : keptChars room bytes name <+: name := by
  induction name generalizing bytes with
  | nil => simp [keptChars]
  | cons c name ih =>
    rw [keptChars]
    by_cases hroom : bytes + c.utf8Size ≤ room
    · rw [if_pos hroom]
      exact (List.cons_prefix_cons).mpr ⟨rfl, ih _⟩
    · rw [if_neg hroom]
      exact List.nil_prefix

theorem keptChars_bytes (h : bytes ≤ room) : bytes + utf8Len (keptChars room bytes name) ≤ room := by
  induction name generalizing bytes with
  | nil => simpa [keptChars, utf8Len] using h
  | cons c name ih =>
    rw [keptChars]
    by_cases hroom : bytes + c.utf8Size ≤ room
    · have hrest := ih hroom
      rw [if_pos hroom, utf8Len, List.map_cons, List.sum_cons]
      unfold utf8Len at hrest
      omega
    · simpa [if_neg hroom, utf8Len] using h

theorem utf8Size_four {c : Char} (h : 0x10000 ≤ c.toNat) : c.utf8Size = 4 := by
  have hval : c.toNat = c.val.toNat := rfl
  unfold Char.utf8Size
  simp only [UInt32.le_iff_toNat_le]
  rw [if_neg (by simp; omega), if_neg (by simp; omega), if_neg (by simp; omega)]

/-- A character takes no more units than bytes. -/
theorem encodeUtf16_length_le (name : Text) : (Text.encodeUtf16 name).length ≤ utf8Len name := by
  induction name with
  | nil => exact Nat.le_refl 0
  | cons c name ih =>
    have hc : (Text.encodeChar c).length ≤ c.utf8Size := by
      unfold Text.encodeChar
      simp only
      by_cases hlow : c.toNat < 0x10000
      · rw [if_pos hlow]
        exact c.utf8Size_pos
      · rw [if_neg hlow, utf8Size_four (Nat.not_lt.mp hlow)]
        simp
    unfold Text.encodeUtf16 utf8Len at ih ⊢
    rw [List.flatMap_cons, List.length_append, List.map_cons, List.sum_cons]
    omega

/-- A name that a volume and `fatfs` take: both lengths, and every character. -/
structure Admitted (allowed : Char → Bool) (name : Text) : Prop where
  nonempty : name ≠ []
  units : (Text.encodeUtf16 name).length ≤ 255
  bytes : utf8Len name ≤ 255
  chars : ∀ c ∈ name, allowed c = true

theorem tempName_admitted (hpre : ∀ c ∈ replacePrefix, allowed c = true) (hname : ∀ c ∈ name, allowed c = true) :
    Admitted allowed (fatReplaceTempName name) := by
  have hbytes : utf8Len (fatReplaceTempName name) ≤ 255 := by
    have hkept := @keptChars_bytes (255 - utf8Len replacePrefix) 0 name (Nat.zero_le _)
    have hlen : utf8Len replacePrefix = 17 := by decide
    unfold fatReplaceTempName fatTempName
    rw [hlen] at hkept ⊢
    unfold utf8Len at hkept hlen ⊢
    rw [List.map_append, List.sum_append, hlen]
    omega
  refine ⟨List.cons_ne_nil _ _, Nat.le_trans (encodeUtf16_length_le _) hbytes, hbytes, fun c hc => ?_⟩
  rcases List.mem_append.mp hc with hc | hc
  · exact hpre c hc
  · exact hname c (( keptChars_prefix _ _ _).subset hc)

/-- The prefix over and over, to one prefix past what is kept of the name. -/
def Repeats (toUppercase : Char → Text) (name : Text) : Prop :=
  (folded toUppercase (name.drop (keptChars 238 0 name).length)).length = (folded toUppercase replacePrefix).length ∧
    ∃ k, folded toUppercase name <+: cycles (folded toUppercase replacePrefix) k

theorem tempName_same_iff (hupper : ∀ c, toUppercase c ≠ []) :
    folded toUppercase (fatReplaceTempName name) = folded toUppercase name ↔ Repeats toUppercase name := by
  obtain ⟨rest, hrest⟩ := keptChars_prefix 238 0 name
  have hdrop := @List.drop_left _ (keptChars 238 0 name) rest
  rw [hrest] at hdrop
  have htemp : folded toUppercase (fatReplaceTempName name) =
      folded toUppercase replacePrefix ++ folded toUppercase (keptChars 238 0 name) := List.flatMap_append
  have hsplit : folded toUppercase name = folded toUppercase (keptChars 238 0 name) ++ folded toUppercase rest := by
    conv_lhs => rw [← hrest]
    exact List.flatMap_append
  have hpre : folded toUppercase replacePrefix ≠ [] := by
    intro hnil
    exact hupper '~' (List.flatMap_eq_nil_iff.mp hnil '~' List.mem_cons_self)
  rw [Repeats, hdrop, htemp, hsplit]
  exact append_eq_iff_cycles hpre

end Names

/-- Replacing a file of this name never loses it: the temporary name is one that
can be used, is not its own, and whatever fails, the original or the new content is
whole under the name, or the new content under one that the error reports. -/
def NeverLost (toUppercase : Char → Text) (allowed : Char → Bool) (name : Text) : Prop :=
  Admitted allowed (fatReplaceTempName name) ∧ folded toUppercase (fatReplaceTempName name) ≠ folded toUppercase name ∧
    ∀ (ε σ δ φ : Type) (D : Fatfs ε σ δ φ) (file : σ → δ → Text → Option Bytes) (place : φ → δ × Text),
      D.Contract (folded toUppercase) file place → ∀ (path : Text) (len : Nat) (source : List (Except ε Bytes)) (progress : Nat → Bool)
        (d : δ) (old : Bytes) (s : σ), (pathParts path).getLast? = some name → file s d name = some old →
        (∀ d', (walkParents D D.rootDir (pathParts path).dropLast (D.fileSystem s).2).1 = .ok d' → d' = d) →
          Kept file d name old (sourceBytes source) (writeFileFatStreaming D len source progress path s).1
            (writeFileFatStreaming D len source progress path s).2

/-- It is so of every name but the prefix over and over. -/
theorem replace_never_loses_iff {toUppercase : Char → Text} {allowed : Char → Bool} {name : Text} (hupper : ∀ c, toUppercase c ≠ [])
    (hpre : ∀ c ∈ replacePrefix, allowed c = true) (hname : ∀ c ∈ name, allowed c = true) :
    NeverLost toUppercase allowed name ↔ ¬Repeats toUppercase name := by
  rw [← tempName_same_iff hupper]
  constructor
  · exact fun h => h.2.1
  · intro hne
    refine ⟨tempName_admitted hpre hname, hne, ?_⟩
    intro ε σ δ φ D file place hD path len source progress d old s hlast hs hdir
    exact writeFileFatStreaming_kept hD hlast hne hs hdir

section Perfect

variable (fold : Text → Text)

/-- One folder, of which nothing fails. -/
def perfectFat : Fatfs Bool (Text → Option Bytes) Unit Text where
  fileSystem := pure ()
  rootDir := ()
  openDir _ _ := pure ()
  createDir _ _ := pure ()
  openFile _ n := fun s => if (s (fold n)).isSome then (.ok n, s) else (.error true, s)
  createFile _ n := fun s => (.ok n, Function.update s (fold n) (some ((s (fold n)).getD [])))
  remove _ n := fun s => if (s (fold n)).isSome then (.ok (), Function.update s (fold n) none) else (.error true, s)
  rename _ a _ b := fun s =>
    match s (fold a) with
    | none => (.error true, s)
    | some c =>
      if fold a = fold b then (.ok (), s)
      else if (s (fold b)).isSome then (.error false, s)
      else (.ok (), Function.update (Function.update s (fold a) none) (fold b) (some c))
  truncate f := fun s => (.ok (), Function.update s (fold f) (some []))
  writeAll f b := fun s => (.ok (), Function.update s (fold f) (some ((s (fold f)).getD [] ++ b)))
  flush _ := pure ()
  unmount := pure ()
  notFound e := e

theorem perfectFat_contract : (perfectFat fold).Contract fold (fun s _ n => s (fold n)) fun f => ((), f) := by
  have helse {s : Text → Option Bytes} {n : Text} {v : Option Bytes} :
      Elsewhere fold (fun s (_ : Unit) n => s (fold n)) () n s (Function.update s (fold n) v) := by
    intro d x hx
    have hne : fold x ≠ fold n := fun h => hx ⟨rfl, h⟩
    simp [Function.update_of_ne hne]
  have hsame {s : Text → Option Bytes} {n : Text} : Elsewhere fold (fun s (_ : Unit) n => s (fold n)) () n s s := fun _ _ _ => rfl
  constructor
  case folded => intro s d a b h; simp only [h]
  case fileSystem => exact fun _ => rfl
  case openDir => exact fun _ _ _ => rfl
  case createDir => exact fun _ _ _ => rfl
  case unmount => exact fun _ => rfl
  case openFile =>
    intro d n s
    by_cases hn : (s (fold n)).isSome = true
    · simp [perfectFat, hn]
    · simp [perfectFat, hn]
  case missing =>
    intro d n s e h _
    by_cases hn : (s (fold n)).isSome = true
    · simp [perfectFat, hn] at h
    · simpa using hn
  case createFile_ok =>
    intro d n s f h
    obtain rfl := Except.ok.inj h
    exact ⟨rfl, helse⟩
  case createFile_error => intro d n s e h; nomatch h
  case remove_ok =>
    intro d n s u h
    by_cases hn : (s (fold n)).isSome = true
    · simpa [perfectFat, hn] using helse
    · simp [perfectFat, hn] at h
  case remove_error =>
    intro d n s e h
    by_cases hn : (s (fold n)).isSome = true
    · simp [perfectFat, hn] at h
    · simp [perfectFat, hn]
  case rename_ok =>
    intro d a b s u h
    cases ha : s (fold a) with
    | none => simp [perfectFat, ha] at h
    | some c =>
      by_cases hab : fold a = fold b
      · simp [perfectFat, ← hab, ha]
      by_cases hb : (s (fold b)).isSome = true
      · simp [perfectFat, ha, hab, hb] at h
      · simp [perfectFat, ha, hab, hb]
  case rename_error =>
    intro d a b s e h
    cases ha : s (fold a) with
    | none => simp [perfectFat, ha]
    | some c =>
      by_cases hab : fold a = fold b
      · simp [perfectFat, ← hab, ha]
      by_cases hb : (s (fold b)).isSome = true
      · simp [perfectFat, ha, hab, hb]
      · simp [perfectFat, ha, hab, hb] at h
  case truncate_ok => intro f s u _; simp [perfectFat]
  case truncate_else => exact fun _ _ => helse
  case writeAll_ok => intro f b c s u _ hc; simp [perfectFat, hc]
  case writeAll_else => exact fun _ _ _ => helse
  case flush_ok => exact fun _ => rfl
  case flush_else => exact fun _ _ => hsame

end Perfect

def upcased : Text → Text := folded Exfat.upcaseAscii

/-- A folder with one file. -/
def oneFile (name : Text) (b : Bytes) : Text → Option Bytes := Function.update (fun _ => none) (upcased name) (some b)

theorem replace_never_loses_short :
    (writeFileFatStreaming (perfectFat upcased) 2 [.ok [2, 3]] (fun _ => true) ['r', 'o', 'm'] (oneFile ['r', 'o', 'm'] [1])).2
      (upcased ['r', 'o', 'm']) = some [2, 3] := by
  have hnot : ¬Repeats Exfat.upcaseAscii ['r', 'o', 'm'] := fun h => absurd h.1 (by decide +kernel)
  obtain ⟨_, _, hkept⟩ := (@replace_never_loses_iff Exfat.upcaseAscii (fun _ => true) ['r', 'o', 'm'] (fun _ => List.cons_ne_nil _ _)
    (fun _ _ => rfl) fun _ _ => rfl).mpr hnot
  have hfile := hkept Bool (Text → Option Bytes) Unit Text (perfectFat upcased) _ _ (perfectFat_contract upcased) ['r', 'o', 'm'] 2
    [.ok [2, 3]] (fun _ => true) () [1] (oneFile ['r', 'o', 'm'] [1]) (by decide +kernel) (by decide +kernel) fun _ _ => rfl
  have hok : (writeFileFatStreaming (perfectFat upcased) 2 [.ok [2, 3]] (fun _ => true) ['r', 'o', 'm'] (oneFile ['r', 'o', 'm'] [1])).1 =
      .ok () := by decide +kernel
  rw [hok] at hfile
  exact hfile

/-- The prefix 15 times. -/
def repeatedName : Text := (List.replicate 15 replacePrefix).flatten

/-- A file of that name is lost, and so is its replacement: nothing failed, and the
error names a copy that is not there. -/
theorem replace_loses_repeated :
    let r := writeFileFatStreaming (perfectFat upcased) 2 [.ok [2, 3]] (fun _ => true) repeatedName (oneFile repeatedName [1])
    repeatedName.length = 255 ∧ fatReplaceTempName repeatedName = repeatedName ∧
      r.1 = .error (.notRenamed true repeatedName repeatedName) ∧ r.2 (upcased repeatedName) = none := by
  decide +kernel

end Fat

end Multi64
