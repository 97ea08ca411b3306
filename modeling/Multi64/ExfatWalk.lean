import Multi64.ExfatAgree

/-! A listing as a walk over the slots of a directory, and what becomes of it
where a region of the slots is rewritten. -/

namespace Multi64

namespace Exfat

/-- A listing ends at slot `i`. -/
def EndsAt (slots : List Bytes) (i : Nat) : Prop := slots.length ≤ i ∨ byteAt (slot slots i) 0 = 0

/-- From slot `i` a listing lists `l` and comes to slot `p`. -/
inductive Walk (slots : List Bytes) : Nat → List (Nat × DecodedEntry) → Nat → Prop where
  | here (i : Nat) : Walk slots i [] i
  | skip {i p : Nat} {l : List (Nat × DecodedEntry)} (hend : ¬EndsAt slots i) (hd : decodeEntrySet slots i = none)
      (rest : Walk slots (i + 1) l p) : Walk slots i l p
  | set {i p k : Nat} {e : DecodedEntry} {l : List (Nat × DecodedEntry)} (hd : decodeEntrySet slots i = some (e, k))
      (rest : Walk slots (i + 1 + k) l p) : Walk slots i ((i, e) :: l) p

section Walks

variable {slots slots' : List Bytes} {i j k n p q r w : Nat} {e : DecodedEntry} {l m : List (Nat × DecodedEntry)}

/-- What is listed from slot `i` on. -/
def listAt (slots : List Bytes) (i : Nat) : List (Nat × DecodedEntry) := listFrom slots slots.length i

theorem listAt_end (h : EndsAt slots i) : listAt slots i = [] := listFrom_end h

theorem listAt_skip (h : ¬EndsAt slots i) (hd : decodeEntrySet slots i = none) : listAt slots i = listAt slots (i + 1) := by
  have hskip := @listFrom_skip slots i slots.length h hd
  rw [listAt, listAt, ← hskip]
  exact listFrom_fuel (Nat.le_add_right _ _) (by omega)

theorem listAt_set (hd : decodeEntrySet slots i = some (e, k)) : listAt slots i = (i, e) :: listAt slots (i + 1 + k) := by
  have hset := @listFrom_set slots i k slots.length e hd
  rw [listAt, listAt, ← hset]
  exact listFrom_fuel (Nat.le_add_right _ _) (by omega)

theorem Walk.list (h : Walk slots i l p) : listAt slots i = l ++ listAt slots p := by
  induction h with
  | here => rfl
  | skip hend hd _ ih => rw [listAt_skip hend hd, ih]
  | set hd _ ih => rw [listAt_set hd, ih, List.cons_append]

theorem Walk.trans (h : Walk slots i l p) (h' : Walk slots p m q) : Walk slots i (l ++ m) q := by
  induction h with
  | here => exact h'
  | skip hend hd _ ih => exact .skip hend hd (ih h')
  | set hd _ ih => exact .set hd (ih h')

theorem decode_bound (hd : decodeEntrySet slots i = some (e, k)) : i + k < slots.length ∧ k = secondaryCount slots i := by
  obtain ⟨hs, hk, _⟩ := decodeEntrySet_some hd
  simp only [hasStream, Bool.and_eq_true, decide_eq_true_eq] at hs
  exact ⟨by omega, hk⟩

/-- Every listing is a walk to where it ends. -/
theorem walk_of_list : ∃ p, Walk slots i (listAt slots i) p ∧ EndsAt slots p := by
  induction hn : slots.length - i using Nat.strong_induction_on generalizing i with
  | h n ih =>
    by_cases hend : EndsAt slots i
    · exact ⟨i, listAt_end hend ▸ .here i, hend⟩
    have hlt : i < slots.length := Nat.not_le.mp (not_or.mp hend).1
    cases hd : decodeEntrySet slots i with
    | none =>
      obtain ⟨p, hwalk, hp⟩ := ih (slots.length - (i + 1)) (by omega) rfl
      exact ⟨p, listAt_skip hend hd ▸ .skip hend hd hwalk, hp⟩
    | some d =>
      obtain ⟨e, k⟩ := d
      obtain ⟨p, hwalk, hp⟩ := ih (slots.length - (i + 1 + k)) (by omega) rfl
      exact ⟨p, listAt_set hd ▸ .set hd hwalk, hp⟩

theorem Walk.le (h : Walk slots i l p) : i ≤ p := by
  induction h with
  | here => exact Nat.le_refl _
  | skip _ _ _ ih => omega
  | set _ _ ih => omega

theorem Walk.mem (h : Walk slots i l p) (he : (j, e) ∈ l) :
    i ≤ j ∧ j < p ∧ ∃ k, decodeEntrySet slots j = some (e, k) ∧ j + 1 + k ≤ p := by
  induction h with
  | here => nomatch he
  | skip _ _ _ ih =>
    obtain ⟨hle, hrest⟩ := ih he
    exact ⟨by omega, hrest⟩
  | set hd rest ih =>
    have hle := rest.le
    rcases List.mem_cons.mp he with heq | he
    · obtain ⟨rfl, rfl⟩ := Prod.mk.inj heq
      exact ⟨Nat.le_refl _, by omega, _, hd, hle⟩
    · obtain ⟨hfrom, hrest⟩ := ih he
      exact ⟨by omega, hrest⟩

/-- No listed set has slot `r` among its secondaries. -/
def Uncovered (slots : List Bytes) (l : List (Nat × DecodedEntry)) (r : Nat) : Prop :=
  ∀ i e, (i, e) ∈ l → i < r → i + secondaryCount slots i < r

/-- A walk comes by every slot it does not jump over. -/
theorem Walk.split (h : Walk slots i l p) (hir : i ≤ r) (hrp : r ≤ p) (hfree : Uncovered slots l r) :
    ∃ l₁ l₂, l = l₁ ++ l₂ ∧ Walk slots i l₁ r ∧ Walk slots r l₂ p := by
  induction h with
  | here i =>
    obtain rfl : i = r := by omega
    exact ⟨[], [], rfl, .here i, .here i⟩
  | @skip i p l hend hd rest ih =>
    by_cases heq : i = r
    · subst heq
      exact ⟨[], l, rfl, .here i, .skip hend hd rest⟩
    · obtain ⟨l₁, l₂, rfl, h₁, h₂⟩ := ih (by omega) hrp hfree
      exact ⟨l₁, l₂, rfl, .skip hend hd h₁, h₂⟩
  | @set i p k e l hd rest ih =>
    by_cases heq : i = r
    · subst heq
      exact ⟨[], (i, e) :: l, rfl, .here i, .set hd rest⟩
    · have hk := (decode_bound hd).2
      have hpast := hfree i e List.mem_cons_self (by omega)
      obtain ⟨l₁, l₂, rfl, h₁, h₂⟩ := ih (by omega) hrp fun j f hf => hfree j f (List.mem_cons_of_mem _ hf)
      exact ⟨(i, e) :: l₁, l₂, rfl, .set hd h₁, h₂⟩

/-- A listed set, and the walk before and behind it. -/
theorem Walk.at_entry (h : Walk slots i l p) (he : (j, e) ∈ l) :
    ∃ l₁ l₂ k, l = l₁ ++ (j, e) :: l₂ ∧ Walk slots i l₁ j ∧ decodeEntrySet slots j = some (e, k) ∧ Walk slots (j + 1 + k) l₂ p := by
  induction h with
  | here => nomatch he
  | skip hend hd rest ih =>
    obtain ⟨l₁, l₂, k, rfl, h₁, hj, h₂⟩ := ih he
    exact ⟨l₁, l₂, k, rfl, .skip hend hd h₁, hj, h₂⟩
  | @set i p k f l hd rest ih =>
    rcases List.mem_cons.mp he with heq | he
    · obtain ⟨rfl, rfl⟩ := Prod.mk.inj heq
      exact ⟨[], l, k, rfl, .here j, hd, rest⟩
    · obtain ⟨l₁, l₂, k', rfl, h₁, hj, h₂⟩ := ih he
      exact ⟨(i, f) :: l₁, l₂, k', rfl, .set hd h₁, hj, h₂⟩

end Walks

section Regions

variable {slots slots' : List Bytes} {i j k r w : Nat} {e : DecodedEntry} {l : List (Nat × DecodedEntry)}

/-- The slots differ in the region from `r` on, of `w` slots, at most. -/
structure SameOutside (slots slots' : List Bytes) (r w : Nat) : Prop where
  length : slots'.length = slots.length
  before : ∀ i < r, slot slots' i = slot slots i
  behind : ∀ i, r + w ≤ i → slot slots' i = slot slots i

/-- A slot where no set goes on. -/
def NotSecondary (b : Bytes) : Prop := byteAt b 0 ≠ entryStreamExt ∧ byteAt b 0 ≠ entryFileName

theorem collectUnits_stop {nameLen : Nat} {x y : Bytes} (hx : byteAt x 0 ≠ entryFileName) (hy : byteAt y 0 ≠ entryFileName)
    (es xs ys : List Bytes) (acc : List UInt16) :
    collectUnits nameLen (es ++ x :: xs) acc = collectUnits nameLen (es ++ y :: ys) acc := by
  induction es generalizing acc with
  | nil => simp [collectUnits, hx, hy]
  | cons b es ih => simp [collectUnits, ih]

theorem slots_take (h : ∀ i < r, slot slots' i = slot slots i) (hlen : slots'.length = slots.length) (hr : r ≤ slots.length) :
    slots'.take r = slots.take r := by
  refine List.ext_getElem (by simp [hlen]) fun i hi hi' => ?_
  have hir : i < r := by
    rw [List.length_take] at hi'
    omega
  have hslot := h i hir
  simpa [slot, List.getD_eq_getElem?_getD, (by omega : i < slots.length), (by omega : i < slots'.length)] using hslot

/-- A set is read as before where the slots it is read from are. -/
theorem decode_congr (hlen : slots'.length = slots.length) (hprimary : slot slots' i = slot slots i)
    (hstream : slot slots' (i + 1) = slot slots (i + 1))
    (hnames : ∀ nameLen, collectUnits nameLen (nameSlots slots' i) [] = collectUnits nameLen (nameSlots slots i) []) :
    decodeEntrySet slots' i = decodeEntrySet slots i := by
  have hsec : secondaryCount slots' i = secondaryCount slots i := by rw [secondaryCount, secondaryCount, hprimary]
  have hhas : hasStream slots' i = hasStream slots i := by simp only [hasStream, hprimary, hstream, hsec, hlen]
  have hunits : nameUnits slots' i = nameUnits slots i := by simp only [nameUnits, hstream, hnames]
  simp only [decodeEntrySet, hhas, hunits, hprimary, hstream, hsec]

/-- Sets before a rewritten region are read as before, where no set goes on into
it. -/
theorem decode_before (h : SameOutside slots slots' r w) (hr : r < slots.length) (hold : NotSecondary (slot slots r))
    (hnew : NotSecondary (slot slots' r)) (hi : i < r) : decodeEntrySet slots' i = decodeEntrySet slots i := by
  have hprimary := h.before i hi
  by_cases hnext : i + 1 = r
  · have hs : hasStream slots i = false := by simp [hasStream, hnext, hold.1]
    have hs' : hasStream slots' i = false := by simp [hasStream, hnext, hnew.1]
    rw [decodeEntrySet_none hs, decodeEntrySet_none hs']
  · refine decode_congr h.length hprimary (h.before (i + 1) (by omega)) fun nameLen => ?_
    have hsec : secondaryCount slots' i = secondaryCount slots i := by rw [secondaryCount, secondaryCount, hprimary]
    obtain ⟨k, hk⟩ := Nat.exists_eq_add_of_le (by omega : i + 2 ≤ r)
    have hsplit (s : List Bytes) (hs : r < s.length) : s.drop (i + 2) = (s.take r).drop (i + 2) ++ slot s r :: s.drop (r + 1) := by
      rw [slot, List.getD_eq_getElem?_getD, List.getElem?_eq_getElem hs, Option.getD_some, ← List.drop_eq_getElem_cons hs,
        List.drop_take, hk, Nat.add_sub_cancel_left, ← List.drop_drop (i := k) (j := i + 2), List.take_append_drop]
    have hr' : r < slots'.length := by rw [h.length]; exact hr
    have hfront : ((slots.take r).drop (i + 2)).length = r - (i + 2) := by
      rw [List.length_drop, List.length_take]
      omega
    rw [nameSlots, nameSlots, hsec, hsplit slots hr, hsplit slots' hr', slots_take h.before h.length (Nat.le_of_lt hr),
      List.take_append, List.take_append, hfront]
    cases secondaryCount slots i - 1 - (r - (i + 2)) with
    | zero => simp
    | succ k => exact collectUnits_stop hnew.2 hold.2 _ _ _ _

theorem drop_eq_of_slots (hlen : slots'.length = slots.length) (h : ∀ i, r ≤ i → slot slots' i = slot slots i) :
    slots'.drop r = slots.drop r := by
  refine List.ext_getElem (by simp [hlen]) fun i hi hi' => ?_
  have hslot := h (r + i) (Nat.le_add_right _ _)
  rw [List.length_drop] at hi hi'
  simpa [slot, List.getD_eq_getElem?_getD, (by omega : r + i < slots.length), (by omega : r + i < slots'.length)] using hslot

theorem decode_behind (h : SameOutside slots slots' r w) (hi : r + w ≤ i) : decodeEntrySet slots' i = decodeEntrySet slots i := by
  have hslot : ∀ j, i ≤ j → slot slots' j = slot slots j := fun j hj => h.behind j (by omega)
  have hprimary := hslot i (Nat.le_refl i)
  refine decode_congr h.length hprimary (hslot (i + 1) (Nat.le_succ i)) fun nameLen => ?_
  have hdrop : slots'.drop (i + 2) = slots.drop (i + 2) := drop_eq_of_slots h.length fun j hj => hslot j (by omega)
  rw [nameSlots, nameSlots, secondaryCount, secondaryCount, hprimary, hdrop]

theorem Walk.before (h : SameOutside slots slots' r w) (hr : r < slots.length) (hold : NotSecondary (slot slots r))
    (hnew : NotSecondary (slot slots' r)) (hwalk : Walk slots i l r) : Walk slots' i l r := by
  induction hwalk with
  | here => exact .here _
  | skip hend hd rest ih =>
    have hi := rest.le
    refine .skip ?_ ((decode_before h hr hold hnew hi).trans hd) (ih h hr hold hnew)
    simpa only [EndsAt, h.length, h.before _ hi] using hend
  | set hd rest ih =>
    have hi := rest.le
    exact .set ((decode_before h hr hold hnew (by omega)).trans hd) (ih h hr hold hnew)

theorem listAt_behind (h : SameOutside slots slots' r w) (hi : r + w ≤ i) : listAt slots' i = listAt slots i := by
  rw [listAt, listAt, h.length]
  induction slots.length generalizing i with
  | zero => rfl
  | succ n ih =>
    simp only [listFrom, h.length, h.behind i hi, decode_behind h hi]
    rw [ih (by omega)]
    cases decodeEntrySet slots i with
    | none => rfl
    | some d =>
      obtain ⟨e, k⟩ := d
      simp only [ih (by omega : r + w ≤ i + 1 + k)]

/-- A rewritten region changes a listing where it is. -/
theorem listSlots_region (h : SameOutside slots slots' r w) (hr : r < slots.length) (hold : NotSecondary (slot slots r))
    (hnew : NotSecondary (slot slots' r)) {l₁ : List (Nat × DecodedEntry)} (hwalk : Walk slots 0 l₁ r) {m' : List (Nat × DecodedEntry)}
    (hwalk' : Walk slots' r m' (r + w)) : listSlots slots' = l₁ ++ m' ++ listAt slots (r + w) := by
  have hfront := (hwalk.before h hr hold hnew).trans hwalk'
  rw [← listAt_behind h (Nat.le_refl _)]
  exact hfront.list

/-- Slots where no set starts and no listing ends list nothing. -/
theorem Walk.through (hlen : r + w ≤ slots.length)
    (h : ∀ i, r ≤ i → i < r + w → byteAt (slot slots i) 0 ≠ 0 ∧ byteAt (slot slots i) 0 ≠ entryFileDirectory) : Walk slots r [] (r + w) := by
  induction w generalizing r with
  | zero => exact .here r
  | succ w ih =>
    obtain ⟨hzero, hkind⟩ := h r (Nat.le_refl r) (by omega)
    have hs : hasStream slots r = false := by
      by_contra hs
      exact hkind (hasStream_file (Bool.of_not_eq_false hs)).2
    have hend : ¬EndsAt slots r := fun hend => hend.elim (fun hle => by omega) hzero
    have hrest := ih (r := r + 1) (by omega) fun i hi hlt => h i (by omega) (by omega)
    rw [show r + (w + 1) = r + 1 + w by omega]
    exact .skip hend (decodeEntrySet_none hs) hrest

/-- Slots that are not in use, up to where a directory ends, list nothing. -/
theorem Walk.unused (hlen : r + w ≤ slots.length) (h : ∀ i, r ≤ i → i < r + w → byteAt (slot slots i) 0 ≠ 0 ∧ byteAt (slot slots i) 0 &&& entryInUse = 0) :
    Walk slots r [] (r + w) := by
  refine Walk.through hlen fun i hi hlt => ?_
  obtain ⟨hzero, huse⟩ := h i hi hlt
  refine ⟨hzero, fun hkind => ?_⟩
  rw [hkind] at huse
  exact absurd huse (by decide)

end Regions

end Exfat

end Multi64
