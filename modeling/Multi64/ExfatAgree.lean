import Mathlib
import Multi64.ExfatResolve

/-! The two scans of an exFAT directory over every content of it: where the one
that lists and the one that locates stand at the same entry sets, and where a set
with a broken name puts them out of step. -/

namespace Multi64

namespace Exfat

section Condition

variable (slots : List Bytes)

/-- The units are those of a text: each surrogate is one of a pair. -/
def paired (units : List UInt16) : Bool := Text.encodeUtf16 (Text.fromUtf16Lossy units) = units

/-- The entry set at `j` has the identity of the one at `i`. -/
def sameIdentity (i j : Nat) : Bool :=
  match decodeEntrySet slots i with
  | some (e, _) => matchesSet slots (.ofDecoded e) j
  | none => false

/-- What comes first among some slots. -/
inductive Stray where
  | through
  | ends
  | set
  deriving DecidableEq

/-- Whether an end marker or an entry set starts in `k` slots from `i`. -/
def strayFrom : Nat → Nat → Stray
  | 0, _ => .through
  | k + 1, i =>
    if byteAt (slot slots i) 0 = 0 then .ends
    else if (decodeEntrySet slots i).isSome then .set
    else strayFrom k (i + 1)

/-- From slot `i` on, no set has a name of its own beside those in `seen`. -/
def barrenFrom (seen : List Nat) : Nat → Nat → Bool
  | 0, _ => true
  | n + 1, i =>
    if slots.length ≤ i ∨ byteAt (slot slots i) 0 = 0 then true
    else if hasStream slots i = false then barrenFrom seen n (i + 1)
    else
      (match nameUnits slots i with
        | some units => !paired units || seen.any (sameIdentity slots i)
        | none => true) &&
      barrenFrom seen n (i + 1 + secondaryCount slots i)

/-- From slot `i` on, names are text, and among the slots of a set with a broken
name no set starts; where an end marker stands there, no other set follows. -/
def inStepFrom : Nat → List Nat → Nat → Bool
  | 0, _, _ => true
  | n + 1, seen, i =>
    if slots.length ≤ i ∨ byteAt (slot slots i) 0 = 0 then true
    else if hasStream slots i = false then inStepFrom n seen (i + 1)
    else
      match nameUnits slots i with
      | some units => paired units && inStepFrom n (i :: seen) (i + 1 + secondaryCount slots i)
      | none =>
        match strayFrom slots (secondaryCount slots i) (i + 1) with
        | .through => inStepFrom n seen (i + 1 + secondaryCount slots i)
        | .ends => barrenFrom slots seen n (i + 1 + secondaryCount slots i)
        | .set => false

def InStep : Prop := inStepFrom slots slots.length [] 0 = true

instance : Decidable (InStep slots) := inferInstanceAs (Decidable (_ = true))

/-- What is listed once is located where it is listed, and what is located is
listed there, as the set it was looked up as. -/
structure Agrees : Prop where
  found : ∀ i e, (i, e) ∈ listSlots slots →
    (∀ j f, (j, f) ∈ listSlots slots → EntryIdentity.ofDecoded f = .ofDecoded e → j = i) →
      findEntrySet slots (.ofDecoded e) = some i
  listed : ∀ want i, findEntrySet slots want = some i →
    ∃ e k, (i, e) ∈ listSlots slots ∧ decodeEntrySet slots i = some (e, k) ∧ EntryIdentity.ofDecoded e = want

/-- No two listed entries have one identity. -/
def Distinct : Prop := (listSlots slots).Pairwise fun p q => EntryIdentity.ofDecoded p.2 ≠ .ofDecoded q.2

end Condition

section Steps

variable {slots : List Bytes} {i j k n m : Nat} {e : DecodedEntry} {want : EntryIdentity}

theorem hasStream_file (h : hasStream slots i = true) : i < slots.length ∧ byteAt (slot slots i) 0 = entryFileDirectory := by
  simp only [hasStream, Bool.and_eq_true, decide_eq_true_eq] at h
  obtain ⟨⟨⟨⟨hkind, _⟩, _⟩, hlen⟩, _⟩ := h
  exact ⟨by omega, hkind⟩

theorem hasStream_goes (h : hasStream slots i = true) : ¬(slots.length ≤ i ∨ byteAt (slot slots i) 0 = 0) := by
  obtain ⟨hlen, hkind⟩ := hasStream_file h
  simp [hkind, entryFileDirectory, hlen]

theorem listFrom_end (h : slots.length ≤ i ∨ byteAt (slot slots i) 0 = 0) : listFrom slots n i = [] := by
  cases n with
  | zero => rfl
  | succ n => rcases h with h | h <;> simp [listFrom, h]

theorem listFrom_skip (h : ¬(slots.length ≤ i ∨ byteAt (slot slots i) 0 = 0)) (hd : decodeEntrySet slots i = none) :
    listFrom slots (n + 1) i = listFrom slots n (i + 1) := by
  obtain ⟨hlen, hzero⟩ := not_or.mp h
  simp [listFrom, hlen, hzero, hd]

theorem listFrom_set (hd : decodeEntrySet slots i = some (e, k)) :
    listFrom slots (n + 1) i = (i, e) :: listFrom slots n (i + 1 + k) := by
  obtain ⟨hlen, hkind⟩ := hasStream_file (decodeEntrySet_some hd).1
  have huse : (entryFileDirectory &&& entryInUse) ≠ 0 := by decide
  have hzero : entryFileDirectory ≠ 0 := by decide
  simp [listFrom, hd, hkind, Nat.not_le.mpr hlen, huse, hzero]

theorem findFrom_end (h : slots.length ≤ i ∨ byteAt (slot slots i) 0 = 0) : findFrom slots want n i = none := by
  cases n with
  | zero => rfl
  | succ n => rcases h with h | h <;> simp [findFrom, h]

theorem findFrom_skip (h : ¬(slots.length ≤ i ∨ byteAt (slot slots i) 0 = 0)) (hs : hasStream slots i = false) :
    findFrom slots want (n + 1) i = findFrom slots want n (i + 1) := by
  obtain ⟨hlen, hzero⟩ := not_or.mp h
  simp [findFrom, hlen, hzero, hs]

theorem findFrom_set (hs : hasStream slots i = true) : findFrom slots want (n + 1) i =
    if matchesSet slots want i then some i else findFrom slots want n (i + 1 + secondaryCount slots i) := by
  obtain ⟨hlen, hzero⟩ := not_or.mp (hasStream_goes hs)
  simp [findFrom, hlen, hzero, hs]

theorem findFrom_le (h : findFrom slots want n i = some j) : i ≤ j := by
  induction n generalizing i with
  | zero => nomatch h
  | succ n ih =>
    by_cases hend : slots.length ≤ i ∨ byteAt (slot slots i) 0 = 0
    · rw [findFrom_end hend] at h
      nomatch h
    by_cases hs : hasStream slots i = false
    · rw [findFrom_skip hend hs] at h
      exact Nat.le_of_succ_le (ih h)
    · rw [findFrom_set (Bool.of_not_eq_false hs)] at h
      by_cases hm : matchesSet slots want i = true
      · rw [if_pos hm] at h
        exact Nat.le_of_eq (Option.some.inj h)
      · rw [if_neg hm] at h
        have hle := ih h
        omega

theorem listFrom_fuel (hn : slots.length ≤ n + i) (hm : slots.length ≤ m + i) : listFrom slots n i = listFrom slots m i := by
  induction n generalizing m i with
  | zero => rw [listFrom_end (.inl (by omega)), listFrom_end (.inl (by omega))]
  | succ n ih =>
    by_cases hend : slots.length ≤ i ∨ byteAt (slot slots i) 0 = 0
    · rw [listFrom_end hend, listFrom_end hend]
    cases m with
    | zero => exact absurd (.inl (by omega)) hend
    | succ m =>
      cases hd : decodeEntrySet slots i with
      | none =>
        rw [listFrom_skip hend hd, listFrom_skip hend hd]
        exact ih (by omega) (by omega)
      | some r =>
        obtain ⟨e, k⟩ := r
        rw [listFrom_set hd, listFrom_set hd, ih (m := m) (by omega) (by omega)]

theorem collectUnits_of_matchUnits {es : List Bytes} {nameLen : Nat} {acc name : List UInt16} (h : matchUnits es name = true)
    (hlen : acc.length + name.length = nameLen) : collectUnits nameLen es acc = some (acc ++ name) := by
  induction es generalizing acc name with
  | nil =>
    cases name with
    | nil => simp [collectUnits]
    | cons u name => nomatch h
  | cons entry rest ih =>
    unfold collectUnits
    cases name with
    | nil =>
      rw [List.length_nil] at hlen
      rw [if_pos (by omega), List.append_nil]
    | cons u name =>
      simp only [matchUnits, Bool.and_eq_true, decide_eq_true_eq] at h
      obtain ⟨⟨hkind, hsame⟩, hrest⟩ := h
      have hmore : nameLen - acc.length = (u :: name).length := by omega
      have hpos : 0 < (u :: name).length := Nat.succ_pos _
      have hnext : (acc ++ (u :: name).take 15).length + ((u :: name).drop 15).length = nameLen := by
        rw [List.length_append, List.length_take, List.length_drop]
        omega
      rw [if_neg (by omega), if_neg (not_not.mpr hkind), hmore, hsame, ih hrest hnext, List.append_assoc, List.take_append_drop]

/-- A set that matches has its name. -/
theorem nameUnits_of_matches (h : matchesSet slots want i = true) : nameUnits slots i = some (Text.encodeUtf16 want.name) := by
  simp only [matchesSet, Bool.and_eq_true, decide_eq_true_eq] at h
  obtain ⟨⟨⟨⟨⟨_, hname⟩, _⟩, _⟩, _⟩, hmatch⟩ := h
  have hcollect := @collectUnits_of_matchUnits _ (Text.encodeUtf16 want.name).length [] _ hmatch (Nat.zero_add _)
  rw [List.nil_append] at hcollect
  simp [nameUnits, hcollect, hname]

theorem decode_of_units {units : List UInt16} (hs : hasStream slots i = true) (hu : nameUnits slots i = some units) :
    ∃ e, decodeEntrySet slots i = some (e, secondaryCount slots i) ∧ e.name = Text.fromUtf16Lossy units := by
  simp [decodeEntrySet, hs, hu]

theorem decode_none_of_units (hu : nameUnits slots i = none) : decodeEntrySet slots i = none := by
  simp [decodeEntrySet, hu]

/-- The set an identity matches is the one that has it. -/
theorem identity_of_matches (hd : decodeEntrySet slots i = some (e, k)) (h : matchesSet slots want i = true) :
    EntryIdentity.ofDecoded e = want := by
  obtain ⟨hu, hdir, hvalid, hfirst, hdata⟩ := (matchesSet_iff hd).mp h
  obtain ⟨_, _, units, hu', he⟩ := decodeEntrySet_some hd
  have hname : e.name = want.name := by
    rw [he]
    simp only
    rw [Option.some.inj (hu'.symm.trans hu), Text.fromUtf16Lossy_encodeUtf16]
  cases want
  simp_all [EntryIdentity.ofDecoded]

/-- A set matches its own identity where its name is text. -/
theorem matches_own {units : List UInt16} (hd : decodeEntrySet slots i = some (e, k)) (hu : nameUnits slots i = some units) :
    matchesSet slots (.ofDecoded e) i = true ↔ paired units = true := by
  obtain ⟨_, _, units', hu', he⟩ := decodeEntrySet_some hd
  obtain rfl := Option.some.inj (hu.symm.trans hu')
  have hname : e.name = Text.fromUtf16Lossy units := congrArg DecodedEntry.name he
  simp [matchesSet_iff hd, EntryIdentity.ofDecoded, hu, paired, hname, eq_comm]

end Steps

section Scans

variable {slots : List Bytes} {i j k n : Nat} {e : DecodedEntry} {want : EntryIdentity} {seen : List Nat}

/-- Past slots where nothing stands a listing goes on as before. -/
theorem listFrom_through (hn : slots.length ≤ n + i) (h : strayFrom slots k i = .through) :
    listFrom slots n i = listFrom slots n (i + k) := by
  induction k generalizing i with
  | zero => rfl
  | succ k ih =>
    by_cases hend : slots.length ≤ i ∨ byteAt (slot slots i) 0 = 0
    · have hzero : byteAt (slot slots i) 0 = 0 := by
        rcases hend with hlen | hzero
        · simp [slot, hlen, byteAt]
        · exact hzero
      simp [strayFrom, hzero] at h
    · cases hd : decodeEntrySet slots i with
      | some r => simp [strayFrom, hd, (not_or.mp hend).2] at h
      | none =>
        have hrest : strayFrom slots k (i + 1) = .through := by simpa [strayFrom, hd, (not_or.mp hend).2] using h
        cases n with
        | zero => exact absurd (.inl (by omega)) hend
        | succ n =>
          rw [listFrom_skip hend hd, listFrom_fuel (n := n) (m := n + 1) (by omega) (by omega), ih (by omega) hrest,
            Nat.add_right_comm, Nat.add_assoc i k 1]

theorem listFrom_ends (h : strayFrom slots k i = .ends) : listFrom slots n i = [] := by
  induction k generalizing i n with
  | zero => nomatch h
  | succ k ih =>
    by_cases hend : slots.length ≤ i ∨ byteAt (slot slots i) 0 = 0
    · exact listFrom_end hend
    · cases hd : decodeEntrySet slots i with
      | some r => simp [strayFrom, hd, (not_or.mp hend).2] at h
      | none =>
        have hrest : strayFrom slots k (i + 1) = .ends := by simpa [strayFrom, hd, (not_or.mp hend).2] using h
        cases n with
        | zero => rfl
        | succ n => rw [listFrom_skip hend hd, ih hrest]

theorem listFrom_stray (hn : slots.length ≤ n + i) (h : strayFrom slots k i = .set) :
    ∃ j e, j < i + k ∧ (j, e) ∈ listFrom slots n i := by
  induction k generalizing i with
  | zero => nomatch h
  | succ k ih =>
    by_cases hend : slots.length ≤ i ∨ byteAt (slot slots i) 0 = 0
    · have hzero : byteAt (slot slots i) 0 = 0 := by
        rcases hend with hlen | hzero
        · simp [slot, hlen, byteAt]
        · exact hzero
      simp [strayFrom, hzero] at h
    · cases n with
      | zero => exact absurd (.inl (by omega)) hend
      | succ n =>
        cases hd : decodeEntrySet slots i with
        | some r =>
          refine ⟨i, r.1, by omega, ?_⟩
          rw [listFrom_set hd]
          exact List.mem_cons_self
        | none =>
          have hrest : strayFrom slots k (i + 1) = .set := by simpa [strayFrom, hd, (not_or.mp hend).2] using h
          obtain ⟨j, e, hj, hmem⟩ := ih (by omega) hrest
          refine ⟨j, e, by omega, ?_⟩
          rw [listFrom_skip hend hd, listFrom_fuel (m := n + 1) (by omega) (by omega)]
          exact hmem

/-- Where no set has a name of its own, nothing else is located. -/
theorem findFrom_barren (h : barrenFrom slots seen n i = true) (hseen : ∀ j ∈ seen, matchesSet slots want j = false) :
    findFrom slots want n i = none := by
  induction n generalizing i with
  | zero => rfl
  | succ n ih =>
    by_cases hend : slots.length ≤ i ∨ byteAt (slot slots i) 0 = 0
    · exact findFrom_end hend
    unfold barrenFrom at h
    rw [if_neg hend] at h
    by_cases hs : hasStream slots i = false
    · rw [if_pos hs] at h
      rw [findFrom_skip hend hs, ih h]
    · rw [if_neg hs, Bool.and_eq_true] at h
      obtain ⟨hown, hrest⟩ := h
      have hstream := Bool.of_not_eq_false hs
      by_cases hm : matchesSet slots want i = true
      · have hu := nameUnits_of_matches hm
        obtain ⟨e, hd, _⟩ := decode_of_units hstream hu
        have hid := identity_of_matches hd hm
        have hpaired : paired (Text.encodeUtf16 want.name) = true := (matches_own hd hu).mp (hid ▸ hm)
        simp only [hu, hpaired, Bool.not_true, Bool.false_or, List.any_eq_true] at hown
        obtain ⟨j, hj, hsame⟩ := hown
        simp only [sameIdentity, hd, hid, hseen j hj] at hsame
        nomatch hsame
      · rw [findFrom_set hstream, if_neg hm, ih hrest]

/-- Where nothing is located that was not seen, no set has a name of its own. -/
theorem barren_of_findFrom (h : ∀ want, (∀ j ∈ seen, matchesSet slots want j = false) → findFrom slots want n i = none) :
    barrenFrom slots seen n i = true := by
  induction n generalizing i with
  | zero => rfl
  | succ n ih =>
    unfold barrenFrom
    by_cases hend : slots.length ≤ i ∨ byteAt (slot slots i) 0 = 0
    · rw [if_pos hend]
    rw [if_neg hend]
    by_cases hs : hasStream slots i = false
    · rw [if_pos hs]
      exact ih fun want hseen => by simpa [findFrom_skip hend hs] using h want hseen
    rw [if_neg hs, Bool.and_eq_true]
    have hstream := Bool.of_not_eq_false hs
    constructor
    · cases hu : nameUnits slots i with
      | none => rfl
      | some units =>
        obtain ⟨e, hd, _⟩ := decode_of_units hstream hu
        by_cases hpaired : paired units = true
        · by_contra hown
          have hseen : ∀ j ∈ seen, matchesSet slots (.ofDecoded e) j = false := by
            simpa [hpaired, sameIdentity, hd] using hown
          have hnone := h _ hseen
          rw [findFrom_set hstream, if_pos ((matches_own hd hu).mpr hpaired)] at hnone
          nomatch hnone
        · simp [hpaired]
    · refine ih fun want hseen => ?_
      have hnone := h want hseen
      rw [findFrom_set hstream] at hnone
      by_cases hm : matchesSet slots want i = true
      · rw [if_pos hm] at hnone
        nomatch hnone
      · rwa [if_neg hm] at hnone

/-- In step, what is located is the first listed set that matches, and listed
sets match their own identities. -/
theorem inStep_find (hn : slots.length ≤ n + i) (h : inStepFrom slots n seen i = true)
    (hseen : ∀ j ∈ seen, matchesSet slots want j = false) :
    findFrom slots want n i = ((listFrom slots n i).find? fun p => matchesSet slots want p.1).map Prod.fst := by
  induction n generalizing seen i with
  | zero => rfl
  | succ n ih =>
    by_cases hend : slots.length ≤ i ∨ byteAt (slot slots i) 0 = 0
    · simp [findFrom_end hend, listFrom_end hend]
    unfold inStepFrom at h
    rw [if_neg hend] at h
    by_cases hs : hasStream slots i = false
    · rw [if_pos hs] at h
      rw [findFrom_skip hend hs, listFrom_skip hend (decodeEntrySet_none hs)]
      exact ih (by omega) h hseen
    rw [if_neg hs] at h
    have hstream := Bool.of_not_eq_false hs
    rw [findFrom_set hstream]
    cases hu : nameUnits slots i with
    | some units =>
      obtain ⟨e, hd, _⟩ := decode_of_units hstream hu
      simp only [hu, Bool.and_eq_true] at h
      rw [listFrom_set hd, List.find?_cons]
      by_cases hm : matchesSet slots want i = true
      · simp [hm]
      · have hnext : ∀ j ∈ i :: seen, matchesSet slots want j = false := by simpa [hm] using hseen
        simp only [hm]
        exact ih (by omega) h.2 hnext
    | none =>
      have hm : ¬matchesSet slots want i = true := fun hm => by simp [nameUnits_of_matches hm] at hu
      rw [if_neg hm, listFrom_skip hend (decode_none_of_units hu)]
      simp only [hu] at h
      cases hstray : strayFrom slots (secondaryCount slots i) (i + 1) with
      | through =>
        simp only [hstray] at h
        rw [listFrom_through (by omega) hstray]
        exact ih (by omega) h hseen
      | ends =>
        simp only [hstray] at h
        simp [listFrom_ends hstray, findFrom_barren h hseen]
      | set => simp [hstray] at h

theorem inStep_own (hn : slots.length ≤ n + i) (h : inStepFrom slots n seen i = true) (hmem : (j, e) ∈ listFrom slots n i) :
    matchesSet slots (.ofDecoded e) j = true := by
  induction n generalizing seen i with
  | zero => nomatch hmem
  | succ n ih =>
    by_cases hend : slots.length ≤ i ∨ byteAt (slot slots i) 0 = 0
    · simp [listFrom_end hend] at hmem
    unfold inStepFrom at h
    rw [if_neg hend] at h
    by_cases hs : hasStream slots i = false
    · rw [if_pos hs] at h
      rw [listFrom_skip hend (decodeEntrySet_none hs)] at hmem
      exact ih (by omega) h hmem
    rw [if_neg hs] at h
    cases hu : nameUnits slots i with
    | some units =>
      obtain ⟨f, hd, _⟩ := decode_of_units (Bool.of_not_eq_false hs) hu
      simp only [hu, Bool.and_eq_true] at h
      rw [listFrom_set hd] at hmem
      rcases List.mem_cons.mp hmem with heq | hrest
      · obtain ⟨rfl, rfl⟩ := Prod.mk.inj heq
        exact (matches_own hd hu).mpr h.1
      · exact ih (by omega) h.2 hrest
    | none =>
      rw [listFrom_skip hend (decode_none_of_units hu)] at hmem
      simp only [hu] at h
      cases hstray : strayFrom slots (secondaryCount slots i) (i + 1) with
      | through =>
        simp only [hstray] at h
        rw [listFrom_through (by omega) hstray] at hmem
        exact ih (by omega) h hmem
      | ends => simp [listFrom_ends hstray] at hmem
      | set => simp [hstray] at h

/-- The scans agree from slot `i` on, the sets in `seen` behind them. -/
structure AgreeFrom (slots : List Bytes) (seen : List Nat) (n i : Nat) : Prop where
  found : ∀ j e, (j, e) ∈ listFrom slots n i → findFrom slots (.ofDecoded e) n i = some j
  listed : ∀ want j, (∀ k ∈ seen, matchesSet slots want k = false) → findFrom slots want n i = some j →
    ∃ e, (j, e) ∈ listFrom slots n i

theorem AgreeFrom.inStep (hn : slots.length ≤ n + i) (h : AgreeFrom slots seen n i) : inStepFrom slots n seen i = true := by
  induction n generalizing seen i with
  | zero => rfl
  | succ n ih =>
    unfold inStepFrom
    by_cases hend : slots.length ≤ i ∨ byteAt (slot slots i) 0 = 0
    · rw [if_pos hend]
    rw [if_neg hend]
    by_cases hs : hasStream slots i = false
    · rw [if_pos hs]
      refine ih (by omega) ⟨?_, ?_⟩
      · simpa only [findFrom_skip hend hs, listFrom_skip hend (decodeEntrySet_none hs)] using h.found
      · simpa only [findFrom_skip hend hs, listFrom_skip hend (decodeEntrySet_none hs)] using h.listed
    rw [if_neg hs]
    have hstream := Bool.of_not_eq_false hs
    cases hu : nameUnits slots i with
    | some units =>
      obtain ⟨e, hd, _⟩ := decode_of_units hstream hu
      have hlist := listFrom_set (n := n) hd
      have hfirst := h.found i e (hlist ▸ List.mem_cons_self)
      have hown : matchesSet slots (.ofDecoded e) i = true := by
        by_contra hm
        rw [findFrom_set hstream, if_neg hm] at hfirst
        have hle := findFrom_le hfirst
        omega
      simp only [Bool.and_eq_true]
      refine ⟨(matches_own hd hu).mp hown, ih (by omega) ⟨fun j f hf => ?_, fun want j hseen hj => ?_⟩⟩
      · have hj := h.found j f (hlist ▸ List.mem_cons_of_mem (i, e) hf)
        have hlt := le_of_mem_listFrom n _ _ hf
        rw [findFrom_set hstream] at hj
        by_cases hm : matchesSet slots (.ofDecoded f) i = true
        · rw [if_pos hm] at hj
          have heq := Option.some.inj hj
          simp only at hlt
          omega
        · rwa [if_neg hm] at hj
      · have hm : matchesSet slots want i = false := hseen i List.mem_cons_self
        have hlt := findFrom_le hj
        have hall : findFrom slots want (n + 1) i = some j := by simpa [findFrom_set hstream, hm] using hj
        obtain ⟨f, hf⟩ := h.listed want j (fun k hk => hseen k (List.mem_cons_of_mem i hk)) hall
        rw [hlist] at hf
        rcases List.mem_cons.mp hf with heq | hrest
        · have hji := (Prod.mk.inj heq).1
          omega
        · exact ⟨f, hrest⟩
    | none =>
      have hpass (want : EntryIdentity) :
          findFrom slots want (n + 1) i = findFrom slots want n (i + 1 + secondaryCount slots i) := by
        have hm : ¬matchesSet slots want i = true := fun hm => by simp [nameUnits_of_matches hm] at hu
        rw [findFrom_set hstream, if_neg hm]
      have hlist := listFrom_skip (n := n) hend (decode_none_of_units hu)
      cases hstray : strayFrom slots (secondaryCount slots i) (i + 1) with
      | through =>
        rw [listFrom_through (by omega) hstray] at hlist
        refine ih (by omega) ⟨?_, ?_⟩
        · simpa only [hpass, hlist] using h.found
        · simpa only [hpass, hlist] using h.listed
      | ends =>
        rw [listFrom_ends hstray] at hlist
        refine barren_of_findFrom fun want hseen => Option.eq_none_iff_forall_not_mem.mpr fun j hj => ?_
        obtain ⟨e, he⟩ := h.listed want j hseen ((hpass want).trans hj)
        rw [hlist] at he
        nomatch he
      | set =>
        obtain ⟨j, e, hj, hmem⟩ := listFrom_stray (n := n) (by omega) hstray
        have hfind := h.found j e (hlist ▸ hmem)
        rw [hpass] at hfind
        have hle := findFrom_le hfind
        omega

end Scans

section Agreement

variable {slots : List Bytes}

theorem agrees_of_inStep (h : InStep slots) : Agrees slots := by
  have hfind (want : EntryIdentity) :
      findEntrySet slots want = ((listSlots slots).find? fun p => matchesSet slots want p.1).map Prod.fst :=
    inStep_find (Nat.le_refl _) h fun _ hj => nomatch hj
  constructor
  · intro i e hmem honly
    have hown := inStep_own (Nat.le_refl _) h hmem
    rw [hfind]
    cases hp : (listSlots slots).find? fun p => matchesSet slots (.ofDecoded e) p.1 with
    | none => exact absurd hown (List.find?_eq_none.mp hp (i, e) hmem)
    | some p =>
      obtain ⟨j, f⟩ := p
      have hf := List.mem_of_find?_eq_some hp
      have hm : matchesSet slots (.ofDecoded e) j = true := by simpa using List.find?_some hp
      obtain ⟨k, hd⟩ := mem_listSlots hf
      have hid := identity_of_matches hd hm
      rw [Option.map_some, honly j f hf hid]
  · intro want i hi
    rw [hfind] at hi
    obtain ⟨⟨j, e⟩, hp, rfl⟩ := Option.map_eq_some_iff.mp hi
    have he := List.mem_of_find?_eq_some hp
    have hm : matchesSet slots want j = true := by simpa using List.find?_some hp
    obtain ⟨k, hd⟩ := mem_listSlots he
    exact ⟨e, k, he, hd, identity_of_matches hd hm⟩

theorem inStep_of_agrees (hdistinct : Distinct slots) (h : Agrees slots) : InStep slots := by
  have hsymm : Std.Symm fun p q : Nat × DecodedEntry => EntryIdentity.ofDecoded p.2 ≠ .ofDecoded q.2 := ⟨fun _ _ hne => hne.symm⟩
  refine AgreeFrom.inStep (Nat.le_refl _) ⟨fun j e he => h.found j e he fun k f hf hid => ?_, fun want j _ hj => ?_⟩
  · by_contra hne
    have hpair : (k, f) ≠ (j, e) := fun heq => hne (Prod.mk.inj heq).1
    exact List.Pairwise.forall hdistinct hf he hpair hid
  · obtain ⟨e, _, he, _⟩ := h.listed want j hj
    exact ⟨e, he⟩

/-- The scans agree wherever they are in step, and where listed entries can be
told apart, nowhere else. -/
theorem listing_locates : (InStep slots → Agrees slots) ∧ (Distinct slots → Agrees slots → InStep slots) :=
  ⟨agrees_of_inStep, inStep_of_agrees⟩

end Agreement

/-- A set whose name breaks off, with what else stands in its slots. -/
def brokenSet (inner : List Bytes) : List Bytes :=
  [[0x85, 1 + .ofNat inner.length] ++ List.replicate 30 0, [0xC0, 1, 0, 15] ++ List.replicate 28 0] ++ inner

def endSlot : Bytes := List.replicate 32 0

/-- A file among the slots of a broken set is listed and not located; one behind
a broken set with an end marker in it is located and not listed. -/
theorem out_of_step :
    (listEntries (brokenSet (fileSet [0x61] 5))).map (·.name) = [['a']] ∧
      findEntrySet (brokenSet (fileSet [0x61] 5)) ⟨['a'], false, 5, 1, 1⟩ = none ∧
      listEntries (brokenSet [endSlot] ++ fileSet [0x61] 5) = [] ∧
      findEntrySet (brokenSet [endSlot] ++ fileSet [0x61] 5) ⟨['a'], false, 5, 1, 1⟩ = some 3 := by
  decide +kernel

end Exfat

end Multi64
