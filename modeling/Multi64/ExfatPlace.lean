import Multi64.ExfatRestore
import Multi64.ExfatSet
import Multi64.ExfatWalk

/-! Where `partition.rs` puts a new entry set: the slots of a directory on the
card, the first run of free ones, and the listing once a set stands there. -/

namespace Multi64

namespace Exfat

/-- Why nothing is written to a directory. -/
inductive DirError where
  | path (e : PathError)
  | storageFull (text : String)
  deriving DecidableEq

section Run

variable (slots : List Bytes)

/-- A slot is not in use. -/
def Unused (i : Nat) : Prop := byteAt (slot slots i) 0 &&& entryInUse = 0

instance (i : Nat) : Decidable (Unused slots i) := inferInstanceAs (Decidable (_ = _))

/-- The slots from `i` on, `n` of them, with the run of free ones before `i`. -/
def freeRunLoop (slotsNeeded : Nat) (skip : Nat × Nat) : Nat → Nat → Nat → Nat → Option Nat
  | 0, _, _, _ => none
  | n + 1, i, runStart, runLen =>
    if ¬(skip.1 ≤ i ∧ i < skip.2) ∧ Unused slots i then
      let runStart := if runLen = 0 then i else runStart
      if slotsNeeded ≤ runLen + 1 then some runStart else freeRunLoop slotsNeeded skip n (i + 1) runStart (runLen + 1)
    else freeRunLoop slotsNeeded skip n (i + 1) runStart 0

/-- `exfat_find_free_entry_run`. -/
def findFreeEntryRun (slotsNeeded : Nat) (skip : Nat × Nat) : Except DirError Nat :=
  match freeRunLoop slots slotsNeeded skip slots.length 0 0 0 with
  | some r => .ok r
  | none => .error (.storageFull "exFAT folder has no room for this entry: no run of free slots long enough")

/-- Behind an end marker no slot is in use. -/
def TailUnused : Prop := ∀ i j, i < j → byteAt (slot slots i) 0 = 0 → Unused slots j

/-- Every slot of a listed set is in use. -/
def SetsInUse : Prop := ∀ i e, (i, e) ∈ listSlots slots → ∀ j, i ≤ j → j ≤ i + secondaryCount slots i → ¬Unused slots j

/-- Free slots that begin where the ones before end. -/
structure FreeRun (skip : Nat × Nat) (r n : Nat) : Prop where
  free : ∀ i, r ≤ i → i < r + n → ¬(skip.1 ≤ i ∧ i < skip.2) ∧ Unused slots i
  start : r = 0 ∨ skip.1 ≤ r - 1 ∧ r - 1 < skip.2 ∨ ¬Unused slots (r - 1)

end Run

section Found

variable {slots slots' : List Bytes} {skip : Nat × Nat} {needed r n i runStart runLen k : Nat} {e : DecodedEntry}

theorem freeRunLoop_run (h : freeRunLoop slots needed skip n i runStart runLen = some r) (hn : 0 < needed)
    (hshort : runLen < needed) (hrun : 0 < runLen → runStart + runLen = i ∧ FreeRun slots skip runStart runLen)
    (hnone : runLen = 0 → i = 0 ∨ skip.1 ≤ i - 1 ∧ i - 1 < skip.2 ∨ ¬Unused slots (i - 1)) :
    FreeRun slots skip r needed ∧ r + needed ≤ i + n := by
  induction n generalizing i runStart runLen with
  | zero => nomatch h
  | succ n ih =>
    rw [freeRunLoop] at h
    by_cases hfree : ¬(skip.1 ≤ i ∧ i < skip.2) ∧ Unused slots i
    · rw [if_pos hfree] at h
      have hmore : (if runLen = 0 then i else runStart) + (runLen + 1) = i + 1 ∧
          FreeRun slots skip (if runLen = 0 then i else runStart) (runLen + 1) := by
        by_cases hzero : runLen = 0
        · rw [if_pos hzero, hzero]
          refine ⟨rfl, ⟨fun j hj hlt => ?_, hnone hzero⟩⟩
          obtain rfl : j = i := by omega
          exact hfree
        · obtain ⟨hend, hold⟩ := hrun (by omega)
          rw [if_neg hzero]
          refine ⟨by omega, ⟨fun j hj hlt => ?_, hold.start⟩⟩
          by_cases hlast : j = i
          · exact hlast ▸ hfree
          · exact hold.free j hj (by omega)
      simp only at h
      by_cases hdone : needed ≤ runLen + 1
      · rw [if_pos hdone] at h
        obtain rfl : needed = runLen + 1 := by omega
        rw [← Option.some.inj h]
        exact ⟨hmore.2, by omega⟩
      · rw [if_neg hdone] at h
        obtain ⟨hfound, hle⟩ := ih h (by omega) (fun _ => hmore) nofun
        exact ⟨hfound, by omega⟩
    · rw [if_neg hfree] at h
      have hbreak : skip.1 ≤ i ∧ i < skip.2 ∨ ¬Unused slots i := by
        by_cases hskip : skip.1 ≤ i ∧ i < skip.2
        · exact .inl hskip
        · exact .inr fun hu => hfree ⟨hskip, hu⟩
      obtain ⟨hfound, hle⟩ := ih h hn (fun hpos => absurd hpos (Nat.lt_irrefl 0)) fun _ => .inr hbreak
      exact ⟨hfound, by omega⟩

theorem findFreeEntryRun_run (h : findFreeEntryRun slots needed skip = .ok r) (hn : 0 < needed) :
    FreeRun slots skip r needed ∧ r + needed ≤ slots.length := by
  unfold findFreeEntryRun at h
  cases hloop : freeRunLoop slots needed skip slots.length 0 0 0 with
  | none =>
    rw [hloop] at h
    nomatch h
  | some r' =>
    rw [hloop] at h
    obtain rfl := Except.ok.inj h
    obtain ⟨hrun, hle⟩ := freeRunLoop_run hloop hn hn (fun hpos => absurd hpos (Nat.lt_irrefl 0)) fun _ => .inl rfl
    exact ⟨hrun, by omega⟩

theorem Unused.notSecondary (h : Unused slots i) : NotSecondary (slot slots i) := by
  constructor
  · intro hkind
    rw [Unused, hkind] at h
    exact absurd h (by decide)
  · intro hkind
    rw [Unused, hkind] at h
    exact absurd h (by decide)

theorem Unused.decode (h : Unused slots i) : decodeEntrySet slots i = none := by
  refine decodeEntrySet_none (Bool.eq_false_iff.mpr fun hs => ?_)
  rw [Unused, (hasStream_file hs).2] at h
  exact absurd h (by decide)

theorem notSecondary_of_decode (h : decodeEntrySet slots i = some (e, k)) : NotSecondary (slot slots i) := by
  have hkind := (hasStream_file (decodeEntrySet_some h).1).2
  rw [NotSecondary, hkind]
  decide

/-- Where no slot is in use nothing is listed. -/
theorem listAt_unused (h : ∀ j, i ≤ j → Unused slots j) : listAt slots i = [] := by
  obtain ⟨p, hwalk, _⟩ := @walk_of_list slots i
  cases hl : listAt slots i with
  | nil => rfl
  | cons head l =>
    obtain ⟨j, e⟩ := head
    rw [hl] at hwalk
    obtain ⟨hij, _, k, hd, _⟩ := hwalk.mem List.mem_cons_self
    rw [(h j hij).decode] at hd
    nomatch hd

/-- A run of free slots lists nothing. -/
theorem listAt_run (htail : TailUnused slots) (hfree : ∀ i, r ≤ i → i < r + n → Unused slots i) (hlen : r + n ≤ slots.length) :
    listAt slots r = listAt slots (r + n) := by
  by_cases hzero : ∃ z, r ≤ z ∧ z < r + n ∧ byteAt (slot slots z) 0 = 0
  · obtain ⟨z, hrz, hzn, hz⟩ := hzero
    have hall : ∀ j, r ≤ j → Unused slots j := by
      intro j hj
      by_cases hin : j < r + n
      · exact hfree j hj hin
      · exact htail z j (by omega) hz
    rw [listAt_unused hall, listAt_unused fun j hj => hall j (by omega)]
  · have hwalk : Walk slots r [] (r + n) := Walk.unused hlen fun i hi hlt =>
      ⟨fun hz => hzero ⟨i, hi, hlt, hz⟩, hfree i hi hlt⟩
    exact hwalk.list

/-- A listing comes by the start of a run of free slots. -/
theorem walk_to_run (htail : TailUnused slots) (hsets : SetsInUse slots) (hstart : r = 0 ∨ ¬Unused slots (r - 1))
    (hr : r < slots.length) (hu : Unused slots r) : ∃ l₁, listSlots slots = l₁ ++ listAt slots r ∧ Walk slots 0 l₁ r := by
  obtain ⟨p, hwalk, hp⟩ := @walk_of_list slots 0
  have hrp : r ≤ p := by
    by_contra hlt
    have hz : byteAt (slot slots p) 0 = 0 := hp.resolve_left (by omega)
    rcases hstart with hzero | hused
    · omega
    · by_cases hlast : p = r - 1
      · apply hused
        rw [Unused, ← hlast, hz]
        decide
      · exact hused (htail p (r - 1) (by omega) hz)
  have hfree : Uncovered slots (listAt slots 0) r := by
    intro i e he hi
    by_contra hcover
    exact hsets i e he r (by omega) (by omega) hu
  obtain ⟨l₁, l₂, _, hfront, _⟩ := hwalk.split (Nat.zero_le r) hrp hfree
  exact ⟨l₁, hfront.list, hfront⟩

/-- A set in free slots is listed beside what was listed before, and nothing else
is. -/
theorem listSlots_insert (h : SameOutside slots slots' r (k + 1)) (hlen : r + (k + 1) ≤ slots.length) (htail : TailUnused slots)
    (hsets : SetsInUse slots) (hstart : r = 0 ∨ ¬Unused slots (r - 1)) (hfree : ∀ i, r ≤ i → i < r + (k + 1) → Unused slots i)
    (hd : decodeEntrySet slots' r = some (e, k)) :
    ∃ l₁ l₂, listSlots slots = l₁ ++ l₂ ∧ listSlots slots' = l₁ ++ (r, e) :: l₂ := by
  have hu := hfree r (Nat.le_refl r) (by omega)
  obtain ⟨l₁, hlist, hwalk⟩ := walk_to_run htail hsets hstart (by omega) hu
  have hset : Walk slots' r [(r, e)] (r + (k + 1)) := by
    rw [show r + (k + 1) = r + 1 + k by omega]
    exact .set hd (.here _)
  have hregion := listSlots_region h (by omega) hu.notSecondary (notSecondary_of_decode hd) hwalk hset
  refine ⟨l₁, listAt slots (r + (k + 1)), ?_, ?_⟩
  · rw [hlist, listAt_run htail hfree hlen]
  · rw [hregion, List.append_assoc, List.singleton_append]

end Found

end Exfat

end Multi64
