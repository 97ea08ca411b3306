import Multi64.Lib.Bytes
import Multi64.Lib.Text

/-! An exFAT directory as `partition.rs` reads it: 32-byte slots, the entry sets
in them, and the two scans over them, one that lists and one that locates. -/

namespace Multi64

namespace Exfat

def entryInUse : UInt8 := 0x80

def entryFileDirectory : UInt8 := 0x85

def entryStreamExt : UInt8 := 0xC0

def entryFileName : UInt8 := 0xC1

structure DecodedEntry where
  name : Text
  attributes : Nat
  firstCluster : Nat
  dataLength : Nat
  validDataLength : Nat
  noFatChain : Bool
  primary : Bytes
  deriving DecidableEq

namespace DecodedEntry

variable (e : DecodedEntry)

def attrHidden : Nat := 1

def attrDirectory : Nat := 4

/-- The attributes are bits 1 and 4. -/
def isHidden : Bool := e.attributes.testBit attrHidden

def isDir : Bool := e.attributes.testBit attrDirectory

end DecodedEntry

section Slots

variable (slots : List Bytes)

def slot (i : Nat) : Bytes := slots.getD i []

/-- The 15 units of a File Name entry. -/
def entryUnits (entry : Bytes) : List UInt16 :=
  (List.range 15).map fun k => .ofNat (readLe entry (2 + 2 * k) 2)

def collectUnits (nameLen : Nat) : List Bytes → List UInt16 → Option (List UInt16)
  | [], units => some units
  | entry :: rest, units =>
    if nameLen ≤ units.length then some units
    else if byteAt entry 0 ≠ entryFileName then none
    else collectUnits nameLen rest (units ++ (entryUnits entry).take (nameLen - units.length))

def secondaryCount (i : Nat) : Nat := (byteAt (slot slots i) 1).toNat

/-- Whether a File entry with a Stream Extension starts at `i`. -/
def hasStream (i : Nat) : Bool :=
  let secondaries := secondaryCount slots i
  byteAt (slot slots i) 0 = entryFileDirectory && 2 ≤ secondaries && secondaries ≤ 18 &&
    i + secondaries < slots.length && byteAt (slot slots (i + 1)) 0 = entryStreamExt

def nameSlots (i : Nat) : List Bytes := (slots.drop (i + 2)).take (secondaryCount slots i - 1)

/-- The units of the name of the entry set at `i`. -/
def nameUnits (i : Nat) : Option (List UInt16) :=
  let nameLen := (byteAt (slot slots (i + 1)) 3).toNat
  match collectUnits nameLen (nameSlots slots i) [] with
  | none => none
  | some units => if units.length ≠ nameLen then none else some units

def decodeEntrySet (i : Nat) : Option (DecodedEntry × Nat) :=
  let primary := slot slots i
  if hasStream slots i = false then none
  else
    let stream := slot slots (i + 1)
    match nameUnits slots i with
    | none => none
    | some units =>
      some (⟨Text.fromUtf16Lossy units, readLe primary 4 2, readLe stream 20 4, readLe stream 24 8, readLe stream 8 8,
        (byteAt stream 1).toNat.testBit 1, primary⟩, secondaryCount slots i)

/-- Every in-use entry set from slot `i` on, with its slot. Each turn takes at
least one slot. -/
def listFrom : Nat → Nat → List (Nat × DecodedEntry)
  | 0, _ => []
  | n + 1, i =>
    if slots.length ≤ i then []
    else
      let primary := slot slots i
      if byteAt primary 0 = 0 then []
      else if byteAt primary 0 &&& entryInUse = 0 then listFrom n (i + 1)
      else
        match decodeEntrySet slots i with
        | some (e, secondaries) => (i, e) :: listFrom n (i + 1 + secondaries)
        | none => listFrom n (i + 1)

def listSlots : List (Nat × DecodedEntry) := listFrom slots slots.length 0

def listEntries : List DecodedEntry := (listSlots slots).map Prod.snd

/-- What identifies an entry set in its directory. -/
structure EntryIdentity where
  name : Text
  isDirectory : Bool
  firstCluster : Nat
  validDataLength : Nat
  dataLength : Nat

def EntryIdentity.ofDecoded (e : DecodedEntry) : EntryIdentity :=
  ⟨e.name, e.isDir, e.firstCluster, e.validDataLength, e.dataLength⟩

def matchUnits : List Bytes → List UInt16 → Bool
  | _, [] => true
  | [], _ :: _ => false
  | entry :: rest, u :: name =>
    byteAt entry 0 = entryFileName && (entryUnits entry).take (u :: name).length = (u :: name).take 15 &&
      matchUnits rest ((u :: name).drop 15)

def matchesSet (want : EntryIdentity) (i : Nat) : Bool :=
  let name := Text.encodeUtf16 want.name
  let stream := slot slots (i + 1)
  (readLe (slot slots i) 4 2).testBit DecodedEntry.attrDirectory = want.isDirectory &&
    (byteAt stream 3).toNat = name.length && readLe stream 8 8 = want.validDataLength &&
    readLe stream 20 4 = want.firstCluster && readLe stream 24 8 = want.dataLength &&
    matchUnits (nameSlots slots i) name

def findFrom (want : EntryIdentity) : Nat → Nat → Option Nat
  | 0, _ => none
  | n + 1, i =>
    if slots.length ≤ i then none
    else if byteAt (slot slots i) 0 = 0 then none
    else if hasStream slots i = false then findFrom want n (i + 1)
    else if matchesSet slots want i then some i
    else findFrom want n (i + 1 + secondaryCount slots i)

def findEntrySet (want : EntryIdentity) : Option Nat := findFrom slots want slots.length 0

/-- From slot `i` on, a File entry with its Stream Extension has its name. -/
def formedFrom : Nat → Nat → Bool
  | 0, _ => true
  | n + 1, i =>
    if slots.length ≤ i ∨ byteAt (slot slots i) 0 = 0 then true
    else if hasStream slots i = false then formedFrom n (i + 1)
    else (nameUnits slots i).isSome && formedFrom n (i + 1 + secondaryCount slots i)

def Formed : Prop := formedFrom slots slots.length 0 = true

instance : Decidable (Formed slots) := inferInstanceAs (Decidable (_ = true))

end Slots

section Scan

variable {slots : List Bytes} {i n : Nat} {e : DecodedEntry} {want : EntryIdentity}

theorem decodeEntrySet_some {k : Nat} (h : decodeEntrySet slots i = some (e, k)) :
    hasStream slots i = true ∧ k = secondaryCount slots i ∧ ∃ units, nameUnits slots i = some units ∧
      e = ⟨Text.fromUtf16Lossy units, readLe (slot slots i) 4 2, readLe (slot slots (i + 1)) 20 4,
        readLe (slot slots (i + 1)) 24 8, readLe (slot slots (i + 1)) 8 8,
        (byteAt (slot slots (i + 1)) 1).toNat.testBit 1, slot slots i⟩ := by
  unfold decodeEntrySet at h
  simp only at h
  by_cases hs : hasStream slots i = false
  · rw [if_pos hs] at h
    exact nomatch h
  · rw [if_neg hs] at h
    cases hu : nameUnits slots i with
    | none =>
      rw [hu] at h
      exact nomatch h
    | some units =>
      rw [hu] at h
      obtain ⟨rfl, rfl⟩ := Prod.mk.inj (Option.some.inj h)
      exact ⟨Bool.of_not_eq_false hs, rfl, units, rfl, rfl⟩

theorem decodeEntrySet_none (hs : hasStream slots i = false) : decodeEntrySet slots i = none := if_pos hs

theorem entryUnits_length (entry : Bytes) : (entryUnits entry).length = 15 := by simp [entryUnits]

theorem collectUnits_prefix {nameLen : Nat} (es : List Bytes) {units acc : List UInt16}
    (h : collectUnits nameLen es acc = some units) : acc <+: units := by
  induction es generalizing acc with
  | nil => exact Option.some.inj h ▸ List.prefix_rfl
  | cons entry rest ih =>
    unfold collectUnits at h
    split at h
    · exact Option.some.inj h ▸ List.prefix_rfl
    · split at h
      · exact nomatch h
      · exact (List.prefix_append acc _).trans (ih h)

/-- Comparing a name entry by entry is comparing it with what is collected. -/
theorem matchUnits_collect {es : List Bytes} {nameLen : Nat} {units acc name : List UInt16}
    (h : collectUnits nameLen es acc = some units) (hlen : units.length = nameLen)
    (hname : acc.length + name.length = nameLen) : matchUnits es name = true ↔ units = acc ++ name := by
  induction es generalizing acc name with
  | nil =>
    obtain rfl := Option.some.inj h
    have hnil : name = [] := List.eq_nil_of_length_eq_zero (by omega)
    simp [hnil, matchUnits]
  | cons entry rest ih =>
    unfold collectUnits at h
    cases name with
    | nil =>
      rw [List.length_nil] at hname
      rw [if_pos (by omega)] at h
      obtain rfl := Option.some.inj h
      simp [matchUnits]
    | cons u name =>
      rw [List.length_cons] at hname
      rw [if_neg (by omega)] at h
      by_cases hkind : byteAt entry 0 = entryFileName
      · rw [if_neg (not_not.mpr hkind)] at h
        have hrest : nameLen - acc.length = (u :: name).length := by
          rw [List.length_cons]
          omega
        rw [hrest] at h
        have hu := entryUnits_length entry
        have htake : ((entryUnits entry).take (u :: name).length).length = ((u :: name).take 15).length := by
          rw [List.length_take, List.length_take, hu, Nat.min_comm]
        simp only [matchUnits, hkind, decide_true, Bool.true_and, Bool.and_eq_true, decide_eq_true_eq]
        by_cases hsame : (entryUnits entry).take (u :: name).length = (u :: name).take 15
        · have hnext : (acc ++ (u :: name).take 15).length + ((u :: name).drop 15).length = nameLen := by
            rw [List.length_append, List.length_take, List.length_drop, List.length_cons]
            omega
          rw [hsame] at h
          have hih := ih h hnext
          rw [List.append_assoc, List.take_append_drop] at hih
          exact ⟨fun hm => hih.mp hm.2, fun heq => ⟨hsame, hih.mpr heq⟩⟩
        · refine ⟨fun hm => absurd hm.1 hsame, fun heq => absurd ?_ hsame⟩
          obtain ⟨tail, htail⟩ := collectUnits_prefix rest h
          rw [heq, List.append_assoc, List.append_cancel_left_eq] at htail
          have hcut := congrArg (List.take 15) htail
          have hle : ((entryUnits entry).take (u :: name).length).length ≤ 15 := by
            rw [List.length_take, hu]
            omega
          by_cases hshort : (u :: name).length ≤ 15
          · have hlen := congrArg List.length htail
            rw [List.length_append, htake, List.length_take, Nat.min_eq_right hshort] at hlen
            have hnil : tail = [] := List.eq_nil_of_length_eq_zero (by omega)
            rw [hnil, List.append_nil] at htail
            rw [htail, List.take_of_length_le hshort]
          · have hfull : ((entryUnits entry).take (u :: name).length).length = 15 := by
              rw [List.length_take, hu]
              omega
            rwa [List.take_append_of_le_length (by omega), List.take_of_length_le hle] at hcut
      · rw [if_pos hkind] at h
        exact nomatch h

/-- An entry set's identity and its name's units are what is compared. -/
theorem matchesSet_iff {k : Nat} (h : decodeEntrySet slots i = some (e, k)) :
    matchesSet slots want i = true ↔ nameUnits slots i = some (Text.encodeUtf16 want.name) ∧
      e.isDir = want.isDirectory ∧ e.validDataLength = want.validDataLength ∧ e.firstCluster = want.firstCluster ∧
        e.dataLength = want.dataLength := by
  obtain ⟨_, _, units, hu, rfl⟩ := decodeEntrySet_some h
  have hcollect := hu
  unfold nameUnits at hcollect
  simp only at hcollect
  split at hcollect
  · exact nomatch hcollect
  next units' hc =>
    split at hcollect
    · exact nomatch hcollect
    next hlen =>
      obtain rfl := Option.some.inj hcollect
      have hlen' := not_not.mp hlen
      simp only [matchesSet, DecodedEntry.isDir, Bool.and_eq_true, decide_eq_true_eq, hu, Option.some.injEq]
      constructor
      · rintro ⟨⟨⟨⟨⟨hdir, hname⟩, hvalid⟩, hfirst⟩, hdata⟩, hmatch⟩
        have heq := (matchUnits_collect hc hlen' (by simpa using hname.symm)).mp hmatch
        exact ⟨heq, hdir, hvalid, hfirst, hdata⟩
      · rintro ⟨hunits, hdir, hvalid, hfirst, hdata⟩
        have hname : (byteAt (slot slots (i + 1)) 3).toNat = (Text.encodeUtf16 want.name).length := by
          rw [← hlen', hunits]
        exact ⟨⟨⟨⟨⟨hdir, hname⟩, hvalid⟩, hfirst⟩, hdata⟩,
          (matchUnits_collect hc hlen' (by simpa using hname.symm)).mpr hunits⟩

theorem mem_listFrom (n : Nat) : ∀ i j, (j, e) ∈ listFrom slots n i →
    ∃ k, decodeEntrySet slots j = some (e, k) := by
  induction n with
  | zero => exact fun _ _ h => nomatch h
  | succ n ih =>
    intro i j h
    unfold listFrom at h
    split at h
    · exact nomatch h
    · simp only at h
      split at h
      · exact nomatch h
      · split at h
        · exact ih _ _ h
        · split at h
          next e' k he =>
            rcases List.mem_cons.mp h with heq | h
            · obtain ⟨rfl, rfl⟩ := Prod.mk.inj heq
              exact ⟨k, he⟩
            · exact ih _ _ h
          · exact ih _ _ h

theorem le_of_mem_listFrom (n : Nat) : ∀ i, ∀ p ∈ listFrom slots n i, i ≤ p.1 := by
  induction n with
  | zero => exact fun _ _ h => nomatch h
  | succ n ih =>
    intro i p h
    unfold listFrom at h
    split at h
    · exact nomatch h
    · simp only at h
      split at h
      · exact nomatch h
      · split at h
        · exact (Nat.le_succ i).trans (ih _ p h)
        · split at h
          · rcases List.mem_cons.mp h with rfl | h
            · exact le_refl i
            · have := ih _ p h
              omega
          · exact (Nat.le_succ i).trans (ih _ p h)

theorem mem_listSlots {j : Nat} (h : (j, e) ∈ listSlots slots) : ∃ k, decodeEntrySet slots j = some (e, k) :=
  mem_listFrom _ _ _ h

end Scan

end Exfat

end Multi64
