import Multi64.ExfatAgree
import Multi64.ExfatSlabs

/-! The entry sets `partition.rs` builds, for a new file or folder and for a
renamed one, and that they are read back as what they were built for. -/

namespace Multi64

namespace Exfat

/-- The time as `ExFatTimestamp::now().to_raw()` gives it. -/
structure Stamp where
  ts : UInt32
  tenMs : UInt8
  utc : UInt8

section Names

variable (name : Text)

def refuseDotName : Except PathError Unit :=
  if name = ['.'] ∨ name = ['.', '.'] then
    .error (.invalidInput s!"\"{String.ofList name}\" cannot be the name of a file or folder")
  else .ok ()

def invalidFilenameChar (c : Char) : Bool :=
  c.toNat ≤ 0x1F || c ∈ [Char.ofNat 0x22, '*', '/', ':', '<', '>', '?', '\\', '|']

def maxFilenameLen : Nat := 255

def validateRenameName : Except PathError Unit :=
  match refuseDotName name with
  | .error e => .error e
  | .ok _ =>
    let len := (Text.encodeUtf16 name).length
    if len = 0 ∨ maxFilenameLen < len then .error (.invalidInput "invalid exFAT filename length")
    else if name.any invalidFilenameChar then .error (.invalidInput "invalid character in filename")
    else .ok ()

def charsPerNameEntry : Nat := 15

/-- Entries in a set for the name: File, Stream Extension, and the File Name
entries. -/
def entrySetLen : Nat := 2 + ((Text.encodeUtf16 name).length + 14) / 15

end Names

section Entries

/-- An entry as the 32 bytes of its slot. -/
def structToEntryBytes (entry : Bytes) : Slab :=
  ⟨(entry ++ List.replicate 32 0).take 32, by simp⟩

def fileEntry (secondaryCount : Nat) (attributes : UInt16) (now : Stamp) : Bytes :=
  [entryFileDirectory, .ofNat secondaryCount] ++ putLe 0 2 ++ putLe attributes.toNat 2 ++ putLe 0 2 ++
    putLe now.ts.toNat 4 ++ putLe now.ts.toNat 4 ++ putLe now.ts.toNat 4 ++
      [now.tenMs, now.tenMs, now.utc, now.utc, now.utc] ++ List.replicate 7 0

def streamEntry (flags : UInt8) (nameLength : Nat) (nameHash : UInt16) (validDataLength : UInt64) (firstCluster : UInt32)
    (dataLength : UInt64) : Bytes :=
  [entryStreamExt, flags, 0, .ofNat nameLength] ++ putLe nameHash.toNat 2 ++ putLe 0 2 ++ putLe validDataLength.toNat 8 ++
    putLe 0 4 ++ putLe firstCluster.toNat 4 ++ putLe dataLength.toNat 8

def fileNameEntry (chunk : List UInt16) : Bytes :=
  [entryFileName, 0] ++ chunk.flatMap (fun u => putLe u.toNat 2) ++ List.replicate (30 - 2 * chunk.length) 0

/-- One entry for each 15 units, `k` in all. -/
def nameEntries : Nat → List UInt16 → List Slab
  | 0, _ => []
  | k + 1, units => structToEntryBytes (fileNameEntry (units.take charsPerNameEntry)) :: nameEntries k (units.drop charsPerNameEntry)

def addByte (checksum : UInt16) (byte : UInt8) : UInt16 := (checksum >>> 1 ||| checksum <<< 15) + byte.toUInt16

/-- The checksum's own bytes are not part of it. -/
def entrySetChecksum (file : Slab) (secondaries : List Slab) : UInt16 :=
  (file.1.take 2 ++ file.1.drop 4 ++ secondaries.flatMap Slab.bytes).foldl addByte 0

/-- A set of a File entry and what follows it, with its checksum. -/
def withChecksum (file : Slab) (secondaries : List Slab) : List Slab :=
  structToEntryBytes (overwrite file.1 2 (putLe (entrySetChecksum file secondaries).toNat 2)) :: secondaries

def nameEntryCount (name : Text) : Nat := ((Text.encodeUtf16 name).length + charsPerNameEntry - 1) / charsPerNameEntry

variable (nameHash : Text → UInt16)

def entrySet (file : Bytes) (flags : UInt8) (name : Text) (validDataLength : UInt64) (firstCluster : UInt32)
    (dataLength : UInt64) : List Slab :=
  let units := Text.encodeUtf16 name
  withChecksum (structToEntryBytes file)
    (structToEntryBytes (streamEntry flags units.length (nameHash name) validDataLength firstCluster dataLength) ::
      nameEntries (nameEntryCount name) units)

/-- `exfat_build_rename_entry_set_bytes`: the File entry as it is on disk, with the
count that a rename changes. -/
def buildRenameEntrySetBytes (entry : DecodedEntry) (newName : Text) : Except PathError (List Slab) :=
  match validateRenameName newName with
  | .error e => .error e
  | .ok _ =>
    .ok (entrySet nameHash (overwrite entry.primary 1 [.ofNat (1 + nameEntryCount newName), 0, 0])
      (if entry.noFatChain then 0x03 else 0x01) newName (.ofNat entry.validDataLength) (.ofNat entry.firstCluster)
      (.ofNat entry.dataLength))

end Entries

section Built

variable {slots : List Bytes} {r : Nat} {name : Text} {units : List UInt16} {b : Bytes}

theorem structToEntryBytes_eq (h : b.length = 32) : (structToEntryBytes b).1 = b := by
  rw [structToEntryBytes]
  simp only
  rw [List.take_append_of_le_length (by omega), List.take_of_length_le (by omega)]

theorem streamEntry_length (flags : UInt8) (n : Nat) (hash : UInt16) (valid : UInt64) (first : UInt32) (len : UInt64) :
    (streamEntry flags n hash valid first len).length = 32 := by
  simp [streamEntry]

theorem units_length (chunk : List UInt16) : (chunk.flatMap fun u => putLe u.toNat 2).length = 2 * chunk.length := by
  induction chunk with
  | nil => rfl
  | cons u chunk ih =>
    rw [List.flatMap_cons, List.length_append, ih, putLe_length, List.length_cons]
    omega

theorem fileNameEntry_length {chunk : List UInt16} (h : chunk.length ≤ 15) : (fileNameEntry chunk).length = 32 := by
  simp only [fileNameEntry, List.length_append, units_length, List.length_replicate, List.length_cons, List.length_nil]
  omega

theorem nameEntries_length (k : Nat) (units : List UInt16) : (nameEntries k units).length = k := by
  induction k generalizing units with
  | zero => rfl
  | succ k ih => simp [nameEntries, ih]

/-- The units of a File Name entry are those it was built of. -/
theorem entryUnits_fileNameEntry {chunk : List UInt16} (h : chunk.length ≤ 15) :
    (entryUnits (fileNameEntry chunk)).take chunk.length = chunk := by
  have hread : ∀ (front : Bytes) (chunk : List UInt16) (t : Bytes) (i : Nat) (hi : i < chunk.length),
      readLe (front ++ (chunk.flatMap (fun u => putLe u.toNat 2) ++ t)) (front.length + 2 * i) 2 = (chunk.get ⟨i, hi⟩).toNat := by
    intro front chunk t i hi
    induction chunk generalizing front i with
    | nil => exact absurd hi (Nat.not_lt_zero i)
    | cons u chunk ih =>
      rw [List.flatMap_cons, List.append_assoc]
      cases i with
      | zero =>
        have hlt := u.toNat_lt
        rw [Nat.mul_zero, Nat.add_zero, readLe_middle]
        exact Nat.mod_eq_of_lt hlt
      | succ i =>
        have hnext := ih (front ++ putLe u.toNat 2) i (Nat.lt_of_succ_lt_succ hi)
        rw [List.append_assoc, List.length_append, putLe_length] at hnext
        rw [show front.length + 2 * (i + 1) = front.length + 2 + 2 * i by omega]
        exact hnext
  refine List.ext_getElem (by rw [List.length_take, entryUnits_length]; omega) fun i hi hi' => ?_
  have hu := hread [entryFileName, 0] chunk (List.replicate (30 - 2 * chunk.length) 0) i hi'
  rw [List.getElem_take]
  simp only [entryUnits, List.getElem_map, List.getElem_range]
  rw [fileNameEntry, List.append_assoc]
  rw [show ([entryFileName, 0] : Bytes).length = 2 from rfl] at hu
  rw [hu]
  exact UInt16.ofNat_toNat

/-- What is collected of the name entries is the name. -/
theorem collectUnits_nameEntries {k nameLen : Nat} {acc : List UInt16} (hlen : nameLen = acc.length + units.length)
    (hk : units.length ≤ 15 * k) : collectUnits nameLen ((nameEntries k units).map Slab.bytes) acc = some (acc ++ units) := by
  induction k generalizing units acc with
  | zero =>
    have hnil : units = [] := List.eq_nil_of_length_eq_zero (by omega)
    simp [hnil, nameEntries, collectUnits]
  | succ k ih =>
    have htake : (units.take charsPerNameEntry).length ≤ 15 := by
      rw [List.length_take]
      exact Nat.min_le_left _ _
    rw [nameEntries, List.map_cons, structToEntryBytes_eq (fileNameEntry_length htake), collectUnits]
    by_cases hdone : nameLen ≤ acc.length
    · have hnil : units = [] := List.eq_nil_of_length_eq_zero (by omega)
      rw [if_pos hdone, hnil, List.append_nil]
    have hkind : byteAt (fileNameEntry (units.take charsPerNameEntry)) 0 = entryFileName := rfl
    have hunits := entryUnits_fileNameEntry htake
    have hchunk : (entryUnits (fileNameEntry (units.take charsPerNameEntry))).take (nameLen - acc.length) =
        units.take charsPerNameEntry := by
      have hmore : nameLen - acc.length = units.length := by omega
      rw [hmore]
      by_cases hshort : units.length ≤ 15
      · have hall : units.take charsPerNameEntry = units := List.take_of_length_le hshort
        rwa [hall] at hunits ⊢
      · have hfull : (units.take charsPerNameEntry).length = 15 := by
          rw [List.length_take, charsPerNameEntry]
          omega
        have hlen15 := entryUnits_length (fileNameEntry (units.take charsPerNameEntry))
        rw [hfull, List.take_of_length_le (by omega)] at hunits
        rw [List.take_of_length_le (by omega), hunits]
    rw [if_neg hdone, if_neg (not_not.mpr hkind), hchunk]
    have hdrop : (units.drop charsPerNameEntry).length = units.length - 15 := List.length_drop
    rw [ih (by rw [List.length_append, List.length_take, hdrop, hlen, charsPerNameEntry]; omega) (by omega), List.append_assoc,
      List.take_append_drop]

section Stream

variable (flags : UInt8) (n : Nat) (hash : UInt16) (valid len : UInt64) (first : UInt32)

theorem streamEntry_valid : readLe (streamEntry flags n hash valid first len) 8 8 = valid.toNat := by
  have hlt := valid.toNat_lt
  have hread := readLe_middle ([entryStreamExt, flags, 0, .ofNat n] ++ putLe hash.toNat 2 ++ putLe 0 2) valid.toNat 8
    (putLe 0 4 ++ putLe first.toNat 4 ++ putLe len.toNat 8)
  rw [Nat.mod_eq_of_lt (by simpa using hlt)] at hread
  simpa [streamEntry, List.append_assoc] using hread

theorem streamEntry_first : readLe (streamEntry flags n hash valid first len) 20 4 = first.toNat := by
  have hlt := first.toNat_lt
  have hread := readLe_middle ([entryStreamExt, flags, 0, .ofNat n] ++ putLe hash.toNat 2 ++ putLe 0 2 ++ putLe valid.toNat 8 ++
    putLe 0 4) first.toNat 4 (putLe len.toNat 8)
  rw [Nat.mod_eq_of_lt (by simpa using hlt)] at hread
  simpa [streamEntry, List.append_assoc] using hread

theorem streamEntry_data : readLe (streamEntry flags n hash valid first len) 24 8 = len.toNat := by
  have hlt := len.toNat_lt
  have hread := readLe_middle ([entryStreamExt, flags, 0, .ofNat n] ++ putLe hash.toNat 2 ++ putLe 0 2 ++ putLe valid.toNat 8 ++
    putLe 0 4 ++ putLe first.toNat 4) len.toNat 8 []
  rw [Nat.mod_eq_of_lt (by simpa using hlt)] at hread
  simpa [streamEntry, List.append_assoc] using hread

end Stream

section Primary

variable {file cs : Bytes}

/-- Only the checksum's bytes change. -/
theorem overwrite_checksum (hfile : file.length = 32) (hcs : cs.length = 2) :
    (overwrite file 2 cs).length = 32 ∧ byteAt (overwrite file 2 cs) 0 = byteAt file 0 ∧
      byteAt (overwrite file 2 cs) 1 = byteAt file 1 ∧ readLe (overwrite file 2 cs) 4 2 = readLe file 4 2 := by
  have hfront : (file.take 2).length = 2 := by rw [List.length_take, hfile]; rfl
  have hbyte {i : Nat} (hi : i < 2) : byteAt (overwrite file 2 cs) i = byteAt file i := by
    have hsplit : byteAt file i = byteAt (file.take 2 ++ file.drop 2) i := by rw [List.take_append_drop]
    rw [overwrite, List.append_assoc, byteAt_append_left (by omega), hsplit, byteAt_append_left (by omega)]
  refine ⟨(overwrite_length (by omega)).trans hfile, hbyte (by omega), hbyte (by omega), ?_⟩
  have hnew := readLe_append_right (file.take 2 ++ cs) (file.drop 4) 0 2
  have hold := readLe_append_right (file.take 4) (file.drop 4) 0 2
  rw [List.length_append, hfront, hcs] at hnew
  rw [List.take_append_drop, List.length_take, hfile] at hold
  rw [overwrite, hcs]
  exact hnew.trans hold.symm

end Primary

theorem nameEntryCount_range (h0 : 0 < (Text.encodeUtf16 name).length) (h1 : (Text.encodeUtf16 name).length ≤ 255) :
    1 ≤ nameEntryCount name ∧ nameEntryCount name ≤ 17 ∧ (Text.encodeUtf16 name).length ≤ 15 * nameEntryCount name := by
  unfold nameEntryCount charsPerNameEntry
  omega

variable {nameHash : Text → UInt16} {file : Bytes} {flags : UInt8} {valid len : UInt64} {first : UInt32} {front back : List Bytes}

theorem entrySet_length : (entrySet nameHash file flags name valid first len).length = 2 + nameEntryCount name := by
  simp only [entrySet, withChecksum, List.length_cons, nameEntries_length]
  omega

/-- A built set, wherever it stands, is read back as what it was built for. -/
theorem decode_entrySet (hfile : file.length = 32) (hkind : byteAt file 0 = entryFileDirectory)
    (hcount : byteAt file 1 = .ofNat (1 + nameEntryCount name)) (h0 : 0 < (Text.encodeUtf16 name).length)
    (h1 : (Text.encodeUtf16 name).length ≤ 255) :
    ∃ primary : Bytes, decodeEntrySet (front ++ ((entrySet nameHash file flags name valid first len).map Slab.bytes ++ back))
        front.length =
      some (⟨name, readLe file 4 2, first.toNat, len.toNat, valid.toNat, flags.toNat.testBit 1, primary⟩, 1 + nameEntryCount name) ∧
      primary.take 2 = file.take 2 ∧ primary.drop 4 = file.drop 4 := by
  obtain ⟨hlow, hhigh, hroom⟩ := nameEntryCount_range h0 h1
  generalize hstream : streamEntry flags (Text.encodeUtf16 name).length (nameHash name) valid first len = stream
  have hslen : stream.length = 32 := hstream ▸ streamEntry_length ..
  generalize hcs : putLe (entrySetChecksum (structToEntryBytes file)
    (structToEntryBytes stream :: nameEntries (nameEntryCount name) (Text.encodeUtf16 name))).toNat 2 = cs
  have hcslen : cs.length = 2 := hcs ▸ putLe_length ..
  obtain ⟨hplen, hp0, hp1, hp4⟩ := overwrite_checksum hfile hcslen
  have hset : (entrySet nameHash file flags name valid first len).map Slab.bytes =
      overwrite file 2 cs :: stream :: (nameEntries (nameEntryCount name) (Text.encodeUtf16 name)).map Slab.bytes := by
    simp only [entrySet, withChecksum, List.map_cons, hstream, hcs, structToEntryBytes_eq hfile, structToEntryBytes_eq hplen,
      structToEntryBytes_eq hslen]
  rw [hset]
  generalize hslots : front ++ (overwrite file 2 cs :: stream ::
    (nameEntries (nameEntryCount name) (Text.encodeUtf16 name)).map Slab.bytes ++ back) = slots
  have hprimary : slot slots front.length = overwrite file 2 cs := by simp [slot, ← hslots]
  have hnext : slot slots (front.length + 1) = stream := by simp [slot, ← hslots]
  have hsec : secondaryCount slots front.length = 1 + nameEntryCount name := by
    rw [secondaryCount, hprimary, hp1, hcount, UInt8.toNat_ofNat', Nat.mod_eq_of_lt (by omega)]
  have hlen : front.length + (2 + nameEntryCount name) ≤ slots.length := by
    rw [← hslots]
    simp only [List.length_append, List.length_cons, List.length_map, nameEntries_length]
    omega
  have hs0 : byteAt stream 0 = entryStreamExt := hstream ▸ rfl
  have hs1 : byteAt stream 1 = flags := hstream ▸ rfl
  have hs3 : (byteAt stream 3).toNat = (Text.encodeUtf16 name).length := by
    have h3 : byteAt stream 3 = .ofNat (Text.encodeUtf16 name).length := hstream ▸ rfl
    rw [h3, UInt8.toNat_ofNat', Nat.mod_eq_of_lt (by omega)]
  have hhas : hasStream slots front.length = true := by
    have hlast : front.length + (1 + nameEntryCount name) < slots.length := by omega
    simp [hasStream, hprimary, hnext, hp0, hkind, hsec, hs0, hlast]
    omega
  have hnames : nameSlots slots front.length = (nameEntries (nameEntryCount name) (Text.encodeUtf16 name)).map Slab.bytes := by
    have hdrop : slots.drop (front.length + 2) =
        (nameEntries (nameEntryCount name) (Text.encodeUtf16 name)).map Slab.bytes ++ back := by
      rw [← hslots, ← List.drop_drop, List.drop_left]
      rfl
    rw [nameSlots, hdrop, hsec, List.take_append_of_le_length (by simp [nameEntries_length]),
      List.take_of_length_le (by simp [nameEntries_length])]
  have hunits : nameUnits slots front.length = some (Text.encodeUtf16 name) := by
    have hcollect := @collectUnits_nameEntries (Text.encodeUtf16 name) _ (Text.encodeUtf16 name).length [] (by simp) hroom
    rw [List.nil_append] at hcollect
    simp [nameUnits, hnext, hs3, hnames, hcollect]
  refine ⟨overwrite file 2 cs, ?_, ?_, ?_⟩
  · simp only [decodeEntrySet, hhas, hunits, hprimary, hnext, hsec, hp4, Text.fromUtf16Lossy_encodeUtf16, ← hstream,
      streamEntry_valid, streamEntry_first, streamEntry_data]
    rfl
  · rw [overwrite, List.append_assoc, List.take_append_of_le_length (by simp [hfile]), List.take_take, Nat.min_self]
  · have hfour : (file.take 2 ++ cs).length = 4 := by simp [hfile, hcslen]
    rw [overwrite, hcslen]
    exact List.drop_left' hfour

end Built

end Exfat

end Multi64
