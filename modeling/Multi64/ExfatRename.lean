import Multi64.ExfatCommands
import Multi64.ExfatNewEntry

/-! `rename_cart_exfat` in the directory its paths lead to: what is looked up
before anything is written, and the writes of a name that fits the old slots and
of one that does not. -/

namespace Multi64

namespace Exfat

inductive RenameFailure where
  /-- Before anything was written. -/
  | refused (e : DirError)
  | alreadyExists (text : String)
  | read (stage : Nat)
  /-- In the write of the new set. -/
  | written (e : IoFailure) (restored : Bool)
  /-- In marking the slots that a shorter name leaves. -/
  | surplus (e : IoFailure) (restored : Bool)
  /-- In marking the old set: the new one taken back out, or not. -/
  | takenBack (e : IoFailure) (restored : Bool)
  | twoNames (e undo : IoFailure)
  | flush (e : DiskError)
  deriving DecidableEq

/-- Whether everything that was to be put back was. -/
def RenameFailure.restored : RenameFailure → Bool
  | .written _ restored | .surplus _ restored | .takenBack _ restored => restored
  | .twoNames _ _ => false
  | _ => true

inductive RenameResult where
  | ok
  | failed (why : RenameFailure)
  | panic
  deriving DecidableEq

/-- What a rename writes: over the old set, or to free slots. -/
inductive RenamePlan where
  | inPlace (offsets : List Nat) (slabs : List Slab) (surplus : List Nat) (gone : List Slab)
  | moved (offsets : List Nat) (slabs : List Slab) (freeBefore : List Slab) (oldOffsets : List Nat) (gone : List Slab)

section Plan

variable (toUppercase : Char → Text) (nameHash : Text → UInt16) (p : Partition) (dir : ExfatDirSlots) (reads : Nat → Bool)
  (nameFrom nameTo : Text) (m : Store)

/-- The reads of one of the lookups, which can fail. -/
def stage (n : Nat) : Except RenameFailure Unit := if reads n then .ok () else .error (.read n)

def findListed (slots : List Bytes) (name : Text) : Option (Nat × DecodedEntry) :=
  (listSlots slots).find? fun e => fatNamesEqual toUppercase e.2.name name

/-- `exfat_locate_entry_set`. -/
def locateSet (slots : List Bytes) (e : DecodedEntry) : Except RenameFailure Nat :=
  match findEntrySet slots (.ofDecoded e) with
  | some slot => .ok slot
  | none => .error (.refused (.path (.invalidData "could not find the exFAT directory entry set in its folder")))

def findOld : Except RenameFailure (Nat × DecodedEntry) := do
  stage reads 0
  match findListed toUppercase (dir.contents p m) nameFrom with
  | none => .error (.refused (.path (.notFound s!"no such entry: {String.ofList nameFrom}")))
  | some (_, old) => do
    stage reads 1
    let slot ← locateSet (dir.contents p m) old
    return (slot, old)

/-- That no other entry has the new name. -/
def checkNameFree (oldSlot : Nat) : Except RenameFailure Unit := do
  stage reads 2
  match findListed toUppercase (dir.contents p m) nameTo with
  | none => .ok ()
  | some (_, candidate) => do
    stage reads 3
    let slot ← locateSet (dir.contents p m) candidate
    if slot ≠ oldSlot then .error (.alreadyExists "a file or folder already exists with that name") else .ok ()

/-- `exfat_read_entry_set`, with the offsets of its slots. -/
def readOldSet (oldSlot : Nat) : Except RenameFailure (List Slab × List Nat) := do
  stage reads 4
  let secondaries := secondaryCount (dir.contents p m) oldSlot
  if ¬(2 ≤ secondaries ∧ secondaries ≤ 18) then
    .error (.refused (.path (.invalidData "invalid exFAT secondary_count on disk")))
  else do
    let entries ← ((List.range' oldSlot (1 + secondaries)).mapM (dir.readSlot p m)).mapError fun e => .refused (.path e)
    let offsets ← (dir.offsets oldSlot (1 + secondaries)).mapError fun e => .refused (.path e)
    return (entries.map structToEntryBytes, offsets)

/-- A slot with its in-use bit cleared. -/
def deletedSlab (slab : Slab) : Slab := structToEntryBytes (overwrite slab.bytes 0 [byteAt slab.bytes 0 &&& ~~~entryInUse])

def planMove (oldSlot : Nat) (slabs old : List Slab) (oldOffsets : List Nat) : Except RenameFailure RenamePlan := do
  stage reads 5
  let slot ← (findFreeEntryRun (dir.contents p m) slabs.length (oldSlot, oldSlot + old.length)).mapError .refused
  let offsets ← (dir.offsets slot slabs.length).mapError fun e => .refused (.path e)
  stage reads 6
  let freeBefore := offsets.map fun o => structToEntryBytes (m.read (p.start * 512 + o) 32)
  return .moved offsets slabs freeBefore oldOffsets (old.map deletedSlab)

def planRename : Except RenameFailure RenamePlan := do
  let (oldSlot, entry) ← findOld toUppercase p dir reads nameFrom m
  checkNameFree toUppercase p dir reads nameTo m oldSlot
  let slabs ← (buildRenameEntrySetBytes nameHash entry nameTo).mapError fun e => .refused (.path e)
  let (old, oldOffsets) ← readOldSet p dir reads m oldSlot
  if slabs.length ≤ old.length then
    return .inPlace (oldOffsets.take slabs.length) slabs (oldOffsets.drop slabs.length) ((old.drop slabs.length).map deletedSlab)
  else planMove p dir reads m oldSlot slabs old oldOffsets

end Plan

section Writes

variable {σ : Type} (t : SdCard σ) (p : Partition)

/-- `exfat_mark_slots_deleted`. -/
def markSlotsDeleted (offsets : List Nat) (gone : List Slab) (link : σ) : SlabsWritten × σ :=
  if offsets = [] then (.ok, link) else exfatWriteEntrySlabsRestoring t p offsets gone link

/-- The end of a rename. -/
def flushSerial (link : σ) : RenameResult × σ :=
  match t.flushSerial link with
  | (.ok _, link) => (.ok, link)
  | (.error e, link) => (.failed (.flush e), link)

/-- The new set taken back out, the old one not having been marked. -/
def takeBack (offsets : List Nat) (freeBefore : List Slab) (e : IoFailure) (restored : Bool) (link : σ) : RenameResult × σ :=
  match exfatWriteEntrySlabsRestoring t p offsets freeBefore link with
  | (.ok, link) => (.failed (.takenBack e restored), link)
  | (.failed undo _, link) => (.failed (.twoNames e undo), link)
  | (.panic, link) => (.panic, link)

def writeRename : RenamePlan → σ → RenameResult × σ
  | .inPlace offsets slabs surplus gone, link =>
    match exfatWriteEntrySlabsRestoring t p offsets slabs link with
    | (.ok, link) =>
      match markSlotsDeleted t p surplus gone link with
      | (.ok, link) => flushSerial t link
      | (.failed e restored, link) => (.failed (.surplus e restored), link)
      | (.panic, link) => (.panic, link)
    | (.failed e restored, link) => (.failed (.written e restored), link)
    | (.panic, link) => (.panic, link)
  | .moved offsets slabs freeBefore oldOffsets gone, link =>
    match exfatWriteEntrySlabsRestoring t p offsets slabs link with
    | (.ok, link) =>
      match markSlotsDeleted t p oldOffsets gone link with
      | (.ok, link) => flushSerial t link
      | (.failed e restored, link) => takeBack t p offsets freeBefore e restored link
      | (.panic, link) => (.panic, link)
    | (.failed e restored, link) => (.failed (.written e restored), link)
    | (.panic, link) => (.panic, link)

/-- `rename_cart_exfat`, once the folder of both paths is resolved. -/
def renameCartExfat (toUppercase : Char → Text) (nameHash : Text → UInt16) (dir : ExfatDirSlots) (reads : Nat → Bool)
    (nameFrom nameTo : Text) (link : FlakyCard) : RenameResult × FlakyCard :=
  match planRename toUppercase nameHash p dir reads nameFrom nameTo link.card with
  | .error why => (.failed why, link)
  | .ok plan => writeRename FlakyCard.sdCard p plan link

end Writes

end Exfat

end Multi64
