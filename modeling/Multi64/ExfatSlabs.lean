import Multi64.Lib.Undo
import Multi64.PartitionDisk

/-! How `partition.rs` writes the slots of an entry set: a sector at a time, the
earlier contents of each kept, and put back where a write fails. -/

namespace Multi64

inductive IoFailure where
  | disk (e : DiskError)
  | failedToFill
  | failedToWrite
  | pastPartition
  deriving DecidableEq

/-- A card whose commands can fail. -/
structure SdCard (σ : Type) extends SdCardTransport σ where
  flushSerial : Eff DiskError σ Unit

namespace SectorPartitionDisk

variable {σ : Type} (t : SdCard σ)

/-- A call of the disk whose failure is an error. -/
def lift {α : Type} (f : SectorPartitionDisk σ → Except DiskError α × SectorPartitionDisk σ) :
    Eff IoFailure (SectorPartitionDisk σ) α :=
  fun d => ((f d).1.mapError .disk, (f d).2)

/-- `Seek`, from the start. -/
def seekStart (n : Nat) : Eff IoFailure (SectorPartitionDisk σ) Nat := lift fun d => d.seek (.start (.ofNat n))

/-- `read_exact`: reads until there are `len` bytes. Each takes at least one. -/
def readExactLoop (len : Nat) : Nat → Bytes → Eff IoFailure (SectorPartitionDisk σ) Bytes
  | 0, buf => if buf.length < len then Eff.fail .failedToFill else pure buf
  | n + 1, buf =>
    if buf.length < len then do
      let b ← lift fun d => d.read t.toSdCardTransport (len - buf.length)
      if b = [] then Eff.fail .failedToFill else readExactLoop len n (buf ++ b)
    else pure buf

def readExact (len : Nat) : Eff IoFailure (SectorPartitionDisk σ) Bytes := readExactLoop t len len []

/-- `write_all`: writes until nothing is left. -/
def writeAllLoop : Nat → Bytes → Eff IoFailure (SectorPartitionDisk σ) Unit
  | 0, buf => if buf = [] then pure () else Eff.fail .failedToWrite
  | n + 1, buf =>
    if buf = [] then pure ()
    else do
      let k ← lift fun d => d.write t.toSdCardTransport buf
      if k = 0 then Eff.fail .failedToWrite else writeAllLoop n (buf.drop k)

def writeAll (buf : Bytes) : Eff IoFailure (SectorPartitionDisk σ) Unit := writeAllLoop t buf.length buf

def flush : Eff IoFailure (SectorPartitionDisk σ) Unit :=
  lift fun d => ((t.flushSerial d.link).1, { d with link := (t.flushSerial d.link).2 })

end SectorPartitionDisk

/-- A slot's contents. -/
structure Slab where
  bytes : Bytes
  size : bytes.length = 32

/-- How a write of an entry set ends: with an error it says whether the directory
is as it was. -/
inductive SlabsWritten where
  | ok
  | failed (error : IoFailure) (restored : Bool)
  | panic
  deriving DecidableEq

section Slabs

open SectorPartitionDisk

variable {σ : Type} (t : SdCard σ) (p : Partition) (offsets : List Nat) (slabs : List Slab)

/-- The sector an offset is in. -/
def sectorStart (offset : Nat) : Nat := offset - offset % 512

/-- The slots from number `i` on, each with those before it in its sector. -/
def groupLoop (bytes : Nat) : List Nat → Nat → List (Nat × List Nat) → Option (List (Nat × List Nat))
  | [], _, sectors => some sectors
  | offset :: offsets, i, sectors =>
    let start := sectorStart offset
    if bytes < start + 512 then none
    else
      match sectors.getLast? with
      | none => groupLoop bytes offsets (i + 1) [(start, [i])]
      | some (s, group) =>
        if s = start then groupLoop bytes offsets (i + 1) (sectors.dropLast ++ [(s, group ++ [i])])
        else groupLoop bytes offsets (i + 1) (sectors ++ [(start, [i])])

/-- A sector with the slots of its group in it; one that is not there, or does
not fit, is a panic. -/
def patchSector (start : Nat) : List Nat → Bytes → Option Bytes
  | [], sector => some sector
  | i :: group, sector =>
    match slabs[i]? with
    | none => none
    | some slab =>
      let within := offsets.getD i 0 - start
      if within + 32 ≤ sector.length then patchSector start group (overwrite sector within slab.1) else none

/-- Write a whole sector back. -/
def putSector (start : Nat) (sector : Bytes) : Eff IoFailure (SectorPartitionDisk σ) Unit := do
  let _ ← seekStart start
  writeAll t sector
  flush t

/-- One sector: its contents are kept before it changes. -/
def writeSector (start : Nat) (group : List Nat) (before : List (Nat × Bytes)) (d : SectorPartitionDisk σ) :
    (Option (Except IoFailure Unit) × List (Nat × Bytes)) × SectorPartitionDisk σ :=
  match (seekStart start >>= fun _ => readExact t 512) d with
  | (.error e, d) => ((some (.error e), before), d)
  | (.ok sector, d) =>
    match patchSector offsets slabs start group sector with
    | none => ((none, before ++ [(start, sector)]), d)
    | some changed => ((some (putSector t start changed d).1, before ++ [(start, sector)]), (putSector t start changed d).2)

/-- Whether every sector of `before` went back. -/
def restoreSectors : List (Nat × Bytes) → Bool → SectorPartitionDisk σ → Bool × SectorPartitionDisk σ
  | [], restored, d => (restored, d)
  | (start, sector) :: before, restored, d =>
    restoreSectors before (restored && (putSector t start sector d).1.isOk) (putSector t start sector d).2

def writeSectors : List (Nat × List Nat) → List (Nat × Bytes) → SectorPartitionDisk σ → SlabsWritten × SectorPartitionDisk σ
  | [], _, d => (.ok, d)
  | (start, group) :: sectors, before, d =>
    match writeSector t offsets slabs start group before d with
    | ((some (.ok _), before), d) => writeSectors sectors before d
    | ((some (.error e), before), d) =>
      (.failed e (restoreSectors t before.reverse true d).1, (restoreSectors t before.reverse true d).2)
    | ((none, _), d) => (.panic, d)

def exfatWriteEntrySlabsRestoring (link : σ) : SlabsWritten × σ :=
  match groupLoop p.bytes offsets 0 [] with
  | none => (.failed .pastPartition true, link)
  | some sectors =>
    let r := writeSectors t offsets slabs sectors [] ⟨link, p, 0, true⟩
    (r.1, r.2.link)

end Slabs

/-- What becomes of a command: a write that fails may have reached the card. -/
inductive Outcome where
  | works
  | fails (landed : Bool)
  deriving DecidableEq

/-- A card with what is to become of each command to it. -/
structure FlakyCard where
  card : Store
  outcomes : Nat → Outcome
  commands : Nat

namespace FlakyCard

def timedOut : DiskError := ⟨.other, "timed out"⟩

variable (s : FlakyCard)

def spent : FlakyCard := { s with commands := s.commands + 1 }

def answer {α : Type} (a : α) : Except DiskError α :=
  match s.outcomes s.commands with
  | .works => .ok a
  | .fails _ => .error timedOut

def stored (lba : Nat) (buf : Bytes) : Store :=
  match s.outcomes s.commands with
  | .fails false => s.card
  | _ => s.card.write (lba * 512) buf

def sdCard : SdCard FlakyCard where
  readSdSectors lba len s := (s.answer (s.card.read (lba * 512) len), s.spent)
  writeSdSectors lba buf s := (s.answer (), { s.spent with card := s.stored lba buf })
  flushSerial s := (s.answer (), s.spent)

end FlakyCard

end Multi64
