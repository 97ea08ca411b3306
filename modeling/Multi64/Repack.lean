import Multi64.PatchCrc

/-! Laying a patched image back out over its seed, `repack` of `transform.rs`: the
files that a patch left alone stay as the seed stores them, the others are plain. -/

namespace Multi64

inductive RepackError where
  | table (why : TransformError)
  | notPlain (table : Nat)
  | noHeader
  | filePastImage (vrom : Nat)
  | plainPastEnd (at_ : Nat)
  deriving DecidableEq

inductive RepackFailure where
  | refused (why : RepackError)
  | panic
  deriving DecidableEq

/-- What became of a file. -/
inductive FileStored where
  | absent
  | kept
  | inPlace
  | moved
  deriving DecidableEq

structure Repacked where
  rom : Bytes
  kept : Nat
  moved : List (UInt32 × UInt32 × UInt32)
  deriving DecidableEq

/-- Where what a ROM stores of a file ends. -/
def DmaEntry.storedEnd (e : DmaEntry) : Nat :=
  if e.romEnd ≠ 0 then e.romEnd.toNat else min (e.romStart.toNat + (e.vromEnd.toNat - e.vromStart.toNat)) 0xFFFFFFFF

def DmaEntry.bytes (e : DmaEntry) : Bytes := putBe32 e.vromStart ++ putBe32 e.vromEnd ++ putBe32 e.romStart ++ putBe32 e.romEnd

/-- Where the data of a seed ends. -/
def seedDataEnd (seed : Bytes) (entries : List DmaEntry) : Nat :=
  min (max (((entries.filter (·.used)).map (·.storedEnd)).foldl max 0) Patch.crcEnd) seed.length

/-- How much of a seed is kept: all of it, unless what is behind its data is padding. -/
def seedKept (seed : Bytes) (entries : List DmaEntry) : Nat :=
  if (seed.drop (seedDataEnd seed entries)).all (fun b => b = 0 ∨ b = 0xFF) then seedDataEnd seed entries else seed.length

/-- The padding in front of a file that is moved. -/
def align16 (rom : Bytes) : Bytes := rom ++ List.replicate ((16 - rom.length % 16) % 16) 0

/-- The seed's entry of the same file, if there is one. -/
def priorOf (old : Option DmaEntry) (e : DmaEntry) : Option DmaEntry :=
  old.filter fun o => o.vromStart = e.vromStart ∧ o.vromEnd = e.vromEnd

/-- The entry of a file that no ROM holds. -/
def absentEntry (old : Option DmaEntry) (e : DmaEntry) : DmaEntry :=
  (priorOf old e).elim { e with romStart := 0xFFFFFFFF, romEnd := 0xFFFFFFFF } fun o => { o with at_ := e.at_ }

section Layout

variable (original patched : Bytes)

/-- One file of the image: what the ROM becomes, and the entry it has there. -/
def storeFile (old : Option DmaEntry) (e : DmaEntry) (rom : Bytes) : Except RepackFailure (Bytes × FileStored × DmaEntry) :=
  if ¬e.used then .ok (rom, .absent, absentEntry old e)
  else if ¬(e.vromStart ≤ e.vromEnd ∧ e.vromEnd.toNat ≤ patched.length) then .error (.refused (.filePastImage e.vromStart.toNat))
  else
    let data := slice patched e.vromStart.toNat (e.vromEnd.toNat - e.vromStart.toNat)
    let moved := .ok (align16 rom ++ data, .moved, { e with romStart := .ofNat (align16 rom).length, romEnd := 0 })
    match priorOf old e with
    | none => moved
    | some o =>
      if o.used ∧ e.vromEnd.toNat ≤ original.length ∧
          slice original e.vromStart.toNat (e.vromEnd.toNat - e.vromStart.toNat) = data then
        .ok (rom, .kept, { o with at_ := e.at_ })
      else if o.used ∧ o.romEnd = 0 then
        if o.romStart.toNat + data.length ≤ rom.length then
          .ok (overwrite rom o.romStart.toNat data, .inPlace, { o with at_ := e.at_ })
        else .error (.refused (.plainPastEnd o.romStart.toNat))
      else moved

/-- The files in order, each beside the seed's entry of the same number. -/
def storeFiles : List DmaEntry → List DmaEntry → Bytes → Except RepackFailure (Bytes × List (FileStored × DmaEntry))
  | _, [], rom => .ok (rom, [])
  | old, e :: new, rom => do
    let (rom, stored) ← storeFile original patched old.head? e rom
    let (rom, rest) ← storeFiles old.tail new rom
    return (rom, stored :: rest)

def writeEntry (rom : Bytes) (e : DmaEntry) : Except RepackFailure Bytes :=
  if e.at_ + 16 ≤ rom.length then .ok (overwrite rom e.at_ e.bytes) else .error .panic

end Layout

def repack (seed original patched : Bytes) (table : UInt32) : Except RepackFailure Repacked :=
  match dmaEntries seed table.toNat, dmaEntries patched table.toNat with
  | .error why, _ => .error (.refused (.table why))
  | .ok _, .error why => .error (.refused (.table why))
  | .ok old, .ok new =>
    if ¬old.any (fun o => o.vromStart = table ∧ o.romStart = table ∧ o.romEnd = 0) then .error (.refused (.notPlain table.toNat))
    else if seedKept seed old < 0x1000 then .error .panic
    else if patched.length < 0x1000 then .error (.refused .noHeader)
    else do
      let (rom, stored) ← storeFiles original patched old new (overwrite (seed.take (seedKept seed old)) 0 (patched.take 0x1000))
      let rom ← (stored.map (·.2)).foldlM writeEntry rom
      return ⟨rom, stored.countP (·.1 = .kept),
        (stored.filter (·.1 = .moved)).map fun s => (s.2.vromStart, s.2.vromEnd, s.2.romStart)⟩

end Multi64
