import Mathlib
import Multi64.ExfatDir

/-! Paths on an exFAT volume, `partition.rs`: how a listing spells the path of an
entry, and how reading, deleting and renaming find the entry at a path. -/

namespace Multi64

namespace Exfat

inductive PathError where
  | notFound (text : String)
  | invalidInput (text : String)
  | invalidData (text : String)
  | disk
  deriving DecidableEq, Repr

/-- Where a directory's clusters start and how they are chained. -/
structure DirRef where
  firstCluster : Nat
  noFatChain : Bool
  size : Nat
  deriving DecidableEq

/-- A volume as the walk of cluster chains reads it. -/
structure Volume where
  rootCluster : Nat
  slots : DirRef → Except PathError (List Bytes)

structure DirSlots where
  ref : DirRef
  slots : List Bytes
  deriving DecidableEq

def Volume.root (v : Volume) : DirRef := ⟨v.rootCluster, false, 0⟩

def DecodedEntry.ref (e : DecodedEntry) : DirRef := ⟨e.firstCluster, e.noFatChain, e.dataLength⟩

def DirSlots.loadWith (v : Volume) (ref : DirRef) : Except PathError DirSlots := (v.slots ref).map fun slots => ⟨ref, slots⟩

section Names

variable (toUppercase : Char → Text)

def fatUpcaseUnit (unit : UInt16) : UInt16 :=
  let n := unit.toNat
  if 0xD800 ≤ n ∧ n ≤ 0xDFFF then unit
  else
    match toUppercase (.ofNat n) with
    | [single] => if single.toNat < 0x10000 then .ofNat single.toNat else unit
    | _ => unit

def fatNamesEqual (a b : Text) : Bool :=
  a = b || (Text.encodeUtf16 a).map (fatUpcaseUnit toUppercase) = (Text.encodeUtf16 b).map (fatUpcaseUnit toUppercase)

end Names

section Paths

/-- `trim().replace('\\', "/")`. -/
def normalize (path : Text) : Text := (Text.trim path).map fun c => if c = '\\' then '/' else c

def segments (path : Text) : List Text := ((normalize path).splitOn '/').filter (· ≠ [])

def parentPathAndName (path : Text) : Text × Text :=
  let path := (Text.trim path).dropWhile (· = '/')
  match Text.rsplitOnce '/' path with
  | none => ([], path)
  | some (p, n) => (p, n)

def cartRelPathTrimmed (path : Text) : Option Text :=
  let normalized := ((normalize path).dropWhile (· = '/')).rdropWhile (· = '/')
  if normalized = [] then none else some normalized

/-- What a listing of `path` puts before the names. -/
def pathPrefix (path : Text) : Text :=
  let segs := segments path
  if segs = [] then [] else ['/'].intercalate segs ++ ['/']

end Paths

variable (toUppercase : Char → Text) (toLowercase : Text → Text) (v : Volume)

def findNamed (dir : DirSlots) (name : Text) : Option (Nat × DecodedEntry) :=
  (listSlots dir.slots).find? fun p => fatNamesEqual toUppercase p.2.name name

def openSegment (dir : DirSlots) (seg : Text) : Except PathError DirSlots :=
  match findNamed toUppercase dir seg with
  | none => .error (.notFound s!"no such folder: {String.ofList seg}")
  | some (_, found) =>
    if found.isDir = false then .error (.invalidInput s!"not a folder: {String.ofList seg}")
    else DirSlots.loadWith v found.ref

def walk (segs : List Text) : Except PathError DirSlots := do
  let root ← DirSlots.loadWith v v.root
  segs.foldlM (openSegment toUppercase v) root

def resolveDirSlots (path : Text) : Except PathError DirSlots := walk toUppercase v (segments path)

/-- The entry at `path`, with its directory and slot. -/
def resolve (path : Text) : Except PathError (DirSlots × Nat × DecodedEntry) :=
  let normalized := normalize path
  let (parent, name) := parentPathAndName normalized
  if name = [] then .error (.invalidInput "empty cart path")
  else do
    let dir ← resolveDirSlots toUppercase v parent
    match findNamed toUppercase dir name with
    | none => .error (.notFound s!"no such entry: {String.ofList name}")
    | some found => .ok (dir, found)

def resolveEntry (path : Text) : Except PathError DecodedEntry := (resolve toUppercase v path).map fun r => r.2.2

def locateEntrySet (entryPath : Text) (want : EntryIdentity) : Except PathError (DirSlots × Nat) := do
  let (parent, _) := parentPathAndName entryPath
  let dir ← resolveDirSlots toUppercase v parent
  match findEntrySet dir.slots want with
  | some slot => .ok (dir, slot)
  | none => .error (.invalidData "could not find the exFAT directory entry set in its folder")

/-- The entry set a delete or a rename of `path` writes to. -/
def target (path : Text) : Except PathError (DirSlots × Nat) :=
  match cartRelPathTrimmed path with
  | none => .error (.invalidInput "empty cart path")
  | some rel => do
    let entry ← resolveEntry toUppercase v rel
    locateEntrySet toUppercase v rel (.ofDecoded entry)

structure SessionEntry where
  name : Text
  path : Text
  isDir : Bool
  size : Nat
  hidden : Bool
  deriving DecidableEq

def sessionEntry (path : Text) (e : DecodedEntry) : SessionEntry where
  name := e.name
  path := pathPrefix path ++ e.name
  isDir := e.isDir
  size := if e.isDir then 0 else e.dataLength
  hidden := e.isHidden || e.name.head? = some '.'

/-- Folders first, then by the name in lower case. -/
def sessionLe (a b : SessionEntry) : Prop :=
  if a.isDir = b.isDir then toLowercase a.name ≤ toLowercase b.name else a.isDir = true

instance (a b : SessionEntry) : Decidable (sessionLe toLowercase a b) := inferInstanceAs (Decidable (ite _ _ _))

def dotNames : List Text := [['.'], ['.', '.']]

def listDir (path : Text) : Except PathError (List SessionEntry) := do
  let dir ← resolveDirSlots toUppercase v path
  let out := ((listEntries dir.slots).filter (·.name ∉ dotNames)).map (sessionEntry path)
  .ok (out.insertionSort (sessionLe toLowercase))

end Exfat

end Multi64
