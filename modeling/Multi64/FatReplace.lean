import Multi64.ExfatSet
import Multi64.Lib.Effect

/-! Writing a file to a FAT volume, `write_file_fat_streaming_impl`: a file that is
there is replaced by way of a temporary name in its folder. The `fatfs` crate is a
parameter. -/

namespace Multi64

namespace Fat

/-- What `partition.rs` calls of `fatfs`. -/
structure Fatfs (ε σ δ φ : Type) where
  fileSystem : Eff ε σ Unit
  rootDir : δ
  openDir : δ → Text → Eff ε σ δ
  createDir : δ → Text → Eff ε σ δ
  openFile : δ → Text → Eff ε σ φ
  createFile : δ → Text → Eff ε σ φ
  remove : δ → Text → Eff ε σ Unit
  rename : δ → Text → δ → Text → Eff ε σ Unit
  truncate : φ → Eff ε σ Unit
  writeAll : φ → Bytes → Eff ε σ Unit
  flush : φ → Eff ε σ Unit
  unmount : Eff ε σ Unit
  /-- The kind of an error is `NotFound`. -/
  notFound : ε → Bool

section TempName

def utf8Len (name : Text) : Nat := (name.map Char.utf8Size).sum

/-- As many characters as there is room for, `bytes` of it taken. -/
def keptChars (room : Nat) : Nat → Text → Text
  | _, [] => []
  | bytes, c :: name => if bytes + c.utf8Size ≤ room then c :: keptChars room (bytes + c.utf8Size) name else []

def fatTempName (pre name : Text) : Text := pre ++ keptChars (255 - utf8Len pre) 0 name

/-- `~multi64-replace-` -/
def replacePrefix : Text := ['~', 'm', 'u', 'l', 't', 'i', '6', '4', '-', 'r', 'e', 'p', 'l', 'a', 'c', 'e', '-']

def fatReplaceTempName (name : Text) : Text := fatTempName replacePrefix name

end TempName

inductive FatError (ε : Type) where
  | io (e : ε)
  | path (e : Exfat.PathError)
  | grew
  | cancelled
  | length (written len : Nat)
  /-- The new copy is complete under its temporary name. -/
  | notRenamed (e : ε) (target name : Text)
  deriving DecidableEq

/-- The name an error says the new copy is under. -/
def FatError.reports {ε : Type} : FatError ε → Option Text
  | .notRenamed _ target _ => some target
  | _ => none

section Write

variable {ε σ δ φ α : Type} (D : Fatfs ε σ δ φ)

/-- A call with its error as one of ours. -/
def mapErr (g : ε → FatError ε) (m : Eff ε σ α) : Eff (FatError ε) σ α := fun s => ((m s).1.mapError g, (m s).2)

def io (m : Eff ε σ α) : Eff (FatError ε) σ α := mapErr .io m

/-- Each read of the source goes to the file, until one has nothing. -/
def copyLoop (f : φ) (len : Nat) (progress : Nat → Bool) : List (Except ε Bytes) → Nat → Nat → Eff (FatError ε) σ Nat
  | [], _, written => pure written
  | .error e :: _, _, _ => Eff.fail (.io e)
  | .ok b :: source, turn, written =>
    if b = [] then pure written
    else if len < written + b.length then Eff.fail .grew
    else do
      io (D.writeAll f b)
      if progress turn = false then Eff.fail .cancelled else copyLoop f len progress source (turn + 1) (written + b.length)

variable (dir : δ) (name target : Text) (len : Nat) (source : List (Except ε Bytes)) (progress : Nat → Bool)

/-- The whole copy, under `target`. -/
def writeCopy : Eff (FatError ε) σ Unit := do
  let f ← io (D.createFile dir target)
  io (D.truncate f)
  let written ← copyLoop D f len progress source 0 0
  if written ≠ len then Eff.fail (.length written len) else io (D.flush f)

/-- Only a failure of kind `NotFound` means that there is no original. -/
def isReplacing : Eff (FatError ε) σ Bool := fun s =>
  match D.openFile dir name s with
  | (.ok _, s) => (.ok true, s)
  | (.error e, s) => if D.notFound e then (.ok false, s) else (.error (.io e), s)

/-- The copy put in the original's place. -/
def putInPlace : Eff (FatError ε) σ Unit := do
  io (D.remove dir name)
  mapErr (.notRenamed · target name) (D.rename dir target dir name)

def writeInDir : Eff (FatError ε) σ Unit := do
  let replacing ← isReplacing D dir name
  let target := if replacing then fatReplaceTempName name else name
  if replacing then
    let _ ← Eff.attempt (io (D.remove dir target))
  match ← Eff.attempt (writeCopy D dir target len source progress) with
  | .error e => do
    let _ ← Eff.attempt (io (D.remove dir target))
    Eff.fail e
  | .ok _ => if replacing then putInPlace D dir name target else pure ()

def openOrCreate (dir : δ) (p : Text) : Eff (FatError ε) σ δ := fun s =>
  match D.openDir dir p s with
  | (.ok d, s) => (.ok d, s)
  | (.error _, s) => io (D.createDir dir p) s

def walkParents (dir : δ) : List Text → Eff (FatError ε) σ δ
  | [] => pure dir
  | p :: parents => do
    let dir ← openOrCreate D dir p
    walkParents dir parents

def refuseDotNames : List Text → Except Exfat.PathError Unit
  | [] => .ok ()
  | p :: parts =>
    match Exfat.refuseDotName p with
    | .error e => .error e
    | .ok _ => refuseDotNames parts

def pathParts (path : Text) : List Text := (path.splitOn '/').filter (· ≠ [])

/-- `write_file_fat_streaming_impl`. -/
def writeFileFatStreaming (path : Text) : Eff (FatError ε) σ Unit := do
  io D.fileSystem
  let parts := pathParts path
  match parts.getLast? with
  | none => Eff.fail (.path (.invalidInput "empty path"))
  | some name =>
    match refuseDotNames parts with
    | .error e => Eff.fail (.path e)
    | .ok _ => do
      let dir ← walkParents D D.rootDir parts.dropLast
      writeInDir D dir name len source progress
      io D.unmount

end Write

end Fat

end Multi64
