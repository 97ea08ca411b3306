import Multi64.ExfatResolve

/-! Finding an entry on an EverDrive-64 PRO's card by its path, `ed64pro.rs`,
over a card that opens folders by path and may refuse to list any of them. -/

namespace Multi64

namespace ProPath

open Exfat

def attrHidden : UInt8 := 0x02

def attrDir : UInt8 := 0x10

def maxPathBytes : Nat := 65535

/-- What a listing says of one entry. -/
structure FileInfo where
  name : Text
  size : Nat
  attributes : UInt8

def FileInfo.isDir (i : FileInfo) : Bool := i.attributes &&& attrDir ≠ 0

/-- The kinds of error a listing ends with. The cart's own refusals are
`other`. -/
inductive Kind where
  | other | transport | invalidInput
  deriving DecidableEq

/-- A card: what is in the folder with these names, siblings apart as the card
compares names. -/
structure Card (toUppercase : Char → Text) where
  items : List Text → List FileInfo
  names : ∀ segs, ∀ i ∈ items segs, ValidName i.name
  distinct : ∀ segs, (items segs).Pairwise fun i j => fatNamesEqual toUppercase i.name j.name = false

/-- The names of a path's folders and of its end. -/
def pieces (path : Text) : List Text := (path.splitOn '/').filter (· ≠ [])

section Lookup

variable {toUppercase : Char → Text} (card : Card toUppercase) (fails : List Text → Option Kind)

/-- The folder that the cart opens for these names, from the folder `here`. -/
def Card.walk : (here : List Text) → List Text → Option (List Text)
  | here, [] => some here
  | here, s :: segs =>
    match (card.items here).find? fun i => fatNamesEqual toUppercase i.name s with
    | none => none
    | some i => if i.isDir then Card.walk (here ++ [i.name]) segs else none

def Card.dirList (path : Text) : Except Kind (List FileInfo) :=
  if maxPathBytes < (path.map Char.utf8Size).sum then .error .invalidInput
  else
    match card.walk [] (pieces path) with
    | none => .error .other
    | some segs =>
      match fails segs with
      | some kind => .error kind
      | none => .ok (card.items segs)

/-- A cart path as the PRO expects it: forward slashes, none at its ends. -/
def proPath (path : Text) : Text := ((Exfat.normalize path).dropWhile (· = '/')).rdropWhile (· = '/')

/-- A path's parent and its last name. -/
def cartPathParts (path : Text) : Text × Text :=
  match Text.rsplitOnce '/' (proPath path) with
  | none => ([], proPath path)
  | some parts => parts

def join (parent name : Text) : Text := if parent = [] then name else parent ++ '/' :: name

def entry (parent : Text) (i : FileInfo) : SessionEntry where
  name := i.name
  path := join parent i.name
  isDir := i.isDir
  size := if i.isDir then 0 else i.size
  hidden := i.attributes &&& attrHidden ≠ 0 || i.name.head? = some '.'

def listDir (path : Text) : Except Kind (List SessionEntry) :=
  (card.dirList fails (proPath path)).map fun infos =>
    (infos.filter fun i => i.name ≠ ['.'] ∧ i.name ≠ ['.', '.']).map (entry (proPath path))

/-- What a folder the cart will not list makes of an entry in it, by what is
found at the folder's own path: an error where the folder above shows a folder
there, absence where it does not. -/
def unlisted : Except Kind (Option SessionEntry) → Except Kind (Option SessionEntry)
  | .error kind => .error kind
  | .ok none => .ok none
  | .ok (some p) => if p.isDir then .error .other else .ok none

/-- `find_entry`, with as many folders left to go up as `fuel`. -/
def findFrom : (fuel : Nat) → Text → Except Kind (Option SessionEntry)
  | 0, _ => .ok none
  | fuel + 1, path =>
    let (parent, name) := cartPathParts path
    if name = [] then .ok none
    else
      match listDir card fails parent with
      | .ok list => .ok (list.find? fun e => fatNamesEqual toUppercase e.name name)
      | .error kind => if parent ≠ [] ∧ kind = .other then unlisted (findFrom fuel parent) else .error kind

def findEntry (path : Text) : Except Kind (Option SessionEntry) := findFrom card fails (path.length + 1) path

/-- `Some(true)` for a directory, `Some(false)` for a file. -/
def cartPathEntryKind (path : Text) : Except Kind (Option Bool) := (findEntry card fails path).map (·.map (·.isDir))

end Lookup

end ProPath

end Multi64
