import Multi64.ExfatPath

/-! Which entry set the path that a listing reports for an entry leads back to. -/

namespace Multi64

namespace Exfat

section Spelling

variable {s : Text} {segs : List Text} {name : Text}

/-- A name that stays one piece of a path. -/
structure Piece (s : Text) : Prop where
  nonempty : s ≠ []
  no_slash : '/' ∉ s
  no_backslash : '\\' ∉ s

/-- A name that an exFAT entry can have. -/
structure ValidName (name : Text) : Prop extends Piece name where
  not_dots : name ∉ dotNames

def joined (segs : List Text) : Text := ['/'].intercalate segs

end Spelling

section Weight

variable {s : Text} {segs : List Text}

/-- How many units of UTF-16 a path has beside its separators. -/
def weight (s : Text) : Nat := (Text.encodeUtf16 (s.filter (· ≠ '/'))).length

end Weight

/-- `f`, at slot `j` of `d`, is a folder whose directory is `c`. -/
structure Opens (v : Volume) (d : DirSlots) (j : Nat) (f : DecodedEntry) (c : DirSlots) : Prop where
  listed : (j, f) ∈ listSlots d.slots
  folder : f.isDir = true
  loads : DirSlots.loadWith v f.ref = .ok c

inductive Reaches (v : Volume) : DirSlots → Prop
  | root {d : DirSlots} (h : DirSlots.loadWith v v.root = .ok d) : Reaches v d
  | folder {d c : DirSlots} {j : Nat} {f : DecodedEntry} (h : Reaches v d) (ho : Opens v d j f c) : Reaches v c

section Walk

variable {toUppercase : Char → Text} {v : Volume} {d c : DirSlots} {s : Text} {segs : List Text}

end Walk

section Resolve

variable {toUppercase : Char → Text} {toLowercase : Text → Text} {v : Volume} {P : Text} {dir : DirSlots} {i : Nat}
  {e : DecodedEntry}

/-- What keeps the path of `e` in the folder at `path` its own: no white space at
an end of the path or of its folder's, no earlier entry with the name as exFAT
compares names, and a name whose surrogates are paired. -/
structure Kept (toUppercase : Char → Text) (path : Text) (slots : List Bytes) (i : Nat) (e : DecodedEntry) : Prop where
  path_ends : Text.trim (joined (segments path ++ [e.name])) = joined (segments path ++ [e.name])
  folder_ends : Text.trim (joined (segments path)) = joined (segments path)
  first : ∀ p ∈ listSlots slots, p.1 < i → fatNamesEqual toUppercase p.2.name e.name = false
  paired : nameUnits slots i = some (Text.encodeUtf16 e.name)

theorem listed (hname : ValidName e.name) (hdir : resolveDirSlots toUppercase v P = .ok dir)
    (hmem : (i, e) ∈ listSlots dir.slots) :
    ∃ out, listDir toUppercase toLowercase v P = .ok out ∧ sessionEntry P e ∈ out := by
  rw [listDir, hdir]
  refine ⟨_, rfl, ?_⟩
  rw [List.mem_insertionSort, List.mem_map]
  refine ⟨e, List.mem_filter.mpr ⟨List.mem_map.mpr ⟨(i, e), hmem, rfl⟩, ?_⟩, rfl⟩
  exact decide_eq_true hname.not_dots

/-- The entry set of a one-byte file with a short ASCII name. -/
def fileSet (name : Bytes) (cluster : UInt8) : List Bytes :=
  [[0x85, 2, 0, 0, 0x20] ++ List.replicate 27 0,
    [0xC0, 1, 0, .ofNat name.length] ++ List.replicate 4 0 ++ [1] ++ List.replicate 11 0 ++ [cluster, 0, 0, 0, 1] ++
      List.replicate 7 0,
    [0xC1, 0] ++ name.flatMap (fun b => [b, 0]) ++ List.replicate (30 - 2 * name.length) 0]

def upcaseAscii (c : Char) : Text := [c.toUpper]

end Resolve

end Exfat

end Multi64
