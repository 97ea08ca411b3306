import Multi64.Lib.Lines
import Multi64.ProPath

/-! Which entry of an EverDrive-64 PRO's card a path leads to, and whether it is
the one that a listing reported it for. -/

namespace Multi64

namespace ProPath

open Exfat

section Pieces

variable {s a b name : Text}

end Pieces

section Parts

variable {path parent name : Text}

/-- Neither the path nor, as the PRO expects it, any folder part of it begins or
ends with white space. -/
structure Spelled (path : Text) : Prop where
  ends : Text.trim path = path
  folders : ∀ d rest, proPath path = d ++ '/' :: rest → Text.trim d = d

theorem Spelled.normalize (h : Spelled path) : Exfat.normalize path = path.map fun c => if c = '\\' then '/' else c := by
  rw [Exfat.normalize, h.ends]

end Parts

section Find

variable {toUppercase : Char → Text} {card : Card toUppercase} {fails listing : List Text → Option Kind}
variable {path parent name q : Text} {segs : List Text}

theorem dirList_ok {infos : List FileInfo} (h : card.dirList fails path = .ok infos) :
    ∃ segs, card.walk [] (pieces path) = some segs ∧ infos = card.items segs := by
  rw [Card.dirList] at h
  split at h
  · exact nomatch h
  · split at h
    · exact nomatch h
    next segs hwalk =>
      split at h
      · exact nomatch h
      · exact ⟨segs, hwalk, (Except.ok.inj h).symm⟩

end Find

section Listed

variable {toUppercase : Char → Text} {card : Card toUppercase} {fails : List Text → Option Kind}
variable {segs : List Text} {i : FileInfo} {d q path : Text} {list : List SessionEntry} {e : SessionEntry}

end Listed

end ProPath

end Multi64
