import Mathlib
import Multi64.Dk64Scan
import Multi64.Lib.Except

/-! The fix of the DK64 client, `dk64.rs`: where the methods it lacks go in the
source of a module, and which modules of a world get them. -/

namespace Multi64

namespace Dk64

def backendName : Text := "RetroArchNetworkInfo".toList
def marker : Text := "def read_bytestring".toList
def writeMarker : Text := "def write_bytestring".toList

/-- The indentation of a method in `methods`, which the class's own must match. -/
def indent : Text := "    ".toList

/-- `METHODS`, added at the end of the body of the backend. -/
def methods : Text := r#"
    # Added by AP64: EmuLoader's EmulatorInfo has these and this backend did not, so
    # DK64Client's reset_auth failed here on every loop. Same bodies as EmulatorInfo's.
    def read_bytestring(self, address: int, length: int) -> str:
        """Read a string of at most length bytes, stopping at NUL."""
        result = ""
        for i in range(length):
            byte_val = self.read_u8(address + i)
            if byte_val == 0:
                break
            result += chr(byte_val)
        return result

    def write_bytestring(self, address: int, data: str):
        """Write a NUL-terminated string."""
        from .utils import sanitize_and_trim

        sanitized_data = sanitize_and_trim(data)
        for i, char in enumerate(sanitized_data):
            self.write_u8(address + i, ord(char))
        self.write_u8(address + len(sanitized_data), 0)
"#.toList

inductive ClientState where
  | ready
  | needsFix
  | unrecognized (why : String)
  deriving DecidableEq

/-- The backend class as it stands in one copy of the module: whether its body
defines the two methods, and where that body ends. -/
structure Backend where
  read : Bool
  write : Bool
  stop : Nat

abbrev Row := Kind × Text

def isHeader (row : Row) : Bool :=
  row.1 = .statement 0 && ("class ".toList ++ backendName).isPrefixOf row.2 &&
    (((row.2.drop ("class ".toList ++ backendName).length).dropWhile isWhitespace).head?.any fun c => c = '(' ∨ c = ':')

def inBody (row : Row) : Bool := row.1 ≠ .statement 0

/-- The rows of the body: those behind the header, up to the next statement that
is not indented. -/
def bodyOf (rows : List Row) : List Row := (rows.dropWhile (!isHeader ·)).tail.takeWhile inBody

def statementIndent (row : Row) : Option Text :=
  match row.1 with
  | .statement n => some (row.2.take n)
  | _ => none

/-- Python takes the indentation of a body from its first statement. -/
def firstIndent (body : List Row) : Option Text := body.findSome? statementIndent

def defines (name : Text) (row : Row) : Bool :=
  row.1 = .statement indent.length && (name ++ ['(']).isPrefixOf (row.2.drop indent.length)

/-- A row that may stand behind the last one of a body. -/
def isTrailing (row : Row) : Bool := row.1 = .blank || row.1 = .comment

def backendRows (rows : List Row) : Except String Backend :=
  match rows.filter isHeader with
  | [] => .error "it has no RetroArch backend"
  | _ :: _ :: _ => .error "it defines RetroArchNetworkInfo more than once"
  | [_] =>
    let upTo := rows.takeWhile (!isHeader ·)
    let body := bodyOf rows
    let kept := body.rdropWhile isTrailing
    if firstIndent body ≠ some indent then .error "RetroArchNetworkInfo's body is not indented by four spaces"
    else if kept = [] then .error "RetroArchNetworkInfo has no body"
    else .ok ⟨body.any (defines marker), body.any (defines writeMarker),
      ((rows.take (upTo.length + 1 + kept.length)).map fun row => row.2.length).sum⟩

def backend (module : Text) : Except String Backend :=
  match scan module with
  | none => .error "its source could not be followed"
  | some kinds => backendRows (kinds.zip (linesOf module))

def moduleState (module : Text) : ClientState :=
  match backend module with
  | .error why => .unrecognized why
  | .ok b =>
    if b.read then .ready
    else if marker <:+: module then .unrecognized "it defines read_bytestring, but not in RetroArchNetworkInfo"
    else .needsFix

/-- The module with `methods` put in at `stop`, on lines of their own. -/
def withMethods (module : Text) (stop : Nat) : Text :=
  let head := module.take stop
  let tail := module.drop stop
  let newline := if head.getLast? = some '\n' then [] else ['\n']
  let blank := if tail = [] ∨ tail.head? = some '\n' ∨ tail.head? = some '\r' then [] else ['\n']
  head ++ newline ++ methods ++ blank ++ tail

def addMethods (module : Text) : Except String Text :=
  match backend module with
  | .error why => .error why
  | .ok b =>
    let out := withMethods module b.stop
    match backend out with
    | .ok ⟨true, true, _⟩ => .ok out
    | _ => .error "the methods did not land inside RetroArchNetworkInfo"

/-- The rows of a module: each line with what it is. -/
def rowsOf (module : Text) : List Row := ((scan module).getD []).zip (linesOf module)

/-- What the lines of `methods` are. -/
def methodKinds : List Kind :=
  [.blank, .comment, .comment, .statement 4, .statement 8, .statement 8, .statement 8, .statement 12, .statement 12,
    .statement 16, .statement 12, .statement 8, .blank, .statement 4, .statement 8, .statement 8, .blank, .statement 8,
    .statement 8, .statement 12, .statement 8]

def methodRows : List Row := methodKinds.zip (linesOf methods)

-- The characters of the text are put in before it is evaluated: taking them from the string is slow.
set_option maxRecDepth 20000 in
theorem scan_methods : scanLines .neutral (linesOf methods) = some (methodKinds, .neutral) := by
  rw [show methods = _ from String.toList_ofList]
  decide +kernel

set_option maxRecDepth 20000 in
theorem methodRows_inBody : ∀ row ∈ methodRows, inBody row = true := by
  rw [methodRows, show methods = _ from String.toList_ofList]
  decide +kernel

set_option maxRecDepth 20000 in
theorem methodRows_marker : methodRows.any (defines marker) = true := by
  rw [methodRows, show methods = _ from String.toList_ofList]
  decide +kernel

set_option maxRecDepth 20000 in
theorem methodRows_writeMarker : methodRows.any (defines writeMarker) = true := by
  rw [methodRows, show methods = _ from String.toList_ofList]
  decide +kernel

section Rows

variable {rows upTo body after kept trailing : List Row} {header row : Row} {b : Backend}

/-- A module that has the backend once, taken apart. -/
structure Shape (rows upTo : List Row) (header : Row) (body after : List Row) : Prop where
  split : rows = upTo ++ header :: (body ++ after)
  noHeader : ∀ row ∈ upTo, isHeader row = false
  isHeader : isHeader header = true
  inBody : ∀ row ∈ body, inBody row = true
  once : ∀ row ∈ after, Dk64.isHeader row = false
  stop : ∀ row ∈ after.head?, Dk64.inBody row = false

theorem isHeader_inBody (h : inBody row = true) : isHeader row = false := by
  rw [inBody, decide_eq_true_iff] at h
  simp [isHeader, h]

theorem Shape.filter (h : Shape rows upTo header body after) : rows.filter Dk64.isHeader = [header] := by
  have hno : ∀ {l : List Row}, (∀ row ∈ l, Dk64.isHeader row = false) → l.filter Dk64.isHeader = [] := by
    intro l hl
    simpa using hl
  have hbody := hno fun row hrow => isHeader_inBody (h.inBody row hrow)
  rw [h.split, List.filter_append, List.filter_cons_of_pos h.isHeader, List.filter_append, hno h.noHeader, hbody, hno h.once]
  rfl

theorem Shape.takeWhile (h : Shape rows upTo header body after) : rows.takeWhile (!Dk64.isHeader ·) = upTo := by
  rw [h.split, List.takeWhile_append_of_pos (by simpa using h.noHeader), List.takeWhile_cons_of_neg (by simp [h.isHeader]),
    List.append_nil]

theorem Shape.bodyOf (h : Shape rows upTo header body after) : bodyOf rows = body := by
  have hafter : after.takeWhile Dk64.inBody = [] := by
    cases hstop : after with
    | nil => rfl
    | cons row after => exact List.takeWhile_cons_of_neg (by simp [h.stop row (by simp [hstop])])
  rw [Dk64.bodyOf, h.split, List.dropWhile_append_of_pos (by simpa using h.noHeader),
    List.dropWhile_cons_of_neg (by simp [h.isHeader]), List.tail_cons, List.takeWhile_append_of_pos h.inBody, hafter,
    List.append_nil]

theorem shape_of_filter (h : rows.filter isHeader = [header]) :
    ∃ upTo body after, Shape rows upTo header body after := by
  obtain ⟨upTo, rest, rfl, hup, hheader, hrest⟩ := List.filter_eq_cons_iff.mp h
  refine ⟨upTo, rest.takeWhile inBody, rest.dropWhile inBody, ?_, ?_, hheader, ?_, ?_, ?_⟩
  · rw [List.takeWhile_append_dropWhile]
  · simpa using hup
  · exact fun row hrow => List.mem_takeWhile_imp hrow
  · intro row hrow
    have hnone := List.filter_eq_nil_iff.mp hrest row ((List.dropWhile_sublist inBody).mem hrow)
    simpa using hnone
  · intro row hrow
    have hne := List.head?_dropWhile_not inBody rest
    rw [Option.mem_def.mp hrow] at hne
    simpa using hne

/-- The rows up to where the methods go. -/
theorem Shape.take (h : Shape rows upTo header body after) (hbody : body = kept ++ trailing) :
    rows.take (upTo.length + 1 + kept.length) = upTo ++ header :: kept := by
  rw [h.split, hbody, show upTo ++ header :: (kept ++ trailing ++ after) = (upTo ++ header :: kept) ++ (trailing ++ after) by simp,
    List.take_left' (by simp; omega)]

theorem backendRows_ok (h : backendRows rows = .ok b) : ∃ upTo header body after, Shape rows upTo header body after ∧
    firstIndent body = some indent ∧ body.rdropWhile isTrailing ≠ [] ∧
      b.stop = ((upTo ++ header :: body.rdropWhile isTrailing).map fun row => row.2.length).sum := by
  rw [backendRows] at h
  cases hfilter : rows.filter isHeader with
  | nil => simp [hfilter] at h
  | cons header rest =>
    cases rest with
    | cons _ _ => simp [hfilter] at h
    | nil =>
      obtain ⟨upTo, body, after, hshape⟩ := shape_of_filter hfilter
      simp only [hfilter, hshape.bodyOf, hshape.takeWhile] at h
      by_cases hfirst : firstIndent body = some indent
      · by_cases hkept : body.rdropWhile isTrailing = []
        · simp [hfirst, hkept] at h
        · simp only [ne_eq, hfirst, not_true_eq_false, if_false, hkept, Except.ok.injEq] at h
          rw [hshape.take List.rdropWhile_append_rtakeWhile.symm] at h
          exact ⟨upTo, header, body, after, hshape, hfirst, hkept, by rw [← h]⟩
      · simp [hfirst] at h

/-- Rows put into the body leave it the body. -/
theorem Shape.insert {rows' kept' ins : List Row} (h : Shape rows upTo header (kept ++ trailing) after)
    (hkept : ∀ row ∈ kept', Dk64.inBody row = true) (hins : ∀ row ∈ ins, Dk64.inBody row = true)
    (hrows : rows' = upTo ++ header :: (kept' ++ (ins ++ trailing) ++ after)) :
    Shape rows' upTo header (kept' ++ (ins ++ trailing)) after := by
  have htrailing : ∀ row ∈ trailing, Dk64.inBody row = true := fun row hrow => h.inBody row (List.mem_append_right kept hrow)
  refine ⟨hrows, h.noHeader, h.isHeader, ?_, h.once, h.stop⟩
  rw [List.forall_mem_append, List.forall_mem_append]
  exact ⟨hkept, hins, htrailing⟩

theorem Shape.backendRows (h : Shape rows upTo header body after) (hfirst : firstIndent body = some indent)
    (hkept : body.rdropWhile isTrailing ≠ []) : ∃ stop,
      backendRows rows = .ok ⟨body.any (defines marker), body.any (defines writeMarker), stop⟩ := by
  rw [Dk64.backendRows, h.filter]
  simp [h.bodyOf, hfirst, hkept]

theorem any_middle (p : Row → Bool) (kept ins trailing : List Row) (h : ins.any p = true) :
    (kept ++ (ins ++ trailing)).any p = true := by
  rw [List.any_append, List.any_append, h, Bool.true_or, Bool.or_true]

/-- The first statement stays the first when others are put behind the last
row, and when that row has a newline put to it. -/
theorem firstIndent_insert {last : Row} {newline : Text} {ins : List Row} (hlast : isTrailing last = false)
    (htrailing : ∀ row ∈ trailing, isTrailing row = true) (hkind : ∃ st, last.1 = kindOf st last.2)
    (h : firstIndent (kept ++ [last] ++ trailing) = some indent) :
    firstIndent (kept ++ [(last.1, last.2 ++ newline)] ++ (ins ++ trailing)) = some indent := by
  rw [firstIndent, List.append_assoc, List.findSome?_append] at h ⊢
  cases hkept : kept.findSome? statementIndent with
  | some x =>
    rw [hkept] at h
    simpa using h
  | none =>
    rw [hkept] at h
    rw [Option.none_or, List.singleton_append, List.findSome?_cons] at h ⊢
    obtain ⟨kind, line⟩ := last
    cases kind with
    | statement n =>
      obtain ⟨st, hkind⟩ := hkind
      have hn : n = indentOf line := kindOf_statement hkind.symm
      have hle := indentOf_le line
      simp only [statementIndent] at h ⊢
      rwa [List.take_append_of_le_length (by omega)]
    | blank => simp [isTrailing] at hlast
    | comment => simp [isTrailing] at hlast
    | continuation =>
      obtain ⟨row, hrow, hsome⟩ := List.exists_of_findSome?_eq_some h
      have htrail := htrailing row hrow
      obtain ⟨kind, line⟩ := row
      cases kind <;> simp [isTrailing, statementIndent] at htrail hsome

end Rows

section Insert

variable {module out head tail newline blank : Text} {kinds kinds' : List Kind} {front back : List Row} {last : Row} {b : Backend}

/-- `out` is the module with the methods put in between `head` and `tail`: lines
of their own, and every line of the module is what it was. -/
structure Inserted (module out head tail newline blank : Text) (kinds kinds' : List Kind) : Prop where
  original : module = head ++ tail
  fixed : out = head ++ newline ++ methods ++ blank ++ tail
  oneNewline : newline = [] ∨ newline = ['\n']
  oneBlank : blank = [] ∨ blank = ['\n']
  originalLines : linesOf module = linesOf head ++ linesOf tail
  fixedLines : linesOf out = linesOf (head ++ newline) ++ (linesOf methods ++ linesOf blank) ++ linesOf tail
  headLines : ∃ lines line, linesOf head = lines ++ [line] ∧ linesOf (head ++ newline) = lines ++ [line ++ newline]
  headKinds : kinds.length = (linesOf head).length
  originalKinds : scan module = some (kinds ++ kinds')
  fixedKinds : scan out = some (kinds ++ (methodKinds ++ blank.map fun _ => .blank) ++ kinds')

theorem zip_rows (rows : List Row) : (rows.map Prod.fst).zip (rows.map Prod.snd) = rows := by
  induction rows with
  | nil => rfl
  | cons row rows ih => simp [ih]

/-- Where a row does not continue the one before, the scan starts anew. -/
theorem scan_front (h : scanLines .neutral ((front ++ back).map Prod.snd) = some ((front ++ back).map Prod.fst, .neutral))
    (hback : ∀ row ∈ back.head?, row.1 ≠ .continuation) :
    scanLines .neutral (front.map Prod.snd) = some (front.map Prod.fst, .neutral) ∧
      scanLines .neutral (back.map Prod.snd) = some (back.map Prod.fst, .neutral) := by
  rw [List.map_append, List.map_append] at h
  obtain ⟨kinds₁, mid, kinds₂, h₁, h₂, heq⟩ := scanLines_append.mp h
  have hlen : kinds₁.length = (front.map Prod.fst).length := by
    rw [scanLines_length h₁, List.length_map, List.length_map]
  obtain ⟨rfl, rfl⟩ := List.append_inj heq.symm hlen
  have hmid : mid = .neutral := by
    cases back with
    | nil => simpa [scanLines] using h₂
    | cons row back =>
      rw [List.map_cons, scanLines] at h₂
      cases hline : scanLine mid row.2 with
      | none => simp [hline] at h₂
      | some mid' =>
        simp only [hline, Option.map_eq_some_iff, List.map_cons, Prod.mk.injEq, List.cons.injEq] at h₂
        obtain ⟨-, -, ⟨hkind, -⟩, -⟩ := h₂
        exact neutral_of_kindOf (by rw [hkind]; exact hback row rfl)
  rw [hmid] at h₁ h₂
  exact ⟨h₁, h₂⟩

set_option maxRecDepth 20000 in
theorem methods_ends : methods.getLast? = some '\n' := by
  rw [show methods = _ from String.toList_ofList]
  decide +kernel

/-- The lines of the methods, with the blank one that may follow. -/
theorem scan_inserted (hblank : blank = [] ∨ blank = ['\n']) :
    linesOf (methods ++ blank) = linesOf methods ++ linesOf blank ∧
      scanLines .neutral (linesOf methods ++ linesOf blank) = some (methodKinds ++ blank.map fun _ => .blank, .neutral) ∧
        (methods ++ blank).getLast? = some '\n' := by
  have hlast := methods_ends
  refine ⟨splitInclusive_append hlast blank, scanLines_append.mpr ⟨_, _, _, scan_methods, ?_, rfl⟩, ?_⟩
  · rcases hblank with rfl | rfl <;> decide
  · rcases hblank with rfl | rfl
    · rwa [List.append_nil]
    · simp

theorem moduleState_needsFix (h : moduleState module = .needsFix) :
    ∃ kinds b, scan module = some kinds ∧ backend module = .ok b ∧ backendRows (kinds.zip (linesOf module)) = .ok b := by
  rw [moduleState] at h
  cases hb : backend module with
  | error why => simp [hb] at h
  | ok b =>
    have hrows := hb
    rw [backend] at hrows
    cases hscan : scan module with
    | none => simp [hscan] at hrows
    | some kinds =>
      rw [hscan] at hrows
      exact ⟨kinds, b, rfl, rfl, hrows⟩

/-- A module that needs the fix, taken apart: the rows up to the last one of the
body, and those behind. -/
theorem split_of_needsFix (h : moduleState module = .needsFix) : ∃ upTo header kept last trailing after b,
    backend module = .ok b ∧ rowsOf module = upTo ++ header :: (kept ++ [last]) ++ (trailing ++ after) ∧
      linesOf module = (rowsOf module).map Prod.snd ∧
      scanLines .neutral ((rowsOf module).map Prod.snd) = some ((rowsOf module).map Prod.fst, .neutral) ∧
      Shape (rowsOf module) upTo header ((kept ++ [last]) ++ trailing) after ∧
      firstIndent (kept ++ [last] ++ trailing) = some indent ∧ isTrailing last = false ∧
      (∀ row ∈ trailing, isTrailing row = true) ∧ (∃ st, last.1 = kindOf st last.2) ∧
      b.stop = ((upTo ++ header :: (kept ++ [last])).map Prod.snd).flatten.length := by
  obtain ⟨kinds, b, hscan, hb, hrows⟩ := moduleState_needsFix h
  obtain ⟨upTo, header, body, after, hshape, hfirst, hne, hstop⟩ := backendRows_ok hrows
  have hlines := scan_eq_some.mp hscan
  have hlen := scanLines_length hlines
  have hfst : (kinds.zip (linesOf module)).map Prod.fst = kinds := List.map_fst_zip (Nat.le_of_eq hlen)
  have hsnd : (kinds.zip (linesOf module)).map Prod.snd = linesOf module := List.map_snd_zip (Nat.le_of_eq hlen.symm)
  have hrowsOf : rowsOf module = kinds.zip (linesOf module) := by rw [rowsOf, hscan, Option.getD_some]
  have hbody := @List.rdropWhile_append_rtakeWhile _ isTrailing body
  obtain ⟨kept, last, hkept⟩ : ∃ kept last, body.rdropWhile isTrailing = kept ++ [last] := by
    rcases List.eq_nil_or_concat (body.rdropWhile isTrailing) with hnil | ⟨kept, last, hkept⟩
    · exact absurd hnil hne
    · exact ⟨kept, last, by rw [hkept, List.concat_eq_append]⟩
  have hlast := List.rdropWhile_last_not isTrailing body hne
  simp only [hkept, List.getLast_append_singleton, Bool.not_eq_true] at hlast
  rw [hkept] at hbody hstop
  rw [← hbody] at hshape hfirst
  refine ⟨upTo, header, kept, last, body.rtakeWhile isTrailing, after, b, hb, ?_, ?_, ?_, ?_, hfirst, hlast, ?_, ?_, ?_⟩
  · rw [hrowsOf, hshape.split]
    simp
  · rw [hrowsOf, hsnd]
  · rw [hrowsOf, hfst, hsnd]
    exact hlines
  · rwa [hrowsOf]
  · exact fun row hrow => List.mem_rtakeWhile_imp hrow
  · refine scanLines_kinds hlines last ?_
    rw [hshape.split]
    simp
  · rw [hstop, List.length_flatten, List.map_map]
    rfl

/-- The lines of a head with its newline: those of the head, the last with a
newline if it had none. -/
theorem head_newline {lines rest : List Text} {line : Text} (h : linesOf module = (lines ++ [line]) ++ rest)
    (hscan : scanLines .neutral (lines ++ [line]) = some (kinds, .neutral)) :
    ∃ newline, (if (lines ++ [line]).flatten.getLast? = some '\n' then [] else ['\n']) = newline ∧
      (newline = [] ∨ newline = ['\n']) ∧ linesOf (lines ++ [line]).flatten = lines ++ [line] ∧ linesOf rest.flatten = rest ∧
      linesOf ((lines ++ [line]).flatten ++ newline) = lines ++ [line ++ newline] ∧
      ((lines ++ [line]).flatten ++ newline).getLast? = some '\n' ∧
      scanLines .neutral (lines ++ [line ++ newline]) = some (kinds, .neutral) := by
  obtain ⟨hself, hrest, hend | ⟨-, hend, hline⟩⟩ := splitInclusive_head h
  · refine ⟨[], if_pos hend, .inl rfl, hself, hrest, ?_⟩
    simp only [List.append_nil]
    exact ⟨hself, hend, hscan⟩
  · exact ⟨['\n'], if_neg hend, .inr rfl, hself, hrest, hline, by simp, scanLines_newline hscan⟩

/-- The rows of the blank line that may follow the methods. -/
def blankRows (blank : Text) : List Row := (blank.map fun _ => Kind.blank).zip (linesOf blank)

/-- Where a row does not continue the one before, the methods may be put in: the
rows are those of the module, and theirs. -/
theorem withMethods_rows (hlines : linesOf module = ((front ++ [last]) ++ back).map Prod.snd)
    (hscan : scanLines .neutral (((front ++ [last]) ++ back).map Prod.snd) =
      some (((front ++ [last]) ++ back).map Prod.fst, .neutral)) (hback : ∀ row ∈ back.head?, row.1 ≠ .continuation) :
    ∃ head tail newline blank, Inserted module (withMethods module ((front ++ [last]).map Prod.snd).flatten.length)
        head tail newline blank ((front ++ [last]).map Prod.fst) (back.map Prod.fst) ∧
      rowsOf (withMethods module ((front ++ [last]).map Prod.snd).flatten.length) =
        (front ++ [(last.1, last.2 ++ newline)]) ++ (methodRows ++ blankRows blank) ++ back := by
  obtain ⟨hscanFront, hscanBack⟩ := scan_front hscan hback
  have horiginal := scan_eq_some.mpr (show scanLines .neutral (linesOf module) = _ by rw [hlines, hscan])
  have hlast : (front ++ [last]).map Prod.snd = front.map Prod.snd ++ [last.2] := by rw [List.map_append, List.map_singleton]
  rw [List.map_append, hlast] at hlines
  rw [hlast] at hscanFront ⊢
  obtain ⟨newline, hnewline, honly, hself, hrest, hline, hend, hscanHead⟩ := head_newline hlines hscanFront
  obtain ⟨head, hhead⟩ : ∃ head, (front.map Prod.snd ++ [last.2]).flatten = head := ⟨_, rfl⟩
  obtain ⟨tail, htail⟩ : ∃ tail, (back.map Prod.snd).flatten = tail := ⟨_, rfl⟩
  have hmodule : module = head ++ tail := by
    rw [← splitInclusive_flatten '\n' module, ← linesOf, hlines, List.flatten_append, hhead, htail]
  rw [hhead] at hself hline hend hnewline ⊢
  rw [htail] at hrest
  obtain ⟨blank, hblank⟩ : ∃ blank, (if tail = [] ∨ tail.head? = some '\n' ∨ tail.head? = some '\r' then [] else ['\n']) = blank :=
    ⟨_, rfl⟩
  have hblankOnly : blank = [] ∨ blank = ['\n'] := by
    by_cases hnone : tail = [] ∨ tail.head? = some '\n' ∨ tail.head? = some '\r'
    · exact .inl (by rw [← hblank, if_pos hnone])
    · exact .inr (by rw [← hblank, if_neg hnone])
  have hout : withMethods module head.length = head ++ newline ++ methods ++ blank ++ tail := by
    simp only [withMethods, hmodule, List.take_left', List.drop_left', hnewline, hblank]
  obtain ⟨hinsLines, hinsScan, hinsEnd⟩ := scan_inserted hblankOnly
  have houtLines : linesOf (withMethods module head.length) =
      linesOf (head ++ newline) ++ (linesOf methods ++ linesOf blank) ++ linesOf tail := by
    have hmiddle : head ++ newline ++ methods ++ blank ++ tail = (head ++ newline) ++ ((methods ++ blank) ++ tail) := by
      simp only [List.append_assoc]
    rw [hout, hmiddle, linesOf, splitInclusive_append hend, splitInclusive_append hinsEnd, ← linesOf, ← linesOf, ← linesOf, hinsLines]
    simp only [List.append_assoc]
  have houtScan : scanLines .neutral (linesOf (withMethods module head.length)) =
      some ((front ++ [last]).map Prod.fst ++ (methodKinds ++ blank.map fun _ => .blank) ++ back.map Prod.fst, .neutral) := by
    rw [houtLines, hline, hrest]
    exact scanLines_append.mpr ⟨_, _, _, scanLines_append.mpr ⟨_, _, _, hscanHead, hinsScan, rfl⟩, hscanBack, rfl⟩
  have houtKinds := scan_eq_some.mpr houtScan
  have hheadLen : ((front ++ [last]).map Prod.fst).length = (linesOf (head ++ newline)).length := by
    rw [hline]
    exact scanLines_length hscanHead
  have hinsLen := scanLines_length hinsScan
  have hlen : ((front ++ [last]).map Prod.fst ++ (methodKinds ++ blank.map fun _ => Kind.blank)).length =
      (linesOf (head ++ newline) ++ (linesOf methods ++ linesOf blank)).length := by
    rw [List.length_append, hheadLen, hinsLen, ← List.length_append]
  refine ⟨head, tail, newline, blank, ⟨hmodule, hout, honly, hblankOnly, ?_, houtLines, ?_, ?_, ?_, houtKinds⟩, ?_⟩
  · rw [hlines, hself, hrest]
  · exact ⟨_, _, hself, hline⟩
  · rw [hself]
    simp
  · rw [horiginal, List.map_append]
  · rw [rowsOf, houtKinds, Option.getD_some, houtLines, List.zip_append hlen, List.zip_append hheadLen,
      List.zip_append (scanLines_length scan_methods), hline, hrest, zip_rows, List.map_append, List.zip_append (by simp), zip_rows,
      methodRows, blankRows, List.map_singleton, List.zip_cons_cons, List.zip_nil_left]

theorem rows_assoc (upTo kept ins trailing after : List Row) (header last : Row) :
    (upTo ++ header :: kept) ++ [last] ++ ins ++ (trailing ++ after) = upTo ++ header :: (kept ++ [last] ++ (ins ++ trailing) ++ after) := by
  simp

theorem isTrailing_not (h : isTrailing last = true) : last.1 ≠ .continuation := by
  intro hcont
  simp [isTrailing, hcont] at h

theorem addMethods_needsFix (h : moduleState module = .needsFix) :
    ∃ out, addMethods module = .ok out ∧ moduleState out = .ready ∧
      (∃ head tail newline blank kinds kinds', Inserted module out head tail newline blank kinds kinds') ∧
      ∃ kept trailing, bodyOf (rowsOf out) = kept ++ (methodRows ++ trailing) := by
  obtain ⟨upTo, header, kept, last, trailing, after, b, hb, hrows, hlines, hscan, hshape, hfirst, hlast, htrailing, hkind, hstop⟩ :=
    split_of_needsFix h
  have hfront : upTo ++ header :: (kept ++ [last]) = (upTo ++ header :: kept) ++ [last] := by simp
  rw [hfront] at hrows hstop
  rw [hrows] at hscan hlines
  -- Behind the body no row continues one before it.
  have hback : ∀ row ∈ (trailing ++ after).head?, row.1 ≠ .continuation := by
    intro row hrow
    cases htrail : trailing with
    | nil =>
      rw [htrail, List.nil_append] at hrow
      have hin := hshape.stop row hrow
      rw [inBody, decide_eq_false_iff_not, not_not] at hin
      simp [hin]
    | cons x xs =>
      rw [htrail] at hrow
      obtain rfl : x = row := by simpa using hrow
      exact isTrailing_not (htrailing x (by simp [htrail]))
  obtain ⟨head, tail, newline, blank, hinserted, houtRows⟩ := withMethods_rows hlines hscan hback
  rw [← hstop] at hinserted houtRows
  have hins : ∀ row ∈ methodRows ++ blankRows blank, inBody row = true := by
    rw [List.forall_mem_append]
    refine ⟨methodRows_inBody, ?_⟩
    rcases hinserted.oneBlank with rfl | rfl <;> decide
  have hkept : ∀ row ∈ kept ++ [(last.1, last.2 ++ newline)], inBody row = true := by
    rw [List.forall_mem_append, List.forall_mem_singleton]
    exact ⟨fun row hrow => hshape.inBody row (by simp [hrow]), hshape.inBody last (by simp)⟩
  have hshapeOut := hshape.insert hkept hins (houtRows.trans (rows_assoc _ _ _ _ _ _ _))
  have hfirstOut := @firstIndent_insert _ _ _ newline (methodRows ++ blankRows blank) hlast htrailing hkind hfirst
  have hkeptOut : (kept ++ [(last.1, last.2 ++ newline)] ++ (methodRows ++ blankRows blank ++ trailing)).rdropWhile isTrailing ≠ [] := by
    rw [ne_eq, List.rdropWhile_eq_nil_iff]
    intro hall
    have hbad : isTrailing last = true := hall (last.1, last.2 ++ newline) (by simp)
    rw [hlast] at hbad
    exact nomatch hbad
  obtain ⟨stop, hrowsOut⟩ := hshapeOut.backendRows hfirstOut hkeptOut
  have hmethods : ∀ p : Row → Bool, methodRows.any p = true → (methodRows ++ blankRows blank).any p = true := by
    intro p hp
    rw [List.any_append, hp, Bool.true_or]
  rw [any_middle _ _ _ _ (hmethods _ methodRows_marker), any_middle _ _ _ _ (hmethods _ methodRows_writeMarker)] at hrowsOut
  have hbackend : backend (withMethods module b.stop) = .ok ⟨true, true, stop⟩ := by
    rw [rowsOf, hinserted.fixedKinds, Option.getD_some] at hrowsOut
    rw [backend, hinserted.fixedKinds]
    exact hrowsOut
  refine ⟨withMethods module b.stop, ?_, ?_, ⟨head, tail, newline, blank, _, _, hinserted⟩, ?_⟩
  · rw [addMethods, hb]
    simp [hbackend]
  · rw [moduleState, hbackend]
    rfl
  · refine ⟨kept ++ [(last.1, last.2 ++ newline)], blankRows blank ++ trailing, ?_⟩
    rw [hshapeOut.bodyOf, List.append_assoc methodRows]

end Insert

/-- The EmuLoader modules of a world, each by the name of the vendored zip that
carries it. -/
structure Apworld where
  modules : List (Text × Text)
  names : (modules.map Prod.fst).Nodup

def statesOf (state : ClientState) : List (Text × Text) → ClientState
  | [] => state
  | (name, text) :: rest =>
    match moduleState text with
    | .unrecognized why => .unrecognized ("the EmuLoader in " ++ String.ofList name ++ ": " ++ why)
    | .needsFix => statesOf .needsFix rest
    | .ready => statesOf state rest

def clientState (modules : List (Text × Text)) : ClientState :=
  if modules = [] then
    .unrecognized "dk64.apworld carries no vendored EmuLoader; this version of the world is not one AP64 knows"
  else statesOf .ready modules

/-- The modules of a world with those replaced that are in `fixes`. -/
def replaceFixed (fixes : List (Text × Text)) (entry : Text × Text) : Text × Text :=
  match fixes.find? fun fix => fix.1 = entry.1 with
  | some fix => (entry.1, fix.2)
  | none => entry

def fixClient (world : Apworld) : Except String (List (Text × Text)) :=
  match clientState world.modules with
  | .ready => .error "dk64.apworld already has the fix"
  | .unrecognized why => .error why
  | .needsFix => do
    let fixes ← (world.modules.filter fun entry => moduleState entry.2 = .needsFix).mapM fun entry =>
      (addMethods entry.2).map fun fixed => (entry.1, fixed)
    let out := world.modules.map (replaceFixed fixes)
    match clientState out with
    | .ready => .ok out
    | _ => .error "the fixed dk64.apworld did not check out"

section World

variable {world : Apworld} {modules : List (Text × Text)} {entry : Text × Text} {state : ClientState}

theorem statesOf_needsFix (h : statesOf state modules = .needsFix) (hmem : entry ∈ modules) :
    moduleState entry.2 = .ready ∨ moduleState entry.2 = .needsFix := by
  induction modules generalizing state with
  | nil => simp at hmem
  | cons first rest ih =>
    rw [statesOf] at h
    cases hfirst : moduleState first.2 with
    | unrecognized why => simp [hfirst] at h
    | ready =>
      rw [hfirst] at h
      rcases List.mem_cons.mp hmem with rfl | hin
      · exact .inl hfirst
      · exact ih h hin
    | needsFix =>
      rw [hfirst] at h
      rcases List.mem_cons.mp hmem with rfl | hin
      · exact .inr hfirst
      · exact ih h hin

theorem statesOf_ready (h : ∀ entry ∈ modules, moduleState entry.2 = .ready) : statesOf .ready modules = .ready := by
  induction modules with
  | nil => rfl
  | cons first rest ih =>
    have hall := List.forall_mem_cons.mp h
    rw [statesOf, hall.1]
    exact ih hall.2

/-- The text of a module after the fix. -/
def fixedText (text : Text) : Text :=
  match moduleState text with
  | .needsFix => (addMethods text).toOption.getD text
  | _ => text

theorem fixedText_needsFix {text : Text} (h : moduleState text = .needsFix) :
    addMethods text = .ok (fixedText text) ∧ moduleState (fixedText text) = .ready := by
  obtain ⟨out, hout, hready, -⟩ := addMethods_needsFix h
  have hfixed : fixedText text = out := by
    rw [fixedText, h, hout]
    rfl
  rw [hfixed]
  exact ⟨hout, hready⟩

theorem fixedText_ready {text : Text} (h : moduleState text = .ready) : fixedText text = text := by
  rw [fixedText, h]

/-- Of the modules that are fixed, the one of an entry is its own. -/
theorem replaceFixed_fixes (hmem : entry ∈ world.modules) :
    replaceFixed ((world.modules.filter fun entry => moduleState entry.2 = .needsFix).map fun entry => (entry.1, fixedText entry.2))
      entry = (entry.1, if moduleState entry.2 = .needsFix then fixedText entry.2 else entry.2) := by
  rw [replaceFixed]
  cases hfind : List.find? (fun fix => decide (fix.1 = entry.1))
      ((world.modules.filter fun entry => moduleState entry.2 = .needsFix).map fun entry => (entry.1, fixedText entry.2)) with
  | none =>
    have hnone := List.find?_eq_none.mp hfind
    by_cases hneeds : moduleState entry.2 = .needsFix
    · have hin := hnone (entry.1, fixedText entry.2) (List.mem_map.mpr ⟨entry, by simp [hmem, hneeds], rfl⟩)
      simp at hin
    · rw [if_neg hneeds]
  | some fix =>
    obtain ⟨source, hsource, rfl⟩ := List.mem_map.mp (List.mem_of_find?_eq_some hfind)
    obtain ⟨hin, hneeds⟩ := List.mem_filter.mp hsource
    have hname : source.1 = entry.1 := by simpa using List.find?_some hfind
    obtain rfl := List.inj_on_of_nodup_map world.names hin hmem hname
    rw [if_pos (by simpa using hneeds)]

theorem statesOf_of_client (h : clientState modules = .needsFix) : statesOf .ready modules = .needsFix := by
  rw [clientState] at h
  split at h
  · exact nomatch h
  · exact h

theorem known_of_needsFix (h : clientState modules = .needsFix) (hmem : entry ∈ modules) :
    moduleState entry.2 = .ready ∨ moduleState entry.2 = .needsFix := statesOf_needsFix (statesOf_of_client h) hmem

/-- A world with the fix needs none. -/
theorem clientState_fixed (h : clientState modules = .needsFix) :
    clientState (modules.map fun entry => (entry.1, fixedText entry.2)) = .ready := by
  have hne : modules ≠ [] := by
    intro hnil
    have hstates := statesOf_of_client h
    simp [hnil, statesOf] at hstates
  rw [clientState, if_neg (by simpa using hne)]
  refine statesOf_ready fun entry hentry => ?_
  obtain ⟨source, hsource, rfl⟩ := List.mem_map.mp hentry
  rcases known_of_needsFix h hsource with hready | hneeds
  · rw [fixedText_ready hready, hready]
  · exact (fixedText_needsFix hneeds).2

/-- The fix of a world: the modules that need it get it, the others stay. -/
theorem fixClient_needsFix (h : clientState world.modules = .needsFix) :
    fixClient world = .ok (world.modules.map fun entry => (entry.1, fixedText entry.2)) := by
  have hfixes := mapM_of_ok (l := world.modules.filter fun entry => moduleState entry.2 = .needsFix)
    (f := fun entry => (addMethods entry.2).map fun fixed => (entry.1, fixed)) (g := fun entry => (entry.1, fixedText entry.2))
    fun entry hentry => by
      have hneeds : moduleState entry.2 = .needsFix := by simpa using (List.mem_filter.mp hentry).2
      simp only [(fixedText_needsFix hneeds).1]
      rfl
  have hout : (world.modules.map (replaceFixed ((world.modules.filter fun entry => moduleState entry.2 = .needsFix).map
      fun entry => (entry.1, fixedText entry.2)))) = world.modules.map fun entry => (entry.1, fixedText entry.2) := by
    refine List.map_congr_left fun entry hmem => ?_
    rw [replaceFixed_fixes hmem]
    rcases known_of_needsFix h hmem with hready | hneeds
    · rw [if_neg (by simp [hready]), fixedText_ready hready]
    · rw [if_pos hneeds]
  rw [fixClient, h]
  simp only [hfixes]
  change (match clientState (world.modules.map (replaceFixed _)) with | .ready => _ | _ => _) = _
  rw [hout, clientState_fixed h]

theorem fixClient_refuses (h : clientState world.modules ≠ .needsFix) : ∃ why, fixClient world = .error why := by
  rw [fixClient]
  cases hstate : clientState world.modules with
  | ready => exact ⟨_, rfl⟩
  | unrecognized why => exact ⟨_, rfl⟩
  | needsFix => exact absurd hstate h

/-- A module that needs the fix takes it, as lines of its own inside the body of
its backend, and is ready then. A module that does not is left alone, by itself
and as one of a world. -/
theorem fix_sound (module : Text) (world : Apworld) :
    (moduleState module = .needsFix → ∃ out, addMethods module = .ok out ∧ moduleState out = .ready ∧
      (∃ head tail newline blank kinds kinds', Inserted module out head tail newline blank kinds kinds') ∧
      ∃ kept trailing, bodyOf (rowsOf out) = kept ++ (methodRows ++ trailing)) ∧
    (clientState world.modules ≠ .needsFix → ∃ why, fixClient world = .error why) ∧
    (clientState world.modules = .needsFix → ∃ out, fixClient world = .ok out ∧ clientState out = .ready ∧
      List.Forall₂ (fun entry entry' => entry'.1 = entry.1 ∧
        if moduleState entry.2 = .needsFix then addMethods entry.2 = .ok entry'.2 else entry'.2 = entry.2) world.modules out) := by
  refine ⟨addMethods_needsFix, fixClient_refuses, fun h => ⟨_, fixClient_needsFix h, clientState_fixed h, ?_⟩⟩
  rw [List.forall₂_map_right_iff, List.forall₂_same]
  intro entry hentry
  refine ⟨rfl, ?_⟩
  rcases known_of_needsFix h hentry with hready | hneeds
  · rw [if_neg (by simp [hready])]
    exact fixedText_ready hready
  · rw [if_pos hneeds]
    exact (fixedText_needsFix hneeds).1

/-- The backend as it is released. -/
def unfixed : Text := "class RetroArchNetworkInfo:\n    def read_u8(self, address):\n        return 0\n".toList

theorem unfixed_needsFix : moduleState unfixed = .needsFix := by
  rw [show unfixed = _ from String.toList_ofList]
  decide +kernel

theorem fix_sound_unfixed : ∃ out, addMethods unfixed = .ok out ∧ moduleState out = .ready := by
  obtain ⟨out, hout, hready, -⟩ := (fix_sound unfixed ⟨[], .nil⟩).1 unfixed_needsFix
  exact ⟨out, hout, hready⟩

end World

end Dk64

end Multi64
