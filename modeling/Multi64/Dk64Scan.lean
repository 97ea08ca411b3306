import Multi64.Lib.Lines
import Multi64.Lib.Text

/-! The Python source that `dk64.rs` follows line by line, far enough to tell
where a statement starts. -/

namespace Multi64

namespace Dk64

/-- What a line of Python source is, to the extent the fix needs to know. -/
inductive Kind where
  | blank
  | comment
  | statement (indent : Nat)
  | continuation
  deriving DecidableEq, Repr

inductive Quote where
  | single
  | double
  deriving DecidableEq

def Quote.char : Quote → Char
  | .single => '\x27'
  | .double => '"'

def quoteOf (c : Char) : Option Quote :=
  if c = '"' then some .double else if c = '\x27' then some .single else none

/-- Where the scan stands in a line: in code, in a string of three quotes, or in
one that has to end in its line. -/
inductive Mode where
  | code
  | triple (q : Quote)
  | string (q : Quote)

/-- What is carried from one line to the next. -/
structure ScanState where
  depth : Nat
  triple : Option Quote
  continued : Bool
  deriving DecidableEq

/-- No bracket and no string is open, and no line is to be continued. -/
def ScanState.neutral : ScanState := ⟨0, none, false⟩

def thrice (q : Quote) (b : Text) : Bool := [q.char, q.char, q.char].isPrefixOf b

/-- The characters of a line; `skip` of them are behind the cursor already. -/
def scanChars : Nat → Mode → Bool → Nat → Text → Option ScanState
  | depth, .code, continued, _, [] => some ⟨depth, none, continued⟩
  | depth, .triple q, continued, _, [] => some ⟨depth, some q, continued⟩
  | _, .string _, _, _, [] => none
  | depth, mode, continued, skip + 1, _ :: b => scanChars depth mode continued skip b
  | depth, .triple q, continued, 0, c :: b =>
    if c = '\\' then scanChars depth (.triple q) continued 1 b
    else if thrice q (c :: b) then scanChars depth .code continued 2 b
    else scanChars depth (.triple q) continued 0 b
  | depth, .string q, continued, 0, c :: b =>
    if c = '\\' then scanChars depth (.string q) continued 1 b
    else if c = q.char then scanChars depth .code continued 0 b
    else if c = '\n' then none
    else scanChars depth (.string q) continued 0 b
  | depth, .code, continued, 0, c :: b =>
    if c = '#' then some ⟨depth, none, continued⟩
    else if c = '(' ∨ c = '[' ∨ c = '\x7b' then scanChars (depth + 1) .code continued 0 b
    else if c = ')' ∨ c = ']' ∨ c = '\x7d' then if depth = 0 then none else scanChars (depth - 1) .code continued 0 b
    else if c = '\\' ∧ Text.trim b = [] then scanChars depth .code true 0 b
    else
      match quoteOf c with
      | some q => if thrice q (c :: b) then scanChars depth (.triple q) continued 2 b else scanChars depth (.string q) continued 0 b
      | none => scanChars depth .code continued 0 b

def scanLine (st : ScanState) (line : Text) : Option ScanState :=
  scanChars st.depth (match st.triple with | some q => .triple q | none => .code) false 0 line

def indentOf (line : Text) : Nat := (line.takeWhile fun c => c = ' ' ∨ c = '\t').length

def kindOf (st : ScanState) (line : Text) : Kind :=
  let rest := (line.drop (indentOf line)).rdropWhile isWhitespace
  if st.triple.isSome ∨ 0 < st.depth ∨ st.continued then .continuation
  else if rest = [] then .blank
  else if rest.head? = some '#' then .comment
  else .statement (indentOf line)

def scanLines (st : ScanState) : List Text → Option (List Kind × ScanState)
  | [] => some ([], st)
  | line :: lines =>
    match scanLine st line with
    | none => none
    | some st' => (scanLines st' lines).map fun r => (kindOf st line :: r.1, r.2)

def linesOf (src : Text) : List Text := splitInclusive '\n' src

/-- Each line and what it is; `none` when the source is not something the scan
can follow. -/
def scan (src : Text) : Option (List Kind) :=
  match scanLines .neutral (linesOf src) with
  | some (kinds, st) => if st = .neutral then some kinds else none
  | none => none

section Lemmas

variable {st st' mid : ScanState} {mode : Mode} {q : Quote} {depth skip n : Nat} {continued c : Bool} {b line : Text}
  {lines lines' : List Text} {kinds : List Kind}

theorem Quote.char_ne (q : Quote) : q.char ≠ '\n' := by cases q <;> decide

theorem thrice_newline (q : Quote) (b : Text) : thrice q (b ++ ['\n']) = thrice q b := by
  have hq := q.char_ne
  match b with
  | [] => simp [thrice, List.isPrefixOf]
  | [x] => simp [thrice, List.isPrefixOf]
  | [x, y] => simp [thrice, List.isPrefixOf, hq]
  | x :: y :: z :: b => simp [thrice, List.isPrefixOf]

theorem thrice_length (h : thrice q (x :: b) = true) : 2 ≤ b.length := by
  match b with
  | [] => simp [thrice, List.isPrefixOf] at h
  | [y] => simp [thrice, List.isPrefixOf] at h
  | y :: z :: b => simp

/-- A line that ends outside its strings may as well have a newline more. -/
theorem scanChars_newline (hskip : skip ≤ b.length ∨ mode ≠ .code)
    (h : scanChars depth mode continued skip b = some ⟨n, none, c⟩) :
    scanChars depth mode continued skip (b ++ ['\n']) = some ⟨n, none, c⟩ := by
  induction b generalizing depth mode continued skip with
  | nil =>
    cases mode with
    | code =>
      obtain rfl : skip = 0 := by simpa using hskip
      simpa [scanChars, quoteOf] using h
    | triple q => simp [scanChars] at h
    | string q => simp [scanChars] at h
  | cons x b ih =>
    rw [List.cons_append]
    cases skip with
    | succ skip =>
      rw [scanChars] at h ⊢
      exact ih (hskip.imp_left fun hle => by simpa using hle) h
    | zero =>
      have hthrice : ∀ q, thrice q (x :: (b ++ ['\n'])) = thrice q (x :: b) := fun q => thrice_newline q (x :: b)
      cases mode with
      | triple q =>
        rw [scanChars] at h ⊢
        rw [hthrice]
        by_cases hesc : x = '\\'
        · rw [if_pos hesc] at h ⊢
          exact ih (.inr (by simp)) h
        · rw [if_neg hesc] at h ⊢
          by_cases hend : thrice q (x :: b) = true
          · rw [if_pos hend] at h ⊢
            exact ih (.inl (thrice_length hend)) h
          · rw [if_neg hend] at h ⊢
            exact ih (.inr (by simp)) h
      | string q =>
        rw [scanChars] at h ⊢
        by_cases hesc : x = '\\'
        · rw [if_pos hesc] at h ⊢
          exact ih (.inr (by simp)) h
        · rw [if_neg hesc] at h ⊢
          by_cases hend : x = q.char
          · rw [if_pos hend] at h ⊢
            exact ih (.inl (Nat.zero_le _)) h
          · rw [if_neg hend] at h ⊢
            by_cases hline : x = '\n'
            · simp [hline] at h
            · rw [if_neg hline] at h ⊢
              exact ih (.inr (by simp)) h
      | code =>
        have htrim : Text.trim (b ++ ['\n']) = [] ↔ Text.trim b = [] := by
          rw [Text.trim_eq_nil, Text.trim_eq_nil, List.forall_mem_append]
          exact and_iff_left (List.forall_mem_singleton.mpr (by decide))
        have hrest : ∀ d c', scanChars d .code c' 0 b = some ⟨n, none, c⟩ →
            scanChars d .code c' 0 (b ++ ['\n']) = some ⟨n, none, c⟩ :=
          fun d c' h => ih (.inl (Nat.zero_le _)) h
        rw [scanChars] at h ⊢
        simp only [htrim, hthrice]
        by_cases hcomment : x = '#'
        · rwa [if_pos hcomment] at h ⊢
        rw [if_neg hcomment] at h ⊢
        by_cases hopen : x = '(' ∨ x = '[' ∨ x = '\x7b'
        · rw [if_pos hopen] at h ⊢
          exact hrest _ _ h
        rw [if_neg hopen] at h ⊢
        by_cases hclose : x = ')' ∨ x = ']' ∨ x = '\x7d'
        · rw [if_pos hclose] at h ⊢
          by_cases hdepth : depth = 0
          · simp [hdepth] at h
          · rw [if_neg hdepth] at h ⊢
            exact hrest _ _ h
        rw [if_neg hclose] at h ⊢
        by_cases hcont : x = '\\' ∧ Text.trim b = []
        · rw [if_pos hcont] at h ⊢
          exact hrest _ _ h
        rw [if_neg hcont] at h ⊢
        cases hquote : quoteOf x with
        | none =>
          simp only [hquote] at h ⊢
          exact hrest _ _ h
        | some q =>
          simp only [hquote] at h ⊢
          by_cases hthree : thrice q (x :: b) = true
          · rw [if_pos hthree] at h ⊢
            exact ih (.inr (by simp)) h
          · rw [if_neg hthree] at h ⊢
            exact ih (.inr (by simp)) h

theorem scanLine_newline (h : scanLine st line = some .neutral) : scanLine st (line ++ ['\n']) = some .neutral := by
  have hmode : ∀ m : Mode, 0 ≤ line.length ∨ m ≠ .code := fun _ => .inl (Nat.zero_le _)
  exact scanChars_newline (hmode _) h

theorem indentOf_le (line : Text) : indentOf line ≤ line.length := (List.takeWhile_prefix _).length_le

theorem kindOf_newline (st : ScanState) (line : Text) : kindOf st (line ++ ['\n']) = kindOf st line := by
  have hindent : indentOf (line ++ ['\n']) = indentOf line := by
    rw [indentOf, indentOf, List.takeWhile_append]
    by_cases hall : (line.takeWhile fun c => c = ' ' ∨ c = '\t').length = line.length
    · rw [if_pos hall, hall]
      simp
    · rw [if_neg hall]
  have hrest : ((line ++ ['\n']).drop (indentOf line)).rdropWhile isWhitespace =
      (line.drop (indentOf line)).rdropWhile isWhitespace := by
    rw [List.drop_append_of_le_length (indentOf_le line), List.rdropWhile_concat_pos _ _ _ (by decide)]
  rw [kindOf, kindOf, hindent, hrest]

/-- A line that continues none stands where nothing is open. -/
theorem neutral_of_kindOf (h : kindOf st line ≠ .continuation) : st = .neutral := by
  obtain ⟨depth, triple, continued⟩ := st
  rw [kindOf] at h
  by_cases hopen : triple.isSome ∨ 0 < depth ∨ continued = true
  · simp [hopen] at h
  · simp only [not_or, Nat.not_lt, Nat.le_zero, Bool.not_eq_true] at hopen
    obtain ⟨hnone, rfl, rfl⟩ := hopen
    rw [Option.isSome_eq_false_iff, Option.isNone_iff_eq_none] at hnone
    rw [hnone, ScanState.neutral]

theorem kindOf_statement (h : kindOf st line = .statement n) : n = indentOf line := by
  simp only [kindOf] at h
  split at h
  · exact nomatch h
  · split at h
    · exact nomatch h
    · split at h
      · exact nomatch h
      · exact (Kind.statement.inj h).symm

theorem scanLines_length (h : scanLines st lines = some (kinds, st')) : kinds.length = lines.length := by
  induction lines generalizing st kinds with
  | nil =>
    obtain ⟨rfl, -⟩ := Prod.mk.inj (Option.some.inj h)
    rfl
  | cons line lines ih =>
    rw [scanLines] at h
    cases hline : scanLine st line with
    | none => simp [hline] at h
    | some mid =>
      simp only [hline, Option.map_eq_some_iff, Prod.mk.injEq] at h
      obtain ⟨⟨kinds', _⟩, hrest, rfl, rfl⟩ := h
      simp [ih hrest]

theorem scanLines_kinds (h : scanLines st lines = some (kinds, st')) : ∀ row ∈ kinds.zip lines, ∃ at_, row.1 = kindOf at_ row.2 := by
  induction lines generalizing st kinds with
  | nil => simp
  | cons line lines ih =>
    rw [scanLines] at h
    cases hline : scanLine st line with
    | none => simp [hline] at h
    | some mid =>
      simp only [hline, Option.map_eq_some_iff, Prod.mk.injEq] at h
      obtain ⟨⟨kinds', _⟩, hrest, rfl, rfl⟩ := h
      rw [List.zip_cons_cons, List.forall_mem_cons]
      exact ⟨⟨st, rfl⟩, ih hrest⟩

theorem scanLines_append : scanLines st (lines ++ lines') = some (kinds, st') ↔
    ∃ kinds₁ mid kinds₂, scanLines st lines = some (kinds₁, mid) ∧ scanLines mid lines' = some (kinds₂, st') ∧
      kinds = kinds₁ ++ kinds₂ := by
  induction lines generalizing st kinds with
  | nil => simp [scanLines]
  | cons line lines ih =>
    rw [List.cons_append, scanLines, scanLines]
    cases hline : scanLine st line with
    | none => simp
    | some mid =>
      constructor
      · intro h
        obtain ⟨⟨_, _⟩, hrest, heq⟩ := Option.map_eq_some_iff.mp h
        obtain ⟨rfl, rfl⟩ := Prod.mk.inj heq
        obtain ⟨kinds₁, mid', kinds₂, h₁, h₂, rfl⟩ := ih.mp hrest
        exact ⟨kindOf st line :: kinds₁, mid', kinds₂, by simp [h₁], h₂, rfl⟩
      · rintro ⟨kinds₁, mid', kinds₂, h₁, h₂, rfl⟩
        obtain ⟨⟨kinds₃, _⟩, hrest, heq⟩ := Option.map_eq_some_iff.mp h₁
        obtain ⟨rfl, rfl⟩ := Prod.mk.inj heq
        exact Option.map_eq_some_iff.mpr ⟨_, ih.mpr ⟨kinds₃, _, kinds₂, hrest, h₂, rfl⟩, rfl⟩

/-- A last line that ends outside its strings may have a newline more. -/
theorem scanLines_newline (h : scanLines st (lines ++ [line]) = some (kinds, .neutral)) :
    scanLines st (lines ++ [line ++ ['\n']]) = some (kinds, .neutral) := by
  obtain ⟨kinds₁, mid, kinds₂, h₁, h₂, rfl⟩ := scanLines_append.mp h
  refine scanLines_append.mpr ⟨kinds₁, mid, kinds₂, h₁, ?_, rfl⟩
  rw [scanLines] at h₂ ⊢
  cases hline : scanLine mid line with
  | none => simp [hline] at h₂
  | some end_ =>
    rw [hline] at h₂
    simp only [scanLines, Option.map_some, Option.some.injEq, Prod.mk.injEq] at h₂
    obtain ⟨rfl, rfl⟩ := h₂
    simp [scanLine_newline hline, kindOf_newline, scanLines]

theorem scan_eq_some : scan b = some kinds ↔ scanLines .neutral (linesOf b) = some (kinds, .neutral) := by
  rw [scan]
  cases h : scanLines .neutral (linesOf b) with
  | none => simp
  | some r =>
    obtain ⟨kinds', st⟩ := r
    by_cases hst : st = .neutral
    · simp [hst]
    · simp [hst]

end Lemmas

end Dk64

end Multi64
