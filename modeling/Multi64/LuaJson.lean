import Multi64.Lib.LuaValue

/-! The JSON library of the connectors, `lib/json.lua`. An error in a text only
ends its reading where the code then uses a nil. -/

namespace Multi64

namespace LuaJson

open Lua

section Decode

def isBlank (b : UInt8) : Bool := b = 0x20 || b = 0x09 || b = 0x0D || b = 0x0A

def isDelim (b : UInt8) : Bool := isBlank b || b = 0x5D || b = 0x7D || b = 0x2C

/-- Which escapes a string has. -/
structure Escapes where
  surrogate : Bool
  unicode : Bool
  other : Bool
  deriving DecidableEq

/-- A high surrogate's first two digits, `[dD][89aAbB]`. -/
def isSurrogate (s : Bytes) : Bool :=
  match s with
  | a :: b :: _ => lower a = 0x64 && (b = 0x38 || b = 0x39 || lower b = 0x61 || lower b = 0x62)
  | _ => false

/-- A string up to its closing quote, as it stands, and what is after it. -/
def scanString (escaped : Bool) (e : Escapes) : Bytes → Option (Bytes × Escapes × Bytes)
  | [] => none
  | x :: s =>
    if escaped then
      let e :=
        if x = 0x75 then
          if isSurrogate s then { e with surrogate := true } else { e with unicode := true }
        else { e with other := true }
      (scanString false e s).map fun r => (x :: r.1, r.2)
    else if x = 0x22 then some ([], e, s)
    else (scanString (x = 0x5C) e s).map fun r => (x :: r.1, r.2)

/-- `gsub`: what `step` matches at a place is replaced, and skipped. -/
def gsub (step : Bytes → Except Unit (Option (Bytes × Nat))) : Nat → Bytes → Except Unit Bytes
  | _, [] => .ok []
  | skip + 1, _ :: s => gsub step skip s
  | 0, b :: s => do
    match ← step (b :: s) with
    | none => return b :: (← gsub step 0 s)
    | some (out, n) => return out ++ (← gsub step (n - 1) s)

def codepointToUtf8 (n : Int) : Except Unit Bytes :=
  if n < 0 then .error ()
  else
    let n := n.toNat
    if n ≤ 0x7F then .ok [.ofNat n]
    else if n ≤ 0x7FF then .ok [.ofNat (n / 64 + 192), .ofNat (n % 64 + 128)]
    else if n ≤ 0xFFFF then .ok [.ofNat (n / 4096 + 224), .ofNat (n % 4096 / 64 + 128), .ofNat (n % 64 + 128)]
    else if n ≤ 0x10FFFF then
      .ok [.ofNat (n / 262144 + 240), .ofNat (n % 262144 / 4096 + 128), .ofNat (n % 4096 / 64 + 128), .ofNat (n % 64 + 128)]
    else .error ()

/-- `tonumber` of a text of hexadecimal digits. -/
def hexNumber (s : Bytes) : Option Int :=
  let (negative, d) := sign (trim s)
  if d ≠ [] ∧ d.all isHex then some (signed negative (digits 16 d)) else none

def parseUnicodeEscape (s : Bytes) : Except Unit Bytes :=
  match hexNumber (slice s 2 4), hexNumber (slice s 8 4) with
  | none, _ => .error ()
  | some n1, some n2 => codepointToUtf8 ((n1 - 0xD800) * 0x400 + (n2 - 0xDC00) + 0x10000)
  | some n1, none => codepointToUtf8 n1

def surrogateStep (s : Bytes) : Except Unit (Option (Bytes × Nat)) :=
  if s.take 2 = [0x5C, 0x75] ∧ isSurrogate (s.drop 2) ∧ slice s 6 2 = [0x5C, 0x75] ∧ 12 ≤ s.length then
    (parseUnicodeEscape (s.take 12)).map fun out => some (out, 12)
  else .ok none

def unicodeStep (s : Bytes) : Except Unit (Option (Bytes × Nat)) :=
  if s.take 2 = [0x5C, 0x75] ∧ 6 ≤ s.length then (parseUnicodeEscape (s.take 6)).map fun out => some (out, 6)
  else .ok none

/-- `escape_char_map_inv`. -/
def unescaped (b : UInt8) : Option UInt8 :=
  if b = 0x2F ∨ b = 0x5C ∨ b = 0x22 then some b
  else if b = 0x62 then some 0x08
  else if b = 0x66 then some 0x0C
  else if b = 0x6E then some 0x0A
  else if b = 0x72 then some 0x0D
  else if b = 0x74 then some 0x09
  else none

def escapeStep : Bytes → Except Unit (Option (Bytes × Nat))
  | 0x5C :: b :: _ =>
    match unescaped b with
    | some out => .ok (some ([out], 2))
    | none => .ok (some ([0x5C, b], 2))
  | _ => .ok none

def unescape (raw : Bytes) (e : Escapes) : Except Unit Bytes := do
  let s ← if e.surrogate then gsub surrogateStep 0 raw else return raw
  let s ← if e.unicode then gsub unicodeStep 0 s else return s
  if e.other then gsub escapeStep 0 s else return s

/-- A value read, and what is after it, which may be nil. -/
abbrev Read := Except Unit (Value × Option Bytes)

def parseString (s : Bytes) : Read :=
  match scanString false ⟨false, false, false⟩ s with
  | none => .ok (.nil, none)
  | some (raw, e, rest) => (unescape raw e).map fun out => (.str out, some rest)

def token (s : Bytes) : Bytes := s.takeWhile fun b => !isDelim b

def pastToken (s : Bytes) : Bytes := s.dropWhile fun b => !isDelim b

def parseNumber (s : Bytes) : Value :=
  match tonumber (token s) with
  | some n => .num n
  | none => .nil

def parseLiteral (s : Bytes) : Value :=
  if token s = ascii "true" then .bool true else if token s = ascii "false" then .bool false else .nil

mutual

def parse : Nat → Bytes → Read
  | 0, _ => .error ()
  | _, [] => .ok (.nil, none)
  | fuel + 1, c :: s =>
    if c = 0x22 then parseString s
    else if isDigit c ∨ c = 0x2D then .ok (parseNumber (c :: s), some (pastToken (c :: s)))
    else if c = 0x74 ∨ c = 0x66 ∨ c = 0x6E then .ok (parseLiteral (c :: s), some (pastToken (c :: s)))
    else if c = 0x5B then parseArray fuel [] 1 s
    else if c = 0x7B then parseObject fuel [] s
    else .ok (.nil, none)

/-- `res[n]` onward. -/
def parseArray : Nat → List (Value × Value) → Int → Bytes → Read
  | 0, _, _, _ => .error ()
  | fuel + 1, res, n, s =>
    let s := s.dropWhile isBlank
    if s.head? = some 0x5D then .ok (.table res, some (s.drop 1))
    else do
      let (x, rest) ← parse fuel s
      let res ← Value.set res (.num (.int n)) x
      match rest with
      | none => .error ()
      | some rest =>
        let t := rest.dropWhile isBlank
        if t.head? = some 0x5D then return (.table res, some (t.drop 1)) else parseArray fuel res (n + 1) (t.drop 1)

def parseObject : Nat → List (Value × Value) → Bytes → Read
  | 0, _, _ => .error ()
  | fuel + 1, res, s =>
    let s := s.dropWhile isBlank
    if s.head? = some 0x7D then .ok (.table res, some (s.drop 1))
    else do
      let (key, rest) ← parse fuel s
      match rest with
      | none => .error ()
      | some rest =>
        let colon := rest.dropWhile isBlank
        let (val, rest) ← parse fuel ((colon.drop 1).dropWhile isBlank)
        let res ← Value.set res key val
        match rest with
        | none => .error ()
        | some rest =>
          let t := rest.dropWhile isBlank
          if t.head? = some 0x7D then return (.table res, some (t.drop 1)) else parseObject fuel res (t.drop 1)

end

/-- No text nests a value more often than it has characters. -/
def decode (s : Bytes) : Except Unit Value :=
  (parse (2 * s.length + 2) (s.dropWhile isBlank)).map (·.1)

end Decode

section Encode

/-- What is encoded: a whole number, a string, or an array of numbers. -/
inductive Shown where
  | num (n : Int)
  | str (s : Bytes)
  | array (l : List Int)
  deriving DecidableEq

def hexDigit (n : Nat) : UInt8 := .ofNat (if n < 10 then 0x30 + n else 0x57 + n)

def escapeChar (b : UInt8) : Bytes :=
  if b = 0x5C ∨ b = 0x22 then [0x5C, b]
  else if b = 0x08 then ascii "\\b"
  else if b = 0x0C then ascii "\\f"
  else if b = 0x0A then ascii "\\n"
  else if b = 0x0D then ascii "\\r"
  else if b = 0x09 then ascii "\\t"
  else ascii "\\u00" ++ [hexDigit (b.toNat / 16), hexDigit (b.toNat % 16)]

def encodeString (s : Bytes) : Bytes :=
  0x22 :: s.flatMap (fun b => if b < 0x20 ∨ b = 0x5C ∨ b = 0x22 then escapeChar b else [b]) ++ [0x22]

/-- `"%.14g"` of a whole number of at most 14 digits. -/
def encodeNumber (n : Int) : Bytes :=
  (if n < 0 then [0x2D] else []) ++ (Nat.toDigits 10 n.natAbs).map fun c => .ofNat c.toNat

def encodeArray (l : List Bytes) : Bytes := 0x5B :: [0x2C].intercalate l ++ [0x5D]

def encode : Shown → Bytes
  | .num n => encodeNumber n
  | .str s => encodeString s
  | .array l => encodeArray (l.map encodeNumber)

/-- In what order `pairs` goes through the entries of a table, and what `#` is of
one with holes. -/
structure Tables where
  visit : List (Value × Value) → List (Value × Value)
  shownOrder : List (Value × Shown) → List (Value × Shown)
  border : List (Value × Shown) → Nat
  visit_perm : ∀ l, (visit l).Perm l
  shownOrder_perm : ∀ l, (shownOrder l).Perm l

def isNumber : Value → Bool
  | .num _ => true
  | _ => false

def valueAt (entries : List (Value × Shown)) (i : Int) : Option Shown :=
  (entries.find? fun e => e.1.sameKey (.num (.int i))).map (·.2)

/-- The values at 1 and on, up to the first that is not there. -/
def shownFrom (entries : List (Value × Shown)) : Nat → Int → List Shown
  | 0, _ => []
  | fuel + 1, i =>
    match valueAt entries i with
    | none => []
    | some v => v :: shownFrom entries fuel (i + 1)

def encodeField (e : Value × Shown) : Except Unit Bytes :=
  match e.1 with
  | .str key => .ok (encodeString key ++ [0x3A] ++ encode e.2)
  | _ => .error ()

def encodeTable (t : Tables) (entries : List (Value × Shown)) : Except Unit Bytes :=
  if (valueAt entries 1).isSome ∨ entries = [] then
    let items := shownFrom entries entries.length 1
    if entries.all (fun e => isNumber e.1) ∧ (items.length = entries.length ∨ t.border entries = entries.length) then
      .ok (encodeArray (items.map encode))
    else .error ()
  else do
    let fields ← (t.shownOrder entries).mapM encodeField
    return 0x7B :: [0x2C].intercalate fields ++ [0x7D]

end Encode

end LuaJson

end Multi64
