import Multi64.Lib.Bytes
import Mathlib
import Multi64.Lib.Double

/-! Values of Lua 5.4: integers of 64 bits, floats, byte strings and tables, and
the functions of its library that read numbers and take strings apart. -/

namespace Multi64

def ascii (s : String) : Bytes := s.toList.map fun c => .ofNat c.toNat

namespace Lua

def isSpace (b : UInt8) : Bool := b = 0x20 || (9 ≤ b && b ≤ 13)

def isDigit (b : UInt8) : Bool := 0x30 ≤ b && b ≤ 0x39

def isAlpha (b : UInt8) : Bool := (0x41 ≤ b && b ≤ 0x5A) || (0x61 ≤ b && b ≤ 0x7A)

def isAlnum (b : UInt8) : Bool := isDigit b || isAlpha b

def isHex (b : UInt8) : Bool := isDigit b || (0x41 ≤ b && b ≤ 0x46) || (0x61 ≤ b && b ≤ 0x66)

def lower (b : UInt8) : UInt8 := if 0x41 ≤ b ∧ b ≤ 0x5A then b + 0x20 else b

def ltrim (s : Bytes) : Bytes := s.dropWhile isSpace

def rtrim (s : Bytes) : Bytes := s.rdropWhile isSpace

def trim (s : Bytes) : Bytes := rtrim (ltrim s)

/-- The runs of `%S+`. -/
def words (s : Bytes) : List Bytes := (s.splitOnP isSpace).filter (· ≠ [])

/-- An integer of 64 bits, around. -/
def wrap (n : Int) : Int := n.bmod (2 ^ 64)

inductive Num where
  | int (n : Int)
  | float (x : Flt)
  deriving DecidableEq

namespace Num

def toFlt : Num → Flt
  | .int n => .ofRat n
  | .float x => x

def isNeg : Num → Bool
  | .int n => n < 0
  | .float (.finite d) => d.val < 0
  | .float (.inf negative) => negative
  | .float .nan => false

def isPos : Num → Bool
  | .int n => 0 < n
  | .float (.finite d) => 0 < d.val
  | .float (.inf negative) => !negative
  | .float .nan => false

def isZero : Num → Bool
  | .int n => n = 0
  | .float (.finite d) => d.val = 0
  | .float _ => false

/-- A whole number is an integer where it fits one. -/
def ofWhole (n : Int) : Num := if -2 ^ 63 ≤ n ∧ n < 2 ^ 63 then .int n else .float (.ofRat n)

def ceil : Num → Num
  | .float (.finite d) => ofWhole ⌈d.val⌉
  | x => x

def floor : Num → Num
  | .float (.finite d) => ofWhole ⌊d.val⌋
  | x => x

/-- `math.fmod` by a float that is not 0. -/
def fmod (x : Num) (m : ℚ) : Num :=
  match x.toFlt with
  | .finite d => .float (.ofRat (Multi64.fmod d.val m))
  | _ => .float .nan

/-- Division by a float that is not 0. -/
def div (x : Num) (m : ℚ) : Num :=
  match x.toFlt with
  | .finite d => .float (.ofRat (d.val / m))
  | y => .float y

def toInteger : Num → Option Int
  | .int n => some n
  | .float (.finite d) => if ⌊d.val⌋ = d.val ∧ -2 ^ 63 ≤ ⌊d.val⌋ ∧ ⌊d.val⌋ < 2 ^ 63 then some ⌊d.val⌋ else none
  | .float _ => none

end Num

section ToNumber

def digit (b : UInt8) : Nat := if isDigit b then b.toNat - 0x30 else (lower b).toNat - 0x57

def digits (base : Nat) (s : Bytes) : Nat := s.foldl (fun n b => n * base + digit b) 0

def signed (negative : Bool) (n : Int) : Int := if negative then -n else n

/-- A sign, and what is after it. -/
def sign : Bytes → Bool × Bytes
  | 0x2D :: s => (true, s)
  | 0x2B :: s => (false, s)
  | s => (false, s)

/-- The exponent after a mark, of decimal digits with a sign. -/
def exponent (mark : UInt8) : Bytes → Option Int
  | [] => some 0
  | b :: s =>
    let (negative, d) := sign s
    if lower b = mark ∧ d ≠ [] ∧ d.all isDigit then some (signed negative (digits 10 d)) else none

/-- Digits with a point and an exponent. -/
def fraction (base : Nat) (isDigit : UInt8 → Bool) (mark : UInt8) (scale : ℚ) (s : Bytes) : Option ℚ :=
  let whole := s.takeWhile isDigit
  let point := s.dropWhile isDigit
  let (part, rest) :=
    match point with
    | 0x2E :: t => (t.takeWhile isDigit, t.dropWhile isDigit)
    | _ => ([], point)
  if whole = [] ∧ part = [] then none
  else (exponent mark rest).map fun e => digits base (whole ++ part) * scale ^ e / base ^ part.length

/-- `tonumber` of a string. Decimal digits that overflow make a float, where
hexadecimal ones go around. -/
def tonumber (s : Bytes) : Option Num :=
  let (negative, body) := sign (trim s)
  let scaled (q : ℚ) : Num := .float (.ofRat (if negative then -q else q))
  match body with
  | 0x30 :: x :: rest =>
    if lower x = 0x78 then
      if rest ≠ [] ∧ rest.all isHex then some (.int (wrap (signed negative (digits 16 rest))))
      else (fraction 16 isHex 0x70 2 rest).map scaled
    else decimal negative body scaled
  | _ => decimal negative body scaled
where
  decimal (negative : Bool) (body : Bytes) (scaled : ℚ → Num) : Option Num :=
    let limit := if negative then 2 ^ 63 else 2 ^ 63 - 1
    if body ≠ [] ∧ body.all isDigit ∧ digits 10 body ≤ limit then some (.int (signed negative (digits 10 body)))
    else (fraction 10 isDigit 0x65 10 body).map scaled

/-- `tonumber` of digits, with the base given. -/
def digitsIn (base : Nat) (s : Bytes) : Int := wrap (digits base s)

end ToNumber

inductive Value where
  | nil
  | bool (b : Bool)
  | num (n : Num)
  | str (s : Bytes)
  | table (entries : List (Value × Value))

namespace Value

def isNil : Value → Bool
  | .nil => true
  | _ => false

/-- Whether two values are one key. A float that is whole is its integer, and two
tables are two. -/
def sameKey : Value → Value → Bool
  | .num a, .num b => a = b || (a.toInteger.isSome && a.toInteger = b.toInteger)
  | .str a, .str b => a = b
  | .bool a, .bool b => a = b
  | _, _ => false

/-- What is at a key. -/
def get (entries : List (Value × Value)) (key : Value) : Value :=
  match entries.find? fun e => e.1.sameKey key with
  | some e => e.2
  | none => .nil

/-- An entry set, or taken away by nil. Nil and NaN are no keys. -/
def set (entries : List (Value × Value)) (key value : Value) : Except Unit (List (Value × Value)) :=
  let others := entries.filter fun e => !e.1.sameKey key
  match key with
  | .nil | .num (.float .nan) => .error ()
  | _ => .ok (if value.isNil then others else others ++ [(key, value)])

/-- `math.tointeger`. -/
def toInteger : Value → Option Int
  | .num n => n.toInteger
  | .str s => (tonumber s).bind Num.toInteger
  | _ => none

/-- What `ipairs` goes through: the values at 1 and on, up to one that is nil. -/
def ipairs (entries : List (Value × Value)) : List Value :=
  go entries.length 1
where
  go : Nat → Nat → List Value
    | 0, _ => []
    | fuel + 1, i => if (get entries (.num (.int i))).isNil then [] else get entries (.num (.int i)) :: go fuel (i + 1)

end Value

end Lua

end Multi64
