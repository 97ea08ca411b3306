import Multi64.Pj64Bridge

/-! The values that the Project64 connector reads from the JSON text of a list of
numbers, once its nulls are made zeros. -/

namespace Multi64

namespace Pj64

open Lua LuaJson

/-- What a list of numbers holds: a number as it is written, and what it is read
as; a boolean; a null; a string. -/
inductive Item where
  | number (text : Bytes) (n : Lua.Num)
  | bool (b : Bool)
  | null
  | str (text : Bytes)

namespace Item

def text : Item → Bytes
  | .number t _ => t
  | .bool b => if b then ascii "true" else ascii "false"
  | .null => ascii "null"
  | .str t => 0x22 :: t ++ [0x22]

def value : Item → Value
  | .number _ n => .num n
  | .bool b => .bool b
  | .null => .num (.int 0)
  | .str t => .str t

def isNumeric (b : UInt8) : Bool := isDigit b || b = 0x2D || b = 0x2B || b = 0x2E || b = 0x65 || b = 0x45

/-- A number of JSON, and a string with no quote, no escape and no letter n. -/
def Formed : Item → Prop
  | .number t n => (∃ c s, t = c :: s ∧ (isDigit c ∨ c = 0x2D)) ∧ (∀ c ∈ t, isNumeric c) ∧ tonumber t = some n
  | .str t => 0x22 ∉ t ∧ 0x5C ∉ t ∧ 0x6E ∉ t
  | _ => True

end Item

/-- An item and the blanks around it. -/
structure Spaced where
  before : Bytes
  item : Item
  after : Bytes
  before_blank : ∀ b ∈ before, isBlank b
  after_blank : ∀ b ∈ after, isBlank b
  formed : item.Formed

section Zeros

variable {a s : Bytes} {c : UInt8} {inWord : Bool}

end Zeros

section Parsed

variable {a s t : Bytes} {c : UInt8}

end Parsed

end Pj64

end Multi64
