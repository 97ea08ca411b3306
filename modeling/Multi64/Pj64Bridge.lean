import Multi64.LuaJson

/-! The connector that stands in for a Project64 script, `pj64/connector.lua`: one
request a line, over the RDRAM that reads and writes of a line see. -/

namespace Multi64

namespace Pj64

open Lua LuaJson

/-- What a line is answered with beside RDRAM: the first 64 bytes of the ROM. -/
structure Env where
  tables : Tables
  header : Bytes
  header_length : header.length = 64

inductive Ty where
  | bytestring | u8 | s8 | u16 | s16 | u32 | s32
  deriving DecidableEq

/-- Bytes per value. -/
def Ty.step : Ty → Nat
  | .bytestring | .u8 | .s8 => 1
  | .u16 | .s16 => 2
  | .u32 | .s32 => 4

def Ty.isSigned : Ty → Bool
  | .s8 | .s16 | .s32 => true
  | _ => false

def known (name : Bytes) : Option Ty :=
  if name = ascii "bytestring" then some .bytestring
  else if name = ascii "u8" then some .u8
  else if name = ascii "s8" then some .s8
  else if name = ascii "u16" then some .u16
  else if name = ascii "s16" then some .s16
  else if name = ascii "u32" then some .u32
  else if name = ascii "s32" then some .s32
  else none

section Values

def phys (rdramSize : Nat) (addr len : Int) : Except Unit Nat :=
  let p := addr % 0x20000000
  if (rdramSize : Int) < wrap (p + len) then .error () else .ok p.toNat

/-- How many values a read of `size` bytes covers, and how many bytes they are. -/
def extent (ty : Ty) (size : Lua.Num) : Int × Int :=
  let n := if size.isPos then (size.div ty.step).ceil.toInteger.getD 0 else 0
  (n, wrap (n * ty.step))

def unpack (ty : Ty) (data : Bytes) : Int :=
  let n := readLe data.reverse 0 ty.step
  if ty.isSigned then (n : Int).bmod (256 ^ ty.step) else n

def decode (ty : Ty) (data : Bytes) (n : Int) : Except Unit (List Int) :=
  if n * ty.step ≤ data.length then .ok ((List.range n.toNat).map fun i => unpack ty (slice data (i * ty.step) ty.step))
  else .error ()

/-- A JSON value as a number. -/
def toNumber : Value → Lua.Num
  | .num n => n
  | .bool b => .int (if b then 1 else 0)
  | .str s =>
    let t := trim s
    if t = [] then .int 0 else (tonumber t).getD (.float .nan)
  | _ => .float .nan

/-- A number as it is stored in a value of `8 * step` bits. -/
def toBits (v : Value) (step : Nat) : Except Unit Nat :=
  match toNumber v with
  | .int n => .ok (n % 2 ^ (8 * step)).toNat
  | .float (.finite d) =>
    let n := if d.val < 0 then Lua.Num.ceil (.float (.finite d)) else Lua.Num.floor (.float (.finite d))
    match (n.fmod 4294967296).toInteger with
    | some n => .ok (n % 2 ^ (8 * step)).toNat
    | none => .error ()
  | .float _ => .ok 0

def encode (ty : Ty) (values : List Value) : Except Unit Bytes :=
  (values.mapM fun v => toBits v ty.step).map fun l => l.flatMap fun n => (putLe n ty.step).reverse

/-- `utf8.char` of a byte. -/
def utf8Char (b : UInt8) : Bytes := if b < 0x80 then [b] else [.ofNat (0xC0 + b.toNat / 64), .ofNat (0x80 + b.toNat % 64)]

def bytesToText (data : Bytes) : Bytes := data.flatMap utf8Char

/-- The low byte of each UTF-16 unit of a character. -/
def unitBytes (c : Char) : Bytes :=
  let n := c.toNat
  if 0xFFFF < n then [.ofNat (0xD800 + (n - 0x10000) / 0x400), .ofNat (0xDC00 + (n - 0x10000) % 0x400)] else [.ofNat n]

def textToBytes (text : Bytes) : Except Unit Bytes :=
  match text.toByteArray.utf8Decode? with
  | none => .error ()
  | some chars => .ok (chars.toList.flatMap unitBytes)

end Values

structure ReadSpec where
  ty : Ty
  addr : Int
  size : Lua.Num
  deriving DecidableEq

section Requests

variable (env : Env) (mem : Bytes)

def region (r : ReadSpec) : Except Unit (Nat × Int) :=
  let bytes := (extent r.ty r.size).2
  if 0 < bytes then (phys mem.length r.addr bytes).map fun p => (p, bytes) else .ok (0, bytes)

/-- What the cart answers for a region, or the empty read where nothing was asked. -/
def fetch (r : Nat × Int) : Except Unit Bytes :=
  if r.2 ≤ 0 then .ok []
  else if (r.1 : Int) + r.2 ≤ mem.length then .ok (slice mem r.1 r.2.toNat)
  else .error ()

def shown (r : ReadSpec) (block : Bytes) : Except Unit Shown :=
  match r.ty with
  | .bytestring => .ok (.str (bytesToText block))
  | ty => (decode ty block (extent ty r.size).1).map .array

/-- A list of reads, as one request. -/
def readAll (reads : List ReadSpec) : Except Unit (List Shown) := do
  let regions ← reads.mapM (region mem)
  let blocks ← regions.mapM (fetch mem)
  (reads.zip blocks).mapM fun e => shown e.1 e.2

/-- JavaScript's `parseInt`, of a word. -/
def parseInt (s : Option Bytes) (base : Nat) : Option Int :=
  match s with
  | none => none
  | some s =>
    let (negative, rest) := sign (ltrim s)
    let rest :=
      match rest with
      | 0x30 :: x :: t => if base = 16 ∧ lower x = 0x78 then t else rest
      | _ => rest
    let d := rest.takeWhile (if base = 16 then isHex else isDigit)
    if d = [] then none else some (if negative then wrap (-(digitsIn base d)) else digitsIn base d)

def romInfo : Except Unit Bytes :=
  let h := env.header
  let name := trim ((slice h 0x20 20).filter (· ≠ 0))
  encodeTable env.tables
    [(.str (ascii "name"), .str name), (.str (ascii "goodName"), .str name), (.str (ascii "id"), .str (slice h 0x3B 4)),
      (.str (ascii "countryCode"), .num (byteAt h 0x3E).toNat), (.str (ascii "crc1"), .num (readBe32 h 0x10).toNat),
      (.str (ascii "crc2"), .num (readBe32 h 0x14).toNat)]

/-- The type, address and size of a `read`. -/
def readArgs (args : List Bytes) : Option ReadSpec :=
  match parseInt args[2]? 16, parseInt args[3]? 10, args[1]?.bind known with
  | some addr, some size, some ty => if size ≤ 0 then none else some ⟨ty, addr, .int size⟩
  | _, _, _ => none

def answerRead (args : List Bytes) : Except Unit Bytes :=
  match readArgs args with
  | none => .ok (ascii "Invalid read parameters")
  | some r => do
    match ← readAll mem [r] with
    | [.str text] => return text
    | [v] => return LuaJson.encode v
    | _ => .error ()

/-- An item of a `dict`: what is no table is its address. -/
def dictRead (item : Value) : Option ReadSpec :=
  let field (name : String) : Value :=
    match item with
    | .table entries => Value.get entries (.str (ascii name))
    | v => if name = "adr" then v else .nil
  let ty :=
    match field "type" with
    | .nil | .bool false => some .u8
    | .str name => known name
    | _ => none
  let size :=
    match field "size" with
    | .nil | .bool false => some (.int 1)
    | .num n => some (if n.isZero then .int 1 else n)
    | _ => none
  match (field "adr").toInteger, size, ty with
  | some addr, some size, some ty => some ⟨ty, addr, size⟩
  | _, _, _ => none

def answerDict (payload : Bytes) : Except Unit Bytes :=
  match LuaJson.decode (payload.drop 5) with
  | .ok (.table entries) =>
    let items := env.tables.visit entries
    match items.mapM fun e => dictRead e.2 with
    | none => .ok (ascii "Invalid Dict JSON Format")
    | some reads => do
      let values ← readAll mem reads
      encodeTable env.tables ((items.map (·.1)).zip values)
  | _ => .ok (ascii "Invalid Dict JSON Format")

/-- Past a word and the blanks after it. -/
def pastWord (s : Bytes) : Option Bytes :=
  let rest := s.dropWhile fun b => !isSpace b
  if s.takeWhile (fun b => !isSpace b) = [] ∨ rest = [] then none else some (ltrim rest)

/-- Everything after the address. -/
def rawValue (payload : Bytes) : Bytes := (((pastWord payload).bind pastWord).bind pastWord).getD []

/-- A `null` that is a word of its own becomes a 0. -/
def nullsToZero (inWord : Bool) : Nat → Bytes → Bytes
  | _, [] => []
  | skip + 1, b :: s => nullsToZero (isAlnum b) skip s
  | 0, b :: s =>
    if !inWord ∧ (b :: s).take 4 = ascii "null" ∧ (s.drop 3).head?.all (fun c => !isAlnum c) then
      0x30 :: nullsToZero (isAlnum b) 3 s
    else b :: nullsToZero (isAlnum b) 0 s

/-- The values of a list, where the text is of a list. -/
def listValues (raw : Bytes) : Option (List Value) :=
  let list := nullsToZero false 0 raw
  match LuaJson.decode list with
  | .ok (.table entries) => if (ltrim list).head? = some 0x5B then some (Value.ipairs entries) else none
  | _ => none

/-- The bytes that a `write` puts at its address, or why it is refused. -/
def writeArgs (args : List Bytes) (payload : Bytes) : Except Unit (Bytes ⊕ Int × Bytes) :=
  match parseInt args[2]? 16 with
  | none => .ok (.inl (ascii "Invalid Target Address"))
  | some addr =>
    match args[1]?.bind known with
    | none => .ok (.inl (ascii "Unknown command"))
    | some .bytestring => (textToBytes (rawValue payload)).map fun data => .inr (addr, data)
    | some ty =>
      match listValues (rawValue payload) with
      | none => .ok (.inl (ascii "Value must be a valid JSON Array"))
      | some values => (encode ty values).map fun data => .inr (addr, data)

def store (addr : Int) (data : Bytes) : Except Unit Bytes :=
  if data = [] then .ok mem
  else do
    let p ← phys mem.length addr data.length
    if p + data.length ≤ mem.length then return overwrite mem p data else .error ()

/-- The payload of the answer, and RDRAM after. -/
def answer (payload : Bytes) : Except Unit (Bytes × Bytes) :=
  let args := words payload
  let command := (args.headD []).map lower
  if command = ascii "rominfo" then (romInfo env).map fun reply => (reply, mem)
  else if command = ascii "read" then (answerRead mem args).map fun reply => (reply, mem)
  else if command = ascii "dict" then (answerDict env mem payload).map fun reply => (reply, mem)
  else if command = ascii "write" then do
    match ← writeArgs args payload with
    | .inl refused => return (refused, mem)
    | .inr (addr, data) => return (ascii "Write successful", ← store mem addr data)
  else .ok (ascii "Unknown command", mem)

/-- A line's id, and what is asked under it. -/
def parseLine (message : Bytes) : Option (Bytes × Bytes) :=
  let line := rtrim message
  if 0x3A ∈ line then some (line.takeWhile (· ≠ 0x3A), trim ((line.dropWhile (· ≠ 0x3A)).drop 1)) else none

def handle (message : Bytes) : Except Unit (Bytes × Bytes) :=
  match parseLine message with
  | none => .ok (ascii "ERR:Invalid message format", mem)
  | some (id, payload) => (answer env mem payload).map fun r => (id ++ 0x3A :: r.1, r.2)

end Requests

end Pj64

end Multi64
