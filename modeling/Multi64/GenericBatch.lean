import Multi64.Lib.Effect
import Multi64.Lib.LuaNumber

/-! A batch of the generic connector, `generic/connector.lua`, with its requests
as `json.lua` leaves them and a memory that only the batch changes. What the
batch is to come to is each request carried out alone, one after the other. -/

namespace Multi64

namespace GenericBatch

open Lua

def isBase64 (b : UInt8) : Bool := isAlnum b || b = 0x2B || b = 0x2F || b = 0x3D

def padding (s : Bytes) : Nat := if [0x3D, 0x3D] <:+ s then 2 else if [0x3D] <:+ s then 1 else 0

/-- Base64 with its padding. -/
structure Base64 where
  encode : Bytes → Bytes
  decode : Bytes → Option Bytes
  decode_length : ∀ {s d}, decode s = some d →
    s.length % 4 = 0 ∧ s.all isBase64 ∧ d.length + padding s = s.length / 4 * 3

/-- What `ap64` and Lua make of the values that a script hands on. Whole numbers
that fit are taken as they are. -/
structure Host where
  rom : Option Bytes
  toU32 : Value → Option Nat
  toUsize : Value → Option Nat
  toU32_whole : ∀ {x : Lua.Num} {n : Int}, x.Is n → toU32 (.num x) = if 0 ≤ n ∧ n < 2 ^ 32 then some n.toNat else none
  toUsize_whole : ∀ {x : Lua.Num} {n : Int}, x.Is n → toUsize (.num x) = if 0 ≤ n then some n.toNat else none
  /-- A string as an operand of `&`, if it is taken as one. -/
  operand : Bytes → Option Int
  operand_number : ∀ {s n}, operand s = some n → ∃ x, tonumber s = some x ∧ x.Is n
  /-- A number as a string. -/
  coerced : Lua.Num → Bytes
  /-- Whether a message is text. -/
  isText : Value → Bool
  sha1 : Bytes → Bytes
  base64 : Base64

/-- What a value has under a name. A string has none of the names asked for. -/
def field (v : Value) (name : String) : Value :=
  match v with
  | .table entries => Value.get entries (.str (ascii name))
  | _ => .nil

def isName (v : Value) (name : String) : Bool :=
  match v with
  | .str s => s = ascii name
  | _ => false

def isFalsy : Value → Bool
  | .nil | .bool false => true
  | _ => false

/-- `tonumber`. -/
def asNumber : Value → Value
  | .num x => .num x
  | .str s => (tonumber s).elim .nil .num
  | _ => .nil

inductive Domain where
  | rdram
  | rom
  deriving DecidableEq

structure Region where
  addr : Lua.Num
  len : Lua.Num
  data : Bytes

/-- What a batch holds. -/
structure State where
  snapshot : List Region
  pending : List (Lua.Num × Bytes)

inductive Response where
  | pong
  | system (value : Bytes)
  | preferredCores
  | hash (value : Bytes)
  | memorySize (value : Nat)
  | guard (value : Bool) (address : Value)
  | locked
  | unlocked
  | read (value : Bytes)
  | write
  | displayMessage
  | setMessageInterval
  | loadoutTracker
  | error

/-- A guard that did not hold. -/
def Response.failed : Response → Bool
  | .guard value _ => !value
  | _ => false

inductive Kind where
  | ping | system | preferredCores | hash | memorySize | guard | lock | unlock | read | write
  | displayMessage | setMessageInterval | loadoutTracker | default
  deriving DecidableEq

def kind (type : Value) : Kind :=
  if isName type "PING" then .ping
  else if isName type "SYSTEM" then .system
  else if isName type "PREFERRED_CORES" then .preferredCores
  else if isName type "HASH" then .hash
  else if isName type "MEMORY_SIZE" then .memorySize
  else if isName type "GUARD" then .guard
  else if isName type "LOCK" then .lock
  else if isName type "UNLOCK" then .unlock
  else if isName type "READ" then .read
  else if isName type "WRITE" then .write
  else if isName type "DISPLAY_MESSAGE" then .displayMessage
  else if isName type "SET_MESSAGE_INTERVAL" then .setMessageInterval
  else if isName type "LOADOUT_TRACKER" then .loadoutTracker
  else .default

section Script

variable (host : Host) (rdramSize : Nat)

def romSize : Nat := host.rom.elim 0 List.length

def operand : Value → Option Int
  | .num x => x.toInteger
  | .str s => host.operand s
  | _ => none

/-- Where in RDRAM or ROM an address of a domain is. -/
def resolve (domain addr : Value) : Except Unit (Domain × Value) :=
  if domain.isNil ∨ isName domain "RDRAM" then .ok (.rdram, addr)
  else if isName domain "ROM" then .ok (.rom, addr)
  else if isName domain "System Bus" then
    match operand host addr with
    | none => .error ()
    | some n =>
      let phys := n % 0x20000000
      if phys < rdramSize then .ok (.rdram, .num (.int phys))
      else if 0x10000000 ≤ phys ∧ phys < 0x10000000 + romSize host then .ok (.rom, .num (.int (phys - 0x10000000)))
      else .error ()
  else .error ()

/-- The two numbers, where both are and RDRAM has the bytes. -/
def checkRdram (addr len : Value) : Except Unit (Lua.Num × Lua.Num) :=
  match addr, len with
  | .num a, .num n => if a.isNeg ∨ n.isNeg ∨ (Lua.Num.int rdramSize).lt (a.add n) then .error () else .ok (a, n)
  | _, _ => .error ()

/-- Bytes of an image that are all there. -/
def block (image : Bytes) (addr len : Value) : Except Unit Bytes :=
  match host.toU32 addr, host.toUsize len with
  | some a, some n => if a + n ≤ image.length then .ok (slice image a n) else .error ()
  | _, _ => .error ()

def romRead (addr len : Value) : Except Unit Bytes :=
  match host.rom with
  | none => .error ()
  | some rom => block host rom addr len

/-- All of the writes, once all of them are in RDRAM. -/
def writeMany (mem : Bytes) (writes : List (Lua.Num × Bytes)) : Except Unit Bytes := do
  let writes ← writes.mapM fun w => match host.toU32 (.num w.1) with
    | some a => .ok (a, w.2)
    | none => .error ()
  if ∀ w ∈ writes, w.1 + w.2.length ≤ mem.length then return writes.foldl (fun m w => overwrite m w.1 w.2) mem
  else .error ()

def isTrimmed (b : UInt8) : Bool := b = 0x20 || b = 0x09 || b = 0x0A || b = 0x0C || b = 0x0D

/-- A string, or a number as one, without blanks at its ends. -/
def decode64 (v : Value) : Except Unit Bytes :=
  match v with
  | .str s => decoded s
  | .num x => decoded (host.coerced x)
  | _ => .error ()
where
  decoded (s : Bytes) : Except Unit Bytes :=
    match host.base64.decode ((s.dropWhile isTrimmed).rdropWhile isTrimmed) with
    | some b => .ok b
    | none => .error ()

def b64Len (s : Bytes) : Int :=
  let body := s.filter isBase64
  (body.length / 4 : Nat) * 3 - padding body

def hexUpper (n : Nat) : UInt8 := .ofNat (if n < 10 then 0x30 + n else 0x37 + n)

def romHash : Except Unit Bytes :=
  (romRead host (.num (.int 0)) (.num (.int 4096))).map fun head => (host.sha1 head).flatMap fun b => [hexUpper (b.toNat / 16), hexUpper (b.toNat % 16)]

def raise {σ α : Type} (r : Except Unit α) : Eff Unit σ α :=
  match r with
  | .ok a => pure a
  | .error e => Eff.fail e

section Requests

/-- What a request's READs and WRITEs go to. -/
structure Memory (σ : Type) where
  read : Value → Value → Value → Eff Unit σ Bytes
  write : Value → Value → Bytes → Eff Unit σ Unit

variable {σ : Type} (m : Memory σ)

def memorySize (domain : Value) : Except Unit Response :=
  if isFalsy domain ∨ isName domain "RDRAM" then .ok (.memorySize rdramSize)
  else if isName domain "ROM" then .ok (.memorySize (romSize host))
  else if isName domain "System Bus" then .ok (.memorySize 0x100000000)
  else .error ()

def processRequest (req : Value) : Eff Unit σ Response :=
  match req with
  | .table _ | .str _ =>
    match kind (field req "type") with
    | .ping => return .pong
    | .system => return .system (ascii "N64")
    | .preferredCores => return .preferredCores
    | .hash => do return .hash (← raise (romHash host))
    | .memorySize => raise (memorySize host rdramSize (field req "domain"))
    | .guard => do
      let expected ← raise (decode64 host (field req "expected_data"))
      let actual ← m.read (field req "domain") (field req "address") (.num (.int expected.length))
      return .guard (actual = expected) (field req "address")
    | .lock => return .locked
    | .unlock => return .unlocked
    | .read => do
      let data ← m.read (field req "domain") (field req "address") (field req "size")
      return .read (host.base64.encode data)
    | .write => do
      let b ← raise (decode64 host (field req "value"))
      m.write (field req "domain") (field req "address") b
      return .write
    | .displayMessage => if host.isText (field req "message") then return .displayMessage else Eff.fail ()
    | .setMessageInterval => return .setMessageInterval
    | .loadoutTracker => return .loadoutTracker
    | .default => return .error
  | _ => Eff.fail ()

/-- A request that raises is answered with an error. -/
def respond (req : Value) (s : σ) : Response × σ :=
  match processRequest host rdramSize m req s with
  | (.ok response, s) => (response, s)
  | (.error _, s) => (.error, s)

/-- A guard that did not hold answers for the rest of the batch. -/
def processAll : List Value → σ → List Response × σ
  | [], s => ([], s)
  | req :: rest, s =>
    let (response, s) := respond host rdramSize m req s
    if response.failed then (List.replicate (rest.length + 1) response, s)
    else
      let (responses, s) := processAll rest s
      (response :: responses, s)

end Requests

section Snapshot

variable (mem : Bytes)

def Region.covers (a n : Lua.Num) (r : Region) : Bool := r.addr.le a && (a.add n).le (r.addr.add r.len)

/-- Bytes of a region, or of the cart where no region has them. -/
def rdramRead (addr len : Value) : Eff Unit State Bytes := do
  let (a, n) ← raise (checkRdram mem.length addr len)
  match (← Eff.get).snapshot.find? (Region.covers a n) with
  | some r =>
    let off := a.sub r.addr
    raise (part r.data (off.add (.int 1)) (off.add n))
  | none =>
    let data ← raise (block host mem (.num a) (.num n))
    Eff.modify fun s => { s with snapshot := s.snapshot ++ [⟨a, n, data⟩] }
    return data

/-- A write laid over a region of the snapshot it touches. -/
def overlay (addr : Lua.Num) (b : Bytes) (r : Region) : Except Unit Region :=
  let lo := addr.max r.addr
  let hi := (addr.add (.int b.length)).min (r.addr.add r.len)
  if hi.le lo then .ok r
  else do
    let off := lo.sub r.addr
    let front ← part r.data (.int 1) off
    let middle ← part b ((lo.sub addr).add (.int 1)) (hi.sub addr)
    let back ← part r.data ((off.add (hi.sub lo)).add (.int 1)) (.int (-1))
    return { r with data := front ++ middle ++ back }

/-- The regions up to one that raises are written to. -/
def overlayAll (addr : Lua.Num) (b : Bytes) : List Region → Except Unit Unit × List Region
  | [] => (.ok (), [])
  | r :: rest =>
    match overlay addr b r with
    | .error e => (.error e, r :: rest)
    | .ok r =>
      let (result, rest) := overlayAll addr b rest
      (result, r :: rest)

def read (domain addr len : Value) : Eff Unit State Bytes := do
  let (dom, a) ← raise (resolve host mem.length domain addr)
  match dom with
  | .rdram => rdramRead host mem a len
  | .rom => raise (romRead host a len)

def write (domain addr : Value) (b : Bytes) : Eff Unit State Unit := do
  let (dom, a) ← raise (resolve host mem.length domain addr)
  match dom with
  | .rom => Eff.fail ()
  | .rdram =>
    let (a, _) ← raise (checkRdram mem.length a (.num (.int b.length)))
    Eff.modify fun s => { s with pending := s.pending ++ [(a, b)] }
    fun s => ((overlayAll a b s.snapshot).1, { s with snapshot := (overlayAll a b s.snapshot).2 })

def connector : Memory State := ⟨read host mem, write host mem⟩

/-- How long a request says it is, to the pass before the batch. -/
def wantedLen (req : Value) : Value :=
  match kind (field req "type") with
  | .read => asNumber (field req "size")
  | .guard =>
    match field req "expected_data" with
    | .str s => .num (.int (b64Len s))
    | _ => .nil
  | _ => .nil

/-- The region a request names up front. An address that is no number raises. -/
def wanted (req : Value) : Except Unit (Option (Domain × Lua.Num × Lua.Num)) :=
  match req with
  | .table _ =>
    match wantedLen req, resolve host mem.length (field req "domain") (asNumber (field req "address")) with
    | .num n, .ok (dom, a) =>
      if n.isPos then
        match a with
        | .num a =>
          let size := match dom with
            | .rdram => mem.length
            | .rom => romSize host
          .ok (if (Lua.Num.int 0).le a ∧ (a.add n).le (.int size) then some (dom, a, n) else none)
        | _ => .error ()
      else .ok none
    | _, _ => .ok none
  | _ => .ok none

def regionsOf (dom : Domain) (found : List (Option (Domain × Lua.Num × Lua.Num))) : List (Lua.Num × Lua.Num) :=
  found.filterMap fun e => e.bind fun e => if e.1 = dom then some e.2 else none

def beginBatch (requests : List Value) : Except Unit (List Region) := do
  let found ← requests.mapM (wanted host mem)
  let snapshot ← (regionsOf .rdram found).mapM fun e =>
    (block host mem (.num e.1) (.num e.2)).map fun data => (⟨e.1, e.2, data⟩ : Region)
  let _ ← (regionsOf .rom found).mapM fun e => romRead host (.num e.1) (.num e.2)
  return snapshot

/-- What the list of a line, which ends at the first null of it, is answered with
and what RDRAM is after, where `handle` does not raise. -/
def handle (data : List Value) : Except Unit (List Response × Bytes) := do
  let requests := data.takeWhile fun req => !req.isNil
  let snapshot ← beginBatch host mem requests
  let (responses, s) := processAll host mem.length (connector host mem) requests ⟨snapshot, []⟩
  let after ← writeMany host mem s.pending
  return (responses, after)

end Snapshot

section Alone

/-- A number that is not whole. -/
def isFraction : Value → Bool
  | .num x => x.toInteger.isNone
  | _ => false

def readAlone (m : Bytes) (domain addr len : Value) : Except Unit Bytes :=
  if isFraction addr ∨ isFraction len then .error ()
  else do
    let (dom, a) ← resolve host m.length domain addr
    match dom with
    | .rom => romRead host a len
    | .rdram => do
      let (a, n) ← checkRdram m.length a len
      block host m (.num a) (.num n)

def writeAlone (m : Bytes) (domain addr : Value) (b : Bytes) : Except Unit Bytes :=
  if isFraction addr then .error ()
  else do
    let (dom, a) ← resolve host m.length domain addr
    match dom with
    | .rom => .error ()
    | .rdram => do
      let (a, _) ← checkRdram m.length a (.num (.int b.length))
      writeMany host m [(a, b)]

/-- RDRAM itself, where a number that is not whole is refused. -/
def alone : Memory Bytes where
  read domain addr len m := (readAlone host m domain addr len, m)
  write domain addr b m :=
    match writeAlone host m domain addr b with
    | .ok after => (.ok (), after)
    | .error e => (.error e, m)

end Alone

end Script

end GenericBatch

end Multi64
