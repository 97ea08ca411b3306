import Multi64.Connector

/-! The two connectors that carry out a client's own requests: the BizHawk one of
`generic/connector.lua`, a batch of requests a line, and the Project64 one of
`pj64/connector.lua`, one request a line. -/

namespace Multi64

namespace Connector

namespace Generic

/-- A text in base64: its length undecoded, and what decoding it makes. -/
structure Encoded where
  length : Nat
  decoded : Except String Bytes

/-- A request of a batch. A number that is not there raises where it is used. -/
inductive Request where
  | ping
  | system
  | preferredCores
  | hash
  | lock
  | unlock
  | loadoutTracker
  | memorySize (domain : Option String)
  | guard (domain : Option String) (address : Option Int) (expected : Option Encoded)
  | read (domain : Option String) (address : Option Int) (size : Option Int)
  | write (domain : Option String) (address : Option Int) (value : Option Encoded)
  | displayMessage (message : String)
  | setMessageInterval (value : Option Int)
  | unknown (kind : String)
  | malformed

inductive Response where
  | pong
  | system (value : String)
  | preferredCores
  | hash (value : Bytes)
  | memorySize (value : Nat)
  | guard (value : Bool) (address : Option Int)
  | locked
  | unlocked
  | read (value : Bytes)
  | write
  | displayMessage
  | setMessageInterval
  | loadoutTracker
  | error (err : String)

inductive Line where
  | version
  | batch (data : Except String (List Request))

structure Region where
  addr : Int
  len : Nat
  data : Bytes

structure State where
  snapshot : List Region
  pending : List Write
  messageInterval : Option Int

def State.fresh : State := ⟨[], [], some 0⟩

inductive Domain where
  | rdram
  | rom
  deriving DecidableEq

section Generic

variable {σ : Type} (c : Cart σ) (rdramSize romSize : Nat)

def resolve (domain : Option String) (addr : Option Int) : Except String (Domain × Option Int) :=
  match domain with
  | none | some "RDRAM" => .ok (.rdram, addr)
  | some "ROM" => .ok (.rom, addr)
  | some "System Bus" =>
    match addr with
    | none => .error "attempt to perform bitwise operation on a nil value (local 'addr')"
    | some a =>
      let phys := a % 0x20000000
      if phys < rdramSize then .ok (.rdram, some phys)
      else if 0x10000000 ≤ phys ∧ phys < 0x10000000 + romSize then .ok (.rom, some (phys - 0x10000000))
      else .error "System Bus address is neither RDRAM nor ROM"
  | some name => .error ("memory domain " ++ name ++ " is not available on a cart")

def checkRdram (addr : Option Int) (len : Int) : Except String Int :=
  match addr with
  | none => .error "attempt to compare nil with number"
  | some a => if a < 0 ∨ len < 0 ∨ rdramSize < a + len then .error "RDRAM is outside what the cart has" else .ok a

def raise {α : Type} (r : Except String α) : Lua σ State α :=
  match r with
  | .ok a => pure a
  | .error why => Eff.fail why

def rdramRead (addr : Option Int) (len : Int) : Lua σ State Bytes := do
  let a ← raise (checkRdram rdramSize addr len)
  match (← script).snapshot.find? fun r => r.addr ≤ a ∧ a + len ≤ r.addr + r.len with
  | some r => return slice r.data (a - r.addr).toNat len.toNat
  | none =>
    let blocks ← readMany c [(a, len.toNat)]
    let data := blocks.headD []
    update fun s => { s with snapshot := s.snapshot ++ [⟨a, len.toNat, data⟩] }
    return data

/-- A write laid over a region of the snapshot it touches. -/
def overlay (addr : Int) (b : Bytes) (r : Region) : Region :=
  let lo := max addr r.addr
  let hi := min (addr + b.length) (r.addr + r.len)
  if hi ≤ lo then r
  else
    let off := (lo - r.addr).toNat
    let n := (hi - lo).toNat
    { r with data := r.data.take off ++ slice b (lo - addr).toNat n ++ r.data.drop (off + n) }

def read (domain : Option String) (addr : Option Int) (len : Option Int) : Lua σ State Bytes := do
  let at_ ← raise (resolve rdramSize romSize domain addr)
  match at_, len with
  | (.rdram, a), some len => rdramRead c rdramSize a len
  | (.rom, some a), some len => return (← romReadMany c [(a, len.toNat)]).headD []
  | _, _ => Eff.fail "bad argument: number expected, got nil"

def write (domain : Option String) (addr : Option Int) (b : Bytes) : Lua σ State Unit := do
  let at_ ← raise (resolve rdramSize romSize domain addr)
  if at_.1 ≠ .rdram then Eff.fail "ROM is read-only on a cart"
  else
    let a ← raise (checkRdram rdramSize at_.2 b.length)
    note (a, b)
    update fun s => { s with pending := s.pending ++ [(a, b)], snapshot := s.snapshot.map (overlay a b) }

def flush : Lua σ State Unit := flushQueue c (·.pending) fun s => { s with pending := [] }

/-- The region a request names up front. -/
def named : Request → Option (Option String × Option Int × Int)
  | .read domain address (some size) => some (domain, address, size)
  | .guard domain address (some expected) => some (domain, address, expected.length)
  | _ => none

/-- What of a batch is read at once. An address that is not there raises. -/
def regions : List Request → Except String (List (Int × Nat) × List (Int × Nat))
  | [] => .ok ([], [])
  | req :: rest =>
    match named req with
    | none => regions rest
    | some (domain, address, len) =>
      match resolve rdramSize romSize domain address with
      | .error _ => regions rest
      | .ok (dom, addr) =>
        if len ≤ 0 then regions rest
        else match addr with
          | none => .error "attempt to compare nil with number"
          | some a => do
            let got ← regions rest
            let size := match dom with
              | .rdram => rdramSize
              | .rom => romSize
            if 0 ≤ a ∧ a + len ≤ size then
              match dom with
              | .rdram => return ((a, len.toNat) :: got.1, got.2)
              | .rom => return (got.1, (a, len.toNat) :: got.2)
            else return got

def beginBatch (requests : List Request) : Lua σ State Unit := do
  update fun s => { s with snapshot := [] }
  let found ← raise (regions rdramSize romSize requests)
  if found.1 ≠ [] then
    let blocks ← readMany c found.1
    update fun s => { s with snapshot := (found.1.zip blocks).map fun e => ⟨e.1.1, e.1.2, e.2⟩ }
  if found.2 ≠ [] then
    let _ ← romReadMany c found.2

def decoded : Option Encoded → Except String Bytes
  | none => .error "error converting Lua nil to String"
  | some e => e.decoded

def processRequest : Request → Lua σ State Response
  | .ping => return .pong
  | .system => return .system "N64"
  | .preferredCores => return .preferredCores
  | .hash => do return .hash ((← romReadMany c [(0, 4096)]).headD [])
  | .lock => return .locked
  | .unlock => return .unlocked
  | .loadoutTracker => return .loadoutTracker
  | .memorySize domain =>
    match domain.getD "RDRAM" with
    | "RDRAM" => return .memorySize rdramSize
    | "ROM" => return .memorySize romSize
    | "System Bus" => return .memorySize 0x100000000
    | name => Eff.fail ("memory domain " ++ name ++ " is not available on a cart")
  | .guard domain address expected => do
    let expected ← raise (decoded expected)
    let actual ← read c rdramSize romSize domain address (some expected.length)
    return .guard (actual = expected) address
  | .read domain address size => do return .read (← read c rdramSize romSize domain address size)
  | .write domain address value => do
    let value ← raise (decoded value)
    write rdramSize romSize domain address value
    return .write
  | .displayMessage _ => return .displayMessage
  | .setMessageInterval value => do
    update fun s => { s with messageInterval := value }
    return .setMessageInterval
  | .unknown kind => return .error ("Unknown command: " ++ kind)
  | .malformed => Eff.fail "attempt to index a value that is not a table"

def responded : Except String Response → Response
  | .ok response => response
  | .error why => .error why

def Response.failedGuard : Response → Bool
  | .guard value _ => !value
  | _ => false

/-- A guard that does not hold answers for the rest of the batch too. -/
def processAll : List Request → Lua σ State (List Response)
  | [] => return []
  | req :: rest => do
    let response := responded (← Eff.attempt (processRequest c rdramSize romSize req))
    if response.failedGuard then return List.replicate (rest.length + 1) response
    else return response :: (← processAll rest)

def handle (encode : List Response → Except String String) : Line → Lua σ State String
  | .version => return "1"
  | .batch data => do
    let data ← raise data
    beginBatch c rdramSize romSize data
    let res ← processAll c rdramSize romSize data
    flush c
    raise (encode res)

end Generic

end Generic

namespace Pj64

/-- A request as parsed: the bytes of a write are its values encoded. -/
inductive Request where
  | refused (payload : String)
  | romInfo
  | read (reads : List (Int × Nat))
  | write (addr : Int) (data : Bytes)

section Pj64

variable {σ : Type} (c : Cart σ) (rdramSize : Nat)

def phys (addr : Int) (len : Nat) : Lua σ Unit Int :=
  let p := addr % 0x20000000
  if rdramSize < p + len then Eff.fail "address is outside the bytes of RDRAM the cart has" else pure p

/-- An empty read asks the cart for nothing. -/
def readAll (reads : List (Int × Nat)) : Lua σ Unit (List Bytes) := do
  let wanted ← (reads.filter (0 < ·.2)).mapM' fun r => do return (← phys rdramSize r.1 r.2, r.2)
  if wanted = [] then return [] else readMany c wanted

def ask : Request → Lua σ Unit (List Bytes)
  | .refused _ => return []
  | .romInfo => romReadMany c [(0, 0x40)]
  | .read reads => readAll c rdramSize reads
  | .write addr data => do
    if data = [] then return []
    else
      let p ← phys rdramSize addr data.length
      note (p, data)
      writeMany c [(p, data)]
      return []

def answer (shown : Request → List Bytes → Except String String) (req : Request) : Lua σ Unit String := do
  let got ← ask c rdramSize req
  match shown req got with
  | .ok text => return text
  | .error why => Eff.fail why

/-- A line with no id is answered as such. -/
def handle (shown : Request → List Bytes → Except String String) : Option (String × Request) → Lua σ Unit String
  | none => return "ERR:Invalid message format"
  | some (id, req) => do return id ++ ":" ++ (← answer c rdramSize shown req)

end Pj64

end Pj64

end Connector

end Multi64
