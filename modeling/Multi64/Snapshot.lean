import Mathlib
import Multi64.Lib.SortedMap
import Multi64.Lib.Store
import Multi64.Lib.Text

/-! RetroArch's memory commands answered from a snapshot, `retroarch.rs`. One
thread answers the client, another refreshes the snapshot and puts writes on the
console, each from one lock to the next, and the game changes RDRAM at will. -/

namespace Multi64

namespace RetroArch

def window : Nat := 0x100

/-- `known` is what the client was last answered for the word, which the code
does not keep. -/
structure Write where
  phys : Nat
  served : Bytes
  client : Bytes
  known : Option Bytes

inductive Reply where
  | word (addr : List Char) (shown : Bytes)
  | wrote (addr : List Char)
  | refused (cmd addr : List Char) (why : String)
  | unrecognized (line : String)
  deriving DecidableEq

inductive Request where
  | read (addr : List Char) (phys : Nat)
  | write (addr : List Char) (phys : Nat) (client : Bytes)

def Request.phys : Request → Nat
  | .read _ phys => phys
  | .write _ phys _ => phys

section Parse

def hexDigit (c : Char) : Option Nat :=
  let n := c.toNat
  if 0x30 ≤ n ∧ n ≤ 0x39 then some (n - 0x30)
  else if 0x41 ≤ n ∧ n ≤ 0x46 then some (n - 0x41 + 10)
  else if 0x61 ≤ n ∧ n ≤ 0x66 then some (n - 0x61 + 10)
  else none

/-- `from_str_radix(s, 16)` of an unsigned type that ends at `limit`. -/
def fromHex (limit : Nat) (s : List Char) : Option Nat :=
  let digits := match s with
    | c :: d :: rest => if c.toNat = 0x2B then d :: rest else s
    | _ => s
  if digits = [] then none
  else digits.foldlM (fun n c => do
    let d ← hexDigit c
    if n * 16 + d < limit then some (n * 16 + d) else none) 0

variable (rdram : Nat)

/-- The checks of `handle`, in its order. -/
def parse (line : String) : Except Reply Request :=
  match Text.splitWhitespace line.toList with
  | cmd :: addr :: rest =>
    match fromHex (2 ^ 32) addr with
    | none => .error (.refused cmd addr "bad address")
    | some a =>
      let phys := a % 2 ^ 29
      if phys % 4 ≠ 0 ∨ rdram < phys + 4 then .error (.refused cmd addr "address outside RDRAM or unaligned")
      else if cmd = "READ_CORE_MEMORY".toList then .ok (.read addr phys)
      else if cmd = "WRITE_CORE_MEMORY".toList ∧ rest.length = 4 then
        match rest.mapM (fromHex (2 ^ 8)) with
        | none => .error (.refused cmd addr "bad data")
        | some le => .ok (.write addr phys (le.reverse.map .ofNat))
      else .error (.refused cmd addr "unsupported")
  | _ => .error (.unrecognized line)

def Request.unanswered : Request → Reply
  | .read addr _ => .refused "READ_CORE_MEMORY".toList addr "the console has not answered yet"
  | .write addr _ _ => .refused "WRITE_CORE_MEMORY".toList addr "the console has not answered yet"

end Parse

section Apply

variable (bitwise : List (Nat × Nat)) (live : SortedMap Nat UInt8)

def flag (a : Nat) : Bool := bitwise.any fun r => r.1 ≤ a && a < r.2

def changed (w : Write) : List Nat := (List.range 4).filter fun i => byteAt w.client i ≠ byteAt w.served i

/-- The words with a bitwise change, each once. -/
def liveWords (writes : List Write) : List Nat :=
  (((writes.filter fun w => (changed w).any fun i => flag bitwise (w.phys + i)).map (·.phys)).insertionSort
    (· ≤ ·)).dedup

def insertLive (phys : Nat) (data : Bytes) : SortedMap Nat UInt8 :=
  (List.range 4).foldl (fun live i => live.insert (phys + i) (byteAt data i)) live

/-- The byte a write makes of what an earlier one left at `w.phys + i`. -/
def mergedByte (w : Write) (i : Nat) (earlier : Option UInt8) : UInt8 :=
  let a := w.phys + i
  if flag bitwise a then
    let set := byteAt w.client i &&& ~~~byteAt w.served i
    let clear := byteAt w.served i &&& ~~~byteAt w.client i
    let now := (earlier.or (live.get a)).getD (byteAt w.served i)
    now &&& ~~~clear ||| set
  else byteAt w.client i

def mergeByte (w : Write) (out : SortedMap Nat UInt8) (i : Nat) : SortedMap Nat UInt8 :=
  out.insert (w.phys + i) (mergedByte bitwise live w i (out.get (w.phys + i)))

def merge (writes : List Write) : SortedMap Nat UInt8 :=
  writes.foldl (fun out w => (changed w).foldl (mergeByte bitwise live w) out) .empty

/-- One region for each run of adjacent bytes. -/
def addRun (runs : List (Nat × Bytes)) (e : Nat × UInt8) : List (Nat × Bytes) :=
  match runs.getLast? with
  | some (start, bytes) =>
    if start + bytes.length = e.1 then runs.dropLast ++ [(start, bytes ++ [e.2])] else runs ++ [(e.1, [e.2])]
  | none => [(e.1, [e.2])]

def toRuns (out : SortedMap Nat UInt8) : List (Nat × Bytes) := out.entries.foldl addRun []

end Apply

/-- Where the answering thread is: behind the checks, in the wait for a window,
or with the word a write is compared with. -/
inductive Answering where
  | idle
  | asked (r : Request)
  | waiting (r : Request)
  | served (addr : List Char) (phys : Nat) (client word : Bytes)

/-- Where the refreshing thread is. Each region read and each run written is a
step of its own. -/
inductive Refreshing where
  | idle
  | reading (fresh todo : List Nat) (got : List (Nat × Bytes))
  | draining (fresh : List Nat)
  | merging (fresh : List Nat) (writes : List Write) (readOn : Nat) (todo : List Nat) (live : SortedMap Nat UInt8)
  | writing (fresh : List Nat) (writes : List Write) (live : SortedMap Nat UInt8) (runs : List (Nat × Bytes))
  | settling (fresh : List Nat)
  | listing (fresh : List Nat)
  | rereading (rest todo : List Nat) (got : List (Nat × Bytes))

structure Session where
  ram : Store
  linkGeneration : Nat
  windows : SortedMap Nat Bytes
  wanted : List Nat
  writes : List Write
  generation : Option Nat
  answering : Answering
  refreshing : Refreshing
  replies : List Reply
  /-- What the client was last answered for a word, or has written to it since. -/
  answered : Nat → Option Bytes
  /-- Whether a write ever handed back something the snapshot no longer held. -/
  stale : Bool

inductive Event where
  | command (line : String)
  | answer (expired : Bool)
  | refresh (gone fails : Bool)
  | game (ram : Store)

def baseOf (phys : Nat) : Nat := phys - phys % window

section Agree

variable (bitwise : List (Nat × Nat)) (a k : Nat) (x y : UInt8)

/-- Two values of the byte at `a` agree: in a bitwise range in bit `k`, elsewhere
as a whole. -/
def agree : Bool := if flag bitwise a then x.toBitVec.getLsbD k == y.toBitVec.getLsbD k else x == y

/-- What the client hands back as it was answered is what it was served. -/
def handsBack (w : Write) : Bool :=
  match w.known with
  | none => true
  | some known => (List.range 4).all fun i => (List.range 8).all fun k =>
    !agree bitwise (w.phys + i) k (byteAt w.client i) (byteAt known i) ||
      agree bitwise (w.phys + i) k (byteAt w.served i) (byteAt known i)

end Agree

namespace Session

variable (rdram : Nat) (bitwise : List (Nat × Nat)) (s : Session)

def start (ram : Store) (linkGeneration : Nat) : Session where
  ram := ram
  linkGeneration := linkGeneration
  windows := .empty
  wanted := []
  writes := []
  generation := none
  answering := .idle
  refreshing := .idle
  replies := []
  answered := fun _ => none
  stale := false

def follow : Session :=
  if s.generation = none ∨ s.generation = some s.linkGeneration then { s with generation := some s.linkGeneration }
  else
    { s with
      generation := some s.linkGeneration
      windows := .empty
      wanted := s.wanted ++ s.windows.keys
      writes := [] }

def reply (r : Reply) : Session := { s with answering := .idle, replies := s.replies ++ [r] }

/-- The word is taken from the snapshot, and a read is answered with it. -/
def serve (r : Request) (word : Bytes) : Session :=
  match r with
  | .read addr phys => { s with answered := Function.update s.answered phys (some word) }.reply (.word addr word.reverse)
  | .write addr phys client => { s with answering := .served addr phys client word }

def command (line : String) : Session :=
  match s.answering with
  | .idle =>
    match parse rdram line with
    | .error r => s.reply r
    | .ok r => { s with answering := .asked r }
  | _ => s

/-- A write is shown at once and queued. -/
def push (addr : List Char) (phys : Nat) (client word : Bytes) : Session :=
  let base := baseOf phys
  let windows := match s.windows.get base with
    | some data => s.windows.insert base (overwrite data (phys - base) client)
    | none => s.windows
  let w : Write := ⟨phys, word, client, s.answered phys⟩
  { s with
    windows := windows
    writes := s.writes ++ [w]
    answered := Function.update s.answered phys (some client)
    stale := s.stale || !handsBack bitwise w }.reply (.wrote addr)

def answer (expired : Bool) : Session :=
  match s.answering with
  | .idle => s
  | .asked r =>
    let base := baseOf r.phys
    match s.windows.get base with
    | some data => s.serve r (slice data (r.phys - base) 4)
    | none =>
      { s with
        wanted := if base ∈ s.wanted then s.wanted else s.wanted ++ [base]
        answering := .waiting r }
  | .waiting r =>
    let base := baseOf r.phys
    match s.windows.get base with
    | some data => s.serve r (slice data (r.phys - base) 4)
    | none => if expired then s.reply r.unanswered else s
  | .served addr phys client word => s.push bitwise addr phys client word

/-- Read the next region of a fetch. -/
def readWindow (base : Nat) : Nat × Bytes := (base, s.ram.read base (min window (rdram - base)))

/-- A queued write is laid over what came back. -/
def overlay (queued : List Write) (base : Nat) (data : Bytes) : Bytes :=
  queued.foldl (fun data w => if baseOf w.phys = base then overwrite data (w.phys - base) w.client else data) data

def install (got : List (Nat × Bytes)) : Session :=
  let s := s.follow
  { s with windows := got.foldl (fun windows e => windows.insert e.1 (overlay s.writes e.1 e.2)) s.windows }

/-- The part of `refresh` up to its next lock or its next request to the cart,
which may fail and end it. -/
def refresh (gone fails : Bool) : Session :=
  match s.refreshing with
  | .idle =>
    let s := s.follow
    let windows := if gone then .empty else s.windows
    let fresh := (s.wanted.insertionSort (· ≤ ·)).dedup.filter fun b => (windows.get b).isNone
    { s with windows := windows, wanted := [], refreshing := .reading fresh fresh [] }
  | .reading fresh (b :: todo) got =>
    if fails then { s with refreshing := .idle }
    else { s with refreshing := .reading fresh todo (got ++ [s.readWindow rdram b]) }
  | .reading fresh [] got =>
    if fresh = [] then { s with refreshing := .draining fresh }
    else { s.install got with refreshing := .draining fresh }
  | .draining fresh =>
    { s with
      writes := []
      refreshing := .merging fresh s.writes (s.generation.getD 0) (liveWords bitwise s.writes) .empty }
  | .merging fresh writes readOn (p :: todo) live =>
    if fails then { s with refreshing := .idle }
    else { s with refreshing := .merging fresh writes readOn todo (insertLive live p (s.ram.read p 4)) }
  | .merging fresh writes readOn [] live =>
    if liveWords bitwise writes ≠ [] ∧ s.linkGeneration ≠ readOn then { s with refreshing := .settling fresh }
    else { s with refreshing := .writing fresh writes live (toRuns (merge bitwise live writes)) }
  | .writing fresh writes live (run :: runs) =>
    if fails then { s with refreshing := .idle }
    else { s with ram := s.ram.write run.1 run.2, refreshing := .writing fresh writes live runs }
  | .writing fresh _ _ [] => { s with refreshing := if fails then .idle else .settling fresh }
  | .settling fresh => { s.follow with refreshing := .listing fresh }
  | .listing fresh =>
    let rest := s.windows.keys.filter (· ∉ fresh)
    { s with refreshing := .rereading rest rest [] }
  | .rereading rest (b :: todo) got =>
    if fails then { s with refreshing := .idle }
    else { s with refreshing := .rereading rest todo (got ++ [s.readWindow rdram b]) }
  | .rereading rest [] got =>
    if rest = [] then { s with refreshing := .idle } else { s.install got with refreshing := .idle }

def step : Event → Session
  | .command line => s.command rdram line
  | .answer expired => s.answer bitwise expired
  | .refresh gone fails => s.refresh rdram bitwise gone fails
  | .game ram => { s with ram := ram }

def run (events : List Event) : Session := events.foldl (step rdram bitwise) s

end Session

section Own

/-- The writes a refresh is putting on the console. -/
def Refreshing.batch : Refreshing → List Write
  | .writing _ writes _ _ => writes
  | _ => []

/-- What a refresh read of the bytes it merges bits into. -/
def Refreshing.live : Refreshing → SortedMap Nat UInt8
  | .writing _ _ live _ => live
  | _ => .empty

variable (bitwise : List (Nat × Nat)) (writes : List Write) (a k : Nat)

/-- The last of the writes to the word that `a` is in. -/
def latest : Option Write := (writes.filter fun w => w.phys = a - a % 4).getLast?

/-- Whether a write has the byte at `a` other than the client was last answered. -/
def Differs (w : Write) : Prop :=
  w.phys = a - a % 4 ∧ ∀ known, w.known = some known →
    agree bitwise a k (byteAt w.client (a % 4)) (byteAt known (a % 4)) = false

/-- From `before` to `after` the byte stays, or one of the writes has it other
than the client was answered and it takes what the client wrote last. -/
def ClientsOwn (before after : UInt8) : Prop :=
  agree bitwise a k after before = true ∨ (∃ w ∈ writes, Differs bitwise a k w) ∧
    ∃ w, latest writes a = some w ∧ agree bitwise a k after (byteAt w.client (a % 4)) = true

end Own

end RetroArch

end Multi64
