import Multi64.Lib.Effect
import Multi64.Lib.Store

/-! The relay of `relay.rs` between a client's socket and the two packet buffers
of a ROM, and the console it runs against: what the ROM and the link may do
before each request, and what the socket does. -/

namespace Multi64

namespace Relay

structure Options where
  pointers : UInt32
  maxPacket : Nat
  room : 4 ≤ maxPacket

def physical (a : UInt32) : Nat := a.toNat % 0x20000000

/-- The console. The ROM has buffers at `buffers` once it has published them.
`packets` are what each boot has put in its output buffer, and the code keeps no
such list. `restarting` is a restart of the link that the next request meets. -/
structure Console where
  rdramSize : Nat
  boot : Nat
  buffers : Option (UInt32 × UInt32)
  blank : Bytes
  output : Bytes
  input : Bytes
  elsewhere : Store
  packets : Nat → List Bytes
  restarting : Bool

/-- A connection as its two ends see it: the bytes it was sent and those it has
sent, the link's generation it was opened on, and how many packets were in the
game's hands when it was let go. -/
structure Conn where
  generation : Nat
  received : Bytes
  stream : Bytes
  gone : Option Nat
  deriving DecidableEq

/-- A packet put in the input buffer: by which connection, on which boot and
generation, and whether the buffer was free. -/
structure Landing where
  conn : Nat
  boot : Nat
  generation : Nat
  free : Bool
  packet : Bytes
  deriving DecidableEq

structure Link where
  buffers : Option (UInt32 × UInt32)
  conn : Bool
  inbox : Bytes
  generation : Option Nat

structure System where
  console : Console
  generation : Nat
  link : Link
  conns : List Conn
  landed : List Landing

/-- What can be seen of a boot that publishes its buffers: the relay has let go
of the boot before, they are elsewhere, or nothing. -/
inductive Showing where
  | seen
  | moved
  | hidden
  deriving DecidableEq

inductive Event where
  | speak (buffer : Bytes)
  | take
  | reset (blank : Bytes)
  | publish (input output : UInt32) (how : Showing)
  | restart

inductive ReadResult where
  | data (b : Bytes)
  | idle
  | closed
  | failed (why : String)

/-- What happens in a pass: before its read and before its write, whether they
fail, whether the client is reached, where a send is cut off and what each read
of the socket gives. -/
structure Turn where
  before : List Event
  readFails : Option String
  dials : Bool
  cut : Option Nat
  reads : List ReadResult
  between : List Event
  writeFails : Option String

inductive Failure where
  | linkRestarted
  | other (why : String)
  deriving DecidableEq

abbrev Act (α : Type) : Type := Eff Failure System α

/-- The length of the packet a buffer starts with, and its command. -/
def packetLen (b : Bytes) : Nat := (readBe16 b 0).toNat + 2

def command (b : Bytes) : Nat := (readBe16 b 2).toNat

section World

variable (o : Options)

/-- `p` as a buffer's address lies in RDRAM. -/
def fits (rdramSize : Nat) (p : UInt32) : Bool :=
  0x80000000 < p.toNat ∧ p.toNat + o.maxPacket ≤ 0x80000000 + rdramSize

def apart (input output : UInt32) : Bool :=
  let clear (a m b n : Nat) : Bool := a + m ≤ b ∨ b + n ≤ a
  clear (physical input) o.maxPacket (physical output) o.maxPacket &&
    clear (physical input) o.maxPacket (physical o.pointers) 8 && clear (physical output) o.maxPacket (physical o.pointers) 8

/-- The bytes where the ROM publishes its buffers. -/
def Console.pointers (c : Console) : Bytes :=
  match c.buffers with
  | some (input, output) => putBe32 input ++ putBe32 output
  | none => c.blank

def Console.block (c : Console) (region : Nat × Nat) : Bytes :=
  if region.1 = physical o.pointers then c.pointers.take region.2
  else match c.buffers with
    | some (input, output) =>
      if region.1 = physical output then c.output.take region.2
      else if region.1 = physical input then c.input.take region.2
      else c.elsewhere.read region.1 region.2
    | none => c.elsewhere.read region.1 region.2

/-- Whether the relay has nothing of an earlier boot, or is about to learn that
the link restarted. -/
def System.letGo (s : System) : Bool :=
  s.link.buffers.isNone || s.console.restarting || s.link.generation != some s.generation

def System.shows (s : System) (input output : UInt32) : Showing → Bool
  | .seen => s.letGo
  | .moved => s.link.buffers != some (input, output)
  | .hidden => true

/-- The ROM keeps to the protocol: a packet is put only in an output buffer that
is free, and one that is taken frees the input buffer. -/
def happen (s : System) (e : Event) : System :=
  let c := s.console
  match e with
  | .speak b =>
    if c.buffers.isSome ∧ command c.output = 0 ∧ command b ≠ 0 ∧ b.length = o.maxPacket then
      { s with console := { c with output := b, packets := Function.update c.packets c.boot (c.packets c.boot ++ [b.take (packetLen b)]) } }
    else s
  | .take =>
    if c.buffers.isSome ∧ command c.input ≠ 0 then
      { s with console := { c with input := overwrite c.input 2 [0, 0] } }
    else s
  | .reset blank =>
    let blank := if fits o c.rdramSize (readBe32 blank 0) ∧ fits o c.rdramSize (readBe32 blank 4) then [] else blank
    { s with console := { c with boot := c.boot + 1, buffers := none, blank } }
  | .publish input output how =>
    if c.buffers.isNone ∧ fits o c.rdramSize input ∧ fits o c.rdramSize output ∧ apart o input output ∧ s.shows input output how then
      { s with console := { c with buffers := some (input, output), output := List.replicate o.maxPacket 0, input := List.replicate o.maxPacket 0 } }
    else s
  | .restart => { s with console := { c with restarting := true } }

def happenAll (s : System) (es : List Event) : System := es.foldl (happen o) s

/-- A restart of the link is over once a request has met it. -/
def restarted (s : System) : System :=
  { s with generation := s.generation + (if s.console.restarting then 1 else 0), console := { s.console with restarting := false } }

/-- A read is of one instant. -/
def readMany (es : List Event) (fails : Option String) (regions : List (Nat × Nat)) : Act (List Bytes) := fun s =>
  let s := restarted (happenAll o s es)
  match fails with
  | some why => (.error (.other why), s)
  | none => (.ok (regions.map (s.console.block o)), s)

/-- One write as it lands. -/
def put (s : System) (w : Nat × Bytes) : System :=
  let c := s.console
  match c.buffers with
  | some (input, output) =>
    if w.1 = physical output + 2 then { s with console := { c with output := overwrite c.output 2 w.2 } }
    else if w.1 = physical input then
      { s with
        console := { c with input := overwrite c.input 0 w.2 }
        landed := s.landed ++ [⟨s.conns.length - 1, c.boot, s.generation, command c.input = 0, w.2⟩] }
    else s
  | none => s

/-- The writes of a pass land at one instant, or not at all where the link
restarts under them. -/
def writeMany (es : List Event) (fails : Option String) (writes : List (Nat × Bytes)) : Act Unit := fun s =>
  let s := happenAll o s es
  if s.console.restarting then (.error .linkRestarted, restarted s)
  else match fails with
    | some why => (.error (.other why), s)
    | none => (.ok (), writes.foldl put s)

end World

section Pass

variable (o : Options) (t : Turn)

def updateLink (f : Link → Link) : Act Unit := Eff.modify fun s => { s with link := f s.link }

def getLink : Act Link := fun s => (.ok s.link, s)

def letConnGo (s : System) : System :=
  { s with conns := s.conns.modify (s.conns.length - 1) fun c => { c with gone := some s.landed.length } }

def dropClient : Act Unit := Eff.modify fun s =>
  let s := if s.link.conn then letConnGo s else s
  { s with link := { s.link with conn := false, inbox := [] } }

/-- Whether the link restarted since the buffers were found. -/
def linkRestarted : Act Bool := fun s =>
  let was := s.link.generation
  let s := { s with link := { s.link with generation := some s.generation } }
  if was = none ∨ was = some s.generation then (.ok false, s)
  else (dropClient >>= fun _ => return true) { s with link := { s.link with buffers := none } }

/-- Buffers are taken where both lie in RDRAM; else the game is not running. -/
def accept (found : UInt32 × UInt32) : Act Bool := fun s =>
  if fits o s.console.rdramSize found.1 ∧ fits o s.console.rdramSize found.2 then
    (updateLink (fun l => { l with buffers := some found }) >>= fun _ => return false) s
  else (dropClient >>= fun _ => return false) s

def settle (r : List Bytes) : Act Bool := accept o (readBe32 (r.headD []) 0, readBe32 (r.headD []) 4)

def findBuffers : Act Bool := readMany o t.before t.readFails [(physical o.pointers, 8)] >>= settle o

/-- The last connection's record changed. -/
def updateConn (f : Conn → Conn) : Act Unit := Eff.modify fun s =>
  { s with conns := s.conns.modify (s.conns.length - 1) f }

def dial : Act Unit := fun s =>
  if t.dials then
    (.ok (), { s with link := { s.link with conn := true }, conns := s.conns ++ [⟨s.generation, [], [], none⟩] })
  else (.ok (), s)

/-- A send that fails has sent part of the packet. -/
def send (packet : Bytes) : Act Bool := do
  match t.cut with
  | none =>
    updateConn fun c => { c with received := c.received ++ packet }
    return true
  | some n =>
    updateConn fun c => { c with received := c.received ++ packet.take n }
    return false

/-- Whether a read gave bytes, and why the client is gone where it is. -/
def take (r : ReadResult) : Act (Except String Bool) := do
  match r with
  | .data [] => return .error "it closed the connection"
  | .data b =>
    updateConn fun c => { c with stream := c.stream ++ b }
    updateLink fun l => { l with inbox := l.inbox ++ b }
    return .ok true
  | .idle => return .ok false
  | .closed => return .error "it closed the connection"
  | .failed why => return .error ("reading from it failed: " ++ why)

/-- Reads up to one that gives nothing. -/
def drain : List ReadResult → Act (Except String Unit)
  | [] => return .ok ()
  | r :: rest => do
    match (← take r) with
    | .ok true => drain rest
    | .ok false => return .ok ()
    | .error why => return .error why

/-- What the client has sent, first waiting for some if asked to. -/
def receive (wait : Bool) (reads : List ReadResult) : Act (Except String Unit) := do
  match wait, reads with
  | true, r :: rest =>
    match (← take r) with
    | .ok _ => drain rest
    | .error why => return .error why
  | _, reads => drain reads

/-- A write the link restarted under is not an error here. -/
def writeAll (writes : List (Nat × Bytes)) : Act Unit := do
  if writes = [] then return ()
  else
    match (← Eff.attempt (writeMany o t.between t.writeFails writes)) with
    | .error .linkRestarted => return ()
    | .error e => Eff.fail e
    | .ok () => return ()

def replied (input : UInt32) (writes : List (Nat × Bytes)) (sent free : Bool) : Act Bool := do
  let inbox := (← getLink).inbox
  let len := packetLen inbox
  if free ∧ 4 ≤ inbox.length then
    if ¬(4 ≤ len ∧ len ≤ o.maxPacket) then
      dropClient
      writeAll o t writes
      return sent
    else if len ≤ inbox.length then
      updateLink fun l => { l with inbox := l.inbox.drop len }
      writeAll o t (writes ++ [(physical input, inbox.take len)])
      return true
    else
      writeAll o t writes
      return writes ≠ []
  else
    writeAll o t writes
    return writes ≠ []

def reply (input : UInt32) (writes : List (Nat × Bytes)) (sent free : Bool) : Act Bool := do
  match (← receive (sent && free) t.reads) with
  | .error _ =>
    dropClient
    writeAll o t writes
    return sent
  | .ok () => replied o t input writes sent free

def exchange (input output : UInt32) (out : Bytes) (free : Bool) : Act Bool := do
  if command out ≠ 0 then
    if ¬(4 ≤ packetLen out ∧ packetLen out ≤ o.maxPacket) then
      dropClient
      return false
    else if (← send t (out.take (packetLen out))) then reply o t input [(physical output + 2, [0, 0])] true free
    else
      dropClient
      return false
  else reply o t input [] false free

/-- Nothing to do until the ROM speaks. -/
def connected (input output : UInt32) (out : Bytes) (free : Bool) : Act Bool := do
  if (← getLink).conn then exchange o t input output out free else return false

/-- What a pass makes of the ROM's buffers, and of whether they are where they
were. -/
def seen (input output : UInt32) (r : List Bytes) : Act Bool := do
  let ptrs := r.getD 0 []
  let out := r.getD 1 []
  if (readBe32 ptrs 0, readBe32 ptrs 4) ≠ (input, output) then
    updateLink fun l => { l with buffers := none }
    dropClient
    return false
  else
    if ¬(← getLink).conn ∧ command out ≠ 0 then dial t
    connected o t input output out (command (r.getD 2 []) = 0)

/-- A link that restarted under the read has read another boot's. -/
def unlessRestarted (next : Act Bool) : Act Bool := do
  if (← linkRestarted) then return false else next

def look (input output : UInt32) : Act Bool :=
  readMany o t.before t.readFails [(physical o.pointers, 8), (physical output, o.maxPacket), (physical input, 4)] >>= fun r =>
    unlessRestarted (seen o t input output r)

/-- One look at the ROM, and whatever that lets through. -/
def pass : Act Bool := unlessRestarted do
  match (← getLink).buffers with
  | none => findBuffers o t
  | some (input, output) => look o t input output

end Pass

/-- Pass after pass, up to one that fails. -/
def serve (o : Options) : List Turn → System → System
  | [], s => s
  | t :: ts, s =>
    match pass o t s with
    | (.error _, s) => s
    | (.ok _, s) => serve o ts s

/-- A console with nothing published, and a relay that has seen nothing. -/
def start (rdramSize : Nat) (elsewhere : Store) : System where
  console := ⟨rdramSize, 0, none, [], [], [], elsewhere, fun _ => [], false⟩
  generation := 0
  link := ⟨none, false, [], none⟩
  conns := []
  landed := []

end Relay

end Multi64
