import Multi64.HostCodec
import Multi64.HostWatch

/-! One cart link: the cartridge and its agent at one end, the host at the
other, requests and replies in flight, and the schedule of what happens while
the host waits. The ledger is what a run is judged by; the code does not read
it. -/

namespace Multi64

section Data

/-- A rid, and which of all requests it stands for. -/
structure Ticket where
  rid : UInt16
  tag : Nat
  deriving DecidableEq, Repr

structure Sent where
  tag : Nat
  bytes : Bytes
  deriving DecidableEq, Repr

/-- A reply in flight, with the request the agent served and the ROM the agent
was in. -/
structure Reply where
  tag : Nat
  request : Bytes
  bytes : Bytes
  rom : Nat
  history : Nat
  deriving DecidableEq, Repr

/-- The cartridge. `roms` are the images that may be booted. -/
structure Cart where
  roms : Nat → Hooks
  rom : Nat
  agent : MemProto
  awake : Bool

/-- What happens while the host waits. The last five are what the wait itself
comes to. -/
inductive Event where
  | frame (byte : Nat → UInt8)
  | serve
  | loseRequest
  | loseReply
  | deliver
  | reset (rom : Nat) (ram : Rdram)
  | wake
  | stop
  | quick
  | timeout
  | closed
  | refuse
  | resume

structure Outstanding where
  ticket : Ticket
  app : Bytes
  mayCopy : Bool
  copied : Bool
  deriving DecidableEq, Repr

/-- A connection, `Multi64Transport`. `inbox` is what it received and did not
read; `base` is how many requests were issued before it. -/
structure Transport where
  inbox : List Reply
  nextRid : UInt16
  rdramBytes : UInt32
  writable : Bool
  pokeOnce : Bool
  romBytes : Option UInt32
  watchSlots : Option UInt8
  events : List WatchEvent
  droppedSeen : UInt16
  droppedNew : Nat
  wholeRequests : Bool
  rttSamples : Nat
  outstanding : Option Outstanding
  base : Nat

inductive CartKind where
  | sc64 | ed64 | ed64pro
  deriving DecidableEq, Repr

structure DaemonStatus where
  serialActive : Option Bool
  cart : Option CartKind

/-- A piece of ROM read from the cart, and the ROM it was read from. -/
structure RomBlock where
  bytes : Bytes
  rom : Nat
  deriving DecidableEq, Repr

/-- The fields of `Multi64` besides its transport. -/
structure HostState where
  romPages : Nat → Option RomBlock
  generation : Nat
  watch : Option Watch
  watchOnCart : Bool
  watchArmedAt : Option Nat
  softRetries : Nat
  missed : Bool

/-- A request that took a rid: its connection, by its `base`, and what was
sent under it. -/
structure Issue where
  base : Nat
  rid : UInt16
  body : Bytes

structure Accepted where
  want : Nat
  asked : Bytes
  reply : Reply
  deriving DecidableEq, Repr

/-- The watch on the cart since the agent last started one over, and what the
host made of it. `armTag` is the last `WATCH` sent, `reached` that its reply
was read, and `live` that it was taken as the answer. -/
structure WatchHistory where
  number : Nat
  admitted : List WatchEvent
  armTag : Nat
  reached : Bool
  kept : List WatchEvent
  live : Bool
  before : List Bytes
  droppedBefore : Nat
  collected : List WatchEvent
  taken : List Bytes

/-- How far the exchange of `HELLO` has come. -/
inductive Stage where
  | up | opened | sent | acked
  deriving DecidableEq, Repr

/-- What held of every step so far. -/
structure Terms where
  helloClear : Bool
  window : Bool
  copyClear : Bool
  holdFresh : Bool
  dropsClear : Bool
  bootMissed : Bool
  steady : Bool
  deriving DecidableEq, Repr

structure Ledger where
  issues : Nat → Issue
  lastSent : Nat
  accepted : List Accepted
  answeredBy : Nat
  stored : List Nat
  acked : List Nat
  unanswered : Bool
  stage : Stage
  hist : WatchHistory
  terms : Terms

structure World where
  sched : List Event
  cart : Cart
  toCart : List Sent
  toHost : List Reply
  t : Transport
  parked : Option Transport
  host : HostState
  status : Option DaemonStatus
  patience : Nat
  stopped : Bool
  issued : Nat
  led : Ledger

end Data

section Message

def isHello (p : Bytes) : Bool := byteAt p 4 = M64pMsg.hello.code

def isHelloAck (p : Bytes) : Bool := byteAt p 4 = M64pMsg.helloAck.code

def isPoke (p : Bytes) : Bool := byteAt p 4 = M64pMsg.pokev.code

/-- Requests that make the agent start its watch over. -/
def isArm (p : Bytes) : Bool := isHello p || byteAt p 4 = M64pMsg.watch.code

end Message

section Cart

def Cart.hooks (c : Cart) : Hooks := c.roms c.rom

/-- Whether the agent holds a write under the rid of `p`. -/
def Cart.holds (c : Cart) (p : Bytes) : Bool :=
  c.hooks.pokeOnce && c.agent.held.map Prod.fst = some (readBe16 p 5)

/-- Whether serving `p`, which left the agent in `s'`, stored its writes. -/
def Cart.stores (c : Cart) (p : Bytes) (s' : MemProto) : Bool :=
  isPoke p && s'.errors = c.agent.errors && !c.holds p

/-- An agent that has just booted. -/
def bootProto (s : MemProto) (ram : Rdram) : MemProto :=
  ⟨ram, [], s.events.clear, 0, 0, 0, 0, 0, 0, none⟩

/-- The reply to request `tag` was read, and brought `events` back. -/
def WatchHistory.noted (h : WatchHistory) (tag : Nat) (events : List WatchEvent) : WatchHistory :=
  if tag = h.armTag ∧ tag ≠ 0 then { h with reached := true, kept := [] }
  else { h with kept := h.kept ++ events }

/-- The changes one tick admits. -/
def tickEvents (ram : Rdram) : Nat → List WatchSlot → List WatchEvent
  | _, [] => []
  | i, w :: ws => (watchSlotTick ram i w).2.toList ++ tickEvents ram (i + 1) ws

end Cart

namespace World

/-- A game frame: the game leaves `byte` in RDRAM and the agent looks. -/
def frame (w : World) (byte : Nat → UInt8) : World :=
  if w.cart.awake then
    let s := { w.cart.agent with ram := { w.cart.agent.ram with byte := byte } }
    { w with
      cart := { w.cart with agent := m64pWatchTick s }
      led := { w.led with
        hist := { w.led.hist with admitted := w.led.hist.admitted ++ tickEvents s.ram 0 s.watch } } }
  else w

/-- The agent answered `p` with `bytes` and is in `s'`. -/
def answer (w : World) (p : Sent) (s' : MemProto) (bytes : Bytes) : World :=
  let hist :=
    if isArm p.bytes && s'.errors = w.cart.agent.errors then
      { w.led.hist with number := w.led.hist.number + 1, admitted := [] }
    else w.led.hist
  { w with
    cart := { w.cart with agent := s' }
    toCart := w.toCart.tail
    toHost := w.toHost ++ [⟨p.tag, p.bytes, bytes, w.cart.rom, hist.number⟩]
    led := { w.led with
      hist := hist
      stored := if w.cart.stores p.bytes s' then p.tag :: w.led.stored else w.led.stored } }

/-- The agent serves the oldest request. -/
def serve (w : World) : World :=
  match w.toCart with
  | [] => w
  | p :: rest =>
    if w.cart.awake then
      match m64pHandle w.cart.hooks w.cart.agent p.bytes with
      | .ok (some (s', bytes)) => w.answer p s' bytes
      | _ => { w with toCart := rest }
    else w

/-- The oldest reply reaches every open connection. -/
def deliver (w : World) : World :=
  match w.toHost with
  | [] => w
  | r :: rest =>
    { w with
      toHost := rest
      t := { w.t with inbox := w.t.inbox ++ [r] }
      parked := w.parked.map fun t => { t with inbox := t.inbox ++ [r] } }

def reset (w : World) (rom : Nat) (ram : Rdram) : World :=
  { w with
    cart := { w.cart with rom := rom, agent := bootProto w.cart.agent ram, awake := false }
    led := { w.led with
      unanswered := false
      terms := { w.led.terms with steady := false }
      hist := { w.led.hist with
        number := w.led.hist.number + 1, admitted := [], armTag := 0, reached := false, live := false } } }

/-- A console that was reset runs its agent again. -/
def wake (w : World) : World :=
  { w with
    cart := { w.cart with awake := true }
    led := { w.led with
      terms := { w.led.terms with
        bootMissed := w.led.terms.bootMissed && (w.cart.awake || w.led.unanswered) } } }

def happen (w : World) : Event → World
  | .frame byte => w.frame byte
  | .serve => w.serve
  | .loseRequest => { w with toCart := w.toCart.tail }
  | .loseReply => { w with toHost := w.toHost.tail }
  | .deliver => w.deliver
  | .reset rom ram => w.reset rom ram
  | .wake => w.wake
  | .stop => { w with stopped := true }
  | .quick | .timeout | .closed | .refuse | .resume => w

def pop (w : World) : World := { w with sched := w.sched.tail }

end World

end Multi64
