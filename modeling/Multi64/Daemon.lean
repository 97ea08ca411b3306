import Multi64.Lib.Bytes
import Multi64.Lib.History

/-! Who has the cart's port, from `multi64d`: the cart reader, the WebSocket
writes and the release and resume requests, each under the lock of the link. -/

namespace Multi64

namespace Daemon

/-- An open pipe is known by how many were opened before it. -/
inductive LinkState where
  | active (pipe : Nat)
  | released
  | faulted
  deriving DecidableEq

inductive Status where
  | ok
  | internalServerError
  | serviceUnavailable
  deriving DecidableEq

inductive Actor where
  | reader (mayReopen : Bool)
  | client (message : Bytes)
  | release
  | resume
  deriving DecidableEq

inductive Opener where
  | startup
  | reader
  | resume (w : Nat)
  deriving DecidableEq

/-- The port may not open, or open and fail behind that. -/
inductive Opening where
  | refused
  | failed
  | ready

inductive Reading where
  | data (bytes : Bytes)
  | empty
  | lost
  | failed

/-- Which of the steps of `write_with_write_timeout` fails. -/
inductive Writing where
  | unset
  | cut (sent : Nat)
  | unrestored
  | ok

structure Outcome where
  opening : Opening
  reading : Reading
  writing : Writing

inductive ReadChunk where
  | data (bytes : Bytes)
  | empty
  | released
  | retryOpen (reachedDevice : Bool)
  | backingOff

/-- What happens to the link and its port, and what is answered. -/
inductive Entry where
  | took (w : Nat) (a : Actor)
  | opened (by_ : Opener) (pipe : Nat)
  | read (pipe : Nat)
  | wrote (pipe : Nat) (message : Bytes) (sent : Nat)
  | closed (pipe : Nat)
  | released (w : Nat)
  | resumed (w : Nat)
  | answered (w : Nat) (s : Status)
  deriving DecidableEq

/-- How much of a message goes out, and whether the link is kept. -/
def writeWithWriteTimeout (message : Bytes) : Writing → Nat × Bool
  | .unset => (0, false)
  | .cut sent => (min sent message.length, false)
  | .unrestored => (message.length, false)
  | .ok => (message.length, true)

end Daemon

open Daemon

structure Daemon where
  link : LinkState
  opens : Nat
  arrivals : Nat
  waiting : List (Nat × Actor)
  /-- What a handler that is done with the link is to answer. -/
  served : List (Nat × Status)
  trace : List Entry

namespace Daemon

inductive Event where
  | arrive (a : Actor)
  | expire (w : Nat)
  | abandon (w : Nat)
  | take (w : Nat) (o : Outcome)
  | answer (w : Nat)

variable (d : Daemon)

def note (e : Entry) : Daemon := { d with trace := d.trace ++ [e] }

/-- A pipe that is dropped closes the port. -/
def drop_ : Daemon :=
  match d.link with
  | .active pipe => d.note (.closed pipe)
  | _ => d

def openPipe (by_ : Opener) : Opening → Daemon × Bool
  | .refused => (d, false)
  | .failed => (({ d with opens := d.opens + 1 }.note (.opened by_ d.opens)).note (.closed d.opens), false)
  | .ready => ({ d with link := .active d.opens, opens := d.opens + 1 }.note (.opened by_ d.opens), true)

def readOnce (mayReopen : Bool) (o : Outcome) : Daemon × Option ReadChunk :=
  match d.link with
  | .released => (d, some .released)
  | .faulted =>
    if !mayReopen then (d, some .backingOff)
    else
      let opened := d.openPipe .reader o.opening
      (opened.1, some (if opened.2 then .empty else .retryOpen (o.opening matches .failed)))
  | .active pipe =>
    let d := d.note (.read pipe)
    match o.reading with
    | .data bytes => (d, some (if bytes = [] then .empty else .data bytes))
    | .empty | .lost => (d, some .empty)
    | .failed => ({ d.drop_ with link := .faulted }, none)

def writeToLink (message : Bytes) (o : Outcome) : Daemon :=
  match d.link with
  | .released | .faulted => d
  | .active pipe =>
    let wrote := writeWithWriteTimeout message o.writing
    let d := d.note (.wrote pipe message wrote.1)
    if wrote.2 then d else { d.drop_ with link := .faulted }

def postSerialRelease (w : Nat) : Daemon :=
  { d.drop_ with link := .released, served := (w, .ok) :: d.served }.note (.released w)

def postSerialResume (w : Nat) (o : Outcome) : Daemon :=
  match d.link with
  | .active _ => { d with served := (w, .ok) :: d.served }
  | _ =>
    let opened := d.openPipe (.resume w) o.opening
    if opened.2 then { opened.1 with served := (w, .ok) :: d.served }.note (.resumed w)
    else { opened.1 with served := (w, .internalServerError) :: d.served }

/-- What is done under the lock. -/
def act (w : Nat) (o : Outcome) : Actor → Daemon
  | .reader mayReopen => (d.readOnce mayReopen o).1
  | .client message => d.writeToLink message o
  | .release => d.postSerialRelease w
  | .resume => d.postSerialResume w o

def leave (w : Nat) : Daemon := { d with waiting := d.waiting.filter fun x => x.1 ≠ w }

/-- Whoever waits takes the lock, in any order. A request gives its wait up when
it runs out, or when its client goes. -/
def step : Event → Daemon
  | .arrive a => { d with arrivals := d.arrivals + 1, waiting := d.waiting ++ [(d.arrivals, a)] }
  | .expire w =>
    if (w, .release) ∈ d.waiting ∨ (w, .resume) ∈ d.waiting then (d.leave w).note (.answered w .serviceUnavailable)
    else d
  | .abandon w =>
    if (w, .release) ∈ d.waiting ∨ (w, .resume) ∈ d.waiting then d.leave w
    else { d with served := d.served.filter fun x => x.1 ≠ w }
  | .take w o =>
    match d.waiting.find? (·.1 = w) with
    | some (_, a) => ((d.leave w).note (.took w a)).act w o a
    | none => d
  | .answer w =>
    match d.served.find? (·.1 = w) with
    | some (_, s) => { d with served := d.served.filter fun x => x.1 ≠ w }.note (.answered w s)
    | none => d

def run (events : List Event) : Daemon := events.foldl step d

/-- The daemon comes up faulted where the port does not open. -/
def start (opening : Opening) : Daemon :=
  (openPipe ⟨.faulted, 0, 0, [], [], []⟩ .startup opening).1

/-- Whether an entry opens, reads or writes the port. -/
def Entry.Touches : Entry → Prop
  | .opened _ _ | .read _ | .wrote _ _ _ => True
  | _ => False

/-- Whether an entry is a request with the link. -/
def Entry.Acts (w : Nat) : Entry → Prop
  | .took v _ | .released v | .resumed v | .opened (.resume v) _ => v = w
  | _ => False

/-- The messages of the writes that took the lock, in that order. -/
def messages (t : List Entry) : List Bytes :=
  t.filterMap fun
    | .took _ (.client message) => some message
    | _ => none

/-- What was written on a pipe, and how much of it went out. -/
def writesOn (pipe : Nat) (t : List Entry) : List (Bytes × Nat) :=
  t.filterMap fun
    | .wrote p message sent => if p = pipe then some (message, sent) else none
    | _ => none

def sentOn (pipe : Nat) (t : List Entry) : Bytes := (writesOn pipe t).flatMap fun x => x.1.take x.2

end Daemon

end Multi64
