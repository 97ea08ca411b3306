import Mathlib
import Multi64.Transport

/-! The console through the daemon, `backend.rs`: retries and reconnects, the
ROM cache and its recheck, writes applied once, and the watch. -/

namespace Multi64

namespace World

def romPage : Nat := 1024

def romHeader : Nat := 0x40

def knownHeader (w : World) : Option Bytes := (w.host.romPages 0).map fun p => p.bytes.take romHeader

def setMissed (w : World) (missed : Bool) : World := { w with host := { w.host with missed := missed } }

/-- A new link: nothing read over the old one is trusted. -/
def relinked (w : World) : World :=
  { w with host := { w.host with
      romPages := fun _ => none, generation := w.host.generation + 1, missed := false } }

def unwatched (w : World) : World := { w with host := { w.host with watchOnCart := false } }

def forgetPokeOnce (w : World) : World := { w with t := { w.t with pokeOnce := false } }

def watchSet (w : World) (x : Watch) : World :=
  { w with
    host := { w.host with watch := some x, watchOnCart := false, watchArmedAt := none }
    led := { w.led with hist := { w.led.hist with live := false } } }

def watchArmed (w : World) : World :=
  { w with host := { w.host with watchArmedAt := some w.host.generation } }

def watchOnCart (w : World) (on : Bool) : World := { w with host := { w.host with watchOnCart := on } }

/-- Move what the responses brought back into the watch's queue. -/
def collect (w : World) : World :=
  { w with
    host := { w.host with watch := w.host.watch.map fun x =>
      (w.t.events.foldl (fun x e => x.pushEvent e.bytes) x).addDropped w.t.droppedNew }
    t := { w.t with events := [], droppedNew := 0 }
    led := { w.led with hist := { w.led.hist with collected := w.led.hist.collected ++ w.t.events } } }

def observe (w : World) (bytes : Bytes) : World :=
  { w with
    host := { w.host with watch := w.host.watch.map (·.observe bytes) }
    led := { w.led with hist := { w.led.hist with live := false } } }

def takeWatched (w : World) : World :=
  { w with
    host := { w.host with watch := w.host.watch.map fun x => x.take.2 }
    led := { w.led with hist := { w.led.hist with
      taken := w.led.hist.taken ++ (w.host.watch.bind fun x => x.take.1).toList } } }

def insertPage (w : World) (p : Nat) (b : RomBlock) : World :=
  { w with host := { w.host with romPages := Function.update w.host.romPages p (some b) } }

/-- `Multi64::connect` on a connection that was greeted. -/
def opened (w : World) : World :=
  { w with host := ⟨fun _ => none, 0, none, false, none, w.host.softRetries, false⟩ }

end World

section Batches

def checkIn (addr : UInt32) (len : Nat) (size : UInt32) : Except IoErr Unit :=
  if size.toNat < addr.toNat + len then .error (.invalidInput addr len size) else .ok ()

def plainRegion (addr : UInt32) (len : UInt16) : Region false := ⟨addr, len, [], rfl⟩

/-- A run of `len` bytes cut to the largest region a request carries. -/
def splitOne (addr : UInt32) : Nat → Nat → Nat → List (Region false)
  | 0, _, _ => []
  | fuel + 1, done, len =>
    if done < len then
      let take := min (len - done) m64pMaxRegionBytes
      plainRegion (addr + UInt32.ofNat done) (UInt16.ofNat take) :: splitOne addr fuel (done + take) len
    else []

def split (size : UInt32) : List (UInt32 × Nat) → Except IoErr (List (Region false) × List Nat)
  | [] => .ok ([], [])
  | (addr, len) :: rest => do
    checkIn addr len size
    let chunks := splitOne addr len 0 len
    let (more, counts) ← split size rest
    .ok (chunks ++ more, chunks.length :: counts)

def fits (batch : List (Region false)) (len : Nat) : Bool :=
  batch.length < m64pMaxRegions && totalLen batch + len ≤ m64pMaxTotalBytes

/-- Chunks packed into requests in their order, behind a started `batch`. -/
def batchesLoop (batch : List (Region false)) : List (Region false) → List (List (Region false))
  | [] => if batch = [] then [] else [batch]
  | c :: rest =>
    if batch.length = m64pMaxRegions ∨ m64pMaxTotalBytes < totalLen batch + c.len.toNat then
      batch :: batchesLoop [c] rest
    else batchesLoop (batch ++ [c]) rest

def batches (chunks : List (Region false)) : List (List (Region false)) := batchesLoop [] chunks

def stitch : List Bytes → List Nat → Except IoErr (List Bytes)
  | _, [] => .ok []
  | flat, n :: counts =>
    if flat.length < n then .error .fewerRegions
    else (stitch (flat.drop n) counts).map ((flat.take n).flatten :: ·)

def chunkWrite (addr : UInt32) : Nat → Bytes → List (UInt32 × Bytes)
  | 0, _ => []
  | fuel + 1, data =>
    if data = [] then []
    else
      (addr, data.take m64pMaxRegionBytes) ::
        chunkWrite (addr + UInt32.ofNat m64pMaxRegionBytes) fuel (data.drop m64pMaxRegionBytes)

def chunksOf (writes : List (UInt32 × Bytes)) : List (UInt32 × Bytes) :=
  writes.flatMap fun x => chunkWrite x.1 x.2.length x.2

def writtenBytes (chunks : List (UInt32 × Bytes)) : Nat := (chunks.map fun c => c.2.length).sum

def fitsOneRequest (chunks : List (UInt32 × Bytes)) : Bool :=
  chunks.length ≤ m64pMaxRegions && writtenBytes chunks ≤ m64pMaxTotalBytes

/-- Put one byte in, in address order; the last write to a byte wins. -/
def putByte (a : UInt32) (b : UInt8) : List (UInt32 × UInt8) → List (UInt32 × UInt8)
  | [] => [(a, b)]
  | (a', b') :: rest =>
    if a < a' then (a, b) :: (a', b') :: rest
    else if a = a' then (a, b) :: rest
    else (a', b') :: putByte a b rest

def putWrite (bytes : List (UInt32 × UInt8)) (w : UInt32 × Bytes) : List (UInt32 × UInt8) :=
  (w.2.zipIdx).foldl (fun bytes x => putByte (w.1 + UInt32.ofNat x.2) x.1 bytes) bytes

/-- Bytes in address order as runs, the last run first. -/
def runsOf (runs : List (UInt32 × Bytes)) (x : UInt32 × UInt8) : List (UInt32 × Bytes) :=
  match runs with
  | (start, run) :: rest =>
    if start + UInt32.ofNat run.length = x.1 then (start, run ++ [x.2]) :: rest else (x.1, [x.2]) :: runs
  | [] => [(x.1, [x.2])]

/-- The fewest contiguous runs with the same effect. -/
def coalesce (writes : List (UInt32 × Bytes)) : List (UInt32 × Bytes) :=
  ((writes.foldl putWrite []).foldl runsOf []).reverse

def writeBatches (batch : List (UInt32 × Bytes)) : List (UInt32 × Bytes) → List (List (UInt32 × Bytes))
  | [] => if batch = [] then [] else [batch]
  | c :: rest =>
    if batch.length = m64pMaxRegions ∨ m64pMaxTotalBytes < writtenBytes batch + c.2.length then
      batch :: writeBatches [c] rest
    else writeBatches (batch ++ [c]) rest

end Batches

namespace Backend

open Eff World Transport

section Retry

/-- What `with_retry` may do with a request that went unanswered. -/
inductive Retry where
  | resend | once
  deriving DecidableEq, Repr

def giveUp : Host Bool := do
  let w ← get
  pure w.stopped

def headerRegion : Region false := plainRegion 0 (UInt16.ofNat romHeader)

/-- Whether the cart still holds the ROM whose header is `known`. -/
def sameRom (known : Bytes) : Host Bool := do
  match ← attempt (peekRom [headerRegion]) with
  | .ok got => pure (got.head?.any fun h => h.bytes = known)
  | .error e => if (refused e).isSome then pure false else fail e

/-- Another ROM on the cart: carry on as on a link that restarted. -/
def romChanged : Host Unit := do
  match ← attempt connect with
  | .ok _ => do
    modify relinked
    modify unwatched
  | .error _ => do
    modify forgetPokeOnce
    modify relinked
    modify unwatched

/-- Whether the cart, answering again after a silence, still holds the ROM it
was read from. -/
def recheckRom : Host Unit := do
  let w ← get
  match w.knownHeader with
  | none => modify (·.setMissed false)
  | some known => do
    match ← attempt (sameRom known) with
    | .ok true => modify (·.setMissed false)
    | .ok false => romChanged
    | .error _ => pure ()

def answering : Host Unit := do
  let w ← get
  if w.host.missed then recheckRom else pure ()

variable {α S : Type}

/-- How the tries on the same link end: with a result, or with the error to
reconnect after. -/
inductive Soft (α S : Type) where
  | done (a : α)
  | broke (e : IoErr) (s : S)

/-- The first loop of `with_retry`. It waits for a busy bus at most `busy`
times and for a reply `left` times more, so it takes fewer turns than it is
called with. -/
def softLoop (op : S → Host (Except IoErr α × S)) : Nat → Nat → Nat → S → Host (Soft α S)
  | 0, _, _, s => pure (.broke .timedOut s)
  | n + 1, busy, left, s => do
    let (r, s) ← op s
    match r with
    | .ok v => do
      answering
      pure (.done v)
    | .error e =>
      if (refused e).isSome then do
        answering
        fail e
      else if e = .linkRestarted then do
        romChanged
        answering
        fail e
      else if e = .wouldBlock ∧ busy ≠ 0 then do
        waitUnless
        if ← giveUp then fail .cancelled else softLoop op n (busy - 1) left s
      else if e = .timedOut ∧ left ≠ 0 then do
        modify (·.setMissed true)
        if ← giveUp then fail .cancelled else softLoop op n busy (left - 1) s
      else pure (.broke e s)

/-- The second loop of `with_retry`: `n` more tries fit before the deadline. -/
def reconnectLoop (retry : Retry) (op : S → Host (Except IoErr α × S)) (s : S) : Nat → Host α
  | 0 => fail .gaveUp
  | n + 1 => do
    if ← giveUp then fail .cancelled
    else do
      waitUnless
      match ← attempt connect with
      | .error _ => reconnectLoop retry op s n
      | .ok _ => do
        modify relinked
        if ← giveUp then fail .cancelled
        else do
          modify unwatched
          match retry with
          | .once => do
            answering
            fail .linkRestarted
          | .resend => do
            let (r, s) ← op s
            match r with
            | .ok v => do
              answering
              pure v
            | .error e =>
              if (refused e).isSome then do
                answering
                fail e
              else reconnectLoop retry op s n

/-- Run `op`, riding out a silent or busy agent, then rebuilding the
transport. `op` keeps its own state from one try to the next. -/
def withRetry (retry : Retry) (op : S → Host (Except IoErr α × S)) (s : S) : Host α := do
  let w ← get
  match ← softLoop op (w.patience + w.host.softRetries + 1) w.patience w.host.softRetries s with
  | .done v => pure v
  | .broke _ s => reconnectLoop retry op s w.patience

/-- A request asked the same way each time. -/
def each (m : Host α) (s : Unit) : Host (Except IoErr α × Unit) := do
  let r ← attempt m
  pure (r, s)

end Retry

section Watch

def collectEvents : Host Unit := do
  let w ← get
  if w.host.watchOnCart then modify collect else pure ()

/-- Is the agent answering right now? -/
def alive : Host Bool := do
  match ← attempt (peek [plainRegion 0 4]) with
  | .ok _ => do
    collectEvents
    answering
    pure true
  | .error _ => do
    modify (·.setMissed true)
    pure false

/-- The slot the agent is asked to watch. -/
def watchSlot (x : Watch) : Slot :=
  ⟨x.addr, UInt8.ofNat x.len, UInt8.ofNat ((x.filter.map Filter.at_).getD 0),
    (x.filter.map Filter.values).getD []⟩

def armWatch : Host Unit := do
  let w ← get
  match w.host.watch with
  | none => pure ()
  | some x =>
    if w.t.watchSlots.getD 0 = 0 then modify watchArmed
    else do
      match ← attempt (withRetry .resend (each (Transport.watch [watchSlot x])) ()) with
      | .ok n => do
        modify (·.watchOnCart (0 < n))
        modify watchArmed
      | .error e =>
        if (refused e).isSome then do
          modify watchArmed
          fail e
        else fail e

def setWatch (x : Watch) : Host Unit := do
  modify (·.watchSet x)
  let _ ← attempt armWatch
  pure ()

def takeWatched : Host (Option Bytes) := do
  let w ← get
  modify World.takeWatched
  pure (w.host.watch.bind fun x => x.take.1)

def sampleWatch : Host Unit := do
  let w ← get
  if w.host.watchOnCart then pure ()
  else
    match w.host.watch with
    | none => pure ()
    | some x => do
      let done ← withRetry .resend (each (peek [plainRegion x.addr (UInt16.ofNat x.len)])) ()
      match done with
      | [] => pure ()
      | bytes :: _ => modify (·.observe bytes)

end Watch

section Read

/-- The probe of a watched slot that rides on `batch`. -/
def probeOf (w : World) (batch : List (Region false)) : Option (Region false) :=
  if w.host.watchOnCart then none
  else
    w.host.watch.bind fun x =>
      if fits batch x.len then some (plainRegion x.addr (UInt16.ofNat x.len)) else none

def readBatch (batch : List (Region false)) : Host (List Bytes) := do
  let w ← get
  let probe := probeOf w batch
  let done ← withRetry .resend (each (peek (batch ++ probe.toList))) ()
  match probe with
  | none => do
    collectEvents
    pure done
  | some _ => do
    modify (·.observe (done.getLast?.getD []))
    collectEvents
    pure done.dropLast

def readBatches : List (List (Region false)) → Host (List Bytes)
  | [] => pure []
  | batch :: rest => do
    let done ← readBatch batch
    let more ← readBatches rest
    pure (done ++ more)

def lift {α : Type} (r : Except IoErr α) : Host α :=
  match r with
  | .ok a => pure a
  | .error e => fail e

def rearm : Host Unit := do
  let w ← get
  if w.host.watch.isSome ∧ w.host.watchArmedAt ≠ some w.host.generation then do
    let _ ← attempt armWatch
    pure ()
  else pure ()

def readMany (regions : List (UInt32 × Nat)) : Host (List Bytes) := do
  rearm
  let w ← get
  let (chunks, counts) ← lift (split w.t.rdramBytes regions)
  let flat ← readBatches (batches chunks)
  lift (stitch flat counts)

end Read

section Rom

def insertPages : List (Region false × RomBlock) → Host Unit
  | [] => pure ()
  | (r, b) :: rest => do
    modify (·.insertPage (r.addr.toNat / romPage) b)
    insertPages rest

def fillBatches : List (List (Region false)) → Host Unit
  | [] => pure ()
  | batch :: rest => do
    let got ← withRetry .resend (each (peekRom batch)) ()
    insertPages (batch.zip got)
    fillBatches rest

def fillRomPages (pages : List Nat) : Host Unit := do
  let w ← get
  let missing := (pages.filter fun p => (w.host.romPages p).isNone).map fun p =>
    plainRegion (UInt32.ofNat (p * romPage)) (UInt16.ofNat romPage)
  fillBatches (batches missing)

/-- The pages a region lies in. -/
def pagesOf (r : UInt32 × Nat) : List Nat :=
  if r.2 = 0 then []
  else
    let first := r.1.toNat / romPage
    let last := (r.1.toNat + r.2 - 1) / romPage
    (List.range (last + 1 - first)).map (first + ·)

def checkWindow (window : UInt32) (regions : List (UInt32 × Nat)) : Except IoErr Unit :=
  regions.forM fun r => checkIn r.1 r.2 window

/-- The bytes from `at_` to `end_`, out of the cache. -/
def cachedBytes (pages : Nat → Option RomBlock) : Nat → Nat → Nat → Option Bytes
  | 0, _, _ => some []
  | fuel + 1, at_, end_ =>
    if at_ < end_ then
      let off := at_ % romPage
      let take := min (end_ - at_) (romPage - off)
      (pages (at_ / romPage)).bind fun page =>
        (cachedBytes pages fuel (at_ + take) end_).map (slice page.bytes off take ++ ·)
    else some []

def readRomMany (regions : List (UInt32 × Nat)) : Host (List Bytes) := do
  let w ← get
  match w.t.romBytes with
  | none => fail .noPeekrom
  | some window => do
    lift (checkWindow window regions)
    fillRomPages ((regions.flatMap pagesOf).insertionSort (· ≤ ·)).dedup
    let w' ← get
    if w'.host.generation ≠ w.host.generation then fail .linkRestarted
    else
      match regions.mapM fun r => cachedBytes w'.host.romPages r.2 r.1.toNat (r.1.toNat + r.2) with
      | some out => pure out
      | none => fail .fewerRegions

end Rom

section Write

/-- A `POKEV` sent again, behind a look at the ROM header when one is
known. -/
def pokeAgain (batch : List (UInt32 × Bytes)) (known : Option Bytes) (k : Ticket) : Host Unit := do
  match known with
  | none => resendPoke k batch
  | some known => do
    if ← sameRom known then resendPoke k batch else fail .linkRestarted

/-- One try of `poke_once`. The ticket of the write, once it was sent, is kept
from try to try. -/
def pokeTry (batch : List (UInt32 × Bytes)) (known : Option Bytes) (sent : Option Ticket) :
    Host (Except IoErr Unit × Option Ticket) := do
  match sent with
  | none => do
    match ← attempt (sendPoke batch) with
    | .error e => pure (.error e, none)
    | .ok k => do
      let r ← attempt (awaitPoke k batch.length)
      pure (r, some k)
  | some k => do
    let w ← get
    if w.t.pokeOnce then do
      match ← attempt (pokeAgain batch known k) with
      | .error e => pure (.error e, some k)
      | .ok _ => do
        let r ← attempt (awaitPoke k batch.length)
        pure (r, some k)
    else do
      let r ← attempt (awaitPoke k batch.length)
      pure (r, some k)

/-- One `POKEV`, applied at most once. -/
def pokeOnce (batch : List (UInt32 × Bytes)) : Host Unit :=
  if batch = [] then pure ()
  else do
    let w ← get
    withRetry .once (pokeTry batch w.knownHeader) none

def pokeAll : List (List (UInt32 × Bytes)) → Host Unit
  | [] => pure ()
  | batch :: rest => do
    pokeOnce batch
    pokeAll rest

def checkWrites (size : UInt32) (writes : List (UInt32 × Bytes)) : Except IoErr Unit :=
  writes.forM fun x => checkIn x.1 x.2.length size

/-- The chunks a batch of writes goes out as: merged if that fits one request,
in the client's order if not. -/
def writeChunks (writes : List (UInt32 × Bytes)) : List (UInt32 × Bytes) :=
  let merged := chunksOf (coalesce writes)
  if fitsOneRequest merged then merged else chunksOf writes

def writeMany (writes : List (UInt32 × Bytes)) : Host Unit := do
  let w ← get
  lift (checkWrites w.t.rdramBytes writes)
  pokeAll (writeBatches [] (writeChunks writes))

end Write

section Session

inductive Call where
  | alive
  | readMany (regions : List (UInt32 × Nat))
  | readRomMany (regions : List (UInt32 × Nat))
  | writeMany (writes : List (UInt32 × Bytes))
  | setWatch (x : Watch)
  | takeWatched
  | sampleWatch
  | idle

/-- A call, its result dropped. -/
def Call.run : Call → Host Unit
  | .alive => do let _ ← Backend.alive
  | .readMany regions => do let _ ← attempt (Backend.readMany regions)
  | .readRomMany regions => do let _ ← attempt (Backend.readRomMany regions)
  | .writeMany writes => do let _ ← attempt (Backend.writeMany writes)
  | .setWatch x => Backend.setWatch x
  | .takeWatched => do let _ ← Backend.takeWatched
  | .sampleWatch => do let _ ← attempt Backend.sampleWatch
  | .idle => waitUnless

def runCalls : List Call → Host Unit
  | [] => pure ()
  | c :: rest => do
    c.run
    runCalls rest

/-- A console that is on, a daemon, and no connection yet. -/
def start (cart : Cart) (status : Option DaemonStatus) (patience softRetries : Nat) (sched : List Event) :
    World where
  sched := sched
  cart := cart
  toCart := []
  toHost := []
  t := .fresh 0
  parked := none
  host := ⟨fun _ => none, 0, none, false, none, softRetries, false⟩
  status := status
  patience := patience
  stopped := false
  issued := 0
  led := {
    issues := fun _ => ⟨0, 0, []⟩
    lastSent := 0
    accepted := []
    answeredBy := cart.rom
    stored := []
    acked := []
    unanswered := false
    stage := .up
    hist := ⟨0, [], 0, false, [], false, [], 0, [], []⟩
    terms := ⟨true, true, true, true, true, true, true⟩ }

/-- `Multi64::connect`, and then calls in any order. -/
def session (calls : List Call) : Host Unit := do
  connect
  modify opened
  runCalls calls

end Session

end Backend

end Multi64
