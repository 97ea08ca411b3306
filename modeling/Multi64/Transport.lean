import Multi64.Lib.Effect
import Multi64.World

/-! The host's connection, `transport.rs`: rids, requests and their early
copies, and the wait for a reply. The schedule says what a wait comes to. -/

namespace Multi64

inductive IoErr where
  | timedOut
  | wouldBlock
  | refused (rid : UInt16) (code : UInt8)
  | linkRestarted
  | invalidInput (addr : UInt32) (len : Nat) (size : UInt32)
  | noSerialLink
  | connect
  | proto (proto : UInt8)
  | encode (e : M64pError)
  | wsSend
  | wsRead
  | badPayload (e : M64pError)
  | wrongReply (got : Response)
  | regionCount (asked got : Nat)
  | regionLength (asked : UInt16) (addr : UInt32) (got : Nat)
  | noPeekrom
  | readOnly
  | notResent
  | applied (sent : Nat) (applied : UInt8)
  | fewerRegions
  | cancelled
  | gaveUp
  deriving DecidableEq, Repr

def refused : IoErr → Option UInt8
  | .refused _ code => some code
  | _ => none

abbrev Host := Eff IoErr World

section Want

/-- The response a wait is for. -/
inductive Want where
  | hello
  | rid (k : Ticket)
  deriving DecidableEq, Repr

def Want.matches : Want → Response → Bool
  | .hello, .helloAck .. => true
  | .hello, _ => false
  | .rid k, resp => resp.rid = some k.rid

end Want

/-- What a `PEEKV_RESP` brought back from the watch. -/
def Response.events : Response → List WatchEvent
  | .peekV _ _ events _ => events
  | _ => []

def Response.dropped : Response → UInt16
  | .peekV _ _ _ dropped => dropped
  | _ => 0

namespace Transport

def keepWatchTrailer (t : Transport) (resp : Response) : Transport :=
  { t with
    events := t.events ++ resp.events
    droppedNew := t.droppedNew + (resp.dropped.toNat - t.droppedSeen.toNat)
    droppedSeen := max t.droppedSeen resp.dropped }

def answered (t : Transport) (k : Ticket) : Transport :=
  match t.outstanding with
  | none => t
  | some o =>
    if o.ticket.rid = k.rid then
      { t with
        outstanding := none
        rttSamples := if o.copied then t.rttSamples else t.rttSamples + 1 }
    else t

def quickCopySamples : Nat := 8

/-- Whether the request sent as `k` may go again early. How long the agent has
been quiet is the schedule's to say. -/
def quickCopyAt (t : Transport) (k : Ticket) : Bool :=
  t.wholeRequests && quickCopySamples ≤ t.rttSamples &&
    t.outstanding.any fun o => o.ticket.rid = k.rid && o.mayCopy && !o.copied

def fresh (base : Nat) : Transport :=
  ⟨[], 1, 0, false, false, none, none, [], 0, 0, false, 0, none, base⟩

end Transport

namespace World

/-- `0` is no request's rid. -/
def ridSucc (rid : UInt16) : UInt16 := if rid + 1 = 0 then 1 else rid + 1

/-- The tags of what is in flight, `HELLO` and its answer apart. -/
def inFlight (w : World) : List Nat :=
  ((w.t.inbox ++ w.toHost).filter fun r => !isHelloAck r.bytes).map Reply.tag ++
    (w.toCart.filter fun p => !isHello p.bytes).map Sent.tag

def window : Nat := 65535

def issue (w : World) : World :=
  { w with
    issued := w.issued + 1
    t := { w.t with nextRid := ridSucc w.t.nextRid }
    led := { w.led with
      issues := Function.update w.led.issues (w.issued + 1) ⟨w.t.base, w.t.nextRid, []⟩
      terms := { w.led.terms with
        window := w.led.terms.window && w.inFlight.all fun tag => w.issued + 1 < tag + window } } }

/-- Request `k` goes out for the first time. -/
def send (w : World) (k : Ticket) (app : Bytes) (mayCopy : Bool) : World :=
  { w with
    toCart := w.toCart ++ [⟨k.tag, app⟩]
    t := { w.t with outstanding := some ⟨k, app, mayCopy, false⟩ }
    led := { w.led with
      issues := Function.update w.led.issues k.tag { w.led.issues k.tag with body := app }
      lastSent := k.tag
      hist := if isArm app then { w.led.hist with armTag := k.tag, reached := false, live := false } else w.led.hist
      terms := { w.led.terms with
        holdFresh := w.led.terms.holdFresh && (!isPoke app || !w.cart.holds app) } } }

/-- Request `k` goes out again. -/
def copy (w : World) (k : Ticket) (app : Bytes) : World :=
  { w with
    toCart := w.toCart ++ [⟨k.tag, app⟩]
    led := { w.led with
      lastSent := k.tag
      terms := { w.led.terms with
        copyClear := w.led.terms.copyClear && (!isPoke app || w.led.lastSent = k.tag)
        window := w.led.terms.window && w.issued < k.tag + window } } }

def markCopied (w : World) : World :=
  { w with t := { w.t with outstanding := w.t.outstanding.map fun o => { o with copied := true } } }

def copyOutstanding (w : World) : World :=
  match w.t.outstanding with
  | none => w
  | some o => w.copy o.ticket o.app

/-- What the host makes of the reply it reads next. -/
inductive Heard where
  | nothing
  | skipped
  | bad (e : M64pError)
  | got (resp : Response)

def heard (want : Want) (r : Reply) : Heard :=
  match parse r.bytes with
  | .ok resp => if want.matches resp then .got resp else .skipped
  | .error .notM64p => .skipped
  | .error (.echoedRequest _) => .skipped
  | .error e => .bad e

/-- Take `r` as the response `want` is for. -/
def accept (w : World) (want : Want) (r : Reply) : World :=
  match want with
  | .hello => { w with led := { w.led with stage := .acked } }
  | .rid k =>
    { w with
      t := w.t.answered k
      led := { w.led with
        answeredBy := r.rom
        accepted := w.led.accepted ++ [⟨k.tag, (w.led.issues k.tag).body, r⟩]
        terms := { w.led.terms with window := w.led.terms.window && w.issued < k.tag + window } } }

/-- Read the oldest reply received. -/
def read (w : World) (want : Want) : World :=
  match w.t.inbox with
  | [] => w
  | r :: rest =>
    match parse r.bytes with
    | .error _ => { w with t := { w.t with inbox := rest } }
    | .ok resp =>
      let w := { w with
        t := { w.t with inbox := rest }.keepWatchTrailer resp
        led := { w.led with hist := w.led.hist.noted r.tag resp.events } }
      if want.matches resp then w.accept want r else w

def unanswered (w : World) : World := { w with led := { w.led with unanswered := true } }

/-- `WATCH` `k` was acknowledged. -/
def armed (w : World) (k : Ticket) : World :=
  { w with
    t := { w.t with events := [], droppedSeen := 0 }
    led := { w.led with
      hist := { w.led.hist with
        live := decide (w.led.hist.armTag = k.tag)
        before := (w.host.watch.map Watch.queue).getD []
        droppedBefore := (w.host.watch.map fun x => x.stats.dropped).getD 0
        collected := []
        taken := [] }
      terms := { w.led.terms with
        dropsClear := w.led.terms.dropsClear && w.t.droppedNew = 0 &&
          w.host.watch.all fun x => x.len < 0x100 } } }

def acknowledged (w : World) (k : Ticket) : World :=
  { w with led := { w.led with acked := k.tag :: w.led.acked } }

/-- Park the open connection and start one, with nothing sent on it. -/
def greet (w : World) : World :=
  { w with parked := some w.t, t := .fresh w.issued, led := { w.led with stage := .opened } }

def sendHello (w : World) : World :=
  { w with
    toCart := w.toCart ++ [⟨0, encodeHello⟩]
    led := { w.led with
      lastSent := 0
      stage := .sent
      hist := { w.led.hist with armTag := 0, reached := false, live := false }
      terms := { w.led.terms with
        helloClear := w.led.terms.helloClear &&
          !(w.toCart.any (isHello ·.bytes) || (w.t.inbox ++ w.toHost).any (isHelloAck ·.bytes)) } } }

/-- What the `HELLO_ACK` said of the agent, over a cart of kind `cart`. -/
def greeted (w : World) (rdramBytes : UInt32) (flags : UInt8) (romBytes : Option UInt32)
    (watchSlots : Option UInt8) (cart : Option CartKind) : World :=
  let whole : Bool := cart = some .sc64
  { w with t := { w.t with
      rdramBytes := rdramBytes
      writable := flags &&& m64pFlagWritable ≠ 0
      wholeRequests := whole
      pokeOnce := flags &&& m64pFlagPokeOnce ≠ 0 && whole
      romBytes := romBytes
      watchSlots := watchSlots } }

def keep (w : World) : World := { w with parked := none, led := { w.led with stage := .up } }

def restore (w : World) : World :=
  { w with t := w.parked.getD w.t, parked := none, led := { w.led with stage := .up } }

end World

namespace Transport

open Eff World

section Wait

def nextEvent : Host (Option Event) := do
  let w ← get
  modify pop
  pure w.sched.head?

def hear (want : Want) : Host Heard := do
  let w ← get
  match w.t.inbox with
  | [] => pure .nothing
  | r :: _ => do
    modify (·.read want)
    pure (heard want r)

/-- Read up to `n` replies, until the one wanted. -/
def drain (want : Want) : Nat → Host (Option Response)
  | 0 => pure none
  | n + 1 => do
    match ← hear want with
    | .nothing => pure none
    | .skipped => drain want n
    | .bad e => fail (.badPayload e)
    | .got (.err rid code) => fail (.refused rid code)
    | .got resp => pure (some resp)

def sendApp (push : World → World) : Host Unit := do
  let w ← get
  match w.sched.head? with
  | some .closed => do
    modify pop
    fail .wsSend
  | _ => modify push

/-- Send the request waiting for its answer again, byte for byte. -/
def sendQuickCopy : Host Unit := do
  let w ← get
  match w.t.outstanding with
  | none => pure ()
  | some _ => do
    modify markCopied
    sendApp copyOutstanding

def timeOut (want : Want) : Host Response := do
  match want with
  | .hello => fail .timedOut
  | .rid _ => do
    modify unanswered
    fail .timedOut

/-- The loop of `await_response`; `quick` is whether an early copy is still
due. Every turn takes an event, so it is called with more turns than there
are events. -/
def awaitLoop (want : Want) : Nat → Bool → Host Response
  | 0, _ => timeOut want
  | n + 1, quick => do
    let w ← get
    match ← drain want w.t.inbox.length with
    | some resp => pure resp
    | none => do
      match ← nextEvent with
      | none => timeOut want
      | some .timeout => timeOut want
      | some .closed => fail .wsRead
      | some .quick =>
        if quick then do
          sendQuickCopy
          awaitLoop want n false
        else awaitLoop want n quick
      | some e => do
        modify (·.happen e)
        awaitLoop want n quick

def awaitResponse (want : Want) : Host Response := do
  let w ← get
  awaitLoop want (w.sched.length + 1)
    (match want with
      | .hello => false
      | .rid k => w.t.quickCopyAt k)

/-- Sleep until the schedule resumes. -/
def sleepLoop : Nat → Host Unit
  | 0 => pure ()
  | n + 1 => do
    match ← nextEvent with
    | none => pure ()
    | some .resume => pure ()
    | some e => do
      modify (·.happen e)
      sleepLoop n

def waitUnless : Host Unit := do
  let w ← get
  sleepLoop w.sched.length

end Wait

section Requests

def rid : Host Ticket := do
  let w ← get
  modify issue
  pure ⟨w.t.nextRid, w.issued + 1⟩

def encoded (e : Except M64pError Bytes) : Host Bytes :=
  match e with
  | .ok app => pure app
  | .error e => fail (.encode e)

def sendRequest (k : Ticket) (app : Bytes) (mayCopy : Bool) : Host Unit :=
  sendApp (·.send k app mayCopy)

/-- A reply holds a block for every region asked for, each as long as asked. -/
def checkRegions (asked : List (Region false)) (got : List Bytes) : Host Unit :=
  if got.length ≠ asked.length then fail (.regionCount asked.length got.length)
  else
    match (asked.zip got).find? fun x => x.2.length ≠ x.1.len.toNat with
    | some (r, block) => fail (.regionLength r.len r.addr block.length)
    | none => pure ()

def peek (regions : List (Region false)) : Host (List Bytes) :=
  if regions = [] then pure []
  else do
    let k ← rid
    let app ← encoded (encodePeekv k.rid regions)
    sendRequest k app true
    match ← awaitResponse (.rid k) with
    | .peekV _ got _ _ => do
      checkRegions regions got
      pure got
    | resp => fail (.wrongReply resp)

def watch (slots : List Slot) : Host UInt8 := do
  let k ← rid
  let app ← encoded (encodeWatch k.rid slots)
  -- Never twice: the agent starts its watch over on each WATCH.
  sendRequest k app false
  match ← awaitResponse (.rid k) with
  | .watchAck _ watching => do
    modify (·.armed k)
    pure watching
  | resp => fail (.wrongReply resp)

def peekRom (regions : List (Region false)) : Host (List RomBlock) :=
  if regions = [] then pure []
  else do
    let w ← get
    if w.t.romBytes = none then fail .noPeekrom
    else do
      let k ← rid
      let app ← encoded (encodePeekrom k.rid regions)
      sendRequest k app true
      match ← attempt (awaitResponse (.rid k)) with
      | .ok (.peekRom _ got) => do
        checkRegions regions got
        let w ← get
        pure (got.map (⟨·, w.led.answeredBy⟩))
      | .ok resp => fail (.wrongReply resp)
      | .error e => if refused e = some M64pErr.busy.code then fail .wouldBlock else fail e

def sendPoke (writes : List (UInt32 × Bytes)) : Host Ticket := do
  let w ← get
  if !w.t.writable then fail .readOnly
  else do
    let k ← rid
    let app ← encoded (encodePokev k.rid writes)
    sendRequest k app w.t.pokeOnce
    pure k

def resendPoke (k : Ticket) (writes : List (UInt32 × Bytes)) : Host Unit := do
  let w ← get
  if !w.t.pokeOnce then fail .notResent
  else do
    let app ← encoded (encodePokev k.rid writes)
    sendApp (·.copy k app)

def awaitPoke (k : Ticket) (count : Nat) : Host Unit := do
  match ← awaitResponse (.rid k) with
  | .pokeAck _ applied =>
    if applied.toNat ≠ count then fail (.applied count applied)
    else modify (·.acknowledged k)
  | resp => fail (.wrongReply resp)

/-- Exchange `HELLO` on the fresh connection. -/
def hello : Host Unit := do
  sendApp sendHello
  let w ← get
  match ← awaitResponse .hello with
  | .helloAck proto _ rdramBytes flags romBytes watchSlots =>
    if proto ≠ 0 then fail (.proto proto)
    else modify (·.greeted rdramBytes flags romBytes watchSlots (w.status.bind DaemonStatus.cart))
  | resp => fail (.wrongReply resp)

/-- `Multi64Transport::connect`. The open connection stays until the new one
is greeted. -/
def connect : Host Unit := do
  let w ← get
  if w.status.bind DaemonStatus.serialActive = some false then fail .noSerialLink
  else
    match w.sched.head? with
    | some .refuse => do
      modify pop
      fail .connect
    | _ => do
      modify greet
      match ← attempt hello with
      | .ok _ => modify keep
      | .error e => do
        modify restore
        fail e

end Requests

end Transport

end Multi64
