import Multi64.Ed64Pipe
import Multi64.Sc64Link

/-! The host's pipe from an SC64, `Sc64L2Pipe` of `sc64-l2`, and the packets of
its wire, `wire.rs`: over any way the serial port cuts the cart's bytes, what is
read is what a scan of those bytes finds, but a packet behind a `PKT G` waits
for the next bytes. -/

namespace Multi64

structure PktPacket where
  id : UInt8
  data : Bytes
  deriving DecidableEq

inductive WireEvent where
  | cmp (r : CmpResponse)
  | pkt (p : PktPacket)
  deriving DecidableEq

def maxCmpDataLen : Nat := 0x08000000

def maxPktDataLen : Nat := 4 + 0x00FFFFFF

def tagCmp : Bytes := [0x43, 0x4D, 0x50]

def tagErr : Bytes := [0x45, 0x52, 0x52]

def tagPkt : Bytes := [0x50, 0x4B, 0x54]

/-- The data length of the header in front, where a packet can have it. -/
def headerDataLen (b : Bytes) : Option Nat :=
  let len := (readBe32 b 4).toNat
  if b.take 3 = tagCmp ∨ b.take 3 = tagErr then (if len ≤ maxCmpDataLen then some len else none)
  else if b.take 3 = tagPkt then (if len ≤ maxPktDataLen then some len else none)
  else none

def eventAt (b : Bytes) (len : Nat) : WireEvent :=
  if b.take 3 = tagPkt then .pkt ⟨byteAt b 3, slice b 8 len⟩ else .cmp ⟨b.take 3 = tagCmp, byteAt b 3, slice b 8 len⟩

/-- The next packet, and what is left. A header no packet can have is skipped. -/
def nextEvent : Bytes → Option WireEvent × Bytes
  | [] => (none, [])
  | x :: rest =>
    if (x :: rest).length < 8 then (none, x :: rest)
    else
      match headerDataLen (x :: rest) with
      | none => nextEvent rest
      | some len =>
        if (x :: rest).length < 8 + len then (none, x :: rest)
        else (some (eventAt (x :: rest) len), (x :: rest).drop (8 + len))

/-- The L3 bytes of a `PKT U`. -/
def pktUMulti64L3Payload (data : Bytes) : Option Bytes :=
  if data.length < 4 then none
  else if byteAt data 0 ≠ multi64L3Type then none
  else
    let len := (byteAt data 1).toNat * 0x10000 + (byteAt data 2).toNat * 0x100 + (byteAt data 3).toNat
    if data.length < 4 + len then none else some (slice data 4 len)

inductive Sc64PipeError where
  | connectionReset (text : String)
  | port (why : String)
  deriving DecidableEq

/-- What an event comes to: `U` carries bytes, `G` is an error. -/
def eventBytes : WireEvent → Except String Bytes
  | .cmp _ => .ok []
  | .pkt p =>
    if p.id = 0x55 then .ok ((pktUMulti64L3Payload p.data).getD [])
    else if p.id = 0x47 then .error "SC64 DATA_FLUSHED (PC USB_WRITE not acknowledged by N64 in time)"
    else .ok []

def processEventsFuel : Nat → Bytes → Bytes → Except String Unit × Bytes × Bytes
  | 0, wire, l3Rx => (.ok (), wire, l3Rx)
  | fuel + 1, wire, l3Rx =>
    match nextEvent wire with
    | (none, wire) => (.ok (), wire, l3Rx)
    | (some ev, wire) =>
      match eventBytes ev with
      | .ok l3 => processEventsFuel fuel wire (l3Rx ++ l3)
      | .error e => (.error e, wire, l3Rx)

def processWireEvents (wire l3Rx : Bytes) : Except String Unit × Bytes × Bytes :=
  processEventsFuel (wire.length + 1) wire l3Rx

structure Sc64L2Pipe where
  wire : Bytes
  l3Rx : Bytes
  pendingErr : Option String

def Sc64L2Pipe.open : Sc64L2Pipe := ⟨[], [], none⟩

namespace Sc64L2Pipe

variable (p : Sc64L2Pipe) (room : Nat)

def receive (b : Bytes) : Sc64L2Pipe :=
  match processWireEvents (p.wire ++ b) p.l3Rx with
  | (.ok (), wire, l3Rx) => { p with wire := wire, l3Rx := l3Rx }
  | (.error e, wire, l3Rx) => { p with wire := wire, l3Rx := l3Rx, pendingErr := some e }

def handOut : Option (Except Sc64PipeError Bytes × Sc64L2Pipe) :=
  if p.l3Rx ≠ [] then some (.ok (p.l3Rx.take room), { p with l3Rx := p.l3Rx.drop room })
  else
    match p.pendingErr with
    | some e => some (.error (.connectionReset e), { p with pendingErr := none })
    | none => none

/-- The loop of `read_l3_bytes`, over the reads of the port to come. With none
left the port times out. -/
def readLoop : List PortGot → Sc64L2Pipe → Except Sc64PipeError Bytes × List PortGot × Sc64L2Pipe
  | reads, p =>
    match p.handOut room with
    | some (r, p) => (r, reads, p)
    | none =>
      match reads with
      | [] => (.ok [], [], p)
      | .data [] :: reads => (.ok [], reads, p)
      | .data b :: reads => readLoop reads (p.receive b)
      | .timedOut :: reads => (.ok [], reads, p)
      | .failed why :: reads => (.error (.port why), reads, p)

def readL3Bytes (reads : List PortGot) : Except Sc64PipeError Bytes × List PortGot × Sc64L2Pipe :=
  if room = 0 then (.ok [], reads, p) else p.readLoop room reads

/-- Calls with buffers of these sizes, one after another. -/
def readAll : List Nat → List PortGot → Sc64L2Pipe → List (Except Sc64PipeError Bytes) × List PortGot × Sc64L2Pipe
  | [], reads, p => ([], reads, p)
  | room :: rooms, reads, p =>
    let r := p.readL3Bytes room reads
    let rest := readAll rooms r.2.1 r.2.2
    (r.1 :: rest.1, rest.2)

end Sc64L2Pipe

section Look

variable {b b' t : Bytes} {ev : WireEvent} {n : Nat}

def eventLook (b : Bytes) : Look WireEvent :=
  if b.length < 8 then .wait 0
  else
    match headerDataLen b with
    | none => .skip 1
    | some len => if b.length < 8 + len then .wait 0 else .emit (eventAt b len) (8 + len)

theorem headerDataLen_append (h : 8 ≤ b.length) (t : Bytes) : headerDataLen (b ++ t) = headerDataLen b := by
  unfold headerDataLen
  rw [readBe32_append_left (by omega), List.take_append_of_le_length (by omega)]

theorem eventAt_append {len : Nat} (h : 8 + len ≤ b.length) (t : Bytes) : eventAt (b ++ t) len = eventAt b len := by
  unfold eventAt
  rw [List.take_append_of_le_length (by omega), byteAt_append_left (by omega), slice_append_left h]

/-- A look waits for all it holds, or is sure. -/
theorem eventLook_cases (b : Bytes) : eventLook b = .wait 0 ∨
    (headerDataLen b = none ∧ 8 ≤ b.length ∧ ∀ t, eventLook (b ++ t) = .skip 1) ∨
    ∃ len, headerDataLen b = some len ∧ 8 + len ≤ b.length ∧ ∀ t, eventLook (b ++ t) = .emit (eventAt b len) (8 + len) := by
  unfold eventLook
  by_cases h8 : b.length < 8
  · exact .inl (if_pos h8)
  rw [if_neg h8]
  have h8' (t : Bytes) : ¬(b ++ t).length < 8 := by
    rw [List.length_append]
    omega
  have hhead (t : Bytes) := headerDataLen_append (b := b) (by omega) t
  cases hlen : headerDataLen b with
  | none =>
    refine .inr (.inl ⟨rfl, by omega, fun t => ?_⟩)
    rw [if_neg (h8' t), hhead, hlen]
  | some len =>
    simp only
    by_cases hwhole : b.length < 8 + len
    · exact .inl (if_pos hwhole)
    · refine .inr (.inr ⟨len, rfl, by omega, fun t => ?_⟩)
      rw [if_neg (h8' t), hhead, hlen]
      simp only
      rw [if_neg (by rw [List.length_append]; omega), eventAt_append (by omega)]

theorem eventLook_sure {l : Look WireEvent} (h : ∀ t, eventLook (b ++ t) = l) : eventLook b = l := by
  have hb := h []
  rwa [List.append_nil] at hb

theorem eventLook_wait (h : eventLook b = .wait n) : n = 0 := by
  rcases eventLook_cases b with hw | ⟨_, _, hsure⟩ | ⟨len, _, _, hsure⟩
  · rw [hw] at h
    exact (Look.wait.inj h).symm
  · rw [eventLook_sure hsure] at h
    nomatch h
  · rw [eventLook_sure hsure] at h
    nomatch h

theorem eventLook_skip (h : eventLook b = .skip n) : n = 1 ∧ 8 ≤ b.length ∧ ∀ t, eventLook (b ++ t) = .skip n := by
  rcases eventLook_cases b with hw | ⟨_, h8, hsure⟩ | ⟨len, _, _, hsure⟩
  · rw [hw] at h
    nomatch h
  · rw [eventLook_sure hsure] at h
    obtain rfl := Look.skip.inj h
    exact ⟨rfl, h8, hsure⟩
  · rw [eventLook_sure hsure] at h
    nomatch h

theorem eventLook_emit (h : eventLook b = .emit ev n) : 8 ≤ n ∧ n ≤ b.length ∧ ∀ t, eventLook (b ++ t) = .emit ev n := by
  rcases eventLook_cases b with hw | ⟨_, _, hsure⟩ | ⟨len, _, hle, hsure⟩
  · rw [hw] at h
    nomatch h
  · rw [eventLook_sure hsure] at h
    nomatch h
  · rw [eventLook_sure hsure] at h
    obtain ⟨rfl, rfl⟩ := Look.emit.inj h
    exact ⟨by omega, hle, hsure⟩

theorem eventLook_progress : Progress eventLook := by
  constructor
  · intro b n h
    obtain ⟨rfl, h8, _⟩ := eventLook_skip h
    omega
  · intro b ev n h
    obtain ⟨h8, hle, _⟩ := eventLook_emit h
    omega

theorem eventLook_stable : Stable eventLook where
  toProgress := eventLook_progress
  wait_append h t := by rw [eventLook_wait h, List.drop_zero]
  skip_append h t := by
    obtain ⟨_, h8, hsure⟩ := eventLook_skip h
    rw [eventLook_progress.scan_skip (hsure t), List.drop_append_of_le_length (eventLook_progress.skip h).2]
  emit_append h t := (eventLook_emit h).2.2 t

/-- What the code takes is what a scan finds first. -/
theorem nextEvent_scan (b : Bytes) :
    (∃ b', nextEvent b = (none, b') ∧ scan eventLook b = ([], b') ∧ scan eventLook b' = ([], b')) ∨
      ∃ ev b', nextEvent b = (some ev, b') ∧ b'.length < b.length ∧
        scan eventLook b = (ev :: (scan eventLook b').1, (scan eventLook b').2) := by
  induction b with
  | nil => exact .inl ⟨[], rfl, eventLook_progress.scan_nil, eventLook_progress.scan_nil⟩
  | cons x rest ih =>
    have hwait (h : eventLook (x :: rest) = .wait 0) : scan eventLook (x :: rest) = ([], x :: rest) := scan_wait h
    unfold nextEvent
    by_cases h8 : (x :: rest).length < 8
    · rw [if_pos h8]
      have hl : eventLook (x :: rest) = .wait 0 := by rw [eventLook, if_pos h8]
      exact .inl ⟨_, rfl, hwait hl, hwait hl⟩
    rw [if_neg h8]
    cases hlen : headerDataLen (x :: rest) with
    | none =>
      have hl : eventLook (x :: rest) = .skip 1 := by rw [eventLook, if_neg h8, hlen]
      have hscan : scan eventLook (x :: rest) = scan eventLook rest := eventLook_progress.scan_skip hl
      rcases ih with ⟨b', hnext, hscan', hheld⟩ | ⟨ev, b', hnext, hlt, hscan'⟩
      · exact .inl ⟨b', hnext, hscan.trans hscan', hheld⟩
      · exact .inr ⟨ev, b', hnext, Nat.lt_succ_of_lt hlt, hscan.trans hscan'⟩
    | some len =>
      simp only
      by_cases hwhole : (x :: rest).length < 8 + len
      · rw [if_pos hwhole]
        have hl : eventLook (x :: rest) = .wait 0 := by
          rw [eventLook, if_neg h8, hlen]
          exact if_pos hwhole
        exact .inl ⟨_, rfl, hwait hl, hwait hl⟩
      · rw [if_neg hwhole]
        have hl : eventLook (x :: rest) = .emit (eventAt (x :: rest) len) (8 + len) := by
          rw [eventLook, if_neg h8, hlen]
          exact if_neg hwhole
        refine .inr ⟨_, _, rfl, ?_, eventLook_progress.scan_emit hl⟩
        rw [List.length_drop]
        omega

/-- The code's pass over the wire is a drain of it. -/
theorem processEventsFuel_drained {fuel : Nat} {b : Bytes} (hfuel : b.length < fuel) (q : Bytes) :
    ∃ r, Drained eventLook eventBytes b r ∧
      processEventsFuel fuel b q = ((match r.2.1 with | some e => .error e | none => .ok ()), r.2.2, q ++ r.1) := by
  induction fuel generalizing b q with
  | zero => omega
  | succ fuel ih =>
    unfold processEventsFuel
    rcases nextEvent_scan b with ⟨b', hnext, hscan, hheld⟩ | ⟨ev, b', hnext, hlt, hscan⟩
    · rw [hnext]
      exact ⟨_, .wait hscan hheld, by rw [List.append_nil]⟩
    · rw [hnext]
      simp only
      cases hev : eventBytes ev with
      | error e => exact ⟨_, .error hscan hev, by rw [List.append_nil]⟩
      | ok l3 =>
        obtain ⟨r, hr, hrun⟩ := ih (b := b') (by omega) (q ++ l3)
        refine ⟨_, .emit hscan hev hr, ?_⟩
        simp only
        rw [hrun, List.append_assoc]

end Look

section Reading

/-- What has come in. -/
def PortGot.bytes : PortGot → Bytes
  | .data b => b
  | _ => []

def sc64Telling : Except Sc64PipeError Bytes → List (UInt8 ⊕ String)
  | .ok b => b.map .inl
  | .error (.connectionReset text) => [.inr text]
  | .error (.port _) => []

/-- Nothing behind a `PKT G` carries bytes. -/
def NoneBehind (told : List (UInt8 ⊕ String)) : Prop := told.Pairwise fun a b => a.isRight → b.isRight

/-- What one read leaves of what is held. -/
def heldThen (held : Bytes) : PortGot → Bytes
  | .data [] => held
  | .data b => (processWireEvents (held ++ b) []).2.1
  | _ => held

/-- No read brings a packet with bytes behind a `PKT G` that is still unparsed. -/
def Ahead : Bytes → List PortGot → Prop
  | _, [] => True
  | held, got :: reads => NoneBehind (tellAll eventLook eventBytes (held ++ got.bytes)) ∧ Ahead (heldThen held got) reads

variable {p : Sc64L2Pipe} {sent : Bytes} {out : List (UInt8 ⊕ String)} {room : Nat}

theorem processEventsFuel_queue (fuel : Nat) (b q : Bytes) : processEventsFuel fuel b q =
    ((processEventsFuel fuel b []).1, (processEventsFuel fuel b []).2.1, q ++ (processEventsFuel fuel b []).2.2) := by
  induction fuel generalizing b q with
  | zero => simp only [processEventsFuel, List.append_nil]
  | succ fuel ih =>
    unfold processEventsFuel
    obtain ⟨ev, b'⟩ := nextEvent b
    cases ev with
    | none => simp only [List.append_nil]
    | some ev =>
      simp only
      cases eventBytes ev with
      | error e => simp only [List.append_nil]
      | ok l3 =>
        simp only [List.nil_append]
        rw [ih b' (q ++ l3), ih b' l3, List.append_assoc]

/-- What the pipe has told of the bytes `sent`. -/
abbrev Sc64L2Pipe.Follows (p : Sc64L2Pipe) (sent : Bytes) (out : List (UInt8 ⊕ String)) : Prop :=
  Carries eventLook eventBytes sent out p.l3Rx p.pendingErr p.wire

theorem handOut_told (hf : p.Follows sent out) {r : Except Sc64PipeError Bytes} {p' : Sc64L2Pipe} (hr : p.handOut room = some (r, p')) :
    p'.Follows sent (out ++ sc64Telling r) ∧ p'.wire = p.wire ∧ (0 < room → r ≠ .ok []) := by
  unfold Sc64L2Pipe.handOut at hr
  by_cases hqueue : p.l3Rx ≠ []
  · rw [if_pos hqueue] at hr
    obtain ⟨rfl, rfl⟩ := Prod.mk.inj (Option.some.inj hr)
    refine ⟨hf.handOut room, rfl, fun hroom hnil => ?_⟩
    rcases List.take_eq_nil_iff.mp (Except.ok.inj hnil) with hzero | hempty
    · omega
    · exact hqueue hempty
  · rw [if_neg hqueue] at hr
    cases hpending : p.pendingErr with
    | none =>
      rw [hpending] at hr
      nomatch hr
    | some e =>
      rw [hpending] at hr
      obtain ⟨rfl, rfl⟩ := Prod.mk.inj (Option.some.inj hr)
      unfold Sc64L2Pipe.Follows at hf
      rw [not_not.mp hqueue, hpending] at hf
      refine ⟨?_, rfl, fun _ => nofun⟩
      unfold Sc64L2Pipe.Follows
      rw [not_not.mp hqueue]
      exact hf.raise

theorem handOut_empty (hr : p.handOut room = none) : p.l3Rx = [] ∧ p.pendingErr = none := by
  unfold Sc64L2Pipe.handOut at hr
  by_cases hqueue : p.l3Rx ≠ []
  · rw [if_pos hqueue] at hr
    nomatch hr
  · rw [if_neg hqueue] at hr
    refine ⟨not_not.mp hqueue, ?_⟩
    cases hpending : p.pendingErr with
    | none => rfl
    | some e =>
      rw [hpending] at hr
      nomatch hr

/-- Bytes taken in while there is nothing to hand out. -/
theorem receive_told (hf : p.Follows sent out) (hqueue : p.l3Rx = []) (hpending : p.pendingErr = none) (b : Bytes) :
    (p.receive b).Follows (sent ++ b) out ∧ (p.receive b).wire = (processWireEvents (p.wire ++ b) []).2.1 := by
  obtain ⟨r, hr, hrun⟩ := processEventsFuel_drained (Nat.lt_succ_self (p.wire ++ b).length) []
  unfold Sc64L2Pipe.Follows at hf
  rw [hqueue, hpending] at hf
  have hafter := (hf.receive eventLook_stable b).drain hr
  unfold Sc64L2Pipe.receive processWireEvents
  rw [processEventsFuel_queue, hrun, hqueue]
  obtain ⟨xs, err, rest⟩ := r
  cases err with
  | none =>
    refine ⟨?_, rfl⟩
    unfold Sc64L2Pipe.Follows
    simp only [hpending, List.nil_append]
    exact hafter
  | some e => exact ⟨hafter, rfl⟩

/-- What one parse leaves holds no bytes, where none are behind a `PKT G`. -/
theorem NoneBehind.left {b : Bytes} (h : NoneBehind (tellAll eventLook eventBytes b)) {x : UInt8 ⊕ String}
    (hx : x ∈ tellAll eventLook eventBytes (processWireEvents b []).2.1) : x.isRight := by
  obtain ⟨r, hr, hrun⟩ := processEventsFuel_drained (Nat.lt_succ_self b.length) []
  have hwire : (processWireEvents b []).2.1 = r.2.2 := by rw [processWireEvents, hrun]
  rw [hwire] at hx
  unfold NoneBehind at h
  rw [hr.tells] at h
  cases herr : r.2.1 with
  | none =>
    rw [tellAll_nil (by rw [hr.done herr])] at hx
    nomatch hx
  | some e =>
    rw [herr] at h
    refine (List.pairwise_append.mp h).2.2 (.inr e) ?_ x hx rfl
    rw [Option.toList_some, List.map_singleton]
    exact List.mem_append_right _ (List.mem_singleton_self _)

/-- Nothing that is held carries bytes. -/
def Sc64L2Pipe.Delivered (p : Sc64L2Pipe) : Prop := ∀ x ∈ tellAll eventLook eventBytes p.wire, x.isRight = true

/-- What a call comes to. -/
structure Sc64Answers (sent : Bytes) (out : List (UInt8 ⊕ String)) (p : Sc64L2Pipe) (reads : List PortGot)
    (r : Except Sc64PipeError Bytes × List PortGot × Sc64L2Pipe) : Prop where
  used : ∃ used, reads = used ++ r.2.1 ∧ r.2.2.Follows (sent ++ used.flatMap PortGot.bytes) (out ++ sc64Telling r.1)
  ahead : Ahead p.wire reads → p.Delivered → Ahead r.2.2.wire r.2.1 ∧ r.2.2.Delivered
  idle : r.1 = .ok [] → r.2.2.l3Rx = [] ∧ r.2.2.pendingErr = none

/-- A read that brings no bytes ends the call. -/
theorem Sc64Answers.quiet (hf : p.Follows sent out) (hempty : p.l3Rx = [] ∧ p.pendingErr = none) (reads : List PortGot) {got : PortGot}
    {r : Except Sc64PipeError Bytes} (hgot : got.bytes = []) (hr : sc64Telling r = []) :
    Sc64Answers sent out p (got :: reads) (r, reads, p) := by
  refine ⟨⟨[got], rfl, ?_⟩, fun hahead hd => ⟨?_, hd⟩, fun _ => hempty⟩
  · rw [List.flatMap_singleton, hgot, hr, List.append_nil, List.append_nil]
    exact hf
  · have hheld : heldThen p.wire got = p.wire := by
      cases got with
      | data b =>
        obtain rfl : b = [] := hgot
        rfl
      | timedOut => rfl
      | failed why => rfl
    have htail := hahead.2
    rw [hheld] at htail
    exact htail

theorem sc64ReadLoop_answers (hroom : 0 < room) (hf : p.Follows sent out) (reads : List PortGot) :
    Sc64Answers sent out p reads (p.readLoop room reads) := by
  induction reads generalizing sent p with
  | nil =>
    unfold Sc64L2Pipe.readLoop
    cases hfirst : p.handOut room with
    | some r =>
      obtain ⟨hf', hwire, hdata⟩ := handOut_told hf hfirst
      refine ⟨⟨[], rfl, ?_⟩, fun _ hd => ⟨trivial, ?_⟩, fun hnil => absurd hnil (hdata hroom)⟩
      · rw [List.flatMap_nil, List.append_nil]
        exact hf'
      · unfold Sc64L2Pipe.Delivered at hd ⊢
        rw [hwire]
        exact hd
    | none =>
      refine ⟨⟨[], rfl, ?_⟩, fun hahead hd => ⟨hahead, hd⟩, fun _ => handOut_empty hfirst⟩
      rw [List.flatMap_nil, List.append_nil, sc64Telling, List.map_nil, List.append_nil]
      exact hf
  | cons got reads ih =>
    unfold Sc64L2Pipe.readLoop
    cases hfirst : p.handOut room with
    | some r =>
      obtain ⟨hf', hwire, hdata⟩ := handOut_told hf hfirst
      refine ⟨⟨[], rfl, ?_⟩, fun hahead hd => ?_, fun hnil => absurd hnil (hdata hroom)⟩
      · rw [List.flatMap_nil, List.append_nil]
        exact hf'
      · unfold Sc64L2Pipe.Delivered at hd ⊢
        simp only [hwire]
        exact ⟨hahead, hd⟩
    | none =>
      have hempty := handOut_empty hfirst
      cases got with
      | timedOut => exact .quiet hf hempty reads rfl rfl
      | failed why => exact .quiet hf hempty reads rfl rfl
      | data b =>
        cases b with
        | nil => exact .quiet hf hempty reads rfl rfl
        | cons y b =>
          obtain ⟨hf', hwire⟩ := receive_told hf hempty.1 hempty.2 (y :: b)
          obtain ⟨⟨used, hused, htold⟩, hahead, hidle⟩ := ih hf'
          refine ⟨⟨.data (y :: b) :: used, congrArg _ hused, ?_⟩, fun hall _ => ?_, hidle⟩
          · rw [List.flatMap_cons, ← List.append_assoc]
            exact htold
          · obtain ⟨hnone, hrest⟩ := hall
            have hnext : Ahead (p.receive (y :: b)).wire reads := by
              rw [hwire]
              exact hrest
            have hdelivered : (p.receive (y :: b)).Delivered := fun x hx => by
              rw [hwire] at hx
              exact hnone.left hx
            exact hahead hnext hdelivered

theorem sc64ReadL3Bytes_answers (room : Nat) (hf : p.Follows sent out) (reads : List PortGot) :
    (∃ used, reads = used ++ (p.readL3Bytes room reads).2.1 ∧
      (p.readL3Bytes room reads).2.2.Follows (sent ++ used.flatMap PortGot.bytes) (out ++ sc64Telling (p.readL3Bytes room reads).1)) ∧
    (Ahead p.wire reads → p.Delivered →
      Ahead (p.readL3Bytes room reads).2.2.wire (p.readL3Bytes room reads).2.1 ∧ (p.readL3Bytes room reads).2.2.Delivered) ∧
    (0 < room → (p.readL3Bytes room reads).1 = .ok [] →
      (p.readL3Bytes room reads).2.2.l3Rx = [] ∧ (p.readL3Bytes room reads).2.2.pendingErr = none) := by
  unfold Sc64L2Pipe.readL3Bytes
  by_cases hzero : room = 0
  · rw [if_pos hzero]
    refine ⟨⟨[], rfl, ?_⟩, fun hahead hd => ⟨hahead, hd⟩, fun hroom => absurd hzero (Nat.ne_of_gt hroom)⟩
    rw [List.flatMap_nil, List.append_nil, sc64Telling, List.map_nil, List.append_nil]
    exact hf
  · rw [if_neg hzero]
    obtain ⟨hused, hahead, hidle⟩ := sc64ReadLoop_answers (Nat.pos_of_ne_zero hzero) hf reads
    exact ⟨hused, hahead, fun _ => hidle⟩

theorem sc64ReadAll_follows (hf : p.Follows sent out) (rooms : List Nat) (reads : List PortGot) :
    (∃ used, reads = used ++ (p.readAll rooms reads).2.1 ∧
      (p.readAll rooms reads).2.2.Follows (sent ++ used.flatMap PortGot.bytes) (out ++ (p.readAll rooms reads).1.flatMap sc64Telling)) ∧
    (Ahead p.wire reads → p.Delivered →
      Ahead (p.readAll rooms reads).2.2.wire (p.readAll rooms reads).2.1 ∧ (p.readAll rooms reads).2.2.Delivered) := by
  induction rooms generalizing sent out reads p with
  | nil =>
    refine ⟨⟨[], rfl, ?_⟩, fun hahead hd => ⟨hahead, hd⟩⟩
    rw [Sc64L2Pipe.readAll, List.flatMap_nil, List.flatMap_nil, List.append_nil, List.append_nil]
    exact hf
  | cons room rooms ih =>
    obtain ⟨⟨used, hused, hf'⟩, hahead, _⟩ := sc64ReadL3Bytes_answers room hf reads
    obtain ⟨⟨used', hused', hf''⟩, hahead'⟩ := ih hf' (p.readL3Bytes room reads).2.1
    refine ⟨⟨used ++ used', ?_, ?_⟩, fun hall hd => ?_⟩
    · rw [List.append_assoc]
      exact hused.trans (congrArg (used ++ ·) hused')
    · rw [List.flatMap_append, ← List.append_assoc, Sc64L2Pipe.readAll, List.flatMap_cons, ← List.append_assoc]
      exact hf''
    · obtain ⟨hrest, hd'⟩ := hahead hall hd
      exact hahead' hrest hd'

theorem sc64Open_follows : Sc64L2Pipe.open.Follows [] [] := .start eventLook_progress

theorem sc64Open_delivered : Sc64L2Pipe.open.Delivered := by
  intro x hx
  rw [tellAll_nil (by rw [show Sc64L2Pipe.open.wire = [] from rfl, eventLook_progress.scan_nil])] at hx
  nomatch hx

/-- Over every way the port cuts the cart's bytes, what the calls tell, with what
is queued, pending or held whole, is what a scan of those bytes finds, in order.
Where no read brings a packet with bytes behind a `PKT G` still unparsed, a call
with room that returns no bytes leaves none undelivered. -/
theorem sc64ReadAll_tells (rooms : List Nat) (room : Nat) (reads : List PortGot) :
    let r := Sc64L2Pipe.open.readAll rooms reads
    let last := r.2.2.readL3Bytes room r.2.1
    (∃ used, reads = used ++ r.2.1 ∧ tellAll eventLook eventBytes (used.flatMap PortGot.bytes) =
      r.1.flatMap sc64Telling ++ r.2.2.l3Rx.map .inl ++ r.2.2.pendingErr.toList.map .inr ++ tellAll eventLook eventBytes r.2.2.wire) ∧
    (Ahead [] reads → 0 < room → last.1 = .ok [] → last.2.2.Delivered ∧
      ∃ used, reads = used ++ last.2.1 ∧
        (tellAll eventLook eventBytes (used.flatMap PortGot.bytes)).filterMap Sum.getLeft? =
          (r.1.flatMap sc64Telling).filterMap Sum.getLeft?) := by
  obtain ⟨⟨used, hused, hf⟩, hahead⟩ := sc64ReadAll_follows sc64Open_follows rooms reads
  rw [List.nil_append, List.nil_append] at hf
  refine ⟨⟨used, hused, hf.tells⟩, fun hall hroom hlast => ?_⟩
  obtain ⟨hrest, hd⟩ := hahead hall sc64Open_delivered
  obtain ⟨⟨used', hused', hf'⟩, hahead', hidle⟩ :=
    sc64ReadL3Bytes_answers room hf (Sc64L2Pipe.open.readAll rooms reads).2.1
  obtain ⟨_, hd'⟩ := hahead' hrest hd
  obtain ⟨hqueue, hpending⟩ := hidle hroom hlast
  refine ⟨hd', used ++ used', ?_, ?_⟩
  · rw [List.append_assoc, ← hused']
    exact hused
  · have htells := hf'.tells
    rw [hlast, sc64Telling, hqueue, hpending, List.map_nil, List.append_nil, Option.toList_none, List.map_nil, List.append_nil,
      List.append_nil, ← List.flatMap_append] at htells
    have hnone : (tellAll eventLook eventBytes
        ((Sc64L2Pipe.open.readAll rooms reads).2.2.readL3Bytes room (Sc64L2Pipe.open.readAll rooms reads).2.1).2.2.wire).filterMap
          Sum.getLeft? = [] := by
      rw [List.filterMap_eq_nil_iff]
      intro x hx
      have hright := hd' x hx
      cases x with
      | inl y => nomatch hright
      | inr e => rfl
    rw [htells, List.filterMap_append, hnone, List.append_nil]

/-- A `PKT U` with one L3 byte, and a `PKT G`. -/
def pktU : Bytes := tagPkt ++ [0x55, 0, 0, 0, 5, 1, 0, 0, 1, 7]

def pktG : Bytes := tagPkt ++ [0x47, 0, 0, 0, 0]

theorem sc64ReadAll_tells_ahead : (Sc64L2Pipe.open.readAll [4, 4] [.data (pktU ++ pktG), .timedOut]).1 =
      [.ok [7], .error (.connectionReset "SC64 DATA_FLUSHED (PC USB_WRITE not acknowledged by N64 in time)")] ∧
    ((Sc64L2Pipe.open.readAll [4, 4] [.data (pktU ++ pktG), .timedOut]).2.2.readL3Bytes 4
      (Sc64L2Pipe.open.readAll [4, 4] [.data (pktU ++ pktG), .timedOut]).2.1).2.2.Delivered := by
  have hahead : Ahead [] [.data (pktU ++ pktG), .timedOut] := by
    refine ⟨?_, ?_, trivial⟩
    · unfold NoneBehind
      decide +kernel
    · unfold NoneBehind
      decide +kernel
  exact ⟨by decide +kernel, ((sc64ReadAll_tells [4, 4] 4 [.data (pktU ++ pktG), .timedOut]).2 hahead (by decide) (by decide +kernel)).1⟩

/-- A packet behind a `PKT G` is left where it is, call after call, until more
bytes come in. -/
theorem stranded : (Sc64L2Pipe.open.readAll [4, 4, 4] [.data (pktG ++ pktU), .timedOut, .timedOut]).1 =
      [.error (.connectionReset "SC64 DATA_FLUSHED (PC USB_WRITE not acknowledged by N64 in time)"), .ok [], .ok []] ∧
    tellAll eventLook eventBytes (Sc64L2Pipe.open.readAll [4, 4, 4] [.data (pktG ++ pktU), .timedOut, .timedOut]).2.2.wire = [.inl 7] := by
  decide +kernel

end Reading

end Multi64
