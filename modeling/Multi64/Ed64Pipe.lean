import Multi64.Lib.Carry
import Multi64.X7Wire

/-! The host's pipe from an EverDrive X7, `Ed64L2Pipe` of `ed64-l2`: over any way
the serial port cuts the cart's bytes, and however long its reads wait, what is
read is what a scan of those bytes finds. -/

namespace Multi64

inductive PortGot where
  | data (b : Bytes)
  | timedOut
  | failed (why : String)

/-- One read of the serial port, and how long it waited. -/
structure PortRead where
  waited : Nat
  got : PortGot

inductive PipeError where
  | wire (e : WireError)
  | port (why : String)
  deriving DecidableEq

structure Ed64L2Pipe where
  wire : WireBuffer
  l3Rx : Bytes
  pendingErr : Option WireError
  quiet : Nat
  stall : Nat

def partialMessageStall : Nat := 500

def Ed64L2Pipe.open (stall : Nat) : Ed64L2Pipe := ⟨⟨[]⟩, [], none, 0, stall⟩

/-- At most `fuel` messages; each takes bytes of the buffer. -/
def processFuel : Nat → WireBuffer → Bytes → Except WireError Unit × WireBuffer × Bytes
  | 0, wire, l3Rx => (.ok (), wire, l3Rx)
  | fuel + 1, wire, l3Rx =>
    match wire.nextMessage with
    | (.ok none, wire) => (.ok (), wire, l3Rx)
    | (.ok (some msg), wire) => processFuel fuel wire (if msg.datatype = multi64L3Type then l3Rx ++ msg.payload else l3Rx)
    | (.error e, wire) => (.error e, wire, l3Rx)

def processWireMessages (wire : WireBuffer) (l3Rx : Bytes) : Except WireError Unit × WireBuffer × Bytes :=
  processFuel (wire.buf.length + 1) wire l3Rx

namespace Ed64L2Pipe

variable (p : Ed64L2Pipe) (room : Nat)

/-- Drain the wire, and keep an error for when the queue is handed out. -/
def parse : Ed64L2Pipe :=
  match processWireMessages p.wire p.l3Rx with
  | (.ok (), wire, l3Rx) => { p with wire := wire, l3Rx := l3Rx }
  | (.error e, wire, l3Rx) => { p with wire := wire, l3Rx := l3Rx, pendingErr := some e }

def countQuiet (waited : Nat) : Ed64L2Pipe :=
  if p.wire.buf = [] then { p with quiet := 0 }
  else if p.quiet + waited < p.stall then { p with quiet := p.quiet + waited }
  else { p with wire := ⟨[]⟩, quiet := 0 }

/-- What is queued goes first, then the error behind it. -/
def handOut : Option (Except PipeError Bytes × Ed64L2Pipe) :=
  if p.l3Rx ≠ [] then some (.ok (p.l3Rx.take room), { p with l3Rx := p.l3Rx.drop room })
  else
    match p.pendingErr with
    | some e => some (.error (.wire e), { p with pendingErr := none })
    | none => none

/-- Messages may be whole behind a bad trailer. -/
def parseHeld : Ed64L2Pipe := if p.wire.buf ≠ [] then p.parse else p

/-- The loop of `read_l3_bytes`, over the reads of the port to come. With none
left the port times out at once. -/
def readLoop : List PortRead → Ed64L2Pipe → Except PipeError Bytes × List PortRead × Ed64L2Pipe
  | reads, p =>
    match p.handOut room with
    | some (r, p) => (r, reads, p)
    | none =>
      let p := p.parseHeld
      match p.handOut room with
      | some (r, p) => (r, reads, p)
      | none =>
        match reads with
        | [] => (.ok [], [], p)
        | r :: reads =>
          let p := p.countQuiet r.waited
          match r.got with
          | .data [] => (.ok [], reads, p)
          | .data b => readLoop reads (parse { p with quiet := 0, wire := ⟨p.wire.buf ++ b⟩ })
          | .timedOut => (.ok [], reads, p)
          | .failed why => (.error (.port why), reads, p)

def readL3Bytes (reads : List PortRead) : Except PipeError Bytes × List PortRead × Ed64L2Pipe :=
  if room = 0 then (.ok [], reads, p) else p.readLoop room reads

end Ed64L2Pipe

section Look

variable {b t : Bytes} {i k : Nat}

/-- Where a resync cuts. -/
def syncAt (b : Bytes) : Nat := (findDma b).getD (b.length - min 3 b.length)

/-- What a synced buffer holds: a message, a bad one, or too little. -/
def headLook (b : Bytes) : Look (Except WireError WireMessage) :=
  let size := headSize b
  let total := alignUp (8 + size + cmpMagic.length) wireAlign
  if b.length < 8 then .wait 0
  else if b.length < total then .wait 0
  else if slice b (8 + size) cmpMagic.length ≠ cmpMagic then .emit (.error (.badTrailer (slice b (8 + size) cmpMagic.length))) dmaMagic.length
  else .emit (.ok ⟨byteAt b 4, slice b 8 size⟩) total

/-- One look of the wire buffer. -/
def wireLook (b : Bytes) : Look (Except WireError WireMessage) := (headLook (b.drop (syncAt b))).shift (syncAt b)

def l3Of (m : Except WireError WireMessage) : Except WireError Bytes :=
  match m with
  | .ok msg => .ok (if msg.datatype = multi64L3Type then msg.payload else [])
  | .error e => .error e

theorem resync_eq (b : Bytes) : WireBuffer.resync ⟨b⟩ = ⟨b.drop (syncAt b)⟩ := by
  unfold WireBuffer.resync syncAt
  cases findDma b with
  | some i => rfl
  | none => rfl

theorem findDma_some (h : findDma b = some i) :
    i + 4 ≤ b.length ∧ (b.drop i).take 4 = dmaMagic ∧ ∀ j, j < i → (b.drop j).take 4 ≠ dmaMagic := by
  induction b generalizing i with
  | nil => nomatch h
  | cons x b ih =>
    unfold findDma at h
    by_cases hx : (x :: b).take 4 = dmaMagic
    · rw [if_pos hx] at h
      obtain rfl := Option.some.inj h
      have hlen := congrArg List.length hx
      rw [List.length_take] at hlen
      have hfour : dmaMagic.length = 4 := rfl
      exact ⟨by omega, hx, fun j hj => absurd hj (Nat.not_lt_zero j)⟩
    · rw [if_neg hx] at h
      obtain ⟨i', hi', rfl⟩ := Option.map_eq_some_iff.mp h
      obtain ⟨hle, hat, hbefore⟩ := ih hi'
      refine ⟨by rw [List.length_cons]; omega, hat, fun j hj => ?_⟩
      cases j with
      | zero => exact hx
      | succ j => exact hbefore j (by omega)

theorem findDma_none (h : findDma b = none) (j : Nat) : (b.drop j).take 4 ≠ dmaMagic := by
  induction b generalizing j with
  | nil =>
    rw [List.drop_nil, List.take_nil]
    exact nofun
  | cons x b ih =>
    unfold findDma at h
    by_cases hx : (x :: b).take 4 = dmaMagic
    · rw [if_pos hx] at h
      nomatch h
    · rw [if_neg hx] at h
      cases j with
      | zero => exact hx
      | succ j => exact ih (Option.map_eq_none_iff.mp h) j

/-- Symbols without a magic among them can go first. -/
theorem findDma_drop (hk : k ≤ b.length) (h : ∀ j, j < k → (b.drop j).take 4 ≠ dmaMagic) :
    findDma b = (findDma (b.drop k)).map (· + k) := by
  induction k generalizing b with
  | zero => simp only [List.drop_zero, Nat.add_zero, Option.map_id']
  | succ k ih =>
    cases b with
    | nil => rw [List.length_nil] at hk; omega
    | cons x b =>
      have hx : (x :: b).take 4 ≠ dmaMagic := h 0 (Nat.succ_pos k)
      have hstep : findDma (x :: b) = (findDma b).map (· + 1) := by rw [findDma, if_neg hx]
      rw [hstep, ih (b := b) (Nat.le_of_succ_le_succ hk) fun j hj => h (j + 1) (by omega), Option.map_map, List.drop_succ_cons]
      rfl

theorem syncAt_le (b : Bytes) : syncAt b ≤ b.length := by
  unfold syncAt
  cases h : findDma b with
  | some i =>
    have hle := (findDma_some h).1
    simp only [Option.getD_some]
    omega
  | none =>
    simp only [Option.getD_none]
    omega

/-- No magic starts before the place a resync cuts, whatever comes in behind. -/
theorem before_syncAt (b t : Bytes) {j : Nat} (hj : j < syncAt b) : ((b ++ t).drop j).take 4 ≠ dmaMagic := by
  have hroom : j + 4 ≤ b.length ∧ (b.drop j).take 4 ≠ dmaMagic := by
    unfold syncAt at hj
    cases h : findDma b with
    | some i =>
      rw [h, Option.getD_some] at hj
      obtain ⟨hle, _, hbefore⟩ := findDma_some h
      exact ⟨by omega, hbefore j hj⟩
    | none =>
      rw [h, Option.getD_none] at hj
      exact ⟨by omega, findDma_none h j⟩
  rw [List.drop_append_of_le_length (by omega), List.take_append_of_le_length (by rw [List.length_drop]; omega)]
  exact hroom.2

/-- What is behind a resync starts with the magic. -/
theorem findDma_synced (h : findDma b = some i) (t : Bytes) : findDma (b.drop i ++ t) = some 0 := by
  obtain ⟨hlen, hat, _⟩ := findDma_some h
  have hdi : i < b.length := by omega
  rw [List.drop_eq_getElem_cons hdi] at hat ⊢
  have hmagic : (b[i] :: (b.drop (i + 1) ++ t)).take 4 = dmaMagic := by
    rw [← List.cons_append, List.take_append_of_le_length (by rw [List.length_cons, List.length_drop]; omega)]
    exact hat
  rw [List.cons_append, findDma, if_pos hmagic]

theorem syncAt_append (b t : Bytes) : syncAt (b ++ t) = syncAt (b.drop (syncAt b) ++ t) + syncAt b := by
  have hle := syncAt_le b
  have hdrop : (b ++ t).drop (syncAt b) = b.drop (syncAt b) ++ t := List.drop_append_of_le_length hle
  have hfind := findDma_drop (b := b ++ t) (k := syncAt b) (by rw [List.length_append]; omega) fun j hj => before_syncAt b t hj
  rw [hdrop] at hfind
  unfold syncAt at hfind ⊢
  cases h : findDma b with
  | some i =>
    rw [h] at hfind
    rw [Option.getD_some] at hfind ⊢
    rw [hfind, findDma_synced h t]
    rfl
  | none =>
    rw [h] at hfind
    rw [Option.getD_none] at hfind ⊢
    rw [hfind]
    cases findDma (b.drop (b.length - min 3 b.length) ++ t) with
    | some i => rfl
    | none =>
      simp only [Option.map_none, Option.getD_none, List.length_append, List.length_drop]
      omega

theorem alignUp_le (n : Nat) : n ≤ alignUp n wireAlign := by
  unfold alignUp wireAlign
  omega

theorem headSize_append (h : 8 ≤ b.length) (t : Bytes) : headSize (b ++ t) = headSize b := by
  unfold headSize
  rw [byteAt_append_left (by omega), byteAt_append_left (by omega), byteAt_append_left (by omega)]

/-- What a synced buffer comes to. -/
theorem headLook_cases (b : Bytes) : headLook b = .wait 0 ∨
    ∃ a n, headLook b = .emit a n ∧ 0 < n ∧ n ≤ b.length ∧ 8 ≤ b.length ∧ ∀ t, headLook (b ++ t) = .emit a n := by
  unfold headLook
  simp only
  by_cases h8 : b.length < 8
  · exact .inl (if_pos h8)
  rw [if_neg h8]
  by_cases htotal : b.length < alignUp (8 + headSize b + cmpMagic.length) wireAlign
  · exact .inl (if_pos htotal)
  rw [if_neg htotal]
  have hle := alignUp_le (8 + headSize b + cmpMagic.length)
  have hcmp : cmpMagic.length = 4 := rfl
  have hdma : dmaMagic.length = 4 := rfl
  have hsize (t : Bytes) := headSize_append (b := b) (by omega) t
  have hslice (t : Bytes) := @slice_append_left b (8 + headSize b) cmpMagic.length (by omega) t
  have hlen (t : Bytes) : ¬(b ++ t).length < 8 ∧ ¬(b ++ t).length < alignUp (8 + headSize b + cmpMagic.length) wireAlign := by
    rw [List.length_append]
    omega
  by_cases hbad : slice b (8 + headSize b) cmpMagic.length ≠ cmpMagic
  · refine .inr ⟨_, _, if_pos hbad, by omega, by omega, by omega, fun t => ?_⟩
    rw [hsize, hslice, if_neg (hlen t).1, if_neg (hlen t).2, if_pos hbad]
  · refine .inr ⟨_, _, if_neg hbad, by omega, by omega, by omega, fun t => ?_⟩
    have hpayload := @slice_append_left b 8 (headSize b) (by omega) t
    rw [hsize, hslice, if_neg (hlen t).1, if_neg (hlen t).2, if_neg hbad, hpayload, byteAt_append_left (by omega)]

theorem wireLook_wait {n : Nat} (h : wireLook b = .wait n) : n = syncAt b := by
  unfold wireLook at h
  rcases headLook_cases (b.drop (syncAt b)) with hw | ⟨a, m, he, _⟩
  · rw [hw, Look.shift, Nat.zero_add] at h
    exact (Look.wait.inj h).symm
  · rw [he] at h
    cases h

theorem wireLook_emit {a : Except WireError WireMessage} {n : Nat} (h : wireLook b = .emit a n) :
    0 < n ∧ n ≤ b.length ∧ ∀ t, wireLook (b ++ t) = .emit a n := by
  have hle := syncAt_le b
  unfold wireLook at h
  rcases headLook_cases (b.drop (syncAt b)) with hw | ⟨a', m, he, hpos, hm, h8, happend⟩
  · rw [hw] at h
    nomatch h
  · rw [he, Look.shift] at h
    obtain ⟨rfl, rfl⟩ := Look.emit.inj h
    rw [List.length_drop] at hm h8
    refine ⟨by omega, by omega, fun t => ?_⟩
    -- A whole header is more than the part of a magic that is kept.
    obtain ⟨i, hi⟩ : ∃ i, findDma b = some i := by
      cases hfind : findDma b with
      | some i => exact ⟨i, rfl⟩
      | none =>
        rw [syncAt, hfind, Option.getD_none] at h8
        omega
    have hsync : syncAt (b.drop (syncAt b) ++ t) = 0 := by
      have hb : syncAt b = i := by rw [syncAt, hi, Option.getD_some]
      rw [hb, syncAt, findDma_synced hi t, Option.getD_some]
    unfold wireLook
    rw [syncAt_append, hsync, Nat.zero_add, List.drop_append_of_le_length hle, happend t]
    rfl

theorem wireLook_skip {n : Nat} : wireLook b ≠ .skip n := by
  unfold wireLook
  rcases headLook_cases (b.drop (syncAt b)) with hw | ⟨a, m, he, _⟩
  · rw [hw]
    exact nofun
  · rw [he]
    exact nofun

theorem wireLook_progress : Progress wireLook :=
  ⟨fun h => absurd h wireLook_skip, fun h => ⟨(wireLook_emit h).1, (wireLook_emit h).2.1⟩⟩

/-- Bytes before the place a resync cuts do not matter. -/
theorem wireLook_append (b t : Bytes) : wireLook (b ++ t) = (wireLook ((b ++ t).drop (syncAt b))).shift (syncAt b) := by
  have hle := syncAt_le b
  have hshift (l : Look (Except WireError WireMessage)) (m n : Nat) : (l.shift m).shift n = l.shift (m + n) := by
    cases l <;> simp only [Look.shift, Nat.add_assoc]
  unfold wireLook
  rw [hshift, List.drop_append_of_le_length hle, syncAt_append b t]
  congr 2
  rw [← List.drop_append_of_le_length hle, List.drop_drop, Nat.add_comm]

theorem wireLook_stable : Stable wireLook where
  toProgress := wireLook_progress
  wait_append {b n} h t := by
    obtain rfl := wireLook_wait h
    rw [wireLook_progress.scan_shift (wireLook_append b t), List.drop_append_of_le_length (syncAt_le b)]
  skip_append h := absurd h wireLook_skip
  emit_append h t := (wireLook_emit h).2.2 t

/-- A look as the code takes it. -/
theorem nextMessage_look (b : Bytes) :
    (∃ n, wireLook b = .wait n ∧ WireBuffer.nextMessage ⟨b⟩ = (.ok none, ⟨b.drop n⟩)) ∨
      ∃ a n, wireLook b = .emit a n ∧ WireBuffer.nextMessage ⟨b⟩ = (a.map some, ⟨b.drop n⟩) := by
  have hsize : cmpMagic.length = 4 := rfl
  unfold wireLook WireBuffer.nextMessage
  simp only [resync_eq]
  generalize hs : b.drop (syncAt b) = c
  have hdrop (n : Nat) : c.drop n = b.drop (n + syncAt b) := by rw [← hs, List.drop_drop, Nat.add_comm]
  unfold headLook
  simp only
  by_cases h8 : c.length < 8
  · rw [if_pos h8, if_pos h8]
    exact .inl ⟨_, rfl, by rw [← hdrop, List.drop_zero]⟩
  rw [if_neg h8, if_neg h8]
  by_cases htotal : c.length < alignUp (8 + headSize c + cmpMagic.length) wireAlign
  · rw [if_pos htotal, if_pos htotal]
    exact .inl ⟨_, rfl, by rw [← hdrop, List.drop_zero]⟩
  rw [if_neg htotal, if_neg htotal]
  by_cases hbad : slice c (8 + headSize c) cmpMagic.length ≠ cmpMagic
  · rw [if_pos hbad, if_pos hbad]
    exact .inr ⟨_, _, rfl, by rw [← hdrop]; rfl⟩
  · rw [if_neg hbad, if_neg hbad]
    exact .inr ⟨_, _, rfl, by rw [← hdrop]; rfl⟩

theorem processFuel_drain (fuel : Nat) (b q : Bytes) : processFuel fuel ⟨b⟩ q =
    let r := drainFuel wireLook l3Of fuel b
    ((match r.2.1 with | some e => .error e | none => .ok ()), ⟨r.2.2⟩, q ++ r.1) := by
  induction fuel generalizing b q with
  | zero => simp only [processFuel, drainFuel, List.append_nil]
  | succ fuel ih =>
    unfold processFuel drainFuel
    rcases nextMessage_look b with ⟨n, hl, hn⟩ | ⟨a, n, hl, hn⟩
    · simp only [hl, hn, List.append_nil]
    · cases a with
      | error e => simp only [hl, hn, Except.map, l3Of, List.append_nil]
      | ok msg =>
        simp only [hl, hn, Except.map, l3Of, ih]
        by_cases hl3 : msg.datatype = multi64L3Type
        · simp only [hl3, if_true, List.append_assoc]
        · simp only [hl3, if_false, List.nil_append]

end Look

section Reading

/-- What the cart's bytes come to for whoever reads, in pieces: `done` is cut off
where what was held of a message stalled. -/
structure Heard where
  done : List Bytes
  now : Bytes
  quiet : Nat

def Heard.tell (h : Heard) : List (UInt8 ⊕ WireError) := (h.done ++ [h.now]).flatMap (tellAll wireLook l3Of)

/-- A read that waited. A part of a message that waits too long is cut off. -/
def Heard.pause (stall : Nat) (h : Heard) (waited : Nat) : Heard :=
  if (scan wireLook h.now).2 = [] then { h with quiet := 0 }
  else if h.quiet + waited < stall then { h with quiet := h.quiet + waited }
  else ⟨h.done ++ [h.now], [], 0⟩

def Heard.read (stall : Nat) (h : Heard) (r : PortRead) : Heard :=
  match r.got with
  | .data [] => h.pause stall r.waited
  | .data b => { h.pause stall r.waited with now := (h.pause stall r.waited).now ++ b, quiet := 0 }
  | _ => h.pause stall r.waited

def heard (stall : Nat) (reads : List PortRead) : Heard := reads.foldl (Heard.read stall) ⟨[], [], 0⟩

def PortRead.bytes (r : PortRead) : Bytes :=
  match r.got with
  | .data b => b
  | _ => []

/-- What a call's result tells. -/
def telling : Except PipeError Bytes → List (UInt8 ⊕ WireError)
  | .ok b => b.map .inl
  | .error (.wire e) => [.inr e]
  | .error (.port _) => []

/-- Calls with buffers of these sizes, one after another. -/
def readAll : List Nat → List PortRead → Ed64L2Pipe → List (Except PipeError Bytes) × List PortRead × Ed64L2Pipe
  | [], reads, p => ([], reads, p)
  | room :: rooms, reads, p =>
    let r := p.readL3Bytes room reads
    let rest := readAll rooms r.2.1 r.2.2
    (r.1 :: rest.1, rest.2)

variable {p : Ed64L2Pipe} {h : Heard} {out : List (UInt8 ⊕ WireError)} {room : Nat}

/-- What the pipe has told of what was heard. -/
structure Follows (h : Heard) (out : List (UInt8 ⊕ WireError)) (p : Ed64L2Pipe) : Prop where
  carries : ∃ now, out = h.done.flatMap (tellAll wireLook l3Of) ++ now ∧ Carries wireLook l3Of h.now now p.l3Rx p.pendingErr p.wire.buf
  quiet : p.quiet = h.quiet

/-- Nothing is left to tell. -/
structure Idle (p : Ed64L2Pipe) : Prop where
  queue : p.l3Rx = []
  pending : p.pendingErr = none
  wire : scan wireLook p.wire.buf = ([], p.wire.buf)

theorem Follows.tell (hf : Follows h out p) : h.tell =
    out ++ p.l3Rx.map .inl ++ p.pendingErr.toList.map .inr ++ tellAll wireLook l3Of p.wire.buf := by
  obtain ⟨now, rfl, hc⟩ := hf.carries
  unfold Heard.tell
  rw [List.flatMap_append, List.flatMap_singleton, hc.tells]
  simp only [List.append_assoc]

theorem Follows.idle (hf : Follows h out p) (hi : Idle p) : out = h.tell := by
  rw [hf.tell, hi.queue, hi.pending, tellAll_nil (by rw [hi.wire])]
  simp only [List.map_nil, Option.toList_none, List.append_nil]

/-- What is held is what a scan of the piece holds. -/
theorem Follows.held (hf : Follows h out p) (hi : Idle p) : (scan wireLook h.now).2 = p.wire.buf := by
  obtain ⟨now, _, hc⟩ := hf.carries
  rw [hc.holds, hi.wire]

theorem handOut_follows (hf : Follows h out p) {r : Except PipeError Bytes} {p' : Ed64L2Pipe} (hr : p.handOut room = some (r, p')) :
    Follows h (out ++ telling r) p' := by
  obtain ⟨⟨now, rfl, hc⟩, hquiet⟩ := hf
  unfold Ed64L2Pipe.handOut at hr
  by_cases hqueue : p.l3Rx ≠ []
  · rw [if_pos hqueue] at hr
    obtain ⟨rfl, rfl⟩ := Prod.mk.inj (Option.some.inj hr)
    exact ⟨⟨_, List.append_assoc _ _ _, hc.handOut room⟩, hquiet⟩
  · rw [if_neg hqueue] at hr
    cases hpending : p.pendingErr with
    | none =>
      rw [hpending] at hr
      nomatch hr
    | some e =>
      rw [hpending] at hr
      obtain ⟨rfl, rfl⟩ := Prod.mk.inj (Option.some.inj hr)
      rw [not_not.mp hqueue, hpending] at hc
      refine ⟨⟨_, List.append_assoc _ _ _, ?_⟩, hquiet⟩
      rw [not_not.mp hqueue]
      exact hc.raise

theorem handOut_none (hr : p.handOut room = none) : p.l3Rx = [] ∧ p.pendingErr = none := by
  unfold Ed64L2Pipe.handOut at hr
  by_cases hqueue : p.l3Rx ≠ []
  · rw [if_pos hqueue] at hr
    nomatch hr
  · rw [if_neg hqueue] at hr
    refine ⟨not_not.mp hqueue, ?_⟩
    cases hpending : p.pendingErr with
    | none => rfl
    | some e =>
      rw [hpending] at hr
      nomatch hr

/-- The wire drained. Where that leaves nothing to tell, nothing is held but part
of a message. -/
theorem parse_follows (hf : Follows h out p) (hqueue : p.l3Rx = []) (hpending : p.pendingErr = none) :
    Follows h out p.parse ∧ (p.parse.pendingErr = none → scan wireLook p.parse.wire.buf = ([], p.parse.wire.buf)) := by
  obtain ⟨⟨now, rfl, hc⟩, hquiet⟩ := hf
  have hdrained : Drained wireLook l3Of p.wire.buf (drainFuel wireLook l3Of (p.wire.buf.length + 1) p.wire.buf) :=
    wireLook_stable.drain (Nat.lt_succ_self p.wire.buf.length)
  have hrun := processFuel_drain (p.wire.buf.length + 1) p.wire.buf p.l3Rx
  rw [hqueue, hpending] at hc
  have hafter := hc.drain hdrained
  have hdone := hdrained.done
  unfold Ed64L2Pipe.parse processWireMessages
  rw [hrun]
  revert hafter hdone
  generalize drainFuel wireLook l3Of (p.wire.buf.length + 1) p.wire.buf = r
  obtain ⟨xs, err, rest⟩ := r
  intro hafter hdone
  cases err with
  | none =>
    refine ⟨⟨⟨now, rfl, ?_⟩, hquiet⟩, fun _ => hdone rfl⟩
    simp only [hqueue, hpending, List.nil_append]
    exact hafter
  | some e =>
    refine ⟨⟨⟨now, rfl, ?_⟩, hquiet⟩, nofun⟩
    simp only [hqueue, List.nil_append]
    exact hafter

theorem countQuiet_follows (hf : Follows h out p) (hi : Idle p) (waited : Nat) :
    Follows (h.pause p.stall waited) out (p.countQuiet waited) ∧ Idle (p.countQuiet waited) ∧
      (p.countQuiet waited).stall = p.stall := by
  have hheld := hf.held hi
  have hout := hf.idle hi
  obtain ⟨⟨now, hnow, hc⟩, hquiet⟩ := hf
  unfold Heard.pause Ed64L2Pipe.countQuiet
  rw [hheld, ← hquiet]
  by_cases hempty : p.wire.buf = []
  · rw [if_pos hempty, if_pos hempty]
    exact ⟨⟨⟨now, hnow, hc⟩, rfl⟩, ⟨hi.queue, hi.pending, hi.wire⟩, rfl⟩
  rw [if_neg hempty, if_neg hempty]
  by_cases hstall : p.quiet + waited < p.stall
  · rw [if_pos hstall, if_pos hstall]
    exact ⟨⟨⟨now, hnow, hc⟩, rfl⟩, ⟨hi.queue, hi.pending, hi.wire⟩, rfl⟩
  · rw [if_neg hstall, if_neg hstall]
    refine ⟨⟨⟨[], ?_, ?_⟩, rfl⟩, ⟨hi.queue, hi.pending, wireLook_progress.scan_nil⟩, rfl⟩
    · rw [hout, List.append_nil]
      rfl
    · simp only [hi.queue, hi.pending]
      exact .start wireLook_progress

theorem receive_follows (hf : Follows h out p) (b : Bytes) :
    Follows { h with now := h.now ++ b, quiet := 0 } out { p with quiet := 0, wire := ⟨p.wire.buf ++ b⟩ } := by
  obtain ⟨⟨now, hnow, hc⟩, _⟩ := hf
  exact ⟨⟨now, hnow, hc.receive wireLook_stable b⟩, rfl⟩

theorem handOut_data (hroom : 0 < room) {r : Except PipeError Bytes} {p' : Ed64L2Pipe} (hr : p.handOut room = some (r, p')) :
    r ≠ .ok [] ∧ p'.stall = p.stall := by
  unfold Ed64L2Pipe.handOut at hr
  by_cases hqueue : p.l3Rx ≠ []
  · rw [if_pos hqueue] at hr
    obtain ⟨rfl, rfl⟩ := Prod.mk.inj (Option.some.inj hr)
    refine ⟨fun hnil => ?_, rfl⟩
    rcases List.take_eq_nil_iff.mp (Except.ok.inj hnil) with hzero | hempty
    · omega
    · exact hqueue hempty
  · rw [if_neg hqueue] at hr
    cases hpending : p.pendingErr with
    | none =>
      rw [hpending] at hr
      nomatch hr
    | some e =>
      rw [hpending] at hr
      obtain ⟨rfl, rfl⟩ := Prod.mk.inj (Option.some.inj hr)
      exact ⟨nofun, rfl⟩

/-- What a call comes to: it used some of the reads, told what was next of what
it heard, and has nothing left to tell where it returns no bytes. -/
structure Answers (h : Heard) (out : List (UInt8 ⊕ WireError)) (p : Ed64L2Pipe) (reads : List PortRead)
    (r : Except PipeError Bytes × List PortRead × Ed64L2Pipe) : Prop where
  used : ∃ used, reads = used ++ r.2.1 ∧ Follows (used.foldl (Heard.read p.stall) h) (out ++ telling r.1) r.2.2
  stall : r.2.2.stall = p.stall
  idle : r.1 = .ok [] → Idle r.2.2

theorem Answers.cons {p' : Ed64L2Pipe} {x : PortRead} {reads : List PortRead} {r : Except PipeError Bytes × List PortRead × Ed64L2Pipe}
    (hstall : p'.stall = p.stall) (ha : Answers (h.read p.stall x) out p' reads r) : Answers h out p (x :: reads) r := by
  obtain ⟨⟨used, rfl, hf⟩, hkept, hidle⟩ := ha
  rw [hstall] at hf
  exact ⟨⟨x :: used, rfl, hf⟩, hkept.trans hstall, hidle⟩

/-- A read that brings no bytes ends the call. -/
theorem Answers.quiet (hf : Follows h out p) (hi : Idle p) (reads : List PortRead) {x : PortRead} {r : Except PipeError Bytes}
    (hx : h.read p.stall x = h.pause p.stall x.waited) (hr : telling r = []) :
    Answers h out p (x :: reads) (r, reads, p.countQuiet x.waited) := by
  obtain ⟨hf', hi', hstall⟩ := countQuiet_follows hf hi x.waited
  refine .cons rfl ⟨⟨[], rfl, ?_⟩, hstall, fun _ => hi'⟩
  rw [hx, hr, List.append_nil]
  exact hf'

theorem parse_stall (p : Ed64L2Pipe) : p.parse.stall = p.stall := by
  unfold Ed64L2Pipe.parse
  split <;> rfl

theorem parseHeld_follows (hf : Follows h out p) (hnone : p.handOut room = none) :
    Follows h out p.parseHeld ∧ p.parseHeld.stall = p.stall ∧ (p.parseHeld.handOut room = none → Idle p.parseHeld) := by
  obtain ⟨hqueue, hpending⟩ := handOut_none hnone
  unfold Ed64L2Pipe.parseHeld
  by_cases hempty : p.wire.buf ≠ []
  · rw [if_pos hempty]
    obtain ⟨hf', hdone⟩ := parse_follows hf hqueue hpending
    refine ⟨hf', parse_stall p, fun hnone' => ?_⟩
    obtain ⟨hqueue', hpending'⟩ := handOut_none hnone'
    exact ⟨hqueue', hpending', hdone hpending'⟩
  · rw [if_neg hempty]
    refine ⟨hf, rfl, fun _ => ⟨hqueue, hpending, ?_⟩⟩
    rw [not_not.mp hempty]
    exact wireLook_progress.scan_nil

theorem handOut_answers (hroom : 0 < room) (hf : Follows h out p) (reads : List PortRead) {r : Except PipeError Bytes} {p' : Ed64L2Pipe}
    (hr : p.handOut room = some (r, p')) : Answers h out p reads (r, reads, p') := by
  obtain ⟨hdata, hstall⟩ := handOut_data hroom hr
  exact ⟨⟨[], rfl, handOut_follows hf hr⟩, hstall, fun hnil => absurd hnil hdata⟩

theorem Answers.of_stall {p' : Ed64L2Pipe} {reads : List PortRead} {r : Except PipeError Bytes × List PortRead × Ed64L2Pipe}
    (hstall : p'.stall = p.stall) (ha : Answers h out p' reads r) : Answers h out p reads r :=
  ⟨hstall ▸ ha.used, ha.stall.trans hstall, ha.idle⟩

theorem readLoop_answers (hroom : 0 < room) (hf : Follows h out p) (reads : List PortRead) :
    Answers h out p reads (p.readLoop room reads) := by
  induction reads generalizing h p with
  | nil =>
    unfold Ed64L2Pipe.readLoop
    cases hfirst : p.handOut room with
    | some r => exact handOut_answers hroom hf [] hfirst
    | none =>
      obtain ⟨hf', hstall, hidle⟩ := parseHeld_follows hf hfirst
      simp only
      cases hsecond : p.parseHeld.handOut room with
      | some r => exact (handOut_answers hroom hf' [] hsecond).of_stall hstall
      | none =>
        refine ⟨⟨[], rfl, ?_⟩, hstall, fun _ => hidle hsecond⟩
        rw [telling, List.map_nil, List.append_nil]
        exact hf'
  | cons x reads ih =>
    unfold Ed64L2Pipe.readLoop
    cases hfirst : p.handOut room with
    | some r => exact handOut_answers hroom hf (x :: reads) hfirst
    | none =>
      obtain ⟨hf', hstall, hidle⟩ := parseHeld_follows hf hfirst
      simp only
      cases hsecond : p.parseHeld.handOut room with
      | some r => exact (handOut_answers hroom hf' (x :: reads) hsecond).of_stall hstall
      | none =>
        refine Answers.of_stall hstall ?_
        have hi := hidle hsecond
        obtain ⟨waited, got⟩ := x
        cases got with
        | timedOut => exact .quiet hf' hi reads rfl rfl
        | failed why => exact .quiet hf' hi reads rfl rfl
        | data b =>
          cases b with
          | nil => exact .quiet hf' hi reads rfl rfl
          | cons y b =>
            obtain ⟨hf'', hi'', hstall''⟩ := countQuiet_follows hf' hi waited
            have hreceived := receive_follows hf'' (y :: b)
            obtain ⟨hparsed, _⟩ := parse_follows hreceived hi''.queue hi''.pending
            refine Answers.cons ?_ (ih hparsed)
            exact (parse_stall _).trans hstall''

theorem readL3Bytes_answers (room : Nat) (hf : Follows h out p) (reads : List PortRead) :
    ∃ used, reads = used ++ (p.readL3Bytes room reads).2.1 ∧
      Follows (used.foldl (Heard.read p.stall) h) (out ++ telling (p.readL3Bytes room reads).1) (p.readL3Bytes room reads).2.2 ∧
      (p.readL3Bytes room reads).2.2.stall = p.stall ∧
      (0 < room → (p.readL3Bytes room reads).1 = .ok [] → Idle (p.readL3Bytes room reads).2.2) := by
  unfold Ed64L2Pipe.readL3Bytes
  by_cases hzero : room = 0
  · rw [if_pos hzero]
    refine ⟨[], rfl, ?_, rfl, fun hroom => absurd hzero (Nat.ne_of_gt hroom)⟩
    rw [telling, List.map_nil, List.append_nil]
    exact hf
  · rw [if_neg hzero]
    obtain ⟨⟨used, hused, hf'⟩, hstall, hidle⟩ := readLoop_answers (Nat.pos_of_ne_zero hzero) hf reads
    exact ⟨used, hused, hf', hstall, fun _ => hidle⟩

theorem readAll_follows (hf : Follows h out p) (rooms : List Nat) (reads : List PortRead) :
    ∃ used, reads = used ++ (readAll rooms reads p).2.1 ∧
      Follows (used.foldl (Heard.read p.stall) h) (out ++ (readAll rooms reads p).1.flatMap telling) (readAll rooms reads p).2.2 ∧
      (readAll rooms reads p).2.2.stall = p.stall := by
  induction rooms generalizing h out reads p with
  | nil =>
    refine ⟨[], rfl, ?_, rfl⟩
    rw [readAll, List.flatMap_nil, List.append_nil]
    exact hf
  | cons room rooms ih =>
    obtain ⟨used, hused, hf', hstall, _⟩ := readL3Bytes_answers room hf reads
    obtain ⟨used', hused', hf'', hstall'⟩ := ih hf' (p.readL3Bytes room reads).2.1
    refine ⟨used ++ used', ?_, ?_, hstall'.trans hstall⟩
    · rw [List.append_assoc]
      exact hused.trans (congrArg (used ++ ·) hused')
    · rw [hstall] at hf''
      rw [List.foldl_append, readAll, List.flatMap_cons, ← List.append_assoc]
      exact hf''

theorem open_follows (stall : Nat) : Follows ⟨[], [], 0⟩ [] (.open stall) :=
  ⟨⟨[], rfl, .start wireLook_progress⟩, rfl⟩

theorem heard_bytes (stall : Nat) (h : Heard) (reads : List PortRead) :
    (reads.foldl (Heard.read stall) h).done.flatten ++ (reads.foldl (Heard.read stall) h).now =
      h.done.flatten ++ h.now ++ reads.flatMap PortRead.bytes := by
  have hpause (h : Heard) (waited : Nat) : (h.pause stall waited).done.flatten ++ (h.pause stall waited).now = h.done.flatten ++ h.now := by
    unfold Heard.pause
    split
    · rfl
    · split
      · rfl
      · rw [List.flatten_append, List.flatten_singleton, List.append_nil]
  have hread (h : Heard) (r : PortRead) : (h.read stall r).done.flatten ++ (h.read stall r).now = h.done.flatten ++ h.now ++ r.bytes := by
    unfold Heard.read PortRead.bytes
    cases r.got with
    | timedOut => simp only [hpause, List.append_nil]
    | failed why => simp only [hpause, List.append_nil]
    | data b =>
      cases b with
      | nil => simp only [hpause, List.append_nil]
      | cons x b => simp only [← List.append_assoc, hpause]
  induction reads generalizing h with
  | nil => rw [List.foldl_nil, List.flatMap_nil, List.append_nil]
  | cons r reads ih => rw [List.foldl_cons, ih, hread, List.flatMap_cons, List.append_assoc]

/-- Over every way the port cuts the cart's bytes and however long its reads
wait: what the calls tell, with what is queued, pending or held whole, is what a
scan finds of each piece that a stalled message cuts those bytes into, in order;
and all of it was told once a call with room returns no bytes. -/
theorem readAll_tells (stall : Nat) (rooms : List Nat) (room : Nat) (reads : List PortRead) :
    let r := readAll rooms reads (.open stall)
    let last := r.2.2.readL3Bytes room r.2.1
    (∃ used, reads = used ++ r.2.1 ∧
      (heard stall used).done.flatten ++ (heard stall used).now = used.flatMap PortRead.bytes ∧
      (heard stall used).tell = r.1.flatMap telling ++ r.2.2.l3Rx.map .inl ++ r.2.2.pendingErr.toList.map .inr ++
        tellAll wireLook l3Of r.2.2.wire.buf) ∧
    (0 < room → last.1 = .ok [] → (scan wireLook last.2.2.wire.buf).1 = [] ∧
      ∃ used, reads = used ++ last.2.1 ∧ (heard stall used).tell = r.1.flatMap telling) := by
  obtain ⟨used, hused, hf, hstall⟩ := readAll_follows (open_follows stall) rooms reads
  rw [List.nil_append] at hf
  have hsame : (Ed64L2Pipe.open stall).stall = stall := rfl
  rw [hsame] at hf hstall
  refine ⟨⟨used, hused, heard_bytes stall ⟨[], [], 0⟩ used, hf.tell⟩, fun hroom hlast => ?_⟩
  obtain ⟨used', hused', hf', _, hidle⟩ := readL3Bytes_answers room hf (readAll rooms reads (.open stall)).2.1
  have hi := hidle hroom hlast
  rw [hlast, telling, List.map_nil, List.append_nil, hstall, ← List.foldl_append] at hf'
  refine ⟨by rw [hi.wire], used ++ used', ?_, (hf'.idle hi).symm⟩
  rw [List.append_assoc, ← hused']
  exact hused

/-- A message in two reads. -/
def inTwo : List PortRead := [⟨0, .data ((cartMessage [7]).take 9)⟩, ⟨20, .data ((cartMessage [7]).drop 9)⟩, ⟨100, .timedOut⟩]

theorem readAll_tells_in_two : (readAll [4] inTwo (.open partialMessageStall)).1 = [.ok [7]] ∧
    ∃ used, inTwo = used ++ ((readAll [4] inTwo (.open partialMessageStall)).2.2.readL3Bytes 4 (readAll [4] inTwo (.open partialMessageStall)).2.1).2.1 ∧
      (heard partialMessageStall used).tell = (readAll [4] inTwo (.open partialMessageStall)).1.flatMap telling :=
  ⟨by decide +kernel, ((readAll_tells partialMessageStall [4] 4 inTwo).2 (by decide) (by decide +kernel)).2⟩

/-- Half a message, a stall, and the other half: the message is not read. -/
def cutShort : List PortRead :=
  [⟨0, .data ((cartMessage [7]).take 9)⟩, ⟨partialMessageStall, .timedOut⟩, ⟨0, .data ((cartMessage [7]).drop 9)⟩, ⟨0, .timedOut⟩]

theorem stalled_lost : (readAll [4, 4, 4] cutShort (.open partialMessageStall)).1 = [.ok [], .ok [], .ok []] ∧
    tellAll wireLook l3Of (cutShort.flatMap PortRead.bytes) = [.inl 7] := by
  decide +kernel

end Reading

end Multi64
