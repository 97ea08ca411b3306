import Multi64.AgentScan

/-! Reassembly on the agent: the frames taken off the receive buffer are the
frames of the bytes received, however the driver cut them. -/

namespace Multi64

/-- What the receive loop makes of the buffer and the bytes still to come. -/
structure PullSpec (p p' : Pulled) : Prop where
  suffix : (p'.rx ++ p'.pending) <:+ (p.rx ++ p.pending)
  room : p.rx.length ≤ agentRxCap → p'.rx.length ≤ agentRxCap
  lost : p'.lost = false → p.lost = false
  received : p'.lost = false → ∃ got, p.pending = got ++ p'.pending ∧
    scan rxLook (p.rx ++ got) = scan rxLook p'.rx

theorem PullSpec.refl (p : Pulled) : PullSpec p p :=
  ⟨List.suffix_rfl, id, id, fun _ => ⟨[], rfl, by rw [List.append_nil]⟩⟩

theorem PullSpec.trans {p q r : Pulled} (h : PullSpec p q) (h' : PullSpec q r) : PullSpec p r where
  suffix := h'.suffix.trans h.suffix
  room hp := h'.room (h.room hp)
  lost hr := h.lost (h'.lost hr)
  received := by
    intro hr
    obtain ⟨got, hgot, hscan⟩ := h.received (h'.lost hr)
    obtain ⟨got', hgot', hscan'⟩ := h'.received hr
    refine ⟨got ++ got', by rw [hgot, hgot', List.append_assoc], ?_⟩
    rw [← List.append_assoc, rxLook_stable.scan_congr hscan got', hscan']

theorem PullSpec.frameLen (p : Pulled) : PullSpec p { p with rx := (rxFrameLen p.rx).2 } where
  suffix := by
    obtain ⟨pre, hpre⟩ := (rxFrameLen_spec p.rx).suffix
    refine ⟨pre, ?_⟩
    simp only [← List.append_assoc, hpre]
  room hp := Nat.le_trans (rxFrameLen_spec p.rx).suffix.length_le hp
  lost := id
  received _ := ⟨[], rfl, by rw [List.append_nil]; exact (rxFrameLen_spec p.rx).scan_eq.symm⟩

theorem PullSpec.lose (p : Pulled) (k : Nat) :
    PullSpec p { p with rx := [], pending := p.pending.drop k, lost := true } where
  suffix := (List.drop_suffix k p.pending).trans (List.suffix_append p.rx p.pending)
  room _ := Nat.zero_le _
  lost h := nomatch h
  received h := nomatch h

theorem PullSpec.receive (p : Pulled) {n : Nat} (hn : n ≤ agentRxCap - p.rx.length) :
    PullSpec p { p with rx := p.rx ++ p.pending.take n, pending := p.pending.drop n, arrived := true } where
  suffix := by
    simp only [List.append_assoc, List.take_append_drop]
    exact List.suffix_rfl
  room hp := by
    simp only [List.length_append, List.length_take]
    omega
  lost := id
  received _ := ⟨p.pending.take n, (List.take_append_drop n p.pending).symm, rfl⟩

theorem pull_spec (pulls : Nat) (cuts : List Cut) (p : Pulled) : PullSpec p (pull pulls cuts p) := by
  induction pulls generalizing cuts p with
  | zero => exact .refl p
  | succ pulls ih =>
    rw [pull]
    split
    · exact .refl p
    · have hf := PullSpec.frameLen p
      simp only
      split
      · exact hf
      · split
        · exact hf
        · exact hf.trans (.lose _ _)
        · split
          · exact hf
          · refine hf.trans (PullSpec.trans (.receive _ ?_) (ih _ _))
            exact Nat.le_trans (Nat.min_le_right _ _) (Nat.min_le_left _ _)

/-- The bytes the next tick starts from. -/
def Agent.held (a : Agent) : Bytes := a.rx.drop a.rxDone

/-- A full buffer has a complete frame at its start, the one the last tick
took. -/
structure Agent.Roomy (a : Agent) : Prop where
  le : a.rx.length ≤ agentRxCap
  whole : a.rxDone ≠ 0 → WholeAt a.rx ∧ a.rxDone = rxTotal a.rx
  partly : a.rxDone = 0 → a.rx.length < agentRxCap

theorem Agent.Roomy.held_lt {a : Agent} (h : a.Roomy) : a.held.length < agentRxCap := by
  rw [Agent.held, List.length_drop]
  rcases Nat.eq_zero_or_pos a.rxDone with hz | hpos
  · have hlt := h.partly hz
    omega
  · have hle := h.le
    have hcap : 0 < agentRxCap := by decide
    omega

/-- What one `stream_frame` makes of the agent and the bytes still to come. -/
structure StreamSpec (a : Agent) (pending : Bytes) (r : Streamed) : Prop where
  suffix : (r.agent.rx ++ r.pending) <:+ (a.held ++ pending)
  roomy : a.Roomy → r.agent.Roomy
  done : r.agent.rxDone = r.len
  ready : r.agent.ready = a.ready
  whole : r.len ≠ 0 → WholeAt r.agent.rx ∧ r.len = rxTotal r.agent.rx
  received : r.lost = false → r.expired = false → ∃ got, pending = got ++ r.pending ∧
    scan rxLook (a.held ++ got) = scan rxLook r.agent.rx
  fresh : r.len ≠ 0 → r.expired = false
  idle : r.len = 0 → (scan rxLook r.agent.rx).1 = []
  nothing : r.len = 0 → r.lost = false → ∃ got, pending = got ++ r.pending ∧
    (scan rxLook (a.held ++ got)).1 = []

theorem Agent.streamFrame_spec (a : Agent) (pending : Bytes) (cuts : List Cut) :
    StreamSpec a pending (a.streamFrame pending cuts) := by
  have hpull := pull_spec agentStreamPulls cuts ⟨a.held, pending, false, false⟩
  rw [Agent.streamFrame]
  rw [Agent.held] at hpull
  simp only
  generalize pull agentStreamPulls cuts ⟨a.rx.drop a.rxDone, pending, false, false⟩ = p at hpull ⊢
  have hp := hpull.trans (.frameLen p)
  have hf := rxFrameLen_spec p.rx
  generalize rxFrameLen p.rx = r at hp hf ⊢
  have hroom : a.Roomy → r.2.length ≤ agentRxCap := fun ha => hp.room (Nat.le_of_lt ha.held_lt)
  have hgot := hp.received
  split
  case isTrue hr =>
    have hw := hf.whole hr
    exact ⟨hp.suffix, fun ha => ⟨hroom ha, fun _ => hw, fun hz => absurd hz hr⟩, rfl, rfl,
      fun _ => hw, fun hl _ => hgot hl, fun _ => rfl, fun hz => absurd hz hr, fun hz => absurd hz hr⟩
  case isFalse hr =>
    have hz : r.1 = 0 := Decidable.not_not.mp hr
    obtain ⟨hwait, hlt⟩ := hf.partly hz
    have hscan : (scan rxLook r.2).1 = [] := by rw [scan_wait hwait]
    have hroomy : ∀ idle, Agent.Roomy ⟨a.ready, a.initAttempts, r.2, 0, idle⟩ :=
      fun _ => ⟨Nat.le_of_lt hlt, fun h => absurd rfl h, fun _ => hlt⟩
    have hnone : p.lost = false → ∃ got, pending = got ++ p.pending ∧
        (scan rxLook (a.rx.drop a.rxDone ++ got)).1 = [] := by
      intro hl
      obtain ⟨got, hpend, hsame⟩ := hgot hl
      exact ⟨got, hpend, by rw [hsame, hscan]⟩
    split
    · exact ⟨hp.suffix, fun _ => hroomy _, rfl, rfl, fun h => absurd rfl h, fun hl _ => hgot hl,
        fun _ => rfl, fun _ => hscan, fun _ hl => hnone hl⟩
    · split
      · have hcap : 0 < agentRxCap := by decide
        refine ⟨?_, fun _ => ⟨Nat.zero_le _, fun h => absurd rfl h, fun _ => hcap⟩, rfl, rfl,
          fun h => absurd rfl h, fun _ he => (nomatch he), fun h => absurd rfl h, fun _ => ?_,
          fun _ hl => hnone hl⟩
        · exact (List.suffix_append r.2 p.pending).trans hp.suffix
        · rw [rxLook_progress.scan_nil]
      · exact ⟨hp.suffix, fun _ => hroomy _, rfl, rfl, fun h => absurd rfl h, fun hl _ => hgot hl,
          fun _ => rfl, fun _ => hscan, fun _ hl => hnone hl⟩

/-- The application payload of a frame, if it is one the agent serves. -/
def appPayload (f : Bytes) : Option Bytes :=
  if byteAt f 4 = 0x10 ∧ byteAt f 5 = 0x00 ∧ headerLen < f.length then some (f.drop headerLen) else none

theorem tickPayload_eq {b : Bytes} (h : WholeAt b) :
    tickPayload b (rxTotal b) = appPayload (b.take (rxTotal b)) := by
  have hge : 16 ≤ rxTotal b := rxTotal_ge b
  have hfits := h.fits
  have hmagic := take_four_of_magicAt h.magicAt (show 4 ≤ b.length by omega)
  have hbyte : ∀ i < 16, byteAt (b.take (rxTotal b)) i = byteAt b i := by
    intro i hi
    conv_rhs => rw [← List.take_append_drop (rxTotal b) b]
    rw [byteAt_append_left (by rw [List.length_take]; omega)]
  have hlen : (b.take (rxTotal b)).length = headerLen + (readBe32 b 12).toNat := by
    rw [List.length_take, Nat.min_eq_left hfits, rxTotal]
  have hslice : slice b headerLen (readBe32 b 12).toNat = (b.take (rxTotal b)).drop headerLen := by
    rw [slice, List.drop_take, rxTotal, Nat.add_sub_cancel_left]
  simp only [tickPayload, appPayload, hmagic, hbyte 4 (by omega), hbyte 5 (by omega), hlen, hslice]
  simp only [rxTotal, Nat.add_sub_cancel_left, Nat.lt_irrefl, decide_false, Bool.or_false,
    Nat.lt_add_right_iff_pos]
  by_cases h4 : byteAt b 4 = 0x10 <;> by_cases h5 : byteAt b 5 = 0x00 <;>
    simp [h4, h5, Nat.pos_iff_ne_zero]

/-- What one tick makes of the agent and the bytes still to come. -/
structure TickSpec (a : Agent) (pending : Bytes) (out : TickOut) (a' : Agent) (pending' : Bytes) :
    Prop where
  suffix : (a'.held ++ pending') <:+ (a.held ++ pending)
  roomy : a.Roomy → a'.Roomy
  contiguous : ∀ f, out.frame = some f → f <:+: a.held ++ pending
  handled : out.handled = out.frame.bind appPayload
  taken : out.lost = false → out.expired = false → ∃ got, pending = got ++ pending' ∧
    ∀ sent frames, Taken rxLook sent frames a.held →
      Taken rxLook (sent ++ got) (frames ++ out.frame.toList) a'.held

theorem TickSpec.still {a a' : Agent} (pending : Bytes) (hh : a'.held = a.held)
    (hr : a.Roomy → a'.Roomy) : TickSpec a pending ⟨none, none, false, false⟩ a' pending where
  suffix := by simpa only [hh] using List.suffix_rfl
  roomy := hr
  contiguous _ h := nomatch h
  handled := rfl
  taken _ _ := ⟨[], rfl, fun sent frames h => by
    simpa only [List.append_nil, Option.toList_none, hh] using h⟩

theorem StreamSpec.tick {a a' : Agent} {pending : Bytes} {r : Streamed} (h : StreamSpec a' pending r)
    (hh : a'.held = a.held) (hr : a.Roomy → a'.Roomy) :
    TickSpec a pending
      ⟨if r.len = 0 then none else some (r.agent.rx.take r.len),
        if r.len = 0 then none else tickPayload r.agent.rx r.len, r.lost, r.expired⟩
      r.agent r.pending where
  suffix := by
    obtain ⟨pre, hpre⟩ := h.suffix
    refine ⟨pre ++ r.agent.rx.take r.len, ?_⟩
    rw [Agent.held, h.done, ← hh, ← hpre, List.append_assoc, ← List.append_assoc (r.agent.rx.take r.len),
      List.take_append_drop]
  roomy ha := h.roomy (hr ha)
  contiguous := by
    intro f hf
    obtain ⟨pre, hpre⟩ := h.suffix
    split at hf
    · cases hf
    · cases hf
      refine ⟨pre, r.agent.rx.drop r.len ++ r.pending, ?_⟩
      rw [← hh, ← hpre]
      simp only [List.append_assoc, List.take_append_drop, ← List.append_assoc (r.agent.rx.take r.len)]
  handled := by
    by_cases hz : r.len = 0
    · simp only [hz, if_true, Option.bind_none]
    · obtain ⟨hw, hlen⟩ := h.whole hz
      simp only [if_neg hz, Option.bind_some]
      rw [hlen, tickPayload_eq hw]
  taken := by
    intro hl he
    obtain ⟨got, hgot, hscan⟩ := h.received hl he
    refine ⟨got, hgot, fun sent frames ht => ?_⟩
    rw [← hh] at ht
    have hrx := (ht.receive rxLook_stable got).congr hscan
    by_cases hz : r.len = 0
    · simpa only [hz, if_true, Option.toList_none, List.append_nil, Agent.held, h.done, List.drop_zero]
        using hrx
    · obtain ⟨hw, hlen⟩ := h.whole hz
      simp only [if_neg hz]
      rw [Agent.held, h.done, hlen]
      exact hrx.take rxLook_progress hw.look

theorem Agent.tick_spec (a : Agent) (pending : Bytes) (input : TickIn) :
    TickSpec a pending (a.tick pending input).1 (a.tick pending input).2.1 (a.tick pending input).2.2 := by
  rw [Agent.tick]
  split
  · exact .still pending rfl id
  · have hh : (if a.ready then a else { a with ready := input.init, initAttempts := a.initAttempts + 1 }).held =
        a.held := by split <;> rfl
    have hr : a.Roomy →
        (if a.ready then a else { a with ready := input.init, initAttempts := a.initAttempts + 1 }).Roomy := by
      intro ha
      split
      · exact ha
      · exact ⟨ha.le, ha.whole, ha.partly⟩
    simp only
    generalize (if a.ready then a else { a with ready := input.init, initAttempts := a.initAttempts + 1 }) = a'
      at hh hr ⊢
    split
    · exact .still pending hh hr
    · have ht := (a'.streamFrame_spec pending input.cuts).tick hh hr
      split
      case isTrue hz => simpa only [hz, if_true] using ht
      case isFalse hz => simpa only [hz, if_false] using ht

/-- What a run of ticks makes of the agent and the bytes the host sends. -/
structure RunSpec (a : Agent) (pending : Bytes) (r : Ran) : Prop where
  suffix : (r.agent.held ++ r.pending) <:+ (a.held ++ pending)
  roomy : a.Roomy → r.agent.Roomy
  contiguous : ∀ out ∈ r.outs, ∀ f, out.frame = some f → f <:+: a.held ++ pending
  handled : r.outs.filterMap TickOut.handled = (r.outs.filterMap TickOut.frame).filterMap appPayload
  taken : (∀ out ∈ r.outs, out.lost = false ∧ out.expired = false) →
    ∃ got, pending = got ++ r.pending ∧ ∀ sent frames, Taken rxLook sent frames a.held →
      Taken rxLook (sent ++ got) (frames ++ r.outs.filterMap TickOut.frame) r.agent.held

theorem Agent.run_spec (a : Agent) (pending : Bytes) (ins : List TickIn) :
    RunSpec a pending (a.run pending ins) := by
  induction ins generalizing a pending with
  | nil =>
    refine ⟨List.suffix_rfl, id, fun _ h => (nomatch h), rfl, fun _ => ⟨[], rfl, fun sent frames h => ?_⟩⟩
    simpa only [Agent.run, List.filterMap_nil, List.append_nil] using h
  | cons input ins ih =>
    have ht := a.tick_spec pending input
    have hr := ih (a.tick pending input).2.1 (a.tick pending input).2.2
    rw [Agent.run]
    generalize a.tick pending input = t at ht hr ⊢
    generalize t.2.1.run t.2.2 ins = rest at hr ⊢
    refine ⟨hr.suffix.trans ht.suffix, fun h => hr.roomy (ht.roomy h), ?_, ?_, ?_⟩
    · intro out hout f hf
      rcases List.mem_cons.mp hout with rfl | hout
      · exact ht.contiguous f hf
      · exact (hr.contiguous out hout f hf).trans ht.suffix.isInfix
    · rw [List.filterMap_cons, List.filterMap_cons, ht.handled, hr.handled]
      cases hf : t.1.frame with
      | none => rfl
      | some f => simp only [Option.bind_some, List.filterMap_cons]
    · intro hok
      obtain ⟨hl, he⟩ := hok t.1 List.mem_cons_self
      obtain ⟨got, hgot, hstep⟩ := ht.taken hl he
      obtain ⟨got', hgot', hrest⟩ := hr.taken fun out h => hok out (List.mem_cons_of_mem _ h)
      refine ⟨got ++ got', by rw [hgot, hgot', List.append_assoc], fun sent frames h => ?_⟩
      have hall := hrest _ _ (hstep sent frames h)
      rw [← List.append_assoc]
      cases hf : t.1.frame with
      | none => simpa only [List.filterMap_cons, hf, Option.toList_none, List.append_nil] using hall
      | some f =>
        simpa only [List.filterMap_cons, hf, Option.toList_some, List.append_assoc, List.singleton_append]
          using hall

theorem Agent.boot_roomy : Agent.boot.Roomy :=
  ⟨Nat.zero_le _, fun h => absurd rfl h, fun _ => by decide⟩

section Quiet

theorem pull_nil (pulls : Nat) (p : Pulled) :
    (pull pulls [] p).pending = p.pending ∧ (pull pulls [] p).lost = p.lost := by
  cases pulls with
  | zero => exact ⟨rfl, rfl⟩
  | succ pulls =>
    rw [pull]
    split
    · exact ⟨rfl, rfl⟩
    · simp only
      split <;> exact ⟨rfl, rfl⟩

theorem Agent.streamFrame_nil (a : Agent) (pending : Bytes) :
    (a.streamFrame pending []).pending = pending ∧ (a.streamFrame pending []).lost = false := by
  obtain ⟨hpend, hlost⟩ := pull_nil agentStreamPulls ⟨a.rx.drop a.rxDone, pending, false, false⟩
  rw [Agent.streamFrame]
  simp only
  split
  · exact ⟨hpend, hlost⟩
  · split
    · exact ⟨hpend, hlost⟩
    · split <;> exact ⟨hpend, hlost⟩

/-- A frame in which the driver delivers nothing. -/
def quietTick : TickIn := ⟨true, []⟩

/-- A quiet tick takes the first frame of those the buffer holds. -/
theorem Agent.tick_quiet {a : Agent} (ha : a.ready = true) (pending : Bytes) :
    (a.tick pending quietTick).1.frame = (scan rxLook a.held).1.head? ∧
      (scan rxLook (a.tick pending quietTick).2.1.held).1 = (scan rxLook a.held).1.tail ∧
      (a.tick pending quietTick).2.1.ready = true ∧ (a.tick pending quietTick).2.2 = pending := by
  have hs := a.streamFrame_spec pending []
  obtain ⟨hpend, hlost⟩ := a.streamFrame_nil pending
  simp only [Agent.tick, ha, Bool.not_true, Bool.false_and, Bool.false_eq_true, if_false, if_true, quietTick]
  generalize a.streamFrame pending [] = r at hs hpend hlost ⊢
  have hgot : ∀ got, pending = got ++ r.pending → got = [] := by
    intro got h
    rw [hpend] at h
    exact List.self_eq_append_left.mp h
  have hheld := hs.done
  split
  case isTrue hz =>
    obtain ⟨got, hpre, hnone⟩ := hs.nothing hz hlost
    rw [hgot got hpre, List.append_nil] at hnone
    rw [hz] at hheld
    have hidle := hs.idle hz
    refine ⟨?_, ?_, hs.ready.trans ha, hpend⟩
    · rw [hnone, List.head?_nil]
    · rw [hnone, Agent.held, hheld, List.drop_zero, hidle, List.tail_nil]
  case isFalse hz =>
    obtain ⟨hw, hlen⟩ := hs.whole hz
    obtain ⟨got, hpre, hscan⟩ := hs.received hlost (hs.fresh hz)
    rw [hgot got hpre, List.append_nil, rxLook_progress.scan_emit hw.look] at hscan
    refine ⟨?_, ?_, hs.ready.trans ha, hpend⟩
    · rw [hscan, hlen, List.head?_cons]
    · rw [hscan, Agent.held, hheld, hlen, List.tail_cons]

theorem Agent.run_quiet {a : Agent} (ha : a.ready = true) (pending : Bytes) (n : Nat) :
    (a.run pending (List.replicate n quietTick)).outs.filterMap TickOut.frame =
      (scan rxLook a.held).1.take n := by
  induction n generalizing a pending with
  | zero => rfl
  | succ n ih =>
    obtain ⟨hframe, hheld, hready, _⟩ := Agent.tick_quiet ha pending
    rw [List.replicate_succ, Agent.run, List.filterMap_cons, hframe, ih hready, hheld]
    cases (scan rxLook a.held).1 with
    | nil => simp
    | cons f fs => rfl

theorem Agent.run_append (a : Agent) (pending : Bytes) (ins ins' : List TickIn) :
    (a.run pending (ins ++ ins')).outs = (a.run pending ins).outs ++
      ((a.run pending ins).agent.run (a.run pending ins).pending ins').outs := by
  induction ins generalizing a pending with
  | nil => rfl
  | cons input ins ih => simp only [List.cons_append, Agent.run, ih]

end Quiet

/-- For a run from boot over `stream`: without loss or expiry the frames taken
and the ones still held are the frames of the bytes received, and once all
have come the rest follows a frame a tick; the handler gets the application
payloads among them; the buffer always has room at the start of a tick; and
every frame is a run of bytes of `stream` whatever was lost. -/
theorem Agent.reassembles (stream : Bytes) (ins : List TickIn) :
    let r := Agent.boot.run stream ins
    ((∀ out ∈ r.outs, out.lost = false ∧ out.expired = false) →
      (∀ received, stream = received ++ r.pending →
        r.outs.filterMap TickOut.frame ++ referenceRequests r.agent.held = referenceRequests received) ∧
      (r.pending = [] → r.agent.ready = true → ∀ n, (referenceRequests r.agent.held).length ≤ n →
        (Agent.boot.run stream (ins ++ List.replicate n quietTick)).outs.filterMap TickOut.frame =
          referenceRequests stream)) ∧
    r.outs.filterMap TickOut.handled = (r.outs.filterMap TickOut.frame).filterMap appPayload ∧
    r.agent.held.length < agentRxCap ∧
    (r.agent.rx.length = agentRxCap →
      ∃ f, (referenceRequests r.agent.rx).head? = some f ∧ f <+: r.agent.rx) ∧
    ∀ out ∈ r.outs, ∀ f, out.frame = some f → f <:+: stream := by
  intro r
  have hr : RunSpec .boot stream r := Agent.boot.run_spec stream ins
  have hroomy := hr.roomy Agent.boot_roomy
  refine ⟨fun hok => ?_, hr.handled, hroomy.held_lt, fun hfull => ?_, hr.contiguous⟩
  · obtain ⟨got, hgot, htaken⟩ := hr.taken hok
    have hscan := congrArg Prod.fst (htaken [] [] (.start rxLook []))
    simp only [List.nil_append, ← referenceRequests_eq] at hscan
    refine ⟨fun received hrec => ?_, fun hpend hready n hn => ?_⟩
    · have hsame : received = got := List.append_cancel_right (hrec.symm.trans hgot)
      rw [hsame, hscan]
    · have hall : stream = got := by rw [hgot, hpend, List.append_nil]
      rw [referenceRequests_eq] at hn
      rw [Agent.run_append, List.filterMap_append, Agent.run_quiet hready, List.take_of_length_le hn,
        ← referenceRequests_eq, ← hscan, ← hall]
  · have hdone : r.agent.rxDone ≠ 0 := fun hz => by
      have hlt := hroomy.partly hz
      omega
    obtain ⟨hw, _⟩ := hroomy.whole hdone
    refine ⟨_, ?_, List.take_prefix (rxTotal r.agent.rx) r.agent.rx⟩
    rw [referenceRequests_eq, rxLook_progress.scan_emit hw.look]
    rfl

def heartbeatFrame : Bytes := magic ++ [0x20, 0x00] ++ List.replicate 10 0x00

theorem findMagic_replicate_zero (n : Nat) : findMagic (List.replicate n 0) = none := by
  induction n with
  | zero => rfl
  | succ n ih =>
    have hne : (List.replicate (n + 1) (0 : UInt8)).take 4 ≠ magic := by
      rw [List.take_replicate]
      intro h
      have hmem : (0x4D : UInt8) ∈ List.replicate (min 4 (n + 1)) 0 := by
        rw [h]
        decide
      exact absurd (List.eq_of_mem_replicate hmem) (by decide)
    rw [List.replicate_succ] at hne ⊢
    rw [findMagic, if_neg hne, ih]
    rfl

def heartbeatRun : Ran := Agent.boot.run heartbeatFrame [⟨true, [.take 16]⟩]

/-- A tick's receives when the cart delivers a buffer full of zeros at once. -/
def noisePull : Pulled :=
  pull agentStreamPulls [.take agentRxCap] ⟨[], List.replicate agentRxCap 0, false, false⟩

theorem noisePull_rx : noisePull.rx = List.replicate agentRxCap 0 := by
  have hlen : (List.replicate agentRxCap (0 : UInt8)).length = agentRxCap := List.length_replicate
  have hempty : rxFrameLen [] = (0, []) := by decide
  have hcap : ¬ agentRxCap ≤ 0 := by decide
  have hmin : min agentRxCap (min (agentRxCap - 0) agentRxCap) = agentRxCap := by
    rw [Nat.sub_zero, Nat.min_self, Nat.min_self]
  have htake : (List.replicate agentRxCap (0 : UInt8)).take agentRxCap = List.replicate agentRxCap 0 :=
    List.take_of_length_le (Nat.le_of_eq hlen)
  rw [noisePull, agentStreamPulls, pull]
  simp only [List.length_nil, hcap, if_false, hempty, hlen, hmin, ne_eq, not_true_eq_false, htake,
    List.nil_append]
  rw [if_neg (by decide), pull, if_pos (Nat.le_of_eq hlen.symm)]

/-- A heartbeat is a frame of the stream but no request, so the handler never
sees it. And a delivery of noise fills the buffer until the tick searches it. -/
theorem Agent.heartbeat_not_handled :
    (∀ out ∈ heartbeatRun.outs, out.lost = false ∧ out.expired = false) ∧
      heartbeatRun.pending = [] ∧ heartbeatRun.agent.held = [] ∧
      referenceRequests heartbeatFrame = [heartbeatFrame] ∧
      heartbeatRun.outs.filterMap TickOut.handled = [] ∧
      noisePull.rx.length = agentRxCap ∧ referenceRequests noisePull.rx = [] := by
  refine ⟨by decide, by decide, by decide, ?_, by decide, ?_, ?_⟩
  · rw [referenceRequests_eq]
    decide
  · rw [noisePull_rx, List.length_replicate]
  · rw [noisePull_rx, referenceRequests]
    simp only [findMagic_replicate_zero]

end Multi64
