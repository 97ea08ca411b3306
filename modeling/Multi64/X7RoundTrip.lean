import Multi64.X7Send

/-! The framing in both directions: what one end puts on the wire, the other
end reads back as the payload. -/

namespace Multi64

/-- The host's bytes are in the cart by the next access and the call has time left. -/
structure X7.Calm (env : X7Env) (s : X7) : Prop where
  inTime : ∀ i, env.clock i - s.callAt < s.callTicks
  arrived : ∀ i, env.host.length ≤ s.arrived + (env.pi i).arrive
  wrWant : s.wrWant = 0

/-- The PI is never busy and the cart is powered. -/
structure X7Env.Quiet (env : X7Env) : Prop where
  busy : ∀ i, (env.pi i).busy = false
  powered : ∀ i, (env.pi i).powered = true

section Accesses

variable {env : X7Env} (henv : env.Quiet) {x s : X7}

theorem X7.Calm.pump (h : s.Calm env) (hplace : s.place ≤ env.host.length) (i : Nat) :
    (s.pump env (env.pi i)).Calm env ∧ (s.pump env (env.pi i)).arrived = env.host.length ∧
      (s.pump env (env.pi i)).rdWant = 0 := by
  have harrived := h.arrived i
  have hall : (s.pump env (env.pi i)).arrived = env.host.length := by
    change min env.host.length (s.arrived + (env.pi i).arrive) = env.host.length
    omega
  refine ⟨⟨h.inTime, fun _ => by omega, ?_⟩, hall, ?_⟩
  · change s.wrWant - _ = 0
    rw [h.wrWant, Nat.zero_sub]
  · change s.rdWant - min s.rdWant (min env.host.length (s.arrived + (env.pi i).arrive) - s.taken) = 0
    unfold X7.place at hplace
    omega

/-- Along from `x` with the conditions kept. -/
def X7.Walks (env : X7Env) (x s : X7) : Prop := x.Along env s ∧ s.Calm env

theorem X7.Walks.refl (hw : x.Wired env) (hc : x.Calm env) : x.Walks env x := ⟨.refl hw, hc⟩

theorem edCount_walks : Ensures (x.Walks env) (edCount env) fun now s => x.Walks env s ∧ ∃ i, now = env.clock i := by
  apply Ensures.get_bind
  intro y hy
  have hcount := edCount_along.holds y hy.1
  exact Ensures.modify_here (fun s => x.Walks env s) ⟨hcount, hy.2.inTime, hy.2.arrived, hy.2.wrWant⟩
    (Ensures.pure fun s hs => ⟨hs, _, rfl⟩)

theorem outOfTime_walks : Ensures (x.Walks env) (outOfTime env) fun late s => late = false ∧ x.Walks env s := by
  apply Ensures.bind _ edCount_walks
  intro now
  apply Ensures.get_bind
  rintro y ⟨hy, i, rfl⟩
  have htime := hy.2.inTime i
  exact Ensures.pure_here ⟨decide_eq_false (UInt32.not_le.mpr htime), hy⟩

include henv

theorem piAccess_walks (hplace : x.place ≤ env.host.length) : Ensures (x.Walks env) (piAccess env)
    fun a s => (a.busy = false ∧ a.powered = true) ∧ x.Walks env s ∧ s.arrived = env.host.length ∧ s.rdWant = 0 := by
  apply Ensures.get_bind
  intro y hy
  apply Ensures.modify_here fun s => x.Walks env s ∧ s.arrived = env.host.length ∧ s.rdWant = 0
  · obtain ⟨hcalm, hrest⟩ := hy.2.pump (by rw [hy.1.2.place]; exact hplace) y.accesses
    exact ⟨⟨hy.1.pump _, hcalm⟩, hrest⟩
  · exact Ensures.pure fun s hs => ⟨⟨henv.busy _, henv.powered _⟩, hs⟩

theorem piReadStatus_walks (hplace : x.place ≤ env.host.length) : Ensures (x.Walks env) (piReadStatus env)
    fun r s => (∃ status, r = some status ∧ status.act = false ∧ status.power = true ∧
      (status.rxf = true → s.place = env.host.length)) ∧ x.Walks env s := by
  apply Ensures.bind _ (piAccess_walks henv hplace)
  intro a
  apply Ensures.get_bind
  rintro y ⟨⟨hbusy, hpower⟩, hy, harrived, hrd⟩
  apply Ensures.ite
  · intro hb
    rw [hbusy] at hb
    cases hb
  · intro _
    have hwr := hy.2.wrWant
    refine Ensures.pure_here ⟨⟨_, rfl, decide_eq_false (by omega), hpower, fun hrxf => ?_⟩, hy⟩
    have heq : y.taken = y.arrived := of_decide_eq_true hrxf
    rw [X7.place, hrd, heq, harrived, Nat.add_zero]

theorem usbIdle_walks (hplace : x.place ≤ env.host.length) : Ensures (x.Walks env) (usbIdle env)
    fun r s => ∃ status, r = .idle status ∧ x.Idle env s ∧ s.Calm env ∧ status.power = true ∧
      (status.rxf = true → s.place = env.host.length) := by
  have hloop : ∀ began spins, Ensures (x.Walks env) (usbIdleLoop env began (spins + 1))
      fun r s => ∃ status, r = some (.idle status) ∧ s.Calm env ∧ status.power = true ∧
        (status.rxf = true → s.place = env.host.length) := by
    intro began spins
    apply Ensures.bind _ outOfTime_walks
    intro late
    apply Ensures.ite
    · rintro rfl
      exact ⟨fun s hs => nomatch hs.1⟩
    · intro _
      apply Ensures.bind _ ((piReadStatus_walks henv hplace).starts fun s hs => hs.2)
      intro r
      apply Ensures.each
      rintro y ⟨⟨status, rfl, hact, hpower, hrxf⟩, hy⟩
      refine Ensures.ite (fun h => ?_) fun _ => ?_
      · rw [hact] at h
        cases h
      · exact Ensures.modify_here (fun s => s.Calm env ∧ (status.rxf = true → s.place = env.host.length))
          ⟨⟨hy.2.inTime, hy.2.arrived, hy.2.wrWant⟩, hrxf⟩
          (Ensures.pure fun s hs => ⟨status, rfl, hs.1, hpower, hs.2⟩)
  have hidle : Ensures (x.Walks env) (usbIdle env) fun r s => ∃ status, r = .idle status ∧ s.Calm env ∧
      status.power = true ∧ (status.rxf = true → s.place = env.host.length) := by
    apply Ensures.bind _ edCount_walks
    intro began
    apply Ensures.bind _ ((hloop began 19999).starts fun s hs => hs.1)
    intro r
    apply Ensures.each
    rintro y ⟨status, rfl, hy⟩
    exact Ensures.pure_here ⟨status, rfl, hy⟩
  apply ((usbIdle_leaves.and hidle).starts fun s hs => ⟨hs.1, hs⟩).ends
  rintro r s ⟨hleave, status, rfl, hcalm, hpower, hrxf⟩
  exact ⟨status, rfl, hleave.1, hcalm, hpower, hrxf⟩

theorem usbAsk_walks {n : Nat} (hn : n ≤ edWindow) (hpull : x.pull = 0) (hrd : x.rdWant = 0)
    (hplace : x.place ≤ env.host.length) : Ensures (x.Walks env) (usbAsk env n)
    fun ok s => ok = true ∧ x.Asked env n s ∧ s.Calm env := by
  have hask : Ensures (x.Walks env) (usbAsk env n) fun ok s => ok = true ∧ s.Calm env := by
    apply Ensures.bind _ outOfTime_walks
    intro late
    apply Ensures.ite
    · rintro rfl
      exact ⟨fun s hs => nomatch hs.1⟩
    · intro _
      apply Ensures.bind (fun w s => w.stored = true ∧ s.Calm env)
      · apply Ensures.bind _ ((piAccess_walks henv hplace).starts fun s hs => hs.2)
        intro a
        apply Ensures.ite
        · intro hbusy
          exact ⟨fun s hs => by rw [hs.1.1] at hbusy; cases hbusy⟩
        · intro _
          exact Ensures.modify_bind (fun s => s.Calm env)
            (fun s hs => ⟨hs.2.1.2.inTime, hs.2.1.2.arrived, rfl⟩) (Ensures.pure fun s hs => ⟨rfl, hs⟩)
      · intro w
        apply Ensures.ite
        · intro hw
          exact ⟨fun s hs => by simp [hs.1] at hw⟩
        · intro _
          exact Ensures.modify_bind (fun s => s.Calm env)
            (fun s hs => ⟨hs.2.inTime, hs.2.arrived, hs.2.wrWant⟩) (Ensures.pure fun s hs => ⟨rfl, hs⟩)
  apply (((usbAsk_asks hn hpull hrd).and hask).starts fun s hs => ⟨hs.1, hs⟩).ends
  rintro ok s ⟨hasked, rfl, hcalm⟩
  exact ⟨rfl, hasked, hcalm⟩

theorem usbTake_walks (hpull : x.pull ≠ 0) (hplace : x.place ≤ env.host.length) : Ensures (x.Walks env) (usbTake env)
    fun r s => ∃ b, r = some b ∧ x.Taken env b s ∧ s.Calm env := by
  have htake : Ensures (x.Walks env) (usbTake env) fun r s => (∃ b, r = some b) ∧ s.Calm env := by
    apply Ensures.get_bind
    intro y hy
    apply Ensures.bind _ ((usbIdle_walks henv hplace).here hy)
    intro r
    apply Ensures.each
    rintro z ⟨status, rfl, hz, hcalm, -, -⟩
    have hzplace : z.place ≤ env.host.length := by
      rw [hz.along.2.place]
      exact hplace
    apply Ensures.bind _ (outOfTime_walks.here (X7.Walks.refl hz.along.1 hcalm))
    intro late
    apply Ensures.ite
    · rintro rfl
      exact ⟨fun s hs => nomatch hs.1⟩
    · intro _
      apply Ensures.bind (fun r s => (∃ b, r = some b) ∧ s.Calm env)
      · apply Ensures.bind _ ((piAccess_walks henv hzplace).starts fun s hs => hs.2)
        intro a
        apply Ensures.get_bind
        rintro t ⟨⟨hbusy, -⟩, ht, -⟩
        apply Ensures.ite
        · intro hb
          rw [hbusy] at hb
          cases hb
        · exact fun _ => Ensures.pure_here ⟨⟨_, rfl⟩, ht.2⟩
      · intro r
        apply Ensures.each
        rintro t ⟨⟨b, rfl⟩, ht⟩
        exact Ensures.modify_here (fun s => s.Calm env) ⟨ht.inTime, ht.arrived, ht.wrWant⟩
          (Ensures.pure fun s hs => ⟨⟨_, rfl⟩, hs⟩)
  apply (((usbTake_takes hpull).and htake).starts fun s hs => ⟨hs.1, hs⟩).ends
  rintro r s ⟨htaken, ⟨b, rfl⟩, hcalm⟩
  exact ⟨b, rfl, htaken, hcalm⟩

end Accesses

section Receive

variable {env : X7Env} {ms : List UsbMessage} {n : Nat} {m : UsbMessage} {q : List (Option UInt8)}

/-- The first `n` messages are done with and the queue holds `q`. -/
def At (n : Nat) (q : List (Option UInt8)) (k : Nat) (syms : List (Option UInt8)) : Prop := k = n ∧ syms = q

/-- On the way through message `n`. -/
structure X7.Passing (env : X7Env) (ms : List UsbMessage) (n : Nat) (q : List (Option UInt8)) (s : X7) : Prop where
  sound : s.Sound env ms (At n q)
  calm : s.Calm env
  kept : s.abandoned = false

theorem X7.Passing.placed {s : X7} (h : s.Passing env ms n q) : s.toRxPath.Placed ms (At n q) s.taken s.place :=
  h.sound.placed fun hab => absurd (h.kept.symm.trans hab) (by decide)

theorem X7.Passing.walks {s : X7} (h : s.Passing env ms n q) : s.Walks env s := X7.Walks.refl h.sound.wired h.calm

/-- Inside a message its end is still to come. -/
theorem RxPath.InMessage.le_length {r : RxPath} {k : Nat} {m : UsbMessage} {T : Nat → List (Option UInt8) → Prop}
    (h : r.InMessage ms T k m) : offset ms k + 12 + m.padded ≤ (hostStream ms).length := by
  have hnext := offset_succ h.found
  have hend := offset_le ms (k + 1)
  have hlen := m.wire_length
  omega

variable (hhost : env.host = hostStream ms) (henv : env.Quiet)

include hhost henv

theorem rxTrailer_passes : Ensures (fun s => s.Passing env ms n q ∧ s.phase = .trailer) (rxTrailer env)
    fun r s => r = .done ∧ s.Calm env ∧ s.abandoned = false ∧ s.phase = .header ∧ s.pull = 0 := by
  apply Ensures.each
  rintro x ⟨hx, hphase⟩
  have hfour := hx.sound.formed.atTrailer hphase
  have hp := hx.placed
  rw [RxPath.Placed, hphase] at hp
  obtain ⟨k, m, hp⟩ := hp
  have hend := offset_le ms (k + 1)
  have hplace : x.place ≤ env.host.length := by
    rw [hp.stands, hhost]
    exact hend
  apply Ensures.bind _ ((usbTake_walks henv (by omega) hplace).here hx.walks)
  intro r
  apply Ensures.each
  rintro y ⟨b, rfl, hy, hcalm⟩
  have hbytes := hy.bytes
  rw [hhost, hp.stands, hfour, slice_trailer hp.found] at hbytes
  have hab : y.abandoned = false := by
    rw [hy.path]
    exact hx.kept
  have hpull : y.pull = 0 := congrArg RxPath.pull hy.path
  apply Ensures.modify_here fun s => s.Calm env ∧ s.abandoned = false ∧ s.phase = .header ∧ s.pull = 0
  · exact ⟨⟨hcalm.inTime, hcalm.arrived, hcalm.wrWant⟩, hab, rfl, hpull⟩
  · apply Ensures.ite
    · intro hcmp
      rw [hbytes] at hcmp
      exact (hcmp rfl).elim
    · intro _
      apply Ensures.modify_bind fun s => s.Calm env ∧ s.abandoned = false ∧ s.phase = .header ∧ s.pull = 0
      · exact fun s hs => ⟨⟨hs.1.inTime, hs.1.arrived, hs.1.wrWant⟩, hs.2⟩
      · exact Ensures.pure fun s hs => ⟨rfl, hs⟩

theorem payloadLoop_passes (fuel : Nat) : Ensures (fun s => s.Passing env ms n q ∧ s.phase = .payload ∧
      2 * s.msgLeft + (if s.pull = 0 then 0 else 1) < fuel) (payloadLoop env fuel)
    fun r s => r = none ∧ s.Passing env ms n q ∧ s.phase = .payload ∧ s.pull = 0 ∧ s.msgLeft = 0 := by
  induction fuel with
  | zero => exact ⟨fun s hs => absurd hs.2.2 (Nat.not_lt_zero _)⟩
  | succ fuel ih =>
    apply Ensures.get_bind
    rintro x ⟨hx, hphase, hfuel⟩
    have hp := hx.placed
    rw [RxPath.Placed, hphase] at hp
    obtain ⟨k, m, hp⟩ := hp
    have hstands := hp.stands
    have hend := hp.le_length
    have hleft := hp.left
    rw [← hhost] at hend
    have hplace : x.place ≤ env.host.length := by omega
    apply Ensures.ite
    · intro hpull
      rw [if_neg hpull] at hfuel
      apply Ensures.bind _ ((usbTake_walks henv hpull hplace).here hx.walks)
      intro r
      apply Ensures.each
      rintro y ⟨b, rfl, hy, hcalm⟩
      refine Ensures.modify_here _ ?_ ih
      obtain ⟨hsound, hput⟩ := hx.sound.take_payload hhost hy hphase hpull
      have hypath := hy.put_path
      refine ⟨⟨hsound, ⟨hcalm.inTime, hcalm.arrived, hcalm.wrWant⟩, ?_⟩, hput, ?_⟩
      · exact (congrArg RxPath.abandoned hypath).trans hx.kept
      · rw [hypath]
        change 2 * x.msgLeft + 0 < fuel
        omega
    · intro hpull
      replace hpull := not_not.mp hpull
      rw [if_pos hpull] at hfuel
      have hne : x.phase ≠ .header := by
        rw [hphase]
        decide
      apply Ensures.ite
      · intro hmore
        apply Ensures.bind _ ((usbAsk_walks henv (Nat.min_le_right _ _) hpull (hx.sound.rdWant hne hpull) hplace).here
          hx.walks)
        intro ok
        apply Ensures.each
        rintro y ⟨rfl, hy, hcalm⟩
        have hwin : (0 : Nat) < edWindow := by decide
        refine Ensures.modify_here _ ?_ ih
        have hyleft : y.msgLeft = x.msgLeft := congrArg RxPath.msgLeft hy.path
        refine ⟨⟨hx.sound.ask_payload hy hphase hpull (by omega) (Nat.min_le_left _ _) (Nat.min_le_right _ _),
          ⟨hcalm.inTime, hcalm.arrived, hcalm.wrWant⟩, (congrArg RxPath.abandoned hy.path).trans hx.kept⟩,
          (congrArg RxPath.phase hy.path).trans hphase, ?_⟩
        change 2 * (y.msgLeft - min x.msgLeft edWindow) + (if min x.msgLeft edWindow = 0 then 0 else 1) < fuel
        rw [if_neg (by omega)]
        omega
      · intro hzero
        exact Ensures.pure_here ⟨rfl, hx, hphase, hpull, by omega⟩

theorem rxPayload_passes : Ensures (fun s => s.Passing env ms n q ∧ s.phase = .payload) (rxPayload env)
    fun r s => r = .done ∧ s.Calm env ∧ s.abandoned = false ∧ s.phase = .header ∧ s.pull = 0 := by
  apply Ensures.get_bind
  rintro y ⟨hy, hyphase⟩
  apply Ensures.bind _ ((payloadLoop_passes hhost henv _).here ⟨hy, hyphase, by split <;> omega⟩)
  intro r
  apply Ensures.each
  rintro x ⟨rfl, hx, hphase, hpull, hleft⟩
  have hp := hx.placed
  rw [RxPath.Placed, hphase] at hp
  obtain ⟨k, m, hp⟩ := hp
  have hstands := hp.stands
  have hend := hp.le_length
  rw [← hhost] at hend
  have hne : x.phase ≠ .header := by
    rw [hphase]
    decide
  apply Ensures.bind _ ((usbAsk_walks henv (by decide) hpull (hx.sound.rdWant hne hpull) (by omega)).here hx.walks)
  intro ok
  apply Ensures.each
  rintro z ⟨rfl, hz, hcalm⟩
  refine Ensures.modify_here _ ?_ (rxTrailer_passes (n := n) (q := q) hhost henv)
  exact ⟨⟨hx.sound.ask_trailer hz hphase hpull hleft, ⟨hcalm.inTime, hcalm.arrived, hcalm.wrWant⟩,
    (congrArg RxPath.abandoned hz.path).trans hx.kept⟩, rfl⟩

theorem rxRoom_passes : Ensures (fun s => s.Passing env ms n q ∧ s.phase = .room ∧ s.msgSize ≤ edRxqCap - s.rxqLen)
    (rxRoom env) fun r s => r = .done ∧ s.Calm env ∧ s.abandoned = false ∧ s.phase = .header ∧ s.pull = 0 := by
  apply Ensures.modify_bind fun s => (s.Passing env ms n q ∧ s.phase = .room ∧ s.msgSize ≤ edRxqCap - s.rxqLen) ∧
    s.rxqOff = 0
  · rintro s ⟨hs, hphase, hroom⟩
    exact ⟨⟨⟨hs.sound.to_front hphase, ⟨hs.calm.inTime, hs.calm.arrived, hs.calm.wrWant⟩, hs.kept⟩, hphase, hroom⟩, rfl⟩
  · apply Ensures.get_bind
    rintro x ⟨⟨hx, hphase, hroom⟩, hoff⟩
    apply Ensures.ite
    · intro hfull
      omega
    · intro hfull
      refine Ensures.modify_here _ ?_ (rxPayload_passes (n := n) (q := q) hhost henv)
      exact ⟨⟨hx.sound.to_payload hphase hfull hoff, ⟨hx.calm.inTime, hx.calm.arrived, hx.calm.wrWant⟩, hx.kept⟩, rfl⟩

omit hhost henv in
theorem rxRoom_full : Ensures (fun s => edRxqCap - s.rxqLen < s.msgSize) (rxRoom env) fun r _ => r = .full := by
  apply Ensures.modify_bind fun s => edRxqCap - s.rxqLen < s.msgSize
  · exact fun s hs => hs
  · apply Ensures.get_bind
    intro x hx
    apply Ensures.ite
    · exact fun _ => Ensures.pure_here rfl
    · exact fun h => (h hx).elim

/-- What becomes of a message with `len` bytes already queued. -/
structure Rx.Passes (env : X7Env) (m : UsbMessage) (len : Nat) (r : Rx) (s : X7) : Prop where
  fits : m.payload.length ≤ edRxqCap - len → r = .done
  waits : edRxqCap - len < m.payload.length → m.payload.length ≤ edRxqCap → r = .full
  tooBig : edRxqCap < m.payload.length → r = .lost
  rests : r = .done ∨ r = .lost → s.Calm env ∧ s.abandoned = false ∧ s.phase = .header ∧ s.pull = 0

theorem rxHead_passes (hm : ms[n]? = some m) (htype : m.datatype = multi64L3Type) {len : Nat} (b : Bytes) :
    Ensures (fun s => s.HeadTaken env ms (At n q) b ∧ s.Calm env ∧ s.abandoned = false ∧ s.place = offset ms n + 8 ∧
      s.rxqLen = len) (rxHead env b) fun r s => r.Passes env m len s := by
  apply Ensures.each
  rintro x ⟨hx, hcalm, hab, hplace, hlen⟩
  have hb : b = dmaMagic ++ messageHead m.datatype m.payload.length := by
    rw [hx.bytes, hplace, Nat.add_sub_cancel, slice_header hm]
  have hmagic : b.take 4 = dmaMagic := by
    rw [hb]
    rfl
  have hbtype : byteAt b 4 = multi64L3Type := by
    rw [hb, ← htype]
    rfl
  have hsize : headSize b = m.payload.length := by
    rw [hb]
    exact headSize_head m
  apply Ensures.ite (fun h => (h hmagic).elim)
  intro _
  apply Ensures.ite (fun h => (h hbtype).elim)
  intro _
  apply Ensures.ite
  · intro hbig
    rw [hsize] at hbig
    refine Ensures.modify_here (fun s => s.Calm env ∧ s.abandoned = false ∧ s.phase = .header ∧ s.pull = 0)
      ⟨⟨hcalm.inTime, hcalm.arrived, hcalm.wrWant⟩, hab, hx.phase, hx.pull⟩ ?_
    exact Ensures.pure fun s hs => ⟨fun hfit => absurd hfit (by omega), fun _ hle => absurd hbig (by omega),
      fun _ => rfl, fun _ => hs⟩
  · intro hsmall
    rw [hsize] at hsmall
    have hroom := hx.head_room hhost hmagic hbtype
    by_cases hfit : m.payload.length ≤ edRxqCap - len
    · refine Ensures.modify_here _ ?_ ((rxRoom_passes (n := n) (q := q) hhost henv).ends ?_)
      · refine ⟨⟨hroom, ⟨hcalm.inTime, hcalm.arrived, hcalm.wrWant⟩, hab⟩, rfl, ?_⟩
        change headSize b ≤ edRxqCap - x.rxqLen
        rw [hsize, hlen]
        exact hfit
      · rintro r s ⟨hr, hs⟩
        exact ⟨fun _ => hr, fun hlt => absurd hfit (by omega), fun hbig => absurd hbig hsmall, fun _ => hs⟩
    · refine Ensures.modify_here _ ?_ (rxRoom_full.ends ?_)
      · change edRxqCap - x.rxqLen < headSize b
        rw [hsize, hlen]
        omega
      · rintro r s rfl
        exact ⟨fun h => absurd h hfit, fun _ _ => rfl, fun hbig => absurd hbig hsmall,
          fun hor => hor.elim nofun nofun⟩

theorem rxHeader_passes (hm : ms[n]? = some m) (htype : m.datatype = multi64L3Type) {len : Nat} {v : UsbStatus}
    (hpower : v.power = true) (hrxf : v.rxf = false) : Ensures (fun s => s.Passing env ms n q ∧ s.phase = .header ∧
      s.pull = 0 ∧ s.owed = 0 ∧ s.rdWant = 0 ∧ s.place = offset ms n ∧ s.rxqLen = len) (rxHeader env v)
    fun r s => r.Passes env m len s := by
  apply Ensures.get_bind
  rintro x ⟨hx, hphase, hpull, howed, hrd, hstand, hlen⟩
  have hnext := offset_succ hm
  have hend := offset_le ms (n + 1)
  have hwire := m.wire_length
  rw [← hhost] at hend
  apply Ensures.ite
  · intro _
    apply Ensures.ite
    · intro hclear
      rw [hpower, hrxf] at hclear
      cases hclear
    · intro _
      apply Ensures.bind _ ((usbAsk_walks henv (by decide) hpull hrd (by omega)).here hx.walks)
      intro ok
      apply Ensures.each
      rintro y ⟨rfl, hy, hcalm⟩
      apply Ensures.modify_here fun s => s = { y with pull := 8 }
      · rfl
      · have hask := hx.sound.ask_header hy hphase hpull hrd howed
        have hplace : X7.place { y with pull := 8 } = offset ms n + 8 := by
          have hyplace := hy.place
          change y.place = _
          omega
        have hcalm : X7.Calm env { y with pull := 8 } := ⟨hcalm.inTime, hcalm.arrived, hcalm.wrWant⟩
        generalize hz : ({ y with pull := 8 } : X7) = z at *
        have hzphase : z.phase = .header := by
          rw [← hz]
          exact (congrArg RxPath.phase hy.path).trans hphase
        have hzab : z.abandoned = false := by
          rw [← hz]
          exact (congrArg RxPath.abandoned hy.path).trans hx.kept
        have hzlen : z.rxqLen = len := by
          rw [← hz]
          exact (congrArg RxPath.rxqLen hy.path).trans hlen
        have hzpull : z.pull ≠ 0 := by
          rw [← hz]
          exact Nat.succ_ne_zero 7
        apply Ensures.bind _ ((usbTake_walks henv hzpull (by omega)).here (X7.Walks.refl hask.wired hcalm))
        intro r
        apply Ensures.each
        rintro w ⟨b, rfl, hw, hwcalm⟩
        refine (rxHead_passes hhost henv hm htype b).here ⟨hask.take_header hhost hw hzphase hzpull, hwcalm, ?_, ?_, ?_⟩
        · rw [hw.path]
          exact hzab
        · exact hw.place.trans hplace
        · rw [hw.path]
          exact hzlen
  · intro h
    exact (h hpull).elim

theorem drainOwed_passes (hm : ms[n]? = some m) {len : Nat} (fuel : Nat) :
    Ensures (fun s => s.Passing env ms n q ∧ s.phase = .header ∧ s.pull = 0 ∧ s.place + s.owed = offset ms n ∧
      s.rxqLen = len ∧ s.owed < fuel) (drainOwed env fuel)
    fun r s => ∃ v, r = .ok v ∧ v.power = true ∧ v.rxf = false ∧ s.Passing env ms n q ∧ s.phase = .header ∧
      s.pull = 0 ∧ s.owed = 0 ∧ s.rdWant = 0 ∧ s.place = offset ms n ∧ s.rxqLen = len := by
  have hnext := offset_succ hm
  have hend := offset_le ms (n + 1)
  have hwire := m.wire_length
  rw [← hhost] at hend
  induction fuel with
  | zero => exact ⟨fun s hs => absurd hs.2.2.2.2.2 (Nat.not_lt_zero _)⟩
  | succ fuel ih =>
    apply Ensures.get_bind
    rintro x ⟨hx, hphase, hpull, hstand, hlen, hfuel⟩
    apply Ensures.ite
    · intro _
      apply Ensures.bind _ ((usbIdle_walks henv (by omega)).here hx.walks)
      intro r
      apply Ensures.each
      rintro y ⟨v, rfl, hy, hcalm, hpower, hrxf⟩
      have hypath := hy.along.2.path
      have hyp : y.Passing env ms n q :=
        ⟨hx.sound.along hy.along, hcalm, (congrArg RxPath.abandoned hypath).trans hx.kept⟩
      have hyphase : y.phase = .header := (congrArg RxPath.phase hypath).trans hphase
      have hypull : y.pull = 0 := (congrArg RxPath.pull hypath).trans hpull
      have hyowed : y.owed = x.owed := congrArg RxPath.owed hypath
      have hylen : y.rxqLen = len := (congrArg RxPath.rxqLen hypath).trans hlen
      have hyplace := hy.along.2.place
      have hwin : (0 : Nat) < edWindow := by decide
      apply Ensures.ite
      · intro hzero
        have howed : x.owed = 0 := by omega
        refine Ensures.pure_here ⟨v, rfl, hpower, Bool.eq_false_iff.mpr fun h => ?_, hyp, hyphase, hypull,
          hyowed.trans howed, hy.rdWant, by omega, hylen⟩
        have hfull := hrxf h
        omega
      · intro hmore
        apply Ensures.bind _ ((usbAsk_walks henv (Nat.min_le_right _ _) hypull hy.rdWant (by omega)).here hyp.walks)
        intro ok
        apply Ensures.each
        rintro z ⟨rfl, hz, hzcalm⟩
        refine Ensures.modify_here _ ?_ ih
        have hzowed : z.owed = y.owed := congrArg RxPath.owed hz.path
        have hzplace := hz.place
        refine ⟨⟨hyp.sound.ask_owed hz hypull hy.rdWant hmore (by omega), ⟨hzcalm.inTime, hzcalm.arrived, hzcalm.wrWant⟩,
          (congrArg RxPath.abandoned hz.path).trans hyp.kept⟩, (congrArg RxPath.phase hz.path).trans hyphase,
          (congrArg RxPath.pull hz.path).trans hypull, ?_, (congrArg RxPath.rxqLen hz.path).trans hylen, ?_⟩
        · change z.place + (z.owed - min x.owed edWindow) = offset ms n
          omega
        · change z.owed - min x.owed edWindow < fuel
          omega
    · intro h
      exact (h hpull).elim

theorem usbReceive_passes (hm : ms[n]? = some m) (htype : m.datatype = multi64L3Type) {len : Nat} :
    Ensures (fun s => s.Passing env ms n q ∧ s.phase = .header ∧ s.pull = 0 ∧ s.place + s.owed = offset ms n ∧
      s.rxqLen = len) (usbReceive env) fun r s => r.Passes env m len s := by
  apply Ensures.get_bind
  rintro x ⟨hx, hphase, hpull, hstand, hlen⟩
  apply Ensures.bind _ ((drainOwed_passes hhost henv hm _).here ⟨hx, hphase, hpull, hstand, hlen, Nat.lt_succ_self _⟩)
  intro r
  apply Ensures.each
  rintro y ⟨v, rfl, hpower, hrxf, hy, hyphase, hrest⟩
  apply Ensures.get_bind
  rintro z rfl
  rw [hyphase]
  exact (rxHeader_passes hhost henv hm htype hpower hrxf).here ⟨hy, hyphase, hrest⟩

end Receive

section RoundTrip

variable {env : X7Env} {ms : List UsbMessage} {n : Nat} {m : UsbMessage} {s : X7}

/-- A call is under way between messages, with message `n` the next. -/
structure X7.Stands (env : X7Env) (ms : List UsbMessage) (n : Nat) (s : X7) : Prop extends
    X7.Passing env ms n s.syms s where
  phase : s.phase = .header
  pull : s.pull = 0

theorem X7.Stands.unread (h : s.Stands env ms n) : s.place + s.owed = offset ms n := by
  have hp := h.placed
  rw [RxPath.Placed, h.phase] at hp
  dsimp only at hp
  rw [if_pos h.pull] at hp
  obtain ⟨k, hk, heq⟩ := hp.aligned h.kept
  have hbegun := hp.owes
  rw [hp.told.1, heq, begun_offset hk] at hbegun
  rw [heq, hbegun]

/-- `usbReceive` with a message before it: queued whole, left waiting, or lost
whole, and what is behind it is next. -/
theorem usbReceive_wire (hhost : env.host = hostStream ms) (henv : env.Quiet) (hm : ms[n]? = some m)
    (htype : m.datatype = multi64L3Type) (hs : s.Stands env ms n) :
    (m.payload.length ≤ edRxqCap - s.rxqLen → ((usbReceive env).run s).1 = .done ∧
      ((usbReceive env).run s).2.syms = s.syms ++ m.payload.map some ∧
      ((usbReceive env).run s).2.Stands env ms (n + 1)) ∧
    (edRxqCap - s.rxqLen < m.payload.length → m.payload.length ≤ edRxqCap → ((usbReceive env).run s).1 = .full) ∧
    (edRxqCap < m.payload.length → ((usbReceive env).run s).1 = .lost ∧ ((usbReceive env).run s).2.syms = s.syms ∧
      ((usbReceive env).run s).2.Stands env ms (n + 1)) := by
  have hn := (List.getElem?_eq_some_iff.mp hm).1
  have hadv : Advances ms (At n s.syms) (At (n + 1) (s.syms ++ m.payload.map some)) := by
    constructor
    · rintro k syms m' ⟨rfl, rfl⟩ hm' htype'
      obtain rfl := Option.some.inj (hm.symm.trans hm')
      exact (htype' htype).elim
    · rintro k syms m' ⟨rfl, rfl⟩ hm' -
      obtain rfl := Option.some.inj (hm.symm.trans hm')
      exact ⟨rfl, rfl⟩
  have hpass := (usbReceive_passes hhost henv hm htype).holds s
    ⟨hs.toPassing, hs.phase, hs.pull, hs.unread, rfl⟩
  have hleave := (usbReceive_leaves hhost hadv).holds s hs.sound
  generalize (usbReceive env).run s = r at hpass hleave ⊢
  obtain ⟨r, s'⟩ := r
  refine ⟨fun hfit => ?_, hpass.waits, fun hbig => ?_⟩
  · obtain rfl : r = .done := hpass.fits hfit
    obtain ⟨hcalm, hkept, hphase, hpull⟩ := hpass.rests (.inl rfl)
    have hsound : s'.Sound env ms (At (n + 1) (s.syms ++ m.payload.map some)) := hleave
    have hsyms : s'.syms = s.syms ++ m.payload.map some := by
      obtain ⟨k, hk⟩ := (hsound.placed fun hab => absurd (hkept.symm.trans hab) (by decide)).told
      exact hk.2
    exact ⟨rfl, hsyms, ⟨hsyms ▸ hsound, hcalm, hkept⟩, hphase, hpull⟩
  · obtain rfl : r = .lost := hpass.tooBig hbig
    obtain ⟨hcalm, hkept, hphase, hpull⟩ := hpass.rests (.inr rfl)
    obtain ⟨hadrift, hcut⟩ : s'.Adrift env ms (At n s.syms) ∧ s'.rxCut = false := hleave
    obtain ⟨k, hk, -, hbegun, hnext⟩ := hadrift.placed fun hab => absurd (hkept.symm.trans hab) (by decide)
    obtain ⟨rfl, hsyms⟩ := hk
    obtain ⟨hlt, hstand⟩ := hnext hkept
    rw [hstand, begun_offset hlt] at hbegun
    have hsound : s'.Sound env ms (At (k + 1) s'.syms) := by
      refine ⟨hadrift.wired, hadrift.formed, hcut, fun hne => (hne hphase).elim, fun _ => ?_⟩
      rw [RxPath.Placed, hphase]
      dsimp only
      rw [if_pos hpull]
      exact ⟨⟨hbegun, rfl⟩, by rw [hstand, begun_offset hlt, hbegun], fun _ => ⟨k + 1, hlt, hstand⟩⟩
    exact ⟨rfl, hsyms, ⟨hsound, hcalm, hkept⟩, hphase, hpull⟩

/-- What the cart sends the host's parser reads back, and what the host's
encoder makes the cart's driver reads back, up to what its queue can hold. -/
theorem framing_round_trip (hhost : env.host = hostStream ms) :
    (∀ ops data, ((ed64Send env data).run ((x7Run env ops).run X7.start).2).1 = true →
      ∃ left, left.length ≤ ((x7Run env ops).run X7.start).2.wrWant ∧
        ((ed64Send env data).run ((x7Run env ops).run X7.start).2).2.sent =
          ((x7Run env ops).run X7.start).2.sent ++ left ++ cartMessage data ∧
        ∀ rest, WireBuffer.nextMessage ⟨cartMessage data ++ rest⟩ = (.ok (some ⟨multi64L3Type, data⟩), ⟨rest⟩)) ∧
    (env.Quiet → ∀ n m s, ms[n]? = some m → m.datatype = multi64L3Type → s.Stands env ms n →
      (∃ wire, encodeMessage m.datatype m.payload = .ok wire ∧
        env.host.drop (s.place + s.owed) = wire ++ hostStream (ms.drop (n + 1))) ∧
      (m.payload.length ≤ edRxqCap - s.rxqLen → ((usbReceive env).run s).1 = .done ∧
        ((usbReceive env).run s).2.syms = s.syms ++ m.payload.map some ∧
        ((usbReceive env).run s).2.Stands env ms (n + 1)) ∧
      (edRxqCap - s.rxqLen < m.payload.length → m.payload.length ≤ edRxqCap → ((usbReceive env).run s).1 = .full) ∧
      (edRxqCap < m.payload.length → ((usbReceive env).run s).1 = .lost ∧ ((usbReceive env).run s).2.syms = s.syms ∧
        ((usbReceive env).run s).2.Stands env ms (n + 1))) := by
  constructor
  · intro ops data hok
    obtain ⟨left, hsent, hlen⟩ := ed64Send_sends hhost data (x7Run_sound hhost ops) hok
    refine ⟨left, hlen, hsent, nextMessage_cartMessage ?_⟩
    by_contra hbig
    rw [ed64Send, if_pos (.inr (by omega))] at hok
    exact Bool.false_ne_true hok
  · intro henv n m s hm htype hs
    have hn := (List.getElem?_eq_some_iff.mp hm).1
    refine ⟨⟨m.wire, m.encodeMessage_eq, ?_⟩, usbReceive_wire hhost henv hm htype hs⟩
    rw [hs.unread, hhost, drop_offset hm]

theorem X7.start_stands {ticks : UInt32} (hclock : ∀ i, env.clock i < ticks)
    (harrive : ∀ i, env.host.length ≤ (env.pi i).arrive) :
    X7.Stands env ms 0 { X7.start with callTicks := ticks } := by
  refine ⟨⟨(X7.start_sound env ms ⟨rfl, rfl⟩).congr rfl rfl rfl, ⟨fun i => ?_, fun i => ?_, rfl⟩, rfl⟩, rfl, rfl⟩
  · change env.clock i - 0 < ticks
    rw [UInt32.sub_zero]
    exact hclock i
  · change env.host.length ≤ 0 + (env.pi i).arrive
    rw [Nat.zero_add]
    exact harrive i

theorem framing_round_trip_calm :
    (∃ left, left.length ≤ ((x7Run (calmEnv threeAndOne) [.receive 64]).run X7.start).2.wrWant ∧
      ((ed64Send (calmEnv threeAndOne) [9, 8, 7]).run ((x7Run (calmEnv threeAndOne) [.receive 64]).run X7.start).2).2.sent =
        ((x7Run (calmEnv threeAndOne) [.receive 64]).run X7.start).2.sent ++ left ++ cartMessage [9, 8, 7]) ∧
      ((usbReceive (calmEnv threeAndOne)).run { X7.start with callTicks := 1 }).1 = .done := by
  obtain ⟨hsend, hreceive⟩ := @framing_round_trip (calmEnv threeAndOne) threeAndOne rfl
  obtain ⟨left, hlen, hsent, -⟩ := hsend [.receive 64] [9, 8, 7] (by decide +kernel)
  have hclock : ∀ i, (calmEnv threeAndOne).clock i < 1 := fun _ => (by decide : (0 : UInt32) < 1)
  have hstands := @X7.start_stands (calmEnv threeAndOne) threeAndOne 1 hclock fun _ => Nat.le_refl _
  obtain ⟨-, hfits, -⟩ := hreceive ⟨fun _ => rfl, fun _ => rfl⟩ 0 ⟨⟨multi64L3Type, [1, 2, 3]⟩, by decide⟩ _ rfl rfl hstands
  exact ⟨⟨left, hlen, hsent⟩, (hfits (by decide)).1⟩

/-- A payload the host's encoder accepts and the driver's queue can never hold. -/
def tooBig : UsbMessage where
  datatype := multi64L3Type
  payload := List.replicate 2049 0
  fits := by rw [List.length_replicate]; decide

theorem tooBig_lost : ((ed64Receive (calmEnv [tooBig]) 4096).run X7.start).1 = .lost := by
  decide +kernel

end RoundTrip

end Multi64
