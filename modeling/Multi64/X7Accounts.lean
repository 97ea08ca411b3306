import Multi64.X7Receive

/-! What the agent is handed over a whole run of `ed64Receive` and `ed64Send`
calls accounts for the host's messages one by one. -/

namespace Multi64

def Received.syms : Received → List (Option UInt8)
  | .bytes b => b.map some
  | .lost => [none]

/-- What was handed over and what is queued account for `n` messages. -/
def Acc (ms : List UsbMessage) (told : List (Option UInt8)) (n : Nat) (syms : List (Option UInt8)) : Prop :=
  Accounts ms n (told ++ syms)

theorem Acc.advances (ms : List UsbMessage) (told : List (Option UInt8)) :
    Advances ms (Acc ms told) (Acc ms told) := by
  constructor
  · exact fun n syms m h hm htype => h.other hm htype
  · intro n syms m h hm htype
    rw [Acc, ← List.append_assoc]
    exact h.got hm htype

section Keeping

variable {env : X7Env} {ms : List UsbMessage} {T T' : Nat → List (Option UInt8) → Prop} {x s : X7}

theorem RxPath.Placed.told {r : RxPath} {taken place : Nat} (h : r.Placed ms T taken place) : ∃ n, T n r.syms := by
  rw [RxPath.Placed] at h
  cases hphase : r.phase with
  | header =>
    rw [hphase] at h
    dsimp only at h
    by_cases hpull : r.pull = 0
    · rw [if_pos hpull] at h
      exact ⟨_, h.told⟩
    · rw [if_neg hpull] at h
      exact ⟨_, h.told⟩
  | room =>
    rw [hphase] at h
    obtain ⟨n, m, h⟩ := h
    exact ⟨n, h.told⟩
  | payload =>
    rw [hphase] at h
    obtain ⟨n, m, h⟩ := h
    exact ⟨n, h.told⟩
  | trailer =>
    rw [hphase] at h
    obtain ⟨n, m, h⟩ := h
    exact ⟨n, h.told⟩

/-- The place depends on the queue only through what it holds and where it ends. -/
theorem RxPath.Placed.requeue {r : RxPath} {taken place : Nat} (h : r.Placed ms T taken place) {off len mark : Nat}
    {lost : Bool} (hend : off + len = r.rxqOff + r.rxqLen)
    (ht : ∀ k, T k r.syms → T' k (RxPath.syms { r with
      rxqOff := off, rxqLen := len, rxqLost := lost, rxqBeforeLoss := mark })) :
    RxPath.Placed ms T' { r with rxqOff := off, rxqLen := len, rxqLost := lost, rxqBeforeLoss := mark } taken
      place := by
  rw [RxPath.Placed] at h ⊢
  dsimp only
  cases hphase : r.phase with
  | header =>
    rw [hphase] at h
    dsimp only at h ⊢
    by_cases hpull : r.pull = 0
    · rw [if_pos hpull] at h ⊢
      exact ⟨ht _ h.told, h.owes, h.aligned⟩
    · rw [if_neg hpull] at h ⊢
      exact ⟨ht _ h.told, h.eight, h.aligned⟩
  | room =>
    rw [hphase] at h
    obtain ⟨n, m, h⟩ := h
    exact ⟨n, m, ⟨⟨h.found, h.type, h.size, ht _ h.told⟩, h.left, h.stands⟩⟩
  | payload =>
    rw [hphase] at h
    obtain ⟨n, m, h⟩ := h
    refine ⟨n, m, ⟨⟨h.found, h.type, h.size, ht _ h.told⟩, h.left, h.pull, h.stands, h.got, ?_⟩⟩
    dsimp only
    rw [hend]
    exact h.bytes
  | trailer =>
    rw [hphase] at h
    obtain ⟨n, m, h⟩ := h
    refine ⟨n, m, ⟨⟨h.found, h.type, h.size, ht _ h.told⟩, h.stands, h.got, ?_⟩⟩
    dsimp only
    rw [hend]
    exact h.bytes

theorem X7.Sound.requeue (h : x.Sound env ms T) {off len mark : Nat} {lost : Bool}
    (hend : off + len = x.rxqOff + x.rxqLen) (hmark : lost = true → mark ≤ len)
    (ht : ∀ k, T k x.syms → T' k (RxPath.syms { x.toRxPath with
      rxqOff := off, rxqLen := len, rxqLost := lost, rxqBeforeLoss := mark })) :
    X7.Sound env ms T' { x with rxqOff := off, rxqLen := len, rxqLost := lost, rxqBeforeLoss := mark } := by
  have hw := h.wired
  have hf := h.formed
  refine ⟨⟨hw.taken_le, hw.arrived_le, hw.rdWant_le, hw.reading, hw.pull_le, hw.want_le, hw.pull_place, hw.pulled⟩,
    ⟨?_, fun hor => ?_, hmark, hf.fresh, hf.atHeader, hf.atRoom, hf.atTrailer, hf.owes, hf.high⟩, h.cut, h.quiet,
    fun htold => (h.placed htold).requeue hend ht⟩
  · change off + len ≤ edRxqCap
    rw [hend]
    exact hf.fits
  · change off + len + x.msgSize ≤ edRxqCap ∧ x.msgGot ≤ x.msgSize
    rw [hend]
    exact hf.room hor

/-- Another way to say what the queue may hold. -/
theorem X7.Sound.retell (h : x.Sound env ms T) (ht : ∀ k, T k x.syms → T' k x.syms) : x.Sound env ms T' :=
  h.requeue rfl h.formed.mark ht

/-- Nothing but the cart, the receive path and the read under way matters. -/
theorem X7.Sound.congr (h : x.Sound env ms T) (hunit : s.toUsbUnit = x.toUsbUnit) (hpath : s.toRxPath = x.toRxPath)
    (hread : s.reading = x.reading) : s.Sound env ms T := by
  obtain ⟨unit, path, _, _, _, _, _, reading, _⟩ := s
  obtain rfl : unit = x.toUsbUnit := hunit
  obtain rfl : path = x.toRxPath := hpath
  obtain rfl : reading = x.reading := hread
  have hw := h.wired
  exact ⟨⟨hw.taken_le, hw.arrived_le, hw.rdWant_le, hw.reading, hw.pull_le, hw.want_le, hw.pull_place, hw.pulled⟩,
    h.formed, h.cut, h.quiet, h.placed⟩

theorem edCount_sound : Ensures (fun s => s.Sound env ms T) (edCount env) fun _ s => s.Sound env ms T := by
  apply Ensures.each
  intro x hx
  exact (edCount_along.here (X7.Along.refl hx.wired)).ends fun _ s hs => hx.along hs

theorem outOfTime_sound : Ensures (fun s => s.Sound env ms T) (outOfTime env) fun _ s => s.Sound env ms T := by
  apply Ensures.each
  intro x hx
  exact (outOfTime_along.here (X7.Along.refl hx.wired)).ends fun _ s hs => hx.along hs

theorem callBegin_sound (ticks : UInt32) : Ensures (fun s => s.Sound env ms T) (callBegin env ticks)
    fun _ s => s.Sound env ms T := by
  apply Ensures.bind _ edCount_sound
  exact fun now => Ensures.modify fun s hs => hs.congr rfl rfl rfl

end Keeping

section Queue

variable {env : X7Env} {ms : List UsbMessage} {told : List (Option UInt8)}

/-- Bytes handed over from the front of the queue. -/
theorem RxPath.syms_take {r : RxPath} {n : Nat} (hn : n ≤ r.rxqLen)
    (hlost : r.rxqLost = true → n ≤ r.rxqBeforeLoss) : r.syms = (r.rxq.read r.rxqOff n).map some ++
      RxPath.syms { r with
        rxqOff := r.rxqOff + n
        rxqLen := r.rxqLen - n
        rxqLost := r.rxqLost
        rxqBeforeLoss := if r.rxqLost then r.rxqBeforeLoss - n else r.rxqBeforeLoss } := by
  have hq : r.queued = r.rxq.read r.rxqOff n ++ r.rxq.read (r.rxqOff + n) (r.rxqLen - n) := by
    rw [← Store.read_append, Nat.add_sub_cancel' hn]
    rfl
  have hlen : (r.rxq.read r.rxqOff n).length = n := Store.read_length _ _ _
  by_cases hl : r.rxqLost = true
  · have hle := hlost hl
    simp only [RxPath.syms, hl, if_true, hq]
    rw [List.take_append, List.drop_append, hlen, List.take_of_length_le (by omega), List.drop_of_length_le (by omega),
      List.map_append, List.append_assoc]
    rfl
  · simp only [RxPath.syms, hl, hq, List.map_append]
    rfl

/-- What is handed over goes from the queue's front to the end of what was told. -/
theorem rxqTake_leaves (cap : Nat) : Ensures (fun s => s.Sound env ms (Acc ms told)) (rxqTake cap)
    fun r s => s.Sound env ms (Acc ms (told ++ r.syms)) ∧ (r = .bytes [] → s.rxqLen = 0 → s.rxqLost = false) := by
  apply Ensures.get_bind
  intro x hx
  have hmark := hx.formed.mark
  apply Ensures.ite
  · intro hc
    obtain ⟨hlost, hzero⟩ := (Bool.and_eq_true _ _).mp hc
    have hzero : x.rxqBeforeLoss = 0 := beq_iff_eq.mp hzero
    apply Ensures.modify_here fun s => s.Sound env ms (Acc ms (told ++ [none]))
    · refine hx.requeue rfl (by intros; contradiction) fun k hk => ?_
      have hsyms : x.syms = none :: x.queued.map some := by
        rw [RxPath.syms, if_pos hlost, hzero]
        rfl
      rw [hsyms, Acc] at hk
      rw [Acc, List.append_assoc]
      exact hk
    · exact Ensures.pure fun s hs => ⟨hs, fun h => by cases h⟩
  · intro hc
    dsimp only
    generalize hn : (if x.rxqLost = true then min (min x.rxqLen cap) x.rxqBeforeLoss else min x.rxqLen cap) = n
    have hle : n ≤ x.rxqLen := by
      split at hn <;> omega
    have hleft : x.rxqLost = true → n ≤ x.rxqBeforeLoss ∧ (n = 0 → x.rxqLen = n → False) := by
      intro hlost
      have hpos : x.rxqBeforeLoss ≠ 0 := by
        intro hz
        rw [hlost, hz] at hc
        exact hc rfl
      have hm := hmark hlost
      rw [if_pos hlost] at hn
      omega
    apply Ensures.modify_here fun s => s.Sound env ms (Acc ms (told ++ (x.rxq.read x.rxqOff n).map some)) ∧
      s.rxqLen = x.rxqLen - n ∧ s.rxqLost = x.rxqLost
    · refine ⟨hx.requeue (by omega) (fun hlost => ?_) fun k hk => ?_, rfl, rfl⟩
      · have hm := hmark hlost
        have hb := (hleft hlost).1
        rw [if_pos hlost]
        omega
      · rw [RxPath.syms_take hle (fun hlost => (hleft hlost).1), Acc] at hk
        rw [Acc, List.append_assoc]
        exact hk
    · apply Ensures.pure
      rintro s ⟨hs, hlen, hlost⟩
      refine ⟨hs, fun hr hzero => Bool.eq_false_iff.mpr fun hl => ?_⟩
      have hread := congrArg List.length (Received.bytes.inj hr)
      rw [Store.read_length, List.length_nil] at hread
      exact (hleft (hlost.symm.trans hl)).2 hread (by omega)

/-- A loss reported where nothing is queued. -/
theorem X7.Adrift.report {x : X7} (h : x.Adrift env ms fun k syms => Acc ms told k syms ∧ syms = [])
    (hcut : x.rxCut = false) : x.Sound env ms (Acc ms (told ++ [none])) := by
  refine ⟨h.wired, h.formed, hcut, fun hne => (hne h.phase).elim, fun htold => ?_⟩
  obtain ⟨k, ⟨hk, hempty⟩, hle, heq, halign⟩ := h.placed htold
  rw [RxPath.Placed, h.phase]
  dsimp only
  rw [if_pos h.pull]
  refine ⟨?_, heq, fun hno => ⟨k + 1, (halign hno).1, (halign hno).2⟩⟩
  rw [hempty, Acc, List.append_nil] at hk
  rw [hempty, Acc, List.append_nil]
  exact hk.lost hle (begun_le _)

/-- A loss read ahead is marked in the queue. -/
theorem X7.Adrift.mark {x : X7} (h : x.Adrift env ms (Acc ms told)) (hcut : x.rxCut = false) :
    x.markLoss.Sound env ms (Acc ms told) := by
  have hw := h.wired
  have hf := h.formed
  have hlen : x.queued.length = x.rxqLen := Store.read_length _ _ _
  have hroom : ∀ {P : Prop}, x.phase = .payload ∨ x.phase = .trailer → P := by
    rw [h.phase]
    rintro P (hp | ht)
    · cases hp
    · cases ht
  have hplaced : ∀ r : RxPath, r.phase = .header → r.pull = 0 → r.owed = x.owed → r.abandoned = x.abandoned →
      (∀ k, Acc ms told k x.syms → k ≤ begun ms x.taken → Acc ms told (begun ms x.taken) r.syms) →
      x.Told ms → r.Placed ms (Acc ms told) x.taken x.place := by
    intro r hphase hpull howed hab ht htold
    obtain ⟨k, hk, hle, heq, halign⟩ := h.placed htold
    rw [RxPath.Placed, hphase]
    dsimp only
    rw [if_pos hpull]
    refine ⟨ht k hk hle, howed ▸ heq, fun hno => ?_⟩
    obtain ⟨hlt, hstand⟩ := halign (hab ▸ hno)
    exact ⟨k + 1, hlt, howed ▸ hstand⟩
  unfold X7.markLoss
  by_cases hlost : x.rxqLost = true
  · rw [if_pos hlost]
    have hmark := hf.mark hlost
    refine ⟨⟨hw.taken_le, hw.arrived_le, hw.rdWant_le, hw.reading, hw.pull_le, hw.want_le, hw.pull_place, hw.pulled⟩,
      ⟨?_, hroom, fun _ => Nat.le_refl _, hf.fresh, hf.atHeader, hf.atRoom, hf.atTrailer, hf.owes, hf.high⟩, hcut,
      fun hne => (hne h.phase).elim, fun htold => hplaced _ h.phase h.pull rfl rfl (fun k hk hle => ?_) htold⟩
    · have hfits := hf.fits
      change x.rxqOff + x.rxqBeforeLoss ≤ edRxqCap
      omega
    · have hq : RxPath.queued { x.toRxPath with rxqLen := x.rxqBeforeLoss } = x.queued.take x.rxqBeforeLoss :=
        (Store.take_read _ _ _ hmark).symm
      have hsyms : RxPath.syms { x.toRxPath with rxqLen := x.rxqBeforeLoss } =
          (x.queued.take x.rxqBeforeLoss).map some ++ [none] := by
        rw [RxPath.syms, if_pos hlost, hq, List.take_take, Nat.min_self, List.drop_of_length_le, List.map_nil]
        rw [List.length_take]
        exact Nat.min_le_left _ _
      rw [Acc, RxPath.syms, if_pos hlost, ← List.append_assoc] at hk
      obtain ⟨j, hj, hacc⟩ := Accounts.before_loss hk _ _ rfl
      rw [hsyms, Acc, ← List.append_assoc]
      exact hacc.lost (Nat.le_trans hj hle) (begun_le _)
  · rw [if_neg hlost]
    refine ⟨⟨hw.taken_le, hw.arrived_le, hw.rdWant_le, hw.reading, hw.pull_le, hw.want_le, hw.pull_place, hw.pulled⟩,
      ⟨hf.fits, hroom, fun _ => Nat.le_refl _, hf.fresh, hf.atHeader, hf.atRoom, hf.atTrailer, hf.owes, hf.high⟩, hcut,
      fun hne => (hne h.phase).elim, fun htold => hplaced _ h.phase h.pull rfl rfl (fun k hk hle => ?_) htold⟩
    have hsyms : RxPath.syms { x.toRxPath with rxqLost := true, rxqBeforeLoss := x.rxqLen } =
        x.queued.map some ++ [none] := by
      rw [RxPath.syms, if_pos rfl]
      change (x.queued.take x.rxqLen).map some ++ none :: (x.queued.drop x.rxqLen).map some = _
      rw [List.take_of_length_le (by omega), List.drop_of_length_le (by omega), List.map_nil]
    rw [Acc, RxPath.syms, if_neg hlost] at hk
    rw [hsyms, Acc, ← List.append_assoc]
    exact hk.lost hle (begun_le _)

end Queue

section Calls

variable {env : X7Env} {ms : List UsbMessage} {told : List (Option UInt8)}

/-- `T` with nothing in the queue. -/
theorem Acc.advances_empty (ms : List UsbMessage) (told : List (Option UInt8)) :
    Advances ms (fun k syms => Acc ms told k syms ∧ syms = []) (Acc ms told) := by
  have hadv := Acc.advances ms told
  exact ⟨fun n syms m h => hadv.other n syms m h.1, fun n syms m h => hadv.got n syms m h.1⟩

variable (hhost : env.host = hostStream ms)

include hhost in
theorem receiveOne_leaves (cap : Nat) : Ensures (fun s => s.Sound env ms (Acc ms told) ∧ s.syms = [])
    (receiveOne env cap) fun r s => s.Sound env ms (Acc ms (told ++ r.syms)) := by
  have hstart : Ensures (fun s => s.Sound env ms (Acc ms told) ∧ s.syms = []) (callBegin env edReceiveTicks)
      fun _ s => s.Sound env ms fun k syms => Acc ms told k syms ∧ syms = [] :=
    (callBegin_sound _).starts fun s hs => hs.1.retell fun k hk => ⟨hk, hs.2⟩
  have hnone : ∀ s : X7, (s.Sound env ms fun k syms => Acc ms told k syms ∧ syms = []) →
      s.Sound env ms (Acc ms (told ++ (Received.bytes []).syms)) :=
    fun s hs => hs.retell fun k hk => by
      rw [show (Received.bytes []).syms = [] from rfl, List.append_nil]
      exact hk.1
  apply Ensures.bind _ hstart
  intro _
  apply Ensures.bind _ (usbReceive_leaves hhost (Acc.advances_empty ms told))
  intro r
  cases r with
  | done => exact (rxqTake_leaves cap).ends fun r s hs => hs.1
  | lost => exact Ensures.pure fun s hs => hs.1.report hs.2
  | busy => exact Ensures.pure hnone
  | clear => exact Ensures.pure fun s hs => hnone s hs.1
  | full => exact Ensures.pure hnone

include hhost in
theorem receiveFromUsb_leaves (cap : Nat) : Ensures (fun s => s.Sound env ms (Acc ms told) ∧ s.syms = [])
    (receiveFromUsb env cap) fun r s => s.Sound env ms (Acc ms (told ++ r.syms)) := by
  apply Ensures.bind _ (receiveOne_leaves hhost cap)
  intro n
  apply Ensures.bind _ edCount_sound
  intro now
  apply Ensures.modify_bind (fun s => s.Sound env ms (Acc ms (told ++ n.syms)))
  · exact fun s hs => hs.congr rfl rfl rfl
  · exact Ensures.pure fun s hs => hs

include hhost in
theorem ed64Receive_leaves (cap : Nat) : Ensures (fun s => s.Sound env ms (Acc ms told)) (ed64Receive env cap)
    fun r s => s.Sound env ms (Acc ms (told ++ r.syms)) := by
  have hend : ∀ (n : Received) (told : List (Option UInt8)),
      Ensures (fun s => s.Sound env ms (Acc ms (told ++ n.syms)))
        (if n = .bytes [] ∨ n = .lost then do
          modify fun s => { s with rxUsed := 0 }
          pure n
        else pure n : Drv Received) fun r s => s.Sound env ms (Acc ms (told ++ r.syms)) := by
    intro n told
    apply Ensures.ite
    · intro _
      apply Ensures.modify_bind (fun s => s.Sound env ms (Acc ms (told ++ n.syms)))
      · exact fun s hs => hs.congr rfl rfl rfl
      · exact Ensures.pure fun s hs => hs
    · exact fun _ => Ensures.pure fun s hs => hs
  apply Ensures.bind _ (rxqTake_leaves cap)
  intro n
  apply Ensures.get_bind
  rintro x ⟨hx, hempty⟩
  apply Ensures.ite
  · rintro ⟨rfl, hzero⟩
    apply Ensures.ite
    · intro _
      apply Ensures.modify_here fun s => s.Sound env ms (Acc ms (told ++ (Received.bytes []).syms))
      · exact hx.congr rfl rfl rfl
      · exact Ensures.pure fun s hs => hs
    · intro _
      have hsyms : x.syms = [] := by
        rw [RxPath.syms, hempty rfl hzero, RxPath.queued, hzero]
        rfl
      rw [show (Received.bytes []).syms = [] from rfl, List.append_nil] at hx
      apply Ensures.bind _ ((receiveFromUsb_leaves hhost cap).here ⟨hx, hsyms⟩)
      exact fun n => hend n told
  · intro _
    exact (hend n told).here hx

theorem X7.Rests.along {x s : X7} (h : x.Rests) (ha : x.Along env s) : s.Rests :=
  ⟨(congrArg RxPath.phase ha.2.path).trans h.phase, ha.pull.trans h.pull,
    (congrArg RxPath.owed ha.2.path).trans h.owed, ha.quiet h.rdWant, ha.still h.reading⟩

include hhost in
theorem readAhead_leaves : Ensures (fun s => s.Sound env ms (Acc ms told)) (readAhead env)
    fun ok s => s.Sound env ms (Acc ms told) ∧ (ok = true → s.Rests ∧ s.wrWant = 0) := by
  rw [readAhead]
  induction edReadAheadMax with
  | zero => exact Ensures.pure fun s hs => ⟨hs, nofun⟩
  | succ passes ih =>
    apply Ensures.bind _ (usbReceive_leaves hhost (Acc.advances ms told))
    intro r
    cases r with
    | clear => exact Ensures.pure fun s hs => ⟨hs.1, fun _ => hs.2⟩
    | done => exact ih
    | lost => exact Ensures.modify_bind _ (fun s hs => hs.1.mark hs.2) ih
    | busy => exact Ensures.pure fun s hs => ⟨hs, nofun⟩
    | full => exact Ensures.pure fun s hs => ⟨hs, nofun⟩

section Send

variable {T : Nat → List (Option UInt8) → Prop}

/-- Nothing a send does to a resting receive path matters to it. -/
def X7.Sending (env : X7Env) (ms : List UsbMessage) (T : Nat → List (Option UInt8) → Prop) (s : X7) : Prop :=
  s.Sound env ms T ∧ s.Rests

theorem X7.Sending.along {x s : X7} (h : x.Sending env ms T) (ha : x.Along env s) : s.Sending env ms T :=
  ⟨h.1.along ha, h.2.along ha⟩

/-- With no read under way, another transfer or other bytes in the window. -/
theorem X7.Sending.change {x s : X7} (h : x.Sending env ms T) (harrived : s.arrived = x.arrived)
    (htaken : s.taken = x.taken) (hrd : s.rdWant = 0) (hpath : s.toRxPath = x.toRxPath)
    (hread : s.reading = x.reading) : s.Sending env ms T := by
  obtain ⟨hs, hr⟩ := h
  have hw := hs.wired
  have hpull : s.pull = 0 := (congrArg RxPath.pull hpath).trans hr.pull
  have hphase : s.phase = .header := (congrArg RxPath.phase hpath).trans hr.phase
  have hplace : s.place = x.place := by rw [X7.place, X7.place, htaken, hrd, hr.rdWant]
  refine ⟨⟨⟨?_, ?_, ?_, fun hne => (hne hrd).elim, ?_, fun hne => (hne hpull).elim, fun hne => (hne hpull).elim,
    fun hne => (hne hpull).elim⟩, hpath ▸ hs.formed, (congrArg RxPath.rxCut hpath).trans hs.cut,
    fun hne => (hne hphase).elim, fun htold => ?_⟩,
    hphase, hpull, (congrArg RxPath.owed hpath).trans hr.owed, hrd, hread.trans hr.reading⟩
  · rw [harrived, htaken]
    exact hw.taken_le
  · rw [harrived]
    exact hw.arrived_le
  · rw [hrd]
    exact Nat.zero_le _
  · rw [hpull]
    exact Nat.zero_le _
  · rw [hpath, htaken, hplace]
    exact hs.placed fun hab => htold ((congrArg RxPath.abandoned hpath).trans hab)

theorem outOfTime_sending : Ensures (X7.Sending env ms T) (outOfTime env) fun _ s => s.Sending env ms T := by
  apply Ensures.each
  intro x hx
  exact (outOfTime_along.here (X7.Along.refl hx.1.wired)).ends fun _ s hs => hx.along hs

theorem piWriteStored_sending (mode : UsbMode) (hmode : ∀ addr, mode ≠ .rd addr) :
    Ensures (X7.Sending env ms T) (piWriteStored env mode) fun _ s => s.Sending env ms T := by
  apply Ensures.each
  intro x hx
  apply ((piWriteStored_along mode).here (X7.Along.refl hx.1.wired)).ends
  rintro w s (⟨-, -, hs⟩ | ⟨-, y, hy, rfl⟩)
  · exact hx.along hs
  · have hy := hx.along hy
    cases mode with
    | rdNop => exact hy.change rfl rfl rfl rfl rfl
    | wrNop => exact hy.change rfl rfl rfl rfl rfl
    | rd addr => exact (hmode addr rfl).elim
    | wr addr => exact hy.change rfl rfl rfl rfl rfl

theorem piStoreWords_sending (words : Bytes) (first : Nat) : Ensures (X7.Sending env ms T)
    (piStoreWords env words first) fun _ s => s.Sending env ms T := by
  apply Ensures.each
  intro x hx
  apply Ensures.bind _ (piAccess_along.here (X7.Along.refl hx.1.wired))
  intro a
  apply Ensures.modify_bind (X7.Sending env ms T)
  · intro s hs
    have hs := hx.along hs
    exact hs.change rfl rfl hs.2.rdWant rfl rfl
  · exact Ensures.pure fun s hs => hs

theorem tryBlock_sending (words : Bytes) (first addr : Nat) : Ensures (X7.Sending env ms T)
    (tryBlock env words first addr) fun _ s => s.Sending env ms T := by
  have hstop : Ensures (X7.Sending env ms T) (pure false : Drv Bool) fun _ s => s.Sending env ms T :=
    Ensures.pure fun s hs => hs
  apply Ensures.bind _ outOfTime_sending
  intro late
  apply Ensures.ite (fun _ => hstop)
  intro _
  apply Ensures.bind (fun _ s => s.Sending env ms T)
  · apply Ensures.bind _ (piWriteStored_sending .wrNop nofun)
    exact fun w => Ensures.pure fun s hs => hs
  intro ok
  apply Ensures.ite _ (fun _ => hstop)
  intro _
  apply Ensures.bind _ outOfTime_sending
  intro late
  apply Ensures.ite (fun _ => hstop)
  intro _
  apply Ensures.bind _ (piStoreWords_sending words first)
  intro ok
  apply Ensures.ite _ (fun _ => hstop)
  intro _
  apply Ensures.bind _ outOfTime_sending
  intro late
  apply Ensures.ite (fun _ => hstop)
  intro _
  apply Ensures.bind _ (piWriteStored_sending (.wr addr) nofun)
  exact fun w => Ensures.pure fun s hs => hs

theorem startBlock_sending (words : Bytes) (first addr rounds : Nat) : Ensures (X7.Sending env ms T)
    (startBlock env words first addr rounds) fun _ s => s.Sending env ms T := by
  induction rounds with
  | zero => exact Ensures.pure fun s hs => hs
  | succ rounds ih =>
    apply Ensures.bind _ (tryBlock_sending words first addr)
    intro ok
    apply Ensures.ite
    · exact fun _ => Ensures.pure fun s hs => hs
    · intro _
      apply Ensures.get_bind
      intro x hx
      apply Ensures.ite
      · intro _
        apply Ensures.bind _ (outOfTime_sending.here hx)
        intro late
        apply Ensures.ite
        · exact fun _ => Ensures.pure fun s hs => hs
        · exact fun _ => ih
      · exact fun _ => Ensures.pure_here hx

theorem usbIdle_sending : Ensures (X7.Sending env ms T) (usbIdle env) fun _ s => s.Sending env ms T := by
  apply Ensures.each
  intro x hx
  apply (usbIdle_leaves.here (X7.Along.refl hx.1.wired)).ends
  intro r s hs
  cases r with
  | busy => exact hx.along hs
  | idle status => exact hx.along hs.1.along
  | stuck =>
    rcases hs with hs | hs
    · exact hx.along hs.along
    · have hread := hs.reading
      rw [hx.2.reading] at hread
      cases hread

theorem sendLoop_sending (data : Bytes) (total fuel : Nat) : ∀ p, Ensures (X7.Sending env ms T)
    (sendLoop env data total fuel p) fun _ s => s.Sending env ms T := by
  induction fuel with
  | zero => exact fun p => Ensures.pure fun s hs => hs
  | succ fuel ih =>
    intro p
    apply Ensures.ite
    · intro _
      apply Ensures.bind _ (startBlock_sending _ _ _ _)
      intro ok
      apply Ensures.ite
      · intro _
        apply Ensures.modify_bind (X7.Sending env ms T)
        · exact fun s hs => hs.change rfl rfl hs.2.rdWant rfl rfl
        · apply Ensures.bind _ usbIdle_sending
          intro r
          cases r with
          | idle status => exact ih _
          | busy => exact Ensures.pure fun s hs => hs
          | stuck => exact Ensures.pure fun s hs => hs
      · exact fun _ => Ensures.pure fun s hs => hs
    · exact fun _ => Ensures.pure fun s hs => hs

end Send

include hhost in
theorem ed64Send_leaves (data : Bytes) : Ensures (fun s => s.Sound env ms (Acc ms told)) (ed64Send env data)
    fun _ s => s.Sound env ms (Acc ms told) := by
  apply Ensures.ite
  · exact fun _ => Ensures.pure fun s hs => hs
  · intro _
    apply Ensures.bind _ (callBegin_sound _)
    intro _
    apply Ensures.modify_bind (fun s => s.Sound env ms (Acc ms told))
    · exact fun s hs => hs.congr rfl rfl rfl
    · apply Ensures.bind _ (readAhead_leaves hhost)
      intro ok
      apply Ensures.ite
      · rintro rfl
        apply Ensures.modify_bind (X7.Sending env ms (Acc ms told))
        · exact fun s hs => X7.Sending.change ⟨hs.1, (hs.2 rfl).1⟩ rfl rfl (hs.2 rfl).1.rdWant rfl rfl
        · exact (sendLoop_sending _ _ _ _).ends fun _ s hs => hs.1
      · exact fun _ => Ensures.pure fun s hs => hs.1

end Calls

section Run

inductive X7Op where
  | receive (cap : Nat)
  | send (data : Bytes)

variable (env : X7Env)

/-- One call, and what it hands over. -/
def X7Op.perform : X7Op → Drv (List (Option UInt8))
  | .receive cap => do
    let n ← ed64Receive env cap
    pure n.syms
  | .send data => do
    let _ ← ed64Send env data
    pure []

def x7Run : List X7Op → Drv (List (Option UInt8))
  | [] => pure []
  | op :: ops => do
    let syms ← op.perform env
    let rest ← x7Run ops
    pure (syms ++ rest)

variable {env} {ms : List UsbMessage}

theorem X7Op.perform_leaves (hhost : env.host = hostStream ms) (op : X7Op) (told : List (Option UInt8)) :
    Ensures (fun s => s.Sound env ms (Acc ms told)) (op.perform env)
      fun syms s => s.Sound env ms (Acc ms (told ++ syms)) := by
  cases op with
  | receive cap =>
    apply Ensures.bind _ (ed64Receive_leaves hhost cap)
    exact fun n => Ensures.pure fun s hs => hs
  | send data =>
    apply Ensures.bind _ (ed64Send_leaves hhost data)
    intro _
    apply Ensures.pure
    intro s hs
    rwa [List.append_nil]

theorem x7Run_leaves (hhost : env.host = hostStream ms) (ops : List X7Op) : ∀ told : List (Option UInt8),
    Ensures (fun s => s.Sound env ms (Acc ms told)) (x7Run env ops)
      fun syms s => s.Sound env ms (Acc ms (told ++ syms)) := by
  induction ops with
  | nil =>
    intro told
    apply Ensures.pure
    intro s hs
    rwa [List.append_nil]
  | cons op ops ih =>
    intro told
    apply Ensures.bind _ (op.perform_leaves hhost told)
    intro syms
    apply Ensures.bind _ (ih _)
    intro rest
    apply Ensures.pure
    intro s hs
    rwa [← List.append_assoc]

theorem X7.start_sound (env : X7Env) (ms : List UsbMessage) {T : Nat → List (Option UInt8) → Prop} (hT : T 0 []) :
    X7.start.Sound env ms T := by
  refine ⟨⟨Nat.le_refl _, Nat.zero_le _, Nat.zero_le _, fun hne => (hne rfl).elim, Nat.zero_le _,
    fun hne => (hne rfl).elim, fun hne => (hne rfl).elim, fun hne => (hne rfl).elim⟩,
    ⟨Nat.zero_le _, nofun, nofun, nofun, fun _ => .inl rfl, nofun, nofun, fun _ => rfl, Nat.zero_le _⟩, rfl,
    fun hne => (hne rfl).elim, fun _ => ⟨?_, rfl, fun _ => ⟨0, Nat.zero_le _, rfl⟩⟩⟩
  rw [show X7.start.taken = 0 from rfl, begun_zero]
  exact hT

theorem x7Run_sound (hhost : env.host = hostStream ms) (ops : List X7Op) :
    ((x7Run env ops).run X7.start).2.Sound env ms (Acc ms ((x7Run env ops).run X7.start).1) :=
  (x7Run_leaves hhost ops []).holds X7.start (X7.start_sound env ms .start)

/-- Over any run of calls the queue's buffer is never overrun, and unless a read
was abandoned while bytes of a payload look like a message's header, what was
handed over and is queued accounts for the messages in order. -/
theorem x7Run_accounts (hhost : env.host = hostStream ms) (ops : List X7Op) :
    ((x7Run env ops).run X7.start).2.high ≤ edRxqCap ∧
      ((x7Run env ops).run X7.start).2.rxqOff + ((x7Run env ops).run X7.start).2.rxqLen ≤ edRxqCap ∧
      ((((x7Run env ops).run X7.start).2.abandoned = true → Clean ms) →
        ∃ n, Accounts ms n (((x7Run env ops).run X7.start).1 ++ ((x7Run env ops).run X7.start).2.syms)) := by
  have hs := x7Run_sound hhost ops
  exact ⟨hs.formed.high, hs.formed.fits, fun htold => (hs.placed htold).told⟩

/-- Everything the host has to send is there, the PI is never busy and time stands still. -/
def calmEnv (ms : List UsbMessage) : X7Env where
  host := hostStream ms
  pi := fun _ => ⟨(hostStream ms).length, edWindow, false, true, true, 0⟩
  clock := fun _ => 0
  patience := 1

def threeAndOne : List UsbMessage :=
  [⟨⟨multi64L3Type, [1, 2, 3]⟩, by decide⟩, ⟨⟨multi64L3Type, [4]⟩, by decide⟩]

theorem x7Run_accounts_two : ∃ n, Accounts threeAndOne n [some 1, some 2, some 3, some 4] := by
  have hrun := (@x7Run_accounts (calmEnv threeAndOne) threeAndOne rfl [.receive 64, .send [9], .receive 64]).2.2
    fun h => absurd h (by decide +kernel)
  have hsyms : ((x7Run (calmEnv threeAndOne) [.receive 64, .send [9], .receive 64]).run X7.start).1 ++
      ((x7Run (calmEnv threeAndOne) [.receive 64, .send [9], .receive 64]).run X7.start).2.syms =
      [some 1, some 2, some 3, some 4] := by decide +kernel
  rwa [hsyms] at hrun

/-- A payload with a whole message in it. -/
def decoy : UsbMessage where
  datatype := multi64L3Type
  payload := [1, 2, 3, 4] ++ (dmaMagic ++ (messageHead multi64L3Type 2 ++ ([0xAA, 0xBB] ++ cmpMagic)))
  fits := by decide

/-- Four bytes of the payload have arrived when the read of it is abandoned, and
the rest arrive after. -/
def stallEnv : X7Env where
  host := hostStream [decoy]
  pi := fun n => ⟨if n = 0 then 12 else if n < 7 then 0 else 18, 0, false, true, true, 0⟩
  clock := fun n => if n < 10 then 0 else edBusyTicks
  patience := 0

theorem decoy_delivered : ¬∃ n, Accounts [decoy] n (((x7Run stallEnv [.receive 64, .receive 64]).run X7.start).1 ++
    ((x7Run stallEnv [.receive 64, .receive 64]).run X7.start).2.syms) := by
  have hsyms : ((x7Run stallEnv [.receive 64, .receive 64]).run X7.start).1 ++
      ((x7Run stallEnv [.receive 64, .receive 64]).run X7.start).2.syms = [none, some 0xAA, some 0xBB] := by
    decide +kernel
  rw [hsyms]
  rintro ⟨n, h⟩
  obtain ⟨m, hm, -, hall⟩ := h.whole (b := 0xAA) (by simp)
  obtain rfl := List.mem_singleton.mp hm
  have hone := hall 1 (by decide)
  exact absurd hone (by decide)

end Run

end Multi64
