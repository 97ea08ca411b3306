import Multi64.X7Accounts

/-! What `ed64Send` puts on USB. Reading ahead of the message sends nothing, and
of the message's blocks each is sent once. -/

namespace Multi64

/-- `K` is kept by the cart's own progress and by every transfer but a write. -/
structure UnitKept (env : X7Env) (K : UsbUnit → Prop) : Prop where
  pump : ∀ a (s : X7), K s.toUsbUnit → K (s.pump env a).toUsbUnit
  mode : ∀ mode (s : X7), (∀ addr, mode ≠ .wr addr) → K s.toUsbUnit → K (s.setMode mode).toUsbUnit

section Receive

variable {env : X7Env} {K : UsbUnit → Prop} (hk : UnitKept env K)

def Keeps {α : Type} (K : UsbUnit → Prop) (m : Drv α) : Prop :=
  Ensures (fun s => K s.toUsbUnit) m fun _ s => K s.toUsbUnit

theorem Keeps.pure {α : Type} (a : α) : Keeps K (Pure.pure a : Drv α) := Ensures.pure fun _ hs => hs

theorem Keeps.bind {α β : Type} {m : Drv β} {f : β → Drv α} (hm : Keeps K m) (hf : ∀ b, Keeps K (f b)) :
    Keeps K (m >>= f) :=
  Ensures.bind _ hm hf

theorem Keeps.get {α : Type} {f : X7 → Drv α} (hf : ∀ x, Keeps K (f x)) : Keeps K (get >>= f) :=
  Ensures.get_bind fun x hx => (hf x).here hx

theorem Keeps.modify {f : X7 → X7} (hf : ∀ s, (f s).toUsbUnit = s.toUsbUnit) : Keeps K (modify f : Drv PUnit) :=
  Ensures.modify fun s hs => by rwa [hf s]

theorem Keeps.ite {α : Type} {c : Prop} [Decidable c] {m m' : Drv α} (hm : Keeps K m) (hm' : Keeps K m') :
    Keeps K (if c then m else m') :=
  Ensures.ite (fun _ => hm) fun _ => hm'

theorem edCount_keeps : Keeps K (edCount env) :=
  Keeps.get fun _ => Keeps.bind (Keeps.modify fun _ => rfl) fun _ => Keeps.pure _

theorem outOfTime_keeps : Keeps K (outOfTime env) :=
  Keeps.bind edCount_keeps fun _ => Keeps.get fun _ => Keeps.pure _

include hk

theorem piAccess_keeps : Keeps K (piAccess env) := by
  apply Ensures.get_bind
  intro x hx
  exact Ensures.modify_here _ (hk.pump _ _ hx) (Ensures.pure fun s hs => hs)

theorem piReadStatus_keeps : Keeps K (piReadStatus env) := by
  apply Keeps.bind (piAccess_keeps hk)
  exact fun a => Keeps.get fun s => Keeps.ite (Keeps.pure _) (Keeps.pure _)

theorem piLoadWords_keeps (first words : Nat) : Keeps K (piLoadWords env first words) := by
  apply Keeps.bind (piAccess_keeps hk)
  exact fun a => Keeps.get fun s => Keeps.ite (Keeps.pure _) (Keeps.pure _)

theorem piWriteStored_keeps (mode : UsbMode) (hmode : ∀ addr, mode ≠ .wr addr) : Keeps K (piWriteStored env mode) := by
  apply Keeps.bind (piAccess_keeps hk)
  intro a
  apply Keeps.ite (Keeps.pure _)
  exact Ensures.modify_bind _ (fun s hs => hk.mode mode s hmode hs) (Ensures.pure fun s hs => hs)

theorem usbIdleLoop_keeps (began : UInt32) (spins : Nat) : Keeps K (usbIdleLoop env began spins) := by
  induction spins with
  | zero => exact Keeps.pure _
  | succ spins ih =>
    apply Keeps.bind outOfTime_keeps
    intro late
    apply Keeps.ite (Keeps.pure _)
    apply Keeps.bind (piReadStatus_keeps hk)
    intro r
    cases r with
    | none => exact Keeps.get fun s => Keeps.ite ih (Keeps.pure _)
    | some status =>
      apply Keeps.ite
      · exact Keeps.bind edCount_keeps fun now => Keeps.ite (Keeps.pure _) ih
      · exact Keeps.bind (Keeps.modify fun _ => rfl) fun _ => Keeps.pure _

theorem usbIdle_keeps : Keeps K (usbIdle env) := by
  apply Keeps.bind edCount_keeps
  intro began
  apply Keeps.bind (usbIdleLoop_keeps hk began edBusySpins)
  intro r
  cases r with
  | some r => exact Keeps.pure _
  | none =>
    apply Keeps.bind (piWriteStored_keeps hk .rdNop nofun)
    intro w
    apply Keeps.ite (Keeps.pure _)
    apply Keeps.get
    exact fun s => Keeps.ite (Keeps.bind (Keeps.modify fun _ => rfl) fun _ => Keeps.pure _) (Keeps.pure _)

theorem usbAsk_keeps (n : Nat) : Keeps K (usbAsk env n) := by
  apply Keeps.bind outOfTime_keeps
  intro late
  apply Keeps.ite (Keeps.pure _)
  apply Keeps.bind (piWriteStored_keeps hk (.rd _) nofun)
  exact fun w => Keeps.ite (Keeps.pure _) (Keeps.bind (Keeps.modify fun _ => rfl) fun _ => Keeps.pure _)

theorem usbTake_keeps : Keeps K (usbTake env) := by
  apply Keeps.get
  intro s
  apply Keeps.bind (usbIdle_keeps hk)
  intro r
  cases r with
  | busy => exact Keeps.pure _
  | stuck => exact Keeps.pure _
  | idle status =>
    apply Keeps.bind outOfTime_keeps
    intro late
    apply Keeps.ite (Keeps.pure _)
    apply Keeps.bind (piLoadWords_keeps hk _ _)
    intro r
    cases r with
    | none => exact Keeps.pure _
    | some b => exact Keeps.bind (Keeps.modify fun _ => rfl) fun _ => Keeps.pure _

omit hk in
theorem rxStopped_keeps : Keeps K rxStopped :=
  Keeps.get fun _ => Keeps.ite (Keeps.bind (Keeps.modify fun _ => rfl) fun _ => Keeps.pure _) (Keeps.pure _)

theorem drainOwed_keeps (fuel : Nat) : Keeps K (drainOwed env fuel) := by
  induction fuel with
  | zero => exact Keeps.pure _
  | succ fuel ih =>
    apply Keeps.get
    intro s
    apply Keeps.ite _ (Keeps.pure _)
    apply Keeps.bind (usbIdle_keeps hk)
    intro r
    cases r with
    | busy => exact Keeps.bind rxStopped_keeps fun _ => Keeps.pure _
    | stuck => exact Keeps.bind rxStopped_keeps fun _ => Keeps.pure _
    | idle status =>
      apply Keeps.ite (Keeps.pure _)
      apply Keeps.bind (usbAsk_keeps hk _)
      exact fun ok => Keeps.ite (Keeps.bind (Keeps.modify fun _ => rfl) fun _ => ih) (Keeps.pure _)

theorem rxTrailer_keeps : Keeps K (rxTrailer env) := by
  apply Keeps.bind (usbTake_keeps hk)
  intro r
  cases r with
  | none => exact rxStopped_keeps
  | some b =>
    refine Keeps.bind (Keeps.modify fun _ => rfl) fun _ => ?_
    exact Keeps.ite (Keeps.pure _) (Keeps.bind (Keeps.modify fun _ => rfl) fun _ => Keeps.pure _)

theorem payloadLoop_keeps (fuel : Nat) : Keeps K (payloadLoop env fuel) := by
  induction fuel with
  | zero => exact Keeps.pure _
  | succ fuel ih =>
    apply Keeps.get
    intro s
    apply Keeps.ite
    · apply Keeps.bind (usbTake_keeps hk)
      intro r
      cases r with
      | none => exact Keeps.bind rxStopped_keeps fun _ => Keeps.pure _
      | some b => exact Keeps.bind (Keeps.modify fun _ => rfl) fun _ => ih
    · apply Keeps.ite _ (Keeps.pure _)
      apply Keeps.bind (usbAsk_keeps hk _)
      exact fun ok => Keeps.ite (Keeps.bind (Keeps.modify fun _ => rfl) fun _ => ih) (Keeps.pure _)

theorem rxPayload_keeps : Keeps K (rxPayload env) := by
  apply Keeps.get
  intro s
  apply Keeps.bind (payloadLoop_keeps hk _)
  intro r
  cases r with
  | some r => exact Keeps.pure _
  | none =>
    apply Keeps.bind (usbAsk_keeps hk _)
    exact fun ok => Keeps.ite (Keeps.bind (Keeps.modify fun _ => rfl) fun _ => rxTrailer_keeps hk) (Keeps.pure _)

theorem rxRoom_keeps : Keeps K (rxRoom env) := by
  refine Keeps.bind (Keeps.modify fun _ => rfl) fun _ => ?_
  apply Keeps.get
  intro s
  apply Keeps.ite (Keeps.pure _)
  exact Keeps.bind (Keeps.modify fun _ => rfl) fun _ => rxPayload_keeps hk

theorem rxHead_keeps (b : Bytes) : Keeps K (rxHead env b) := by
  apply Keeps.ite (Keeps.pure _)
  refine Keeps.ite (Keeps.bind (Keeps.modify fun _ => rfl) fun _ => Keeps.pure _) ?_
  refine Keeps.ite (Keeps.bind (Keeps.modify fun _ => rfl) fun _ => Keeps.pure _) ?_
  exact Keeps.bind (Keeps.modify fun _ => rfl) fun _ => rxRoom_keeps hk

theorem rxTakeHeader_keeps : Keeps K (rxTakeHeader env) := by
  apply Keeps.bind (usbTake_keeps hk)
  intro r
  cases r with
  | none => exact rxStopped_keeps
  | some b => exact rxHead_keeps hk b

theorem rxHeader_keeps (v : UsbStatus) : Keeps K (rxHeader env v) := by
  apply Keeps.get
  intro s
  apply Keeps.ite _ (rxTakeHeader_keeps hk)
  apply Keeps.ite (Keeps.pure _)
  apply Keeps.bind (usbAsk_keeps hk _)
  exact fun ok => Keeps.ite (Keeps.bind (Keeps.modify fun _ => rfl) fun _ => rxTakeHeader_keeps hk) (Keeps.pure _)

/-- What the cart keeps by itself, receiving keeps. -/
theorem usbReceive_keeps : Keeps K (usbReceive env) := by
  apply Keeps.get
  intro s
  apply Keeps.bind (drainOwed_keeps hk _)
  intro r
  cases r with
  | error r => exact Keeps.pure _
  | ok v =>
    apply Keeps.get
    intro x
    cases x.phase with
    | header => exact rxHeader_keeps hk v
    | room => exact rxRoom_keeps hk
    | payload => exact rxPayload_keeps hk
    | trailer => exact rxTrailer_keeps hk

theorem readAhead_keeps : Keeps K (readAhead env) := by
  rw [readAhead]
  induction edReadAheadMax with
  | zero => exact Keeps.pure _
  | succ passes ih =>
    apply Keeps.bind (usbReceive_keeps hk)
    intro r
    cases r with
    | clear => exact Keeps.pure _
    | done => exact ih
    | lost =>
      have hmark : ∀ s : X7, s.markLoss.toUsbUnit = s.toUsbUnit := by
        intro s
        unfold X7.markLoss
        split <;> rfl
      exact Keeps.bind (Keeps.modify hmark) fun _ => ih
    | busy => exact Keeps.pure _
    | full => exact Keeps.pure _

end Receive

section Since

/-- Nothing has gone out since `u₀` but what was left of the write under way then. -/
def UsbUnit.Since (u₀ u : UsbUnit) : Prop :=
  ∃ left, u.sent = u₀.sent ++ left ∧ left.length + u.wrWant ≤ u₀.wrWant

theorem UsbUnit.since_kept (env : X7Env) (u₀ : UsbUnit) : UnitKept env u₀.Since := by
  constructor
  · rintro a s ⟨left, hsent, hlen⟩
    refine ⟨left ++ s.window.read (edWindow - s.wrWant) (min s.wrWant a.goOut), ?_, ?_⟩
    · rw [← List.append_assoc, ← hsent]
      rfl
    · rw [List.length_append, Store.read_length]
      change _ + (s.wrWant - min s.wrWant a.goOut) ≤ _
      omega
  · rintro mode s hmode ⟨left, hsent, hlen⟩
    have hzero : (s.setMode mode).wrWant = 0 ∧ (s.setMode mode).sent = s.sent := by
      cases mode with
      | rdNop => exact ⟨rfl, rfl⟩
      | wrNop => exact ⟨rfl, rfl⟩
      | rd addr => exact ⟨rfl, rfl⟩
      | wr addr => exact (hmode addr rfl).elim
    exact ⟨left, hzero.2.trans hsent, by omega⟩

end Since

section Blocks

variable {env : X7Env} {sent : Bytes}

/-- Once the write under way is done, `sent` is what has gone out. -/
structure X7.Sends (sent : Bytes) (s : X7) : Prop where
  rdWant : s.rdWant = 0
  reading : s.reading = false
  wrWant : s.wrWant ≤ edWindow
  sent : s.sent ++ s.window.read (edWindow - s.wrWant) s.wrWant = sent

theorem X7.Sends.pump {s : X7} (h : s.Sends sent) (env : X7Env) (a : PiAccess) :
    (s.pump env a).Sends sent ∧ (s.pump env a).window = s.window ∧ (s.pump env a).wrWant ≤ s.wrWant := by
  have hrd := h.rdWant
  have hwr := h.wrWant
  have hwin : (s.pump env a).window = s.window := by
    change s.window.write _ (slice env.host s.taken (min s.rdWant _)) = s.window
    rw [hrd, Nat.zero_min, slice, List.take_zero, Store.write_nil]
  have hrd' : (s.pump env a).rdWant = 0 := by
    change s.rdWant - _ = 0
    omega
  refine ⟨⟨hrd', h.reading, Nat.le_trans (Nat.sub_le _ _) hwr, ?_⟩, hwin, Nat.sub_le _ _⟩
  have hsplit := s.window.read_append (edWindow - s.wrWant) (min s.wrWant a.goOut) (s.wrWant - min s.wrWant a.goOut)
  rw [show min s.wrWant a.goOut + (s.wrWant - min s.wrWant a.goOut) = s.wrWant by omega,
    show edWindow - s.wrWant + min s.wrWant a.goOut = edWindow - (s.wrWant - min s.wrWant a.goOut) by omega] at hsplit
  rw [hwin, ← h.sent, hsplit, ← List.append_assoc]
  rfl

/-- Between two blocks; the window holds `b` from `a` on. -/
structure X7.Between (sent : Bytes) (s : X7) : Prop where
  rdWant : s.rdWant = 0
  reading : s.reading = false
  wrWant : s.wrWant = 0
  sent : s.sent = sent

theorem X7.Between.sends {s : X7} (h : s.Between sent) : s.Sends sent := by
  refine ⟨h.rdWant, h.reading, by rw [h.wrWant]; exact Nat.zero_le _, ?_⟩
  rw [h.wrWant, Store.read_zero, List.append_nil, h.sent]

theorem X7.Sends.between {s : X7} (h : s.Sends sent) (hwr : s.wrWant = 0) : s.Between sent := by
  have hsent := h.sent
  rw [hwr, Store.read_zero, List.append_nil] at hsent
  exact ⟨h.rdWant, h.reading, hwr, hsent⟩

variable {w : Store}

/-- Between two blocks with the window `w`. -/
def X7.Holds (sent : Bytes) (w : Store) (s : X7) : Prop := s.Between sent ∧ s.window = w

theorem piAccess_holds : Ensures (X7.Holds sent w) (piAccess env) fun _ => X7.Holds sent w := by
  apply Ensures.get_bind
  rintro x ⟨hx, hw⟩
  refine Ensures.modify_here _ ?_ (Ensures.pure fun s hs => hs)
  obtain ⟨hsends, hwin, hwr⟩ := hx.sends.pump env (env.pi x.accesses)
  have hzero := hx.wrWant
  exact ⟨hsends.between (by omega), hwin.trans hw⟩

theorem outOfTime_holds : Ensures (X7.Holds sent w) (outOfTime env) fun _ => X7.Holds sent w := by
  apply Ensures.bind (fun _ => X7.Holds sent w)
  · apply Ensures.get_bind
    rintro x ⟨hx, hw⟩
    exact Ensures.modify_here _ ⟨⟨hx.rdWant, hx.reading, hx.wrWant, hx.sent⟩, hw⟩ (Ensures.pure fun s hs => hs)
  · exact fun now => Ensures.get_bind fun x hx => Ensures.pure_here hx

theorem piWrite_holds : Ensures (X7.Holds sent w) (piWrite env .wrNop) fun _ => X7.Holds sent w := by
  apply Ensures.bind (fun _ => X7.Holds sent w)
  · apply Ensures.bind _ piAccess_holds
    intro a
    apply Ensures.ite
    · exact fun _ => Ensures.pure fun s hs => hs
    · intro _
      refine Ensures.modify_bind _ (fun s hs => ?_) (Ensures.pure fun s hs => hs)
      exact ⟨⟨rfl, hs.1.reading, rfl, hs.1.sent⟩, hs.2⟩
  · exact fun w' => Ensures.pure fun s hs => hs

theorem piStoreWords_holds (words : Bytes) (first : Nat) : Ensures (fun s => s.Between sent) (piStoreWords env words first)
    fun ok s => s.Between sent ∧ (ok = true → s.window.read first words.length = words) := by
  apply Ensures.each
  intro x hx
  apply Ensures.bind _ (piAccess_holds.here ⟨hx, rfl⟩)
  intro a
  apply Ensures.modify_bind fun s => s.Between sent ∧ (a.busy = false → s.window.read first words.length = words)
  · intro s hs
    refine ⟨⟨hs.1.rdWant, hs.1.reading, hs.1.wrWant, hs.1.sent⟩, fun hbusy => ?_⟩
    change (s.window.write first (if a.busy then words.take (4 * a.partly) else words)).read first words.length = words
    rw [hbusy]
    exact Store.read_write _ _ _
  · apply Ensures.pure
    intro s hs
    exact ⟨hs.1, fun hok => hs.2 (Bool.not_eq_true' _ ▸ hok)⟩

theorem piWriteStored_wr {addr : Nat} (haddr : addr ≤ edWindow) : Ensures (X7.Holds sent w) (piWriteStored env (.wr addr))
    fun r s => if (r.ok || r.stored) = true then s.Sends (sent ++ w.read addr (edWindow - addr)) else s.Between sent := by
  apply Ensures.bind _ piAccess_holds
  intro a
  apply Ensures.ite
  · exact fun _ => Ensures.pure fun s hs => hs.1
  · intro _
    apply Ensures.modify_bind fun s => s.Sends (sent ++ w.read addr (edWindow - addr))
    · rintro s ⟨hs, rfl⟩
      refine ⟨rfl, hs.reading, Nat.sub_le _ _, ?_⟩
      change s.sent ++ s.window.read (edWindow - (edWindow - addr)) (edWindow - addr) = _
      rw [hs.sent, Nat.sub_sub_self haddr]
    · apply Ensures.pure
      intro s hs
      rw [if_pos (Bool.or_true _)]
      exact hs

/-- One round puts the block on USB or changes nothing there. -/
theorem tryBlock_sends {words b : Bytes} {first addr : Nat} (hfirst : first ≤ addr) (haddr : addr ≤ edWindow)
    (hlen : words.length = edWindow - first) (hb : words.drop (addr - first) = b) :
    Ensures (fun s => s.Between sent) (tryBlock env words first addr)
      fun ok s => if ok then s.Sends (sent ++ b) else s.Between sent := by
  have hkeep : ∀ {α : Type} {m : Drv α}, (∀ w, Ensures (X7.Holds sent w) m fun _ => X7.Holds sent w) →
      Ensures (fun s => s.Between sent) m fun _ s => s.Between sent :=
    fun hm => Ensures.each fun x hx => ((hm x.window).here ⟨hx, rfl⟩).ends fun _ s hs => hs.1
  have hstop : ∀ {P : X7 → Prop}, (∀ s, P s → s.Between sent) → Ensures P (pure false : Drv Bool)
      fun ok s => if ok then s.Sends (sent ++ b) else s.Between sent :=
    fun hp => Ensures.pure fun s hs => hp s hs
  apply Ensures.bind _ (hkeep fun w => outOfTime_holds)
  intro late
  apply Ensures.ite (fun _ => hstop fun s hs => hs)
  intro _
  apply Ensures.bind _ (hkeep fun w => piWrite_holds)
  intro ok
  apply Ensures.ite _ (fun _ => hstop fun s hs => hs)
  intro _
  apply Ensures.bind _ (hkeep fun w => outOfTime_holds)
  intro late
  apply Ensures.ite (fun _ => hstop fun s hs => hs)
  intro _
  apply Ensures.bind _ (piStoreWords_holds words first)
  intro ok
  apply Ensures.ite _ (fun _ => hstop fun s hs => hs.1)
  rintro rfl
  apply Ensures.each
  rintro x ⟨hx, hread⟩
  have hblock : x.window.read addr (edWindow - addr) = b := by
    have hdrop := congrArg (List.drop (addr - first)) (hread rfl)
    rw [Store.drop_read _ _ _ (by omega), hb, hlen] at hdrop
    rw [← hdrop]
    congr 1 <;> omega
  apply Ensures.bind _ ((outOfTime_holds (w := x.window)).here ⟨hx, rfl⟩)
  intro late
  apply Ensures.ite (fun _ => hstop fun s hs => hs.1)
  intro _
  apply Ensures.bind _ (piWriteStored_wr haddr)
  intro r
  apply Ensures.pure
  intro s hs
  rw [hblock] at hs
  exact hs

theorem startBlock_sends {words b : Bytes} {first addr : Nat} (hfirst : first ≤ addr) (haddr : addr ≤ edWindow)
    (hlen : words.length = edWindow - first) (hb : words.drop (addr - first) = b) (rounds : Nat) :
    Ensures (fun s => s.Between sent) (startBlock env words first addr rounds)
      fun ok s => ok = true → s.Sends (sent ++ b) := by
  induction rounds with
  | zero => exact Ensures.pure fun s hs => nofun
  | succ rounds ih =>
    apply Ensures.bind _ (tryBlock_sends hfirst haddr hlen hb)
    intro ok
    apply Ensures.ite
    · rintro rfl
      exact Ensures.pure fun s hs _ => hs
    · intro hok
      apply Ensures.get_bind
      intro x hx
      rw [if_neg hok] at hx
      apply Ensures.ite
      · intro _
        apply Ensures.bind _ ((outOfTime_holds (w := x.window)).here ⟨hx, rfl⟩)
        intro late
        apply Ensures.ite
        · exact fun _ => Ensures.pure fun s hs => nofun
        · exact fun _ => ih.starts fun s hs => hs.1
      · exact fun _ => Ensures.pure fun s hs => nofun

theorem piAccess_sends : Ensures (X7.Sends sent) (piAccess env) fun _ => X7.Sends sent := by
  apply Ensures.get_bind
  intro x hx
  exact Ensures.modify_here _ (hx.pump env _).1 (Ensures.pure fun s hs => hs)

theorem edCount_sends : Ensures (X7.Sends sent) (edCount env) fun _ => X7.Sends sent := by
  apply Ensures.get_bind
  intro x hx
  exact Ensures.modify_here _ ⟨hx.rdWant, hx.reading, hx.wrWant, hx.sent⟩ (Ensures.pure fun s hs => hs)

theorem outOfTime_sends : Ensures (X7.Sends sent) (outOfTime env) fun _ => X7.Sends sent :=
  Ensures.bind _ edCount_sends fun _ => Ensures.get_bind fun _ hx => Ensures.pure_here hx

theorem piReadStatus_sends : Ensures (X7.Sends sent) (piReadStatus env)
    fun r s => s.Sends sent ∧ ∀ status, r = some status → status.act = false → s.wrWant = 0 := by
  apply Ensures.bind _ piAccess_sends
  intro a
  apply Ensures.get_bind
  intro x hx
  apply Ensures.ite
  · exact fun _ => Ensures.pure_here ⟨hx, nofun⟩
  · intro _
    apply Ensures.pure_here
    refine ⟨hx, fun status h hact => ?_⟩
    obtain rfl := Option.some.inj h
    have hwr := (not_or.mp (of_decide_eq_false hact)).2
    omega

theorem usbIdleLoop_sends (began : UInt32) (spins : Nat) : Ensures (X7.Sends sent) (usbIdleLoop env began spins)
    fun r s => ∀ status, r = some (.idle status) → s.Between sent := by
  induction spins with
  | zero => exact Ensures.pure fun s hs => nofun
  | succ spins ih =>
    apply Ensures.bind _ outOfTime_sends
    intro late
    apply Ensures.ite
    · exact fun _ => Ensures.pure fun s hs => nofun
    · intro _
      apply Ensures.bind _ piReadStatus_sends
      intro r
      cases r with
      | none =>
        apply Ensures.get_bind
        intro x hx
        apply Ensures.ite
        · exact fun _ => ih.here hx.1
        · exact fun _ => Ensures.pure fun s hs => nofun
      | some status =>
        apply Ensures.ite
        · intro _
          apply Ensures.bind _ (edCount_sends.starts fun s hs => hs.1)
          intro now
          apply Ensures.ite
          · exact fun _ => Ensures.pure fun s hs => nofun
          · exact fun _ => ih
        · intro hact
          apply Ensures.modify_bind fun s => s.Between sent
          · intro s hs
            have hwr := hs.2 status rfl (Bool.not_eq_true _ ▸ hact)
            have hbetween := hs.1.between hwr
            exact ⟨hbetween.rdWant, rfl, hbetween.wrWant, hbetween.sent⟩
          · exact Ensures.pure fun s hs _ _ => hs

theorem usbIdle_sends : Ensures (X7.Sends sent) (usbIdle env)
    fun r s => ∀ status, r = .idle status → s.Between sent := by
  apply Ensures.bind _ edCount_sends
  intro began
  apply Ensures.bind _ (usbIdleLoop_sends began edBusySpins)
  intro r
  cases r with
  | some r => exact Ensures.pure fun s hs status hr => hs status (congrArg some hr)
  | none =>
    apply Ensures.bind (fun _ _ => True) ⟨fun _ _ => trivial⟩
    intro w
    apply Ensures.ite
    · exact fun _ => Ensures.pure fun s hs => nofun
    · intro _
      apply Ensures.get_bind
      intro x _
      apply Ensures.ite
      · intro _
        exact Ensures.modify_bind (fun _ => True) (fun _ _ => trivial) (Ensures.pure fun s hs => nofun)
      · exact fun _ => Ensures.pure fun s hs => nofun

/-- The block at `p` of a message. -/
theorem blockWords_eq (data : Bytes) (p : Nat) {n : Nat} (hn : n ≤ edWindow) :
    (blockWords data p n).length = edWindow - (edWindow - n) / 4 * 4 ∧
      (blockWords data p n).drop (edWindow - n - (edWindow - n) / 4 * 4) =
        (List.range n).map fun i => messageByte data (p + i) := by
  have hle : (edWindow - n) / 4 * 4 ≤ edWindow - n := Nat.div_mul_le_self _ _
  constructor
  · simp only [blockWords, List.length_append, List.length_replicate, List.length_map, List.length_range]
    omega
  · exact List.drop_left' (List.length_replicate ..)

theorem take_cartMessage {data : Bytes} {p n : Nat} (h : p + n ≤ messageTotal data.length) :
    (cartMessage data).take p ++ (List.range n).map (fun i => messageByte data (p + i)) =
      (cartMessage data).take (p + n) := by
  obtain ⟨rest, hrest⟩ := Nat.exists_eq_add_of_le h
  have hp : ((List.range p).map (messageByte data)).length = p := by rw [List.length_map, List.length_range]
  have hpn : ((List.range (p + n)).map (messageByte data)).length = p + n := by
    rw [List.length_map, List.length_range]
  rw [cartMessage, hrest, map_range_add, List.take_left' hpn, map_range_add, List.append_assoc, List.take_left' hp]

theorem sendLoop_sends (data : Bytes) {total : Nat} (htotal : total = messageTotal data.length) (fuel : Nat) :
    ∀ p ≤ total, Ensures (fun s => s.Between (sent ++ (cartMessage data).take p)) (sendLoop env data total fuel p)
      fun ok s => ok = true → s.sent = sent ++ cartMessage data := by
  induction fuel with
  | zero => exact fun p hp => Ensures.pure fun s hs => nofun
  | succ fuel ih =>
    intro p hp
    apply Ensures.ite
    · intro hlt
      obtain ⟨hlen, hdrop⟩ := blockWords_eq data p (Nat.min_le_right (total - p) edWindow)
      apply Ensures.bind _ (startBlock_sends (Nat.div_mul_le_self _ _) (Nat.sub_le _ _) hlen hdrop env.patience)
      intro ok
      apply Ensures.ite
      · rintro rfl
        have hnext := take_cartMessage (show p + min (total - p) edWindow ≤ messageTotal data.length by omega)
        apply Ensures.modify_bind fun s => s.Sends (sent ++ (cartMessage data).take (p + min (total - p) edWindow))
        · intro s hs
          have hs := hs rfl
          rw [List.append_assoc, hnext] at hs
          exact ⟨hs.rdWant, hs.reading, hs.wrWant, hs.sent⟩
        · apply Ensures.bind _ usbIdle_sends
          intro r
          cases r with
          | idle status => exact (ih _ (by omega)).starts fun s hs => hs status rfl
          | busy => exact Ensures.pure fun s hs => nofun
          | stuck => exact Ensures.pure fun s hs => nofun
      · exact fun _ => Ensures.pure fun s hs => nofun
    · intro hge
      apply Ensures.pure
      intro s hs _
      have hall : (cartMessage data).length ≤ p := by
        rw [cartMessage, List.length_map, List.length_range]
        omega
      rw [hs.sent, List.take_of_length_le hall]

end Blocks

section Send

variable {env : X7Env} {ms : List UsbMessage} {told : List (Option UInt8)}

/-- A send that returns 1 has put the message on USB, behind what was left of a
write under way. -/
theorem ed64Send_sends (hhost : env.host = hostStream ms) (data : Bytes) {x : X7}
    (hx : x.Sound env ms (Acc ms told)) (hok : ((ed64Send env data).run x).1 = true) :
    ∃ left, ((ed64Send env data).run x).2.sent = x.sent ++ left ++ cartMessage data ∧ left.length ≤ x.wrWant := by
  have hsend : Ensures (fun s => s.Sound env ms (Acc ms told) ∧ x.Since s.toUsbUnit) (ed64Send env data)
      fun ok s => ok = true → ∃ left, s.sent = x.sent ++ left ++ cartMessage data ∧ left.length ≤ x.wrWant := by
    apply Ensures.ite
    · exact fun _ => Ensures.pure fun s hs => nofun
    · intro _
      have hkept := UsbUnit.since_kept env x.toUsbUnit
      have hbegin : Keeps x.Since (callBegin env edSendTicks) :=
        Keeps.bind edCount_keeps fun _ => Keeps.modify fun _ => rfl
      apply Ensures.bind _ ((callBegin_sound edSendTicks).and hbegin)
      intro _
      apply Ensures.modify_bind fun s => s.Sound env ms (Acc ms told) ∧ x.Since s.toUsbUnit
      · exact fun s hs => ⟨hs.1.congr rfl rfl rfl, hs.2⟩
      · apply Ensures.bind _ ((readAhead_leaves hhost).and (readAhead_keeps hkept))
        intro ok
        apply Ensures.ite
        · rintro rfl
          apply Ensures.each
          rintro y ⟨⟨-, hrest⟩, left, hsent, hlen⟩
          obtain ⟨hrest, hwr⟩ := hrest rfl
          apply Ensures.modify_here fun s => s.Between (x.sent ++ left ++ (cartMessage data).take 0)
          · rw [List.take_zero, List.append_nil]
            exact ⟨hrest.rdWant, hrest.reading, hwr, hsent⟩
          · apply (sendLoop_sends data rfl _ 0 (Nat.zero_le _)).ends
            exact fun ok s hs hok => ⟨left, hs hok, by omega⟩
        · exact fun _ => Ensures.pure fun s hs => nofun
  exact hsend.holds x ⟨hx, [], (List.append_nil _).symm, Nat.le_of_eq (Nat.zero_add _)⟩ hok

end Send

end Multi64
