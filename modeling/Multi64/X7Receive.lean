import Multi64.X7Steps

/-! What `usbReceive` makes of the host's stream. Each phase starts where the
one before it ends, so its lemma starts from that place. -/

namespace Multi64

section Receive

variable {env : X7Env} {ms : List UsbMessage} {T T' : Nat → List (Option UInt8) → Prop}

/-- Between messages with the USB unit idle. -/
structure X7.Rests (s : X7) : Prop where
  phase : s.phase = .header
  pull : s.pull = 0
  owed : s.owed = 0
  rdWant : s.rdWant = 0
  reading : s.reading = false

def Rx.Leaves (env : X7Env) (ms : List UsbMessage) (T T' : Nat → List (Option UInt8) → Prop) : Rx → X7 → Prop
  | .lost, s => s.Adrift env ms T ∧ s.rxCut = false
  | .done, s => s.Sound env ms T'
  | .clear, s => s.Sound env ms T ∧ s.Rests ∧ s.wrWant = 0
  | _, s => s.Sound env ms T

/-- A read not taken leaves the place told, or part of a message lost. -/
theorem X7.Sound.stopped {x s : X7} (h : x.Sound env ms T) (hs : x.Along env s ∨ x.Dropped env s) :
    s.Sound env ms T ∨ (s.Adrift env ms T ∧ s.rxCut = true) := by
  rcases hs with ha | hd
  · exact .inl (h.along ha)
  · by_cases hpull : x.pull = 0
    · exact .inl (h.drop_owed hd hpull)
    · exact .inr (h.drop_part hd hpull)

theorem rxStopped_leaves : Ensures (fun s => s.Sound env ms T ∨ (s.Adrift env ms T ∧ s.rxCut = true)) rxStopped
    fun r s => (r = .busy ∨ r = .lost) ∧ r.Leaves env ms T T' s := by
  apply Ensures.get_bind
  intro y hy
  apply Ensures.ite
  · intro hcut
    apply Ensures.modify_here fun s => s.Adrift env ms T ∧ s.rxCut = false
    · rcases hy with hs | ⟨ha, -⟩
      · rw [hs.cut] at hcut
        cases hcut
      · have hw := ha.wired
        have hf := ha.formed
        exact ⟨⟨⟨hw.taken_le, hw.arrived_le, hw.rdWant_le, hw.reading, hw.pull_le, hw.want_le, hw.pull_place, hw.pulled⟩,
          ⟨hf.fits, hf.room, hf.mark, hf.fresh, hf.atHeader, hf.atRoom, hf.atTrailer, hf.owes,
            hf.high⟩, ha.phase, ha.pull, ha.placed⟩, rfl⟩
    · exact Ensures.pure fun s hs => ⟨.inr rfl, hs⟩
  · intro hcut
    apply Ensures.pure_here
    rcases hy with hs | ⟨-, hc⟩
    · exact ⟨.inl rfl, hs⟩
    · exact (hcut hc).elim

theorem drainOwed_leaves (T' : Nat → List (Option UInt8) → Prop) (fuel : Nat) : Ensures (fun s => s.Sound env ms T) (drainOwed env fuel) fun r s =>
    match r with
    | .error e => (e = .busy ∨ e = .lost) ∧ e.Leaves env ms T T' s
    | .ok _ => s.Sound env ms T ∧ (s.pull = 0 → s.owed = 0 ∧ s.rdWant = 0 ∧ s.wrWant = 0 ∧ s.reading = false) := by
  induction fuel with
  | zero => exact Ensures.pure fun s hs => ⟨.inl rfl, hs⟩
  | succ fuel ih =>
    apply Ensures.get_bind
    intro y hy
    apply Ensures.ite
    · intro hpull
      apply Ensures.bind _ (usbIdle_leaves.here (X7.Along.refl hy.wired))
      intro r
      cases r with
      | busy =>
        apply Ensures.bind _ (rxStopped_leaves.starts fun s hs => hy.stopped (.inl hs))
        exact fun r => Ensures.pure fun s hs => hs
      | stuck =>
        apply Ensures.bind _ (rxStopped_leaves.starts fun s hs => hy.stopped (hs.imp (fun h => h.along) id))
        exact fun r => Ensures.pure fun s hs => hs
      | idle status =>
        apply Ensures.each
        rintro z ⟨hz, -⟩
        have hzs := hy.along hz.along
        have hzpull : z.pull = 0 := hz.along.pull.trans hpull
        have hzowed : z.owed = y.owed := congrArg RxPath.owed hz.along.2.path
        apply Ensures.ite
        · intro hn
          apply Ensures.pure_here
          have hpos : (0 : Nat) < edWindow := by decide
          exact ⟨hzs, fun _ => ⟨by omega, hz.rdWant, hz.wrWant, hz.reading⟩⟩
        · intro hn
          apply Ensures.bind _ ((usbAsk_asks (Nat.min_le_right _ _) hzpull hz.rdWant).here (X7.Along.refl hz.along.1))
          intro ok
          apply Ensures.ite
          · rintro rfl
            apply Ensures.modify_bind (fun s => s.Sound env ms T) _ ih
            intro s hs
            exact hzs.ask_owed hs hzpull hz.rdWant hn (by rw [hzowed]; exact Nat.min_le_left _ _)
          · intro hok
            apply Ensures.pure
            intro s hs
            rw [if_neg hok] at hs
            exact ⟨.inl rfl, hzs.along hs⟩
    · intro hpull
      exact Ensures.pure_here ⟨hy, fun h => (hpull h).elim⟩

variable (hhost : env.host = hostStream ms) (hadv : Advances ms T T')

include hhost hadv in
theorem rxTrailer_leaves : Ensures (fun s => s.Sound env ms T ∧ s.phase = .trailer) (rxTrailer env)
    fun r s => r.Leaves env ms T T' s := by
  apply Ensures.each
  rintro x ⟨hx, hphase⟩
  have hpull : x.pull ≠ 0 := by
    rw [hx.formed.atTrailer hphase]
    decide
  apply Ensures.bind _ ((usbTake_takes hpull).here (X7.Along.refl hx.wired))
  intro r
  cases r with
  | none => exact (rxStopped_leaves.starts fun s hs => hx.stopped hs).ends fun r s hr => hr.2
  | some b =>
    apply Ensures.each
    intro z hz
    have htake := hx.take_trailer hhost hadv hz hphase
    apply Ensures.modify_here fun s => s = { z with phase := .header }
    · rfl
    · apply Ensures.ite
      · intro hcmp
        apply Ensures.pure_here
        refine ⟨htake.1 hcmp, ?_⟩
        change z.rxCut = false
        rw [hz.path]
        exact hx.cut
      · intro hcmp
        apply Ensures.modify_here (fun s => s.Sound env ms T')
        · exact htake.2 (not_not.mp hcmp)
        · exact Ensures.pure fun s hs => hs

include hhost in
theorem payloadLoop_leaves (T' : Nat → List (Option UInt8) → Prop) (fuel : Nat) : Ensures (fun s => s.Sound env ms T ∧ s.phase = .payload)
    (payloadLoop env fuel) fun r s =>
      match r with
      | some e => e.Leaves env ms T T' s
      | none => s.Sound env ms T ∧ s.phase = .payload ∧ s.pull = 0 ∧ s.msgLeft = 0 := by
  induction fuel with
  | zero => exact Ensures.pure fun s hs => hs.1
  | succ fuel ih =>
    apply Ensures.get_bind
    rintro x ⟨hx, hphase⟩
    apply Ensures.ite
    · intro hpull
      apply Ensures.bind _ ((usbTake_takes hpull).here (X7.Along.refl hx.wired))
      intro r
      cases r with
      | none =>
        apply Ensures.bind _ (rxStopped_leaves.starts fun s hs => hx.stopped hs)
        exact fun r => Ensures.pure fun s hs => hs.2
      | some b =>
        exact Ensures.modify_bind _ (fun s hs => hx.take_payload hhost hs hphase hpull) ih
    · intro hpull
      replace hpull := not_not.mp hpull
      have hne : x.phase ≠ .header := by
        rw [hphase]
        decide
      apply Ensures.ite
      · intro hleft
        apply Ensures.bind _ ((usbAsk_asks (Nat.min_le_right _ _) hpull (hx.rdWant hne hpull)).here (X7.Along.refl hx.wired))
        intro ok
        apply Ensures.ite
        · rintro rfl
          apply Ensures.modify_bind _ _ ih
          intro s hs
          have hwin : (0 : Nat) < edWindow := by decide
          have hs : x.Asked env (min x.msgLeft edWindow) s := hs
          refine ⟨?_, (congrArg RxPath.phase hs.path).trans hphase⟩
          have hask := hx.ask_payload hs hphase hpull (by omega) (Nat.min_le_left _ _) (Nat.min_le_right _ _)
          exact hask
        · intro hok
          apply Ensures.pure
          intro s hs
          rw [if_neg hok] at hs
          exact hx.along hs
      · intro hleft
        exact Ensures.pure_here ⟨hx, hphase, hpull, by omega⟩

include hhost hadv in
theorem rxPayload_leaves : Ensures (fun s => s.Sound env ms T ∧ s.phase = .payload) (rxPayload env)
    fun r s => r.Leaves env ms T T' s := by
  apply Ensures.get_bind
  rintro y ⟨hy, hyphase⟩
  apply Ensures.bind _ ((payloadLoop_leaves hhost T' _).here ⟨hy, hyphase⟩)
  intro r
  cases r with
  | some e => exact Ensures.pure fun s hs => hs
  | none =>
    apply Ensures.each
    rintro x ⟨hx, hphase, hpull, hleft⟩
    have hne : x.phase ≠ .header := by
      rw [hphase]
      decide
    apply Ensures.bind _ ((usbAsk_asks (by decide) hpull (hx.rdWant hne hpull)).here (X7.Along.refl hx.wired))
    intro ok
    apply Ensures.ite
    · rintro rfl
      apply Ensures.modify_bind _ _ (rxTrailer_leaves hhost hadv)
      exact fun s hs => ⟨hx.ask_trailer hs hphase hpull hleft, rfl⟩
    · intro hok
      apply Ensures.pure
      intro s hs
      rw [if_neg hok] at hs
      exact hx.along hs

include hhost hadv in
theorem rxRoom_leaves : Ensures (fun s => s.Sound env ms T ∧ s.phase = .room) (rxRoom env)
    fun r s => r.Leaves env ms T T' s := by
  apply Ensures.modify_bind fun s => s.Sound env ms T ∧ s.phase = .room ∧ s.rxqOff = 0
  · exact fun s hs => ⟨hs.1.to_front hs.2, hs.2, rfl⟩
  · apply Ensures.get_bind
    rintro x ⟨hx, hphase, hoff⟩
    apply Ensures.ite
    · intro _
      exact Ensures.pure_here hx
    · intro hroom
      apply Ensures.modify_here _ _ (rxPayload_leaves hhost hadv)
      exact ⟨hx.to_payload hphase hroom hoff, rfl⟩

include hhost hadv in
theorem rxHead_leaves (b : Bytes) : Ensures (fun s => s.HeadTaken env ms T b) (rxHead env b)
    fun r s => r.Leaves env ms T T' s := by
  apply Ensures.ite
  · intro hmagic
    exact Ensures.pure fun s hs => ⟨hs.head_lost hhost hmagic, hs.cut⟩
  · intro hmagic
    replace hmagic := not_not.mp hmagic
    apply Ensures.ite
    · intro htype
      apply Ensures.modify_bind (fun s => s.Sound env ms T')
      · exact fun s hs => hs.head_other hhost hadv hmagic htype
      · exact Ensures.pure fun s hs => hs
    · intro htype
      apply Ensures.ite
      · intro _
        apply Ensures.modify_bind (fun s => s.Adrift env ms T ∧ s.rxCut = false)
        · exact fun s hs => ⟨hs.head_tooBig hhost hmagic, hs.cut⟩
        · exact Ensures.pure fun s hs => hs
      · intro _
        apply Ensures.modify_bind _ _ (rxRoom_leaves hhost hadv)
        exact fun s hs => ⟨hs.head_room hhost hmagic (not_not.mp htype), rfl⟩

include hhost hadv in
theorem rxTakeHeader_leaves : Ensures (fun s => s.Sound env ms T ∧ s.phase = .header ∧ s.pull ≠ 0)
    (rxTakeHeader env) fun r s => r.Leaves env ms T T' s := by
  apply Ensures.each
  rintro x ⟨hx, hphase, hpull⟩
  apply Ensures.bind _ ((usbTake_takes hpull).here (X7.Along.refl hx.wired))
  intro r
  cases r with
  | none => exact (rxStopped_leaves.starts fun s hs => hx.stopped hs).ends fun r s hr => hr.2
  | some b => exact (rxHead_leaves hhost hadv b).starts fun s hs => hx.take_header hhost hs hphase hpull

include hhost hadv in
theorem rxHeader_leaves (v : UsbStatus) : Ensures (fun s => s.Sound env ms T ∧ s.phase = .header ∧
      (s.pull = 0 → s.owed = 0 ∧ s.rdWant = 0 ∧ s.wrWant = 0 ∧ s.reading = false)) (rxHeader env v)
    fun r s => r.Leaves env ms T T' s := by
  apply Ensures.get_bind
  rintro x ⟨hx, hphase, hrest⟩
  apply Ensures.ite
  · intro hpull
    obtain ⟨howed, hrd, hwr, hread⟩ := hrest hpull
    apply Ensures.ite
    · intro _
      exact Ensures.pure_here ⟨hx, ⟨hphase, hpull, howed, hrd, hread⟩, hwr⟩
    · intro _
      apply Ensures.bind _ ((usbAsk_asks (by decide) hpull hrd).here (X7.Along.refl hx.wired))
      intro ok
      apply Ensures.ite
      · rintro rfl
        apply Ensures.modify_bind _ _ (rxTakeHeader_leaves hhost hadv)
        intro s hs
        have hs : x.Asked env 8 s := hs
        exact ⟨hx.ask_header hs hphase hpull hrd howed, (congrArg RxPath.phase hs.path).trans hphase,
          Nat.succ_ne_zero 7⟩
      · intro hok
        apply Ensures.pure
        intro s hs
        rw [if_neg hok] at hs
        exact hx.along hs
  · intro hpull
    exact (rxTakeHeader_leaves hhost hadv).here ⟨hx, hphase, hpull⟩

include hhost hadv in
/-- Whatever the PI and the clock do: a message more done with, one lost, or the
place kept. -/
theorem usbReceive_leaves : Ensures (fun s => s.Sound env ms T) (usbReceive env)
    fun r s => r.Leaves env ms T T' s := by
  apply Ensures.get_bind
  intro y hy
  apply Ensures.bind _ ((drainOwed_leaves T' _).here hy)
  intro r
  cases r with
  | error r => exact Ensures.pure fun s hs => hs.2
  | ok v =>
    apply Ensures.get_bind
    rintro x ⟨hx, hrest⟩
    cases hphase : x.phase with
    | header =>
      exact (rxHeader_leaves hhost hadv v).here ⟨hx, hphase, hrest⟩
    | room => exact (rxRoom_leaves hhost hadv).here ⟨hx, hphase⟩
    | payload => exact (rxPayload_leaves hhost hadv).here ⟨hx, hphase⟩
    | trailer => exact (rxTrailer_leaves hhost hadv).here ⟨hx, hphase⟩

end Receive

end Multi64
