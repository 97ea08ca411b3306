import Multi64.X7Driver

/-! What the accesses to the USB unit do to the place in the host's stream:
nothing, but that bytes asked for come in. Only asking moves it on, and only
giving a read up moves it back. -/

namespace Multi64

/-- Where the stream stands once the read under way is done. -/
def X7.place (s : X7) : Nat := s.taken + s.rdWant

/-- The window holds what has come in of the read to be taken. -/
structure X7.Wired (env : X7Env) (s : X7) : Prop where
  taken_le : s.taken ≤ s.arrived
  arrived_le : s.arrived ≤ env.host.length
  rdWant_le : s.rdWant ≤ edWindow
  reading : s.rdWant ≠ 0 → s.reading = true
  pull_le : s.pull ≤ edWindow
  want_le : s.pull ≠ 0 → s.rdWant ≤ s.pull
  pull_place : s.pull ≠ 0 → s.pull ≤ s.place
  pulled : s.pull ≠ 0 → s.window.read (edWindow - s.pull) (s.pull - s.rdWant) =
    slice env.host (s.place - s.pull) (s.pull - s.rdWant)

/-- Nothing but bytes coming in. -/
structure X7.Moves (x s : X7) : Prop where
  path : s.toRxPath = x.toRxPath
  place : s.place = x.place
  taken : x.taken ≤ s.taken
  reading : s.reading = true → x.reading = true

def X7.Along (env : X7Env) (x s : X7) : Prop := s.Wired env ∧ x.Moves s

/-- The USB unit is idle. -/
structure X7.Idle (env : X7Env) (x s : X7) : Prop where
  along : x.Along env s
  rdWant : s.rdWant = 0
  wrWant : s.wrWant = 0
  reading : s.reading = false

/-- The read under way was given up. -/
structure X7.Dropped (env : X7Env) (x s : X7) : Prop where
  wired : s.Wired env
  path : s.toRxPath = { x.toRxPath with
    rxCut := x.pull != 0
    pull := 0
    owed := 0
    phase := .header
    abandoned := true }
  rdWant : s.rdWant = 0
  taken : x.taken ≤ s.taken
  place : s.taken ≤ x.place
  reading : x.reading = true

section Primitives

variable {env : X7Env} {x s : X7}

theorem X7.Moves.refl (x : X7) : x.Moves x := ⟨rfl, rfl, Nat.le_refl _, id⟩

theorem X7.Moves.trans {y : X7} (h : x.Moves y) (h' : y.Moves s) : x.Moves s :=
  ⟨h'.path.trans h.path, h'.place.trans h.place, Nat.le_trans h.taken h'.taken, fun hr => h.reading (h'.reading hr)⟩

theorem X7.Along.pull (h : x.Along env s) : s.pull = x.pull := congrArg RxPath.pull h.2.path

theorem X7.Along.refl (h : x.Wired env) : x.Along env x := ⟨h, .refl x⟩

theorem X7.Along.trans {y : X7} (h : x.Along env y) (h' : y.Along env s) : x.Along env s := ⟨h'.1, h.2.trans h'.2⟩

/-- With no read under way none comes up. -/
theorem X7.Along.quiet (h : x.Along env s) (hx : x.rdWant = 0) : s.rdWant = 0 := by
  have hplace := h.2.place
  have htaken := h.2.taken
  unfold X7.place at hplace
  omega

theorem X7.Along.still (h : x.Along env s) (hx : x.reading = false) : s.reading = false :=
  Bool.eq_false_iff.mpr fun hr => Bool.eq_false_iff.mp hx (h.2.reading hr)

theorem X7.pump_place (env : X7Env) (a : PiAccess) (s : X7) : (s.pump env a).place = s.place := by
  simp only [X7.place, X7.pump]
  omega

theorem X7.Wired.pump (h : s.Wired env) (a : PiAccess) : (s.pump env a).Wired env := by
  have htaken := h.taken_le
  have harrived := h.arrived_le
  have hplace := X7.pump_place env a s
  generalize hn : min s.rdWant (min env.host.length (s.arrived + a.arrive) - s.taken) = n
  have hrd : (s.pump env a).rdWant = s.rdWant - n := by rw [← hn]; rfl
  have htk : (s.pump env a).taken = s.taken + n := by rw [← hn]; rfl
  have hwin : (s.pump env a).window = s.window.write (edWindow - s.rdWant) (slice env.host s.taken n) := by
    rw [← hn]
    rfl
  have har : (s.pump env a).arrived = min env.host.length (s.arrived + a.arrive) := rfl
  have hpull : (s.pump env a).pull = s.pull := rfl
  refine ⟨by omega, by omega, hrd ▸ Nat.le_trans (Nat.sub_le _ _) h.rdWant_le, ?_, h.pull_le, ?_, ?_, ?_⟩
  · intro hne
    exact h.reading (by omega)
  · intro hne
    have hle := h.want_le hne
    omega
  · intro hne
    rw [hplace]
    exact h.pull_place hne
  · intro hne
    have hle := h.want_le hne
    have hple := h.pull_le
    have hplc := h.pull_place hne
    have hlen : (slice env.host s.taken n).length = n := slice_length (by omega)
    have hnew := s.window.read_write (edWindow - s.rdWant) (slice env.host s.taken n)
    have hpos : s.place - s.pull + (s.pull - s.rdWant) = s.taken := by
      unfold X7.place at hplc ⊢
      omega
    have hold := s.window.read_write_disjoint (edWindow - s.rdWant) (b := slice env.host s.taken n)
      (c := edWindow - s.pull) (k := s.pull - s.rdWant) (.inl (by omega))
    rw [hlen] at hnew
    rw [hplace, hwin, hrd, hpull, show s.pull - (s.rdWant - n) = (s.pull - s.rdWant) + n by omega,
      Store.read_append, slice_add, show edWindow - s.pull + (s.pull - s.rdWant) = edWindow - s.rdWant by omega,
      hpos, hnew, hold, h.pulled hne]

theorem X7.Along.pump (h : x.Along env s) (a : PiAccess) : x.Along env (s.pump env a) :=
  ⟨h.1.pump a, h.2.trans ⟨rfl, X7.pump_place env a s, Nat.le_add_right _ _, id⟩⟩

theorem piAccess_along : Ensures (x.Along env) (piAccess env) fun _ => x.Along env := by
  apply Ensures.get_bind
  intro y hy
  dsimp only
  apply Ensures.modify_here (x.Along env)
  · exact hy.pump _
  · exact Ensures.pure fun _ hs => hs

theorem edCount_along : Ensures (x.Along env) (edCount env) fun _ => x.Along env := by
  apply Ensures.get_bind
  intro y hy
  apply Ensures.modify_here (x.Along env)
  · exact ⟨⟨hy.1.taken_le, hy.1.arrived_le, hy.1.rdWant_le, hy.1.reading, hy.1.pull_le, hy.1.want_le,
      hy.1.pull_place, hy.1.pulled⟩,
      ⟨hy.2.path, hy.2.place, hy.2.taken, hy.2.reading⟩⟩
  · exact Ensures.pure fun _ hs => hs

theorem outOfTime_along : Ensures (x.Along env) (outOfTime env) fun _ => x.Along env := by
  apply Ensures.bind _ edCount_along
  intro now
  apply Ensures.get_bind
  rintro y hy
  exact Ensures.pure_here hy

/-- A status read that shows no transfer active. -/
def X7.Seen (env : X7Env) (status : UsbStatus) (s : X7) : Prop :=
  status.act = false → s.rdWant = 0 ∧ s.wrWant = 0 ∧ (status.rxf = false → s.place < env.host.length)

theorem piReadStatus_along : Ensures (x.Along env) (piReadStatus env)
    fun r s => x.Along env s ∧ ∀ status, r = some status → s.Seen env status := by
  apply Ensures.bind _ piAccess_along
  intro a
  apply Ensures.get_bind
  intro y hy
  apply Ensures.ite
  · intro _
    exact Ensures.pure_here ⟨hy, fun _ h => nomatch h⟩
  · intro _
    apply Ensures.pure_here
    refine ⟨hy, fun status h => ?_⟩
    obtain rfl := Option.some.inj h
    intro hact
    obtain ⟨hrd, hwr⟩ := not_or.mp (of_decide_eq_false hact)
    have hzero : y.rdWant = 0 := by omega
    refine ⟨hzero, by omega, fun hrxf => ?_⟩
    have hne : y.taken ≠ y.arrived := of_decide_eq_false hrxf
    have htaken := hy.1.taken_le
    have harrived := hy.1.arrived_le
    unfold X7.place
    omega

theorem piWriteStored_along (mode : UsbMode) : Ensures (x.Along env) (piWriteStored env mode)
    fun w s => (w.ok = false ∧ w.stored = false ∧ x.Along env s) ∨
      (w.stored = true ∧ ∃ y, x.Along env y ∧ s = y.setMode mode) := by
  apply Ensures.bind _ piAccess_along
  intro a
  apply Ensures.ite
  · intro _
    exact Ensures.pure fun _ hs => .inl ⟨rfl, rfl, hs⟩
  · intro _
    apply Ensures.modify_bind fun s => ∃ y, x.Along env y ∧ s = y.setMode mode
    · exact fun y hy => ⟨y, hy, rfl⟩
    · exact Ensures.pure fun _ hs => .inr ⟨rfl, hs⟩

theorem piLoadWords_along (first words : Nat) : Ensures (x.Along env) (piLoadWords env first words)
    fun r s => x.Along env s ∧ ∀ b, r = some b → b = s.window.read first (4 * words) := by
  apply Ensures.bind _ piAccess_along
  intro a
  apply Ensures.get_bind
  intro y hy
  apply Ensures.ite
  · intro _
    exact Ensures.pure_here ⟨hy, fun _ h => by cases h⟩
  · intro _
    exact Ensures.pure_here ⟨hy, fun b h => (Option.some.inj h).symm⟩

end Primitives

section Unit

variable {env : X7Env} {x s : X7}

/-- What `usbIdle` leaves. -/
def UsbIdle.Leaves (env : X7Env) (x : X7) : UsbIdle → X7 → Prop
  | .busy, s => x.Along env s
  | .idle status, s => x.Idle env s ∧ (status.rxf = false → s.place < env.host.length)
  | .stuck, s => x.Idle env s ∨ x.Dropped env s

theorem usbIdleLoop_leaves (began : UInt32) (spins : Nat) : Ensures (x.Along env) (usbIdleLoop env began spins)
    fun r s => (r = none ∧ x.Along env s) ∨ ∃ r', r = some r' ∧ r' ≠ .stuck ∧ r'.Leaves env x s := by
  induction spins with
  | zero => exact Ensures.pure fun _ hs => .inl ⟨rfl, hs⟩
  | succ spins ih =>
    apply Ensures.bind _ outOfTime_along
    intro late
    apply Ensures.ite
    · intro _
      exact Ensures.pure fun _ hs => .inr ⟨.busy, rfl, nofun, hs⟩
    · intro _
      apply Ensures.bind _ piReadStatus_along
      intro r
      cases r with
      | none =>
        apply Ensures.get_bind
        intro y hy
        apply Ensures.ite
        · intro _
          exact ih.here (hy.1)
        · intro _
          exact Ensures.pure_here (.inr ⟨.busy, rfl, nofun, hy.1⟩)
      | some status =>
        apply Ensures.ite
        · intro _
          apply Ensures.bind _ (edCount_along.starts fun s hs => hs.1)
          intro now
          apply Ensures.ite
          · intro _
            exact Ensures.pure fun _ hs => .inl ⟨rfl, hs⟩
          · intro _
            exact ih
        · intro hact
          apply Ensures.modify_bind fun s => x.Idle env s ∧ (status.rxf = false → s.place < env.host.length)
          · rintro s ⟨hs, hseen⟩
            obtain ⟨hrd, hwr, hrxf⟩ := hseen status rfl (Bool.not_eq_true _ ▸ hact)
            have hw := hs.1
            exact ⟨⟨⟨⟨hw.taken_le, hw.arrived_le, hw.rdWant_le, fun h => (h hrd).elim, hw.pull_le, hw.want_le,
              hw.pull_place, hw.pulled⟩, ⟨hs.2.path, hs.2.place, hs.2.taken, nofun⟩⟩, hrd, hwr, rfl⟩, hrxf⟩
          · exact Ensures.pure fun _ hs => .inr ⟨.idle status, rfl, nofun, hs⟩

/-- With no read under way, nothing is given up. -/
theorem X7.Along.idle_rdNop (h : x.Along env s) (hread : s.reading = false) : x.Idle env (s.setMode .rdNop) := by
  have hw := h.1
  have hrd : s.rdWant = 0 := by
    by_contra hne
    rw [hw.reading hne] at hread
    cases hread
  have heq : s.setMode .rdNop = { s with rdWant := s.rdWant, wrWant := 0 } := by rw [hrd]; rfl
  rw [heq]
  exact ⟨⟨⟨hw.taken_le, hw.arrived_le, hw.rdWant_le, hw.reading, hw.pull_le, hw.want_le, hw.pull_place, hw.pulled⟩,
    ⟨h.2.path, h.2.place, h.2.taken, h.2.reading⟩⟩, hrd, rfl, hread⟩

theorem X7.Along.abandonRead (h : x.Along env s) (hread : s.reading = true) : x.Dropped env (s.setMode .rdNop).abandonRead := by
  have hw := h.1
  have hpath := h.2.path
  have hplace := h.2.place
  refine ⟨⟨hw.taken_le, hw.arrived_le, Nat.zero_le _, fun h => (h rfl).elim, Nat.zero_le _, fun h => (h rfl).elim,
    fun h => (h rfl).elim, fun h => (h rfl).elim⟩, ?_, rfl, h.2.taken, ?_, h.2.reading hread⟩
  · rw [← hpath]
    rfl
  · rw [← hplace]
    exact Nat.le_add_right _ _

theorem usbIdle_leaves : Ensures (x.Along env) (usbIdle env) fun r s => r.Leaves env x s := by
  apply Ensures.bind _ edCount_along
  intro began
  apply Ensures.bind _ (usbIdleLoop_leaves began edBusySpins)
  intro r
  cases r with
  | some r =>
    apply Ensures.pure
    rintro s (⟨h, -⟩ | ⟨r', h, -, hr⟩)
    · cases h
    · obtain rfl := Option.some.inj h
      exact hr
  | none =>
    apply Ensures.bind _ ((piWriteStored_along .rdNop).starts ?_)
    · intro w
      apply Ensures.ite
      · intro hw
        apply Ensures.pure
        rintro s (⟨-, -, hs⟩ | ⟨hst, -⟩)
        · exact hs
        · simp [hst] at hw
      · intro hw
        apply Ensures.get_bind
        rintro y (⟨hok, hst, -⟩ | ⟨-, y', hy', rfl⟩)
        · simp [hok, hst] at hw
        · apply Ensures.ite
          · intro hread
            apply Ensures.modify_here (x.Dropped env)
            · exact hy'.abandonRead hread
            · exact Ensures.pure fun _ hs => .inr hs
          · intro hread
            exact Ensures.pure_here (.inl (hy'.idle_rdNop (Bool.not_eq_true _ ▸ hread)))
    · rintro s (⟨-, hs⟩ | ⟨r', h, -⟩)
      · exact hs
      · cases h

/-- A read of `n` bytes has been asked for. -/
structure X7.Asked (env : X7Env) (n : Nat) (x s : X7) : Prop where
  wired : s.Wired env
  path : s.toRxPath = x.toRxPath
  place : s.place = x.place + n
  rdWant : s.rdWant = n
  taken : x.taken ≤ s.taken
  reading : s.reading = true

theorem usbAsk_asks {n : Nat} (hn : n ≤ edWindow) (hpull : x.pull = 0) (hrd : x.rdWant = 0) :
    Ensures (x.Along env) (usbAsk env n) fun ok s => if ok then x.Asked env n s else x.Along env s := by
  apply Ensures.bind _ outOfTime_along
  intro late
  apply Ensures.ite
  · intro _
    exact Ensures.pure fun _ hs => hs
  · intro _
    apply Ensures.bind _ (piWriteStored_along _)
    intro w
    apply Ensures.ite
    · intro hw
      apply Ensures.pure
      rintro s (⟨-, -, hs⟩ | ⟨hst, -⟩)
      · exact hs
      · simp [hst] at hw
    · intro hw
      apply Ensures.modify_bind fun s => x.Asked env n s
      · rintro s (⟨hok, hst, -⟩ | ⟨-, y, hy, rfl⟩)
        · simp [hok, hst] at hw
        · have hyw := hy.1
          have hypull : y.pull = 0 := hy.pull.trans hpull
          have hyplace := hy.2.place
          have hytaken := hy.2.taken
          have hn' : edWindow - (edWindow - n) = n := by omega
          unfold X7.place at hyplace
          refine ⟨⟨hyw.taken_le, hyw.arrived_le, Nat.sub_le _ _, fun _ => rfl, hyw.pull_le, fun h => (h hypull).elim,
            fun h => (h hypull).elim, fun h => (h hypull).elim⟩, hy.2.path, ?_, hn', hytaken, rfl⟩
          change y.taken + (edWindow - (edWindow - n)) = x.taken + x.rdWant + n
          omega
      · exact Ensures.pure fun _ hs => hs

/-- The read of `pull` bytes has been loaded. -/
structure X7.Taken (env : X7Env) (x : X7) (b : Bytes) (s : X7) : Prop where
  wired : s.Wired env
  path : s.toRxPath = { x.toRxPath with pull := 0 }
  place : s.place = x.place
  rdWant : s.rdWant = 0
  reading : s.reading = false
  bytes : b = slice env.host (x.place - x.pull) x.pull

/-- What `usbTake` leaves. -/
def X7.TakeLeaves (env : X7Env) (x : X7) : Option Bytes → X7 → Prop
  | some b, s => x.Taken env b s
  | none, s => x.Along env s ∨ x.Dropped env s

theorem usbTake_takes (hpull : x.pull ≠ 0) : Ensures (x.Along env) (usbTake env) (x.TakeLeaves env) := by
  apply Ensures.get_bind
  intro y hy
  apply Ensures.bind _ ((usbIdle_leaves (x := x)).here (hy))
  intro r
  cases r with
  | busy => exact Ensures.pure fun s hs => .inl hs
  | stuck =>
    apply Ensures.pure
    rintro s (hs | hs)
    · exact .inl hs.along
    · exact .inr hs
  | idle status =>
    apply Ensures.each
    rintro z ⟨hz, -⟩
    apply Ensures.bind _ (outOfTime_along.here (X7.Along.refl hz.along.1))
    intro late
    apply Ensures.ite
    · intro _
      exact Ensures.pure fun s hs => .inl (hz.along.trans hs)
    · intro _
      apply Ensures.bind _ (piLoadWords_along _ _)
      intro r
      cases r with
      | none => exact Ensures.pure fun s hs => .inl (hz.along.trans hs.1)
      | some b =>
        apply Ensures.modify_bind (x.Taken env (b.drop (edWindow - y.pull - (edWindow - y.pull) / 4 * 4)))
        · rintro s ⟨hs, hb⟩
          have hall := hz.along.trans hs
          have hw := hall.1
          have hsp : s.pull = x.pull := hall.pull
          have hyp : y.pull = x.pull := hy.pull
          have hpl := hw.pull_le
          have hrd := hs.quiet hz.rdWant
          have hread := hw.pulled (by omega)
          have hwin : edWindow = 512 := rfl
          refine ⟨⟨hw.taken_le, hw.arrived_le, hw.rdWant_le, hw.reading, Nat.zero_le _, fun h => (h rfl).elim,
            fun h => (h rfl).elim, fun h => (h rfl).elim⟩, ?_, hall.2.place, hrd, hs.still hz.reading, ?_⟩
          · rw [← hall.2.path]
          · rw [hrd, hall.2.place, hsp, Nat.sub_zero] at hread
            rw [hb b rfl, hyp, Store.drop_read _ _ _ (by omega), ← hread]
            congr 1 <;> omega
        · exact Ensures.pure fun s hs => hs

end Unit

end Multi64
