import Multi64.X7Access
import Multi64.X7Stream

/-! Where the receive path stands in the host's stream, phase by phase, and what
has been made of the messages before it. `T n syms` says that the queue may hold
`syms` once the first `n` messages are done with. -/

namespace Multi64

def RxPath.queued (r : RxPath) : Bytes := r.rxq.read r.rxqOff r.rxqLen

/-- What the queue hands over, a loss as `none` where it fell. -/
def RxPath.syms (r : RxPath) : List (Option UInt8) :=
  if r.rxqLost then (r.queued.take r.rxqBeforeLoss).map some ++ none :: (r.queued.drop r.rxqBeforeLoss).map some
  else r.queued.map some

/-- What the driver keeps of its statics whatever the host sends. -/
structure RxPath.Formed (r : RxPath) : Prop where
  fits : r.rxqOff + r.rxqLen ≤ edRxqCap
  room : r.phase = .payload ∨ r.phase = .trailer → r.rxqOff + r.rxqLen + r.msgSize ≤ edRxqCap ∧ r.msgGot ≤ r.msgSize
  mark : r.rxqLost = true → r.rxqBeforeLoss ≤ r.rxqLen
  fresh : r.phase = .room → r.msgGot = 0
  atHeader : r.phase = .header → r.pull = 0 ∨ r.pull = 8
  atRoom : r.phase = .room → r.pull = 0
  atTrailer : r.phase = .trailer → r.pull = 4
  owes : r.phase ≠ .header ∨ r.pull ≠ 0 → r.owed = 0
  high : r.high ≤ edRxqCap

section Placed

variable (ms : List UsbMessage) (T : Nat → List (Option UInt8) → Prop) (r : RxPath) (taken place : Nat)

/-- Between messages, perhaps with bytes owed. -/
structure RxPath.Drained : Prop where
  told : T (begun ms taken) r.syms
  owes : begun ms taken = begun ms (place + r.owed)
  aligned : r.abandoned = false → ∃ n ≤ ms.length, place + r.owed = offset ms n

/-- A header is being read. -/
structure RxPath.InHeader : Prop where
  told : T (begun ms (place - 8)) r.syms
  eight : 8 ≤ place
  aligned : r.abandoned = false → ∃ n ≤ ms.length, place - 8 = offset ms n

/-- Past the header of message `n`. -/
structure RxPath.InMessage (n : Nat) (m : UsbMessage) : Prop where
  found : ms[n]? = some m
  type : m.datatype = multi64L3Type
  size : r.msgSize = m.payload.length
  told : T n r.syms

structure RxPath.InRoom (n : Nat) (m : UsbMessage) : Prop extends InMessage ms T r n m where
  left : r.msgLeft = m.padded
  stands : place = offset ms n + 8

structure RxPath.InPayload (n : Nat) (m : UsbMessage) : Prop extends InMessage ms T r n m where
  left : r.msgLeft ≤ m.padded
  pull : r.pull ≤ m.padded - r.msgLeft
  stands : place = offset ms n + 8 + (m.padded - r.msgLeft)
  got : r.msgGot = min r.msgSize (m.padded - r.msgLeft - r.pull)
  bytes : r.rxq.read (r.rxqOff + r.rxqLen) r.msgGot = m.payload.take r.msgGot

structure RxPath.InTrailer (n : Nat) (m : UsbMessage) : Prop extends InMessage ms T r n m where
  stands : place = offset ms (n + 1)
  got : r.msgGot = r.msgSize
  bytes : r.rxq.read (r.rxqOff + r.rxqLen) r.msgGot = m.payload

def RxPath.Placed : Prop :=
  match r.phase with
  | .header => if r.pull = 0 then r.Drained ms T taken place else r.InHeader ms T place
  | .room => ∃ n m, r.InRoom ms T place n m
  | .payload => ∃ n m, r.InPayload ms T place n m
  | .trailer => ∃ n m, r.InTrailer ms T place n m

end Placed

/-- A place in the stream can be told: no read was ever abandoned, or only
messages look like messages. -/
def X7.Told (ms : List UsbMessage) (s : X7) : Prop := s.abandoned = true → Clean ms

structure X7.Sound (env : X7Env) (ms : List UsbMessage) (T : Nat → List (Option UInt8) → Prop) (s : X7) : Prop where
  wired : s.Wired env
  formed : s.toRxPath.Formed
  cut : s.rxCut = false
  quiet : s.phase ≠ .header → s.pull = 0 → s.reading = false
  placed : s.Told ms → s.toRxPath.Placed ms T s.taken s.place

/-- Between messages, with a loss since message `k` that is not in the queue. -/
structure X7.Adrift (env : X7Env) (ms : List UsbMessage) (T : Nat → List (Option UInt8) → Prop) (s : X7) : Prop where
  wired : s.Wired env
  formed : s.toRxPath.Formed
  phase : s.phase = .header
  pull : s.pull = 0
  placed : s.Told ms → ∃ k, T k s.syms ∧ k ≤ begun ms s.taken ∧ begun ms s.taken = begun ms (s.place + s.owed) ∧
    (s.abandoned = false → k < ms.length ∧ s.place + s.owed = offset ms (k + 1))

section Steps

variable {env : X7Env} {ms : List UsbMessage} {T : Nat → List (Option UInt8) → Prop} {x s : X7}

/-- Bytes coming in leave the place told. -/
theorem RxPath.Placed.taken_mono {r : RxPath} {taken taken' place : Nat} (h : r.Placed ms T taken place)
    (hle : taken ≤ taken') (hplace : taken' ≤ place) : r.Placed ms T taken' place := by
  rw [RxPath.Placed] at h ⊢
  cases hphase : r.phase with
  | header =>
    rw [hphase] at h
    dsimp only at h ⊢
    by_cases hpull : r.pull = 0
    · rw [if_pos hpull] at h ⊢
      have hlow := begun_mono ms hle
      have hhigh := begun_mono ms (show taken' ≤ place + r.owed by omega)
      have heq : begun ms taken' = begun ms taken := by
        have hb := h.owes
        omega
      exact ⟨heq ▸ h.told, heq.trans h.owes, h.aligned⟩
    · rw [if_neg hpull] at h ⊢
      exact h
  | room => rwa [hphase] at h
  | payload => rwa [hphase] at h
  | trailer => rwa [hphase] at h

theorem X7.taken_le_place (s : X7) : s.taken ≤ s.place := Nat.le_add_right _ _

theorem X7.Sound.along (h : x.Sound env ms T) (ha : x.Along env s) : s.Sound env ms T := by
  have hpath := ha.2.path
  have hab : s.abandoned = x.abandoned := congrArg RxPath.abandoned hpath
  refine ⟨ha.1, hpath ▸ h.formed, (congrArg RxPath.rxCut hpath).trans h.cut, ?_, ?_⟩
  · intro hphase hpull
    exact ha.still (h.quiet ((congrArg RxPath.phase hpath) ▸ hphase) (ha.pull ▸ hpull))
  · intro htold
    rw [hpath, ha.2.place]
    exact (h.placed fun hx => htold (hab.trans hx)).taken_mono ha.2.taken (ha.2.place ▸ s.taken_le_place)

/-- The message being read began before the bytes that have come in. -/
theorem RxPath.InMessage.begun_lt {r : RxPath} {n taken : Nat} {m : UsbMessage} (h : r.InMessage ms T n m)
    (hle : offset ms n ≤ taken) : n ≤ begun ms taken := by
  have hlt := (List.getElem?_eq_some_iff.mp h.found).1
  have hmono := begun_mono ms hle
  rwa [begun_offset (Nat.le_of_lt hlt)] at hmono

/-- The read of an unwanted message's bytes was given up: nothing is lost by it. -/
theorem X7.Sound.drop_owed (h : x.Sound env ms T) (hd : x.Dropped env s) (hpull : x.pull = 0) :
    s.Sound env ms T := by
  have hpath := hd.path
  have hphase : x.phase = .header := by
    by_contra hne
    have hq := h.quiet hne hpull
    rw [hd.reading] at hq
    cases hq
  have hsphase : s.phase = .header := congrArg RxPath.phase hpath
  have hspull : s.pull = 0 := congrArg RxPath.pull hpath
  have hsowed : s.owed = 0 := congrArg RxPath.owed hpath
  have hcut : s.rxCut = false := by
    rw [show s.rxCut = (x.pull != 0) from congrArg RxPath.rxCut hpath, hpull]
    rfl
  have hsyms : s.syms = x.syms := by rw [hpath]; rfl
  have hplace : s.place = s.taken := by rw [X7.place, hd.rdWant, Nat.add_zero]
  refine ⟨hd.wired, ?_, hcut, fun hne => (hne hsphase).elim, ?_⟩
  · have hf := h.formed
    rw [hpath]
    exact ⟨hf.fits, (by rintro (h | h) <;> cases h), hf.mark, (by rintro h; cases h), fun _ => .inl rfl, fun _ => rfl,
      (by rintro h; cases h), fun _ => rfl, hf.high⟩
  · intro htold
    have hclean := htold (congrArg RxPath.abandoned hpath)
    have hp := h.placed fun _ => hclean
    rw [RxPath.Placed, hphase] at hp
    dsimp only at hp
    rw [if_pos hpull] at hp
    have hlow := begun_mono ms hd.taken
    have hhigh := begun_mono ms (show s.taken ≤ x.place + x.owed from Nat.le_trans hd.place (Nat.le_add_right _ _))
    have hb := hp.owes
    have heq : begun ms s.taken = begun ms x.taken := by omega
    rw [RxPath.Placed, hsphase]
    dsimp only
    rw [if_pos hspull]
    refine ⟨?_, by rw [hplace, hsowed, Nat.add_zero], fun hab => ?_⟩
    · rw [hsyms, heq]
      exact hp.told
    · rw [show s.abandoned = true from congrArg RxPath.abandoned hpath] at hab
      cases hab

/-- The read of a part of a message was given up. -/
theorem X7.Sound.drop_part (h : x.Sound env ms T) (hd : x.Dropped env s) (hpull : x.pull ≠ 0) :
    s.Adrift env ms T ∧ s.rxCut = true := by
  have hpath := hd.path
  have hsphase : s.phase = .header := congrArg RxPath.phase hpath
  have hsowed : s.owed = 0 := congrArg RxPath.owed hpath
  have hcut : s.rxCut = true := by
    rw [show s.rxCut = (x.pull != 0) from congrArg RxPath.rxCut hpath]
    exact bne_iff_ne.mpr hpull
  have hsyms : s.syms = x.syms := by rw [hpath]; rfl
  have hplace : s.place = s.taken := by rw [X7.place, hd.rdWant, Nat.add_zero]
  have hbehind : x.place ≤ s.taken + x.pull := by
    have hwant := h.wired.want_le hpull
    have htaken := hd.taken
    unfold X7.place
    omega
  refine ⟨⟨hd.wired, ?_, hsphase, congrArg RxPath.pull hpath, ?_⟩, hcut⟩
  · have hf := h.formed
    rw [hpath]
    exact ⟨hf.fits, (by rintro (h | h) <;> cases h), hf.mark, (by rintro h; cases h), fun _ => .inl rfl, fun _ => rfl,
      (by rintro h; cases h), fun _ => rfl, hf.high⟩
  · intro htold
    have hclean := htold (congrArg RxPath.abandoned hpath)
    have hp := h.placed fun _ => hclean
    have hstay : begun ms s.taken = begun ms (s.place + s.owed) := by rw [hplace, hsowed, Nat.add_zero]
    have hnot : ¬s.abandoned = false := by
      rw [show s.abandoned = true from congrArg RxPath.abandoned hpath]
      decide
    have hfrom : ∀ k, T k x.syms → k ≤ begun ms s.taken → ∃ k, T k s.syms ∧ k ≤ begun ms s.taken ∧
        begun ms s.taken = begun ms (s.place + s.owed) ∧
        (s.abandoned = false → k < ms.length ∧ s.place + s.owed = offset ms (k + 1)) :=
      fun k hk hle => ⟨k, hsyms ▸ hk, hle, hstay, fun hab => (hnot hab).elim⟩
    rw [RxPath.Placed] at hp
    cases hphase : x.phase with
    | header =>
      rw [hphase] at hp
      dsimp only at hp
      rw [if_neg hpull] at hp
      have height := (h.formed.atHeader hphase).resolve_left hpull
      exact hfrom _ hp.told (begun_mono _ (by omega))
    | room => exact (hpull (h.formed.atRoom hphase)).elim
    | payload =>
      rw [hphase] at hp
      obtain ⟨n, m, hp⟩ := hp
      have hpp := hp.stands
      have hpl := hp.pull
      exact hfrom n hp.told (hp.begun_lt (by omega))
    | trailer =>
      rw [hphase] at hp
      obtain ⟨n, m, hp⟩ := hp
      have hpp := hp.stands
      have hfour := h.formed.atTrailer hphase
      have hnext := offset_succ hp.found
      have hlen := m.wire_length
      exact hfrom n hp.told (hp.begun_lt (by omega))

end Steps

end Multi64
