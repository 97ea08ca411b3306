import Multi64.X7Place

/-! One step of the receive path: a read asked for, or the bytes of one taken. -/

namespace Multi64

/-- With `T'` for `T` once one message more is done with. -/
structure Advances (ms : List UsbMessage) (T T' : Nat → List (Option UInt8) → Prop) : Prop where
  other : ∀ n syms m, T n syms → ms[n]? = some m → m.datatype ≠ multi64L3Type → T' (n + 1) syms
  got : ∀ n syms m, T n syms → ms[n]? = some m → m.datatype = multi64L3Type →
    T' (n + 1) (syms ++ m.payload.map some)

section Asking

variable {env : X7Env} {ms : List UsbMessage} {T : Nat → List (Option UInt8) → Prop} {x s : X7} {n : Nat}

theorem X7.Sound.rdWant (h : x.Sound env ms T) (hphase : x.phase ≠ .header) (hpull : x.pull = 0) : x.rdWant = 0 := by
  by_contra hne
  have hr := h.wired.reading hne
  rw [h.quiet hphase hpull] at hr
  cases hr

/-- The window of a read just asked for has nothing in it yet. -/
theorem X7.Asked.wired_pull (h : x.Asked env n s) (hn : n ≤ edWindow) {r : RxPath} (hr : r.pull = n) :
    X7.Wired env { s with toRxPath := r } := by
  have hw := h.wired
  have hplace := h.place
  refine ⟨hw.taken_le, hw.arrived_le, hw.rdWant_le, hw.reading, ?_, ?_, ?_, ?_⟩
  · exact hr ▸ hn
  · exact fun _ => Nat.le_of_eq (h.rdWant.trans hr.symm)
  · intro _
    change r.pull ≤ s.place
    omega
  · intro _
    have hzero : r.pull - s.rdWant = 0 := by rw [hr, h.rdWant, Nat.sub_self]
    change s.window.read _ (r.pull - s.rdWant) = slice _ _ (r.pull - s.rdWant)
    rw [hzero, Store.read_zero, slice, List.take_zero]

theorem X7.Asked.taken_eq (h : x.Asked env n s) (hrd : x.rdWant = 0) : s.taken = x.taken := by
  have hplace := h.place
  have hwant := h.rdWant
  unfold X7.place at hplace
  omega

theorem X7.Sound.ask_owed (h : x.Sound env ms T) (ha : x.Asked env n s) (hpull : x.pull = 0) (hrd : x.rdWant = 0)
    (hn : n ≠ 0) (hle : n ≤ x.owed) : X7.Sound env ms T { s with owed := s.owed - n } := by
  have hw := ha.wired
  have hf := h.formed
  have hpath := ha.path
  have hphase : x.phase = .header := by
    by_contra hne
    have howes := hf.owes (.inl hne)
    omega
  have hsphase : s.phase = .header := (congrArg RxPath.phase hpath).trans hphase
  have hspull : s.pull = 0 := (congrArg RxPath.pull hpath).trans hpull
  have hsowed : s.owed = x.owed := congrArg RxPath.owed hpath
  have hplace := ha.place
  refine ⟨⟨hw.taken_le, hw.arrived_le, hw.rdWant_le, hw.reading, hw.pull_le, hw.want_le, hw.pull_place, hw.pulled⟩,
    ?_, (congrArg RxPath.rxCut hpath).trans h.cut, fun hne => (hne hsphase).elim, ?_⟩
  · rw [← hpath] at hf
    exact ⟨hf.fits, hf.room, hf.mark, hf.fresh, hf.atHeader, hf.atRoom, hf.atTrailer,
      (fun hor => (hor.elim (fun hne => hne hsphase) fun hne => hne hspull).elim), hf.high⟩
  · intro htold
    have hp := h.placed fun hab => htold ((congrArg RxPath.abandoned hpath).trans hab)
    rw [RxPath.Placed, hphase] at hp
    rw [RxPath.Placed]
    dsimp only at hp ⊢
    rw [if_pos hpull] at hp
    rw [hsphase]
    dsimp only
    rw [if_pos hspull]
    have hstand : s.place + (s.owed - n) = x.place + x.owed := by omega
    refine ⟨?_, ?_, ?_⟩
    · rw [ha.taken_eq hrd]
      have htell := hp.told
      rw [← hpath] at htell
      exact htell
    · rw [ha.taken_eq hrd]
      exact hp.owes.trans (congrArg (begun ms) hstand.symm)
    · intro hab
      obtain ⟨k, hk, heq⟩ := hp.aligned ((congrArg RxPath.abandoned hpath).symm.trans hab)
      exact ⟨k, hk, hstand.trans heq⟩

theorem X7.Sound.ask_header (h : x.Sound env ms T) (ha : x.Asked env 8 s) (hphase : x.phase = .header)
    (hpull : x.pull = 0) (hrd : x.rdWant = 0) (howed : x.owed = 0) : X7.Sound env ms T { s with pull := 8 } := by
  have hf := h.formed
  have hpath := ha.path
  have hsphase : s.phase = .header := (congrArg RxPath.phase hpath).trans hphase
  have hplace := ha.place
  have hstand : s.place - 8 = x.taken := by
    unfold X7.place at hplace ⊢
    omega
  refine ⟨ha.wired_pull (by decide) rfl, ?_, (congrArg RxPath.rxCut hpath).trans h.cut,
    fun hne => (hne hsphase).elim, ?_⟩
  · rw [← hpath] at hf
    refine ⟨hf.fits, hf.room, hf.mark, hf.fresh, fun _ => .inr rfl, fun hr => ?_, fun ht => ?_, fun _ => ?_, hf.high⟩
    · rw [show s.phase = .room from hr] at hsphase
      cases hsphase
    · rw [show s.phase = .trailer from ht] at hsphase
      cases hsphase
    · exact (congrArg RxPath.owed hpath).trans howed
  · intro htold
    have hp := h.placed fun hab => htold ((congrArg RxPath.abandoned hpath).trans hab)
    rw [RxPath.Placed, hphase] at hp
    dsimp only at hp
    rw [if_pos hpull] at hp
    rw [RxPath.Placed]
    dsimp only
    rw [hsphase]
    dsimp only
    rw [if_neg (by decide)]
    refine ⟨?_, ?_, ?_⟩
    · change T (begun ms (s.place - 8)) s.syms
      rw [hstand, hpath]
      exact hp.told
    · change 8 ≤ s.place
      omega
    · intro hab
      obtain ⟨k, hk, heq⟩ := hp.aligned ((congrArg RxPath.abandoned hpath).symm.trans hab)
      refine ⟨k, hk, ?_⟩
      change s.place - 8 = offset ms k
      rw [hstand, ← heq, howed, Nat.add_zero, X7.place, hrd, Nat.add_zero]

theorem X7.Sound.ask_payload (h : x.Sound env ms T) (ha : x.Asked env n s) (hphase : x.phase = .payload)
    (hpull : x.pull = 0) (hn : n ≠ 0) (hle : n ≤ x.msgLeft) (hwin : n ≤ edWindow) :
    X7.Sound env ms T { s with pull := n, msgLeft := s.msgLeft - n } := by
  have hf := h.formed
  have hpath := ha.path
  have hsphase : s.phase = .payload := (congrArg RxPath.phase hpath).trans hphase
  have hsleft : s.msgLeft = x.msgLeft := congrArg RxPath.msgLeft hpath
  have hplace := ha.place
  refine ⟨ha.wired_pull hwin rfl, ?_, (congrArg RxPath.rxCut hpath).trans h.cut, fun _ hz => (hn hz).elim, ?_⟩
  · rw [← hpath] at hf
    refine ⟨hf.fits, hf.room, hf.mark, hf.fresh, fun hh => ?_, fun hr => ?_, fun ht => ?_, fun _ => ?_, hf.high⟩
    · rw [show s.phase = .header from hh] at hsphase
      cases hsphase
    · rw [show s.phase = .room from hr] at hsphase
      cases hsphase
    · rw [show s.phase = .trailer from ht] at hsphase
      cases hsphase
    · exact hf.owes (.inl (by rw [hsphase]; decide))
  · intro htold
    have hp := h.placed fun hab => htold ((congrArg RxPath.abandoned hpath).trans hab)
    rw [RxPath.Placed, hphase] at hp
    rw [← hpath] at hp
    rw [RxPath.Placed]
    dsimp only at hp ⊢
    rw [hsphase]
    obtain ⟨k, m, hp⟩ := hp
    have hstands := hp.stands
    have hpleft := hp.left
    have hgot := hp.got
    have hspull : s.pull = 0 := (congrArg RxPath.pull hpath).trans hpull
    refine ⟨k, m, ⟨⟨hp.found, hp.type, hp.size, hp.told⟩, ?_, ?_, ?_, ?_, hp.bytes⟩⟩
    · change s.msgLeft - n ≤ m.padded
      omega
    · change n ≤ m.padded - (s.msgLeft - n)
      omega
    · change s.place = offset ms k + 8 + (m.padded - (s.msgLeft - n))
      omega
    · change s.msgGot = min s.msgSize (m.padded - (s.msgLeft - n) - n)
      rw [hgot]
      congr 1
      omega

theorem X7.Sound.ask_trailer (h : x.Sound env ms T) (ha : x.Asked env 4 s) (hphase : x.phase = .payload)
    (hpull : x.pull = 0) (hleft : x.msgLeft = 0) : X7.Sound env ms T { s with pull := 4, phase := .trailer } := by
  have hf := h.formed
  have hpath := ha.path
  have hsphase : s.phase = .payload := (congrArg RxPath.phase hpath).trans hphase
  have hplace := ha.place
  rw [← hpath] at hf
  refine ⟨ha.wired_pull (by decide) rfl, ?_, (congrArg RxPath.rxCut hpath).trans h.cut,
    fun _ hz => (Nat.succ_ne_zero 3 hz).elim, ?_⟩
  · exact ⟨hf.fits, fun _ => hf.room (.inl hsphase), hf.mark, nofun, nofun, nofun, fun _ => rfl,
      fun _ => hf.owes (.inl (by rw [hsphase]; decide)), hf.high⟩
  · intro htold
    have hp := h.placed fun hab => htold ((congrArg RxPath.abandoned hpath).trans hab)
    rw [RxPath.Placed, hphase] at hp
    rw [← hpath] at hp
    obtain ⟨k, m, hp⟩ := hp
    have hstands := hp.stands
    have hsize := hp.size
    have hpad := m.le_padded
    have hlen := m.wire_length
    have hnext := offset_succ hp.found
    have hspull : s.pull = 0 := (congrArg RxPath.pull hpath).trans hpull
    have hsleft : s.msgLeft = 0 := (congrArg RxPath.msgLeft hpath).trans hleft
    have hgot : s.msgGot = s.msgSize := by
      have hg := hp.got
      omega
    refine ⟨k, m, ⟨⟨hp.found, hp.type, hp.size, hp.told⟩, ?_, hgot, ?_⟩⟩
    · change s.place = offset ms (k + 1)
      omega
    · refine hp.bytes.trans (List.take_of_length_le ?_)
      omega

end Asking

section Taking

variable {env : X7Env} {ms : List UsbMessage} {T T' : Nat → List (Option UInt8) → Prop} {x s : X7} {b : Bytes}

theorem X7.Taken.place_eq (h : x.Taken env b s) : s.taken = x.place := by
  have hplace := h.place
  rwa [X7.place, h.rdWant, Nat.add_zero] at hplace

theorem X7.Taken.length (h : x.Taken env b s) (hx : x.Wired env) (hpull : x.pull ≠ 0) : b.length = x.pull := by
  have htaken := h.wired.taken_le
  have harrived := h.wired.arrived_le
  have heq := h.place_eq
  have hle := hx.pull_place hpull
  rw [h.bytes, slice_length (by omega)]

/-- With no read to be taken, the window is of no matter. -/
theorem X7.Wired.change_path (h : s.Wired env) {r : RxPath} (hr : r.pull = 0) :
    X7.Wired env { s with toRxPath := r } :=
  ⟨h.taken_le, h.arrived_le, h.rdWant_le, h.reading, by change r.pull ≤ edWindow; omega, fun hne => (hne hr).elim,
    fun hne => (hne hr).elim, fun hne => (hne hr).elim⟩

/-- A write behind what is queued leaves it. -/
theorem RxPath.syms_write {r : RxPath} {a : Nat} (b : Bytes) (h : r.rxqOff + r.rxqLen ≤ a) :
    RxPath.syms { r with rxq := r.rxq.write a b } = r.syms := by
  have hq : RxPath.queued { r with rxq := r.rxq.write a b } = r.queued := Store.read_write_disjoint _ _ (.inl h)
  simp only [RxPath.syms, hq]

/-- The receive path once the bytes `b` of the payload have been taken. -/
def RxPath.putTaken (b : Bytes) (r : RxPath) : RxPath :=
  { r with
    pull := 0
    rxq := r.rxq.write (r.rxqOff + r.rxqLen + r.msgGot) (b.take (r.msgSize - r.msgGot))
    msgGot := r.msgGot + min b.length (r.msgSize - r.msgGot)
    high := max r.high (r.rxqOff + r.rxqLen + r.msgGot + min b.length (r.msgSize - r.msgGot)) }

theorem X7.Taken.put_path (h : x.Taken env b s) : (s.put b).toRxPath = x.toRxPath.putTaken b := by
  have hput : (s.put b).toRxPath = { s.toRxPath with
      rxq := s.rxq.write (s.rxqOff + s.rxqLen + s.msgGot) (b.take (s.msgSize - s.msgGot))
      msgGot := s.msgGot + min b.length (s.msgSize - s.msgGot)
      high := max s.high (s.rxqOff + s.rxqLen + s.msgGot + min b.length (s.msgSize - s.msgGot)) } := rfl
  rw [hput, h.path]
  rfl

theorem RxPath.Formed.putTaken {r : RxPath} (h : r.Formed) (b : Bytes) (hphase : r.phase = .payload) :
    (r.putTaken b).Formed := by
  have hroom := h.room (.inl hphase)
  refine ⟨h.fits, fun _ => ⟨hroom.1, ?_⟩, h.mark,
    (fun hr => nomatch (show RxPhase.payload = .room from hphase.symm.trans hr)), fun _ => .inl rfl, fun _ => rfl, fun ht => ?_,
    fun _ => h.owes (.inl (by rw [hphase]; decide)), ?_⟩
  · change r.msgGot + min b.length (r.msgSize - r.msgGot) ≤ r.msgSize
    omega
  · rw [show r.phase = .trailer from ht] at hphase
    cases hphase
  · have hhigh := h.high
    change max r.high _ ≤ edRxqCap
    omega

theorem RxPath.InPayload.putTaken {r : RxPath} {place n : Nat} {m : UsbMessage} (h : r.InPayload ms T place n m)
    (hb : b = slice (hostStream ms) (place - r.pull) r.pull) (hlen : b.length = r.pull) :
    (r.putTaken b).InPayload ms T place n m := by
  have hstands := h.stands
  have hpull := h.pull
  have hgot := h.got
  have hsize := h.size
  have hbody := take_slice_body h.found (i := m.padded - r.msgLeft - r.pull) (k := r.pull) (by omega)
  rw [show offset ms n + 8 + (m.padded - r.msgLeft - r.pull) = place - r.pull by omega, ← hb, ← hsize, ← hgot] at hbody
  refine ⟨⟨h.found, h.type, hsize, ?_⟩, h.left, Nat.zero_le _, hstands, ?_, ?_⟩
  · have hsyms := r.syms_write (b.take (r.msgSize - r.msgGot)) (Nat.le_add_right (r.rxqOff + r.rxqLen) r.msgGot)
    exact hsyms.symm ▸ h.told
  · change r.msgGot + min b.length (r.msgSize - r.msgGot) = min r.msgSize (m.padded - r.msgLeft - 0)
    omega
  · have htake : (b.take (r.msgSize - r.msgGot)).length = min b.length (r.msgSize - r.msgGot) := by
      rw [List.length_take, Nat.min_comm]
    have hnew := r.rxq.read_write (r.rxqOff + r.rxqLen + r.msgGot) (b.take (r.msgSize - r.msgGot))
    have hold := r.rxq.read_write_disjoint (r.rxqOff + r.rxqLen + r.msgGot) (b := b.take (r.msgSize - r.msgGot))
      (c := r.rxqOff + r.rxqLen) (k := r.msgGot) (.inl (Nat.le_refl _))
    change (r.rxq.write (r.rxqOff + r.rxqLen + r.msgGot) (b.take (r.msgSize - r.msgGot))).read (r.rxqOff + r.rxqLen)
      (r.msgGot + min b.length (r.msgSize - r.msgGot)) =
        m.payload.take (r.msgGot + min b.length (r.msgSize - r.msgGot))
    rw [← htake, Store.read_append, hnew, hold, h.bytes, hbody, htake]
    congr 1
    omega

theorem X7.Sound.take_payload (hhost : env.host = hostStream ms) (h : x.Sound env ms T) (ht : x.Taken env b s)
    (hphase : x.phase = .payload) (hpull : x.pull ≠ 0) :
    X7.Sound env ms T (s.put b) ∧ (s.put b).phase = .payload := by
  have hpath := ht.put_path
  have hsphase : (s.put b).phase = .payload := (congrArg RxPath.phase hpath).trans hphase
  refine ⟨⟨ht.wired.change_path (congrArg RxPath.pull ht.path), ?_, (congrArg RxPath.rxCut hpath).trans h.cut,
    fun _ _ => ht.reading, fun htold => ?_⟩, hsphase⟩
  · rw [hpath]
    exact h.formed.putTaken b hphase
  · have hp := h.placed fun hab => htold ((congrArg RxPath.abandoned hpath).trans hab)
    rw [RxPath.Placed, hphase] at hp
    obtain ⟨k, m, hp⟩ := hp
    rw [RxPath.Placed, hsphase, hpath]
    refine ⟨k, m, ?_⟩
    have hplace : (s.put b).place = x.place := ht.place
    rw [hplace]
    exact hp.putTaken (hhost ▸ ht.bytes) (ht.length h.wired hpull)

/-- The eight bytes `b` of a header have been taken. -/
structure X7.HeadTaken (env : X7Env) (ms : List UsbMessage) (T : Nat → List (Option UInt8) → Prop) (b : Bytes)
    (s : X7) : Prop where
  wired : s.Wired env
  formed : s.toRxPath.Formed
  cut : s.rxCut = false
  phase : s.phase = .header
  pull : s.pull = 0
  owed : s.owed = 0
  rdWant : s.rdWant = 0
  reading : s.reading = false
  eight : 8 ≤ s.place
  bytes : b = slice (hostStream ms) (s.place - 8) 8
  told : s.Told ms → T (begun ms (s.place - 8)) s.syms
  aligned : s.Told ms → s.abandoned = false → ∃ n ≤ ms.length, s.place - 8 = offset ms n

theorem X7.Sound.take_header (hhost : env.host = hostStream ms) (h : x.Sound env ms T) (ht : x.Taken env b s)
    (hphase : x.phase = .header) (hpull : x.pull ≠ 0) : s.HeadTaken env ms T b := by
  have hf := h.formed
  have hpath := ht.path
  have height := (hf.atHeader hphase).resolve_left hpull
  have hbytes := ht.bytes
  have hplace := ht.place
  rw [height, hhost, ← hplace] at hbytes
  have hle := h.wired.pull_place hpull
  have hab : s.abandoned = x.abandoned := by rw [hpath]
  have hp : s.Told ms → x.toRxPath.InHeader ms T x.place := fun htold => by
    have hp := h.placed fun hx => htold (hab.trans hx)
    rw [RxPath.Placed, hphase] at hp
    dsimp only at hp
    rwa [if_neg hpull] at hp
  refine ⟨ht.wired, ?_, (congrArg RxPath.rxCut hpath).trans h.cut, (congrArg RxPath.phase hpath).trans hphase,
    congrArg RxPath.pull hpath, (congrArg RxPath.owed hpath).trans (hf.owes (.inr hpull)), ht.rdWant, ht.reading,
    by omega, hbytes, fun htold => ?_, fun htold hno => ?_⟩
  · rw [hpath]
    exact ⟨hf.fits, hf.room, hf.mark, hf.fresh, fun _ => .inl rfl, fun _ => rfl,
      (fun hr => by cases (show RxPhase.header = .trailer from hphase.symm.trans hr)), fun _ => hf.owes (.inr hpull),
      hf.high⟩
  · rw [hplace, hpath]
    exact (hp htold).told
  · rw [hplace]
    exact (hp htold).aligned (hab.symm.trans hno)

section Head

theorem X7.HeadTaken.taken_eq (h : s.HeadTaken env ms T b) : s.place = s.taken := by
  rw [X7.place, h.rdWant, Nat.add_zero]

/-- What looks like a header is one. -/
theorem X7.HeadTaken.message (hhost : env.host = hostStream ms) (h : s.HeadTaken env ms T b) (htold : s.Told ms)
    (hmagic : b.take 4 = dmaMagic) : ∃ n m, ms[n]? = some m ∧ s.place = offset ms n + 8 ∧ T n s.syms ∧
      b = dmaMagic ++ messageHead m.datatype m.payload.length := by
  have height := h.eight
  have hbytes := h.bytes
  have hend : s.place ≤ (hostStream ms).length := by
    have htaken := h.wired.taken_le
    have harrived := h.wired.arrived_le
    have heq := h.taken_eq
    rw [← hhost]
    omega
  have hat : ∃ n, s.place - 8 = offset ms n := by
    by_cases hno : s.abandoned = false
    · obtain ⟨n, -, heq⟩ := h.aligned htold hno
      exact ⟨n, heq⟩
    · have hfour : slice (hostStream ms) (s.place - 8) 4 = dmaMagic := by
        rw [hbytes, slice, List.take_take] at hmagic
        exact hmagic
      obtain ⟨n, -, heq⟩ := htold (Bool.not_eq_false _ ▸ hno) _ hfour
      exact ⟨n, heq⟩
  obtain ⟨n, heq⟩ := hat
  obtain ⟨m, hm⟩ := exists_message ms (n := n) (by omega)
  have hn := (List.getElem?_eq_some_iff.mp hm).1
  have htell := h.told htold
  rw [heq] at hbytes
  rw [heq, begun_offset (Nat.le_of_lt hn)] at htell
  exact ⟨n, m, hm, by omega, htell, hbytes.trans (slice_header hm)⟩

theorem X7.HeadTaken.head_lost (hhost : env.host = hostStream ms) (h : s.HeadTaken env ms T b)
    (hmagic : b.take 4 ≠ dmaMagic) : s.Adrift env ms T := by
  have height := h.eight
  have htaken := h.wired.taken_le
  have harrived := h.wired.arrived_le
  have heq := h.taken_eq
  refine ⟨h.wired, h.formed, h.phase, h.pull, fun htold => ⟨begun ms (s.place - 8), h.told htold,
    begun_mono _ (by omega), by rw [h.owed, heq, Nat.add_zero], fun hno => ?_⟩⟩
  obtain ⟨n, -, hn⟩ := h.aligned htold hno
  obtain ⟨m, hm⟩ := exists_message ms (n := n) (by rw [← hhost]; omega)
  rw [h.bytes, hn, slice_header hm] at hmagic
  exact (hmagic rfl).elim

theorem headSize_head (m : UsbMessage) : headSize (dmaMagic ++ messageHead m.datatype m.payload.length) =
    m.payload.length := by
  have hsize := headSize_messageHead m.datatype m.fits []
  rwa [List.append_nil] at hsize

theorem RxPath.Formed.owing {r : RxPath} (h : r.Formed) (hphase : r.phase = .header) (hpull : r.pull = 0)
    (left owed : Nat) : RxPath.Formed { r with msgLeft := left, owed := owed } :=
  ⟨h.fits, h.room, h.mark, h.fresh, h.atHeader, h.atRoom, h.atTrailer,
    fun hor => (hor.elim (fun hne => hne hphase) fun hne => hne hpull).elim, h.high⟩

/-- Behind the header, the message has begun and the next begins behind its trailer. -/
theorem begun_behind {n place : Nat} {m : UsbMessage} (hm : ms[n]? = some m) (hplace : place = offset ms n + 8) :
    begun ms place = n + 1 ∧ place + (m.padded + 4) = offset ms (n + 1) ∧
      begun ms (place + (m.padded + 4)) = n + 1 := by
  have hlen := m.wire_length
  have hnext := offset_succ hm
  exact ⟨begun_inside hm (by omega) (by omega), by omega, begun_inside hm (by omega) (by omega)⟩

theorem X7.HeadTaken.head_other (hhost : env.host = hostStream ms) (hadv : Advances ms T T')
    (h : s.HeadTaken env ms T b) (hmagic : b.take 4 = dmaMagic) (htype : byteAt b 4 ≠ multi64L3Type) :
    X7.Sound env ms T' { s with
      msgLeft := (headSize b + 1) / 2 * 2
      owed := (headSize b + 1) / 2 * 2 + 4 } := by
  refine ⟨h.wired.change_path h.pull, h.formed.owing h.phase h.pull _ _, h.cut, fun hne => (hne h.phase).elim,
    fun htold => ?_⟩
  obtain ⟨n, m, hm, hplace, htell, rfl⟩ := h.message hhost htold hmagic
  obtain ⟨hbegun, hnext, hbehind⟩ := begun_behind hm hplace
  have hn := (List.getElem?_eq_some_iff.mp hm).1
  rw [headSize_head]
  rw [RxPath.Placed]
  dsimp only
  rw [h.phase]
  dsimp only
  rw [if_pos h.pull]
  have htaken : begun ms s.taken = n + 1 := by rw [← h.taken_eq, hbegun]
  refine ⟨?_, htaken.trans hbehind.symm, fun _ => ⟨n + 1, hn, hnext⟩⟩
  rw [htaken]
  exact hadv.other n s.syms m htell hm htype

theorem X7.HeadTaken.head_tooBig (hhost : env.host = hostStream ms) (h : s.HeadTaken env ms T b)
    (hmagic : b.take 4 = dmaMagic) : X7.Adrift env ms T { s with
      msgLeft := (headSize b + 1) / 2 * 2
      owed := (headSize b + 1) / 2 * 2 + 4 } := by
  refine ⟨h.wired.change_path h.pull, h.formed.owing h.phase h.pull _ _, h.phase, h.pull, fun htold => ?_⟩
  obtain ⟨n, m, hm, hplace, htell, rfl⟩ := h.message hhost htold hmagic
  obtain ⟨hbegun, hnext, hbehind⟩ := begun_behind hm hplace
  have hn := (List.getElem?_eq_some_iff.mp hm).1
  rw [headSize_head]
  have htaken : begun ms s.taken = n + 1 := by rw [← h.taken_eq, hbegun]
  refine ⟨n, htell, ?_, htaken.trans hbehind.symm, fun _ => ⟨hn, hnext⟩⟩
  change n ≤ begun ms s.taken
  omega

theorem X7.HeadTaken.head_room (hhost : env.host = hostStream ms) (h : s.HeadTaken env ms T b)
    (hmagic : b.take 4 = dmaMagic) (htype : byteAt b 4 = multi64L3Type) : X7.Sound env ms T { s with
      msgLeft := (headSize b + 1) / 2 * 2
      msgSize := headSize b
      msgGot := 0
      phase := .room } := by
  have hf := h.formed
  refine ⟨h.wired.change_path h.pull, ⟨hf.fits, nofun, hf.mark, fun _ => rfl, nofun, fun _ => h.pull, nofun, fun _ => h.owed,
    hf.high⟩, h.cut, fun _ _ => h.reading, fun htold => ?_⟩
  obtain ⟨n, m, hm, hplace, htell, rfl⟩ := h.message hhost htold hmagic
  rw [headSize_head]
  exact ⟨n, m, ⟨hm, htype, rfl, htell⟩, rfl, hplace⟩

end Head

theorem X7.Sound.to_front (h : x.Sound env ms T) (hphase : x.phase = .room) : X7.Sound env ms T x.rxqToFront := by
  have hf := h.formed
  have hpull := hf.atRoom hphase
  have hne : x.phase ≠ .header := by
    rw [hphase]
    decide
  have hfits := hf.fits
  have hq : x.rxqToFront.queued = x.queued := by
    have hread := x.rxq.read_write 0 (x.rxq.read x.rxqOff x.rxqLen)
    rwa [Store.read_length] at hread
  have hsyms : x.rxqToFront.syms = x.syms := by
    rw [RxPath.syms, hq]
    rfl
  refine ⟨h.wired.change_path hpull, ⟨?_, ?_, hf.mark, hf.fresh, hf.atHeader, hf.atRoom, hf.atTrailer, hf.owes,
    hf.high⟩, h.cut, h.quiet, fun htold => ?_⟩
  · change 0 + x.rxqLen ≤ edRxqCap
    omega
  · intro hor
    rw [show x.rxqToFront.phase = .room from hphase] at hor
    rcases hor with hp | ht
    · cases hp
    · cases ht
  · have hp := h.placed htold
    rw [RxPath.Placed, hphase] at hp
    rw [RxPath.Placed, show x.rxqToFront.phase = .room from hphase]
    obtain ⟨n, m, hp⟩ := hp
    refine ⟨n, m, ⟨⟨hp.found, hp.type, hp.size, ?_⟩, hp.left, hp.stands⟩⟩
    rw [hsyms]
    exact hp.told

theorem X7.Sound.to_payload (h : x.Sound env ms T) (hphase : x.phase = .room)
    (hroom : ¬edRxqCap - x.rxqLen < x.msgSize) (hoff : x.rxqOff = 0) :
    X7.Sound env ms T { x with phase := .payload } := by
  have hf := h.formed
  have hpull := hf.atRoom hphase
  have hgot := hf.fresh hphase
  have hne : x.phase ≠ .header := by
    rw [hphase]
    decide
  refine ⟨h.wired.change_path hpull, ⟨hf.fits, fun _ => ⟨?_, ?_⟩, hf.mark, nofun, nofun, nofun, nofun,
    fun _ => hf.owes (.inl hne), hf.high⟩, h.cut, fun _ _ => h.quiet hne hpull, fun htold => ?_⟩
  · have hfits := hf.fits
    change x.rxqOff + x.rxqLen + x.msgSize ≤ edRxqCap
    omega
  · change x.msgGot ≤ x.msgSize
    omega
  · have hp := h.placed htold
    rw [RxPath.Placed, hphase] at hp
    obtain ⟨n, m, hp⟩ := hp
    have hleft := hp.left
    have hsize := hp.size
    refine ⟨n, m, ⟨⟨hp.found, hp.type, hp.size, hp.told⟩, Nat.le_of_eq hleft, ?_, ?_, ?_, ?_⟩⟩
    · change x.pull ≤ _
      omega
    · have hstands := hp.stands
      change x.place = offset ms n + 8 + (m.padded - x.msgLeft)
      omega
    · change x.msgGot = min x.msgSize (m.padded - x.msgLeft - x.pull)
      omega
    · change x.rxq.read (x.rxqOff + x.rxqLen) x.msgGot = m.payload.take x.msgGot
      rw [hgot]
      rfl

/-- The trailer taken puts the message in the queue. -/
theorem RxPath.syms_joined {r : RxPath} (h : r.rxqLost = true → r.rxqBeforeLoss ≤ r.rxqLen) {payload : Bytes}
    (hbytes : r.rxq.read (r.rxqOff + r.rxqLen) r.msgGot = payload) :
    RxPath.syms { r with phase := .header, pull := 0, rxqLen := r.rxqLen + r.msgGot } =
      r.syms ++ payload.map some := by
  have hq : RxPath.queued { r with phase := .header, pull := 0, rxqLen := r.rxqLen + r.msgGot } =
      r.queued ++ payload := by
    rw [← hbytes]
    exact r.rxq.read_append _ _ _
  have hlen : r.queued.length = r.rxqLen := r.rxq.read_length _ _
  simp only [RxPath.syms, hq]
  by_cases hlost : r.rxqLost = true
  · have hmark := h hlost
    simp only [hlost, if_true]
    rw [List.take_append_of_le_length (by omega), List.drop_append_of_le_length (by omega), List.map_append,
      List.append_assoc]
    rfl
  · simp only [hlost, List.map_append]
    rfl

theorem header_ends : ¬(RxPhase.header = .payload ∨ RxPhase.header = .trailer) := by
  decide

theorem X7.Sound.take_trailer (hhost : env.host = hostStream ms) (hadv : Advances ms T T') (h : x.Sound env ms T)
    (ht : x.Taken env b s) (hphase : x.phase = .trailer) :
    (b.take 4 ≠ cmpMagic → X7.Adrift env ms T { s with phase := .header }) ∧
      (b.take 4 = cmpMagic → X7.Sound env ms T' { s with phase := .header, rxqLen := s.rxqLen + s.msgGot }) := by
  have hf := h.formed
  have hpath := ht.path
  have hfour := hf.atTrailer hphase
  have hspull : s.pull = 0 := congrArg RxPath.pull hpath
  have hroom := hf.room (.inr hphase)
  have howed : x.owed = 0 := hf.owes (.inl (by rw [hphase]; decide))
  have hab : s.abandoned = x.abandoned := by rw [hpath]
  have hp : s.Told ms → ∃ n m, x.toRxPath.InTrailer ms T x.place n m := fun htold => by
    have hp := h.placed fun hx => htold (hab.trans hx)
    rwa [RxPath.Placed, hphase] at hp
  have htaken : s.taken = x.place := ht.place_eq
  have hplace : s.place = x.place := ht.place
  constructor
  · intro hcmp
    refine ⟨ht.wired.change_path hspull, ?_, rfl, hspull, fun htold => ?_⟩
    · rw [hpath]
      exact ⟨hf.fits, fun h => absurd h header_ends, hf.mark, (by intro h; cases h), fun _ => .inl rfl, fun _ => rfl,
        (by intro h; cases h), fun _ => howed, hf.high⟩
    · obtain ⟨n, m, hp⟩ := hp htold
      have hbytes := ht.bytes
      rw [hhost, hp.stands, hfour, slice_trailer hp.found] at hbytes
      rw [hbytes] at hcmp
      exact (hcmp rfl).elim
  · intro _
    have hjoin : X7.toRxPath { s with phase := .header, rxqLen := s.rxqLen + s.msgGot } =
        { x.toRxPath with phase := .header, pull := 0, rxqLen := x.rxqLen + x.msgGot } := by
      change { s.toRxPath with phase := .header, rxqLen := s.toRxPath.rxqLen + s.toRxPath.msgGot } = _
      rw [hpath]
    refine ⟨ht.wired.change_path hspull, ?_, ?_, fun hne => (hne rfl).elim, fun htold => ?_⟩
    · rw [hjoin]
      refine ⟨?_, fun h => absurd h header_ends, ?_, (by intro h; cases h), fun _ => .inl rfl, fun _ => rfl,
        (by intro h; cases h), fun _ => howed, hf.high⟩
      · change x.rxqOff + (x.rxqLen + x.msgGot) ≤ edRxqCap
        omega
      · intro hlost
        have hmark := hf.mark hlost
        change x.rxqBeforeLoss ≤ x.rxqLen + x.msgGot
        omega
    · change s.rxCut = false
      rw [hpath]
      exact h.cut
    · obtain ⟨n, m, hp⟩ := hp htold
      have hn := (List.getElem?_eq_some_iff.mp hp.found).1
      have hstands := hp.stands
      have hbegun : begun ms s.taken = n + 1 := by rw [htaken, hstands, begun_offset hn]
      rw [hjoin, RxPath.Placed]
      dsimp only
      rw [if_pos rfl]
      refine ⟨?_, ?_, fun _ => ⟨n + 1, hn, ?_⟩⟩
      · rw [hbegun, RxPath.syms_joined hf.mark hp.bytes]
        exact hadv.got n x.syms m hp.told hp.found hp.type
      · change begun ms s.taken = begun ms (s.place + x.owed)
        rw [htaken, hplace, howed, Nat.add_zero]
      · change s.place + x.owed = offset ms (n + 1)
        rw [hplace, howed, Nat.add_zero, hstands]

end Taking

end Multi64
