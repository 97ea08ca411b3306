import Multi64.MemSafety

/-! `m64p_handle` on any payload, from any state: nothing, an error that
changes no memory and no watch, a repeat acknowledged, or a whole request. -/

namespace Multi64

section Perform

variable (h : Hooks) (s : MemProto) (r : Request)

theorem peekTrailer_frame (s : MemProto) (used : Nat) :
    ∃ events, (peekTrailer s used).2 = { s with events := events } := by
  rw [peekTrailer]
  split
  · exact ⟨s.events, rfl⟩
  · rw [watchTrailer]
    split
    · exact ⟨s.events, rfl⟩
    · exact ⟨_, rfl⟩

theorem perform_errors : (perform h s r).1.errors = s.errors := by
  cases r with
  | peekv rid rs =>
    obtain ⟨events, he⟩ := peekTrailer_frame s (listReply .peekvResp rid rs.length (peekReply s.ram rs)).length
    simp only [perform, he]
  | hello => rfl
  | pokev rid rs => rfl
  | peekrom rid rs => rfl
  | watch rid slots => rfl

theorem perform_held : (perform h s r).1.held = s.held := by
  cases r with
  | peekv rid rs =>
    obtain ⟨events, he⟩ := peekTrailer_frame s (listReply .peekvResp rid rs.length (peekReply s.ram rs)).length
    simp only [perform, he]
  | hello => rfl
  | pokev rid rs => rfl
  | peekrom rid rs => rfl
  | watch rid slots => rfl

theorem perform_reply_le (hf : r.Fits h s.ram.size) : (perform h s r).2.length ≤ m64pAppCap := by
  have hcap : m64pAppCap = 8008 := rfl
  cases r with
  | hello =>
    simp only [perform, handleHello, List.length_append, appHeader_length, putBe16_length, putBe32_length,
      List.length_singleton]
    split <;> simp only [putBe32_length, List.length_nil] <;> omega
  | peekv rid rs =>
    have hle := hf.reply_le
    have hreply := peekReply_length s.ram rs
    have hlen := listReply_length .peekvResp rid rs.length (peekReply s.ram rs)
    have ht := peekTrailer_length_le s (listReply .peekvResp rid rs.length (peekReply s.ram rs)).length
    simp only [perform, List.length_append]
    omega
  | pokev rid rs =>
    simp only [perform, listReply_length, List.length_nil]
    omega
  | peekrom rid rs =>
    have hle := hf.2.reply_le
    simp only [perform, listReply_length, romReply_length]
    omega
  | watch rid slots =>
    simp only [perform, listReply_length, List.length_nil]
    omega

end Perform

theorem sendErr_reply_le (s : MemProto) (rid : UInt16) (e : M64pErr) :
    (sendErr s rid e).2.length ≤ m64pAppCap := by
  simp only [sendErr, List.length_append, appHeader_length, putBe16_length, List.length_singleton]
  decide

theorem sendErr_errors (s : MemProto) (rid : UInt16) (e : M64pErr) :
    (sendErr s rid e).1.errors ≠ s.errors := by
  intro he
  have hnat := congrArg UInt32.toNat he
  have hlt := s.errors.toNat_lt
  simp only [sendErr, UInt32.toNat_add, UInt32.toNat_one] at hnat
  omega

/-- What the dispatcher comes to. -/
inductive Dispatched (h : Hooks) (s : MemProto) (p : Bytes) : Option (MemProto × Bytes) → Prop where
  | notOurs (hp : p.length < 5 ∨ p.take 4 ≠ m64pMagic) : Dispatched h s p none
  | refused (rid : UInt16) (e : M64pErr) (hmsg : byteAt p 4 ≠ M64pMsg.hello.code)
      (hrid : 8 ≤ p.length → rid = readBe16 p 5) : Dispatched h s p (some (sendErr s rid e))
  | performed (r : Request) (rest : Bytes) (he : p = r.encode ++ rest) (hf : r.Fits h s.ram.size) :
      Dispatched h s p (some (perform h s r))

theorem Served.dispatched {h : Hooks} {s : MemProto} {p : Bytes} {msg : M64pMsg}
    {out : Except Fault (MemProto × Bytes)} (hs : Served h s (p.drop 5) msg out)
    (hp : p = appHeader msg ++ p.drop 5) (hmsg : byteAt p 4 ≠ M64pMsg.hello.code) :
    ∃ r, out = .ok r ∧ Dispatched h s p (some r) := by
  cases hs with
  | refused rid e hrid =>
    refine ⟨_, rfl, .refused rid e hmsg fun hlen => ?_⟩
    rw [hrid (by rw [List.length_drop]; omega), readBe16_drop]
  | performed r rest he hf => exact ⟨_, rfl, .performed r rest (hp.trans he) hf⟩

theorem m64pDispatch_spec (h : Hooks) (s : MemProto) (p : Bytes) :
    ∃ out, m64pDispatch h s p = .ok out ∧ Dispatched h s p out := by
  rw [m64pDispatch]
  by_cases h5 : p.length < 5
  · exact ⟨none, if_pos h5, .notOurs (.inl h5)⟩
  rw [if_neg h5]
  by_cases hmagic : p.take 4 ≠ m64pMagic
  · exact ⟨none, if_pos hmagic, .notOurs (.inr hmagic)⟩
  rw [if_neg hmagic, load8_eq (by omega)]
  simp only [bind, Except.bind, pure, Except.pure]
  have hp : ∀ msg : M64pMsg, byteAt p 4 = msg.code → p = appHeader msg ++ p.drop 5 := by
    intro msg hmsg
    have hsplit := List.take_append_drop 4 p
    rw [drop_eq_byteAt_cons (by omega), not_not.mp hmagic, hmsg] at hsplit
    rw [appHeader, List.append_assoc]
    exact hsplit.symm
  by_cases hhello : byteAt p 4 = M64pMsg.hello.code
  · rw [if_pos hhello]
    exact ⟨_, rfl, .performed .hello (p.drop 5) (hp .hello hhello) trivial⟩
  rw [if_neg hhello]
  by_cases hpeekv : byteAt p 4 = M64pMsg.peekv.code
  · obtain ⟨r, hr, hd⟩ := (handlePeekv_served h s (p.drop 5)).dispatched (hp .peekv hpeekv) hhello
    rw [if_pos hpeekv, hr]
    exact ⟨_, rfl, hd⟩
  rw [if_neg hpeekv]
  by_cases hpokev : byteAt p 4 = M64pMsg.pokev.code
  · obtain ⟨r, hr, hd⟩ := (handlePokev_served h s (p.drop 5)).dispatched (hp .pokev hpokev) hhello
    rw [if_pos hpokev, hr]
    exact ⟨_, rfl, hd⟩
  rw [if_neg hpokev]
  by_cases hpeekrom : byteAt p 4 = M64pMsg.peekrom.code
  · obtain ⟨r, hr, hd⟩ := (handlePeekrom_served h s (p.drop 5)).dispatched (hp .peekrom hpeekrom) hhello
    rw [if_pos hpeekrom, hr]
    exact ⟨_, rfl, hd⟩
  rw [if_neg hpeekrom]
  by_cases hwatch : byteAt p 4 = M64pMsg.watch.code
  · obtain ⟨r, hr, hd⟩ := (handleWatch_served h s (p.drop 5)).dispatched (hp .watch hwatch) hhello
    rw [if_pos hwatch, hr]
    exact ⟨_, rfl, hd⟩
  rw [if_neg hwatch]
  by_cases h2 : 2 ≤ (p.drop 5).length
  · rw [if_pos h2, load16_eq (by omega)]
    exact ⟨_, rfl, .refused _ .malformed hhello fun _ => readBe16_drop p 5 0⟩
  · rw [if_neg h2]
    refine ⟨_, rfl, .refused 0 .malformed hhello fun hlen => absurd hlen ?_⟩
    rw [List.length_drop] at h2
    omega

/-- The payload repeats the write the agent holds. -/
structure Repeats (h : Hooks) (s : MemProto) (p : Bytes) (rid : UInt16) (n : UInt8) : Prop where
  build : h.pokeOnce = true
  held : s.held = some (rid, n)
  poke : ∃ count rest, p = appHeader .pokev ++ putBe16 rid ++ count :: rest

/-- What `m64p_handle` comes to. Besides the counters and the hold, a refusal
and a repeat leave the state as it was. -/
inductive Handled (h : Hooks) (s : MemProto) (p : Bytes) : Option (MemProto × Bytes) → Prop where
  | notOurs (hp : p.length < 5 ∨ p.take 4 ≠ m64pMagic) : Handled h s p none
  | refused (rid : UInt16) (e : M64pErr) (hmsg : byteAt p 4 ≠ M64pMsg.hello.code)
      (hrid : 8 ≤ p.length → rid = readBe16 p 5) :
      Handled h s p (some
        ({ s with
            errors := s.errors + 1, lastError := e.code
            held := if h.pokeOnce then none else s.held },
          appHeader .err ++ putBe16 rid ++ [e.code]))
  | repeated (rid : UInt16) (n : UInt8) (hr : Repeats h s p rid n) :
      Handled h s p (some ({ s with requests := s.requests + 1 }, appHeader .pokeAck ++ putBe16 rid ++ [n]))
  | performed (r : Request) (rest : Bytes) (he : p = r.encode ++ rest) (hf : r.Fits h s.ram.size)
      (hr : ∀ rid n, ¬ Repeats h s p rid n) :
      Handled h s p (some ({ (perform h s r).1 with held := r.hold h s.held }, (perform h s r).2))

theorem Handled.reply_le {h : Hooks} {s : MemProto} {p : Bytes} {out : Option (MemProto × Bytes)}
    (hh : Handled h s p out) : ∀ s' reply, out = some (s', reply) → reply.length ≤ m64pAppCap := by
  intro s' reply ho
  cases hh with
  | notOurs hp => cases ho
  | refused rid e hmsg hrid =>
    cases ho
    exact sendErr_reply_le s rid e
  | repeated rid n hr =>
    cases ho
    simp only [List.length_append, appHeader_length, putBe16_length, List.length_singleton]
    decide
  | performed r rest he hf hr =>
    cases ho
    exact perform_reply_le h s r hf

/-- A payload the code takes for a write with a rid to compare. -/
theorem poke_iff {p : Bytes} :
    (decide (8 ≤ p.length) && decide (byteAt p 4 = M64pMsg.pokev.code) && decide (p.take 4 = m64pMagic) : Bool) =
      true ↔ ∃ count rest, p = appHeader .pokev ++ putBe16 (readBe16 p 5) ++ count :: rest := by
  simp only [Bool.and_eq_true, decide_eq_true_eq]
  constructor
  · rintro ⟨⟨hlen, hmsg⟩, hmagic⟩
    refine ⟨byteAt p 7, p.drop 8, ?_⟩
    have hsplit := List.take_append_drop 4 p
    rw [drop_eq_byteAt_cons (by omega), hmagic, hmsg, drop_eq_readBe16 (i := 4 + 1) (by omega),
      drop_eq_byteAt_cons (i := 4 + 1 + 2) (by omega)] at hsplit
    simpa only [appHeader, List.append_assoc, List.cons_append, List.nil_append] using hsplit.symm
  · rintro ⟨count, rest, hp⟩
    have hlen := congrArg List.length hp
    simp only [List.length_append, appHeader_length, putBe16_length, List.length_cons] at hlen
    refine ⟨⟨by omega, ?_⟩, ?_⟩
    · rw [hp]
      rfl
    · rw [hp]
      rfl

theorem readBe16_poke {rid : UInt16} {count : UInt8} {rest : Bytes} :
    readBe16 (appHeader .pokev ++ putBe16 rid ++ count :: rest) 5 = rid ∧
      byteAt (appHeader .pokev ++ putBe16 rid ++ count :: rest) 7 = count := by
  constructor
  · rw [List.append_assoc]
    have hr := readBe16_append_right (appHeader .pokev) (putBe16 rid ++ count :: rest) 0
    rw [appHeader_length, readBe16_putBe16] at hr
    exact hr
  · have hb := byteAt_append_right (appHeader .pokev ++ putBe16 rid) (count :: rest) 0
    simpa only [List.length_append, appHeader_length, putBe16_length, byteAt_zero] using hb

/-- The write a payload that fits is recognized as. -/
theorem Request.poke_rid {r : Request} {rid : UInt16} {count : UInt8} {rest tail : Bytes}
    (h : appHeader .pokev ++ putBe16 rid ++ count :: tail = r.encode ++ rest) :
    ∃ rs, r = .pokev rid rs ∧ count = UInt8.ofNat rs.length := by
  cases r with
  | pokev rid' rs =>
    simp only [Request.encode, encodeList, List.append_assoc, List.length_map] at h
    obtain ⟨hrid, hcount⟩ := List.append_inj (List.append_cancel_left h) rfl
    have hr : rid' = rid := by
      rw [← readBe16_putBe16 rid' [], ← readBe16_putBe16 rid [], hrid]
    rw [hr]
    exact ⟨rs, rfl, (List.cons.inj hcount).1⟩
  | _ =>
    simp only [Request.encode, encodeList, List.append_assoc, appHeader, List.cons_append] at h
    have h := List.append_cancel_left h
    simp [M64pMsg.code] at h

theorem m64pServe_spec {h : Hooks} {s : MemProto} {p : Bytes} {poke : Bool} (hb : h.pokeOnce = true)
    (hpoke : poke = true ↔ ∃ count rest, p = appHeader .pokev ++ putBe16 (readBe16 p 5) ++ count :: rest)
    (hr : ∀ rid n, ¬ Repeats h s p rid n) :
    ∃ out, m64pServe h s p poke = .ok out ∧ Handled h s p out := by
  obtain ⟨out, hout, hd⟩ := m64pDispatch_spec h s p
  simp only [m64pServe, hout, bind, Except.bind, pure, Except.pure]
  cases hd with
  | notOurs hp => exact ⟨none, rfl, .notOurs hp⟩
  | refused rid e hmsg hrid =>
    have hne : (poke && decide ((sendErr s rid e).1.errors = s.errors) : Bool) = false := by
      rw [Bool.and_eq_false_iff]
      exact .inr (decide_eq_false (sendErr_errors s rid e))
    simp only [hne, Bool.false_eq_true, if_false]
    refine ⟨_, rfl, ?_⟩
    have hh := Handled.refused (h := h) (s := s) rid e hmsg hrid
    rw [if_pos hb] at hh
    exact hh
  | performed r rest he hf =>
    have hh := Handled.performed r rest he hf hr
    have hcond : (poke && decide ((perform h s r).1.errors = s.errors) : Bool) = poke := by
      rw [perform_errors, decide_eq_true rfl, Bool.and_true]
    simp only [hcond]
    cases hp : poke with
    | true =>
      obtain ⟨count, tail, htail⟩ := hpoke.mp hp
      obtain ⟨rs, hrs, hcount⟩ := Request.poke_rid (htail.symm.trans he)
      have hlen := congrArg List.length htail
      simp only [List.length_append, appHeader_length, putBe16_length, List.length_cons] at hlen
      have hb7 : byteAt p 7 = count := by
        rw [htail]
        exact readBe16_poke.2
      rw [if_pos rfl, load16_eq (by omega), load8_eq (by omega)]
      refine ⟨_, rfl, ?_⟩
      rw [hrs, Request.hold, if_pos hb, ← hcount, ← hb7, ← hrs] at hh
      exact hh
    | false =>
      rw [if_neg Bool.false_ne_true]
      refine ⟨_, rfl, ?_⟩
      have hnone : r.hold h s.held = none := by
        cases r with
        | pokev rid rs =>
          rw [Request.encode, encodeList, List.append_assoc, List.append_assoc] at he
          have hrid : readBe16 p 5 = rid := by
            rw [he, ← List.append_assoc]
            exact readBe16_poke.1
          have htrue := hpoke.mpr ⟨_, _, by rw [hrid, List.append_assoc]; exact he⟩
          rw [hp] at htrue
          exact absurd htrue Bool.false_ne_true
        | _ => exact if_pos hb
      rw [hnone] at hh
      exact hh

theorem m64pHandle_spec (h : Hooks) (s : MemProto) (p : Bytes) :
    ∃ out, m64pHandle h s p = .ok out ∧ Handled h s p out := by
  rw [m64pHandle]
  cases hb : h.pokeOnce with
  | false =>
    obtain ⟨out, hout, hd⟩ := m64pDispatch_spec h s p
    refine ⟨out, by simpa only [Bool.not_false, if_true] using hout, ?_⟩
    have hnb : ¬ h.pokeOnce = true := by rw [hb]; exact Bool.false_ne_true
    cases hd with
    | notOurs hp => exact .notOurs hp
    | refused rid e hmsg hrid =>
      have hh := Handled.refused (h := h) (s := s) rid e hmsg hrid
      rw [if_neg hnb] at hh
      exact hh
    | performed r rest he hf =>
      have hh := Handled.performed r rest he hf fun rid n hr => hnb hr.build
      have hhold : r.hold h s.held = (perform h s r).1.held := by
        rw [perform_held]
        cases r <;> exact if_neg hnb
      rw [hhold] at hh
      exact hh
  | true =>
    simp only [Bool.not_true, Bool.false_eq_true, if_false]
    have hpoke := poke_iff (p := p)
    generalize (decide (8 ≤ p.length) && decide (byteAt p 4 = M64pMsg.pokev.code) &&
      decide (p.take 4 = m64pMagic) : Bool) = poke at hpoke ⊢
    have hserve : (∀ rid n, ¬ Repeats h s p rid n) → ∃ out, m64pServe h s p poke = .ok out ∧ Handled h s p out :=
      fun hr => m64pServe_spec hb hpoke hr
    -- Only a write under the rid held is not served.
    split
    case h_1 rid applied hheld =>
      obtain ⟨count, rest, hp⟩ := hpoke.mp rfl
      have hlen := congrArg List.length hp
      simp only [List.length_append, appHeader_length, putBe16_length, List.length_cons] at hlen
      rw [load16_eq (by omega), load8_eq (by omega), load8_eq (by omega)]
      simp only [bind, Except.bind, pure, Except.pure]
      by_cases hrid : readBe16 p 5 = rid
      · rw [if_pos hrid]
        have hbytes : putBe16 rid = [byteAt p 5, byteAt p 6] := by
          rw [← hrid, readBe16, putBe16_be16]
        have hrep : Repeats h s p rid applied := ⟨hb, hheld, count, rest, by rw [← hrid]; exact hp⟩
        have hh := Handled.repeated rid applied hrep
        rw [hbytes, List.append_assoc] at hh
        exact ⟨_, rfl, hh⟩
      · rw [if_neg hrid]
        refine hserve fun rid' n hr => hrid ?_
        obtain ⟨count', rest', hp'⟩ := hr.poke
        have hsome := hheld.symm.trans hr.held
        cases hsome
        rw [hp']
        exact readBe16_poke.1
    case h_2 hno =>
      refine hserve fun rid n hr => ?_
      obtain ⟨count, rest, hp⟩ := hr.poke
      have hrid : readBe16 p 5 = rid := by
        rw [hp]
        exact readBe16_poke.1
      exact hno rid n (hpoke.mpr ⟨count, rest, by rw [hrid]; exact hp⟩) hr.held

/-- A region list has one reading. -/
theorem regions_inj {w : Bool} {rs rs' : List (Region w)} {e e' : Bytes} (hlen : rs.length = rs'.length)
    (h : (rs.map Region.encode).flatten ++ e = (rs'.map Region.encode).flatten ++ e') : rs = rs' := by
  induction rs generalizing rs' with
  | nil => exact (List.eq_nil_of_length_eq_zero hlen.symm).symm
  | cons r rs ih =>
    cases rs' with
    | nil => cases hlen
    | cons r' rs' =>
      simp only [List.map_cons, List.flatten_cons, List.append_assoc] at h
      have hat : RegionAt (r.encode ++ ((rs.map Region.encode).flatten ++ e)) 0 r _ := Region.at_of_drop rfl
      have hat' : RegionAt (r.encode ++ ((rs.map Region.encode).flatten ++ e)) 0 r' _ := Region.at_of_drop h
      have hl : r.len = r'.len := hat.len.symm.trans hat'.len
      have hr : r = r' := by
        refine Region.ext (hat.addr.symm.trans hat'.addr) hl ?_
        rw [← hat.data, ← hat'.data, hl]
      rw [hr] at h ⊢
      rw [ih (Nat.succ.inj hlen) (List.append_cancel_left h)]

/-- A payload spells one write. -/
theorem Request.pokev_inj {rid : UInt16} {rs : List (Region true)} {r : Request} {e e' : Bytes}
    {h : Hooks} {size : UInt32} (hcount : rs.length < 0x100) (hf : r.Fits h size)
    (he : (Request.pokev rid rs).encode ++ e = r.encode ++ e') : RegionsFit size rs := by
  have hp : (Request.pokev rid rs).encode ++ e = appHeader .pokev ++ putBe16 rid ++
      UInt8.ofNat rs.length :: ((rs.map Region.encode).flatten ++ e) := by
    simp only [Request.encode, encodeList, List.append_assoc, List.length_map, List.cons_append,
      List.nil_append]
  obtain ⟨rs', hr, hlen⟩ := Request.poke_rid (hp.symm.trans he)
  subst hr
  have hfit : RegionsFit size rs' := hf
  have hc' := hfit.count
  have hlen' : rs.length = rs'.length := by
    have hnat := congrArg UInt8.toNat hlen
    have hmax : m64pMaxRegions = 32 := rfl
    rw [UInt8.toNat_ofNat', UInt8.toNat_ofNat'] at hnat
    omega
  simp only [Request.encode, encodeList, List.append_assoc, List.length_map, hlen'] at he
  have hflat := List.append_cancel_left (List.append_cancel_left (List.append_cancel_left he))
  have heq := regions_inj hlen' hflat
  rw [heq]
  exact hfit

/-- For any build, state and payload: no access is a fault, the payload is
handled in one of the four ways, the reply fits its buffer, and a write with a
region out of range stores nothing. -/
theorem m64pHandle_safe (h : Hooks) (s : MemProto) (p : Bytes) :
    ∃ out, m64pHandle h s p = .ok out ∧ Handled h s p out ∧
      (∀ s' reply, out = some (s', reply) → reply.length ≤ m64pAppCap) ∧
      ∀ rid rs rest, rs.length < 0x100 → p = (Request.pokev rid rs).encode ++ rest →
        (∃ r ∈ rs, s.ram.size.toNat < r.addr.toNat + r.len.toNat) →
        ∀ s' reply, out = some (s', reply) → s'.ram = s.ram := by
  obtain ⟨out, hout, hh⟩ := m64pHandle_spec h s p
  refine ⟨out, hout, hh, hh.reply_le, fun rid rs rest hcount hp hrange s' reply ho => ?_⟩
  cases hh with
  | notOurs hn => cases ho
  | refused rid' e hmsg hrid =>
    cases ho
    rfl
  | repeated rid' n hr =>
    cases ho
    rfl
  | performed r rest' he hf hr =>
    obtain ⟨x, hx, hlt⟩ := hrange
    have hfit := (Request.pokev_inj hcount hf (hp.symm.trans he)).fits x hx
    exact absurd hfit.1 (Nat.not_le.mpr hlt)

def bareHooks : Hooks := ⟨true, 0, fun _ => 0, fun _ => false⟩

def bareProto : MemProto :=
  ⟨⟨64, fun _ => 0⟩, [], ⟨fun _ => default, ⟨0, by decide⟩, 0, Nat.zero_le _⟩, 0, 0, 0, 0, 0, 0, none⟩

def pokeByte (rid : UInt16) (addr : UInt32) (v : UInt8) : Request :=
  .pokev rid [⟨addr, 1, [v], rfl⟩]

/-- Another write under the rid held is acknowledged and not performed. -/
theorem m64pHandle_repeat_not_performed : ∃ s₁ s₂ r₁ r₂,
    m64pHandle bareHooks bareProto (pokeByte 1 0 7).encode = .ok (some (s₁, r₁)) ∧
    m64pHandle bareHooks s₁ (pokeByte 1 4 9).encode = .ok (some (s₂, r₂)) ∧
    r₂ = listReply .pokeAck 1 1 [] ∧ s₂.ram.byte 4 = 0 ∧
    (perform bareHooks s₁ (pokeByte 1 4 9)).1.ram.byte 4 = 9 :=
  ⟨_, _, _, _, rfl, rfl, rfl, rfl, rfl⟩

end Multi64
