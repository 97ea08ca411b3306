import Multi64.Correlation
import Multi64.Lib.Line

/-! How often a write is stored: the agent's hold and the order of the copies
on the link keep it to one, as long as no copy goes out behind another
packet. -/

namespace Multi64

open World

section Agent

variable {h : Hooks} {s s' : MemProto} {p b : Bytes} {c : Cart}

theorem watchTickLoop_frame (i : Nat) (ws : List WatchSlot) (s : MemProto) :
    ∃ watch events dropped, watchTickLoop i ws s = { s with watch := watch, events := events, dropped := dropped } := by
  induction ws generalizing i s with
  | nil => exact ⟨_, _, _, rfl⟩
  | cons x ws ih =>
    rw [watchTickLoop]
    cases (watchSlotTick s.ram i x).2 with
    | none => exact ih (i + 1) { s with watch := s.watch.set i (watchSlotTick s.ram i x).1 }
    | some e => exact ih (i + 1) (watchPush { s with watch := s.watch.set i (watchSlotTick s.ram i x).1 } e)

/-- A payload without the magic is not answered. -/
theorem m64pHandle_not_ours (hm : p.take 4 ≠ m64pMagic) : m64pHandle h s p = .ok none := by
  have hd : m64pDispatch h s p = .ok none := by
    simp [m64pDispatch, hm, pure, Except.pure]
  have hserve : ∀ poke, m64pServe h s p poke = .ok none := fun poke => by
    simp only [m64pServe, hd, bind, Except.bind, pure, Except.pure]
  unfold m64pHandle
  split
  · exact hd
  · simp only [hm, decide_false, Bool.and_false]
    exact hserve false

/-- A repeat of the write held is acknowledged and nothing else. -/
theorem m64pHandle_repeats {rid : UInt16} {n : UInt8} (hr : Repeats h s p rid n) :
    m64pHandle h s p =
      .ok (some ({ s with requests := s.requests + 1 }, appHeader .pokeAck ++ putBe16 rid ++ [n])) := by
  obtain ⟨count, rest, hp⟩ := hr.poke
  have hrid : readBe16 p 5 = rid := by
    rw [hp]
    exact readBe16_poke.1
  have hpoke := poke_iff.mpr ⟨count, rest, by rw [hrid]; exact hp⟩
  have hlen := congrArg List.length hp
  simp only [List.length_append, appHeader_length, putBe16_length, List.length_cons] at hlen
  have hbytes : putBe16 rid = [byteAt p 5, byteAt p 6] := by rw [← hrid, readBe16, putBe16_be16]
  unfold m64pHandle
  simp only [hr.build, Bool.not_true, Bool.false_eq_true, if_false, hpoke, hr.held]
  rw [load16_eq (by omega), load8_eq (by omega), load8_eq (by omega)]
  simp only [bind, Except.bind, pure, Except.pure, hrid, if_true, hbytes, List.append_assoc, List.cons_append,
    List.nil_append]

/-- A write the agent takes for a repeat. -/
theorem Cart.holds_repeats (hm : p.take 4 = m64pMagic) (hlen : 8 ≤ p.length) (hp : isPoke p = true)
    (hh : c.holds p = true) : ∃ n, Repeats c.hooks c.agent p (readBe16 p 5) n := by
  have hb : c.hooks.pokeOnce = true ∧ c.agent.held.map Prod.fst = some (readBe16 p 5) := by
    simpa [Cart.holds] using hh
  obtain ⟨⟨rid, n⟩, hheld, hrid⟩ := Option.map_eq_some_iff.mp hb.2
  have hpoke := poke_iff.mp (show (decide (8 ≤ p.length) && decide (byteAt p 4 = M64pMsg.pokev.code) &&
    decide (p.take 4 = m64pMagic) : Bool) = true by
      rw [decide_eq_true hlen, decide_eq_true hm, show decide (byteAt p 4 = M64pMsg.pokev.code) = true from hp]
      rfl)
  simp only at hrid
  exact ⟨n, hb.1, by rw [hheld, hrid], hpoke⟩

/-- A request served in full is a write if and only if it says so. -/
theorem Request.isPoke_encode {r : Request} {rest : Bytes} (he : p = r.encode ++ rest) :
    isPoke p = true ↔ r.msg = .pokev := by
  rw [isPoke, decide_eq_true_eq, he, byteAt_encode]
  exact ⟨fun h => M64pMsg.code_inj h, fun h => by rw [h]⟩

/-- What serving a packet comes to in a build with the hold. -/
inductive Kept (c : Cart) (p : Bytes) (s' : MemProto) (b : Bytes) : Prop where
  | stored (hpoke : isPoke p = true) (hno : c.holds p = false) (hs : c.stores p s' = true)
      (hheld : s'.held.map Prod.fst = some (readBe16 p 5))
      (hram : ∃ rid rs rest, p = (Request.pokev rid rs).encode ++ rest ∧ s'.ram = c.agent.ram.writeAll rs)
  | repeated (hpoke : isPoke p = true) (hs : c.stores p s' = false) (hholds : c.holds p = true)
      (hheld : s'.held = c.agent.held) (hram : s'.ram = c.agent.ram)
  | dropped (hno : isPoke p = true → c.holds p = false) (hs : c.stores p s' = false) (hheld : s'.held = none)
      (hack : byteAt b 4 ≠ M64pMsg.pokeAck.code) (hram : s'.ram = c.agent.ram)

theorem cart_kept (hb : c.hooks.pokeOnce = true) (hlen : isPoke p = true → 8 ≤ p.length)
    (hout : m64pHandle c.hooks c.agent p = .ok (some (s', b))) : Kept c p s' b := by
  have hm : p.take 4 = m64pMagic := by
    by_cases hm : p.take 4 = m64pMagic
    · exact hm
    · cases (m64pHandle_not_ours hm).symm.trans hout
  by_cases hheld : isPoke p = true ∧ c.holds p = true
  · obtain ⟨hpoke, hholds⟩ := hheld
    obtain ⟨n, hr⟩ := c.holds_repeats hm (hlen hpoke) hpoke hholds
    have heq := (m64pHandle_repeats hr).symm.trans hout
    simp only [Except.ok.injEq, Option.some.injEq, Prod.mk.injEq] at heq
    obtain ⟨rfl, _⟩ := heq
    exact .repeated hpoke (by simp [Cart.stores, hholds]) hholds rfl rfl
  · have hno : isPoke p = true → c.holds p = false := fun hpoke => by
      cases hh : c.holds p with
      | false => rfl
      | true => exact absurd ⟨hpoke, hh⟩ hheld
    obtain ⟨out, hout', hh⟩ := m64pHandle_spec c.hooks c.agent p
    have heq : out = some (s', b) := Except.ok.inj (hout'.symm.trans hout)
    subst heq
    cases hh with
    | refused rid e hmsg hrid =>
      have hne : ¬ c.agent.errors + 1 = c.agent.errors := sendErr_errors c.agent rid e
      refine .dropped hno (by simp [Cart.stores, hne]) (if_pos hb) ?_ rfl
      rw [List.append_assoc, byteAt_header]
      exact fun heq => by cases M64pMsg.code_inj heq
    | repeated rid n hr =>
      obtain ⟨count, tail, hp⟩ := hr.poke
      have hpoke : isPoke p = true := by
        rw [hp, List.append_assoc]
        rfl
      have hrid : readBe16 p 5 = rid := by
        rw [hp]
        exact readBe16_poke.1
      exact absurd (hno hpoke) (by simp [Cart.holds, hr.build, hr.held, hrid])
    | performed r rest he hf hr =>
      have herr := perform_errors c.hooks c.agent r
      have hiff := Request.isPoke_encode he
      have hother : r.msg ≠ .pokev → c.stores p { (perform c.hooks c.agent r).1 with held := r.hold c.hooks c.agent.held } = false :=
        fun hne => by
          have hpoke : isPoke p = false := Bool.eq_false_iff.mpr fun hp => hne (hiff.mp hp)
          simp [Cart.stores, hpoke]
      cases r with
      | pokev rid rs =>
        have hpoke := hiff.mpr rfl
        have hrid : readBe16 p 5 = rid := by
          rw [he, Request.encode, encodeList, List.append_assoc, List.append_assoc, List.append_assoc]
          exact readBe16_header .pokev rid _
        refine .stored hpoke (hno hpoke) ?_ ?_ ⟨rid, rs, rest, he, rfl⟩
        · simp [Cart.stores, hpoke, hno hpoke, herr]
        · simp [Request.hold, hb, hrid]
      | peekv rid rs =>
        obtain ⟨events, hframe⟩ := peekTrailer_frame c.agent
          (listReply .peekvResp rid rs.length (peekReply c.agent.ram rs)).length
        refine .dropped hno (hother (by intro h; cases h)) (if_pos hb) ?_ (by simp only [perform, hframe])
        rw [perform_ack]
        exact fun heq => by cases M64pMsg.code_inj heq
      | _ =>
        refine .dropped hno (hother (by intro h; cases h)) (if_pos hb) ?_ rfl
        rw [perform_ack]
        exact fun heq => by cases M64pMsg.code_inj heq

end Agent

section Invariant

/-- The requests on the way to the cart, by tag, and the last one sent. -/
def World.line (w : World) : List Nat := w.toCart.map Sent.tag ++ [w.led.lastSent]

/-- Request `tag` was sent, as `b`. -/
structure World.Known (w : World) (tag : Nat) (b : Bytes) : Prop where
  pos : 0 < tag
  le : tag ≤ w.issued
  body : (w.led.issues tag).body = b
  names : Names b (w.led.issues tag).rid

def World.conns (w : World) : List Transport := w.t :: w.parked.toList

/-- What the line holds was sent, and the last one sent is at its end. -/
structure Lined (w : World) : Prop where
  sent : ∀ p ∈ w.toCart, p.tag = 0 ∧ isHello p.bytes = true ∨ w.Known p.tag p.bytes
  ends : ∀ p ∈ w.toCart.getLast?, p.tag = w.led.lastSent
  last : w.led.lastSent = 0 ∨ ∃ b, w.Known w.led.lastSent b
  out : ∀ t ∈ w.conns, ∀ o ∈ t.outstanding, w.Known o.ticket.tag o.app
  zero : (w.led.issues 0).body = []
  build : w.cart.hooks.pokeOnce = true

/-- The copies of a write stand together in the line, and a write that was
stored and is still in the line is first in it, and held. -/
structure Once (w : World) : Prop where
  line : ∀ n, isPoke (w.led.issues n).body = true → Together n w.line
  nodup : w.led.stored.Nodup
  stored : ∀ n ∈ w.led.stored, n ≤ w.issued ∧ isPoke (w.led.issues n).body = true
  held : ∀ n ∈ w.led.stored, n ∈ w.line → w.line.head? = some n ∧
    w.cart.agent.held.map Prod.fst = some (w.led.issues n).rid

def Single (w : World) : Prop :=
  w.led.terms.steady = true → Lined w ∧ (w.led.terms.copyClear = true → Once w)

end Invariant

section Single

variable {w w' : World}

theorem World.Known.remembered {tag : Nat} {b : Bytes} (h : w.Known tag b) (hr : Remembers w w') : w'.Known tag b := by
  obtain ⟨_, hrid, hbody⟩ := hr.old tag h.le
  have hne : (w.led.issues tag).body ≠ [] := by
    rw [h.body]
    exact h.names.ne_nil
  exact ⟨h.pos, Nat.le_trans h.le hr.issued, (hbody hne).trans h.body, hrid ▸ h.names⟩

theorem Lined.mem_line (hl : Lined w) {n : Nat} (hn : n ∈ w.line) : n = 0 ∨ ∃ b, w.Known n b := by
  rcases List.mem_append.mp hn with hn | hn
  · obtain ⟨p, hp, rfl⟩ := List.mem_map.mp hn
    exact (hl.sent p hp).imp And.left fun hk => ⟨_, hk⟩
  · cases List.mem_singleton.mp hn
    exact hl.last

theorem isPoke_nil : isPoke [] = false := rfl

/-- A write in the line has been sent. -/
theorem Lined.known (hl : Lined w) {n : Nat} (hn : n ∈ w.line) (hp : isPoke (w.led.issues n).body = true) :
    ∃ b, w.Known n b := by
  rcases hl.mem_line hn with rfl | hk
  · rw [hl.zero, isPoke_nil] at hp
    exact nomatch hp
  · exact hk

/-- The requests `w'` may still copy early are those of `w`. -/
def Asking (w w' : World) : Prop :=
  ∀ t' ∈ w'.conns, ∀ o' ∈ t'.outstanding, ∃ t ∈ w.conns, ∃ o ∈ t.outstanding, o.ticket = o'.ticket ∧ o.app = o'.app

/-- As far as the line of requests goes, `w'` is `w`. -/
structure SameLine (w w' : World) : Prop where
  toCart : w'.toCart = w.toCart
  lastSent : w'.led.lastSent = w.led.lastSent
  issued : w'.issued = w.issued
  issues : w'.led.issues = w.led.issues
  stored : w'.led.stored = w.led.stored
  hooks : w'.cart.hooks = w.cart.hooks
  held : w'.cart.agent.held = w.cart.agent.held
  asking : Asking w w'
  steady : w'.led.terms.steady = w.led.terms.steady
  copyClear : w'.led.terms.copyClear = w.led.terms.copyClear

theorem SameLine.remembers (h : SameLine w w') : Remembers w w' := remembers_same h.issued h.issues

theorem SameLine.line (h : SameLine w w') : w'.line = w.line := by
  unfold World.line
  rw [h.toCart, h.lastSent]

theorem Lined.asked (hl : Lined w) (hr : Remembers w w') (ha : Asking w w') :
    ∀ t ∈ w'.conns, ∀ o ∈ t.outstanding, w'.Known o.ticket.tag o.app := by
  intro t' ht' o' ho'
  obtain ⟨t, ht, o, ho, hticket, happ⟩ := ha t' ht' o' ho'
  rw [← hticket, ← happ]
  exact (hl.out t ht o ho).remembered hr

theorem Lined.same (hl : Lined w) (h : SameLine w w') : Lined w' := by
  have hr := h.remembers
  refine ⟨fun p hp => ?_, ?_, ?_, hl.asked hr h.asking, ?_, ?_⟩
  · rw [h.toCart] at hp
    exact (hl.sent p hp).imp id fun hk => hk.remembered hr
  · rw [h.toCart, h.lastSent]
    exact hl.ends
  · rw [h.lastSent]
    exact hl.last.imp id fun ⟨b, hk⟩ => ⟨b, hk.remembered hr⟩
  · rw [h.issues]
    exact hl.zero
  · rw [h.hooks]
    exact hl.build

theorem Once.same (ho : Once w) (h : SameLine w w') : Once w' := by
  refine ⟨?_, ?_, ?_, ?_⟩
  · rw [h.issues, h.line]
    exact ho.line
  · rw [h.stored]
    exact ho.nodup
  · rw [h.stored, h.issued, h.issues]
    exact ho.stored
  · rw [h.stored, h.line, h.held, h.issues]
    exact ho.held

theorem Single.same (hs : Single w) (h : SameLine w w') : Single w' := by
  intro hsteady
  rw [h.steady] at hsteady
  obtain ⟨hl, ho⟩ := hs hsteady
  refine ⟨hl.same h, fun hclear => ?_⟩
  rw [h.copyClear] at hclear
  exact (ho hclear).same h

/-- The oldest request is gone; what it left of the hold and of what was
stored is not said. -/
structure Popped (p : Sent) (w w' : World) : Prop where
  toCart : w.toCart = p :: w'.toCart
  lastSent : w'.led.lastSent = w.led.lastSent
  issued : w'.issued = w.issued
  issues : w'.led.issues = w.led.issues
  hooks : w'.cart.hooks = w.cart.hooks
  conns : w'.conns = w.conns
  steady : w'.led.terms.steady = w.led.terms.steady
  copyClear : w'.led.terms.copyClear = w.led.terms.copyClear

variable {p : Sent}

theorem Popped.line (h : Popped p w w') : w.line = p.tag :: w'.line := by
  unfold World.line
  rw [h.toCart, h.lastSent, List.map_cons, List.cons_append]

theorem Lined.popped (hl : Lined w) (h : Popped p w w') : Lined w' := by
  have hr := remembers_same h.issued h.issues
  refine ⟨fun q hq => ?_, fun q hq => ?_, ?_, hl.asked hr fun t ht o ho => ?_, ?_, ?_⟩
  · have hmem : q ∈ w.toCart := by
      rw [h.toCart]
      exact List.mem_cons_of_mem _ hq
    exact (hl.sent q hmem).imp id fun hk => hk.remembered hr
  · rw [h.lastSent]
    refine hl.ends q ?_
    rw [h.toCart]
    cases hrest : w'.toCart with
    | nil =>
      rw [hrest] at hq
      exact nomatch hq
    | cons x rest => rwa [List.getLast?_cons_cons, ← hrest]
  · rw [h.lastSent]
    exact hl.last.imp id fun ⟨b, hk⟩ => ⟨b, hk.remembered hr⟩
  · rw [h.conns] at ht
    exact ⟨t, ht, o, ho, rfl, rfl⟩
  · rw [h.issues]
    exact hl.zero
  · rw [h.hooks]
    exact hl.build

theorem Once.together (ho : Once w) (h : Popped p w w') :
    ∀ n, isPoke (w'.led.issues n).body = true → Together n w'.line := by
  intro n hn
  rw [h.issues] at hn
  have ht := ho.line n hn
  rw [h.line] at ht
  exact ht.sublist (List.sublist_cons_self _ _)

/-- The write at the head of the line stays there if it is copied. -/
theorem Once.next (ho : Once w) (h : Popped p w w') {n : Nat} (hn : n ∈ w.led.stored) (hline : n ∈ w'.line) :
    n = p.tag ∧ w'.line.head? = some n ∧ w.cart.agent.held.map Prod.fst = some (w.led.issues n).rid := by
  have hmem : n ∈ w.line := by
    rw [h.line]
    exact List.mem_cons_of_mem _ hline
  obtain ⟨hhead, hheld⟩ := ho.held n hn hmem
  rw [h.line, List.head?_cons, Option.some.injEq] at hhead
  subst hhead
  have ht := ho.line _ (ho.stored _ hn).2
  rw [h.line] at ht
  exact ⟨rfl, ht.head hline, hheld⟩

theorem Once.lost (ho : Once w) (h : Popped p w w') (hstored : w'.led.stored = w.led.stored)
    (hheld : w'.cart.agent.held = w.cart.agent.held) : Once w' := by
  refine ⟨ho.together h, ?_, ?_, fun n hn hline => ?_⟩
  · rw [hstored]
    exact ho.nodup
  · rw [hstored, h.issued, h.issues]
    exact ho.stored
  · rw [hstored] at hn
    obtain ⟨_, hhead, hkept⟩ := ho.next h hn hline
    rw [hheld, h.issues]
    exact ⟨hhead, hkept⟩

/-- A write in the line goes by its body and its rid. -/
theorem Lined.poke (hl : Lined w) (hp : p ∈ w.toCart) (hpoke : isPoke p.bytes = true) : w.Known p.tag p.bytes := by
  rcases hl.sent p hp with ⟨_, hhello⟩ | hk
  · have h1 : byteAt p.bytes 4 = M64pMsg.hello.code := of_decide_eq_true hhello
    have h2 : byteAt p.bytes 4 = M64pMsg.pokev.code := of_decide_eq_true hpoke
    exact nomatch M64pMsg.code_inj (h1.symm.trans h2)
  · exact hk

theorem Lined.holds (hl : Lined w) {tag : Nat} {b : Bytes} (hk : w.Known tag b) :
    w.cart.holds b = true ↔ w.cart.agent.held.map Prod.fst = some (w.led.issues tag).rid := by
  rw [Cart.holds, hl.build, Bool.true_and, decide_eq_true_eq, hk.names.rid]

/-- The agent served the request at the head of the line. -/
theorem Once.served (ho : Once w) (hl : Lined w) (h : Popped p w w') {s' : MemProto} {b : Bytes}
    (hk : Kept w.cart p.bytes s' b) (hagent : w'.cart.agent = s')
    (hstored : w'.led.stored = if w.cart.stores p.bytes s' then p.tag :: w.led.stored else w.led.stored) :
    Once w' := by
  have hmem : p ∈ w.toCart := by
    rw [h.toCart]
    exact List.mem_cons_self
  subst hagent
  cases hk with
  | stored hpoke hno hs hheld hram =>
    have hknown := hl.poke hmem hpoke
    have hnot : p.tag ∉ w.led.stored := by
      intro hin
      have hline : p.tag ∈ w.line := by
        rw [h.line]
        exact List.mem_cons_self
      have hyes := (hl.holds hknown).mpr (ho.held _ hin hline).2
      exact absurd hyes (by rw [hno]; exact Bool.false_ne_true)
    rw [hs, if_pos rfl] at hstored
    have hbody : isPoke (w.led.issues p.tag).body = true := by
      rw [hknown.body]
      exact hpoke
    refine ⟨ho.together h, ?_, fun n hn => ?_, fun n hn hline => ?_⟩
    · rw [hstored]
      exact List.nodup_cons.mpr ⟨hnot, ho.nodup⟩
    · rw [h.issued, h.issues]
      rw [hstored] at hn
      rcases List.mem_cons.mp hn with rfl | hn
      · exact ⟨hknown.le, hbody⟩
      · exact ho.stored n hn
    · rw [hstored] at hn
      rw [h.issues]
      rcases List.mem_cons.mp hn with rfl | hn
      · have ht := ho.line _ hbody
        rw [h.line] at ht
        exact ⟨ht.head hline, hheld.trans (congrArg some hknown.names.rid)⟩
      · exact absurd ((ho.next h hn hline).1 ▸ hn) hnot
  | repeated hpoke hs hholds hheld hram =>
    rw [hs, if_neg Bool.false_ne_true] at hstored
    exact ho.lost h hstored hheld
  | dropped hno hs hheld hack hram =>
    rw [hs, if_neg Bool.false_ne_true] at hstored
    refine ⟨ho.together h, ?_, ?_, fun n hn hline => ?_⟩
    · rw [hstored]
      exact ho.nodup
    · rw [hstored, h.issued, h.issues]
      exact ho.stored
    · rw [hstored] at hn
      obtain ⟨heq, _, hkept⟩ := ho.next h hn hline
      subst heq
      have hpoke := (ho.stored _ hn).2
      have hknown : w.Known p.tag p.bytes := by
        rcases hl.sent p hmem with ⟨hzero, _⟩ | hknown
        · rw [hzero, hl.zero, isPoke_nil] at hpoke
          exact nomatch hpoke
        · exact hknown
      rw [hknown.body] at hpoke
      exact absurd ((hl.holds hknown).mpr hkept) (by rw [hno hpoke]; exact Bool.false_ne_true)

theorem Single.serve (hs : Single w) : Single w.serve := by
  intro hsteady
  rcases serve_cases w with h | ⟨p, rest, hcart, h | ⟨s', b, hout, h⟩⟩
  · rw [h] at hsteady ⊢
    exact hs hsteady
  · rw [h] at hsteady ⊢
    obtain ⟨hl, ho⟩ := hs hsteady
    have hpop : Popped p w { w with toCart := rest } := ⟨hcart, rfl, rfl, rfl, rfl, rfl, rfl, rfl⟩
    exact ⟨hl.popped hpop, fun hclear => (ho hclear).lost hpop rfl rfl⟩
  · rw [h] at hsteady ⊢
    obtain ⟨hl, ho⟩ := hs hsteady
    have hpop : Popped p w (w.answer p s' b) := by
      refine ⟨?_, rfl, rfl, rfl, rfl, rfl, rfl, rfl⟩
      simp only [World.answer, hcart, List.tail_cons]
    refine ⟨hl.popped hpop, fun hclear => (ho hclear).served hl hpop (cart_kept hl.build (fun hpoke => ?_) hout) rfl rfl⟩
    exact (hl.poke (by rw [hcart]; exact List.mem_cons_self) hpoke).names.length

theorem Single.loseRequest (hs : Single w) : Single (w.happen .loseRequest) := by
  intro hsteady
  obtain ⟨hl, ho⟩ := hs hsteady
  cases hcart : w.toCart with
  | nil =>
    have hsame : SameLine w (w.happen .loseRequest) :=
      ⟨by simp only [World.happen, hcart, List.tail_nil], rfl, rfl, rfl, rfl, rfl, rfl,
        fun t ht o ho => ⟨t, ht, o, ho, rfl, rfl⟩, rfl, rfl⟩
    exact hs.same hsame hsteady
  | cons p rest =>
    have hpop : Popped p w (w.happen .loseRequest) :=
      ⟨by simp only [World.happen, hcart, List.tail_cons], rfl, rfl, rfl, rfl, rfl, rfl, rfl⟩
    exact ⟨hl.popped hpop, fun hclear => (ho hclear).lost hpop rfl rfl⟩

/-- A packet went out. -/
structure Pushed (q : Sent) (w w' : World) : Prop extends Remembers w w' where
  toCart : w'.toCart = w.toCart ++ [q]
  lastSent : w'.led.lastSent = q.tag
  bodies : ∀ n, n ≠ q.tag ∨ n = 0 → (w'.led.issues n).body = (w.led.issues n).body
  stored : w'.led.stored = w.led.stored
  hooks : w'.cart.hooks = w.cart.hooks
  held : w'.cart.agent.held = w.cart.agent.held

variable {q : Sent}

theorem Pushed.line (h : Pushed q w w') : w'.line = w.toCart.map Sent.tag ++ [q.tag] ++ [q.tag] := by
  unfold World.line
  rw [h.toCart, h.lastSent, List.map_append, List.map_cons, List.map_nil]

theorem Lined.pushed (hl : Lined w) (h : Pushed q w w')
    (hq : q.tag = 0 ∧ isHello q.bytes = true ∨ w'.Known q.tag q.bytes)
    (hout : ∀ t ∈ w'.conns, ∀ o ∈ t.outstanding, w'.Known o.ticket.tag o.app) : Lined w' := by
  refine ⟨fun p hp => ?_, fun p hp => ?_, ?_, hout, ?_, ?_⟩
  · rw [h.toCart] at hp
    rcases List.mem_append.mp hp with hp | hp
    · exact (hl.sent p hp).imp id fun hk => hk.remembered h.toRemembers
    · cases List.mem_singleton.mp hp
      exact hq
  · rw [h.toCart, List.getLast?_concat] at hp
    cases hp
    exact h.lastSent.symm
  · rw [h.lastSent]
    exact hq.imp And.left fun hk => ⟨_, hk⟩
  · rw [h.bodies 0 (.inr rfl)]
    exact hl.zero
  · rw [h.hooks]
    exact hl.build

theorem Once.pushed (ho : Once w) (hl : Lined w) (h : Pushed q w w')
    (hq : isPoke (w'.led.issues q.tag).body = true → w.led.lastSent = q.tag ∨
      q.tag ∉ w.toCart.map Sent.tag ∧ q.tag ∉ w.led.stored) : Once w' := by
  have hline : w.line = w.toCart.map Sent.tag ++ [w.led.lastSent] := rfl
  refine ⟨fun n hn => ?_, ?_, fun n hn => ?_, fun n hn hin => ?_⟩
  · rw [h.line]
    by_cases hne : n = q.tag
    · subst hne
      rcases hq hn with hlast | ⟨hnot, _⟩
      · by_cases hold : isPoke (w.led.issues q.tag).body = true
        · have ht := ho.line _ hold
          rw [hline, hlast] at ht
          exact ht.push_same
        · have hnot : q.tag ∉ w.toCart.map Sent.tag := by
            intro hmem
            obtain ⟨b, hk⟩ : ∃ b, w.Known q.tag b := by
              rcases hl.mem_line (List.mem_append_left _ hmem) with hzero | hk
              · rw [hzero, h.bodies 0 (.inr rfl), hl.zero, isPoke_nil] at hn
                exact nomatch hn
              · exact hk
            have hsame := (hk.remembered h.toRemembers).body.trans hk.body.symm
            rw [hsame] at hn
            exact hold hn
          exact .push_new hnot
      · exact .push_new hnot
    · rw [h.bodies n (.inl hne)] at hn
      have ht := ho.line n hn
      rw [hline] at ht
      exact ((ht.sublist (List.sublist_append_left _ _)).push_other hne).push_other hne
  · rw [h.stored]
    exact ho.nodup
  · rw [h.stored] at hn
    obtain ⟨hle, hpoke⟩ := ho.stored n hn
    refine ⟨Nat.le_trans hle h.issued, ?_⟩
    have hne : (w.led.issues n).body ≠ [] := by
      intro hnil
      rw [hnil, isPoke_nil] at hpoke
      exact nomatch hpoke
    rw [(h.old n hle).2.2 hne]
    exact hpoke
  · rw [h.stored] at hn
    obtain ⟨hle, hpoke⟩ := ho.stored n hn
    have hbody : (w'.led.issues n).body = (w.led.issues n).body := by
      refine (h.old n hle).2.2 fun hnil => ?_
      rw [hnil, isPoke_nil] at hpoke
      exact nomatch hpoke
    -- What is in the line now and was stored was in it before.
    have hold : n ∈ w.line ∧ (w.toCart = [] → n = q.tag) := by
      rw [h.line, List.append_assoc] at hin
      rcases List.mem_append.mp hin with hin | hin
      · refine ⟨List.mem_append_left _ hin, fun hnil => ?_⟩
        rw [hnil] at hin
        exact nomatch hin
      · have heq : n = q.tag := by simpa using hin
        subst heq
        rw [← hbody] at hpoke
        rcases hq hpoke with hlast | ⟨_, hnot⟩
        · refine ⟨?_, fun _ => rfl⟩
          rw [hline, hlast]
          exact List.mem_append_right _ List.mem_cons_self
        · exact absurd hn hnot
    obtain ⟨hhead, hheld⟩ := ho.held n hn hold.1
    refine ⟨?_, ?_⟩
    · rw [h.line, List.append_assoc]
      cases hcart : w.toCart with
      | nil => rw [hold.2 hcart]; rfl
      | cons x rest =>
        rw [hline, hcart] at hhead
        exact hhead
    · rw [h.held, (h.old n hle).2.1]
      exact hheld

theorem Single.issue (hs : Single w) : Single w.issue := by
  intro hsteady
  obtain ⟨hl, ho⟩ := hs hsteady
  have hold : ∀ tag ≤ w.issued, w.issue.led.issues tag = w.led.issues tag := fun tag hle =>
    Function.update_of_ne (by omega) ..
  have hr : Remembers w w.issue := (Op.issue w).grows.toRemembers
  have hzero : (w.issue.led.issues 0).body = [] := by
    rw [hold 0 (Nat.zero_le _)]
    exact hl.zero
  refine ⟨⟨fun p hp => (hl.sent p hp).imp id fun hk => hk.remembered hr, hl.ends,
    hl.last.imp id fun ⟨b, hk⟩ => ⟨b, hk.remembered hr⟩, ?_, hzero, hl.build⟩, fun hclear => ?_⟩
  · exact hl.asked hr fun t ht o ho => by
      rcases List.mem_cons.mp ht with rfl | ht
      · exact ⟨w.t, List.mem_cons_self, o, ho, rfl, rfl⟩
      · exact ⟨t, List.mem_cons_of_mem _ ht, o, ho, rfl, rfl⟩
  · have ho := ho hclear
    have hlast : w.issue.led.issues (w.issued + 1) = ⟨w.t.base, w.t.nextRid, []⟩ := Function.update_self ..
    have hself : (w.issue.led.issues (w.issued + 1)).body = [] := congrArg Issue.body hlast
    refine ⟨fun n hn => ?_, ho.nodup, fun n hn => ?_, fun n hn hline => ?_⟩
    · by_cases hle : n = w.issued + 1
      · rw [hle, hself, isPoke_nil] at hn
        exact nomatch hn
      · have hsame : w.issue.led.issues n = w.led.issues n := Function.update_of_ne hle ..
        rw [hsame] at hn
        exact ho.line n hn
    · obtain ⟨hle, hpoke⟩ := ho.stored n hn
      rw [hold n hle]
      exact ⟨Nat.le_succ_of_le hle, hpoke⟩
    · rw [hold n (ho.stored n hn).1]
      exact ho.held n hn hline

theorem Single.send (hs : Single w) {k : Ticket} {app : Bytes} (mayCopy : Bool) (hk : w.Unsent k)
    (hn : Names app k.rid) : Single (w.send k app mayCopy) := by
  intro hsteady
  obtain ⟨hl, ho⟩ := hs hsteady
  have hasked := Transport.send_asked app mayCopy hk
  have hr : Remembers w (w.send k app mayCopy) := (Op.send w k app mayCopy hk hn).grows.toRemembers
  have hpos : k.tag ≠ 0 := hk.pos.ne'
  have hpush : Pushed ⟨k.tag, app⟩ w (w.send k app mayCopy) :=
    ⟨hr, rfl, rfl, fun n hne => by
      have hne' : n ≠ k.tag := hne.elim id fun hzero heq => hpos (heq.symm.trans hzero)
      exact congrArg Issue.body (Function.update_of_ne hne' ..), rfl, rfl, rfl⟩
  have hknown : (w.send k app mayCopy).Known k.tag app :=
    ⟨hk.pos, hk.le, hasked.body, by rw [hasked.rid]; exact hn⟩
  refine ⟨hl.pushed hpush (.inr hknown) fun t ht o ho => ?_, fun hclear => (ho hclear).pushed hl hpush fun _ => .inr ?_⟩
  · rcases List.mem_cons.mp ht with rfl | ht
    · cases ho
      exact hknown
    · exact (hl.out t (List.mem_cons_of_mem _ ht) o ho).remembered hr
  · -- Nothing was sent for `k` yet.
    refine ⟨fun hmem => ?_, fun hmem => ?_⟩
    · rcases hl.mem_line (List.mem_append_left _ hmem) with hzero | ⟨b, hb⟩
      · exact hpos hzero
      · exact hb.names.ne_nil (hb.body.symm.trans hk.body)
    · have hpoke := ((ho hclear).stored _ hmem).2
      rw [show (w.led.issues k.tag).body = [] from hk.body, isPoke_nil] at hpoke
      exact nomatch hpoke

theorem Single.copy (hs : Single w) {k : Ticket} {app : Bytes} (hk : Lined w → w.Known k.tag app) :
    Single (w.copy k app) := by
  intro hsteady
  obtain ⟨hl, ho⟩ := hs hsteady
  have hknown := hk hl
  have hr : Remembers w (w.copy k app) := remembers_same rfl rfl
  have hpush : Pushed ⟨k.tag, app⟩ w (w.copy k app) := ⟨hr, rfl, rfl, fun _ _ => rfl, rfl, rfl, rfl⟩
  refine ⟨hl.pushed hpush (.inr (hknown.remembered hr)) (hl.asked hr fun t ht o ho => ⟨t, ht, o, ho, rfl, rfl⟩),
    fun hclear => ?_⟩
  obtain ⟨hclear, hlast⟩ := Bool.and_eq_true_iff.mp hclear
  refine (ho hclear).pushed hl hpush fun hpoke => .inl ?_
  have happ : isPoke app = true := by
    rw [← hknown.body]
    exact hpoke
  rw [happ] at hlast
  exact of_decide_eq_true (by simpa using hlast)

theorem Single.sendHello (hs : Single w) : Single w.sendHello := by
  intro hsteady
  obtain ⟨hl, ho⟩ := hs hsteady
  have hr : Remembers w w.sendHello := remembers_same rfl rfl
  have hpush : Pushed ⟨0, encodeHello⟩ w w.sendHello := ⟨hr, rfl, rfl, fun _ _ => rfl, rfl, rfl, rfl⟩
  refine ⟨hl.pushed hpush (.inl ⟨rfl, rfl⟩) (hl.asked hr fun t ht o ho => ⟨t, ht, o, ho, rfl, rfl⟩),
    fun hclear => (ho hclear).pushed hl hpush fun hpoke => ?_⟩
  rw [show (w.sendHello.led.issues 0).body = [] from hl.zero, isPoke_nil] at hpoke
  exact nomatch hpoke

theorem Single.passes (hs : Single w) (h : Passes w w') : Single w' := by
  have hkeep : ∀ {w' : World}, SameLine w w' → Single w' := hs.same
  cases h with
  | pop => exact hkeep ⟨rfl, rfl, rfl, rfl, rfl, rfl, rfl, fun t ht o ho => ⟨t, ht, o, ho, rfl, rfl⟩, rfl, rfl⟩
  | happen e =>
    cases e with
    | serve => exact hs.serve
    | loseRequest => exact hs.loseRequest
    | reset rom ram => exact nofun
    | frame byte =>
      refine hkeep ?_
      show SameLine w (w.frame byte)
      unfold World.frame
      split
      · obtain ⟨watch, events, dropped, hframe⟩ := watchTickLoop_frame 0 w.cart.agent.watch
          { w.cart.agent with ram := { w.cart.agent.ram with byte := byte } }
        refine ⟨rfl, rfl, rfl, rfl, rfl, rfl, ?_, fun t ht o ho => ⟨t, ht, o, ho, rfl, rfl⟩, rfl, rfl⟩
        simp only [m64pWatchTick, hframe]
      · exact ⟨rfl, rfl, rfl, rfl, rfl, rfl, rfl, fun t ht o ho => ⟨t, ht, o, ho, rfl, rfl⟩, rfl, rfl⟩
    | deliver =>
      refine hkeep ?_
      show SameLine w w.deliver
      unfold World.deliver
      split
      · exact ⟨rfl, rfl, rfl, rfl, rfl, rfl, rfl, fun t ht o ho => ⟨t, ht, o, ho, rfl, rfl⟩, rfl, rfl⟩
      · refine ⟨rfl, rfl, rfl, rfl, rfl, rfl, rfl, fun t ht o ho => ?_, rfl, rfl⟩
        rcases List.mem_cons.mp ht with rfl | ht
        · exact ⟨w.t, List.mem_cons_self, o, ho, rfl, rfl⟩
        · obtain ⟨t₀, ht₀, rfl⟩ := Option.mem_map.mp (Option.mem_toList.mp ht)
          exact ⟨t₀, List.mem_cons_of_mem _ (Option.mem_toList.mpr ht₀), o, ho, rfl, rfl⟩
    | _ => exact hkeep ⟨rfl, rfl, rfl, rfl, rfl, rfl, rfl, fun t ht o ho => ⟨t, ht, o, ho, rfl, rfl⟩, rfl, rfl⟩

theorem asking_conn (hparked : w'.parked = w.parked)
    (h : ∀ o' ∈ w'.t.outstanding, ∃ o ∈ w.t.outstanding, o.ticket = o'.ticket ∧ o.app = o'.app) : Asking w w' := by
  intro t ht o ho
  rcases List.mem_cons.mp ht with rfl | ht
  · obtain ⟨o', ho', hsame⟩ := h o ho
    exact ⟨w.t, List.mem_cons_self, o', ho', hsame⟩
  · rw [hparked] at ht
    exact ⟨t, List.mem_cons_of_mem _ ht, o, ho, rfl, rfl⟩

theorem read_line (w : World) (want : Want) : SameLine w (w.read want) := by
  have hdrop : ∀ o' ∈ w.t.outstanding, ∃ o ∈ w.t.outstanding, o.ticket = o'.ticket ∧ o.app = o'.app :=
    fun o ho => ⟨o, ho, rfl, rfl⟩
  unfold World.read
  split
  · exact ⟨rfl, rfl, rfl, rfl, rfl, rfl, rfl, asking_conn rfl hdrop, rfl, rfl⟩
  · split
    · exact ⟨rfl, rfl, rfl, rfl, rfl, rfl, rfl, asking_conn rfl hdrop, rfl, rfl⟩
    next r rest hbox resp hp =>
      simp only
      split
      · cases want with
        | hello => exact ⟨rfl, rfl, rfl, rfl, rfl, rfl, rfl, asking_conn rfl hdrop, rfl, rfl⟩
        | rid k =>
          exact ⟨rfl, rfl, rfl, rfl, rfl, rfl, rfl, asking_conn rfl (answered_same _ k).out, rfl, rfl⟩
      · exact ⟨rfl, rfl, rfl, rfl, rfl, rfl, rfl, asking_conn rfl hdrop, rfl, rfl⟩

theorem Single.op (hs : Single w) (h : Op w w') : Single w' := by
  have hdrop : ∀ o' ∈ w.t.outstanding, ∃ o ∈ w.t.outstanding, o.ticket = o'.ticket ∧ o.app = o'.app :=
    fun o ho => ⟨o, ho, rfl, rfl⟩
  cases h with
  | passes h => exact hs.passes h
  | read k hk => exact hs.same (read_line w _)
  | issue => exact hs.issue
  | send k app mayCopy hk hn => exact hs.send mayCopy hk hn
  | copy k app hk hn => exact hs.copy fun _ => ⟨hk.pos, hk.le, hk.body, hk.rid.symm ▸ hn⟩
  | copyOutstanding =>
    unfold World.copyOutstanding
    cases ho : w.t.outstanding with
    | none => exact hs
    | some o => exact hs.copy fun hl => hl.out w.t List.mem_cons_self o ho
  | markCopied =>
    refine hs.same ⟨rfl, rfl, rfl, rfl, rfl, rfl, rfl, asking_conn rfl fun o' ho' => ?_, rfl, rfl⟩
    obtain ⟨o, ho, rfl⟩ := Option.map_eq_some_iff.mp ho'
    exact ⟨o, ho, rfl, rfl⟩
  | _ => exact hs.same ⟨rfl, rfl, rfl, rfl, rfl, rfl, rfl, asking_conn rfl hdrop, rfl, rfl⟩

theorem Single.step (hs : Single w) (h : Step w w') : Single w' := by
  have hdrop : ∀ o' ∈ w.t.outstanding, ∃ o ∈ w.t.outstanding, o.ticket = o'.ticket ∧ o.app = o'.app :=
    fun o ho => ⟨o, ho, rfl, rfl⟩
  cases h with
  | passes h => exact hs.passes h
  | op h _ => exact hs.op h
  | own h _ =>
    cases h <;> exact hs.same ⟨rfl, rfl, rfl, rfl, rfl, rfl, rfl, asking_conn rfl hdrop, rfl, rfl⟩
  | greeting h =>
    cases h with
    | sendHello _ => exact hs.sendHello
    | read _ => exact hs.same (read_line w _)
    | greeted _ _ _ _ _ _ => exact hs.same ⟨rfl, rfl, rfl, rfl, rfl, rfl, rfl, asking_conn rfl hdrop, rfl, rfl⟩
    | greet _ =>
      refine hs.same ⟨rfl, rfl, rfl, rfl, rfl, rfl, rfl, fun t ht o ho => ?_, rfl, rfl⟩
      rcases List.mem_cons.mp ht with rfl | ht
      · exact nomatch ho
      · cases List.mem_singleton.mp ht
        exact ⟨w.t, List.mem_cons_self, o, ho, rfl, rfl⟩
    | keep _ =>
      refine hs.same ⟨rfl, rfl, rfl, rfl, rfl, rfl, rfl, fun t ht o ho => ?_, rfl, rfl⟩
      rw [List.mem_singleton.mp ht] at ho
      exact ⟨w.t, List.mem_cons_self, o, ho, rfl, rfl⟩
    | restore _ =>
      refine hs.same ⟨rfl, rfl, rfl, rfl, rfl, rfl, rfl, fun t ht o ho => ?_, rfl, rfl⟩
      rw [List.mem_singleton.mp ht] at ho
      cases hparked : w.parked with
      | none =>
        rw [World.restore, hparked] at ho
        exact ⟨w.t, List.mem_cons_self, o, ho, rfl, rfl⟩
      | some t' =>
        rw [World.restore, hparked] at ho
        exact ⟨t', by simp [World.conns, hparked], o, ho, rfl, rfl⟩

end Single

section Acknowledged

variable {w w' : World} {p q : Sent}

/-- A reply that acknowledges a write. -/
def Reply.Acks (r : Reply) : Prop := byteAt r.bytes 4 = M64pMsg.pokeAck.code

def World.replies (w : World) : List Reply := w.toHost ++ w.conns.flatMap Transport.inbox

/-- What an acknowledgement rests on: every one on its way or read is of a
write that was stored, and so is every write in the line whose rid is held. -/
structure Truthful (w : World) : Prop where
  line : ∀ n ∈ w.line, isPoke (w.led.issues n).body = true →
    w.cart.agent.held.map Prod.fst = some (w.led.issues n).rid → n ∈ w.led.stored
  replies : ∀ r ∈ w.replies, r.Acks → r.tag ∈ w.led.stored
  accepted : ∀ a ∈ w.led.accepted, a.reply.Acks → a.reply.tag ∈ w.led.stored
  acked : ∀ n ∈ w.led.acked, n ∈ w.led.stored

structure Terms.Sound (t : Terms) : Prop where
  steady : t.steady = true
  helloClear : t.helloClear = true
  window : t.window = true
  copyClear : t.copyClear = true
  holdFresh : t.holdFresh = true

def Told (w : World) : Prop := w.led.terms.Sound → Truthful w

/-- As far as acknowledgements go, `w'` is `w`. -/
structure SameAcks (w w' : World) : Prop where
  line : SameLine w w'
  replies : ∀ r ∈ w'.replies, r ∈ w.replies
  accepted : ∀ a ∈ w'.led.accepted, a ∈ w.led.accepted ∨ a.reply ∈ w.replies
  acked : w'.led.acked = w.led.acked
  sound : w'.led.terms.Sound → w.led.terms.Sound

theorem Told.same (ht : Told w) (h : SameAcks w w') : Told w' := by
  intro hsound
  have htrue := ht (h.sound hsound)
  have hl := h.line
  refine ⟨?_, fun r hr => ?_, fun a ha => ?_, ?_⟩
  · rw [hl.line, hl.issues, hl.held, hl.stored]
    exact htrue.line
  · rw [hl.stored]
    exact htrue.replies r (h.replies r hr)
  · rw [hl.stored]
    exact (h.accepted a ha).elim (htrue.accepted a) (htrue.replies _)
  · rw [h.acked, hl.stored]
    exact htrue.acked

/-- Two writes in the line under one rid are the same. -/
theorem Linked.tag_inj (hl : Linked w) (hp : p ∈ w.toCart) (hq : q ∈ w.toCart) (hpk : isHello p.bytes = false)
    (hqk : isHello q.bytes = false) (h : (w.led.issues p.tag).rid = (w.led.issues q.tag).rid) : p.tag = q.tag := by
  have ht : ∃ t, Tracked w t := by
    by_cases hup : w.led.stage = .up
    · exact ⟨_, hl.up hup⟩
    · obtain ⟨t, _, ht⟩ := hl.parked hup
      exact ⟨t, ht⟩
  obtain ⟨t, ht⟩ := ht
  obtain ⟨hpc, _⟩ := (ht.sent p hp).resolve_left (by rw [hpk]; exact Bool.false_ne_true)
  obtain ⟨hqc, _⟩ := (ht.sent q hq).resolve_left (by rw [hqk]; exact Bool.false_ne_true)
  have hpb := hpc.base
  have hqb := hqc.base
  have hpl := hpc.le
  have hql := hqc.le
  have hpw := hpc.window
  have hqw := hqc.window
  rw [ht.rids _ hpb hpl, ht.rids _ hqb hql] at h
  have heq := ridAt_inj (by omega) (by omega) (by omega) (by omega) h
  omega

/-- With a packet on the way, the last one sent is on the way. -/
theorem Lined.mem_toCart (hl : Lined w) (hp : p ∈ w.toCart) {n : Nat} (hn : n ∈ w.line) :
    ∃ q ∈ w.toCart, q.tag = n := by
  rcases List.mem_append.mp hn with hn | hn
  · exact List.mem_map.mp hn
  · cases List.mem_singleton.mp hn
    have hne : w.toCart ≠ [] := List.ne_nil_of_mem hp
    exact ⟨_, List.getLast_mem hne, hl.ends _ (List.getLast?_eq_some_getLast hne)⟩

theorem Truthful.popped (ht : Truthful w) (h : Popped p w w') (hstored : w'.led.stored = w.led.stored)
    (hheld : w'.cart.agent.held = w.cart.agent.held) :
    ∀ n ∈ w'.line, isPoke (w'.led.issues n).body = true →
      w'.cart.agent.held.map Prod.fst = some (w'.led.issues n).rid → n ∈ w'.led.stored := by
  rw [h.issues, hheld, hstored]
  refine fun n hn => ht.line n ?_
  rw [h.line]
  exact List.mem_cons_of_mem _ hn

theorem mem_replies_answer {s' : MemProto} {b : Bytes} {r : Reply} (hr : r ∈ (w.answer p s' b).replies) :
    r ∈ w.replies ∨ (r.tag = p.tag ∧ r.bytes = b) := by
  simp only [World.replies, World.answer, List.mem_append, List.mem_singleton] at hr ⊢
  rcases hr with (hr | hr) | hr
  · exact .inl (.inl hr)
  · rw [hr]
    exact .inr ⟨rfl, rfl⟩
  · exact .inl (.inr hr)

theorem Told.serve (ht : Told w) (hs : Single w) (hc : Correlated w) : Told w.serve := by
  intro hsound
  rcases serve_cases w with h | ⟨p, rest, hcart, h | ⟨s', b, hout, h⟩⟩
  · rw [h] at hsound ⊢
    exact ht hsound
  · rw [h] at hsound ⊢
    have htrue := ht hsound
    have hpop : Popped p w { w with toCart := rest } := ⟨hcart, rfl, rfl, rfl, rfl, rfl, rfl, rfl⟩
    exact ⟨htrue.popped hpop rfl rfl, htrue.replies, htrue.accepted, htrue.acked⟩
  · rw [h] at hsound ⊢
    have htrue := ht hsound
    obtain ⟨hl, ho⟩ := hs hsound.steady
    have hmem : p ∈ w.toCart := by
      rw [hcart]
      exact List.mem_cons_self
    have hpop : Popped p w (w.answer p s' b) := by
      refine ⟨?_, rfl, rfl, rfl, rfl, rfl, rfl, rfl⟩
      simp only [World.answer, hcart, List.tail_cons]
    have hhead : p.tag ∈ w.line := by
      rw [hpop.line]
      exact List.mem_cons_self
    have hsame : w.cart.stores p.bytes s' = false → (w.answer p s' b).led.stored = w.led.stored := fun hs => by
      simp only [World.answer, hs, Bool.false_eq_true, if_false]
    have hput : ∀ {r}, r ∈ (w.answer p s' b).replies → r ∈ w.replies ∨ (r.tag = p.tag ∧ r.bytes = b) :=
      mem_replies_answer
    have hgo : (∀ n ∈ w.led.stored, n ∈ (w.answer p s' b).led.stored) →
        (byteAt b 4 = M64pMsg.pokeAck.code → p.tag ∈ (w.answer p s' b).led.stored) →
        (∀ n ∈ (w.answer p s' b).line, isPoke ((w.answer p s' b).led.issues n).body = true →
          (w.answer p s' b).cart.agent.held.map Prod.fst = some ((w.answer p s' b).led.issues n).rid →
          n ∈ (w.answer p s' b).led.stored) → Truthful (w.answer p s' b) := by
      intro hsub hnew hline
      refine ⟨hline, fun r hr hack => ?_, fun a ha hack => hsub _ (htrue.accepted a ha hack),
        fun n hn => hsub _ (htrue.acked n hn)⟩
      rcases hput hr with hr | ⟨htag, hbytes⟩
      · exact hsub _ (htrue.replies r hr hack)
      · rw [htag]
        exact hnew (hbytes ▸ hack)
    cases cart_kept hl.build (fun hpoke => (hl.poke hmem hpoke).names.length) hout with
    | stored hpoke hno hst hheld hram =>
      have hstored : (w.answer p s' b).led.stored = p.tag :: w.led.stored := by
        simp only [World.answer, hst, if_true]
      rw [hstored] at hgo
      refine hgo (fun n hn => List.mem_cons_of_mem _ hn) (fun _ => List.mem_cons_self) fun n hn hpn hrid => ?_
      have hknown := hl.poke hmem hpoke
      have hold : n ∈ w.line := by
        rw [hpop.line]
        exact List.mem_cons_of_mem _ hn
      obtain ⟨q, hq, rfl⟩ := hl.mem_toCart hmem hold
      have hpn' : isPoke (w.led.issues q.tag).body = true := hpn
      obtain ⟨bq, hbq⟩ := hl.known hold hpn'
      have hqb : q.bytes = (w.led.issues q.tag).body := by
        rcases hl.sent q hq with ⟨hzero, _⟩ | hk
        · exact absurd hzero hbq.pos.ne'
        · exact hk.body.symm
      rw [← hqb] at hpn'
      have heq := (hc hsound.helloClear hsound.window).tag_inj hq hmem (hl.poke hq hpn').names.hello
        hknown.names.hello (Option.some.inj (hrid.symm.trans (hheld.trans (congrArg some hknown.names.rid))))
      rw [heq]
      exact List.mem_cons_self
    | repeated hpoke hst hholds hheld hram =>
      have hknown := hl.poke hmem hpoke
      have hstored := hsame hst
      rw [hstored] at hgo
      refine hgo (fun n hn => hn) (fun _ => ?_) ?_
      · refine htrue.line _ hhead ?_ ((hl.holds hknown).mp hholds)
        rw [hknown.body]
        exact hpoke
      · have hline := htrue.popped hpop hstored hheld
        rw [hstored] at hline
        exact hline
    | dropped hno hst hheld hack hram =>
      have hstored := hsame hst
      rw [hstored] at hgo
      refine hgo (fun n hn => hn) (fun hyes => absurd hyes hack) fun n _ _ hrid => ?_
      have hnone : (w.answer p s' b).cart.agent.held = none := hheld
      rw [hnone] at hrid
      cases hrid

theorem Told.loseRequest (ht : Told w) : Told (w.happen .loseRequest) := by
  intro hsound
  have htrue := ht hsound
  refine ⟨?_, htrue.replies, htrue.accepted, htrue.acked⟩
  cases hcart : w.toCart with
  | nil =>
    have hline : (w.happen .loseRequest).line = w.line := by
      simp only [World.line, World.happen, hcart, List.tail_nil]
    rw [hline]
    exact htrue.line
  | cons p rest =>
    have hpop : Popped p w (w.happen .loseRequest) :=
      ⟨by simp only [World.happen, hcart, List.tail_cons], rfl, rfl, rfl, rfl, rfl, rfl, rfl⟩
    exact htrue.popped hpop rfl rfl

theorem Truthful.pushed (ht : Truthful w) (hs : Lined w) (h : Pushed q w w')
    (hq : isPoke (w'.led.issues q.tag).body = true →
      w.cart.agent.held.map Prod.fst = some (w'.led.issues q.tag).rid → q.tag ∈ w.led.stored) :
    ∀ n ∈ w'.line, isPoke (w'.led.issues n).body = true →
      w'.cart.agent.held.map Prod.fst = some (w'.led.issues n).rid → n ∈ w'.led.stored := by
  intro n hn hp hrid
  rw [h.held] at hrid
  rw [h.stored]
  by_cases heq : n = q.tag
  · subst heq
    exact hq hp hrid
  · have hold : n ∈ w.line := by
      rw [h.line] at hn
      refine List.mem_append_left _ ?_
      simpa [heq] using hn
    rw [h.bodies n (.inl heq)] at hp
    obtain ⟨b, hk⟩ := hs.known hold hp
    rw [(h.old n hk.le).2.1] at hrid
    exact ht.line n hold hp hrid

theorem Told.issue (ht : Told w) (hs : Single w) : Told w.issue := by
  intro hsound
  have hold : w.led.terms.Sound :=
    ⟨hsound.steady, hsound.helloClear, (Bool.and_eq_true_iff.mp hsound.window).1, hsound.copyClear, hsound.holdFresh⟩
  have htrue := ht hold
  obtain ⟨hl, _⟩ := hs hold.steady
  refine ⟨fun n hn hp hrid => ?_, htrue.replies, htrue.accepted, htrue.acked⟩
  have hle : n ≤ w.issued := by
    rcases hl.mem_line (show n ∈ w.line from hn) with rfl | ⟨b, hk⟩
    · exact Nat.zero_le _
    · exact hk.le
  have hsame : w.issue.led.issues n = w.led.issues n := Function.update_of_ne (by omega) ..
  rw [hsame] at hp hrid
  exact htrue.line n hn hp hrid

theorem Told.send (ht : Told w) (hs : Single w) {k : Ticket} {app : Bytes} (mayCopy : Bool) (hk : w.Unsent k)
    (hn : Names app k.rid) : Told (w.send k app mayCopy) := by
  intro hsound
  obtain ⟨hfresh, hhold⟩ := Bool.and_eq_true_iff.mp hsound.holdFresh
  have hold : w.led.terms.Sound := ⟨hsound.steady, hsound.helloClear, hsound.window, hsound.copyClear, hfresh⟩
  have htrue := ht hold
  obtain ⟨hl, _⟩ := hs hold.steady
  have hasked := Transport.send_asked app mayCopy hk
  have hpush : Pushed ⟨k.tag, app⟩ w (w.send k app mayCopy) :=
    ⟨(Op.send w k app mayCopy hk hn).grows.toRemembers, rfl, rfl, fun n hne => by
      have hne' : n ≠ k.tag := hne.elim id fun hzero heq => hk.pos.ne' (heq.symm.trans hzero)
      exact congrArg Issue.body (Function.update_of_ne hne' ..), rfl, rfl, rfl⟩
  refine ⟨htrue.pushed hl hpush fun hp hrid => ?_, htrue.replies, htrue.accepted, htrue.acked⟩
  have hpoke : isPoke app = true := by
    have hbody : ((w.send k app mayCopy).led.issues k.tag).body = app := hasked.body
    rw [← hbody]
    exact hp
  have hno : w.cart.holds app = false := by simpa [hpoke] using hhold
  have hrid' : w.cart.agent.held.map Prod.fst = some k.rid := hrid.trans (congrArg some hasked.rid)
  simp [Cart.holds, hl.build, hn.rid, hrid'] at hno

theorem Told.copy (ht : Told w) (hs : Single w) {k : Ticket} {app : Bytes} (hk : Lined w → w.Known k.tag app) :
    Told (w.copy k app) := by
  intro hsound
  obtain ⟨hclear, hlast⟩ := Bool.and_eq_true_iff.mp hsound.copyClear
  obtain ⟨hwin, _⟩ := Bool.and_eq_true_iff.mp hsound.window
  have hold : w.led.terms.Sound := ⟨hsound.steady, hsound.helloClear, hwin, hclear, hsound.holdFresh⟩
  have htrue := ht hold
  obtain ⟨hl, _⟩ := hs hold.steady
  have hpush : Pushed ⟨k.tag, app⟩ w (w.copy k app) :=
    ⟨remembers_same rfl rfl, rfl, rfl, fun _ _ => rfl, rfl, rfl, rfl⟩
  refine ⟨htrue.pushed hl hpush fun hp hrid => ?_, htrue.replies, htrue.accepted, htrue.acked⟩
  have hpoke : isPoke app = true := by
    rw [← (hk hl).body]
    exact hp
  have heq : w.led.lastSent = k.tag := of_decide_eq_true (by simpa [hpoke] using hlast)
  refine htrue.line k.tag ?_ hp hrid
  rw [← heq]
  exact List.mem_append_right _ List.mem_cons_self

theorem Told.sendHello (ht : Told w) (hs : Single w) : Told w.sendHello := by
  intro hsound
  have hold : w.led.terms.Sound := ⟨hsound.steady, (Bool.and_eq_true_iff.mp hsound.helloClear).1, hsound.window,
    hsound.copyClear, hsound.holdFresh⟩
  have htrue := ht hold
  obtain ⟨hl, _⟩ := hs hold.steady
  have hpush : Pushed ⟨0, encodeHello⟩ w w.sendHello :=
    ⟨remembers_same rfl rfl, rfl, rfl, fun _ _ => rfl, rfl, rfl, rfl⟩
  refine ⟨htrue.pushed hl hpush fun hp _ => ?_, htrue.replies, htrue.accepted, htrue.acked⟩
  rw [show (w.sendHello.led.issues 0).body = [] from hl.zero, isPoke_nil] at hp
  exact nomatch hp

theorem mem_replies {r : Reply} : r ∈ w.replies ↔ r ∈ w.toHost ∨ ∃ t ∈ w.conns, r ∈ t.inbox := by
  simp [World.replies]

theorem read_acks (w : World) (want : Want) : SameAcks w (w.read want) := by
  have hline := read_line w want
  refine ⟨hline, fun r hr => ?_, fun a ha => ?_, ?_, fun hsound => ?_⟩
  · rw [mem_replies] at hr ⊢
    have hbox : ∀ r ∈ (w.read want).t.inbox, r ∈ w.t.inbox := by
      unfold World.read
      split
      · exact fun _ h => h
      next x rest hbox =>
        rw [hbox]
        split
        · exact fun _ h => List.mem_cons_of_mem _ h
        · simp only
          split
          · cases want with
            | hello => exact fun _ h => List.mem_cons_of_mem _ h
            | rid k =>
              intro r hr
              have hin : r ∈ rest := by
                rw [World.accept, (answered_same _ k).inbox] at hr
                exact hr
              exact List.mem_cons_of_mem _ hin
          · exact fun _ h => List.mem_cons_of_mem _ h
    have hhost : (w.read want).toHost = w.toHost ∧ (w.read want).parked = w.parked := by
      unfold World.read
      split
      · exact ⟨rfl, rfl⟩
      · split
        · exact ⟨rfl, rfl⟩
        · simp only
          split
          · cases want <;> exact ⟨rfl, rfl⟩
          · exact ⟨rfl, rfl⟩
    rw [hhost.1] at hr
    refine hr.imp id fun hin => ?_
    obtain ⟨t, ht, hin⟩ := hin
    rcases List.mem_cons.mp ht with rfl | ht
    · exact ⟨w.t, List.mem_cons_self, hbox r hin⟩
    · rw [hhost.2] at ht
      exact ⟨t, List.mem_cons_of_mem _ ht, hin⟩
  · revert ha
    unfold World.read
    split
    · exact .inl
    next x rest hbox =>
      split
      · exact .inl
      · simp only
        split
        · cases want with
          | hello => exact .inl
          | rid k =>
            intro ha
            rcases List.mem_append.mp ha with ha | ha
            · exact .inl ha
            · cases List.mem_singleton.mp ha
              refine .inr (mem_replies.mpr (.inr ⟨w.t, List.mem_cons_self, ?_⟩))
              rw [hbox]
              exact List.mem_cons_self
        · exact .inl
  · unfold World.read
    split
    · rfl
    · split
      · rfl
      · simp only
        split
        · cases want <;> rfl
        · rfl
  · revert hsound
    unfold World.read
    split
    · exact id
    · split
      · exact id
      · simp only
        split
        · cases want with
          | hello => exact id
          | rid k =>
            exact fun h => ⟨h.steady, h.helloClear, (Bool.and_eq_true_iff.mp h.window).1, h.copyClear, h.holdFresh⟩
        · exact id

theorem Told.passes (ht : Told w) (hs : Single w) (hc : Correlated w) (h : Passes w w') : Told w' := by
  have hquiet : ∀ {w' : World}, SameLine w w' → (∀ r ∈ w'.replies, r ∈ w.replies) →
      w'.led.accepted = w.led.accepted → w'.led.acked = w.led.acked →
      (w'.led.terms.Sound → w.led.terms.Sound) → Told w' := fun hl hr hacc hacked hsound =>
    ht.same ⟨hl, hr, fun a ha => .inl (hacc ▸ ha), hacked, hsound⟩
  have hconns : Asking w w := fun t ht o ho => ⟨t, ht, o, ho, rfl, rfl⟩
  cases h with
  | pop => exact hquiet ⟨rfl, rfl, rfl, rfl, rfl, rfl, rfl, hconns, rfl, rfl⟩ (fun _ h => h) rfl rfl id
  | happen e =>
    cases e with
    | serve => exact ht.serve hs hc
    | loseRequest => exact ht.loseRequest
    | reset rom ram => exact fun h => nomatch h.steady
    | frame byte =>
      show Told (w.frame byte)
      unfold World.frame
      split
      · obtain ⟨watch, events, dropped, hframe⟩ := watchTickLoop_frame 0 w.cart.agent.watch
          { w.cart.agent with ram := { w.cart.agent.ram with byte := byte } }
        exact hquiet ⟨rfl, rfl, rfl, rfl, rfl, rfl, by simp only [m64pWatchTick, hframe], hconns, rfl, rfl⟩
          (fun _ h => h) rfl rfl id
      · exact ht
    | loseReply =>
      refine hquiet ⟨rfl, rfl, rfl, rfl, rfl, rfl, rfl, hconns, rfl, rfl⟩ (fun r hr => ?_) rfl rfl id
      exact mem_replies.mpr ((mem_replies.mp hr).imp List.mem_of_mem_tail id)
    | deliver =>
      show Told w.deliver
      unfold World.deliver
      split
      · exact ht
      next x rest hhost =>
        have hx : x ∈ w.replies := mem_replies.mpr (.inl (by rw [hhost]; exact List.mem_cons_self))
        have hin : ∀ t ∈ w.conns, ∀ r ∈ t.inbox ++ [x], r ∈ w.replies := by
          intro t ht r hr
          rcases List.mem_append.mp hr with hr | hr
          · exact mem_replies.mpr (.inr ⟨t, ht, hr⟩)
          · rwa [List.mem_singleton.mp hr]
        refine hquiet ⟨rfl, rfl, rfl, rfl, rfl, rfl, rfl, fun t ht o ho => ?_, rfl, rfl⟩ (fun r hr => ?_) rfl rfl id
        · rcases List.mem_cons.mp ht with rfl | ht
          · exact ⟨w.t, List.mem_cons_self, o, ho, rfl, rfl⟩
          · obtain ⟨t₀, ht₀, rfl⟩ := Option.mem_map.mp (Option.mem_toList.mp ht)
            exact ⟨t₀, List.mem_cons_of_mem _ (Option.mem_toList.mpr ht₀), o, ho, rfl, rfl⟩
        · rcases mem_replies.mp hr with hr | ⟨t, ht, hr⟩
          · refine mem_replies.mpr (.inl ?_)
            rw [hhost]
            exact List.mem_cons_of_mem _ hr
          · rcases List.mem_cons.mp ht with rfl | ht
            · exact hin w.t List.mem_cons_self r hr
            · obtain ⟨t₀, ht₀, rfl⟩ := Option.mem_map.mp (Option.mem_toList.mp ht)
              exact hin t₀ (List.mem_cons_of_mem _ (Option.mem_toList.mpr ht₀)) r hr
    | _ =>
      exact hquiet ⟨rfl, rfl, rfl, rfl, rfl, rfl, rfl, hconns, rfl, rfl⟩ (fun _ h => h) rfl rfl
        fun h => ⟨h.steady, h.helloClear, h.window, h.copyClear, h.holdFresh⟩

/-- A write acknowledged as its own was stored. -/
theorem Told.acknowledged (ht : Told w) (hc : Correlated w) {k : Ticket} {n : UInt8}
    (h : w.JustRead k (.pokeAck k.rid n)) : Told (w.acknowledged k) := by
  intro hsound
  have htrue := ht hsound
  refine ⟨htrue.line, htrue.replies, htrue.accepted, fun m hm => ?_⟩
  rcases List.mem_cons.mp hm with rfl | hm
  · obtain ⟨a, hlast, hwant, hparse, _⟩ := h
    have hmem : a ∈ w.led.accepted := List.mem_of_getLast? hlast
    have htag := ((hc hsound.helloClear hsound.window).accepted a hmem).tag
    rw [← hwant, ← htag]
    exact htrue.accepted a hmem (parse_msg hparse)
  · exact htrue.acked m hm

theorem Told.step (ht : Told w) (hs : Single w) (hc : Correlated w) (h : Step w w') : Told w' := by
  have hdrop : ∀ o' ∈ w.t.outstanding, ∃ o ∈ w.t.outstanding, o.ticket = o'.ticket ∧ o.app = o'.app :=
    fun o ho => ⟨o, ho, rfl, rfl⟩
  have hline : ∀ r ∈ w.replies, r ∈ w.replies := fun _ h => h
  cases h with
  | passes h => exact ht.passes hs hc h
  | op h _ =>
    cases h with
    | passes h => exact ht.passes hs hc h
    | read k hk => exact ht.same (read_acks w _)
    | issue => exact ht.issue hs
    | send k app mayCopy hk hn => exact ht.send hs mayCopy hk hn
    | copy k app hk hn => exact ht.copy hs fun _ => ⟨hk.pos, hk.le, hk.body, hk.rid.symm ▸ hn⟩
    | copyOutstanding =>
      unfold World.copyOutstanding
      cases ho : w.t.outstanding with
      | none => exact ht
      | some o => exact ht.copy hs fun hl => hl.out w.t List.mem_cons_self o ho
    | acknowledged k n hk => exact ht.acknowledged hc hk
    | markCopied =>
      refine ht.same ⟨⟨rfl, rfl, rfl, rfl, rfl, rfl, rfl, asking_conn rfl fun o' ho' => ?_, rfl, rfl⟩, hline,
        fun a ha => .inl ha, rfl, id⟩
      obtain ⟨o, ho, rfl⟩ := Option.map_eq_some_iff.mp ho'
      exact ⟨o, ho, rfl, rfl⟩
    | _ =>
      exact ht.same ⟨⟨rfl, rfl, rfl, rfl, rfl, rfl, rfl, asking_conn rfl hdrop, rfl, rfl⟩, hline, fun a ha => .inl ha,
        rfl, fun h => ⟨h.steady, h.helloClear, h.window, h.copyClear, h.holdFresh⟩⟩
  | own h _ =>
    cases h <;> exact ht.same ⟨⟨rfl, rfl, rfl, rfl, rfl, rfl, rfl, asking_conn rfl hdrop, rfl, rfl⟩, hline,
      fun a ha => .inl ha, rfl, id⟩
  | greeting h =>
    cases h with
    | sendHello _ => exact ht.sendHello hs
    | read _ => exact ht.same (read_acks w _)
    | greeted _ _ _ _ _ _ =>
      exact ht.same ⟨⟨rfl, rfl, rfl, rfl, rfl, rfl, rfl, asking_conn rfl hdrop, rfl, rfl⟩, hline, fun a ha => .inl ha,
        rfl, id⟩
    | greet _ =>
      refine ht.same ⟨⟨rfl, rfl, rfl, rfl, rfl, rfl, rfl, fun t ht o ho => ?_, rfl, rfl⟩, fun r hr => ?_,
        fun a ha => .inl ha, rfl, id⟩
      · rcases List.mem_cons.mp ht with rfl | ht
        · cases ho
        · cases List.mem_singleton.mp ht
          exact ⟨w.t, List.mem_cons_self, o, ho, rfl, rfl⟩
      · refine mem_replies.mpr ((mem_replies.mp hr).imp id fun hin => ?_)
        obtain ⟨t, ht, hin⟩ := hin
        rcases List.mem_cons.mp ht with rfl | ht
        · cases hin
        · cases List.mem_singleton.mp ht
          exact ⟨w.t, List.mem_cons_self, hin⟩
    | keep _ =>
      have hone : ∀ t ∈ w.keep.conns, t ∈ w.conns := fun t ht => by
        rw [List.mem_singleton.mp ht]
        exact List.mem_cons_self
      exact ht.same ⟨⟨rfl, rfl, rfl, rfl, rfl, rfl, rfl, fun t ht o ho => ⟨t, hone t ht, o, ho, rfl, rfl⟩, rfl, rfl⟩,
        fun r hr => mem_replies.mpr ((mem_replies.mp hr).imp id fun h => h.imp fun t h => ⟨hone t h.1, h.2⟩),
        fun a ha => .inl ha, rfl, id⟩
    | restore _ =>
      have hone : ∀ t ∈ w.restore.conns, t ∈ w.conns := fun t ht => by
        rw [List.mem_singleton.mp ht]
        cases hparked : w.parked with
        | none => simp [World.restore, World.conns, hparked]
        | some t' => simp [World.restore, World.conns, hparked]
      exact ht.same ⟨⟨rfl, rfl, rfl, rfl, rfl, rfl, rfl, fun t ht o ho => ⟨t, hone t ht, o, ho, rfl, rfl⟩, rfl, rfl⟩,
        fun r hr => mem_replies.mpr ((mem_replies.mp hr).imp id fun h => h.imp fun t h => ⟨hone t h.1, h.2⟩),
        fun a ha => .inl ha, rfl, id⟩

end Acknowledged

section Session

theorem single_start {cart : Cart} (hb : cart.hooks.pokeOnce = true) (status : Option DaemonStatus)
    (patience softRetries : Nat) (sched : List Event) :
    Single (Backend.start cart status patience softRetries sched) := by
  refine fun _ => ⟨⟨nofun, nofun, .inl rfl, fun t ht o ho => ?_, rfl, hb⟩, fun _ => ⟨fun n hn => ?_, List.nodup_nil,
    nofun, nofun⟩⟩
  · rw [List.mem_singleton.mp ht] at ho
    exact nomatch ho
  · exact nomatch hn

theorem told_start (cart : Cart) (status : Option DaemonStatus) (patience softRetries : Nat) (sched : List Event) :
    Told (Backend.start cart status patience softRetries sched) := by
  have hpoke : ∀ n, isPoke ((Backend.start cart status patience softRetries sched).led.issues n).body = false :=
    fun _ => rfl
  refine fun _ => ⟨fun n _ hp => ?_, nofun, nofun, nofun⟩
  rw [hpoke n] at hp
  exact nomatch hp

/-- In a session with an agent of the build with the hold, on a console that
stays on: as long as no copy of a write went out behind another packet, no
write is stored twice; and if besides no `HELLO` went out behind another, no
request outlived its rid, in flight or in the hold, then `poke_once` returns
`Ok` for a batch only if it sent it as one request, stored once. -/
theorem session_poke_once (cart : Cart) (hb : cart.hooks.pokeOnce = true) (status : Option DaemonStatus)
    (patience softRetries : Nat) (sched : List Event) (calls : List Backend.Call) (batch : List (UInt32 × Bytes)) :
    let w := (Backend.session calls (Backend.start cart status patience softRetries sched)).2
    let r := Backend.pokeOnce batch w
    r.2.led.terms.steady = true → r.2.led.terms.copyClear = true →
      (∀ n, r.2.led.stored.count n ≤ 1) ∧
      (r.1 = .ok () → batch ≠ [] → r.2.led.terms.Sound →
        ∃ (k : Ticket) (app : Bytes), w.issued < k.tag ∧ encodePokev k.rid batch = .ok app ∧
          (r.2.led.issues k.tag).body = app ∧ r.2.led.stored.count k.tag = 1) := by
  intro w r hsteady hclear
  have hsession := Backend.session_keeps calls _
    (show (Backend.start cart status patience softRetries sched).led.stage = .up from rfl)
  have hpoke := Backend.pokeOnce_runs w.issued batch w ⟨hsession.2, Nat.le_refl _⟩
  have hpath := hsession.1.trans hpoke.1
  have hinv : ∀ w', Relation.ReflTransGen Step (Backend.start cart status patience softRetries sched) w' →
      Correlated w' ∧ Single w' ∧ Told w' := fun w' hw' =>
    Eff.path_invariant (P := fun w => Correlated w ∧ Single w ∧ Told w)
      (fun _ _ h hi => ⟨hi.1.step h, hi.2.1.step h, hi.2.2.step hi.2.1 hi.1 h⟩) hw'
      ⟨correlated_start _ _ _ _ _, single_start hb _ _ _ _, told_start _ _ _ _ _⟩
  obtain ⟨_, hsingle, htold⟩ := hinv r.2 hpath
  have honce := (hsingle hsteady).2 hclear
  refine ⟨fun n => List.nodup_iff_count_le_one.mp honce.nodup n, fun hok hne hsound => ?_⟩
  obtain ⟨k, app, hlt, _, happ, hbody, hacked⟩ := hpoke.2.2 hok hne
  exact ⟨k, app, hlt, happ, hbody, List.count_eq_one_of_mem honce.nodup ((htold hsound).acked _ hacked)⟩

theorem session_poke_once_answered :
    let w := (Backend.session [] (Backend.start smallCart sc64Daemon 2 2
      [.serve, .deliver, .serve, .loseReply, .timeout, .serve, .deliver])).2
    let r := Backend.pokeOnce [(0, [7])] w
    (∀ n, r.2.led.stored.count n ≤ 1) ∧
      ∃ (k : Ticket) (app : Bytes), w.issued < k.tag ∧ encodePokev k.rid [(0, [7])] = .ok app ∧
        (r.2.led.issues k.tag).body = app ∧ r.2.led.stored.count k.tag = 1 := by
  have h := session_poke_once smallCart (by decide) sc64Daemon 2 2
    [.serve, .deliver, .serve, .loseReply, .timeout, .serve, .deliver] [] [(0, [7])]
    (by decide +kernel) (by decide +kernel)
  exact ⟨h.1, h.2 (by decide +kernel) (by decide)
    ⟨by decide +kernel, by decide +kernel, by decide +kernel, by decide +kernel, by decide +kernel⟩⟩

/-- With the header page cached, the copy goes out behind a read of the
header, the agent holds the write no longer, and stores it again. -/
theorem session_poked_twice :
    let w := (Backend.session [.readRomMany [(0, 64)]] (Backend.start smallCart sc64Daemon 2 2
      [.serve, .deliver, .serve, .deliver, .serve, .loseReply, .timeout, .serve, .deliver, .serve, .deliver])).2
    let r := Backend.pokeOnce [(0, [7])] w
    r.1 = .ok () ∧ r.2.led.stored.count 2 = 2 ∧ r.2.led.terms.steady = true := by
  decide +kernel

end Session

end Multi64
