import Multi64.LinkPaths

/-! Which request a response answers: while no `HELLO` goes out behind another
that is still in flight, every response taken for a request was made by the
agent serving that request. -/

namespace Multi64

open World

section Rids

/-- The rid of a connection's `n`-th request. -/
def ridAt (n : Nat) : UInt16 := UInt16.ofNat ((n - 1) % window + 1)

theorem ridAt_toNat (n : Nat) : (ridAt n).toNat = (n - 1) % 65535 + 1 := by
  have hlt : (n - 1) % 65535 < 65535 := Nat.mod_lt _ (by decide)
  rw [ridAt, window, UInt16.toNat_ofNat']
  omega

theorem ridAt_succ {n : Nat} (hn : 0 < n) : ridSucc (ridAt n) = ridAt (n + 1) := by
  apply UInt16.toNat_inj.mp
  have h := ridAt_toNat n
  have h' := ridAt_toNat (n + 1)
  rw [ridSucc]
  split
  next hz =>
    have hz' := congrArg UInt16.toNat hz
    simp only [UInt16.toNat_add, UInt16.toNat_one, UInt16.toNat_zero] at hz' ⊢
    omega
  next hz =>
    have hz' : (ridAt n + 1).toNat ≠ 0 := fun h0 => hz (UInt16.toNat_inj.mp h0)
    simp only [UInt16.toNat_add, UInt16.toNat_one] at hz' ⊢
    omega

/-- `0` is never a rid. -/
theorem ridAt_ne_zero (n : Nat) : ridAt n ≠ 0 := by
  intro h
  have h' := ridAt_toNat n
  rw [h] at h'
  exact absurd h' (by simp only [UInt16.toNat_zero]; omega)

theorem ridAt_inj {a b : Nat} (ha : 0 < a) (hb : 0 < b) (hab : a < b + window) (hba : b < a + window)
    (h : ridAt a = ridAt b) : a = b := by
  have h' := congrArg UInt16.toNat h
  rw [ridAt_toNat, ridAt_toNat] at h'
  rw [window] at hab hba
  omega

end Rids

section Invariant

/-- Of `issued` requests one issued after the first `base`, and not too old to
be told from a new one. -/
structure Current (issued base tag : Nat) : Prop where
  base : base < tag
  le : tag ≤ issued
  window : issued < tag + window

/-- What is in flight, besides `HELLO` and its answer, belongs to connection
`t` and is what was sent. -/
structure Tracked (w : World) (t : Transport) : Prop where
  base_le : t.base ≤ w.issued
  next : t.nextRid = ridAt (w.issued + 1 - t.base)
  rids : ∀ tag, t.base < tag → tag ≤ w.issued → (w.led.issues tag).rid = ridAt (tag - t.base)
  sent : ∀ p ∈ w.toCart, isHello p.bytes = true ∨
    Current w.issued t.base p.tag ∧ p.bytes = (w.led.issues p.tag).body ∧ Names p.bytes (w.led.issues p.tag).rid
  got : ∀ r ∈ t.inbox ++ w.toHost, isHelloAck r.bytes = true ∨
    Current w.issued t.base r.tag ∧ r.request = (w.led.issues r.tag).body ∧ Names r.request (w.led.issues r.tag).rid ∧
      readBe16 r.bytes 5 = (w.led.issues r.tag).rid
  out : ∀ o ∈ t.outstanding, t.base < o.ticket.tag ∧ o.ticket.tag ≤ w.issued ∧
    (w.led.issues o.ticket.tag).body = o.app ∧ Names o.app (w.led.issues o.ticket.tag).rid

/-- A response taken for a request is the agent's answer to that request. -/
structure Answered (a : Accepted) : Prop where
  tag : a.reply.tag = a.want
  request : a.reply.request = a.asked
  rid : readBe16 a.asked 5 ≠ 0

/-- Nothing is in flight behind a `HELLO` or its answer. -/
def HelloLast (w : World) : Prop :=
  ((w.t.inbox ++ w.toHost).map (isHelloAck ·.bytes) ++ w.toCart.map (isHello ·.bytes)).Pairwise
    fun a _ => a = false

structure Linked (w : World) : Prop where
  older : ∀ tag, 0 < tag → tag ≤ w.issued → (w.led.issues tag).base < tag
  up : w.led.stage = .up → Tracked w w.t
  parked : w.led.stage ≠ .up → ∃ t, w.parked = some t ∧ Tracked w t
  fresh : w.led.stage ≠ .up → w.t.base = w.issued ∧ w.t.nextRid = 1 ∧ w.t.outstanding = none
  last : w.led.stage = .sent → HelloLast w
  quiet : w.led.stage = .acked → w.t.inbox = [] ∧ w.toHost = [] ∧ w.toCart = []
  accepted : ∀ a ∈ w.led.accepted, Answered a

/-- The invariant of a run: as long as every `HELLO` went out alone and no
request outlived its rid. -/
def Correlated (w : World) : Prop :=
  w.led.terms.helloClear = true → w.led.terms.window = true → Linked w

end Invariant

section Passes

/-- How the replies in flight move: `inbox` is what an open connection's inbox
becomes. -/
structure Moves (w w' : World) (inbox : List Reply → List Reply) : Prop where
  t : w'.t = { w.t with inbox := inbox w.t.inbox }
  parked : w'.parked = w.parked.map fun t => { t with inbox := inbox t.inbox }

/-- What passes on the link: requests stay and replies move on or are lost, or
the oldest request is gone, lost or served. -/
inductive Flow (w w' : World) : Prop where
  | replies (inbox : List Reply → List Reply) (hm : Moves w w' inbox) (hcart : w'.toCart = w.toCart)
      (hsub : ∀ i, (inbox i ++ w'.toHost).Sublist (i ++ w.toHost))
  | lost (hm : Moves w w' id) (p : Sent) (hcart : w.toCart = p :: w'.toCart) (hhost : w'.toHost = w.toHost)
  | served (hm : Moves w w' id) (p : Sent) (hcart : w.toCart = p :: w'.toCart) (r : Reply) (s' : MemProto)
      (hhost : w'.toHost = w.toHost ++ [r]) (htag : r.tag = p.tag) (hreq : r.request = p.bytes)
      (hh : Handled w.cart.hooks w.cart.agent p.bytes (some (s', r.bytes)))

variable {w w' : World}

theorem moves_id {w w' : World} (ht : w'.t = w.t) (hp : w'.parked = w.parked) : Moves w w' id :=
  ⟨ht, by rw [hp]; exact (Option.map_id' ..).symm⟩

theorem flow_same {w w' : World} (ht : w'.t = w.t) (hp : w'.parked = w.parked) (hc : w'.toCart = w.toCart)
    (hh : w'.toHost = w.toHost) : Flow w w' :=
  .replies id (moves_id ht hp) hc fun _ => hh ▸ List.Sublist.refl _

theorem serve_flow (w : World) : Flow w w.serve := by
  unfold World.serve
  split
  · exact flow_same rfl rfl rfl rfl
  next p rest hcart =>
    split
    · obtain ⟨out, hout, hh⟩ := m64pHandle_spec w.cart.hooks w.cart.agent p.bytes
      rw [hout]
      cases out with
      | none => exact .lost (moves_id rfl rfl) p hcart rfl
      | some x =>
        refine .served (moves_id rfl rfl) p ?_ _ x.1 rfl rfl rfl hh
        simp only [World.answer, hcart, List.tail_cons]
    · exact flow_same rfl rfl rfl rfl

theorem frame_flow (w : World) (byte : Nat → UInt8) : Flow w (w.frame byte) := by
  unfold World.frame
  split <;> exact flow_same rfl rfl rfl rfl

theorem deliver_flow (w : World) : Flow w w.deliver := by
  unfold World.deliver
  split
  · exact flow_same rfl rfl rfl rfl
  next r rest hh =>
    refine .replies (· ++ [r]) ⟨rfl, rfl⟩ rfl fun i => ?_
    simp only [hh, List.append_assoc, List.singleton_append]
    exact List.Sublist.refl _

theorem lose_flow (w : World) : Flow w (w.happen .loseRequest) := by
  cases hc : w.toCart with
  | nil => exact flow_same rfl rfl (by simp only [World.happen, hc, List.tail_nil]) rfl
  | cons p rest => exact .lost (moves_id rfl rfl) p (by simp only [World.happen, hc, List.tail_cons]) rfl

theorem Passes.flow (h : Passes w w') : Flow w w' := by
  cases h with
  | pop => exact flow_same rfl rfl rfl rfl
  | happen e =>
    cases e with
    | frame byte => exact frame_flow w byte
    | serve => exact serve_flow w
    | loseRequest => exact lose_flow w
    | loseReply =>
      exact .replies id (moves_id rfl rfl) rfl fun i => List.Sublist.append (List.Sublist.refl i) (List.tail_sublist _)
    | deliver => exact deliver_flow w
    | _ => exact flow_same rfl rfl rfl rfl

theorem Current.same (hs : SameHost w w') {base tag : Nat} (h : Current w.issued base tag) : Current w'.issued base tag :=
  ⟨h.base, hs.issued ▸ h.le, hs.issued ▸ h.window⟩

/-- What tracks a connection still does, its inbox moved along. -/
theorem Tracked.moved {t : Transport} {inbox : List Reply} (ht : Tracked w t) (hs : SameHost w w')
    (hsent : ∀ p ∈ w'.toCart, p ∈ w.toCart)
    (hgot : ∀ r ∈ inbox ++ w'.toHost, r ∈ t.inbox ++ w.toHost ∨ isHelloAck r.bytes = true ∨
      Current w.issued t.base r.tag ∧ r.request = (w.led.issues r.tag).body ∧ Names r.request (w.led.issues r.tag).rid ∧
        readBe16 r.bytes 5 = (w.led.issues r.tag).rid) : Tracked w' { t with inbox := inbox } := by
  refine ⟨hs.issued ▸ ht.base_le, hs.issued ▸ ht.next, ?_, fun p hp => ?_, fun r hr => ?_, ?_⟩
  · rw [hs.issued, hs.issues]
    exact ht.rids
  · rw [hs.issues]
    exact (ht.sent p (hsent p hp)).imp id fun ⟨hc, h⟩ => ⟨hc.same hs, h⟩
  · rw [hs.issues]
    refine ((hgot r hr).elim (ht.got r) id).imp id fun ⟨hc, h⟩ => ⟨hc.same hs, h⟩
  · rw [hs.issued, hs.issues]
    exact ht.out

/-- A request of the open connection, answered. -/
theorem Tracked.answered {t : Transport} (ht : Tracked w t) {p : Sent} (hp : p ∈ w.toCart) {r : Reply}
    {s' : MemProto} (htag : r.tag = p.tag) (hreq : r.request = p.bytes)
    (hh : Handled w.cart.hooks w.cart.agent p.bytes (some (s', r.bytes))) :
    isHelloAck r.bytes = isHello p.bytes ∧ (isHelloAck r.bytes = true ∨
      Current w.issued t.base r.tag ∧ r.request = (w.led.issues r.tag).body ∧ Names r.request (w.led.issues r.tag).rid ∧
        readBe16 r.bytes 5 = (w.led.issues r.tag).rid) := by
  rcases ht.sent p hp with hhello | ⟨hcur, hbody, hnames⟩
  · have hack := (hh.reply_rid fun hno => absurd (hhello.symm.trans hno) (by decide)).1
    exact ⟨hack, .inl (hack.trans hhello)⟩
  · obtain ⟨hack, hrid⟩ := hh.reply_rid fun _ => hnames.length
    rw [htag, hreq]
    exact ⟨hack, .inr ⟨hcur, hbody, hnames, (hrid hnames.hello).trans hnames.rid⟩⟩

theorem Flow.tracked (hf : Flow w w') (hs : SameHost w w') {t : Transport} (ht : Tracked w t) :
    (w.t = t → Tracked w' w'.t) ∧ (w.parked = some t → ∃ t', w'.parked = some t' ∧ Tracked w' t') := by
  have hgo : ∀ inbox : List Reply → List Reply, Moves w w' inbox → Tracked w' { t with inbox := inbox t.inbox } →
      (w.t = t → Tracked w' w'.t) ∧ (w.parked = some t → ∃ t', w'.parked = some t' ∧ Tracked w' t') := by
    intro inbox hm h
    refine ⟨fun heq => ?_, fun heq => ⟨_, ?_, h⟩⟩
    · rw [hm.t, heq]
      exact h
    · rw [hm.parked, heq]
      rfl
  cases hf with
  | replies inbox hm hcart hsub =>
    exact hgo inbox hm (ht.moved hs (fun p hp => hcart ▸ hp) fun r hr => .inl ((hsub t.inbox).subset hr))
  | lost hm p hcart hhost =>
    exact hgo id hm (ht.moved hs (fun q hq => by rw [hcart]; exact List.mem_cons_of_mem _ hq)
      fun r hr => .inl (by rwa [hhost] at hr))
  | served hm p hcart r s' hhost htag hreq hh =>
    refine hgo id hm (ht.moved hs (fun q hq => by rw [hcart]; exact List.mem_cons_of_mem _ hq) fun r' hr' => ?_)
    rw [hhost, ← List.append_assoc, List.mem_append, List.mem_singleton] at hr'
    rcases hr' with hold | rfl
    · exact .inl hold
    · exact .inr (ht.answered (by rw [hcart]; exact List.mem_cons_self) htag hreq hh).2

theorem Flow.last (hf : Flow w w') {t : Transport} (ht : Tracked w t) (h : HelloLast w) : HelloLast w' := by
  cases hf with
  | replies inbox hm hcart hsub =>
    refine h.sublist (List.Sublist.append ?_ (hcart ▸ List.Sublist.refl _))
    rw [hm.t]
    exact (hsub w.t.inbox).map _
  | lost hm p hcart hhost =>
    refine h.sublist (List.Sublist.append ?_ ?_)
    · rw [hm.t, hhost]
      exact List.Sublist.refl _
    · rw [hcart]
      exact (List.sublist_cons_self p w'.toCart).map _
  | served hm p hcart r s' hhost htag hreq hh =>
    have hack := (ht.answered (by rw [hcart]; exact List.mem_cons_self) htag hreq hh).1
    unfold HelloLast at h ⊢
    rw [hm.t, hhost]
    rw [hcart] at h
    simpa only [id, List.map_append, List.map_cons, List.map_nil, hack, List.append_assoc, List.cons_append,
      List.nil_append] using h

theorem Flow.quiet (hf : Flow w w') (h : w.t.inbox = [] ∧ w.toHost = [] ∧ w.toCart = []) :
    w'.t.inbox = [] ∧ w'.toHost = [] ∧ w'.toCart = [] := by
  obtain ⟨hbox, hhost, hcart⟩ := h
  cases hf with
  | replies inbox hm hcart' hsub =>
    have hnil := hsub []
    rw [hhost, List.append_nil, List.sublist_nil, List.append_eq_nil_iff] at hnil
    refine ⟨?_, hnil.2, hcart'.trans hcart⟩
    rw [hm.t, hbox]
    exact hnil.1
  | lost hm p hcart' => exact absurd (hcart.symm.trans hcart') nofun
  | served hm p hcart' => exact absurd (hcart.symm.trans hcart') nofun

theorem Linked.passes (hl : Linked w) (h : Passes w w') : Linked w' := by
  have hs := h.same
  have hf := h.flow
  have hstage := hs.stage
  refine ⟨?_, fun hup => ?_, fun hup => ?_, fun hup => ?_, fun hsent => ?_, fun hacked => ?_, ?_⟩
  · rw [hs.issued, hs.issues]
    exact hl.older
  · exact (hf.tracked hs (hl.up (hstage ▸ hup))).1 rfl
  · obtain ⟨t, hpark, ht⟩ := hl.parked (hstage ▸ hup)
    exact (hf.tracked hs ht).2 hpark
  · obtain ⟨inbox, ht⟩ := hs.t
    rw [ht, hs.issued]
    exact hl.fresh (hstage ▸ hup)
  · obtain ⟨t, _, ht⟩ := hl.parked (by rw [← hstage, hsent]; exact nofun)
    exact hf.last ht (hl.last (hstage ▸ hsent))
  · exact hf.quiet (hl.quiet (hstage ▸ hacked))
  · rw [hs.accepted]
    exact hl.accepted

end Passes

section Host

variable {w w' : World}

/-- As far as correlation goes, `t'` is `t`. -/
structure SameConn (t t' : Transport) : Prop where
  inbox : t'.inbox = t.inbox
  nextRid : t'.nextRid = t.nextRid
  base : t'.base = t.base
  out : ∀ o' ∈ t'.outstanding, ∃ o ∈ t.outstanding, o.ticket = o'.ticket ∧ o.app = o'.app

theorem SameConn.refl (t : Transport) : SameConn t t := ⟨rfl, rfl, rfl, fun o ho => ⟨o, ho, rfl, rfl⟩⟩

/-- As far as correlation goes, `w'` is `w`. -/
structure SameLink (w w' : World) : Prop where
  t : SameConn w.t w'.t
  issued : w'.issued = w.issued
  issues : w'.led.issues = w.led.issues
  toCart : w'.toCart = w.toCart
  toHost : w'.toHost = w.toHost
  parked : w'.parked = w.parked
  stage : w'.led.stage = w.led.stage
  accepted : w'.led.accepted = w.led.accepted

theorem Tracked.congr {t t' : Transport} (ht : Tracked w t) (hc : SameConn t t') (hissued : w'.issued = w.issued)
    (hissues : w'.led.issues = w.led.issues) (hcart : w'.toCart = w.toCart) (hhost : w'.toHost = w.toHost) :
    Tracked w' t' := by
  have hcur : ∀ tag, Current w.issued t.base tag → Current w'.issued t'.base tag := fun tag h =>
    ⟨hc.base ▸ h.base, hissued ▸ h.le, hissued ▸ h.window⟩
  refine ⟨?_, ?_, ?_, fun p hp => ?_, fun r hr => ?_, fun o' ho' => ?_⟩
  · rw [hc.base, hissued]
    exact ht.base_le
  · rw [hc.base, hc.nextRid, hissued]
    exact ht.next
  · rw [hc.base, hissued, hissues]
    exact ht.rids
  · rw [hissues]
    exact (ht.sent p (hcart ▸ hp)).imp id fun ⟨h, h'⟩ => ⟨hcur _ h, h'⟩
  · rw [hissues]
    rw [hc.inbox, hhost] at hr
    exact (ht.got r hr).imp id fun ⟨h, h'⟩ => ⟨hcur _ h, h'⟩
  · obtain ⟨o, ho, hticket, happ⟩ := hc.out o' ho'
    rw [hc.base, hissued, hissues, ← hticket, ← happ]
    exact ht.out o ho

theorem Linked.congr (hl : Linked w) (h : SameLink w w') : Linked w' := by
  refine ⟨?_, fun hup => ?_, fun hup => ?_, fun hup => ?_, fun hsent => ?_, fun hacked => ?_, ?_⟩
  · rw [h.issued, h.issues]
    exact hl.older
  · exact (hl.up (h.stage ▸ hup)).congr h.t h.issued h.issues h.toCart h.toHost
  · obtain ⟨t, hpark, ht⟩ := hl.parked (h.stage ▸ hup)
    exact ⟨t, h.parked.trans hpark, ht.congr (.refl t) h.issued h.issues h.toCart h.toHost⟩
  · obtain ⟨hbase, hnext, hout⟩ := hl.fresh (h.stage ▸ hup)
    refine ⟨by rw [h.t.base, h.issued]; exact hbase, h.t.nextRid.trans hnext, Option.eq_none_iff_forall_not_mem.mpr ?_⟩
    intro o' ho'
    obtain ⟨o, ho, _⟩ := h.t.out o' ho'
    rw [hout] at ho
    exact nomatch ho
  · unfold HelloLast
    rw [h.t.inbox, h.toHost, h.toCart]
    exact hl.last (h.stage ▸ hsent)
  · rw [h.t.inbox, h.toHost, h.toCart]
    exact hl.quiet (h.stage ▸ hacked)
  · rw [h.accepted]
    exact hl.accepted

theorem Own.same (h : Own w w') : SameLink w w' := by
  cases h <;> exact ⟨⟨rfl, rfl, rfl, fun o ho => ⟨o, ho, rfl, rfl⟩⟩, rfl, rfl, rfl, rfl, rfl, rfl, rfl⟩

theorem Own.terms (h : Own w w') : w'.led.terms = w.led.terms := by cases h <;> rfl

theorem answered_same (t : Transport) (k : Ticket) : SameConn t (t.answered k) := by
  unfold Transport.answered
  split
  · exact .refl t
  · split
    · exact ⟨rfl, rfl, rfl, nofun⟩
    · exact .refl t

theorem SameConn.trans {t t' t'' : Transport} (h : SameConn t t') (h' : SameConn t' t'') : SameConn t t'' := by
  refine ⟨h'.inbox.trans h.inbox, h'.nextRid.trans h.nextRid, h'.base.trans h.base, fun o' ho' => ?_⟩
  obtain ⟨o, ho, ht, ha⟩ := h'.out o' ho'
  obtain ⟨o₂, ho₂, ht₂, ha₂⟩ := h.out o ho
  exact ⟨o₂, ho₂, ht₂.trans ht, ha₂.trans ha⟩

/-- The ticket of the open connection stands for its rid's count. -/
theorem Linked.owned (hl : Linked w) (ht : Tracked w w.t) {k : Ticket} (hk : w.Owns k) :
    w.t.base < k.tag ∧ k.rid = ridAt (k.tag - w.t.base) := by
  have hbase := hl.older k.tag hk.pos hk.le
  rw [hk.base] at hbase
  exact ⟨hbase, hk.rid.symm.trans (ht.rids _ hbase hk.le)⟩

/-- A reply under the rid of `k` is the reply to `k`. -/
theorem Tracked.reply_eq {t : Transport} (ht : Tracked w t) {r : Reply} {k : Ticket} (hr : r ∈ t.inbox ++ w.toHost)
    (hack : isHelloAck r.bytes = false) (hk : t.base < k.tag) (hkle : k.tag ≤ w.issued)
    (hrid : readBe16 r.bytes 5 = ridAt (k.tag - t.base)) (hwin : w.issued < k.tag + window) :
    Answered ⟨k.tag, (w.led.issues k.tag).body, r⟩ := by
  rcases ht.got r hr with h | ⟨hcur, hreq, hnames, hrr⟩
  · exact absurd (h.symm.trans hack) (by decide)
  have hb := hcur.base
  have hle := hcur.le
  have hw := hcur.window
  have heq := ridAt_inj (by omega) (by omega) (by omega) (by omega)
    ((ht.rids _ hb hle).symm.trans (hrr.symm.trans hrid))
  have htag : r.tag = k.tag := by omega
  refine ⟨htag, htag ▸ hreq, ?_⟩
  rw [← htag, ← hreq, hnames.rid, ht.rids _ hb hle]
  exact ridAt_ne_zero _

/-- The host's part of reading one reply, before it decides whether it is
wanted. -/
theorem Linked.dropHead (hl : Linked w) {r : Reply} {rest : List Reply} (hbox : w.t.inbox = r :: rest)
    (hup : w.led.stage = .up) (hc : SameConn { w.t with inbox := rest } w'.t) (hissued : w'.issued = w.issued)
    (hissues : w'.led.issues = w.led.issues) (hcart : w'.toCart = w.toCart) (hhost : w'.toHost = w.toHost)
    (hstage : w'.led.stage = w.led.stage)
    (hacc : ∀ a ∈ w'.led.accepted, a ∈ w.led.accepted ∨ Answered a) : Linked w' := by
  have ht := hl.up hup
  have ht' : Tracked w { w.t with inbox := rest } :=
    ⟨ht.base_le, ht.next, ht.rids, ht.sent,
      fun x hx => ht.got x (by rw [hbox]; exact List.mem_cons_of_mem _ hx), ht.out⟩
  have hno : ∀ s : Stage, s ≠ .up → w'.led.stage ≠ s := fun s hs heq => hs (heq.symm.trans (hstage.trans hup))
  refine ⟨?_, fun _ => ht'.congr hc hissued hissues hcart hhost, fun h => absurd (hstage.trans hup) h,
    fun h => absurd (hstage.trans hup) h, fun h => absurd h (hno _ nofun), fun h => absurd h (hno _ nofun),
    fun a ha => (hacc a ha).elim (hl.accepted a) id⟩
  rw [hissued, hissues]
  exact hl.older

theorem Correlated.read (hc : Correlated w) (hup : w.led.stage = .up) {k : Ticket} (hk : w.Owns k) :
    Correlated (w.read (.rid k)) := by
  unfold World.read
  split
  · exact hc
  next r rest hbox =>
    split
    · exact fun h h' => (hc h h').dropHead hbox hup (.refl _) rfl rfl rfl rfl rfl fun a ha => .inl ha
    next resp hp =>
      have hsame : SameConn { w.t with inbox := rest } ({ w.t with inbox := rest }.keepWatchTrailer resp) :=
        ⟨rfl, rfl, rfl, fun o ho => ⟨o, ho, rfl, rfl⟩⟩
      simp only
      cases hm : (Want.rid k).matches resp with
      | false =>
        rw [if_neg Bool.false_ne_true]
        exact fun h h' => (hc h h').dropHead hbox hup hsame rfl rfl rfl rfl rfl fun a ha => .inl ha
      | true =>
        rw [if_pos rfl]
        intro h h'
        obtain ⟨hwin, hkwin⟩ := Bool.and_eq_true_iff.mp h'
        have hl := hc h hwin
        have ht := hl.up hup
        obtain ⟨hbase, hkrid⟩ := hl.owned ht hk
        refine hl.dropHead hbox hup (hsame.trans (answered_same _ k)) rfl rfl rfl rfl rfl fun a ha => ?_
        rcases List.mem_append.mp ha with hold | hnew
        · exact .inl hold
        · cases List.mem_singleton.mp hnew
          have hrid : resp.rid = some k.rid := of_decide_eq_true hm
          have hprid := parse_rid hp
          have hack : isHelloAck r.bytes = false := by
            cases hx : isHelloAck r.bytes with
            | false => rfl
            | true => simp [hx, hrid] at hprid
          rw [hack, hrid] at hprid
          simp only [Bool.false_eq_true, if_false, Option.some.injEq] at hprid
          exact .inr (ht.reply_eq (by rw [hbox]; exact List.mem_cons_self) hack hbase hk.le
            (hprid.symm.trans hkrid) (of_decide_eq_true hkwin))

/-- An open connection's state after a step that keeps the stage. -/
theorem Linked.opened (hl : Linked w) (hup : w.led.stage = .up) (hstage : w'.led.stage = w.led.stage)
    (hacc : w'.led.accepted = w.led.accepted) (ht : Tracked w' w'.t)
    (holder : ∀ tag, 0 < tag → tag ≤ w'.issued → (w'.led.issues tag).base < tag) : Linked w' := by
  have hno : ∀ s : Stage, s ≠ .up → w'.led.stage ≠ s := fun s hs heq => hs (heq.symm.trans (hstage.trans hup))
  refine ⟨holder, fun _ => ht, fun h => absurd (hstage.trans hup) h, fun h => absurd (hstage.trans hup) h,
    fun h => absurd h (hno _ nofun), fun h => absurd h (hno _ nofun), ?_⟩
  rw [hacc]
  exact hl.accepted

theorem mem_inFlight_sent {p : Sent} (hp : p ∈ w.toCart) (hno : isHello p.bytes = false) : p.tag ∈ w.inFlight :=
  List.mem_append_right _ (List.mem_map.mpr ⟨p, List.mem_filter.mpr ⟨hp, by rw [hno]; rfl⟩, rfl⟩)

theorem mem_inFlight_got {r : Reply} (hr : r ∈ w.t.inbox ++ w.toHost) (hno : isHelloAck r.bytes = false) :
    r.tag ∈ w.inFlight :=
  List.mem_append_left _ (List.mem_map.mpr ⟨r, List.mem_filter.mpr ⟨hr, by rw [hno]; rfl⟩, rfl⟩)

theorem Correlated.issue (hc : Correlated w) (hup : w.led.stage = .up) : Correlated w.issue := by
  intro h h'
  obtain ⟨hwin, hall⟩ := Bool.and_eq_true_iff.mp h'
  have hl := hc h hwin
  have ht := hl.up hup
  have hb := ht.base_le
  have hlast : w.issue.led.issues (w.issued + 1) = ⟨w.t.base, w.t.nextRid, []⟩ := Function.update_self ..
  have hold : ∀ tag ≤ w.issued, w.issue.led.issues tag = w.led.issues tag := fun tag hle =>
    Function.update_of_ne (by omega) ..
  have hcur : ∀ tag, Current w.issued w.t.base tag → tag ∈ w.inFlight → Current w.issue.issued w.t.base tag := fun tag hcur hmem =>
    ⟨hcur.base, Nat.le_succ_of_le hcur.le, of_decide_eq_true (List.all_eq_true.mp hall tag hmem)⟩
  refine hl.opened hup rfl rfl ⟨Nat.le_succ_of_le hb, ?_, fun tag hlt hle => ?_, fun p hp => ?_, fun r hr => ?_,
    fun o ho => ?_⟩ fun tag hpos hle => ?_
  · change ridSucc w.t.nextRid = ridAt (w.issued + 1 + 1 - w.t.base)
    rw [ht.next, ridAt_succ (by omega)]
    congr 1
    omega
  · rcases Nat.lt_or_eq_of_le (show tag ≤ w.issued + 1 from hle) with hlt' | rfl
    · rw [hold tag (by omega)]
      exact ht.rids tag hlt (by omega)
    · rw [hlast]
      exact ht.next
  · cases hno : isHello p.bytes with
    | true => exact .inl rfl
    | false =>
      obtain ⟨hcurrent, hrest⟩ := (ht.sent p hp).resolve_left (by rw [hno]; decide)
      rw [hold p.tag hcurrent.le]
      exact .inr ⟨hcur _ hcurrent (mem_inFlight_sent hp hno), hrest⟩
  · cases hno : isHelloAck r.bytes with
    | true => exact .inl rfl
    | false =>
      obtain ⟨hcurrent, hrest⟩ := (ht.got r hr).resolve_left (by rw [hno]; decide)
      rw [hold r.tag hcurrent.le]
      exact .inr ⟨hcur _ hcurrent (mem_inFlight_got hr hno), hrest⟩
  · obtain ⟨hlt, hle, hbody, hnames⟩ := ht.out o ho
    rw [hold _ hle]
    exact ⟨hlt, Nat.le_succ_of_le hle, hbody, hnames⟩
  · rcases Nat.lt_or_eq_of_le (show tag ≤ w.issued + 1 from hle) with hlt' | rfl
    · rw [hold tag (by omega)]
      exact hl.older tag hpos (by omega)
    · rw [hlast]
      exact Nat.lt_succ_of_le hb

theorem Correlated.send (hc : Correlated w) (hup : w.led.stage = .up) {k : Ticket} {app : Bytes} (mayCopy : Bool)
    (hk : w.Unsent k) (hn : Names app k.rid) : Correlated (w.send k app mayCopy) := by
  intro h h'
  have hl := hc h h'
  have ht := hl.up hup
  obtain ⟨hbase, hrid⟩ := hl.owned ht hk.toOwns
  have hself : (w.send k app mayCopy).led.issues k.tag = { w.led.issues k.tag with body := app } :=
    Function.update_self ..
  have hold : ∀ tag ≠ k.tag, (w.send k app mayCopy).led.issues tag = w.led.issues tag := fun tag hne =>
    Function.update_of_ne hne ..
  have hids : ∀ tag, ((w.send k app mayCopy).led.issues tag).base = (w.led.issues tag).base ∧
      ((w.send k app mayCopy).led.issues tag).rid = (w.led.issues tag).rid := by
    intro tag
    by_cases hne : tag = k.tag
    · rw [hne, hself]
      exact ⟨rfl, rfl⟩
    · rw [hold tag hne]
      exact ⟨rfl, rfl⟩
  -- Nothing was sent for `k` yet.
  have hsent : ∀ {tag rid} {b : Bytes}, b = (w.led.issues tag).body → Names b rid → tag ≠ k.tag := by
    intro tag rid b hb hnames heq
    exact hnames.ne_nil (by rw [hb, heq, hk.body])
  refine hl.opened hup rfl rfl ⟨ht.base_le, ht.next, fun tag hlt hle => ?_, fun p hp => ?_, fun r hr => ?_,
    fun o ho => ?_⟩ fun tag hpos hle => ?_
  · rw [(hids tag).2]
    exact ht.rids tag hlt hle
  · rcases List.mem_append.mp hp with hp | hp
    · refine (ht.sent p hp).imp id fun ⟨hcur, hb, hnames⟩ => ?_
      rw [hold _ (hsent hb hnames)]
      exact ⟨⟨hcur.base, hcur.le, hcur.window⟩, hb, hnames⟩
    · cases List.mem_singleton.mp hp
      have hlast := hk.last
      have hw : window = 65535 := rfl
      refine .inr ⟨⟨hbase, hk.le, ?_⟩, by rw [hself], ?_⟩
      · change w.issued < k.tag + window
        omega
      · rw [(hids k.tag).2, hk.rid]
        exact hn
  · refine (ht.got r hr).imp id fun ⟨hcur, hb, hnames, hrr⟩ => ?_
    rw [hold _ (hsent hb hnames)]
    exact ⟨⟨hcur.base, hcur.le, hcur.window⟩, hb, hnames, hrr⟩
  · cases ho
    refine ⟨hbase, hk.le, by rw [hself], ?_⟩
    rw [(hids k.tag).2, hk.rid]
    exact hn
  · rw [(hids tag).1]
    exact hl.older tag hpos hle

theorem Correlated.copy (hc : Correlated w) (hup : w.led.stage = .up) {k : Ticket} {app : Bytes}
    (hb : Linked w → w.t.base < k.tag ∧ k.tag ≤ w.issued ∧ (w.led.issues k.tag).body = app ∧
      Names app (w.led.issues k.tag).rid) : Correlated (w.copy k app) := by
  intro h h'
  obtain ⟨hwin, hkwin⟩ := Bool.and_eq_true_iff.mp h'
  have hl := hc h hwin
  have ht := hl.up hup
  obtain ⟨hbase, hle, hbody, hnames⟩ := hb hl
  refine hl.opened hup rfl rfl ⟨ht.base_le, ht.next, ht.rids, fun p hp => ?_, ht.got, ht.out⟩ hl.older
  rcases List.mem_append.mp hp with hp | hp
  · exact ht.sent p hp
  · cases List.mem_singleton.mp hp
    exact .inr ⟨⟨hbase, hle, of_decide_eq_true hkwin⟩, hbody.symm, hnames⟩

theorem Correlated.op (hc : Correlated w) (h : Op w w') (hup : w.led.stage = .up) : Correlated w' := by
  cases h with
  | passes h =>
    have hterms := h.same.terms
    intro hclear hwin
    rw [hterms] at hclear hwin
    exact (hc hclear hwin).passes h
  | read k hk => exact hc.read hup hk
  | issue => exact hc.issue hup
  | send k app mayCopy hk hn => exact hc.send hup mayCopy hk hn
  | copy k app hk hn =>
    refine hc.copy hup fun hl => ?_
    obtain ⟨hbase, _⟩ := hl.owned (hl.up hup) hk.toOwns
    exact ⟨hbase, hk.le, hk.body, by rw [hk.rid]; exact hn⟩
  | copyOutstanding =>
    unfold World.copyOutstanding
    cases ho : w.t.outstanding with
    | none => exact hc
    | some o => exact hc.copy hup fun hl => (hl.up hup).out o ho
  | markCopied =>
    refine fun hclear hwin => (hc hclear hwin).congr ⟨⟨rfl, rfl, rfl, fun o' ho' => ?_⟩, rfl, rfl, rfl, rfl, rfl, rfl, rfl⟩
    obtain ⟨o, ho, heq⟩ := Option.map_eq_some_iff.mp ho'
    cases heq
    exact ⟨o, ho, rfl, rfl⟩
  | _ =>
    exact fun hclear hwin => (hc hclear hwin).congr
      ⟨⟨rfl, rfl, rfl, fun o ho => ⟨o, ho, rfl, rfl⟩⟩, rfl, rfl, rfl, rfl, rfl, rfl, rfl⟩

end Host

section Greet

variable {w w' : World}

theorem Correlated.greet (hc : Correlated w) (hup : w.led.stage = .up) : Correlated w.greet := by
  intro h h'
  have hl := hc h h'
  exact ⟨hl.older, nofun, fun _ => ⟨w.t, rfl, (hl.up hup).congr (.refl _) rfl rfl rfl rfl⟩, fun _ => ⟨rfl, rfl, rfl⟩,
    nofun, nofun, hl.accepted⟩

theorem Correlated.sendHello (hc : Correlated w) (hopened : w.led.stage = .opened) : Correlated w.sendHello := by
  intro h h'
  obtain ⟨hclear, hnone⟩ := Bool.and_eq_true_iff.mp h
  have hl := hc hclear h'
  have hne : w.led.stage ≠ .up := by rw [hopened]; exact nofun
  simp only [Bool.not_eq_true', Bool.or_eq_false_iff, List.any_eq_false, Bool.not_eq_true] at hnone
  refine ⟨hl.older, nofun, fun _ => ?_, fun _ => hl.fresh hne, fun _ => ?_, nofun, hl.accepted⟩
  · obtain ⟨t, hpark, ht⟩ := hl.parked hne
    refine ⟨t, hpark, ht.base_le, ht.next, ht.rids, fun p hp => ?_, ht.got, ht.out⟩
    rcases List.mem_append.mp hp with hp | hp
    · exact ht.sent p hp
    · cases List.mem_singleton.mp hp
      exact .inl rfl
  · have hall : ∀ a ∈ (w.t.inbox ++ w.toHost).map (isHelloAck ·.bytes) ++ w.toCart.map (isHello ·.bytes),
        a = false := by
      intro a ha
      rcases List.mem_append.mp ha with ha | ha
      · obtain ⟨r, hr, rfl⟩ := List.mem_map.mp ha
        exact hnone.2 r hr
      · obtain ⟨p, hp, rfl⟩ := List.mem_map.mp ha
        exact hnone.1 p hp
    unfold HelloLast
    simp only [World.sendHello, List.map_append, ← List.append_assoc]
    refine List.pairwise_append.mpr ⟨?_, List.pairwise_singleton _ _, fun a ha _ _ => ?_⟩
    · rw [← List.map_append]
      exact List.Pairwise.imp_of_mem (fun ha _ _ => hall _ ha) (List.pairwise_of_forall fun _ _ => trivial)
    · rw [← List.map_append] at ha
      exact hall a ha

theorem Correlated.readHello (hc : Correlated w) (hsent : w.led.stage = .sent) : Correlated (w.read .hello) := by
  have hne : w.led.stage ≠ .up := by rw [hsent]; exact nofun
  unfold World.read
  split
  · exact hc
  next r rest hbox =>
    have hskip : ∀ {w₂ : World}, SameConn { w.t with inbox := rest } w₂.t → w₂.issued = w.issued →
        w₂.led.issues = w.led.issues → w₂.toCart = w.toCart → w₂.toHost = w.toHost → w₂.parked = w.parked →
        w₂.led.accepted = w.led.accepted → (w₂.led.stage = .sent ∨
          w₂.led.stage = .acked ∧ w₂.t.inbox = [] ∧ w₂.toHost = [] ∧ w₂.toCart = []) →
        Linked w → Linked w₂ := by
      intro w₂ hconn hissued hissues hcart hhost hparked hacc hstage hl
      have hne₂ : w₂.led.stage ≠ .up := by
        rcases hstage with h | h
        · rw [h]; exact nofun
        · rw [h.1]; exact nofun
      refine ⟨by rw [hissued, hissues]; exact hl.older, fun h => absurd h hne₂, fun _ => ?_, fun _ => ?_, fun h => ?_,
        fun h => ?_, by rw [hacc]; exact hl.accepted⟩
      · obtain ⟨t, hpark, ht⟩ := hl.parked hne
        exact ⟨t, hparked.trans hpark, ht.congr (.refl t) hissued hissues hcart hhost⟩
      · obtain ⟨hbase, hnext, hout⟩ := hl.fresh hne
        refine ⟨by rw [hconn.base, hissued]; exact hbase, hconn.nextRid.trans hnext,
          Option.eq_none_iff_forall_not_mem.mpr fun o' ho' => ?_⟩
        obtain ⟨o, ho, _⟩ := hconn.out o' ho'
        exact nomatch (show some o = none from (show w.t.outstanding = some o from ho).symm.trans hout)
      · have hlast := hl.last hsent
        unfold HelloLast at hlast ⊢
        rw [hbox] at hlast
        rw [hconn.inbox, hhost, hcart]
        exact hlast.sublist (List.sublist_cons_self ..)
      · exact (hstage.resolve_left (by rw [h]; exact nofun)).2
    split
    · exact fun h h' => hskip (.refl _) rfl rfl rfl rfl rfl rfl (.inl hsent) (hc h h')
    next resp hp =>
      have hsame : SameConn { w.t with inbox := rest } ({ w.t with inbox := rest }.keepWatchTrailer resp) :=
        ⟨rfl, rfl, rfl, fun o ho => ⟨o, ho, rfl, rfl⟩⟩
      simp only
      cases hm : Want.hello.matches resp with
      | false =>
        rw [if_neg Bool.false_ne_true]
        exact fun h h' => hskip hsame rfl rfl rfl rfl rfl rfl (.inl hsent) (hc h h')
      | true =>
        rw [if_pos rfl]
        intro h h'
        have hl := hc h h'
        have hrid : resp.rid = none := by
          cases resp with
          | helloAck => rfl
          | _ => exact nomatch hm
        have hack := isHelloAck_of_parse hp hrid
        have hlast := hl.last hsent
        unfold HelloLast at hlast
        rw [hbox, List.cons_append, List.map_cons, List.cons_append, List.pairwise_cons] at hlast
        have hnil : (rest ++ w.toHost).map (isHelloAck ·.bytes) ++ w.toCart.map (isHello ·.bytes) = [] :=
          List.eq_nil_iff_forall_not_mem.mpr fun a ha => by
            have := hlast.1 a ha
            rw [hack] at this
            exact nomatch this
        simp only [List.append_eq_nil_iff, List.map_eq_nil_iff] at hnil
        exact hskip hsame rfl rfl rfl rfl rfl rfl (.inr ⟨rfl, hnil.1.1, hnil.1.2, hnil.2⟩) hl

theorem Correlated.greeting (hc : Correlated w) (h : Greeting w w') : Correlated w' := by
  cases h with
  | greet hup => exact hc.greet hup
  | sendHello hopened => exact hc.sendHello hopened
  | read hsent => exact hc.readHello hsent
  | greeted rdramBytes flags romBytes watchSlots cart hacked =>
    exact fun hclear hwin => (hc hclear hwin).congr
      ⟨⟨rfl, rfl, rfl, fun o ho => ⟨o, ho, rfl, rfl⟩⟩, rfl, rfl, rfl, rfl, rfl, rfl, rfl⟩
  | keep hacked =>
    intro hclear hwin
    have hl := hc hclear hwin
    obtain ⟨hbox, hhost, hcart⟩ := hl.quiet hacked
    obtain ⟨hbase, hnext, hout⟩ := hl.fresh (by rw [hacked]; exact nofun)
    refine ⟨hl.older, fun _ => ⟨hbase.le, ?_, fun tag hlt hle => ?_, fun p hp => ?_, fun r hr => ?_, fun o ho => ?_⟩,
      fun h => absurd rfl h, fun h => absurd rfl h, nofun, nofun, hl.accepted⟩
    · change w.t.nextRid = ridAt (w.issued + 1 - w.t.base)
      rw [hnext, hbase, Nat.add_sub_cancel_left]
      rfl
    · change w.t.base < tag at hlt
      change tag ≤ w.issued at hle
      omega
    · change p ∈ w.toCart at hp
      rw [hcart] at hp
      exact nomatch hp
    · change r ∈ w.t.inbox ++ w.toHost at hr
      rw [hbox, hhost] at hr
      exact nomatch hr
    · change w.t.outstanding = some o at ho
      rw [hout] at ho
      exact nomatch ho
  | restore hne =>
    intro hclear hwin
    have hl := hc hclear hwin
    obtain ⟨t, hpark, ht⟩ := hl.parked hne
    refine ⟨hl.older, fun _ => ?_, fun h => absurd rfl h, fun h => absurd rfl h, nofun, nofun, hl.accepted⟩
    have heq : w.restore.t = t := by rw [World.restore, hpark]; rfl
    rw [heq]
    exact ht.congr (.refl t) rfl rfl rfl rfl

end Greet

theorem Correlated.step {w w' : World} (hc : Correlated w) (h : Step w w') : Correlated w' := by
  cases h with
  | passes h =>
    have hterms := h.same.terms
    intro hclear hwin
    rw [hterms] at hclear hwin
    exact (hc hclear hwin).passes h
  | op h hup => exact hc.op h hup
  | own h hup =>
    intro hclear hwin
    rw [h.terms] at hclear hwin
    exact (hc hclear hwin).congr h.same
  | greeting h => exact hc.greeting h

theorem correlated_start (cart : Cart) (status : Option DaemonStatus) (patience softRetries : Nat)
    (sched : List Event) : Correlated (Backend.start cart status patience softRetries sched) := by
  refine fun _ _ => ⟨fun tag hpos hle => ?_, fun _ => ⟨Nat.le_refl _, rfl, fun tag hlt hle => ?_, nofun, nofun, nofun⟩,
    fun h => absurd rfl h, fun h => absurd rfl h, nofun, nofun, nofun⟩
  · exact absurd hpos (Nat.not_lt.mpr hle)
  · exact absurd hlt (Nat.not_lt.mpr hle)

theorem session_path (cart : Cart) (status : Option DaemonStatus) (patience softRetries : Nat)
    (sched : List Event) (calls : List Backend.Call) :
    Relation.ReflTransGen Step (Backend.start cart status patience softRetries sched)
      (Backend.session calls (Backend.start cart status patience softRetries sched)).2 :=
  (Backend.session_keeps calls _ (show (Backend.start cart status patience softRetries sched).led.stage = .up from rfl)).1

/-- In a session in which every `HELLO` went out with none before it in
flight, and no request was in flight or awaited for as long as its rid takes to
come round, every response taken for a request is the agent's answer to that
request. -/
theorem session_correlated (cart : Cart) (status : Option DaemonStatus) (patience softRetries : Nat)
    (sched : List Event) (calls : List Backend.Call) :
    let w := (Backend.session calls (Backend.start cart status patience softRetries sched)).2
    w.led.terms.helloClear = true → w.led.terms.window = true →
      ∀ a ∈ w.led.accepted, Answered a := by
  intro w hclear hwin
  exact (Eff.path_invariant (fun _ _ h hc => Correlated.step hc h)
    (session_path cart status patience softRetries sched calls)
    (correlated_start cart status patience softRetries sched) hclear hwin).accepted

section Schedules

/-- An agent of the full build, in a console of 64 bytes that hold their own
addresses. -/
def smallCart : Cart :=
  ⟨fun rom => ⟨true, 1024, fun _ => UInt8.ofNat rom, fun _ => false⟩, 0,
    { bareProto with ram := ⟨64, UInt8.ofNat⟩ }, true⟩

def sc64Daemon : Option DaemonStatus := some ⟨some true, some .sc64⟩

theorem session_correlated_alive :
    let w := (Backend.session [.alive] (Backend.start smallCart sc64Daemon 2 2 [.serve, .deliver, .serve, .deliver])).2
    w.led.accepted.length = 1 ∧ ∀ a ∈ w.led.accepted, Answered a :=
  ⟨by decide +kernel, session_correlated smallCart sc64Daemon 2 2 _ _ (by decide +kernel) (by decide +kernel)⟩

/-- The second `HELLO` is given up before it is served, and its answer is
taken for the third's. -/
def lateHello : List Event :=
  [.serve, .deliver, .timeout, .timeout, .timeout, .resume, .timeout, .resume] ++
    List.replicate 4 .serve ++ List.replicate 4 .deliver ++
    [.serve, .serve, .timeout, .timeout, .timeout, .timeout, .resume, .deliver, .deliver]

/-- A read of the bytes at 8 is answered with the bytes at 0, which a request
of the connection before asked for. -/
theorem session_not_correlated :
    let w := (Backend.session [.readMany [(0, 4)]] (Backend.start smallCart sc64Daemon 2 2 lateHello)).2
    let r := Backend.readMany [(8, 4)] w
    r.1 = .ok [[0, 1, 2, 3]] ∧ r.2.led.terms.window = true ∧
      ∃ a ∈ r.2.led.accepted, a.reply.tag ≠ a.want ∧ a.reply.request ≠ a.asked := by
  decide +kernel

end Schedules

end Multi64
