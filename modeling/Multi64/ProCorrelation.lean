import Multi64.ProLink

/-! Whose reply a command reads. A command begun with nothing of an earlier
one's replies still to come reads its own, and one that succeeds was carried
out. -/

namespace Multi64

namespace ProLink

variable {w w' : ProWorld} {c : ProCart} {P Q : ProCart → Prop} {α : Type}

section Queue

/-- Carrying the queue out sends nothing, and ends in a cart with `P`. -/
def Silent (P : ProCart → Prop) : List (Nat × Request) → ProCart → Prop
  | [], c => P c
  | (id, r) :: qs, c => ∀ o, (c.exec id r o).1 = [] ∧ Silent P qs (c.exec id r o).2

theorem Silent.append {qs : List (Nat × Request)} {id : Nat} {r : Request} (h : Silent P qs c)
    (hr : ∀ c o, P c → (c.exec id r o).1 = [] ∧ Q (c.exec id r o).2) : Silent Q (qs ++ [(id, r)]) c := by
  induction qs generalizing c with
  | nil => exact fun o => hr c o h
  | cons q qs ih => exact fun o => ⟨(h o).1, ih (h o).2⟩

theorem Silent.mono {qs : List (Nat × Request)} (h : Silent P qs c) (hpq : ∀ c, P c → Q c) : Silent Q qs c := by
  induction qs generalizing c with
  | nil => exact hpq c h
  | cons q qs ih => exact fun o => ⟨(h o).1, ih (h o).2⟩

/-- Nothing is to be read, and the cart ends what it has been sent in `P`. -/
structure Quiet (P : ProCart → Prop) (w : ProWorld) : Prop where
  wire : w.wire = []
  silent : Silent P w.toCart w.cart

/-- No reply to an earlier command is still to come, and no transfer is under
way. -/
def Clean (w : ProWorld) : Prop := Quiet (fun c => c.writing = none) w

/-- The cart has done all it was sent, and `b` is on the wire. -/
structure Holding (c : ProCart) (b : Bytes) (w : ProWorld) : Prop where
  cart : w.cart = c
  toCart : w.toCart = []
  wire : w.wire = b

theorem Holding.quiet (h : Holding c [] w) (hp : P c) : Quiet P w := by
  refine ⟨h.wire, ?_⟩
  rw [h.toCart, h.cart]
  exact hp

theorem Holding.turns {b : Bytes} (h : Holding c b w) (os : List Outcome) : w.turns os = w := by
  induction os with
  | nil => rfl
  | cons o os ih =>
    have hturn : w.turn o = w := by simp only [ProWorld.turn, h.toCart]
    show (w.turn o).turns os = w
    rw [hturn, ih]

/-- With one request behind a silent queue, the cart has either not come to it,
or has, and its reply is all there is. -/
theorem turns_asked {id : Nat} {r : Request} {qs : List (Nat × Request)} (hwire : w.wire = []) (hqs : w.toCart = qs ++ [(id, r)])
    (h : Silent P qs w.cart) (os : List Outcome) :
    (w.turns os).wire = [] ∨ ∃ c o, P c ∧ Holding (c.exec id r o).2 (c.exec id r o).1 (w.turns os) := by
  induction os generalizing w qs with
  | nil => exact .inl hwire
  | cons o os ih =>
    cases qs with
    | nil =>
      have hturn : w.turn o = { w with
          cart := (w.cart.exec id r o).2, toCart := [], wire := w.wire ++ (w.cart.exec id r o).1 } := by
        simp only [ProWorld.turn, hqs, List.nil_append]
      have hhold : Holding (w.cart.exec id r o).2 (w.cart.exec id r o).1 (w.turn o) := by
        rw [hturn]
        exact ⟨rfl, rfl, by rw [hwire, List.nil_append]⟩
      have hsame : w.turns (o :: os) = w.turn o := hhold.turns os
      exact .inr ⟨w.cart, o, h, hsame ▸ hhold⟩
    | cons q qs =>
      have hturn : w.turn o = { w with
          cart := (w.cart.exec q.1 q.2 o).2
          toCart := qs ++ [(id, r)]
          wire := w.wire ++ (w.cart.exec q.1 q.2 o).1 } := by
        simp only [ProWorld.turn, hqs, List.cons_append]
      refine @ih (w.turn o) qs ?_ ?_ ?_
      · rw [hturn]
        simp only [hwire, (h o).1, List.append_nil]
      · rw [hturn]
      · rw [hturn]
        exact (h o).2

theorem turns_next (w : ProWorld) (os : List Outcome) : (w.turns os).next = w.next := by
  induction os generalizing w with
  | nil => rfl
  | cons o os ih =>
    have hturn : (w.turn o).next = w.next := by
      unfold ProWorld.turn
      cases w.toCart <;> rfl
    exact (ih (w.turn o)).trans hturn

end Queue

section Reads

theorem readExact_ok {n : Nat} {b : Bytes} (hn : n ≠ 0) (h : readExact n w = (.ok b, w')) :
    ∃ os rest, let x := ({ w with schedule := rest }).turns os
      n ≤ x.wire.length ∧ b = x.wire.take n ∧ w' = { x with wire := x.wire.drop n } := by
  rw [readExact, if_neg hn] at h
  cases hsched : w.schedule with
  | nil =>
    simp only [hsched] at h
    exact absurd (Prod.mk.inj h).1 nofun
  | cons wait rest =>
    simp only [hsched] at h
    refine ⟨wait.turns, rest, ?_⟩
    cases hlate : wait.late with
    | some k =>
      simp only [hlate] at h
      exact absurd (Prod.mk.inj h).1 nofun
    | none =>
      simp only [hlate] at h
      by_cases hlen : n ≤ (({ w with schedule := rest } : ProWorld).turns wait.turns).wire.length
      · rw [if_pos hlen] at h
        obtain ⟨hb, rfl⟩ := Prod.mk.inj h
        exact ⟨hlen, (Except.ok.inj hb).symm, rfl⟩
      · rw [if_neg hlen] at h
        exact absurd (Prod.mk.inj h).1 nofun

/-- A read of what the wire holds. -/
theorem Holding.read {n : Nat} {b b' : Bytes} (hw : Holding c b w) (h : readExact n w = (.ok b', w')) :
    n ≤ b.length ∧ b' = b.take n ∧ Holding c (b.drop n) w' ∧ w'.next = w.next := by
  by_cases hn : n = 0
  · subst hn
    have hsame : readExact 0 w = (.ok [], w) := if_pos rfl
    obtain ⟨hb, rfl⟩ := Prod.mk.inj (hsame.symm.trans h)
    exact ⟨Nat.zero_le _, (Except.ok.inj hb).symm, hw, rfl⟩
  · obtain ⟨os, rest, hlen, rfl, rfl⟩ := readExact_ok hn h
    have hhold : Holding c b { w with schedule := rest } := ⟨hw.cart, hw.toCart, hw.wire⟩
    rw [hhold.turns os] at hlen ⊢
    have hwire : w.wire = b := hw.wire
    exact ⟨hwire ▸ hlen, congrArg (List.take n) hwire, ⟨hw.cart, hw.toCart, congrArg (List.drop n) hwire⟩, rfl⟩

/-- A read behind one request, itself behind a silent queue, is of that request's
reply. -/
theorem read_behind {n id : Nat} {b : Bytes} {r : Request} {qs : List (Nat × Request)} (hwire : w.wire = [])
    (hqs : w.toCart = qs ++ [(id, r)]) (hsilent : Silent P qs w.cart) (hn : n ≠ 0) (h : readExact n w = (.ok b, w')) :
    ∃ c o, P c ∧ n ≤ (c.exec id r o).1.length ∧ b = (c.exec id r o).1.take n ∧
      Holding (c.exec id r o).2 ((c.exec id r o).1.drop n) w' ∧ w'.next = w.next := by
  obtain ⟨os, rest, hlen, rfl, rfl⟩ := readExact_ok hn h
  rcases turns_asked (w := { w with schedule := rest }) hwire hqs hsilent os with hnone | ⟨c, o, hc, hhold⟩
  · rw [hnone] at hlen
    exact absurd (Nat.le_zero.mp hlen) hn
  · refine ⟨c, o, hc, hhold.wire ▸ hlen, congrArg (List.take n) hhold.wire, ⟨hhold.cart, hhold.toCart, congrArg (List.drop n) hhold.wire⟩, ?_⟩
    exact turns_next _ os

theorem Quiet.ask {n : Nat} {b : Bytes} {r : Request} {u : Unit} {w1 : ProWorld} (hw : Quiet P w) (hn : n ≠ 0)
    (hsend : ProLink.send r w = (.ok u, w1)) (h : readExact n w1 = (.ok b, w')) :
    ∃ c o, P c ∧ n ≤ (c.exec w.next r o).1.length ∧ b = (c.exec w.next r o).1.take n ∧
      Holding (c.exec w.next r o).2 ((c.exec w.next r o).1.drop n) w' ∧ w'.next = w.next + 1 := by
  obtain ⟨-, rfl⟩ := Prod.mk.inj hsend
  exact read_behind (w := { w with toCart := w.toCart ++ [(w.next, r)], next := w.next + 1 }) hw.wire rfl hw.silent hn h

theorem Quiet.send {r : Request} {u : Unit} (hw : Quiet P w) (hsend : ProLink.send r w = (.ok u, w'))
    (hr : ∀ c o, P c → (c.exec w.next r o).1 = [] ∧ Q (c.exec w.next r o).2) : Quiet Q w' ∧ w'.next = w.next + 1 := by
  obtain ⟨-, rfl⟩ := Prod.mk.inj hsend
  exact ⟨⟨hw.wire, hw.silent.append hr⟩, rfl⟩

end Reads

section Status

/-- A cart between two commands, with `a` among those it has carried out since
`start`. -/
structure Between (start : Nat) (c : ProCart) (a : Act) (status : UInt8) (reply : Bytes) : Prop where
  writing : c.writing = none
  entry : ∃ e ∈ c.log, start ≤ e.id ∧ e.act = a ∧ e.status = status ∧ e.reply = reply

theorem exec_act {id : Nat} (a : Act) (o : Outcome) (h : c.writing = none) : c.exec id (.act a) o = c.carryOut id a o := by
  simp only [ProCart.exec, h]

theorem exec_status {id : Nat} (o : Outcome) (h : c.writing = none) :
    c.exec id .status o = ([statusKey, protocolId, deviceIdEd64Pro, c.last], c) := by
  simp only [ProCart.exec, h]

theorem carryOut_between {start id : Nat} (a : Act) (o : Outcome) (h : c.writing = none) (hid : start ≤ id) :
    Between start (c.carryOut id a o).2 a o.status (a.reply o) :=
  ⟨h, ⟨id, a, o.status, a.reply o⟩, List.mem_append_right _ List.mem_cons_self, hid, rfl, rfl, rfl⟩

theorem identity_ok {id : Identity} (hw : Quiet P w) (hp : ∀ c, P c → c.writing = none) (h : identity w = (.ok id, w')) :
    ∃ c, P c ∧ Holding c [] w' ∧ id.status = c.last ∧ w'.next = w.next + 1 := by
  obtain ⟨_, w1, hsend, h⟩ := Eff.bind_eq_ok h
  obtain ⟨b, w2, hread, h⟩ := Eff.bind_eq_ok h
  obtain ⟨c, o, hc, hlen, rfl, hhold, hnext⟩ := hw.ask (by decide) hsend hread
  rw [exec_status o (hp c hc)] at h hhold
  obtain ⟨rfl, rfl⟩ := Eff.pure_eq_ok h
  exact ⟨c, hc, hhold, rfl, hnext⟩

theorem checkStatus_ok {u : Unit} (hw : Quiet P w) (hp : ∀ c, P c → c.writing = none) (h : checkStatus w = (.ok u, w')) :
    ∃ c, P c ∧ Holding c [] w' ∧ c.last = 0 ∧ w'.next = w.next + 1 := by
  obtain ⟨id, w1, hid, h⟩ := Eff.bind_eq_ok h
  obtain ⟨c, hc, hhold, hlast, hnext⟩ := identity_ok hw hp hid
  by_cases hzero : id.status = 0
  · rw [if_pos hzero] at h
    obtain ⟨-, rfl⟩ := Eff.pure_eq_ok h
    exact ⟨c, hc, hhold, hlast.symm.trans hzero, hnext⟩
  · rw [if_neg hzero] at h
    obtain ⟨_, w2, _, h⟩ := Eff.bind_eq_ok h
    obtain ⟨_, w3, _, h⟩ := Eff.bind_eq_ok h
    exact absurd (Prod.mk.inj h).1 nofun

theorem pathField_ok {path : Bytes} {u : Unit} (h : pathField path w = (.ok u, w')) : w' = w := by
  rw [pathField] at h
  by_cases hlen : maxPathLen < path.length
  · rw [if_pos hlen] at h
    exact absurd (Prod.mk.inj h).1 nofun
  · rw [if_neg hlen] at h
    exact (Eff.pure_eq_ok h).2

/-- A command that answers nothing, once sent. -/
theorem act_sent {a : Act} {u : Unit} (hw : Clean w) (ha : ∀ o, a.reply o = []) (hsend : send (.act a) w = (.ok u, w')) :
    Quiet (fun c => Between w.next c a c.last []) w' ∧ w'.next = w.next + 1 := by
  have hdone : ∀ (c : ProCart) o, c.writing = none → (c.exec w.next (.act a) o).1 = [] ∧
      (fun c : ProCart => Between w.next c a c.last []) (c.exec w.next (.act a) o).2 := by
    intro c o hc
    have hbetween := carryOut_between a o hc (Nat.le_refl w.next)
    rw [exec_act a o hc]
    rw [ha o] at hbetween
    exact ⟨ha o, hbetween⟩
  exact hw.send (Q := fun c => Between w.next c a c.last []) hsend hdone

theorem checked_ok {a : Act} {u : Unit} (hw : Clean w) (ha : ∀ o, a.reply o = []) (h : checked a w = (.ok u, w')) :
    ∃ c, Between w.next c a 0 [] ∧ Holding c [] w' ∧ w.next ≤ w'.next := by
  obtain ⟨_, w1, hsend, h⟩ := Eff.bind_eq_ok h
  obtain ⟨hquiet, hnext⟩ := act_sent hw ha hsend
  obtain ⟨c, hc, hhold, hlast, hnext'⟩ := checkStatus_ok hquiet (fun c hc => hc.writing) h
  exact ⟨c, hlast ▸ hc, hhold, by omega⟩

theorem checkedPath_ok {a : Bytes → Act} {path : Bytes} {u : Unit} (hw : Clean w) (ha : ∀ o, (a path).reply o = [])
    (h : checkedPath a path w = (.ok u, w')) :
    ∃ c, Between w.next c (a path) 0 [] ∧ Holding c [] w' ∧ w.next ≤ w'.next := by
  obtain ⟨_, w1, hpath, hrest⟩ := Eff.bind_eq_ok h
  rw [pathField_ok hpath] at hrest
  exact checked_ok hw ha hrest

end Status

section Transfers

theorem fit_length (n : Nat) (b : Bytes) : (fit n b).length = n := by
  simp only [fit, List.length_take, List.length_append, List.length_replicate]
  omega

theorem transferLen_ok {len : Nat} {u : Unit} (h : transferLen len w = (.ok u, w')) : w' = w := by
  rw [transferLen] at h
  by_cases hlen : 2 ^ 32 ≤ len
  · rw [if_pos hlen] at h
    exact absurd (Prod.mk.inj h).1 nofun
  · rw [if_neg hlen] at h
    exact (Eff.pure_eq_ok h).2

/-- A request for a fixed number of bytes gets the cart's answer to it. -/
theorem ask_fit {a : Act} {n : Nat} {b : Bytes} {u : Unit} {w1 : ProWorld} (hw : Quiet P w)
    (hp : ∀ c, P c → c.writing = none) (hn : n ≠ 0) (ha : ∀ o, a.reply o = fit n o.data)
    (hsend : send (.act a) w = (.ok u, w1)) (h : readExact n w1 = (.ok b, w')) :
    ∃ c o, P c ∧ b = a.reply o ∧ Holding (c.carryOut w.next a o).2 [] w' ∧ w'.next = w.next + 1 := by
  obtain ⟨c, o, hc, hlen, hb, hhold, hnext⟩ := hw.ask hn hsend h
  rw [exec_act a o (hp c hc)] at hb hhold
  have hreply : (c.carryOut w.next a o).1 = a.reply o := rfl
  have hsize : (a.reply o).length = n := by rw [ha, fit_length]
  rw [hreply, List.take_of_length_le (by omega)] at hb
  rw [hreply, List.drop_of_length_le (by omega)] at hhold
  exact ⟨c, o, hc, hb, hhold, hnext⟩

theorem fileAvailable_ok {n : Nat} (hw : Clean w) (h : fileAvailable w = (.ok n, w')) :
    ∃ c b status, Between w.next c .available status b ∧ Holding c [] w' ∧ w.next ≤ w'.next ∧
      n = (readBe32 b 0).toNat + (readBe32 b 4).toNat * 2 ^ 32 := by
  obtain ⟨_, w1, hsend, h⟩ := Eff.bind_eq_ok h
  obtain ⟨b, w2, hread, h⟩ := Eff.bind_eq_ok h
  obtain ⟨c, o, hc, rfl, hhold, hnext⟩ := ask_fit hw (fun _ => id) (by decide) (fun _ => rfl) hsend hread
  obtain ⟨rfl, rfl⟩ := Eff.pure_eq_ok h
  exact ⟨_, _, _, carryOut_between .available o hc (Nat.le_refl _), hhold, by omega, rfl⟩

theorem readFrom_ok {src : Endpoint} {addr : UInt32} {len : Nat} {b : Bytes} (hlen : len ≠ 0) (hw : Clean w)
    (h : readFrom src addr len w = (.ok b, w')) :
    ∃ c, Between w.next c (.read src addr len) 0 b ∧ Holding c [] w' ∧ w.next ≤ w'.next ∧ b.length = len := by
  rw [readFrom, if_neg hlen] at h
  obtain ⟨_, w1, hsize, h⟩ := Eff.bind_eq_ok h
  rw [transferLen_ok hsize] at h
  obtain ⟨_, w2, hsend, h⟩ := Eff.bind_eq_ok h
  obtain ⟨buf, w3, hread, h⟩ := Eff.bind_eq_ok h
  obtain ⟨_, w4, hcheck, h⟩ := Eff.bind_eq_ok h
  obtain ⟨rfl, rfl⟩ := Eff.pure_eq_ok h
  obtain ⟨c, o, hc, rfl, hhold, hnext⟩ := ask_fit hw (fun _ => id) hlen (fun _ => rfl) hsend hread
  have hbetween := carryOut_between (.read src addr len) o hc (Nat.le_refl w.next)
  have hquiet : Quiet (· = (c.carryOut w.next (.read src addr len) o).2) w3 := hhold.quiet rfl
  obtain ⟨c', rfl, hhold', hlast, hnext'⟩ := checkStatus_ok hquiet (fun c hc => hc ▸ hbetween.writing) hcheck
  have hzero : o.status = 0 := hlast
  exact ⟨_, hzero ▸ hbetween, hhold', by omega, fit_length len o.data⟩

/-- The request on its way answers with a byte, and leaves a transfer of which
`got` has come and `data` is to come. -/
def Asking (got data : Bytes) (w : ProWorld) : Prop :=
  ∃ qs id r P, w.wire = [] ∧ w.toCart = qs ++ [(id, r)] ∧ Silent P qs w.cart ∧
    ∀ c o, P c → (c.exec id r o).1 = [o.byte] ∧ (c.exec id r o).2.writing = some (data.length, got)

theorem exec_block_last {id left : Nat} {got data : Bytes} (o : Outcome) (h : c.writing = some (left, got))
    (hlast : left ≤ data.length) :
    c.exec id (.block data) o = { c with writing := none }.carryOut id (.fileWrite (got ++ data)) o := by
  simp only [ProCart.exec, h, if_neg (Nat.not_lt.mpr hlast)]

theorem exec_block_more {id left : Nat} {got data : Bytes} (o : Outcome) (h : c.writing = some (left, got))
    (hmore : data.length < left) :
    c.exec id (.block data) o = ([o.byte], { c with writing := some (left - data.length, got ++ data) }) := by
  simp only [ProCart.exec, h, if_pos hmore]

theorem sendAcked_ok (fuel : Nat) {start : Nat} {got data : Bytes} {u : Unit} (hfuel : data.length ≤ fuel) (hdata : data ≠ [])
    (hw : Asking got data w) (hstart : start ≤ w.next) (h : sendAcked fuel data w = (.ok u, w')) :
    Quiet (fun c => Between start c (.fileWrite (got ++ data)) c.last []) w' ∧ start ≤ w'.next := by
  induction fuel generalizing w got data with
  | zero => exact absurd (List.length_eq_zero_iff.mp (by omega)) hdata
  | succ fuel ih =>
    rw [sendAcked, if_neg hdata] at h
    obtain ⟨ack, w1, hread, h⟩ := Eff.bind_eq_ok h
    obtain ⟨qs, id, r, P, hwire, hqs, hsilent, hexec⟩ := hw
    obtain ⟨c, o, hc, -, -, hhold, hnext⟩ := read_behind hwire hqs hsilent (by decide) hread
    obtain ⟨hbyte, hwriting⟩ := hexec c o hc
    rw [hbyte] at hhold
    by_cases hack : byteAt ack 0 ≠ 0
    · rw [if_pos hack] at h
      exact absurd (Prod.mk.inj h).1 nofun
    · rw [if_neg hack] at h
      obtain ⟨_, w2, hsend, h⟩ := Eff.bind_eq_ok h
      have hpos : 0 < data.length := List.length_pos_iff.mpr hdata
      by_cases hlast : data.length ≤ ackBlock
      · have htake : data.take ackBlock = data := List.take_of_length_le hlast
        have hdrop : data.drop ackBlock = [] := List.drop_of_length_le hlast
        have hquiet : Quiet (· = (c.exec id r o).2) w1 := hhold.quiet rfl
        have hdone : ∀ (c' : ProCart) o', c' = (c.exec id r o).2 → (c'.exec w1.next (.block (data.take ackBlock)) o').1 = [] ∧
            Between start (c'.exec w1.next (.block (data.take ackBlock)) o').2 (.fileWrite (got ++ data))
              (c'.exec w1.next (.block (data.take ackBlock)) o').2.last [] := by
          rintro c' o' rfl
          rw [htake, exec_block_last o' hwriting (Nat.le_refl _)]
          exact ⟨rfl, carryOut_between (.fileWrite (got ++ data)) o' rfl (hnext ▸ hstart)⟩
        obtain ⟨hq, hnext'⟩ := hquiet.send (Q := fun c => Between start c (.fileWrite (got ++ data)) c.last []) hsend hdone
        rw [hdrop] at h
        have hend : w' = w2 := by
          cases fuel with
          | zero => exact (Eff.pure_eq_ok h).2
          | succ fuel =>
            rw [sendAcked, if_pos rfl] at h
            exact (Eff.pure_eq_ok h).2
        exact hend ▸ ⟨hq, by omega⟩
      · have hmore : (data.take ackBlock).length < data.length := by
          rw [List.length_take]
          omega
        have hnonempty : data.drop ackBlock ≠ [] := by
          intro hnil
          have hlen := congrArg List.length hnil
          rw [List.length_drop, List.length_nil] at hlen
          omega
        obtain ⟨-, rfl⟩ := Prod.mk.inj hsend
        have hasking : Asking (got ++ data.take ackBlock) (data.drop ackBlock)
            { w1 with toCart := w1.toCart ++ [(w1.next, .block (data.take ackBlock))], next := w1.next + 1 } := by
          refine ⟨[], w1.next, .block (data.take ackBlock), (· = (c.exec id r o).2), hhold.wire, ?_, hhold.cart, ?_⟩
          · simp only [hhold.toCart]
          · rintro c' o' rfl
            rw [exec_block_more o' hwriting hmore]
            refine ⟨rfl, ?_⟩
            simp only [List.length_take, List.length_drop]
            rw [show data.length - min ackBlock data.length = data.length - ackBlock by omega]
        have hless : (data.drop ackBlock).length ≤ fuel := by
          have hblock : 0 < ackBlock := by decide
          rw [List.length_drop]
          omega
        have hrest := ih hless hnonempty hasking (by show start ≤ w1.next + 1; omega) h
        rwa [List.append_assoc, List.take_append_drop] at hrest

theorem fileWrite_ok {data : Bytes} {u : Unit} (hdata : data ≠ []) (hw : Clean w) (h : fileWrite data w = (.ok u, w')) :
    ∃ c, Between w.next c (.fileWrite data) 0 [] ∧ Holding c [] w' ∧ w.next ≤ w'.next := by
  rw [fileWrite, if_neg hdata] at h
  obtain ⟨_, w1, hsize, h⟩ := Eff.bind_eq_ok h
  rw [transferLen_ok hsize] at h
  obtain ⟨_, w2, hsend, h⟩ := Eff.bind_eq_ok h
  obtain ⟨_, w3, hblocks, hcheck⟩ := Eff.bind_eq_ok h
  obtain ⟨-, rfl⟩ := Prod.mk.inj hsend
  have hasking : Asking [] data { w with toCart := w.toCart ++ [(w.next, .writeFile data.length)], next := w.next + 1 } := by
    refine ⟨w.toCart, w.next, .writeFile data.length, _, hw.wire, rfl, hw.silent, fun c o hc => ?_⟩
    simp only [ProCart.exec, hc, and_self]
  obtain ⟨hquiet, hnext⟩ := @sendAcked_ok _ _ data.length w.next _ _ _ (Nat.le_refl _) hdata hasking (Nat.le_succ _) hblocks
  obtain ⟨c, hc, hhold, hlast, hnext'⟩ := checkStatus_ok hquiet (fun c hc => hc.writing) hcheck
  exact ⟨c, hlast ▸ hc, hhold, by omega⟩

end Transfers

section Records

/-- What a record says of an entry. -/
def infoOf (r : Bytes) : FileInfo :=
  let head := (r.drop 1).take 9
  let len := ((r.drop 1).drop 9).take 2
  let name := (((r.drop 1).drop 9).drop 2).take (readBe16 len 0).toNat
  ⟨readBe32 head 0, readBe16 head 4, readBe16 head 6, byteAt head 8, name⟩

/-- A record ends with its name. -/
theorem record_end {o : Outcome} (h : o.status = 0) :
    ((((record o).drop 1).drop 9).drop 2).drop (readBe16 ((((record o).drop 1).drop 9).take 2) 0).toNat = [] := by
  generalize hname : o.name.take 0xFFFF = name
  have hlen : name.length < 2 ^ 16 := by
    rw [← hname, List.length_take]
    omega
  have hrec : (record o).drop 1 = fit 9 o.data ++ (putBe16 (UInt16.ofNat name.length) ++ name) := by
    simp only [record, if_pos h, hname, List.cons_append, List.drop_succ_cons, List.drop_zero, List.append_assoc]
  have hrest : ((record o).drop 1).drop 9 = putBe16 (UInt16.ofNat name.length) ++ name := by
    rw [hrec]
    exact List.drop_left' (fit_length 9 o.data)
  have hsize : (readBe16 ((putBe16 (UInt16.ofNat name.length) ++ name).take 2) 0).toNat = name.length := by
    have htake : (putBe16 (UInt16.ofNat name.length) ++ name).take 2 = putBe16 (UInt16.ofNat name.length) ++ [] := rfl
    rw [htake, readBe16_putBe16, UInt16.toNat_ofNat']
    exact Nat.mod_eq_of_lt hlen
  rw [hrest, hsize]
  exact List.drop_length

theorem record_head (o : Outcome) : byteAt ((record o).take 1) 0 = o.status := by
  by_cases h : o.status = 0
  · simp [record, h, byteAt]
  · simp [record, h, byteAt]

theorem ask_record {a : Act} {i : FileInfo} {u : Unit} {w1 : ProWorld} (hw : Quiet P w) (hp : ∀ c, P c → c.writing = none)
    (ha : ∀ o, a.reply o = record o) (hsend : send (.act a) w = (.ok u, w1)) (h : readRecord w1 = (.ok i, w')) :
    ∃ c o, P c ∧ i = infoOf (a.reply o) ∧ Holding (c.carryOut w.next a o).2 [] w' ∧ w'.next = w.next + 1 := by
  obtain ⟨resp, w2, hresp, h⟩ := Eff.bind_eq_ok h
  obtain ⟨c, o, hc, -, rfl, hhold, hnext⟩ := hw.ask (by decide) hsend hresp
  have hreply : (c.exec w.next (.act a) o).1 = record o := by
    rw [exec_act a o (hp c hc)]
    exact ha o
  rw [hreply] at h hhold
  rw [exec_act a o (hp c hc)] at hhold
  rw [record_head] at h
  by_cases hstatus : o.status = 0
  · rw [if_neg (not_not.mpr hstatus)] at h
    obtain ⟨head, w3, hhead, h⟩ := Eff.bind_eq_ok h
    obtain ⟨len, w4, hlen, h⟩ := Eff.bind_eq_ok h
    obtain ⟨name, w5, hname, h⟩ := Eff.bind_eq_ok h
    obtain ⟨rfl, rfl⟩ := Eff.pure_eq_ok h
    obtain ⟨-, rfl, hhold3, hnext3⟩ := hhold.read hhead
    obtain ⟨-, rfl, hhold4, hnext4⟩ := hhold3.read hlen
    obtain ⟨-, rfl, hhold5, hnext5⟩ := hhold4.read hname
    rw [record_end hstatus] at hhold5
    exact ⟨c, o, hc, by rw [ha]; rfl, hhold5, by omega⟩
  · rw [if_pos hstatus] at h
    exact absurd (Prod.mk.inj h).1 nofun

theorem fileInfo_ok {path : Bytes} {i : FileInfo} (hw : Clean w) (h : fileInfo path w = (.ok i, w')) :
    ∃ c status b, Between w.next c (.fileInfo path) status b ∧ Holding c [] w' ∧ w.next ≤ w'.next ∧ i = infoOf b := by
  obtain ⟨_, w1, hpath, h⟩ := Eff.bind_eq_ok h
  rw [pathField_ok hpath] at h
  obtain ⟨_, w2, hsend, h⟩ := Eff.bind_eq_ok h
  obtain ⟨c, o, hc, hi, hhold, hnext⟩ := ask_record hw (fun _ => id) (fun _ => rfl) hsend h
  exact ⟨_, _, _, carryOut_between (.fileInfo path) o hc (Nat.le_refl _), hhold, by omega, hi⟩

/-- The command `a` was carried out since `start`, with the answer `b`. -/
def Gave (start : Nat) (c : ProCart) (a : Act) (b : Bytes) : Prop :=
  ∃ e ∈ c.log, start ≤ e.id ∧ e.act = a ∧ e.reply = b

theorem Gave.later {start : Nat} {a : Act} {b : Bytes} {c' : ProCart} (h : Gave start c a b) (hlog : ∀ e ∈ c.log, e ∈ c'.log) :
    Gave start c' a b := by
  obtain ⟨e, he, hrest⟩ := h
  exact ⟨e, hlog e he, hrest⟩

theorem dirGetAll_ok (count : Nat) {index start : Nat} {l : List FileInfo} (hw : Holding c [] w) (hc : c.writing = none)
    (hstart : start ≤ w.next) (h : dirGetAll count index w = (.ok l, w')) :
    ∃ (c' : ProCart) (rs : List Bytes), Holding c' [] w' ∧ c'.writing = none ∧ (∀ e ∈ c.log, e ∈ c'.log) ∧ l = rs.map infoOf ∧ rs.length = count ∧
      ∀ i r, rs[i]? = some r → Gave start c' (.dirGet (index + i)) r := by
  induction count generalizing index w c l with
  | zero =>
    obtain ⟨rfl, rfl⟩ := Eff.pure_eq_ok h
    exact ⟨c, [], hw, hc, fun _ => id, rfl, rfl, nofun⟩
  | succ count ih =>
    obtain ⟨_, w1, hsend, h⟩ := Eff.bind_eq_ok h
    obtain ⟨i, w2, hrecord, h⟩ := Eff.bind_eq_ok h
    obtain ⟨rest, w3, hrest, h⟩ := Eff.bind_eq_ok h
    obtain ⟨rfl, rfl⟩ := Eff.pure_eq_ok h
    have hquiet : Quiet (· = c) w := hw.quiet rfl
    obtain ⟨c1, o, rfl, rfl, hhold, hnext⟩ := ask_record hquiet (fun c' hc' => hc' ▸ hc) (fun _ => rfl) hsend hrecord
    obtain ⟨c', rs, hhold', hwriting, hlog, rfl, hlen, hall⟩ := ih hhold hc (by omega) hrest
    have hnew : Gave start (c1.carryOut w.next (.dirGet index) o).2 (.dirGet index) (record o) :=
      ⟨_, List.mem_append_right _ List.mem_cons_self, hstart, rfl, rfl⟩
    refine ⟨c', record o :: rs, hhold', hwriting, fun e he => hlog e (List.mem_append_left _ he), rfl, ?_, ?_⟩
    · rw [List.length_cons, hlen]
    · intro j r hj
      cases j with
      | zero =>
        obtain rfl := Option.some.inj hj
        exact hnew.later hlog
      | succ j =>
        have hget := hall j r hj
        rwa [show index + 1 + j = index + (j + 1) by omega] at hget

theorem dirList_ok {path : Bytes} {options : UInt8} {l : List FileInfo} (hw : Clean w) (h : dirList path options w = (.ok l, w')) :
    ∃ (c : ProCart) (size : Bytes) (rs : List Bytes), Holding c [] w' ∧ c.writing = none ∧ (∃ e ∈ c.log, w.next ≤ e.id ∧ e.act = .dirLoad options path ∧ e.status = 0) ∧
      Gave w.next c .dirSize size ∧ l = rs.map infoOf ∧ rs.length = (readBe16 size 0).toNat ∧
      ∀ i r, rs[i]? = some r → Gave w.next c (.dirGet i) r := by
  obtain ⟨_, w1, hload, h⟩ := Eff.bind_eq_ok h
  obtain ⟨_, w2, hsend, h⟩ := Eff.bind_eq_ok h
  obtain ⟨size, w3, hsize, h⟩ := Eff.bind_eq_ok h
  obtain ⟨c1, hloaded, hhold1, hnext1⟩ := checkedPath_ok hw (fun _ => rfl) hload
  have hquiet : Quiet (· = c1) w1 := hhold1.quiet rfl
  obtain ⟨c2, o, rfl, rfl, hhold2, hnext2⟩ :=
    ask_fit hquiet (fun c hc => hc ▸ hloaded.writing) (by decide) (fun _ => rfl) hsend hsize
  obtain ⟨c', rs, hhold, hwriting, hlog, hl, hlen, hall⟩ :=
    @dirGetAll_ok _ _ _ _ _ w.next _ hhold2 hloaded.writing (by omega) h
  obtain ⟨e, he, hid, hact, hstatus, -⟩ := hloaded.entry
  have hsized : Gave w.next (c2.carryOut w1.next .dirSize o).2 .dirSize (Act.dirSize.reply o) :=
    ⟨_, List.mem_append_right _ List.mem_cons_self, hnext1, rfl, rfl⟩
  refine ⟨c', Act.dirSize.reply o, rs, hhold, hwriting, ⟨e, hlog e (List.mem_append_left _ he), hid, hact, hstatus⟩,
    hsized.later hlog, hl, hlen, fun i r hi => ?_⟩
  have hget := hall i r hi
  rwa [Nat.zero_add] at hget

theorem tested_ok {a : Bytes → Act} {path : Bytes} {b : Bool} (ha : ∀ o, (a path).reply o = []) (hw : Clean w)
    (h : tested a path w = (.ok b, w')) :
    ∃ c status, Between w.next c (a path) status [] ∧ Holding c [] w' ∧ w.next ≤ w'.next ∧ b = decide (status = 0) := by
  obtain ⟨_, w1, hpath, h⟩ := Eff.bind_eq_ok h
  rw [pathField_ok hpath] at h
  obtain ⟨_, w2, hsend, h⟩ := Eff.bind_eq_ok h
  obtain ⟨id, w3, hid, h⟩ := Eff.bind_eq_ok h
  obtain ⟨rfl, rfl⟩ := Eff.pure_eq_ok h
  obtain ⟨hquiet, hnext⟩ := act_sent hw ha hsend
  obtain ⟨c, hc, hhold, hlast, hnext'⟩ := identity_ok hquiet (fun c hc => hc.writing) hid
  exact ⟨c, c.last, hc, hhold, by omega, by rw [hlast]⟩

end Records

section Commands

/-- The command `a` was carried out since `start`, with success. -/
def Ran (start : Nat) (c : ProCart) (a : Act) : Prop := ∃ e ∈ c.log, start ≤ e.id ∧ e.act = a ∧ e.status = 0

/-- `b` is what the cart sent for a read of `len` bytes that succeeded, made
since `start`. -/
def ReadBack (start : Nat) (c : ProCart) (src : Endpoint) (addr : UInt32) (len : Nat) (b : Bytes) : Prop :=
  (len = 0 ∧ b = []) ∨
    (b.length = len ∧ ∃ e ∈ c.log, start ≤ e.id ∧ e.act = .read src addr len ∧ e.status = 0 ∧ e.reply = b)

/-- What a command that returns `v` may count on: the cart carried out that very
command, numbered from `start`, and what it returns came from there. With no
bytes to move there is nothing to carry out, and `mem_write` asks nothing. -/
def Command.Honest (start : Nat) (c : ProCart) : Command → Value → Prop
  | .fsInit, _ => Ran start c .fsInit
  | .fileOpen path mode, _ => Ran start c (.fileOpen mode path)
  | .fileClose, _ => Ran start c .fileClose
  | .fileAvailable, v => ∃ b, Gave start c .available b ∧ v = .count ((readBe32 b 0).toNat + (readBe32 b 4).toNat * 2 ^ 32)
  | .fileSeek position, _ => Ran start c (.fileSeek position)
  | .fileRead len, v => ∃ b, v = .bytes b ∧ ReadBack start c .file 0 len b
  | .fileWrite data, _ => data = [] ∨ Ran start c (.fileWrite data)
  | .fileInfo path, v => ∃ b, Gave start c (.fileInfo path) b ∧ v = .info (infoOf b)
  | .dirList path options, v => Ran start c (.dirLoad options path) ∧ ∃ (size : Bytes) (rs : List Bytes), Gave start c .dirSize size ∧
      v = .infos (rs.map infoOf) ∧ rs.length = (readBe16 size 0).toNat ∧ ∀ (i : Nat) r, rs[i]? = some r → Gave start c (.dirGet i) r
  | .dirMake path, _ => Ran start c (.dirMake path)
  | .delete path, _ => Ran start c (.delete path)
  | .fileExists path, v => ∃ e ∈ c.log, start ≤ e.id ∧ e.act = .fileTest path ∧ v = .found (e.status = 0)
  | .dirExists path, v => ∃ e ∈ c.log, start ≤ e.id ∧ e.act = .dirTest path ∧ v = .found (e.status = 0)
  | .memRead addr len, v => ∃ b, v = .bytes b ∧ ReadBack start c .memory addr len b
  | .memWrite _ _, _ => True

variable {start : Nat} {a : Act} {v : Value}

theorem Between.ran {b : Bytes} (h : Between start c a 0 b) : Ran start c a := by
  obtain ⟨e, he, hid, hact, hstatus, -⟩ := h.entry
  exact ⟨e, he, hid, hact, hstatus⟩

theorem Between.gave {status : UInt8} {b : Bytes} (h : Between start c a status b) : Gave start c a b := by
  obtain ⟨e, he, hid, hact, -, hreply⟩ := h.entry
  exact ⟨e, he, hid, hact, hreply⟩

theorem Holding.clean (h : Holding c [] w) (hc : c.writing = none) : Clean w := h.quiet hc

theorem checked_honest {m : Link Unit} (hm : ∀ u w', m w = (.ok u, w') → ∃ c, Between w.next c a 0 [] ∧ Holding c [] w' ∧ w.next ≤ w'.next)
    (h : (m >>= fun _ => pure Value.unit) w = (.ok v, w')) : Ran w.next w'.cart a ∧ Clean w' := by
  obtain ⟨u, w1, hrun, h⟩ := Eff.bind_eq_ok h
  obtain ⟨-, rfl⟩ := Eff.pure_eq_ok h
  obtain ⟨c, hc, hhold, -⟩ := hm u w' hrun
  exact ⟨hhold.cart ▸ hc.ran, hhold.clean hc.writing⟩

theorem read_honest {src : Endpoint} {addr : UInt32} {len : Nat} (hw : Clean w)
    (h : (readFrom src addr len >>= fun b => pure (.bytes b)) w = (.ok v, w')) :
    (∃ b, v = .bytes b ∧ ReadBack w.next w'.cart src addr len b) ∧ Clean w' := by
  obtain ⟨b, w1, hrun, h⟩ := Eff.bind_eq_ok h
  obtain ⟨rfl, rfl⟩ := Eff.pure_eq_ok h
  by_cases hlen : len = 0
  · rw [readFrom, if_pos hlen] at hrun
    obtain ⟨rfl, rfl⟩ := Eff.pure_eq_ok hrun
    exact ⟨⟨[], rfl, .inl ⟨hlen, rfl⟩⟩, hw⟩
  · obtain ⟨c, hc, hhold, -, hsize⟩ := readFrom_ok hlen hw hrun
    exact ⟨⟨b, rfl, .inr ⟨hsize, hhold.cart ▸ hc.entry⟩⟩, hhold.clean hc.writing⟩

theorem tested_honest {a : Bytes → Act} {path : Bytes} (ha : ∀ o, (a path).reply o = []) (hw : Clean w)
    (h : (tested a path >>= fun b => pure (.found b)) w = (.ok v, w')) :
    (∃ e ∈ w'.cart.log, w.next ≤ e.id ∧ e.act = a path ∧ v = .found (e.status = 0)) ∧ Clean w' := by
  obtain ⟨b, w1, hrun, h⟩ := Eff.bind_eq_ok h
  obtain ⟨rfl, rfl⟩ := Eff.pure_eq_ok h
  obtain ⟨c, status, hc, hhold, -, rfl⟩ := tested_ok ha hw hrun
  obtain ⟨e, he, hid, hact, rfl, -⟩ := hc.entry
  exact ⟨⟨e, hhold.cart.symm ▸ he, hid, hact, rfl⟩, hhold.clean hc.writing⟩

/-- A command begun clean and returning Ok was carried out, and ends clean. -/
theorem call_honest (cmd : Command) (hw : Clean w) (h : cmd.call w = (.ok v, w')) :
    cmd.Honest w.next w'.cart v ∧ Clean w' := by
  cases cmd with
  | fsInit => exact checked_honest (fun _ _ => checked_ok hw fun _ => rfl) h
  | fileOpen path mode => exact checked_honest (fun _ _ => checkedPath_ok hw fun _ => rfl) h
  | fileClose => exact checked_honest (fun _ _ => checked_ok hw fun _ => rfl) h
  | fileSeek position => exact checked_honest (fun _ _ => checked_ok hw fun _ => rfl) h
  | dirMake path => exact checked_honest (fun _ _ => checkedPath_ok hw fun _ => rfl) h
  | delete path => exact checked_honest (fun _ _ => checkedPath_ok hw fun _ => rfl) h
  | fileRead len => exact read_honest hw h
  | memRead addr len => exact read_honest hw h
  | fileExists path => exact tested_honest (fun _ => rfl) hw h
  | dirExists path => exact tested_honest (fun _ => rfl) hw h
  | fileAvailable =>
    obtain ⟨n, w1, hrun, h⟩ := Eff.bind_eq_ok h
    obtain ⟨rfl, rfl⟩ := Eff.pure_eq_ok h
    obtain ⟨c, b, status, hc, hhold, -, rfl⟩ := fileAvailable_ok hw hrun
    exact ⟨⟨b, hhold.cart ▸ hc.gave, rfl⟩, hhold.clean hc.writing⟩
  | fileWrite data =>
    by_cases hdata : data = []
    · obtain ⟨u, w1, hrun, h⟩ := Eff.bind_eq_ok h
      obtain ⟨-, rfl⟩ := Eff.pure_eq_ok h
      rw [ProLink.fileWrite, if_pos hdata] at hrun
      obtain ⟨-, rfl⟩ := Eff.pure_eq_ok hrun
      exact ⟨.inl hdata, hw⟩
    · have hrun := checked_honest (fun _ _ => fileWrite_ok hdata hw) h
      exact ⟨.inr hrun.1, hrun.2⟩
  | fileInfo path =>
    obtain ⟨i, w1, hrun, h⟩ := Eff.bind_eq_ok h
    obtain ⟨rfl, rfl⟩ := Eff.pure_eq_ok h
    obtain ⟨c, status, b, hc, hhold, -, rfl⟩ := fileInfo_ok hw hrun
    exact ⟨⟨b, hhold.cart ▸ hc.gave, rfl⟩, hhold.clean hc.writing⟩
  | dirList path options =>
    obtain ⟨l, w1, hrun, h⟩ := Eff.bind_eq_ok h
    obtain ⟨rfl, rfl⟩ := Eff.pure_eq_ok h
    obtain ⟨c, size, rs, hhold, hwriting, hload, hsize, rfl, hlen, hall⟩ := dirList_ok hw hrun
    obtain rfl := hhold.cart
    exact ⟨⟨hload, size, rs, hsize, rfl, hlen, hall⟩, hhold.clean hwriting⟩
  | memWrite addr data =>
    refine ⟨trivial, ?_⟩
    obtain ⟨u, w1, hrun, h⟩ := Eff.bind_eq_ok h
    obtain ⟨-, rfl⟩ := Eff.pure_eq_ok h
    rw [ProLink.memWrite] at hrun
    by_cases hdata : data = []
    · rw [if_pos hdata] at hrun
      obtain ⟨-, rfl⟩ := Eff.pure_eq_ok hrun
      exact hw
    · rw [if_neg hdata] at hrun
      obtain ⟨_, w2, hsize, hsend⟩ := Eff.bind_eq_ok hrun
      rw [transferLen_ok hsize] at hsend
      have hquiet := (act_sent hw (fun _ => rfl) hsend).1
      exact ⟨hquiet.wire, hquiet.silent.mono fun c hc => hc.writing⟩

theorem call_clean (cmd : Command) (hw : Clean w) (h : (cmd.call w).1 = .ok v) : Clean (cmd.call w).2 :=
  (call_honest cmd hw (Prod.ext h rfl)).2

/-- Each command is begun clean. -/
def CleanRun : ProWorld → List Command → Prop
  | _, [] => True
  | w, cmd :: cmds => Clean w ∧ CleanRun (cmd.call w).2 cmds

/-- Each command that returns Ok was carried out. -/
def HonestRun : ProWorld → List Command → Prop
  | _, [] => True
  | w, cmd :: cmds =>
    (∀ v, (cmd.call w).1 = .ok v → cmd.Honest w.next (cmd.call w).2.cart v) ∧ HonestRun (cmd.call w).2 cmds

/-- Over every list of commands, every cart and every schedule of its replies. -/
theorem commands_honest (w : ProWorld) (cmds : List Command) (h : CleanRun w cmds) : HonestRun w cmds := by
  induction cmds generalizing w with
  | nil => trivial
  | cons cmd cmds ih =>
    refine ⟨fun v hv => ?_, ih _ h.2⟩
    have hcall : cmd.call w = (.ok v, (cmd.call w).2) := Prod.ext hv rfl
    exact (call_honest cmd h.1 hcall).1

private def accepts (status : UInt8) : Outcome := ⟨status, [], [], 0, []⟩

/-- As the handshake leaves it. -/
private def opened (schedule : List Wait) : ProWorld := ⟨⟨0, none, []⟩, [], [], 0, schedule⟩

/-- The status of the first command comes in time, but for a third, and the
third is left alone. -/
theorem commands_honest_copy :
    let w := opened [⟨[accepts 0, accepts 0], none⟩, ⟨[accepts 0], none⟩, ⟨[accepts 0, accepts 0], none⟩, ⟨[accepts 0], some 0⟩]
    HonestRun w [.fileOpen [0x41] 0x8A, .fileWrite [1, 2, 3], .fileClose] := by
  intro w
  have hw : Clean w := ⟨rfl, rfl⟩
  have hopened : Clean (Command.call (.fileOpen [0x41] 0x8A) w).2 :=
    call_clean (v := .unit) (.fileOpen [0x41] 0x8A) hw (by decide +kernel)
  have hwrote : Clean (Command.call (.fileWrite [1, 2, 3]) (Command.call (.fileOpen [0x41] 0x8A) w).2).2 :=
    call_clean (v := .unit) (.fileWrite [1, 2, 3]) hopened (by decide +kernel)
  exact commands_honest w _ ⟨hw, hopened, hwrote, trivial⟩

/-- The open's status comes late. The delete takes it for its own, and returns
Ok though the cart refused it. -/
theorem late_status_taken :
    let w := opened [⟨[accepts 0, accepts 0], some 0⟩, ⟨[accepts 5, accepts 5], none⟩]
    let w' := (Command.call (.fileOpen [0x41] 1) w).2
    (Command.call (.fileOpen [0x41] 1) w).1 = .error .io ∧ (Command.call (.delete [0x42]) w').1 = .ok .unit ∧
      ¬(Command.delete [0x42]).Honest w'.next (Command.call (.delete [0x42]) w').2.cart .unit := by
  refine ⟨rfl, rfl, ?_⟩
  show ¬∃ e ∈ _, _
  decide

end Commands

end ProLink

end Multi64
