import Mathlib
import Multi64.Lib.Queue
import Multi64.Sc64Link

/-! Whose reply a call gets. As long as no command is sent while one with its
letter has a reply outstanding, a reply with the right letter is the right
reply, and a call that succeeds has done what it was asked. -/

namespace Multi64

namespace Sc64Cart

variable {c : Sc64Cart} {p : CmdPacket} {o : CartOutcome}

theorem exec_cmdId (c : Sc64Cart) (p : CmdPacket) (o : CartOutcome) : (c.exec p o).1.cmdId = p.id := by
  unfold exec
  by_cases h : p.id = cmd.memoryRead
  · simp only [if_pos h]
  · simp only [if_neg h]

theorem exec_memoryRead (h : p.id = cmd.memoryRead) :
    (c.exec p o).2 = c ∧ ((c.exec p o).1.ok = true → (c.exec p o).1.data = c.mem.read p.arg0.toNat p.arg1.toNat) := by
  simp only [exec, if_pos h]
  exact ⟨trivial, fun hok => if_pos hok⟩

theorem exec_memoryWrite (h : p.id = cmd.memoryWrite) :
    (c.exec p o).2.card = c.card ∧
      ((c.exec p o).1.ok = true → (c.exec p o).2.mem.read p.arg0.toNat p.data.length = p.data) := by
  have hne : p.id ≠ cmd.memoryRead := by
    rw [h]
    decide
  simp only [exec, if_neg hne, if_pos h]
  refine ⟨trivial, fun hok => ?_⟩
  rw [CartOutcome.apply, if_pos hok, Store.read_write]

theorem exec_sdRead (h : p.id = cmd.sdRead) :
    (c.exec p o).2.card = c.card ∧ ((c.exec p o).1.ok = true →
      (c.exec p o).2.mem.read p.arg0.toNat (p.arg1.toNat * sectorBytes) =
        c.card.read ((readBe32 p.data 0).toNat * sectorBytes) (p.arg1.toNat * sectorBytes)) := by
  have hne : p.id ≠ cmd.memoryRead ∧ p.id ≠ cmd.memoryWrite := by
    rw [h]
    decide
  simp only [exec, if_neg hne.1, if_neg hne.2, if_pos h]
  refine ⟨trivial, fun hok => ?_⟩
  have hrw := c.mem.read_write p.arg0.toNat
    (c.card.read ((readBe32 p.data 0).toNat * sectorBytes) (p.arg1.toNat * sectorBytes))
  rw [Store.read_length] at hrw
  rw [CartOutcome.apply, if_pos hok, hrw]

theorem exec_sdWrite (h : p.id = cmd.sdWrite) {lba len : Nat} (hlba : (readBe32 p.data 0).toNat = lba)
    (hlen : p.arg1.toNat * sectorBytes = len) :
    (∀ a, a < lba * sectorBytes ∨ lba * sectorBytes + len ≤ a → (c.exec p o).2.card a = c.card a) ∧
      ((c.exec p o).1.ok = true → (c.exec p o).2.card.read (lba * sectorBytes) len = c.mem.read p.arg0.toNat len) := by
  have hne : p.id ≠ cmd.memoryRead ∧ p.id ≠ cmd.memoryWrite ∧ p.id ≠ cmd.sdRead := by
    rw [h]
    decide
  simp only [exec, if_neg hne.1, if_neg hne.2.1, if_neg hne.2.2, if_pos h, hlba, hlen]
  have hdata : (c.mem.read p.arg0.toNat len).length = len := Store.read_length ..
  constructor
  · intro a ha
    have hout := c.card.write_outside (lba * sectorBytes) (hdata.symm ▸ ha)
    simp only [CartOutcome.apply]
    split
    · exact hout
    · simp only [hout, ite_self]
  · intro hok
    have hrw := c.card.read_write (lba * sectorBytes) (c.mem.read p.arg0.toNat len)
    rw [hdata] at hrw
    rw [CartOutcome.apply, if_pos hok, hrw]

end Sc64Cart

/-- What a cart is after a command, whatever the reply. -/
abbrev after (c : Sc64Cart) (p : CmdPacket) (o : CartOutcome) : Sc64Cart := (c.exec p o).2

namespace Sc64World

/-- `P` lasts through the commands under way, and no two outstanding replies
have one letter. -/
structure Steady (P : Sc64Cart → Prop) (w : Sc64World) : Prop where
  lasts : w.crossed = false → Lasts after P w.toCart w.cart
  apart : w.crossed = false → w.owed.Nodup

/-- Where the command `p` may be: behind others in the queue, or carried out in
a cart with `Pre`, as the last that changed it. -/
inductive Turn (Pre : Sc64Cart → Prop) (p : CmdPacket) (w : Sc64World) : Prop where
  | queued (ahead : List CmdPacket) (hq : w.toCart = ahead ++ [p]) (hpre : Lasts after Pre ahead w.cart)
  | done (hq : w.toCart = []) (hown : ∀ r ∈ w.replies ++ w.rb, r.cmdId = p.id →
      ∃ c o, Pre c ∧ c.exec p o = (r, w.cart))

/-- A reply that was outstanding under `p`'s letter is `p`'s own. -/
structure Waits (P Pre : Sc64Cart → Prop) (p : CmdPacket) (w : Sc64World) : Prop extends Steady P w where
  turn : w.crossed = false → Turn Pre p w

section Steps

variable {P Pre : Sc64Cart → Prop} {p : CmdPacket} {w w' : Sc64World}

/-- Replies that move or get lost. -/
structure Fewer (w w' : Sc64World) : Prop where
  cart : w'.cart = w.cart
  toCart : w'.toCart = w.toCart
  crossed : w'.crossed = w.crossed
  cache : w'.readCache = w.readCache
  replies : (w'.replies ++ w'.rb).Subperm (w.replies ++ w.rb)

theorem Fewer.steady (h : Fewer w w') (hs : Steady P w) : Steady P w' := by
  constructor
  · rw [h.toCart, h.cart, h.crossed]
    exact hs.lasts
  · intro hc
    obtain ⟨l, hperm, hsub⟩ := h.replies
    have hnd := hs.apart (h.crossed ▸ hc)
    have hfew : (w.toCart.map (·.id) ++ l.map (·.cmdId)).Sublist w.owed := (hsub.map _).append_left _
    have hsame : w'.owed.Perm (w.toCart.map (·.id) ++ l.map (·.cmdId)) := by
      rw [owed, h.toCart]
      exact (hperm.symm.map _).append_left _
    exact hsame.nodup_iff.mpr (hnd.sublist hfew)

theorem Fewer.waits (h : Fewer w w') (hs : Waits P Pre p w) : Waits P Pre p w' := by
  refine ⟨h.steady hs.toSteady, fun hc => ?_⟩
  cases hs.turn (h.crossed ▸ hc) with
  | queued ahead hq hpre => exact .queued ahead (h.toCart.trans hq) (h.cart ▸ hpre)
  | done hq hown => exact .done (h.toCart.trans hq) fun r hr hid => h.cart ▸ hown r (h.replies.subset hr) hid

theorem Fewer.of_eq (h : w' = w) : Fewer w w' := h ▸ ⟨rfl, rfl, rfl, rfl, .refl _⟩

theorem Fewer.schedule (es : List LinkEvent) : Fewer w { w with schedule := es } :=
  ⟨rfl, rfl, rfl, rfl, .refl _⟩

theorem takeCmp_sublist (expect : UInt8) (rb : List CmpResponse) : (takeCmp expect rb).2.Sublist rb := by
  induction rb with
  | nil => exact .slnil
  | cons r rest ih =>
    unfold takeCmp
    by_cases h : r.cmdId = expect
    · rw [if_pos h]
      exact List.sublist_cons_self r rest
    · rw [if_neg h]
      exact ih.trans (List.sublist_cons_self r rest)

theorem takeCmp_some {expect : UInt8} {rb : List CmpResponse} {r : CmpResponse}
    (h : (takeCmp expect rb).1 = some r) : r ∈ rb ∧ r.cmdId = expect := by
  induction rb with
  | nil => exact nomatch h
  | cons r' rest ih =>
    unfold takeCmp at h
    by_cases hid : r'.cmdId = expect
    · rw [if_pos hid] at h
      obtain rfl := Option.some.inj h
      exact ⟨List.mem_cons_self, hid⟩
    · rw [if_neg hid] at h
      exact ⟨List.mem_cons_of_mem _ (ih h).1, (ih h).2⟩

theorem Fewer.take (expect : UInt8) : Fewer w { w with rb := (takeCmp expect w.rb).2 } :=
  ⟨rfl, rfl, rfl, rfl, ((takeCmp_sublist expect w.rb).append_left _).subperm⟩

/-- An event is the cart's turn or moves and loses replies. -/
theorem happen_cases (w : Sc64World) (e : LinkEvent) : Fewer w (w.happen e) ∨
    ∃ q rest o, w.toCart = q :: rest ∧ w.happen e =
      { w with cart := after w.cart q o, toCart := rest, replies := w.replies ++ [(w.cart.exec q o).1] } := by
  cases e with
  | cart o =>
    cases hq : w.toCart with
    | nil =>
      have hsame : w.happen (.cart o) = w := by simp only [happen, hq]
      exact .inl (.of_eq hsame)
    | cons q rest => exact .inr ⟨q, rest, o, rfl, by simp only [happen, hq]⟩
  | arrive i =>
    cases hr : w.replies[i]? with
    | none =>
      have hsame : w.happen (.arrive i) = w := by simp only [happen, hr]
      exact .inl (.of_eq hsame)
    | some r =>
      have hmove : w.happen (.arrive i) = { w with replies := w.replies.eraseIdx i, rb := w.rb ++ [r] } := by
        simp only [happen, hr]
      obtain ⟨hi, hget⟩ := List.getElem?_eq_some_iff.mp hr
      have hperm : (w.replies.eraseIdx i ++ (w.rb ++ [r])).Perm (w.replies ++ w.rb) := by
        have hone : (r :: w.replies.eraseIdx i).Perm w.replies := hget ▸ List.getElem_cons_eraseIdx_perm hi
        rw [← List.append_assoc]
        exact (List.perm_append_singleton r _).trans (hone.append_right w.rb)
      exact .inl (hmove ▸ ⟨rfl, rfl, rfl, rfl, hperm.subperm⟩)
  | lose i =>
    exact .inl ⟨rfl, rfl, rfl, rfl, ((List.eraseIdx_sublist w.replies i).append_right w.rb).subperm⟩
  | poll | expire | fail | refuse _ => exact .inl ⟨rfl, rfl, rfl, rfl, .refl _⟩

theorem happen_crossed (w : Sc64World) (e : LinkEvent) : (w.happen e).crossed = w.crossed := by
  rcases w.happen_cases e with h | ⟨q, rest, o, _, hw⟩
  · exact h.crossed
  · rw [hw]

theorem happen_cache (w : Sc64World) (e : LinkEvent) : (w.happen e).readCache = w.readCache := by
  rcases w.happen_cases e with h | ⟨q, rest, o, _, hw⟩
  · exact h.cache
  · rw [hw]

theorem Steady.happen (h : Steady P w) (e : LinkEvent) : Steady P (w.happen e) := by
  rcases w.happen_cases e with hfew | ⟨q, rest, o, hq, hw⟩
  · exact hfew.steady h
  · rw [hw]
    refine ⟨fun hc => (hq ▸ h.lasts hc).2 o, fun hc => ?_⟩
    have hnd := h.apart hc
    rw [owed, hq, List.map_cons, List.cons_append] at hnd
    rw [owed]
    simp only [List.map_append, List.map_cons, List.map_nil, Sc64Cart.exec_cmdId, List.append_assoc] at hnd ⊢
    refine (List.Perm.nodup_iff ?_).mpr hnd
    rw [← List.append_assoc, List.singleton_append]
    exact List.perm_middle.trans (by rw [List.append_assoc])

theorem Waits.happen (h : Waits P Pre p w) (e : LinkEvent) : Waits P Pre p (w.happen e) := by
  refine ⟨h.toSteady.happen e, fun hc => ?_⟩
  rw [happen_crossed] at hc
  have hnd := h.apart hc
  rcases w.happen_cases e with hfew | ⟨q, rest, o, hq, hw⟩
  · exact (hfew.waits h).turn (hfew.crossed.trans hc)
  · rw [hw]
    cases h.turn hc with
    | done hq' _ => exact nomatch hq.symm.trans hq'
    | queued ahead hq' hpre =>
      cases ahead with
      | nil =>
        -- `p` itself is carried out. No other outstanding reply has its letter.
        obtain ⟨rfl, rfl⟩ := List.cons.inj (hq.symm.trans hq')
        refine .done rfl fun r hr hid => ?_
        rw [owed, hq, List.map_cons, List.map_nil, List.singleton_append, List.nodup_cons] at hnd
        have hnew : r = (w.cart.exec q o).1 := by
          by_contra hne
          refine hnd.1 (List.mem_map.mpr ⟨r, ?_, hid⟩)
          simp only [List.mem_append, List.mem_singleton, hne, or_false] at hr ⊢
          exact hr
        exact ⟨w.cart, o, hpre, by rw [hnew]⟩
      | cons q' ahead =>
        obtain ⟨rfl, rfl⟩ := List.cons.inj (hq.symm.trans hq')
        exact .queued ahead rfl (hpre.2 o)

theorem Steady.send (h : Steady P w) (hp : ∀ c o, P c → P (after c p o)) : Steady P (w.send p) := by
  have hboth : (w.send p).crossed = false → w.crossed = false ∧ p.id ∉ w.owed := by
    simp only [Sc64World.send, Bool.or_eq_false_iff, decide_eq_false_iff_not]
    exact id
  refine ⟨fun hc => (h.lasts (hboth hc).1).append hp, fun hc => ?_⟩
  replace hc := hboth hc
  have hnd := List.nodup_cons.mpr ⟨hc.2, h.apart hc.1⟩
  refine (List.Perm.nodup_iff ?_).mpr hnd
  simp only [owed, Sc64World.send, List.map_append, List.map_cons, List.map_nil, List.append_assoc, List.singleton_append]
  exact List.perm_middle

theorem Waits.send (h : Steady P w) (hp : ∀ c o, P c → P (after c p o))
    (hpre : w.crossed = false → Lasts after Pre w.toCart w.cart) : Waits P Pre p (w.send p) := by
  refine ⟨h.send hp, fun hc => ?_⟩
  simp only [Sc64World.send, Bool.or_eq_false_iff] at hc
  exact .queued w.toCart rfl (hpre hc.1)

end Steps

end Sc64World

namespace Sc64Link

open Sc64World

variable {α : Type} {P Pre : Sc64Cart → Prop} {p : CmdPacket} {w : Sc64World}

/-- What a call leaves: `P` still lasts, and one that succeeded uncrossed has
nothing under way and `Q` of its result and the cart. -/
structure Leaves (P : Sc64Cart → Prop) (r : Except Sc64Error α × Sc64World) (Q : α → Sc64Cart → Prop) : Prop where
  steady : Steady P r.2
  ok : ∀ a, r.1 = .ok a → r.2.crossed = false → r.2.toCart = [] ∧ Q a r.2.cart

theorem Leaves.error (e : Sc64Error) (h : Steady P w) {Q : α → Sc64Cart → Prop} : Leaves P (.error e, w) Q :=
  ⟨h, nofun⟩

theorem Leaves.mono {r : Except Sc64Error α × Sc64World} {Q Q' : α → Sc64Cart → Prop} (h : Leaves P r Q)
    (hq : ∀ a c, Q a c → Q' a c) : Leaves P r Q' :=
  ⟨h.steady, fun a ha hc => ⟨(h.ok a ha hc).1, hq _ _ (h.ok a ha hc).2⟩⟩

/-- One computation and then another, which may count on what the first left. -/
theorem Leaves.bind {β : Type} {m : Link β} {f : β → Link α} {M : β → Sc64Cart → Prop} {Q : α → Sc64Cart → Prop}
    (hm : Leaves P (m w) M) (hf : ∀ b w', Steady P w' →
      (w'.crossed = false → w'.toCart = [] ∧ M b w'.cart) → Leaves P (f b w') Q) : Leaves P ((m >>= f) w) Q := by
  rw [Eff.bind_run]
  revert hm
  cases m w with
  | mk r w' =>
    cases r with
    | error e => exact fun hm => .error e hm.steady
    | ok b => exact fun hm => hf b w' hm.steady (hm.ok b rfl)

theorem wait_leaves (es : List LinkEvent) : ∀ w, Waits P Pre p w →
    Leaves P (wait p.id es w) fun r c => ∃ c' o, Pre c' ∧ c'.exec p o = (r, c) := by
  induction es with
  | nil => exact fun w h => .error _ ((Fewer.schedule []).steady h.toSteady)
  | cons e rest ih =>
    intro w h
    have later := ih (w.happen e) (h.happen e)
    cases e with
    | expire => exact .error _ ((Fewer.schedule rest).steady h.toSteady)
    | fail => exact .error _ ((Fewer.schedule rest).steady h.toSteady)
    | cart | arrive | lose | refuse => exact later
    | poll =>
      have hfew : Fewer w { w with rb := (takeCmp p.id w.rb).2 } := .take p.id
      unfold wait
      cases ht : takeCmp p.id w.rb with
      | mk found rb =>
        rw [ht] at hfew
        cases found with
        | none => exact ih _ (hfew.waits h)
        | some r =>
          obtain ⟨hmem, hid⟩ := takeCmp_some (congrArg Prod.fst ht)
          refine ⟨(Fewer.schedule rest).steady (hfew.steady h.toSteady), fun a ha hc => ?_⟩
          obtain rfl := Except.ok.inj ha
          have hin : r ∈ w.replies ++ w.rb := List.mem_append_right _ hmem
          cases h.turn hc with
          | done hq hown => exact ⟨hq, hown r hin hid⟩
          | queued ahead hq hpre =>
            -- A reply with `p`'s letter came before `p` was carried out.
            have hnd := List.disjoint_of_nodup_append (h.apart hc)
            have hp : p.id ∈ w.toCart.map (·.id) := List.mem_map.mpr ⟨p, by simp [hq], rfl⟩
            exact absurd (List.mem_map.mpr ⟨r, hin, hid⟩) (hnd hp)

theorem sendCmpRaw_leaves (h : Steady P w) (hp : ∀ c o, P c → P (after c p o))
    (hpre : w.crossed = false → Lasts after Pre w.toCart w.cart) :
    Leaves P (sendCmpRaw p p.id w) fun r c => ∃ c' o, Pre c' ∧ c'.exec p o = (r, c) := by
  unfold sendCmpRaw
  split
  next reached rest _ =>
    refine .error _ ((Fewer.schedule rest).steady ?_)
    cases reached with
    | false => exact h
    | true => exact h.send hp
  · exact wait_leaves _ _ (.send h hp hpre)

theorem uint32_toNat {n : Nat} (h : n < 2 ^ 32) : (UInt32.ofNat n).toNat = n := by
  rw [UInt32.toNat_ofNat', Nat.mod_eq_of_lt h]

theorem sector_toNat {lba : Nat} (h : lba < 2 ^ 32) : (readBe32 (putBe32 (UInt32.ofNat lba)) 0).toNat = lba := by
  have hround := readBe32_putBe32 (UInt32.ofNat lba) []
  rw [List.append_nil] at hround
  rw [hround, uint32_toNat h]

theorem count_toNat {len : Nat} (hs : sectorBytes ∣ len) (h : len < 2 ^ 32) :
    (UInt32.ofNat (len / sectorBytes)).toNat * sectorBytes = len := by
  rw [uint32_toNat (Nat.lt_of_le_of_lt (Nat.div_le_self _ _) h), Nat.div_mul_cancel hs]

section Commands

variable {addr : UInt32} {lba len : Nat} {buf : Bytes}

theorem memoryRead_leaves (h : Steady P w) (hcard : ∀ c c' : Sc64Cart, c'.card = c.card → P c → P c')
    (hpre : w.crossed = false → Lasts after Pre w.toCart w.cart) (hlen : len < 2 ^ 32) :
    Leaves P (memoryRead addr len w) fun b c => Pre c ∧ b = c.mem.read addr.toNat len := by
  have hexec := fun c o => Sc64Cart.exec_memoryRead (c := c) (o := o)
    (p := ⟨cmd.memoryRead, addr, .ofNat len, []⟩) rfl
  have hsent := sendCmpRaw_leaves (p := ⟨cmd.memoryRead, addr, .ofNat len, []⟩) h
    (fun c o hc => hcard c _ (congrArg Sc64Cart.card (hexec c o).1) hc) hpre
  refine hsent.bind fun r w' hs hdone => ?_
  by_cases hok : r.ok = false
  · rw [if_pos hok]
    exact .error _ hs
  · rw [if_neg hok]
    by_cases hdata : r.data.length = len
    · rw [if_neg (not_not.mpr hdata)]
      refine ⟨hs, fun b hb hc => ?_⟩
      obtain rfl := Except.ok.inj hb
      obtain ⟨hq, c', o, hc', he⟩ := hdone hc
      have hx := hexec c' o
      rw [he] at hx
      have hread := hx.2 (Bool.of_not_eq_false hok)
      have hsame : c' = w'.cart := hx.1.symm
      rw [uint32_toNat hlen] at hread
      exact ⟨hq, hsame ▸ hc', hsame ▸ hread⟩
    · rw [if_pos hdata]
      exact .error _ hs

theorem memoryWrite_leaves (h : Steady P w) (hcard : ∀ c c' : Sc64Cart, c'.card = c.card → P c → P c') :
    Leaves P (memoryWrite addr buf w) fun _ c => c.mem.read addr.toNat buf.length = buf := by
  unfold memoryWrite
  by_cases hbig : 2 ^ 32 ≤ buf.length
  · rw [if_pos hbig]
    exact .error _ h
  · rw [if_neg hbig]
    have hexec := fun c o => Sc64Cart.exec_memoryWrite (c := c) (o := o)
      (p := ⟨cmd.memoryWrite, addr, .ofNat buf.length, buf⟩) rfl
    have hlasts : Lasts after (fun _ => True) w.toCart w.cart := .all (fun _ => trivial) _ _
    have hsent := sendCmpRaw_leaves (p := ⟨cmd.memoryWrite, addr, .ofNat buf.length, buf⟩) h
      (fun c o hc => hcard c _ (hexec c o).1 hc) fun _ => hlasts
    refine hsent.bind fun r w' hs hdone => ?_
    by_cases hok : r.ok = false
    · rw [if_pos hok]
      exact .error _ hs
    · rw [if_neg hok]
      refine ⟨hs, fun _ _ hc => ?_⟩
      obtain ⟨hq, c', o, _, he⟩ := hdone hc
      have hx := (hexec c' o).2
      rw [he] at hx
      exact ⟨hq, hx (Bool.of_not_eq_false hok)⟩

theorem sdReadUncached_leaves (h : Steady P w) (hcard : ∀ c c' : Sc64Cart, c'.card = c.card → P c → P c')
    (hs : sectorBytes ∣ len) (hlen : len < 2 ^ 32) (hlba : lba < 2 ^ 32) :
    Leaves P (sdReadUncached lba len w) fun b c => b = c.card.read (lba * sectorBytes) len := by
  have hexec := fun c o => Sc64Cart.exec_sdRead (c := c) (o := o)
    (p := ⟨cmd.sdRead, sdCardBufferAddr, .ofNat (len / sectorBytes), putBe32 (.ofNat lba)⟩) rfl
  simp only [count_toNat hs hlen, sector_toNat hlba] at hexec
  have hlasts : Lasts after (fun _ => True) w.toCart w.cart := .all (fun _ => trivial) _ _
  have hsent := sendCmpRaw_leaves (p := ⟨cmd.sdRead, sdCardBufferAddr, .ofNat (len / sectorBytes), putBe32 (.ofNat lba)⟩) h
    (fun c o hc => hcard c _ (hexec c o).1 hc) fun _ => hlasts
  refine hsent.bind fun r w' hsteady hdone => ?_
  by_cases hok : r.ok = false
  · rw [if_pos hok]
    exact .error _ hsteady
  · rw [if_neg hok]
    -- The sectors are staged, and nothing is under way that could change it.
    have hstaged : w'.crossed = false → Lasts after
        (fun c => c.mem.read sdCardBufferAddr.toNat len = c.card.read (lba * sectorBytes) len) w'.toCart w'.cart := by
      intro hc
      obtain ⟨hq, c', o, _, he⟩ := hdone hc
      have hx := hexec c' o
      rw [he] at hx
      rw [hq]
      exact (hx.2 (Bool.of_not_eq_false hok)).trans (hx.1 ▸ rfl)
    refine (memoryRead_leaves hsteady hcard hstaged hlen).bind fun mem w'' hs'' hdone' => ?_
    by_cases hmem : mem.length = len
    · rw [if_neg (not_not.mpr hmem)]
      refine ⟨hs'', fun b hb hc => ?_⟩
      obtain rfl := Except.ok.inj hb
      obtain ⟨hq, hcopy, hread⟩ := hdone' hc
      exact ⟨hq, hread.trans hcopy⟩
    · rw [if_pos hmem]
      exact .error _ hs''

theorem sdWriteUncached_leaves (h : Steady P w) (hcard : ∀ c c' : Sc64Cart, c'.card = c.card → P c → P c')
    (hout : ∀ c c' : Sc64Cart, (∀ a, a < lba * sectorBytes ∨ lba * sectorBytes + buf.length ≤ a →
      c'.card a = c.card a) → P c → P c')
    (hs : sectorBytes ∣ buf.length) (hlen : buf.length < 2 ^ 32) (hlba : lba < 2 ^ 32) :
    Leaves P (sdWriteUncached lba buf w) fun _ c => c.card.read (lba * sectorBytes) buf.length = buf := by
  have hexec := fun c o => Sc64Cart.exec_sdWrite (c := c) (o := o)
    (p := ⟨cmd.sdWrite, sdCardBufferAddr, .ofNat (buf.length / sectorBytes), putBe32 (.ofNat lba)⟩) rfl
    (sector_toNat hlba) (count_toNat hs hlen)
  refine (memoryWrite_leaves h hcard).bind fun _ w' hsteady hdone => ?_
  have hstaged : w'.crossed = false → Lasts after
      (fun c => c.mem.read sdCardBufferAddr.toNat buf.length = buf) w'.toCart w'.cart := by
    intro hc
    rw [(hdone hc).1]
    exact (hdone hc).2
  have hsent := sendCmpRaw_leaves
    (p := ⟨cmd.sdWrite, sdCardBufferAddr, .ofNat (buf.length / sectorBytes), putBe32 (.ofNat lba)⟩) hsteady
    (fun c o hc => hout c _ (hexec c o).1 hc) hstaged
  refine hsent.bind fun r w'' hs'' hdone' => ?_
  by_cases hok : r.ok = false
  · rw [if_pos hok]
    exact .error _ hs''
  · rw [if_neg hok]
    refine ⟨hs'', fun _ _ hc => ?_⟩
    obtain ⟨hq, c', o, hbuf, he⟩ := hdone' hc
    have hx := (hexec c' o).2
    rw [he] at hx
    exact ⟨hq, (hx (Bool.of_not_eq_false hok)).trans hbuf⟩

end Commands

end Sc64Link

namespace Sc64World

open Sc64Link SdReadCache

/-- Between calls: the cache is what the card holds, whatever comes of the
commands still under way. -/
structure Good (w : Sc64World) : Prop where
  valid : w.readCache.Valid
  steady : Steady (fun c => w.readCache.Coherent c.card) w

variable {w : Sc64World} {lba len : Nat} {buf : Bytes}

theorem start_good (cart : Sc64Cart) (schedule : List LinkEvent) : (start cart schedule).Good :=
  ⟨⟨.nil, rfl, Nat.zero_le _, nofun, nofun⟩, ⟨nofun, fun _ => .nil⟩⟩

theorem Steady.withCache {P : Sc64Cart → Prop} (h : Steady P w) (c : SdReadCache) :
    Steady P { w with readCache := c } :=
  ⟨h.lasts, h.apart⟩

theorem sdReadUncached_length {b : Bytes} (h : (sdReadUncached lba len w).1 = .ok b) : b.length = len := by
  unfold sdReadUncached at h
  rw [Eff.bind_run] at h
  split at h
  next r w' _ =>
    by_cases hok : r.ok = false
    · rw [if_pos hok] at h
      exact nomatch h
    · rw [if_neg hok, Eff.bind_run] at h
      split at h
      next mem w'' _ =>
        by_cases hmem : mem.length = len
        · rw [if_neg (not_not.mpr hmem)] at h
          obtain rfl := Except.ok.inj h
          exact hmem
        · rw [if_pos hmem] at h
          exact nomatch h
      · exact nomatch h
  · exact nomatch h

theorem Good.readCached (h : w.Good) (hs : sectorBytes ∣ len) (hpos : len ≠ 0) (hmax : len ≤ sdCardBufferMaxBytes)
    (hlba : lba < 2 ^ 32) : (readCached lba len w).2.Good ∧ ((readCached lba len w).2.crossed = false →
      (Sc64Op.read lba len).Right (readCached lba len w)) := by
  have hbatch : sdCardBufferMaxBytes = 131072 := rfl
  have hl : lba < 2 ^ 55 := by omega
  simp only [Sc64Link.readCached, readThrough, if_neg hpos]
  cases hcov : w.readCache.covering lba len with
  | some bytes =>
    refine ⟨⟨h.valid, h.steady.withCache _⟩, fun hc b hb => ?_⟩
    obtain rfl := Except.ok.inj hb
    exact (h.steady.lasts hc).now.covering hl (by omega) hcov
  | none =>
    have hlen := @sdReadUncached_length { w with readCache := .new } lba len
    have hleaves := sdReadUncached_leaves (h.steady.withCache .new) (fun c c' hc hcoh => hc ▸ hcoh) hs (by omega) hlba
    revert hlen hleaves
    simp only
    cases sdReadUncached lba len { w with readCache := .new } with
    | mk r w' =>
      intro hlen hleaves
      cases r with
      | error e => exact ⟨⟨h.valid, hleaves.steady.withCache _⟩, fun _ => nofun⟩
      | ok b =>
        have hblen : b.length = len := hlen rfl
        refine ⟨⟨h.valid.insert hl (by omega), ⟨fun hc => ?_, hleaves.steady.apart⟩⟩, fun hc bytes hb => ?_⟩
        · obtain ⟨hq, hb⟩ := hleaves.ok b rfl hc
          have hcoh : w.readCache.Coherent w'.cart.card := (hleaves.steady.lasts hc).now
          have hin := hcoh.insert lba len
          rw [← hb] at hin
          change Lasts after _ w'.toCart w'.cart
          rw [hq]
          exact hin
        · obtain rfl := Except.ok.inj hb
          exact (hleaves.ok _ rfl hc).2

theorem Good.writeCached (h : w.Good) (hs : sectorBytes ∣ buf.length) (hmax : buf.length ≤ sdCardBufferMaxBytes)
    (hlba : lba < 2 ^ 32) : (writeCached lba buf w).2.Good ∧ ((writeCached lba buf w).2.crossed = false →
      (∃ u, (writeCached lba buf w).1 = .ok u) →
        (writeCached lba buf w).2.cart.card.read (lba * sectorBytes) buf.length = buf) := by
  have hbatch : sdCardBufferMaxBytes = 131072 := rfl
  -- What the write will leave in the cache is right before it, during it and behind it.
  have hleft : Steady (fun c => (w.readCache.invalidate lba buf.length).Coherent c.card) { w with readCache := .new } :=
    ⟨fun hc => (h.steady.lasts hc).mono fun c hcoh => hcoh.subset fun e he => (mem_invalidate.mp he).1, h.steady.apart⟩
  have hleaves := sdWriteUncached_leaves hleft (fun c c' hc hcoh => hc ▸ hcoh)
    (fun c c' hout hcoh => hcoh.changed h.valid (by omega) (by omega) hout) hs (by omega) hlba
  refine ⟨⟨h.valid.invalidate lba buf.length, hleaves.steady.withCache _⟩, fun hc hok => ?_⟩
  obtain ⟨u, hu⟩ := hok
  exact (hleaves.ok u hu hc).2

theorem Good.step (h : w.Good) (op : Sc64Op) :
    (w.step op).2.Good ∧ ((w.step op).2.crossed = false → op.Right (w.step op)) := by
  cases op with
  | read lba len =>
    simp only [Sc64World.step, readSdSectors]
    by_cases hs : sectorBytes ∣ len
    · rw [if_neg (not_not.mpr hs)]
      by_cases hzero : len = 0
      · rw [if_pos hzero]
        subst hzero
        exact ⟨h, fun _ bytes hb => (Except.ok.inj hb).symm⟩
      · rw [if_neg hzero]
        by_cases hmax : sdCardBufferMaxBytes < len
        · rw [if_pos hmax]
          exact ⟨h, fun _ => nofun⟩
        · rw [if_neg hmax]
          by_cases hbig : 2 ^ 32 ≤ lba
          · rw [if_pos hbig]
            exact ⟨h, fun _ => nofun⟩
          · rw [if_neg hbig]
            exact h.readCached hs hzero (Nat.not_lt.mp hmax) (Nat.not_le.mp hbig)
    · rw [if_pos hs]
      exact ⟨h, fun _ => nofun⟩
  | write lba buf =>
    simp only [Sc64World.step, writeSdSectors]
    by_cases hs : buf.length = 0 ∨ ¬sectorBytes ∣ buf.length
    · rw [if_pos hs]
      exact ⟨h, fun _ => nofun⟩
    · rw [if_neg hs]
      by_cases hmax : sdCardBufferMaxBytes < buf.length
      · rw [if_pos hmax]
        exact ⟨h, fun _ => nofun⟩
      · rw [if_neg hmax]
        by_cases hbig : 2 ^ 32 ≤ lba
        · rw [if_pos hbig]
          exact ⟨h, fun _ => nofun⟩
        · rw [if_neg hbig]
          have hdvd := not_not.mp (not_or.mp hs).2
          obtain ⟨hgood, hright⟩ := h.writeCached hdvd (Nat.not_lt.mp hmax) (Nat.not_le.mp hbig)
          refine ⟨hgood, fun hc hok => hright hc ?_⟩
          obtain ⟨bytes, hb⟩ := hok
          revert hb
          cases (Sc64Link.writeCached lba buf w).1 with
          | error e => exact nofun
          | ok u => exact fun _ => ⟨u, rfl⟩
  | pass =>
    refine ⟨?_, fun _ => trivial⟩
    simp only [Sc64World.step, pass]
    split
    · exact h
    next e rest _ =>
      have hnext := ((Fewer.schedule rest).steady h.steady).happen e
      constructor
      · rw [happen_cache]
        exact h.valid
      · rw [happen_cache]
        exact hnext

theorem Good.run (h : w.Good) (ops : List Sc64Op) : (w.run ops).Good := by
  induction ops generalizing w with
  | nil => exact h
  | cons op ops ih => exact ih (h.step op).1

/-- Whatever calls there were and in whatever order replies came, the next call
succeeds only with what it was asked, if no command was sent while one with its
letter had a reply outstanding. -/
theorem run_correlates (cart : Sc64Cart) (schedule : List LinkEvent) (ops : List Sc64Op) (op : Sc64Op)
    (hc : (((start cart schedule).run ops).step op).2.crossed = false) :
    op.Right (((start cart schedule).run ops).step op) :=
  (((start_good cart schedule).run ops).step op).2 hc

/-- Every byte of a sector says which sector it is. -/
private def numbered : Sc64Cart := ⟨fun _ => 0, fun a => .ofNat (a / sectorBytes)⟩

private def done : LinkEvent := .cart ⟨true, fun _ => false, []⟩

private def refused : LinkEvent := .cart ⟨false, fun _ => false, []⟩

/-- A read is given up, a write drops its late reply, and the next read is
right. -/
theorem run_correlates_late :
    let schedule := [.expire, done, .arrive 0, .poll, done, .arrive 0, .poll, done, .arrive 0, .poll,
      done, .arrive 0, .poll, done, .arrive 0, .poll]
    let r := ((start numbered schedule).run [.read 1 512, .write 7 (List.replicate 512 9)]).step (.read 2 512)
    r.1.toOption.map (byteAt · 0) = some 2 ∧ (Sc64Op.read 2 512).Right r :=
  ⟨by decide +kernel, run_correlates numbered _ [.read 1 512, .write 7 (List.replicate 512 9)] (.read 2 512)
    (by decide +kernel)⟩

/-- The reply to a read that was given up is taken for the reply to the next
one, which the cart refuses. -/
theorem late_reply_taken :
    let schedule := [.expire, done, refused, .arrive 0, .poll, done, .arrive 1, .poll]
    let r := ((start numbered schedule).run [.read 1 512]).step (.read 2 512)
    r.1.toOption.map (byteAt · 0) = some 1 ∧ ¬(Sc64Op.read 2 512).Right r := by
  intro schedule r
  have hgot : r.1.toOption.map (byteAt · 0) = some 1 := by decide +kernel
  have hheld : byteAt (r.2.cart.card.read (2 * sectorBytes) 512) 0 = 2 := by decide +kernel
  refine ⟨hgot, fun hright => ?_⟩
  cases hr : r.1 with
  | error e => simp [hr, Except.toOption] at hgot
  | ok bytes =>
    rw [← hright bytes hr] at hheld
    simp [hr, Except.toOption, hheld] at hgot

end Sc64World

end Multi64
