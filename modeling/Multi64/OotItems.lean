import Mathlib
import Multi64.ConnectorWrites
import Multi64.OotConsole

/-! The items of the Ocarina of Time connector reach the game one by one and in
order, over every interleaving of polls with frames. -/

namespace Multi64

namespace Connector

namespace Oot

section Polls

variable {p : Places} {n : Nat} {items : List Int} {α β : Type} {h h' : Host Console State}

theorem served_frames {s s' : Console} (hs : Served (console p) s s') : ∃ fs, s'.game = s.game.frames p fs := by
  cases hs with
  | none => exact ⟨[], rfl⟩
  | watched => exact ⟨[], rfl⟩
  | read regions =>
    simp only [console]
    cases s.turns with
    | nil => exact ⟨[], rfl⟩
    | cons t turns => exact ⟨t.frames, rfl⟩

/-- What holds of the game, the queue and the script at every point of a poll. -/
structure Sound (p : Places) (n : Nat) (items : List Int) (h : Host Console State) : Prop where
  tally : Tally p n items h.cart.game
  due : Due p items h.cart.game h.script.mem.pending
  coop : h.script.coopContext = p.coop

def Safe (p : Places) (n : Nat) (items : List Int) (m : Lua Console State α) : Prop :=
  Eff.Keeps (fun _ _ => True) (Sound p n items) m

theorem Safe.of {m : Lua Console State α} (h : ∀ h, Sound p n items h → Sound p n items (m h).2) : Safe p n items m :=
  fun x hx => ⟨.single trivial, h x hx⟩

theorem Safe.run {m : Lua Console State α} (hm : Safe p n items m) (hs : Sound p n items h) : Sound p n items (m h).2 :=
  (hm h hs).2

theorem Safe.pure (a : α) : Safe p n items (Pure.pure a : Lua Console State α) := Eff.Keeps.pure a

theorem Safe.fail (why : String) : Safe p n items (Eff.fail why : Lua Console State α) := Eff.Keeps.fail why

theorem Safe.bind {m : Lua Console State α} {f : α → Lua Console State β} (hm : Safe p n items m)
    (hf : ∀ a, Safe p n items (f a)) : Safe p n items (m >>= f) :=
  Eff.Keeps.bind hm hf

theorem Safe.ite {q : Prop} [Decidable q] {m m' : Lua Console State α} (hm : Safe p n items m) (hm' : Safe p n items m') :
    Safe p n items (if q then m else m') :=
  Eff.Keeps.ite hm hm'

theorem Safe.forM {f : β → Lua Console State PUnit} {l : List β} (hf : ∀ b ∈ l, Safe p n items (f b)) :
    Safe p n items (l.forM f) := by
  induction l with
  | nil => exact .pure _
  | cons b l ih =>
    obtain ⟨hb, hl⟩ := List.forall_mem_cons.mp hf
    exact hb.bind fun _ => ih hl

theorem Safe.script_bind {f : State → Lua Console State α}
    (hf : ∀ s : State, s.coopContext = (p.coop : Int) → Safe p n items (f s)) :
    Safe p n items (script >>= f) :=
  fun h hs => hf h.script hs.coop h hs

theorem Sound.read (hp : p.Apart) (hs : Sound p n items h) (hstep : ReadStep (console p) h h') : Sound p n items h' := by
  obtain ⟨fs, hfs⟩ := served_frames hstep.cart
  constructor
  · rw [hfs]
    exact hs.tally.frames hp fs
  · rw [hfs, hstep.pending]
    exact hs.due.frames fs
  · exact hstep.coop.trans hs.coop

theorem Reads.safe (hp : p.Apart) {m : Lua Console State α} (hm : Reads (console p) m) : Safe p n items m :=
  .of fun h hs => Eff.path_invariant (fun _ _ hstep hs => hs.read hp hstep) (hm h trivial).1 hs

theorem safe_update {f : State → State} (hpending : ∀ s, (f s).mem.pending = s.mem.pending)
    (hcoop : ∀ s, (f s).coopContext = s.coopContext) : Safe p n items (update f : Lua Console State Unit) := by
  refine .of fun h hs => ⟨hs.tally, ?_, (hcoop h.script).trans hs.coop⟩
  change Due p items h.cart.game (f h.script).mem.pending
  rw [hpending]
  exact hs.due

theorem writeBe_kept (a : Int) (k : Nat) (v : Int) (h : Host Console State) :
    (writeBe a k v h).2.cart = h.cart ∧ (writeBe a k v h).2.script.coopContext = h.script.coopContext ∧
      (writeBe a k v h).2.script.mem.pending = h.script.mem.pending ++ [(a, beBytes k v)] :=
  ⟨rfl, rfl, setBytes_pending a (beBytes k v) (List.range k) _⟩

theorem safe_writeBe {a : Int} {k : Nat} {v : Int} (hw : p.spares (a, beBytes k v)) :
    Safe p n items (writeBe a k v) := by
  refine .of fun h hs => ?_
  obtain ⟨hcart, hcoop, hpending⟩ := writeBe_kept a k v h
  constructor
  · rw [hcart]
    exact hs.tally
  · rw [hcart, hpending]
    exact hs.due.append (List.forall_mem_singleton.mpr hw)
  · exact hcoop.trans hs.coop

theorem beBytes_length (k : Nat) (v : Int) : (beBytes k v).length = k := by simp [beBytes]

/-- What a poll writes beside the mailbox leaves what decides alone. -/
theorem Places.Apart.spares (hp : p.Apart) {r : Nat × Nat} (hr : r ∈ [(p.coop + 20, 0x800), (0x11A600, 2), (0x40002C, 8)])
    {a : Int} {k : Nat} {v : Int} (hlo : (r.1 : Int) ≤ a) (hhi : a + k ≤ r.1 + r.2) : p.spares (a, beBytes k v) := by
  intro b hb
  have hkept := fun k hk => hp.writes k hk r hr
  simp only [List.forall_mem_cons, List.not_mem_nil, false_implies, implies_true, and_true] at hkept
  simp only [Places.decides] at hb
  simp only [beBytes_length]
  omega

theorem storedName_length (name : Bytes) : (storedName name).length = 8 := by
  simp only [storedName, List.length_append, List.length_replicate, List.length_take]
  omega

theorem safe_setPlayerName (hp : p.Apart) {id : Nat} (hid : id ≤ 255) (name : Bytes) :
    Safe p n items (setPlayerName id name) := by
  refine .script_bind fun s hs => .forM fun e he => safe_writeBe ?_
  have hlt := List.snd_lt_of_mem_zipIdx he
  rw [storedName_length] at hlt
  refine hp.spares (List.mem_cons_self ..) ?_ ?_
  · rw [hs]
    omega
  · rw [hs]
    omega

theorem safe_writeNames (hp : p.Apart) (names : Option (List Bytes)) : Safe p n items (writeNames (console p) names) := by
  refine (reads_getCurrentGameMode.safe hp).bind fun _ => .script_bind fun _ _ => .ite ?_ (.pure _)
  cases names with
  | none => exact .fail _
  | some names =>
    refine .ite (Safe.bind (safe_update (fun _ => rfl) fun _ => rfl) fun _ => Safe.bind ?_ fun _ => ?_) (.pure _)
    · refine .forM fun e he => safe_setPlayerName hp ?_ _
      have hlt := List.snd_lt_of_mem_zipIdx he
      have hlen := List.length_take_le 254 names
      omega
    · exact safe_setPlayerName hp (Nat.le_refl _) _

theorem safe_killLink (hp : p.Apart) : Safe p n items (killLink (console p)) := by
  refine (reads_curScene.safe hp).bind fun _ => .ite (.pure _) (safe_writeBe ?_)
  exact hp.spares (List.mem_cons_of_mem _ (List.mem_cons_self ..)) (by decide) (by decide)

theorem mapM_u32 {list : List (Int × β)} {out : List (Nat × β)}
    (h : list.mapM (fun r => (u32 r.1).map fun a => (a, r.2)) = .ok out) :
    out = list.map (fun r => (r.1.toNat, r.2)) ∧ ∀ r ∈ list, 0 ≤ r.1 := by
  induction list generalizing out with
  | nil =>
    cases h
    exact ⟨rfl, nofun⟩
  | cons r list ih =>
    rw [List.mapM_cons] at h
    by_cases hr : 0 ≤ r.1 ∧ r.1 < 2 ^ 32
    · have hu : u32 r.1 = .ok r.1.toNat := if_pos hr
      rw [hu] at h
      cases hrest : list.mapM fun r => (u32 r.1).map fun a => (a, r.2) with
      | error why =>
        rw [hrest] at h
        nomatch h
      | ok rest =>
        obtain ⟨hout, hall⟩ := ih hrest
        rw [hrest] at h
        cases h
        exact ⟨by rw [hout]; rfl, List.forall_mem_cons.mpr ⟨hr.1, hall⟩⟩
    · have hu : u32 r.1 = .error _ := if_neg hr
      rw [hu] at h
      nomatch h

/-- A read that is answered has the bytes of one instant. -/
theorem readMany_ok {list : List (Int × Nat)} {blocks : List Bytes} (hr : readMany (console p) list h = (.ok blocks, h')) :
    blocks = list.map (fun r => h'.cart.game.ram.read r.1.toNat r.2) ∧ h'.script = h.script ∧
      (∃ fs, h'.cart.game = h.cart.game.frames p fs) ∧ ∀ r ∈ list, 0 ≤ r.1 := by
  unfold readMany regionsOf at hr
  revert hr
  cases hregions : list.mapM fun r => (u32 r.1).map fun a => (a, r.2) with
  | error why => exact nofun
  | ok regions =>
    obtain ⟨hlist, hpos⟩ := mapM_u32 hregions
    subst hlist
    simp only [asked, console]
    cases h.cart.turns with
    | nil => exact nofun
    | cons t turns =>
      simp only [Turn.answer]
      cases t.failure with
      | some e =>
        cases e with
        | invalidInput why => exact nofun
        | linkRestarted why => exact nofun
        | other why => exact nofun
      | none =>
        intro hr
        obtain ⟨hblocks, hh⟩ := Prod.mk.inj hr
        subst hh
        refine ⟨?_, rfl, ⟨t.frames, rfl⟩, hpos⟩
        rw [← Except.ok.inj hblocks, List.map_map]
        rfl

theorem asked_cart (r : Except CartError α × Console × Nat) (h : Host Console State) : (asked r h).2.cart = r.2.1 := by
  unfold asked
  split
  · rfl
  · rfl
  · rfl

theorem readMany_kept (list : List (Int × Nat)) : (readMany (console p) list h).2.script = h.script ∧
    ∃ fs, (readMany (console p) list h).2.cart.game = h.cart.game.frames p fs := by
  unfold readMany
  cases regionsOf list with
  | error why => exact ⟨rfl, [], rfl⟩
  | ok regions =>
    obtain ⟨hscript, _, _⟩ := asked_quiet ((console p).readMany regions h.cart) h
    obtain ⟨fs, hfs⟩ := served_frames (.read (c := console p) (s := h.cart) regions)
    refine ⟨hscript, fs, ?_⟩
    simp only [asked_cart]
    exact hfs

theorem foldl_update {bytes : Bytes} {a : Int} {k : Nat} {overlay : Int → Option UInt8} :
    ∀ b, (List.range k).foldl (fun overlay (i : Nat) => Function.update overlay (a + i) bytes[i]?) overlay b =
      if a ≤ b ∧ b < a + k then bytes[(b - a).toNat]? else overlay b := by
  induction k with
  | zero =>
    intro b
    rw [if_neg (by omega)]
    rfl
  | succ k ih =>
    intro b
    rw [List.range_succ, List.foldl_append, List.foldl_cons, List.foldl_nil]
    by_cases hb : b = a + k
    · subst hb
      rw [Function.update_self, if_pos (by omega), show (a + k - a).toNat = k by omega]
    · rw [Function.update_of_ne hb, ih]
      by_cases hin : a ≤ b ∧ b < a + k
      · rw [if_pos hin, if_pos (by omega)]
      · rw [if_neg hin, if_neg (by omega)]

/-- What is served over the pages is the count and the mailbox as they were at
one instant, `g`, and the game has gone on from there. -/
structure Seen (p : Places) (g : Game) (h : Host Console State) : Prop where
  count : ∀ i : Nat, i < 2 → h.script.mem.overlay (internalCountAddr + i) = some (g.ram (countAt + i))
  item : ∀ i : Nat, i < 2 → h.script.mem.overlay ((p.coop : Int) + 8 + i) = some (g.ram (p.coop + 8 + i))
  later : ∃ fs, h.cart.game = g.frames p fs

theorem Seen.read {g : Game} (hs : Seen p g h) (hstep : ReadStep (console p) h h') : Seen p g h' := by
  obtain ⟨fs, hfs⟩ := hs.later
  obtain ⟨fs', hfs'⟩ := served_frames hstep.cart
  constructor
  · rw [hstep.overlay]
    exact hs.count
  · rw [hstep.overlay]
    exact hs.item
  · refine ⟨fs ++ fs', ?_⟩
    rw [hfs', hfs, Game.frames, Game.frames, Game.frames, List.foldl_append]

theorem Reads.seen {m : Lua Console State α} (hm : Reads (console p) m) {r : Except String α} (hr : m h = (r, h')) {g : Game}
    (hs : Seen p g h) : Seen p g h' ∧ h'.script.coopContext = h.script.coopContext := by
  obtain ⟨_, _, hcoop, _, _⟩ := hm.kept h
  have hseen : Seen p g (m h).2 := Eff.path_invariant (fun _ _ hstep hs => hs.read hstep) (hm h trivial).1 hs
  rw [hr] at hcoop hseen
  exact ⟨hseen, hcoop⟩

/-- What a refresh that is answered serves from now on. -/
theorem refresh_ok {regions : List (Int × Nat)} (hr : refresh (console p) regions h = (.ok (), h')) :
    h'.script.mem.overlay = (regions.zip (regions.map fun r => h'.cart.game.ram.read r.1.toNat r.2)).foldl
      (fun (overlay : Int → Option UInt8) e =>
        (List.range e.1.2).foldl (fun overlay (i : Nat) => Function.update overlay (e.1.1 + i) e.2[i]?) overlay)
      h.script.mem.overlay := by
  unfold refresh at hr
  rw [Eff.bind_run] at hr
  revert hr
  cases hread : readMany (console p) regions h with
  | mk r h₁ =>
    cases r with
    | error why => exact nofun
    | ok blocks =>
      obtain ⟨hblocks, hscript, _, _⟩ := readMany_ok hread
      subst hblocks
      intro hr
      simp only [List.length_map, Nat.le_refl, if_true] at hr
      obtain rfl := (Prod.mk.inj hr).2
      rw [← hscript]

theorem getElem?_read (m : Store) (a k : Nat) {i : Nat} (hi : i < k) : (m.read a k)[i]? = some (m (a + i)) := by
  simp [Store.read, hi]

theorem refresh_seen (hp : p.Apart) (hr : refresh (console p) [(internalCountAddr, 2), ((p.coop : Int) + 6, 4)] h = (.ok (), h')) :
    ∃ g, Seen p g h' := by
  have hover := refresh_ok hr
  obtain ⟨hc, _, _, _⟩ := hp.bounds
  have hcount : internalCountAddr = (countAt : Int) := rfl
  have hmail : ((p.coop : Int) + 6).toNat = p.coop + 6 := by omega
  rw [hcount] at hover
  simp only [List.map_cons, List.map_nil, List.zip_cons_cons, List.zip_nil_right, List.foldl_cons, List.foldl_nil,
    Int.toNat_natCast, hmail] at hover
  refine ⟨h'.cart.game, fun i hi => ?_, fun i hi => ?_, ⟨[], rfl⟩⟩
  · rw [hover, hcount, foldl_update, if_neg (by omega), foldl_update, if_pos (by omega),
      show (((countAt : Int) + i - countAt).toNat) = i by omega]
    exact getElem?_read _ _ _ hi
  · rw [hover, foldl_update, if_pos (by omega), show ((p.coop : Int) + 8 + i - (p.coop + 6)).toNat = 2 + i by omega,
      getElem?_read _ _ _ (by omega), ← Nat.add_assoc]

theorem byteAt_overlay {c : Cart Console} {a : Int} {b : UInt8} (ho : h.script.mem.overlay a = some b) :
    byteAt c a h = (.ok b, h) := by
  have hmem : (mem : Lua Console State _) h = (.ok h.script.mem, h) := rfl
  rw [byteAt, Eff.bind_run, hmem]
  simp only [ho]
  rfl

theorem readBe_succ {c : Cart Console} {k v : Nat} {a : Int} {b : UInt8} {h₁ h₂ : Host Console State}
    (hhigh : readBe c k a h = (.ok v, h₁)) (hlow : byteAt c (a + k) h₁ = (.ok b, h₂)) :
    readBe c (k + 1) a h = (.ok (v * 256 + b.toNat), h₂) := by
  rw [readBe, Eff.bind_run, hhigh]
  change (byteAt c (a + k) >>= fun low => Pure.pure (v * 256 + low.toNat)) h₁ = _
  rw [Eff.bind_run, hlow]
  rfl

theorem readBe_overlay {c : Cart Console} {a : Int} {m : Store} {b : Nat}
    (ho : ∀ i : Nat, i < 2 → h.script.mem.overlay (a + i) = some (m (b + i))) : readBe c 2 a h = (.ok (half m b), h) := by
  have h0 : byteAt c (a + (0 : Nat)) h = (.ok (m b), h) := byteAt_overlay (ho 0 (by omega))
  have h1 : byteAt c (a + (1 : Nat)) h = (.ok (m (b + 1)), h) := byteAt_overlay (ho 1 (by omega))
  have hnone : readBe c 0 a h = (.ok 0, h) := rfl
  rw [readBe_succ (readBe_succ hnone h0) h1, half, be16_toNat, Nat.zero_mul, Nat.zero_add]

/-- An item is received only into a mailbox that was empty when it was seen. -/
theorem itemReceivable_empty {g : Game} (hs : Seen p g h) (hcoop : h.script.coopContext = p.coop)
    (hr : (itemReceivable (console p) h).1 = .ok true) : g.item p = 0 := by
  obtain ⟨mode, h₁, hmode, hr⟩ := Eff.bind_ok_inv hr
  obtain ⟨scene, h₂, hscene, hr⟩ := Eff.bind_ok_inv hr
  obtain ⟨s, h₃, hscript, hr⟩ := Eff.bind_ok_inv hr
  obtain ⟨player, h₄, hplayer, hr⟩ := Eff.bind_ok_inv hr
  obtain ⟨item, h₅, hitem, hr⟩ := Eff.bind_ok_inv hr
  obtain ⟨hs, hc⟩ := reads_getCurrentGameMode.seen hmode hs
  obtain ⟨hs, hc'⟩ := reads_curScene.seen hscene hs
  obtain ⟨rfl, rfl⟩ : s = h₂.script ∧ h₃ = h₂ := ⟨(Except.ok.inj (Prod.mk.inj hscript).1).symm, (Prod.mk.inj hscript).2.symm⟩
  obtain ⟨hs, _⟩ := (reads_readBe _ _).seen hplayer hs
  rw [hc'.trans (hc.trans hcoop)] at hitem
  rw [readBe_overlay hs.item] at hitem
  obtain rfl := Except.ok.inj (Prod.mk.inj hitem).1
  have hall := of_decide_eq_true (Except.ok.inj hr)
  exact hall.2.2.2

/-- The rest of `queue_item`, once the count is read. -/
def offer (c : Cart Console) (coop : Int) (count : Nat) (l : List Int) : Lua Console State Unit :=
  if count < l.length then itemReceivable c >>= fun ready =>
    if ready then writeBe (coop + 6) 2 0 >>= fun _ => writeBe (coop + 8) 2 (l.getD count 0) else Pure.pure ()
  else Pure.pure ()

/-- What of it comes after the refresh. -/
def queueSeen (c : Cart Console) (coop : Int) (list : Option (List Int)) : Lua Console State Unit :=
  readBe c 2 internalCountAddr >>= fun count =>
    match list with
    | none => Eff.fail "attempt to get length of a nil value (global 'item_queue')"
    | some l => offer c coop count l

theorem queueItem_run {c : Cart Console} {coop : Int} (list : Option (List Int)) (hc : h.script.coopContext = coop) :
    queueItem c list h = (refresh c [(internalCountAddr, 2), (coop + 6, 4)] >>= fun _ => queueSeen c coop list) h := by
  subst hc
  rfl

theorem mailbox_spares (hp : p.Apart) : p.spares ((p.coop : Int) + 6, beBytes 2 0) := by
  intro a ha
  obtain ⟨hc, hptr, hr, _⟩ := hp.bounds
  simp only [Places.decides] at ha
  simp only [beBytes_length]
  omega

/-- The item at the count is queued for a mailbox that has stayed empty since. -/
theorem offer_sound (hp : p.Apart) {g : Game} {l : List Int} (hl : l <+: items) (hs : Sound p n items h) (hseen : Seen p g h) :
    Sound p n items (offer (console p) p.coop (half g.ram countAt) l h).2 := by
  unfold offer
  by_cases hmore : half g.ram countAt < l.length
  · rw [if_pos hmore, Eff.bind_run]
    have hsound := (reads_itemReceivable.safe hp).run hs
    revert hsound
    cases hready : itemReceivable (console p) h with
    | mk r h₁ =>
      cases r with
      | error why => exact fun hsound => hsound
      | ok ready =>
        intro hsound
        cases ready with
        | false => exact hsound
        | true =>
          obtain ⟨hseen₁, _⟩ := reads_itemReceivable.seen hready hseen
          have hempty : g.item p = 0 := itemReceivable_empty hseen hs.coop (congrArg Prod.fst hready)
          obtain ⟨fs, hfs⟩ := hseen₁.later
          obtain ⟨hitem, hcount⟩ := frames_empty hempty fs
          obtain ⟨rest, rfl⟩ := hl
          have hnext : (l ++ rest)[g.count]? = some (l.getD g.count 0) := by
            have hlt : g.count < l.length := hmore
            rw [List.getElem?_append_left hlt, List.getD_eq_getElem?_getD, List.getElem?_eq_getElem hlt]
            rfl
          have hgame : (writeBe ((p.coop : Int) + 6) 2 0 h₁).2.cart = h₁.cart := (writeBe_kept ((p.coop : Int) + 6) 2 0 h₁).1
          have hplayer : Sound p n (l ++ rest) (writeBe ((p.coop : Int) + 6) 2 0 h₁).2 :=
            (safe_writeBe (mailbox_spares hp)).run hsound
          have hdue := hplayer.due.queue (v := l.getD g.count 0) (by rw [hgame, hfs]; exact hitem)
            (by rw [hgame, hfs, hcount]; exact hnext)
          obtain ⟨hcart, hcoop, hpending⟩ := writeBe_kept ((p.coop : Int) + 8) 2 (l.getD g.count 0)
            (writeBe ((p.coop : Int) + 6) 2 0 h₁).2
          refine ⟨?_, ?_, hcoop.trans hplayer.coop⟩
          · exact hplayer.tally
          · change Due p (l ++ rest) (writeBe ((p.coop : Int) + 6) 2 0 h₁).2.cart.game
              (writeBe ((p.coop : Int) + 8) 2 (l.getD g.count 0) (writeBe ((p.coop : Int) + 6) 2 0 h₁).2).2.script.mem.pending
            rw [hpending]
            exact hdue
  · rw [if_neg hmore]
    exact hs

theorem safe_refresh (hp : p.Apart) (regions : List (Int × Nat)) : Safe p n items (refresh (console p) regions) := by
  refine ((reads_readMany _).safe hp).bind fun blocks => .ite ?_ (.fail _)
  exact safe_update (fun _ => rfl) fun _ => rfl

theorem queueSeen_sound (hp : p.Apart) {g : Game} {list : Option (List Int)} (hlist : ∀ l, list = some l → l <+: items)
    (hs : Sound p n items h) (hseen : Seen p g h) :
    Sound p n items (queueSeen (console p) p.coop list h).2 := by
  have hcount : readBe (console p) 2 internalCountAddr h = (.ok (half g.ram countAt), h) := readBe_overlay hseen.count
  rw [queueSeen, Eff.bind_run, hcount]
  cases list with
  | none => exact hs
  | some l => exact offer_sound hp (hlist l rfl) hs hseen

theorem refreshed_sound (hp : p.Apart) {list : Option (List Int)} (hlist : ∀ l, list = some l → l <+: items)
    {regions : List (Int × Nat)} (hseen : ∀ h', refresh (console p) regions h = (.ok (), h') → ∃ g, Seen p g h')
    (hs : Sound p n items h) : Sound p n items ((refresh (console p) regions >>= fun _ => queueSeen (console p) p.coop list) h).2 := by
  have hsound := (safe_refresh hp regions).run hs
  rw [Eff.bind_run]
  revert hsound hseen
  cases refresh (console p) regions h with
  | mk r h₁ =>
    cases r with
    | error why => exact fun _ hsound => hsound
    | ok _ =>
      intro hseen hsound
      obtain ⟨g, hseen⟩ := hseen h₁ rfl
      exact queueSeen_sound hp hlist hsound hseen

theorem safe_queueItem (hp : p.Apart) {list : Option (List Int)} (hlist : ∀ l, list = some l → l <+: items) :
    Safe p n items (queueItem (console p) list) := by
  refine .of fun h hs => ?_
  rw [queueItem_run list hs.coop]
  exact refreshed_sound hp hlist (fun _ hr => refresh_seen hp hr) hs

theorem safe_processBlock (hp : p.Apart) {block : Option Block}
    (hblock : ∀ b l, block = some b → b.items = some l → l <+: items) : Safe p n items (processBlock (console p) block) := by
  cases block with
  | none => exact .pure _
  | some block =>
    refine (safe_writeNames hp _).bind fun _ => ?_
    have rest : Safe p n items (queueItem (console p) block.items >>= fun _ => recordCollectibles (console p) block) :=
      (safe_queueItem hp fun l hl => hblock block l rfl hl).bind fun _ => (reads_recordCollectibles _).safe hp
    exact .ite ((safe_killLink hp).bind fun _ => rest) rest

theorem safe_checkState (hp : p.Apart) (line : Line) : Safe p n items (checkState (console p) line) := by
  have slot (a : Int) (hlo : 0x40002C ≤ a) (hhi : a + 4 ≤ 0x40002C + 8) : Safe p n items (writeBe a 4 0) :=
    safe_writeBe (hp.spares (List.mem_cons_of_mem _ (List.mem_cons_of_mem _ (List.mem_cons_self ..))) hlo hhi)
  have locations : Safe p n items (checkAllLocations (console p) line) :=
    .script_bind fun _ _ => ((reads_scan _).safe hp).bind fun _ => (slot _ (by decide) (by decide)).bind fun _ =>
      (slot _ (by decide) (by decide)).bind fun _ => .pure _
  refine locations.bind fun _ => .script_bind fun _ _ => ((reads_scan _).safe hp).bind fun _ => ?_
  exact (reads_getDeathState.safe hp).bind fun _ => (reads_isGameComplete.safe hp).bind fun _ => .pure _

theorem safe_beginPoll (hp : p.Apart) : Safe p n items (beginPoll (console p)) := by
  refine Safe.bind (safe_update (fun _ => rfl) fun _ => rfl) fun _ => ((reads_mem (c := console p)).safe hp).bind fun _ => ?_
  exact Safe.bind (safe_update (fun _ => rfl) fun _ => rfl) fun _ => .ite ((reads_fetch _).safe hp) (.pure _)

theorem safe_body (hp : p.Apart) {line : Line} (hline : ∀ l, line.items = some l → l <+: items) :
    Safe p n items (body (console p) line) := by
  refine (safe_beginPoll hp).bind fun _ => ?_
  have rest : Safe p n items (reply (console p) line) := by
    refine .script_bind fun _ _ => ((reads_readString _ _).safe hp).bind fun _ => .script_bind fun _ _ => ?_
    refine ((reads_byteAt _).safe hp).bind fun _ => (reads_inSafeState.safe hp).bind fun _ => ?_
    exact .ite ((safe_checkState hp line).bind fun _ => .pure _) (.pure _)
  unfold Line.items at hline
  cases hblock : line.block with
  | error why => exact (Safe.fail why).bind fun _ => rest
  | ok block =>
    rw [hblock] at hline
    refine (safe_processBlock hp fun b l hb hl => ?_).bind fun _ => rest
    subst hb
    exact hline l hl

/-- A batch that is due, put to the cart: it lands or not, and nothing waits. -/
theorem writeMany_sound (hp : p.Apart) {ws : List Write} (ht : Tally p n items h.cart.game) (hd : Due p items h.cart.game ws)
    (hc : h.script.coopContext = p.coop) (hempty : h.script.mem.pending = []) :
    Sound p n items (writeMany (console p) ws h).2 := by
  have none_due (g : Game) : Due p items g [] := .inl nofun
  have same : Sound p n items h := ⟨ht, by rw [hempty]; exact none_due _, hc⟩
  unfold writeMany
  cases hwrites : ws.mapM fun w => (u32 w.1).map fun a => (a, w.2) with
  | error why => exact same
  | ok writes =>
    obtain ⟨hlist, hpos⟩ := mapM_u32 hwrites
    have hplaced : writes = ws.map placed := hlist
    by_cases hmoved : h.generation ≠ h.batch
    · simp only
      rw [if_pos hmoved]
      exact same
    · simp only
      rw [if_neg hmoved]
      obtain ⟨hscript, _, _⟩ := asked_quiet ((console p).writeMany writes h.cart) { h with sent := h.sent ++ ws }
      have hcart := asked_cart ((console p).writeMany writes h.cart) { h with sent := h.sent ++ ws }
      have htally : Tally p n items ((console p).writeMany writes h.cart).2.1.game := by
        simp only [console]
        cases h.cart.turns with
        | nil => exact ht
        | cons t turns =>
          simp only
          split
          · rw [hplaced]
            exact (ht.frames hp t.frames).land hp (hd.frames t.frames) hpos
          · exact ht.frames hp t.frames
      constructor
      · rw [hcart]
        exact htally
      · rw [hcart, hscript, hempty]
        exact none_due _
      · rw [hscript]
        exact hc

theorem safe_flush (hp : p.Apart) : Safe p n items (flush (console p)) := by
  refine .of fun h hs => ?_
  unfold flush flushQueue
  simp only [Eff.bind_run, script]
  by_cases hempty : h.script.mem.pending = []
  · simp only [hempty]
    exact hs
  · simp only [ne_eq, hempty, not_false_eq_true, if_true]
    exact writeMany_sound hp hs.tally hs.due hs.coop rfl

theorem safe_handle (hp : p.Apart) (encode : Reply → Except String String) {line : Line}
    (hline : ∀ l, line.items = some l → l <+: items) : Safe p n items (handle (console p) encode line) := by
  refine (safe_body hp hline).bind fun reply => (safe_flush hp).bind fun _ => ?_
  cases encode reply with
  | ok text => exact .pure text
  | error why => exact .fail why

end Polls

section Loads

variable {p : Places} {n : Nat} {items : List Int} {α : Type} {m : Store} {h h' : Host Console State}

/-- The bytes of the ROM's pointers. -/
def Places.points (p : Places) (a : Nat) : Prop := pointerAt ≤ a ∧ a < pointerAt + 4 ∨ p.rando ≤ a ∧ a < p.rando + 4

theorem frame_points (hp : p.Apart) {a : Nat} (ha : p.points a) (g : Game) (f : Frame) : (g.frame p f).ram a = g.ram a := by
  obtain ⟨_, hptr, hr, hcr⟩ := hp.bounds
  have hpc : countAt + 2 ≤ pointerAt := by decide
  simp only [Places.points] at ha
  have hkept : p.keeps a = true := decides_keeps (.inr (.inr ha))
  unfold Game.frame
  simp only
  split
  · have hcount : a < countAt ∨ countAt + 2 ≤ a := by omega
    have hmail : a < p.coop + 6 ∨ p.coop + 6 + 4 ≤ a := by omega
    refine (Store.write_outside _ _ hcount).trans ((Store.write_outside _ _ hmail).trans (if_pos hkept))
  · exact if_pos hkept

theorem frames_points (hp : p.Apart) {a : Nat} (ha : p.points a) (fs : List Frame) (g : Game) :
    (g.frames p fs).ram a = g.ram a := by
  induction fs generalizing g with
  | nil => rfl
  | cons f fs ih => exact (ih (g.frame p f)).trans (frame_points hp ha g f)

/-- What a script that loads has fetched says of the pointers what the memory
says. -/
structure Pointed (p : Places) (m : Store) (h : Host Console State) : Prop where
  pages : ∀ q data, h.script.mem.pages q = some data → ∀ a : Nat, p.points a → (a : Int) / page = q →
    data[((a : Int) % page).toNat]? = some (m a)
  overlay : ∀ a, h.script.mem.overlay a = none
  ram : ∀ a, p.points a → h.cart.game.ram a = m a

theorem needPage_pointed (hp : p.Apart) (q : Int) (hs : Pointed p m h) : Pointed p m (needPage (console p) q h).2 := by
  let h₁ : Host Console State := { h with script := { h.script with mem := { h.script.mem with touched := h.script.mem.touched ++ [q] } } }
  have hs₁ : Pointed p m h₁ := ⟨hs.pages, hs.overlay, hs.ram⟩
  change Pointed p m ((if h₁.script.mem.pages q = none then fetch (console p) [q] else Pure.pure ()) h₁).2
  by_cases hq : h₁.script.mem.pages q = none
  · rw [if_pos hq]
    obtain ⟨hscript, fs, hfs⟩ := readMany_kept (p := p) (h := h₁) [(q * page, page.toNat)]
    have hs₂ : Pointed p m (readMany (console p) [(q * page, page.toNat)] h₁).2 :=
      ⟨by rw [hscript]; exact hs₁.pages, by rw [hscript]; exact hs₁.overlay,
        fun a ha => by rw [hfs, frames_points hp ha]; exact hs₁.ram a ha⟩
    change Pointed p m ((readMany (console p) [(q * page, page.toNat)] >>= _) h₁).2
    rw [Eff.bind_run]
    revert hs₂
    cases hread : readMany (console p) [(q * page, page.toNat)] h₁ with
    | mk r h₂ =>
      cases r with
      | error why => exact fun hs₂ => hs₂
      | ok blocks =>
        intro hs₂
        obtain ⟨hblocks, _, _, hpos⟩ := readMany_ok hread
        rw [List.map_singleton] at hblocks
        have hq0 : 0 ≤ q * page := hpos _ (List.mem_singleton_self _)
        have hblock : ∀ i, i < page.toNat →
            (h₂.cart.game.ram.read (q * page).toNat page.toNat)[i]? = some (h₂.cart.game.ram ((q * page).toNat + i)) :=
          fun i hi => getElem?_read _ _ _ hi
        revert hblocks hblock
        generalize h₂.cart.game.ram.read (q * page).toNat page.toNat = block
        rintro rfl hblock
        refine ⟨fun q' data hdata a ha hq' => ?_, hs₂.overlay, hs₂.ram⟩
        change Function.update h₂.script.mem.pages q (some block) q' = some data at hdata
        by_cases hsame : q' = q
        · subst hsame
          rw [Function.update_self] at hdata
          obtain rfl := Option.some.inj hdata
          have hlow : ((a : Int) % page).toNat < page.toNat := by
            unfold page
            omega
          have hat : (q' * page).toNat + ((a : Int) % page).toNat = a := by
            unfold page at hq' ⊢
            omega
          rw [hblock _ hlow, hat, hs₂.ram a ha]
        · rw [Function.update_of_ne hsame] at hdata
          exact hs₂.pages q' data hdata a ha hq'
  · rw [if_neg hq]
    exact hs₁

theorem byteOf_cases (pages : Int → Option Bytes) (a : Int) (h : Host Console State) :
    (∃ why, byteOf pages a h = (.error why, h)) ∨
      ∃ data b, pages (a / page) = some data ∧ data[(a % page).toNat]? = some b ∧ byteOf pages a h = (.ok b, h) := by
  unfold byteOf
  cases pages (a / page) with
  | none => exact .inl ⟨_, rfl⟩
  | some data =>
    cases hbyte : data[(a % page).toNat]? with
    | none =>
      simp only [hbyte]
      exact .inl ⟨_, rfl⟩
    | some b =>
      simp only [hbyte]
      exact .inr ⟨data, b, rfl, hbyte, rfl⟩

theorem byteAt_pointed (hp : p.Apart) (a : Int) (hs : Pointed p m h) : Pointed p m (byteAt (console p) a h).2 ∧
    ∀ (x : Nat) b, a = x → p.points x → (byteAt (console p) a h).1 = .ok b → b = m x := by
  have hrun : byteAt (console p) a h = (needPage (console p) (a / page) >>= fun _ => mem >>= fun t => byteOf t.pages a) h := by
    have hmem : (mem : Lua Console State _) h = (.ok h.script.mem, h) := rfl
    rw [byteAt, Eff.bind_run, hmem]
    simp only [hs.overlay a]
  have hpage := needPage_pointed hp (a / page) hs
  rw [hrun, Eff.bind_run]
  revert hpage
  cases needPage (console p) (a / page) h with
  | mk r h₁ =>
    cases r with
    | error why => exact fun hs₁ => ⟨hs₁, (by intros; contradiction)⟩
    | ok _ =>
      intro hs₁
      change Pointed p m (byteOf h₁.script.mem.pages a h₁).2 ∧ ∀ (x : Nat) b, a = x → p.points x →
        (byteOf h₁.script.mem.pages a h₁).1 = .ok b → b = m x
      rcases byteOf_cases h₁.script.mem.pages a h₁ with ⟨why, hfail⟩ | ⟨data, b, hdata, hbyte, hgot⟩
      · rw [hfail]
        exact ⟨hs₁, (by intros; contradiction)⟩
      · rw [hgot]
        refine ⟨hs₁, fun x b' hx hpoints hok => ?_⟩
        subst hx
        have hknown := hs₁.pages _ data hdata x hpoints rfl
        rw [hbyte] at hknown
        exact (Except.ok.inj hok).symm.trans (Option.some.inj hknown)

/-- The number that `k` bytes are, as they are read. -/
def valueAt (m : Store) (a : Nat) : Nat → Nat
  | 0 => 0
  | k + 1 => valueAt m a k * 256 + (m (a + k)).toNat

theorem full_eq (m : Store) (a : Nat) : full m a = valueAt m a 4 := by
  simp only [full, be32_toNat, valueAt, Nat.add_zero]
  omega

theorem readBe_pointed (hp : p.Apart) (k : Nat) (a : Int) (hs : Pointed p m h) : Pointed p m (readBe (console p) k a h).2 ∧
    ∀ (x v : Nat), a = x → (∀ i < k, p.points (x + i)) → (readBe (console p) k a h).1 = .ok v → v = valueAt m x k := by
  induction k with
  | zero => exact ⟨hs, fun x v _ _ hv => (Except.ok.inj hv).symm⟩
  | succ k ih =>
    obtain ⟨hhigh, hval⟩ := ih
    unfold readBe
    rw [Eff.bind_run]
    revert hhigh hval
    cases readBe (console p) k a h with
    | mk r h₁ =>
      cases r with
      | error why => exact fun hs₁ _ => ⟨hs₁, nofun⟩
      | ok high =>
        intro hs₁ hval
        obtain ⟨hlow, hbyte⟩ := byteAt_pointed hp (a + k) hs₁
        simp only
        rw [Eff.bind_run]
        revert hlow hbyte
        cases byteAt (console p) (a + k) h₁ with
        | mk r h₂ =>
          cases r with
          | error why => exact fun hs₂ _ => ⟨hs₂, nofun⟩
          | ok low =>
            intro hs₂ hbyte
            refine ⟨hs₂, fun x v hx hpoints hv => ?_⟩
            have hh := hval x high hx (fun i hi => hpoints i (by omega)) rfl
            have hl := hbyte (x + k) low (by omega) (hpoints k (by omega)) rfl
            have hv : high * 256 + low.toNat = v := Except.ok.inj hv
            rw [← hv, hh, hl, valueAt]

theorem contextTables_coop (hp : p.Apart) (hrando : full m pointerAt = 0x80000000 + p.rando)
    (hcoop : full m p.rando = 0x80000000 + p.coop) (hs : Pointed p m h) {tables : Int × Int × Int}
    (hr : (contextTables (console p) h).1 = .ok tables) : tables.2.1 = p.coop := by
  obtain ⟨rando, h₁, hfirst, hr⟩ := Eff.bind_ok_inv hr
  obtain ⟨coop, h₂, hsecond, hr⟩ := Eff.bind_ok_inv hr
  obtain ⟨quest, h₃, _, hr⟩ := Eff.bind_ok_inv hr
  obtain ⟨_, h₄, _, hr⟩ := Eff.bind_ok_inv hr
  obtain rfl := Except.ok.inj hr
  obtain ⟨hs₁, hval⟩ := readBe_pointed hp 4 (0x1C6E90 + 0x15D4) hs
  rw [hfirst] at hs₁ hval
  have hat := hval pointerAt rando rfl (fun i hi => .inl (by omega)) rfl
  rw [← full_eq, hrando] at hat
  obtain ⟨_, hval⟩ := readBe_pointed hp 4 ((rando : Int) - 0x80000000) hs₁
  rw [hsecond] at hval
  have hat' := hval p.rando coop (by omega) (fun i hi => .inr (by omega)) rfl
  rw [← full_eq, hcoop] at hat'
  simp only
  omega

theorem Reads.frames {m : Lua Console State α} (hm : Reads (console p) m) (h : Host Console State) :
    ∃ fs, (m h).2.cart.game = h.cart.game.frames p fs := by
  refine Eff.path_invariant (P := fun h' : Host Console State => ∃ fs, h'.cart.game = h.cart.game.frames p fs)
    (fun h₁ h₂ hstep hgame => ?_) (hm h trivial).1 ⟨[], rfl⟩
  obtain ⟨fs, hfs⟩ := hgame
  obtain ⟨fs', hfs'⟩ := served_frames hstep.cart
  refine ⟨fs ++ fs', ?_⟩
  rw [hfs', hfs, Game.frames, Game.frames, Game.frames, List.foldl_append]

theorem loadScript_sound (hp : p.Apart) (ht : Tally p n items h.cart.game) :
    (∃ fs, (loadScript (console p) { h with script := .fresh }).2.cart.game = h.cart.game.frames p fs) ∧
      ((loadScript (console p) { h with script := .fresh }).1 = .ok () →
        Sound p n items (loadScript (console p) { h with script := .fresh }).2) := by
  obtain ⟨fs, hfs⟩ := (reads_contextTables (c := console p)).frames { h with script := .fresh }
  obtain ⟨hpending, _, _, _, _⟩ := (reads_contextTables (c := console p)).kept { h with script := .fresh }
  have hpointed : Pointed p h.cart.game.ram { h with script := .fresh } := ⟨nofun, fun _ => rfl, fun _ _ => rfl⟩
  have hcoop (tables : Int × Int × Int) (hr : (contextTables (console p) { h with script := .fresh }).1 = .ok tables) :
      tables.2.1 = p.coop := contextTables_coop hp ht.rando ht.coop hpointed hr
  unfold loadScript
  rw [Eff.bind_run]
  revert hfs hpending hcoop
  cases contextTables (console p) { h with script := .fresh } with
  | mk r h₁ =>
    cases r with
    | error why => exact fun hfs _ _ => ⟨⟨fs, hfs⟩, nofun⟩
    | ok tables =>
      intro hfs hpending hcoop
      refine ⟨⟨fs, hfs⟩, fun _ => ⟨?_, .inl ?_, hcoop tables rfl⟩⟩
      · have ht' := ht.frames hp fs
        rw [← hfs] at ht'
        exact ht'
      · change ∀ w ∈ h₁.script.mem.pending, p.spares w
        rw [hpending]
        exact nofun

theorem load_sound (hp : p.Apart) (encode : Reply → Except String String) (ht : Tally p n items h.cart.game) :
    Tally p n items (load (oot (console p) encode) h).2.cart.game ∧
      ((load (oot (console p) encode) h).1 = .ok () ∨ Sound p n items h → Sound p n items (load (oot (console p) encode) h).2) := by
  obtain ⟨⟨fs, hfs⟩, hloaded⟩ := loadScript_sound hp ht
  have htally : Tally p n items (loadScript (console p) { h with script := .fresh }).2.cart.game := by
    rw [hfs]
    exact ht.frames hp fs
  have hold : Sound p n items h →
      ∀ fatal, Sound p n items { (loadScript (console p) { h with script := .fresh }).2 with fatal := fatal, script := h.script } := by
    intro hs fatal
    refine ⟨htally, ?_, hs.coop⟩
    change Due p items (loadScript (console p) { h with script := .fresh }).2.cart.game h.script.mem.pending
    rw [hfs]
    exact hs.due.frames fs
  unfold load
  simp only [oot]
  revert htally hloaded hold
  cases loadScript (console p) { h with script := .fresh } with
  | mk r h₁ =>
    intro hloaded htally hold
    cases hf : h₁.fatal with
    | some why => exact ⟨htally, fun hor => hold (hor.resolve_left nofun) none⟩
    | none =>
      cases r with
      | error why =>
        refine ⟨htally, fun hor => ?_⟩
        exact hold (hor.resolve_left nofun) none
      | ok _ => exact ⟨htally, fun _ => hloaded rfl⟩

theorem handle_sound (hp : p.Apart) (encode : Reply → Except String String) {line : Line}
    (hline : ∀ l, line.items = some l → l <+: items) {s : Session Console State} (hs : Sound p n items s.host) :
    Sound p n items (Connector.handle (oot (console p) encode) line s).2.host := by
  have hready : Sound p n items (ready (oot (console p) encode) s).2 := by
    have hstart : Sound p n items { s.host with made := [], sent := [] } := ⟨hs.tally, hs.due, hs.coop⟩
    unfold ready
    simp only
    split
    · exact (load_sound hp encode hstart.tally).2 (.inr hstart)
    · exact hstart
  unfold Connector.handle
  revert hready
  cases ready (oot (console p) encode) s with
  | mk loaded h =>
    cases loaded with
    | error why => exact fun hready => hready
    | ok _ =>
      intro hready
      have hgiven : Sound p n items (begin_ s.host.generation h) := ⟨hready.tally, hready.due, hready.coop⟩
      have hdone := (safe_handle hp encode hline).run hgiven
      have hrun : (oot (console p) encode).handle line = handle (console p) encode line := rfl
      simp only [hrun]
      unfold answered
      split
      · exact ⟨hdone.tally, hdone.due, hdone.coop⟩
      · exact hdone
      · exact hdone

theorem handleAll_sound (hp : p.Apart) (encode : Reply → Except String String) (lines : List Line)
    (hlines : ∀ line ∈ lines, ∀ l, line.items = some l → l <+: items) {s : Session Console State} (hs : Sound p n items s.host) :
    ∀ r ∈ handleAll (oot (console p) encode) lines s, Sound p n items r.2.host := by
  induction lines generalizing s with
  | nil => exact fun _ hr => absurd hr List.not_mem_nil
  | cons line lines ih =>
    obtain ⟨hline, hrest⟩ := List.forall_mem_cons.mp hlines
    have hone := handle_sound hp encode hline hs
    unfold handleAll
    simp only
    split
    · exact List.forall_mem_singleton.mpr hone
    · exact List.forall_mem_cons.mpr ⟨hone, ih hrest hone⟩

theorem sessions_tally (hp : p.Apart) (encode : Reply → Except String String) (generation : Nat) (runs : List (List Line))
    (hruns : ∀ lines ∈ runs, ∀ line ∈ lines, ∀ l, line.items = some l → l <+: items) {s : Console} (hs : Tally p n items s.game) :
    Tally p n items (sessions p encode generation runs s).game := by
  induction runs generalizing s with
  | nil => exact hs
  | cons lines runs ih =>
    obtain ⟨hlines, hrest⟩ := List.forall_mem_cons.mp hruns
    obtain ⟨htally, hsound⟩ := load_sound (h := ⟨s, generation, generation, none, .fresh, [], []⟩) hp encode hs
    unfold sessions
    simp only
    split
    · exact ih hrest htally
    · next hok =>
      refine ih hrest ?_
      have hstart := hsound (.inl hok)
      have hall := handleAll_sound hp encode lines hlines
        (s := (connect (oot (console p) encode) s generation).2) hstart
      cases hlast : (handleAll (oot (console p) encode) lines (connect (oot (console p) encode) s generation).2).getLast? with
      | none => exact hstart.tally
      | some r => exact (hall r (List.mem_of_getLast? hlast)).tally

end Loads

section Lists

variable {p : Places} {n : Nat}

/-- Of lists that grow, each is a prefix of the last. -/
theorem growing_last {lists : List (List Int)} (h : lists.Pairwise (· <+: ·)) : ∀ l ∈ lists, l <+: lists.getLast?.getD [] := by
  cases lists using List.reverseRecOn with
  | nil => exact nofun
  | append_singleton init last =>
    intro l hl
    rw [List.getLast?_concat, Option.getD_some]
    rcases List.mem_append.mp hl with hinit | hlast
    · exact (List.pairwise_append.mp h).2.2 l hinit last (List.mem_singleton_self _)
    · obtain rfl := List.mem_singleton.mp hlast
      exact List.prefix_refl l

/-- What the game takes is a prefix of the client's list, from the first item it
had not received. -/
theorem items_in_order (hp : p.Apart) (encode : Reply → Except String String) (generation : Nat) (runs : List (List Line))
    (hgrow : (runs.flatten.filterMap Line.items).Pairwise (· <+: ·)) {s : Console} (hs : Opens p n s.game) (fs : List Frame) :
    ((sessions p encode generation runs s).game.frames p fs).taken <+:
      (((runs.flatten.filterMap Line.items).getLast?.getD []).drop n).map stored := by
  have hruns : ∀ lines ∈ runs, ∀ line ∈ lines, ∀ l, line.items = some l →
      l <+: (runs.flatten.filterMap Line.items).getLast?.getD [] := by
    intro lines hlines line hline l hl
    exact growing_last hgrow l (List.mem_filterMap.mpr ⟨line, List.mem_flatten.mpr ⟨lines, hlines, hline⟩, hl⟩)
  have htally := (sessions_tally hp encode generation runs hruns (hs.tally _)).frames hp fs
  rw [htally.taken, List.map_take]
  exact List.take_prefix ..

/-- A game at play, with what the ROM points at. -/
def atPlay : Store := fun a =>
  if a = pointerAt ∨ a = 0x400000 then 0x80
  else if a = pointerAt + 1 ∨ a = 0x400001 then 0x40
  else if a = 0x400002 ∨ a = 0x11F200 ∨ a = 0x11A600 then 1
  else 0

def quietTurn : Turn := ⟨[⟨atPlay, true⟩], none, true, 0, []⟩

def oneItem : Line where
  block := .ok (some ⟨some [], false, some [0x42], some 0, none⟩)
  locations _ := .done []
  collectibles _ := .done []

def atCoop : Places := ⟨0x400000, 0x400100⟩

theorem atCoop_apart : atCoop.Apart := ⟨by decide, by decide, by decide⟩

theorem items_in_order_one :
    ((sessions atCoop (fun _ => .ok "") 0 [[oneItem], [oneItem, oneItem]]
      ⟨⟨atPlay, []⟩, [], atPlay, List.replicate 60 quietTurn⟩).game.frames atCoop []).taken <+: [0x42] :=
  items_in_order (n := 0) atCoop_apart (fun _ => .ok "") 0 [[oneItem], [oneItem, oneItem]] (by decide)
    ⟨rfl, by decide, by decide, by decide, by decide⟩ []

end Lists

end Oot

end Connector

end Multi64
