import Multi64.OotConnector

/-! What a poll of the Ocarina of Time connector does while it only reads. -/

namespace Multi64

namespace Connector

namespace Oot

variable {σ α β : Type} {c : Cart σ} {h h' : Host σ State}

/-- The cart has served a request that changes nothing on it. -/
inductive Served (c : Cart σ) (s : σ) : σ → Prop where
  | none : Served c s s
  | read (regions : List (Nat × Nat)) : Served c s (c.readMany regions s).2.1
  | watched : Served c s (c.takeWatched s).2

/-- A step that leaves the queue, what is served over the pages, and the tables
of the ROM alone. -/
structure ReadStep (c : Cart σ) (h h' : Host σ State) : Prop where
  pending : h'.script.mem.pending = h.script.mem.pending
  overlay : h'.script.mem.overlay = h.script.mem.overlay
  coop : h'.script.coopContext = h.script.coopContext
  made : h'.made = h.made
  sent : h'.sent = h.sent
  cart : Served c h.cart h'.cart

def Reads (c : Cart σ) (m : Lua σ State α) : Prop := Eff.Keeps (ReadStep c) (fun _ => True) m

theorem Reads.pure (a : α) : Reads c (Pure.pure a : Lua σ State α) := Eff.Keeps.pure a

theorem Reads.fail (why : String) : Reads c (Eff.fail why : Lua σ State α) := Eff.Keeps.fail why

theorem Reads.bind {m : Lua σ State α} {f : α → Lua σ State β} (hm : Reads c m) (hf : ∀ a, Reads c (f a)) :
    Reads c (m >>= f) :=
  Eff.Keeps.bind hm hf

theorem Reads.ite {p : Prop} [Decidable p] {m m' : Lua σ State α} (hm : Reads c m) (hm' : Reads c m') :
    Reads c (if p then m else m') :=
  Eff.Keeps.ite hm hm'

theorem reads_script : Reads c (script : Lua σ State State) := fun _ _ => ⟨.refl, trivial⟩

theorem reads_mem : Reads c (mem : Lua σ State Cartmem) := reads_script.bind fun _ => .pure _

theorem reads_update {f : State → State} (hpending : ∀ s, (f s).mem.pending = s.mem.pending := by intro; rfl)
    (hoverlay : ∀ s, (f s).mem.overlay = s.mem.overlay := by intro; rfl)
    (hcoop : ∀ s, (f s).coopContext = s.coopContext := by intro; rfl) :
    Reads c (update f : Lua σ State Unit) :=
  .modify (fun h _ => ⟨hpending h.script, hoverlay h.script, hcoop h.script, rfl, rfl, .none⟩) fun _ _ => trivial

theorem asked_reads {r : Except CartError α × σ × Nat} (hr : Served c h.cart r.2.1) : ReadStep c h (asked r h).2 := by
  unfold asked
  split
  · exact ⟨rfl, rfl, rfl, rfl, rfl, hr⟩
  · exact ⟨rfl, rfl, rfl, rfl, rfl, hr⟩
  · exact ⟨rfl, rfl, rfl, rfl, rfl, hr⟩

theorem reads_readMany (list : List (Int × Nat)) : Reads c (readMany c list : Lua σ State (List Bytes)) := by
  intro h _
  unfold readMany
  cases regionsOf list with
  | error why => exact ⟨.refl, trivial⟩
  | ok regions => exact ⟨.single (asked_reads (.read regions)), trivial⟩

theorem reads_takeWatched : Reads c (takeWatched c : Lua σ State (Option Bytes)) :=
  fun _ _ => ⟨.single ⟨rfl, rfl, rfl, rfl, rfl, .watched⟩, trivial⟩

theorem reads_fetch (list : List Int) : Reads c (fetch c list) :=
  (reads_readMany _).bind fun _ => reads_update

theorem reads_byteOf (pages : Int → Option Bytes) (a : Int) : Reads c (byteOf pages a : Lua σ State UInt8) := by
  unfold byteOf
  split
  · split
    · exact .pure _
    · exact .fail _
  · exact .fail _

theorem reads_needPage (p : Int) : Reads c (needPage c p) :=
  Reads.bind reads_update fun _ => reads_mem.bind fun _ => .ite (reads_fetch _) (.pure _)

theorem reads_byteAt (a : Int) : Reads c (byteAt c a) := by
  refine reads_mem.bind fun m => ?_
  cases m.overlay a with
  | some b => exact .pure b
  | none => exact (reads_needPage _).bind fun _ => reads_mem.bind fun m => reads_byteOf m.pages a

theorem reads_readBe (n : Nat) (a : Int) : Reads c (readBe c n a) := by
  induction n with
  | zero => exact .pure 0
  | succ n ih => exact ih.bind fun _ => (reads_byteAt _).bind fun _ => .pure _

theorem reads_scan (scan : Scan α) : Reads c (scan.run c) := by
  induction scan with
  | done a => exact .pure a
  | raise why => exact .fail why
  | read a k ih => exact (reads_byteAt a).bind fun b => ih b
  | watched k ih => exact reads_takeWatched.bind fun b => ih b

theorem reads_mapM {f : β → Lua σ State α} (hf : ∀ b, Reads c (f b)) (l : List β) : Reads c (l.mapM' f) := by
  induction l with
  | nil => exact .pure []
  | cons b l ih => exact (hf b).bind fun _ => ih.bind fun _ => .pure _

/-- What reading leaves as it was. -/
theorem Reads.kept {m : Lua σ State α} (hm : Reads c m) (h : Host σ State) :
    (m h).2.script.mem.pending = h.script.mem.pending ∧ (m h).2.script.mem.overlay = h.script.mem.overlay ∧
      (m h).2.script.coopContext = h.script.coopContext ∧ (m h).2.made = h.made ∧ (m h).2.sent = h.sent := by
  have hpath := (hm h trivial).1
  revert hpath
  generalize (m h).2 = h'
  intro hpath
  induction hpath with
  | refl => exact ⟨rfl, rfl, rfl, rfl, rfl⟩
  | tail _ hstep ih =>
    obtain ⟨hpending, hoverlay, hcoop, hmade, hsent⟩ := ih
    exact ⟨hstep.pending.trans hpending, hstep.overlay.trans hoverlay, hstep.coop.trans hcoop, hstep.made.trans hmade,
      hstep.sent.trans hsent⟩

theorem reads_contextTables : Reads c (contextTables c) := by
  refine (reads_readBe _ _).bind fun _ => (reads_readBe _ _).bind fun _ => ?_
  exact (reads_readBe _ _).bind fun _ => (reads_readBe _ _).bind fun _ => .pure _

theorem reads_playMode : Reads c (playMode c) := by
  refine (reads_byteAt _).bind fun _ => .ite (.pure _) ?_
  refine (reads_readBe _ _).bind fun _ => .ite (.pure _) ?_
  exact (reads_readBe _ _).bind fun _ => .ite (.pure _) (.pure _)

theorem reads_getCurrentGameMode : Reads c (getCurrentGameMode c) := by
  refine (reads_readBe _ _).bind fun _ => .ite (.pure _) ?_
  refine (reads_readBe _ _).bind fun _ => .ite (.pure _) ?_
  refine (reads_readBe _ _).bind fun _ => .ite (.pure _) ?_
  exact (reads_readBe _ _).bind fun _ => .ite reads_playMode (.pure _)

theorem reads_inSafeState : Reads c (inSafeState c) := reads_getCurrentGameMode.bind fun _ => .pure _

theorem reads_curScene : Reads c (curScene c) := reads_readBe _ _

theorem reads_itemReceivable : Reads c (itemReceivable c) := by
  refine reads_getCurrentGameMode.bind fun _ => reads_curScene.bind fun _ => reads_script.bind fun _ => ?_
  exact (reads_readBe _ _).bind fun _ => (reads_readBe _ _).bind fun _ => .pure _

theorem reads_readString (n : Nat) (a : Int) : Reads c (readString c n a) :=
  (reads_mapM (fun _ => reads_byteAt _) _).bind fun _ => .pure _

theorem reads_getDeathState : Reads c (getDeathState c) :=
  reads_getCurrentGameMode.bind fun _ => (reads_readBe _ _).bind fun _ => .pure _

theorem reads_isGameComplete : Reads c (isGameComplete c) := by
  refine reads_script.bind fun _ => .ite (.pure _) ((reads_readBe _ _).bind fun _ => .ite ?_ (.pure _))
  exact Reads.bind reads_update fun _ => .pure _

theorem reads_recordCollectibles (block : Block) : Reads c (recordCollectibles c block) := by
  refine Reads.bind (reads_script.bind fun s => .ite ?_ (.pure _)) fun _ => reads_update
  cases block.collectibleOverrides with
  | none => exact .fail _
  | some at_ => exact reads_script.bind fun _ => (reads_readBe _ _).bind fun _ => reads_update

end Oot

end Connector

end Multi64
