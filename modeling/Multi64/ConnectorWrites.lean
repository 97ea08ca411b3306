import Multi64.GenericConnector
import Multi64.OotReads

/-! Whose writes a line of a game connector puts to the cart, over every line,
every cart and every point at which the line fails. -/

namespace Multi64

namespace Connector

variable {σ S L R α β : Type} {c : Cart σ} {queue : S → List Write}

/-- A step that queues what it makes and sends nothing. -/
def Queued (queue : S → List Write) (h h' : Host σ S) : Prop :=
  ∃ ws, queue h'.script = queue h.script ++ ws ∧ h'.made = h.made ++ ws ∧ h'.sent = h.sent

def Queues (queue : S → List Write) (m : Lua σ S α) : Prop := Eff.Keeps (Queued queue) (fun _ => True) m

theorem Queues.pure (a : α) : Queues queue (Pure.pure a : Lua σ S α) := Eff.Keeps.pure a

theorem Queues.fail (why : String) : Queues queue (Eff.fail why : Lua σ S α) := Eff.Keeps.fail why

theorem Queues.bind {m : Lua σ S α} {f : α → Lua σ S β} (hm : Queues queue m) (hf : ∀ a, Queues queue (f a)) :
    Queues queue (m >>= f) :=
  Eff.Keeps.bind hm hf

theorem Queues.ite {p : Prop} [Decidable p] {m m' : Lua σ S α} (hm : Queues queue m) (hm' : Queues queue m') :
    Queues queue (if p then m else m') :=
  Eff.Keeps.ite hm hm'

theorem Queues.forM {f : β → Lua σ S PUnit} (hf : ∀ b, Queues queue (f b)) (l : List β) : Queues queue (l.forM f) := by
  induction l with
  | nil => exact .pure _
  | cons b l ih => exact (hf b).bind fun _ => ih

/-- A step that makes nothing and sends nothing. -/
structure Calm (queue : S → List Write) (h h' : Host σ S) : Prop where
  queue : queue h'.script = queue h.script
  made : h'.made = h.made
  sent : h'.sent = h.sent

def Calms (queue : S → List Write) (m : Lua σ S α) : Prop := Eff.Keeps (Calm queue) (fun _ => True) m

theorem Calms.pure (a : α) : Calms queue (Pure.pure a : Lua σ S α) := Eff.Keeps.pure a

theorem Calms.fail (why : String) : Calms queue (Eff.fail why : Lua σ S α) := Eff.Keeps.fail why

theorem Calms.bind {m : Lua σ S α} {f : α → Lua σ S β} (hm : Calms queue m) (hf : ∀ a, Calms queue (f a)) :
    Calms queue (m >>= f) :=
  Eff.Keeps.bind hm hf

theorem Calms.ite {p : Prop} [Decidable p] {m m' : Lua σ S α} (hm : Calms queue m) (hm' : Calms queue m') :
    Calms queue (if p then m else m') :=
  Eff.Keeps.ite hm hm'

theorem Calms.kept {m : Lua σ S α} (hm : Calms queue m) (h : Host σ S) : Calm queue h (m h).2 := by
  refine Eff.path_invariant (P := Calm queue h) (fun h' h'' hstep hkept => ?_) (hm h trivial).1 ⟨rfl, rfl, rfl⟩
  exact ⟨hstep.queue.trans hkept.queue, hstep.made.trans hkept.made, hstep.sent.trans hkept.sent⟩

theorem asked_quiet (r : Except CartError α × σ × Nat) (h : Host σ S) :
    (asked r h).2.script = h.script ∧ (asked r h).2.made = h.made ∧ (asked r h).2.sent = h.sent := by
  unfold asked
  split
  · exact ⟨rfl, rfl, rfl⟩
  · exact ⟨rfl, rfl, rfl⟩
  · exact ⟨rfl, rfl, rfl⟩

/-- What a line has queued is what it made, and nothing is sent. -/
def Waiting (queue : S → List Write) (h : Host σ S) : Prop := queue h.script = h.made ∧ h.sent = []

theorem Queues.waiting {m : Lua σ S α} (hm : Queues queue m) {h : Host σ S} (hw : Waiting queue h) :
    Waiting queue (m h).2 := by
  refine Eff.path_invariant (fun h h' hstep hw => ?_) (hm h trivial).1 hw
  obtain ⟨ws, hqueue, hmade, hsent⟩ := hstep
  exact ⟨by rw [hqueue, hmade, hw.1], hsent.trans hw.2⟩

/-- What a line puts to the cart is what it made, or nothing where it fails. -/
def Puts (r : Except String α × Host σ S) : Prop :=
  r.2.sent = r.2.made ∨ r.2.sent = [] ∧ r.1.isOk = false

/-- What makes nothing after keeps what was put and what is left. -/
theorem Puts.bind {m : Lua σ S α} {f : α → Lua σ S β} {h : Host σ S} (hm : Puts (m h)) (hf : ∀ a, Calms queue (f a)) :
    Puts ((m >>= f) h) ∧ queue ((m >>= f) h).2.script = queue (m h).2.script := by
  rw [Eff.bind_run]
  revert hm
  cases m h with
  | mk r h' =>
    cases r with
    | error why => exact fun hm => ⟨hm, rfl⟩
    | ok a =>
      intro hm
      have hall : h'.sent = h'.made := hm.resolve_right fun hno => nomatch hno.2
      have hkept := (hf a).kept h'
      exact ⟨.inl ((hkept.sent.trans hall).trans hkept.made.symm), hkept.queue⟩

section Sessions

variable {script : Script σ S L R} {P : L → Host σ S → Bool}

end Sessions

section Oot

open Oot

variable {σ : Type} {c : Cart σ}

theorem setBytes_pending (a : Int) (bytes : Bytes) (is : List Nat) (m : Cartmem) :
    (is.foldl (fun m (i : Nat) => setByte (a + i) (bytes.getD i 0) m) m).pending = m.pending := by
  induction is generalizing m with
  | nil => rfl
  | cons i is ih => exact ih _

end Oot

section Generic

open Generic

variable {σ : Type} {c : Cart σ} {rdramSize romSize : Nat}

end Generic

section Pj64

open Pj64

variable {σ : Type} {c : Cart σ} {rdramSize : Nat}

end Pj64

/-- A cart whose every byte is the same. -/
def flat : Cart Unit where
  readMany regions _ := (.ok (regions.map fun r => List.replicate r.2 0x80), (), 0)
  writeMany _ _ := (.ok (), (), 0)
  readRomMany regions _ := (.ok (regions.map fun r => List.replicate r.2 0x80), (), 0)
  takeWatched _ := (none, ())

def idle : Oot.Line where
  block := .ok none
  locations _ := .done []
  collectibles _ := .done []

end Connector

end Multi64
