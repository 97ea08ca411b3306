import Multi64.Backend
import Multi64.LinkReply

/-! The steps a session takes: what happens on the link, what the host does on
an open connection and while one is greeted, and what it does to its own
state. Every call is a path of them. -/

namespace Multi64

section Tickets

/-- Request `k` was issued on the open connection. -/
structure World.Owns (w : World) (k : Ticket) : Prop where
  pos : 0 < k.tag
  le : k.tag ≤ w.issued
  base : (w.led.issues k.tag).base = w.t.base
  rid : (w.led.issues k.tag).rid = k.rid

/-- Request `k` was issued last, and nothing was sent for it. -/
structure World.Unsent (w : World) (k : Ticket) : Prop extends w.Owns k where
  last : k.tag = w.issued
  body : (w.led.issues k.tag).body = []

/-- Request `k` was sent as `app`. -/
structure World.Asked (w : World) (k : Ticket) (app : Bytes) : Prop extends w.Owns k where
  body : (w.led.issues k.tag).body = app

/-- The payload is a request under `rid`. -/
structure Names (app : Bytes) (rid : UInt16) : Prop where
  hello : isHello app = false
  length : 8 ≤ app.length
  rid : readBe16 app 5 = rid

/-- `resp` was taken for request `k`, and nothing happened since. -/
def World.JustRead (w : World) (k : Ticket) (resp : Response) : Prop :=
  ∃ a, w.led.accepted.getLast? = some a ∧ a.want = k.tag ∧ parse a.reply.bytes = .ok resp ∧
    (a.reply.tag = w.led.hist.armTag → a.reply.tag ≠ 0 → w.led.hist.reached = true ∧ w.led.hist.kept = [])

end Tickets

section Steps

/-- What happens while the host waits. -/
inductive Passes : World → World → Prop where
  | pop (w : World) : Passes w w.pop
  | happen (w : World) (e : Event) : Passes w (w.happen e)

/-- What the host does on an open connection. -/
inductive Op : World → World → Prop where
  | passes {w w' : World} (h : Passes w w') : Op w w'
  | read (w : World) (k : Ticket) (h : w.Owns k) : Op w (w.read (.rid k))
  | unanswered (w : World) : Op w w.unanswered
  | issue (w : World) : Op w w.issue
  | send (w : World) (k : Ticket) (app : Bytes) (mayCopy : Bool) (h : w.Unsent k) (hn : Names app k.rid) :
      Op w (w.send k app mayCopy)
  | copy (w : World) (k : Ticket) (app : Bytes) (h : w.Asked k app) (hn : Names app k.rid) : Op w (w.copy k app)
  | markCopied (w : World) : Op w w.markCopied
  | copyOutstanding (w : World) : Op w w.copyOutstanding
  | armed (w : World) (k : Ticket) (n : UInt8) (h : w.JustRead k (.watchAck k.rid n)) : Op w (w.armed k)
  | acknowledged (w : World) (k : Ticket) (n : UInt8) (h : w.JustRead k (.pokeAck k.rid n)) :
      Op w (w.acknowledged k)

/-- What the host does to its own state. -/
inductive Own : World → World → Prop where
  | setMissed (w : World) (missed : Bool) : Own w (w.setMissed missed)
  | relinked (w : World) : Own w w.relinked
  | unwatched (w : World) : Own w w.unwatched
  | forgetPokeOnce (w : World) : Own w w.forgetPokeOnce
  | watchSet (w : World) (x : Watch) : Own w (w.watchSet x)
  | watchArmed (w : World) : Own w w.watchArmed
  | watchOnCart (w : World) (on : Bool) : Own w (w.watchOnCart on)
  | collect (w : World) : Own w w.collect
  | observe (w : World) (bytes : Bytes) : Own w (w.observe bytes)
  | takeWatched (w : World) : Own w w.takeWatched
  | insertPage (w : World) (p : Nat) (b : RomBlock) : Own w (w.insertPage p b)
  | opened (w : World) : Own w w.opened

/-- What the host does while it greets a new connection. -/
inductive Greeting : World → World → Prop where
  | greet (w : World) (h : w.led.stage = .up) : Greeting w w.greet
  | sendHello (w : World) (h : w.led.stage = .opened) : Greeting w w.sendHello
  | read (w : World) (h : w.led.stage = .sent) : Greeting w (w.read .hello)
  | greeted (w : World) (rdramBytes : UInt32) (flags : UInt8) (romBytes : Option UInt32)
      (watchSlots : Option UInt8) (cart : Option CartKind) (h : w.led.stage = .acked) :
      Greeting w (w.greeted rdramBytes flags romBytes watchSlots cart)
  | keep (w : World) (h : w.led.stage = .acked) : Greeting w w.keep
  | restore (w : World) (h : w.led.stage ≠ .up) : Greeting w w.restore

inductive Step : World → World → Prop where
  | passes {w w' : World} (h : Passes w w') : Step w w'
  | op {w w' : World} (h : Op w w') (hup : w.led.stage = .up) : Step w w'
  | own {w w' : World} (h : Own w w') (hup : w.led.stage = .up) : Step w w'
  | greeting {w w' : World} (h : Greeting w w') : Step w w'

end Steps

section Frame

/-- Of the open connection only the inbox changed, and nothing of what the
host knows it asked. -/
structure SameHost (w w' : World) : Prop where
  t : ∃ inbox, w'.t = { w.t with inbox := inbox }
  issued : w'.issued = w.issued
  issues : w'.led.issues = w.led.issues
  stage : w'.led.stage = w.led.stage
  lastSent : w'.led.lastSent = w.led.lastSent
  accepted : w'.led.accepted = w.led.accepted
  acked : w'.led.acked = w.led.acked
  host : w'.host = w.host
  terms : w'.led.terms = { w.led.terms with
    bootMissed := w'.led.terms.bootMissed, steady := w'.led.terms.steady }

theorem SameHost.refl (w : World) : SameHost w w := ⟨⟨_, rfl⟩, rfl, rfl, rfl, rfl, rfl, rfl, rfl, rfl⟩

/-- What a turn of the agent comes to. -/
theorem serve_cases (w : World) : w.serve = w ∨ ∃ p rest, w.toCart = p :: rest ∧
    (w.serve = { w with toCart := rest } ∨ ∃ s' b,
      m64pHandle w.cart.hooks w.cart.agent p.bytes = .ok (some (s', b)) ∧ w.serve = w.answer p s' b) := by
  unfold World.serve
  split
  · exact .inl rfl
  next p rest hcart =>
    split
    · refine .inr ⟨p, rest, hcart, ?_⟩
      split
      next s' b hout => exact .inr ⟨s', b, hout, rfl⟩
      · exact .inl rfl
    · exact .inl rfl

theorem serve_same (w : World) : SameHost w w.serve := by
  rcases serve_cases w with h | ⟨p, rest, _, h | ⟨s', b, _, h⟩⟩
  · rw [h]
    exact .refl w
  · rw [h]
    exact ⟨⟨_, rfl⟩, rfl, rfl, rfl, rfl, rfl, rfl, rfl, rfl⟩
  · rw [h]
    exact ⟨⟨_, rfl⟩, rfl, rfl, rfl, rfl, rfl, rfl, rfl, rfl⟩

theorem frame_same (w : World) (byte : Nat → UInt8) : SameHost w (w.frame byte) := by
  unfold World.frame
  split
  · exact ⟨⟨_, rfl⟩, rfl, rfl, rfl, rfl, rfl, rfl, rfl, rfl⟩
  · exact .refl w

theorem deliver_same (w : World) : SameHost w w.deliver := by
  unfold World.deliver
  split
  · exact .refl w
  · exact ⟨⟨_, rfl⟩, rfl, rfl, rfl, rfl, rfl, rfl, rfl, rfl⟩

theorem Passes.same {w w' : World} (h : Passes w w') : SameHost w w' := by
  cases h with
  | pop => exact ⟨⟨_, rfl⟩, rfl, rfl, rfl, rfl, rfl, rfl, rfl, rfl⟩
  | happen e =>
    cases e with
    | frame byte => exact frame_same w byte
    | serve => exact serve_same w
    | deliver => exact deliver_same w
    | _ => exact ⟨⟨_, rfl⟩, rfl, rfl, rfl, rfl, rfl, rfl, rfl, rfl⟩

variable {w w' : World} {k : Ticket} {app : Bytes}

theorem SameHost.base (h : SameHost w w') : w'.t.base = w.t.base := by
  obtain ⟨inbox, ht⟩ := h.t
  rw [ht]

/-- What reading a reply leaves alone. -/
structure SameIds (w w' : World) : Prop where
  issued : w'.issued = w.issued
  issues : w'.led.issues = w.led.issues
  base : w'.t.base = w.t.base
  stage : w'.led.stage = w.led.stage

theorem SameHost.ids (h : SameHost w w') : SameIds w w' := ⟨h.issued, h.issues, h.base, h.stage⟩

theorem answered_base (t : Transport) (k : Ticket) : (t.answered k).base = t.base := by
  unfold Transport.answered
  split
  · rfl
  · split <;> rfl

theorem read_same (w : World) (k : Ticket) : SameIds w (w.read (.rid k)) := by
  unfold World.read
  split
  · exact ⟨rfl, rfl, rfl, rfl⟩
  · split
    · exact ⟨rfl, rfl, rfl, rfl⟩
    · simp only
      split
      · exact ⟨rfl, rfl, answered_base _ k, rfl⟩
      · exact ⟨rfl, rfl, rfl, rfl⟩

theorem read_acked (w : World) (k : Ticket) : (w.read (.rid k)).led.acked = w.led.acked := by
  unfold World.read
  split
  · rfl
  · split
    · rfl
    · simp only
      split <;> rfl

/-- The requests of `w` are what they were in `w'`. -/
structure Remembers (w w' : World) : Prop where
  issued : w.issued ≤ w'.issued
  old : ∀ tag ≤ w.issued, (w'.led.issues tag).base = (w.led.issues tag).base ∧
    (w'.led.issues tag).rid = (w.led.issues tag).rid ∧
    ((w.led.issues tag).body ≠ [] → (w'.led.issues tag).body = (w.led.issues tag).body)

/-- The tickets of `w` stand for the same requests in `w'`. -/
structure Grows (w w' : World) : Prop extends Remembers w w' where
  base : w'.t.base = w.t.base

theorem remembers_same (hi : w'.issued = w.issued) (hs : w'.led.issues = w.led.issues) : Remembers w w' :=
  ⟨hi.ge, fun tag _ => by rw [hs]; exact ⟨rfl, rfl, fun _ => rfl⟩⟩

theorem SameIds.grows (h : SameIds w w') : Grows w w' := ⟨remembers_same h.issued h.issues, h.base⟩

theorem Grows.owns (h : Grows w w') (ho : w.Owns k) : w'.Owns k := by
  obtain ⟨hbase, hrid, _⟩ := h.old k.tag ho.le
  exact ⟨ho.pos, Nat.le_trans ho.le h.issued, by rw [hbase, h.base]; exact ho.base, hrid.trans ho.rid⟩

theorem Grows.asked (h : Grows w w') (happ : app ≠ []) (ho : w.Asked k app) : w'.Asked k app := by
  obtain ⟨_, _, hbody⟩ := h.old k.tag ho.le
  exact ⟨h.owns ho.toOwns, (hbody (by rw [ho.body]; exact happ)).trans ho.body⟩

theorem copyOutstanding_same (w : World) : SameIds w w.copyOutstanding := by
  unfold World.copyOutstanding
  split <;> exact ⟨rfl, rfl, rfl, rfl⟩

/-- What was asked stays asked while the connection is open. -/
theorem Op.grows (h : Op w w') : Grows w w' := by
  cases h with
  | passes h => exact h.same.ids.grows
  | read k' => exact (read_same w k').grows
  | issue =>
    refine ⟨⟨Nat.le_succ _, fun tag hle => ?_⟩, rfl⟩
    have hne : tag ≠ w.issued + 1 := by omega
    simp only [World.issue, Function.update_of_ne hne]
    exact ⟨trivial, trivial, fun _ => trivial⟩
  | send k' app' mayCopy hk =>
    refine ⟨⟨Nat.le_refl _, fun tag hle => ?_⟩, rfl⟩
    simp only [World.send]
    by_cases hne : tag = k'.tag
    · subst hne
      rw [Function.update_self]
      exact ⟨rfl, rfl, fun hb => absurd hk.body hb⟩
    · rw [Function.update_of_ne hne]
      exact ⟨rfl, rfl, fun _ => rfl⟩
  | copyOutstanding => exact (copyOutstanding_same w).grows
  | _ => exact SameIds.grows (w := w) ⟨rfl, rfl, rfl, rfl⟩

theorem Op.stage (h : Op w w') : w'.led.stage = w.led.stage := by
  cases h with
  | passes h => exact h.same.stage
  | read k' => exact (read_same w k').stage
  | copyOutstanding => exact (copyOutstanding_same w).stage
  | _ => rfl

theorem Own.stage (h : Own w w') : w'.led.stage = w.led.stage := by cases h <;> rfl

theorem readHello_same (w : World) : (w.read .hello).issued = w.issued ∧
    (w.read .hello).led.issues = w.led.issues ∧ (w.read .hello).led.acked = w.led.acked := by
  unfold World.read
  split
  · exact ⟨rfl, rfl, rfl⟩
  · split
    · exact ⟨rfl, rfl, rfl⟩
    · simp only
      split <;> exact ⟨rfl, rfl, rfl⟩

/-- What was asked is not forgotten. -/
theorem Step.remembers (h : Step w w') : Remembers w w' := by
  cases h with
  | passes h => exact h.same.ids.grows.toRemembers
  | op h _ => exact h.grows.toRemembers
  | own h _ => cases h <;> exact remembers_same rfl rfl
  | greeting h =>
    cases h with
    | read _ => exact remembers_same (readHello_same w).1 (readHello_same w).2.1
    | _ => exact remembers_same rfl rfl

/-- Nor is what was acknowledged. -/
theorem Step.acked (h : Step w w') {n : Nat} (hn : n ∈ w.led.acked) : n ∈ w'.led.acked := by
  cases h with
  | passes h => exact h.same.acked ▸ hn
  | op h _ =>
    cases h with
    | passes h => exact h.same.acked ▸ hn
    | read k _ => exact (read_acked w k) ▸ hn
    | copyOutstanding =>
      unfold World.copyOutstanding
      split <;> exact hn
    | acknowledged k _ _ => exact List.mem_cons_of_mem _ hn
    | _ => exact hn
  | own h _ => cases h <;> exact hn
  | greeting h =>
    cases h with
    | read _ => exact (readHello_same w).2.2 ▸ hn
    | _ => exact hn

end Frame

end Multi64
