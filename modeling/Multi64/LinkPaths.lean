import Multi64.LinkSteps

/-! Every function of the host is a path of link steps. -/

namespace Multi64

open Eff

section Codec

variable {rid : UInt16} {app : Bytes}

theorem names_encodeList {msg : M64pMsg} (hmsg : msg ≠ .hello) (rid : UInt16) (items : List Bytes) :
    Names (appHeader msg ++ encodeList rid items) rid := by
  refine ⟨decide_eq_false fun heq => hmsg (M64pMsg.code_inj heq), ?_, ?_⟩
  · simp only [encodeList, List.length_append, appHeader_length, putBe16_length, List.length_singleton]
    omega
  · rw [encodeList, List.append_assoc]
    exact readBe16_header msg rid _

theorem encodePeek_names {msg : M64pMsg} {regions : List (Region false)} (hmsg : msg ≠ .hello)
    (h : encodePeek msg rid regions = .ok app) : Names app rid := by
  unfold encodePeek at h
  cases hc : checkLimits (regions.map (·.len.toNat)) with
  | error e => simp [hc, Except.map] at h
  | ok u =>
    simp only [hc, Except.map, Except.ok.injEq] at h
    exact h ▸ names_encodeList hmsg rid _

theorem encodePeekv_names {regions : List (Region false)} (h : encodePeekv rid regions = .ok app) :
    Names app rid :=
  encodePeek_names (show M64pMsg.peekv ≠ .hello from nofun) h

theorem encodePeekrom_names {regions : List (Region false)} (h : encodePeekrom rid regions = .ok app) :
    Names app rid :=
  encodePeek_names (show M64pMsg.peekrom ≠ .hello from nofun) h

theorem encodePokev_names {writes : List (UInt32 × Bytes)} (h : encodePokev rid writes = .ok app) :
    Names app rid := by
  unfold encodePokev at h
  cases hc : checkLimits (writes.map (·.2.length)) with
  | error e => simp [hc, Except.map] at h
  | ok u =>
    simp only [hc, Except.map, Except.ok.injEq] at h
    exact h ▸ names_encodeList (show M64pMsg.pokev ≠ .hello from nofun) rid _

theorem encodeWatch_names {slots : List Slot} (h : encodeWatch rid slots = .ok app) : Names app rid := by
  unfold encodeWatch at h
  split at h
  · exact nomatch h
  · cases hc : slots.forM Slot.check with
    | error e => simp [hc, Except.map] at h
    | ok u =>
      simp only [hc, Except.map, Except.ok.injEq] at h
      exact h ▸ names_encodeList (show M64pMsg.watch ≠ .hello from nofun) rid _

theorem Names.ne_nil (h : Names app rid) : app ≠ [] := by
  rintro rfl
  exact absurd h.length (by decide)

end Codec

namespace Transport

open World

section Wait

variable {R : World → World → Prop} {P : World → Prop} {J : Response → World → Prop} {want : Want}

/-- What a wait for `want` needs of the steps it takes: from `P`, passing time
and reading keep `P`, until the response wanted makes it `J`. -/
structure Waits (R : World → World → Prop) (P : World → Prop) (J : Response → World → Prop) (want : Want) :
    Prop where
  passes : ∀ w w', P w → Passes w w' → R w w' ∧ P w'
  read : ∀ w r rest, P w → w.t.inbox = r :: rest → R w (w.read want) ∧
    match heard want r with
    | .got resp => J resp (w.read want)
    | _ => P (w.read want)
  unanswered : ∀ w k, want = .rid k → P w → R w w.unanswered ∧ P w.unanswered

/-- A wait ends with the response wanted, or gives up: on a silence, or after
the agent refused. -/
def Waited (P : World → Prop) (J : Response → World → Prop) : Except IoErr Response → World → Prop
  | .ok resp, w => J resp w
  | .error _, w => P w ∨ ∃ resp, J resp w

theorem nextEvent_keeps (h : Waits R P J want) : Keeps R P nextEvent :=
  .bind .get fun _ => .bind (.modify (fun w hw => (h.passes w _ hw (.pop w)).1)
    (fun w hw => (h.passes w _ hw (.pop w)).2)) fun _ => .pure _

theorem happen_keeps (h : Waits R P J want) (e : Event) : Keeps R P (modify (·.happen e) : Host Unit) :=
  .modify (fun w hw => (h.passes w _ hw (.happen w e)).1) (fun w hw => (h.passes w _ hw (.happen w e)).2)

theorem hear_runs (h : Waits R P J want) :
    Runs R P (hear want) fun r w => match r with
      | .ok (.got resp) => J resp w
      | _ => P w := by
  refine .get_bind fun x hx => ?_
  cases hbox : x.t.inbox with
  | nil => exact .pure fun s hs => hs ▸ hx
  | cons r rest =>
    intro s hs
    subst hs
    obtain ⟨hstep, hread⟩ := h.read s r rest hx hbox
    refine ⟨.single hstep, ?_⟩
    change match (Except.ok (heard want r) : Except IoErr Heard) with
      | .ok (.got resp) => J resp (s.read want)
      | _ => P (s.read want)
    revert hread
    cases heard want r <;> exact id

theorem drain_runs (h : Waits R P J want) (n : Nat) :
    Runs R P (drain want n) fun r w => match r with
      | .ok (some resp) => J resp w
      | .ok none => P w
      | .error _ => P w ∨ ∃ resp, J resp w := by
  induction n with
  | zero => exact .pure fun _ hw => hw
  | succ n ih =>
    refine .bind _ (hear_runs h) (fun b => ?_) fun e w hw => .inl hw
    cases b with
    | nothing => exact .pure fun _ hw => hw
    | skipped => exact ih
    | bad e => exact .fail fun _ hw => .inl hw
    | got resp =>
      cases resp with
      | err rid code => exact .fail fun _ hw => .inr ⟨_, hw⟩
      | _ => exact .pure fun _ hw => hw

theorem timeOut_runs (h : Waits R P J want) : Runs R P (timeOut want) (Waited P J) := by
  cases want with
  | hello => exact .fail fun _ hw => .inl hw
  | rid k =>
    exact .bind (fun _ => P)
      (.modify (fun w hw => (h.unanswered w k rfl hw).1) (fun w hw => (h.unanswered w k rfl hw).2))
      (fun _ => .fail fun _ hw => .inl hw) fun _ _ hw => .inl hw

theorem awaitLoop_runs (h : Waits R P J want) (n : Nat) (quick : Bool)
    (hquick : quick = true → Keeps R P sendQuickCopy) : Runs R P (awaitLoop want n quick) (Waited P J) := by
  induction n generalizing quick with
  | zero => exact timeOut_runs h
  | succ n ih =>
    refine .bind (fun _ => P) Keeps.get (fun w => ?_) fun _ _ hw => .inl hw
    refine .bind _ (drain_runs h w.t.inbox.length) (fun b => ?_) fun _ _ hw => hw
    cases b with
    | some resp => exact .pure fun _ hw => hw
    | none =>
      refine .bind (fun _ => P) (nextEvent_keeps h) (fun e => ?_) fun _ _ hw => .inl hw
      have hgo : ∀ e, Runs R P (do modify (·.happen e); awaitLoop want n quick) (Waited P J) := fun e =>
        .bind (fun _ => P) (happen_keeps h e) (fun _ => ih quick hquick) fun _ _ hw => .inl hw
      cases e with
      | none => exact timeOut_runs h
      | some e =>
        cases e with
        | timeout => exact timeOut_runs h
        | closed => exact .fail fun _ hw => .inl hw
        | quick =>
          cases quick with
          | true => exact .bind (fun _ => P) (hquick rfl) (fun _ => ih false (by intros; contradiction)) fun _ _ hw => .inl hw
          | false => exact ih false (by intros; contradiction)
        | _ => exact hgo _

end Wait

section Open

variable {α : Type} {k : Ticket} {app : Bytes}

theorem sendApp_runs {R : World → World → Prop} {P Q : World → Prop} {push : World → World}
    (hpop : ∀ w, P w → R w w.pop ∧ P w.pop) (hpush : ∀ w, P w → R w (push w) ∧ Q (push w)) :
    Runs R P (sendApp push) fun r w => (r = .ok () → Q w) ∧ (r ≠ .ok () → P w) := by
  refine .bind (fun _ => P) Keeps.get (fun w => ?_) fun _ _ hw => ⟨nofun, fun _ => hw⟩
  have hgo : Runs R P (modify push : Host Unit) fun r w => (r = .ok () → Q w) ∧ (r ≠ .ok () → P w) :=
    .modify (fun w hw => (hpush w hw).1) fun w hw => ⟨fun _ => (hpush w hw).2, fun h => absurd rfl h⟩
  split
  · exact .bind (fun _ => P) (.modify (fun w hw => (hpop w hw).1) fun w hw => (hpop w hw).2)
      (fun _ => .fail fun _ hw => ⟨nofun, fun _ => hw⟩) fun _ _ hw => ⟨nofun, fun _ => hw⟩
  · exact hgo

theorem sendQuickCopy_keeps : Keeps Op (fun _ => True) sendQuickCopy := by
  refine .bind .get fun w => ?_
  cases w.t.outstanding with
  | none => exact .pure _
  | some o =>
    refine .bind (.modify (fun w _ => .markCopied w) fun _ _ => trivial) fun _ => ?_
    exact (sendApp_runs (Q := fun _ => True) (fun w _ => ⟨.passes (.pop w), trivial⟩)
      fun w _ => ⟨.copyOutstanding w, trivial⟩).weaken (fun _ h => h) fun _ _ _ => trivial

/-- A response taken for request `k`. -/
def Answers (k : Ticket) (resp : Response) (w : World) : Prop :=
  w.Owns k ∧ w.JustRead k resp ∧ resp.rid = some k.rid

theorem waits_rid (k : Ticket) : Waits Op (fun w => w.Owns k) (Answers k) (.rid k) := by
  refine ⟨fun w w' hw h => ⟨.passes h, h.same.ids.grows.owns hw⟩, fun w r rest hw hbox => ⟨.read w k hw, ?_⟩,
    fun w _ _ hw => ⟨.unanswered w, ⟨hw.pos, hw.le, hw.base, hw.rid⟩⟩⟩
  have howns := (read_same w k).grows.owns hw
  unfold heard
  cases hp : parse r.bytes with
  | error e => cases e <;> exact howns
  | ok resp =>
    cases hm : (Want.rid k).matches resp with
    | false =>
      simp only [hm]
      exact howns
    | true =>
      simp only [hm, if_true]
      refine ⟨howns, ?_, of_decide_eq_true hm⟩
      simp only [World.read, hbox, hp, hm, if_true, World.accept]
      refine ⟨_, List.getLast?_concat, rfl, hp, fun htag hne => ?_⟩
      simp only [WatchHistory.noted] at htag ⊢
      split at htag
      next h =>
        rw [if_pos h]
        exact ⟨rfl, rfl⟩
      next h => exact absurd ⟨htag, hne⟩ h

theorem awaitResponse_runs (k : Ticket) :
    Runs Op (fun w => w.Owns k) (awaitResponse (.rid k)) fun r w =>
      w.Owns k ∧ ∀ resp, r = .ok resp → Answers k resp w := by
  refine .bind (fun _ w => w.Owns k) Keeps.get (fun w => ?_) fun _ _ hw => ⟨hw, nofun⟩
  refine (awaitLoop_runs (waits_rid k) _ _ fun _ => ?_).weaken (fun _ h => h) fun r w h => ?_
  · exact ((sendQuickCopy_keeps.keeping fun _ _ h => h.grows.owns).weaken (fun _ h => ⟨trivial, h⟩)
      fun _ _ h => h.2)
  · cases r with
    | ok resp => exact ⟨h.1, fun _ heq => by cases heq; exact h⟩
    | error e => exact ⟨h.elim id fun ⟨_, h⟩ => h.1, nofun⟩

theorem rid_runs (n : Nat) :
    Runs Op (fun w => n ≤ w.issued) rid fun r w => ∀ k, r = .ok k → w.Unsent k ∧ n < k.tag := by
  refine .get_bind fun x hx => ?_
  refine .bind (fun _ w => w = x.issue) (.modify (fun w _ => .issue w) fun w hw => by rw [hw])
    (fun _ => .pure fun w hw k hk => ?_) fun _ _ _ _ => nofun
  cases hk
  subst hw
  have hself : x.issue.led.issues (x.issued + 1) = ⟨x.t.base, x.t.nextRid, []⟩ := Function.update_self ..
  exact ⟨⟨⟨Nat.succ_pos _, Nat.le_refl _, congrArg Issue.base hself, congrArg Issue.rid hself⟩, rfl,
    congrArg Issue.body hself⟩, Nat.lt_succ_of_le hx⟩

theorem encoded_runs {R : World → World → Prop} {P : World → Prop} (e : Except M64pError Bytes) :
    Runs R P (encoded e) fun r w => P w ∧ ∀ app, r = .ok app → e = .ok app := by
  cases e with
  | ok app => exact .pure fun w hw => ⟨hw, fun app h => by cases h; rfl⟩
  | error e => exact .fail fun w hw => ⟨hw, nofun⟩

theorem send_asked {w : World} (app : Bytes) (mayCopy : Bool) (h : w.Unsent k) : (w.send k app mayCopy).Asked k app := by
  have hself : (w.send k app mayCopy).led.issues k.tag = { w.led.issues k.tag with body := app } :=
    Function.update_self ..
  exact ⟨⟨h.pos, h.le, by rw [hself]; exact h.base, by rw [hself]; exact h.rid⟩, by rw [hself]⟩

/-- Ask for something under a new rid, and go on with `f`. -/
theorem request_runs {enc : UInt16 → Except M64pError Bytes} {f : Ticket → Host α}
    {Q : Except IoErr α → World → Prop} (n : Nat) (mayCopy : Bool)
    (hn : ∀ rid app, enc rid = .ok app → Names app rid)
    (hf : ∀ k app, n < k.tag → enc k.rid = .ok app → Runs Op (fun w => w.Asked k app) (f k) Q)
    (he : ∀ e w, Q (.error e) w) :
    Runs Op (fun w => n ≤ w.issued) (do
      let k ← rid
      let app ← encoded (enc k.rid)
      sendRequest k app mayCopy
      f k) Q := by
  refine .bind _ (rid_runs n) (fun k => ?_) fun e w _ => he e w
  refine .bind _ (encoded_runs (P := fun w => w.Unsent k ∧ n < k.tag) _ |>.weaken (fun w hw => hw k rfl) fun _ _ h => h)
    (fun app => ?_) fun e w _ => he e w
  intro w hw
  have henc := hw.2 app rfl
  have hsend : Runs Op (fun w => w.Unsent k) (sendRequest k app mayCopy) fun r w => r = .ok () → w.Asked k app :=
    (sendApp_runs (Q := fun w => w.Asked k app)
      (fun w hw => ⟨.passes (.pop w), ⟨hw.pos, hw.le, hw.base, hw.rid⟩, hw.last, hw.body⟩)
      fun w hw => ⟨.send w k app mayCopy hw (hn _ _ henc), send_asked app mayCopy hw⟩).weaken
      (fun _ h => h) fun _ _ h => h.1
  exact Runs.bind _ hsend (fun _ => (hf k app hw.1.2 henc).weaken (fun _ h => h rfl) fun _ _ h => h)
    (fun e w _ => he e w) w hw.1.1

/-- Nothing needs to hold before a request. -/
theorem runs_zero {m : Host α} {Q : Except IoErr α → World → Prop} (h : Runs Op (fun w => 0 ≤ w.issued) m Q) :
    Runs Op (fun _ => True) m Q :=
  h.weaken (fun _ _ => Nat.zero_le _) fun _ _ h => h

theorem checkRegions_runs {R : World → World → Prop} {P : World → Prop} (asked : List (Region false))
    (got : List Bytes) : Keeps R P (checkRegions asked got) := by
  unfold checkRegions
  refine .ite (.fail _) ?_
  cases (asked.zip got).find? fun x => x.2.length ≠ x.1.len.toNat with
  | none => exact .pure _
  | some x => exact .fail _

/-- What follows the answer to request `k`. -/
theorem answered_runs {f : Response → Host α} {P : World → Prop} {Q : Except IoErr α → World → Prop}
    (hp : ∀ w, P w → w.Owns k) (hf : ∀ resp, Runs Op (Answers k resp) (f resp) Q) (he : ∀ e w, Q (.error e) w) :
    Runs Op P (awaitResponse (.rid k) >>= f) Q :=
  .bind _ ((awaitResponse_runs k).weaken hp fun _ _ h => h)
    (fun resp => (hf resp).weaken (fun _ h => h.2 resp rfl) fun _ _ h => h) fun e w _ => he e w

theorem peek_keeps (regions : List (Region false)) : Keeps Op (fun _ => True) (peek regions) := by
  refine .ite (.pure _) (runs_zero (request_runs 0 true (fun rid app h => encodePeekv_names h)
    (fun k app _ _ => ?_) fun _ _ => trivial))
  refine answered_runs (fun _ h => h.toOwns) (fun resp => ?_) fun _ _ => trivial
  cases resp with
  | peekV rid got events dropped =>
    exact .bind (fun _ _ => True) ((checkRegions_runs regions got).weaken (fun _ _ => trivial) fun _ _ h => h)
      (fun _ => .pure fun _ _ => trivial) fun _ _ _ => trivial
  | _ => exact .fail fun _ _ => trivial

theorem watch_keeps (slots : List Slot) : Keeps Op (fun _ => True) (Transport.watch slots) := by
  refine runs_zero (request_runs 0 false (fun rid app h => encodeWatch_names h) (fun k app _ _ => ?_)
    fun _ _ => trivial)
  refine answered_runs (fun _ h => h.toOwns) (fun resp => ?_) fun _ _ => trivial
  cases resp with
  | watchAck rid n =>
    refine .bind (fun _ _ => True) (.modify (fun w hw => ?_) fun _ _ => trivial) (fun _ => .pure fun _ _ => trivial)
      fun _ _ _ => trivial
    cases hw.2.2
    exact .armed w k n hw.2.1
  | _ => exact .fail fun _ _ => trivial

theorem peekRom_keeps (regions : List (Region false)) : Keeps Op (fun _ => True) (peekRom regions) := by
  refine .ite (.pure _) (.bind .get fun w => .ite (.fail _) ?_)
  refine runs_zero (request_runs 0 true (fun rid app h => encodePeekrom_names h) (fun k app _ _ => ?_)
    fun _ _ => trivial)
  refine .attempt_bind _ ((awaitResponse_runs k).weaken (fun _ h => h.toOwns) fun _ _ _ => trivial) fun r => ?_
  cases r with
  | error e => exact Keeps.ite (.fail _) (.fail _)
  | ok resp =>
    cases resp with
    | peekRom rid got =>
      exact Keeps.bind (checkRegions_runs regions got) fun _ => .bind .get fun _ => .pure _
    | _ => exact .fail fun _ _ => trivial

theorem sendPoke_runs (n : Nat) (writes : List (UInt32 × Bytes)) :
    Runs Op (fun w => n ≤ w.issued) (sendPoke writes) fun r w =>
      ∀ k, r = .ok k → n < k.tag ∧ ∃ app, encodePokev k.rid writes = .ok app ∧ w.Asked k app := by
  refine .bind (fun _ w => n ≤ w.issued) Keeps.get (fun w => ?_) fun _ _ _ => nofun
  split
  · exact .fail fun _ _ => nofun
  · refine request_runs n w.t.pokeOnce (fun rid app h => encodePokev_names h) (fun k app hlt happ => ?_)
      fun _ _ => nofun
    exact .pure fun w hw k' hk => by
      cases hk
      exact ⟨hlt, app, happ, hw⟩

theorem resendPoke_keeps {writes : List (UInt32 × Bytes)} (happ : encodePokev k.rid writes = .ok app) :
    Keeps Op (fun w => w.Asked k app) (resendPoke k writes) := by
  refine .bind .get fun w => .ite (.fail _) ?_
  rw [happ]
  exact (sendApp_runs (fun w hw => ⟨.passes (.pop w), (Op.passes (.pop w)).grows.asked
      (encodePokev_names happ).ne_nil hw⟩)
    fun w hw => ⟨.copy w k app hw (encodePokev_names happ), (Op.copy w k app hw (encodePokev_names happ)).grows.asked
      (encodePokev_names happ).ne_nil hw⟩).weaken (fun _ h => h) fun r w h => by
    by_cases hr : r = .ok ()
    · exact h.1 hr
    · exact h.2 hr

theorem awaitPoke_runs (k : Ticket) (count : Nat) :
    Runs Op (fun w => w.Owns k) (awaitPoke k count) fun r w => r = .ok () → k.tag ∈ w.led.acked := by
  refine answered_runs (fun _ h => h) (fun resp => ?_) fun _ _ => nofun
  cases resp with
  | pokeAck rid n =>
    simp only
    split
    · exact .fail fun _ _ => nofun
    · refine .modify (fun w hw => ?_) fun _ _ _ => List.mem_cons_self
      cases hw.2.2
      exact .acknowledged w k n hw.2.1
  | _ => exact .fail fun _ _ => nofun

end Open

section Greet

def At (s : Stage) (w : World) : Prop := w.led.stage = s

theorem At.ne_up {s : Stage} {w : World} (h : At s w) (hs : s ≠ .up) : w.led.stage ≠ .up := by
  rw [h]
  exact hs

theorem waits_hello : Waits Step (At .sent) (fun _ => At .acked) .hello := by
  refine ⟨fun w w' hw h => ⟨.passes h, h.same.stage.trans hw⟩,
    fun w r rest hw hbox => ⟨.greeting (.read w hw), ?_⟩, fun w k hk => nomatch hk⟩
  unfold heard
  cases hp : parse r.bytes with
  | error e =>
    have hstage : At .sent (w.read .hello) := by
      simp only [At, World.read, hbox, hp]
      exact hw
    cases e <;> exact hstage
  | ok resp =>
    simp only [World.read, hbox, hp]
    cases Want.hello.matches resp with
    | false => exact hw
    | true => rfl

theorem hello_runs : Runs Step (At .opened) hello fun r w => (r = .ok () → At .acked w) ∧ w.led.stage ≠ .up := by
  refine .bind _ (sendApp_runs (Q := At .sent) (fun w hw => ⟨.passes (.pop w), hw⟩)
    fun w hw => ⟨.greeting (.sendHello w hw), rfl⟩) (fun _ => ?_) fun e w hw => ⟨nofun, (hw.2 nofun).ne_up nofun⟩
  refine .bind (fun _ => At .sent) (Keeps.get.weaken (fun _ h => h.1 rfl) fun _ _ h => h) (fun w => ?_)
    fun e w hw => ⟨nofun, hw.ne_up nofun⟩
  refine .bind (Waited (At .sent) fun _ => At .acked)
    (.bind (fun _ => At .sent) Keeps.get (fun w => awaitLoop_runs waits_hello _ _ nofun) fun _ _ hw => .inl hw)
    (fun resp => ?_) fun e w hw =>
      ⟨nofun, hw.elim (fun h => h.ne_up nofun) fun ⟨_, h⟩ => At.ne_up h nofun⟩
  have hfail : ∀ e, Runs Step (At .acked) (fail e : Host Unit)
      fun r w => (r = .ok () → At .acked w) ∧ w.led.stage ≠ .up :=
    fun e => .fail fun w hw => ⟨nofun, hw.ne_up nofun⟩
  cases resp with
  | helloAck proto ver rdram flags rom slots =>
    simp only
    split
    · exact hfail _
    · exact .modify (fun w hw => .greeting (.greeted w rdram flags rom slots _ hw))
        fun w hw => ⟨fun _ => hw, At.ne_up (s := .acked) hw nofun⟩
  | _ => exact hfail _

theorem connect_keeps : Keeps Step (At .up) connect := by
  refine .bind .get fun w => .ite (.fail _) ?_
  split
  · exact .bind (.modify (fun w _ => .passes (.pop w)) fun _ hw => hw) fun _ => .fail _
  · refine Runs.bind (fun r w => r = .ok () ∧ At .opened w)
      (.modify (fun w hw => .greeting (.greet w hw)) fun _ _ => ⟨rfl, rfl⟩) (fun _ => ?_) fun _ _ hw => by cases hw.1
    refine .attempt_bind _ (hello_runs.weaken (fun _ h => h.2) fun _ _ h => h) fun r => ?_
    cases r with
    | ok u => exact .modify (fun w hw => .greeting (.keep w (hw.1 rfl))) fun _ _ => rfl
    | error e =>
      exact .bind (fun _ => At .up) (.modify (fun w hw => .greeting (.restore w hw.2)) fun _ _ => rfl)
        (fun _ => .fail fun _ hw => hw) fun _ _ hw => hw

end Greet

end Transport

namespace Backend

open World Transport

/-- A function of the open connection, as part of a session. -/
theorem op_keeps {α : Type} {m : Host α} (h : Keeps Op (fun _ => True) m) : Keeps Step (At .up) m :=
  (h.lift fun _ _ hs hup => ⟨.op hs hup, hs.stage.trans hup⟩).weaken (fun _ hw => ⟨trivial, hw⟩) fun _ _ h => h.2

theorem own_keeps {f : World → World} (h : ∀ w, Own w (f w)) : Keeps Step (At .up) (modify f : Host Unit) :=
  .modify (fun w hw => .own (h w) hw) fun w hw => (h w).stage.trans hw

theorem giveUp_keeps {R : World → World → Prop} {P : World → Prop} : Keeps R P giveUp :=
  .bind .get fun _ => .pure _

theorem sleepLoop_keeps {R : World → World → Prop} {P : World → Prop}
    (h : ∀ w w', P w → Passes w w' → R w w' ∧ P w') (n : Nat) : Keeps R P (sleepLoop n) := by
  induction n with
  | zero => exact .pure _
  | succ n ih =>
    have hnext : Keeps R P nextEvent := .bind .get fun _ => .bind
      (.modify (fun w hw => (h w _ hw (.pop w)).1) fun w hw => (h w _ hw (.pop w)).2) fun _ => .pure _
    refine .bind hnext fun e => ?_
    have hgo : ∀ e, Keeps R P (do modify (·.happen e); sleepLoop n) := fun e =>
      .bind (.modify (fun w hw => (h w _ hw (.happen w e)).1) fun w hw => (h w _ hw (.happen w e)).2) fun _ => ih
    cases e with
    | none => exact .pure _
    | some e => cases e <;> first | exact hgo _ | exact .pure _

theorem waitUnless_keeps {R : World → World → Prop} {P : World → Prop}
    (h : ∀ w w', P w → Passes w w' → R w w' ∧ P w') : Keeps R P waitUnless :=
  .bind .get fun _ => sleepLoop_keeps h _

section Retry

variable {α S : Type} {P : S → World → Prop} {op : S → Host (Except IoErr α × S)}

theorem sameRom_keeps (known : Bytes) : Keeps Op (fun _ => True) (sameRom known) := by
  refine Runs.attempt_bind _ (peekRom_keeps _) fun r => ?_
  cases r with
  | ok got => exact .pure fun _ h => h
  | error e => exact Keeps.ite (.pure _) (.fail _)

theorem romChanged_keeps : Keeps Step (At .up) romChanged := by
  refine Runs.attempt_bind _ connect_keeps fun r => ?_
  cases r with
  | ok u => exact Keeps.bind (own_keeps .relinked) fun _ => own_keeps .unwatched
  | error e =>
    exact Keeps.bind (own_keeps .forgetPokeOnce) fun _ => .bind (own_keeps .relinked) fun _ => own_keeps .unwatched

theorem recheckRom_keeps : Keeps Step (At .up) recheckRom := by
  refine .bind .get fun w => ?_
  cases w.knownHeader with
  | none => exact own_keeps (.setMissed · false)
  | some known =>
    refine Runs.attempt_bind _ (op_keeps (sameRom_keeps known)) fun r => ?_
    cases r with
    | error e => exact .pure fun _ h => h
    | ok same =>
      cases same with
      | true => exact own_keeps (.setMissed · false)
      | false => exact romChanged_keeps

theorem answering_keeps : Keeps Step (At .up) answering :=
  .bind .get fun _ => .ite recheckRom_keeps (.pure _)

/-- The tries of a request keep what it needs to know of the link, in `P`, and
an answer `v` means `J v`, from then on. -/
structure Tries (P : S → World → Prop) (J : α → World → Prop) (op : S → Host (Except IoErr α × S)) : Prop where
  up : ∀ s w, P s w → At .up w
  passes : ∀ s w w', P s w → Passes w w' → P s w'
  missed : ∀ s w, P s w → P s (w.setMissed true)
  op : ∀ s, Runs Step (P s) (op s) fun r w =>
    At .up w ∧ ∀ r' s', r = .ok (r', s') → P s' w ∧ ∀ v, r' = .ok v → J v w
  stable : ∀ v w w', J v w → Step w w' → J v w'

variable {J : α → World → Prop}

/-- What a request that ended left of the link. -/
def Ended (J : α → World → Prop) (r : Except IoErr α) (w : World) : Prop := At .up w ∧ ∀ v, r = .ok v → J v w

theorem answered_ends {P : World → Prop} {β : Type} {m : Host β} (hm : Keeps Step (At .up) m) (v : α)
    (hp : ∀ w, P w → At .up w ∧ J v w) (hs : ∀ w w', J v w → Step w w' → J v w') :
    Runs Step P m fun _ w => At .up w ∧ J v w :=
  (hm.keeping fun w w' hw hj => hs w w' hj hw).weaken hp fun _ _ h => h

theorem softLoop_runs (h : Tries P J op) (n busy left : Nat) (s : S) :
    Runs Step (P s) (softLoop op n busy left s) fun r w => At .up w ∧ ∀ v, r = .ok (Soft.done v) → J v w := by
  induction n generalizing busy left s with
  | zero => exact .pure fun w hw => ⟨h.up s w hw, nofun⟩
  | succ n ih =>
    refine .bind _ (h.op s) (fun r => ?_) fun _ _ hw => ⟨hw.1, nofun⟩
    obtain ⟨r, s'⟩ := r
    have hstart : ∀ {β : Type} {m : Host β}, Keeps Step (At .up) m → Runs Step (P s') m fun _ => At .up :=
      fun hm => hm.weaken (h.up s') fun _ _ hw => hw
    have hpass : ∀ w w', P s' w → Passes w w' → Step w w' ∧ P s' w' :=
      fun w w' hw hp => ⟨.passes hp, h.passes s' w w' hw hp⟩
    have hagain : ∀ busy left, Runs Step (P s') (do
        if ← giveUp then fail .cancelled else softLoop op n busy left s' : Host (Soft α S))
        fun r w => At .up w ∧ ∀ v, r = .ok (Soft.done v) → J v w := by
      intro busy left
      refine .bind (fun _ => P s') giveUp_keeps (fun b => ?_) fun _ _ hw => ⟨h.up s' _ hw, nofun⟩
      split
      · exact .fail fun w hw => ⟨h.up s' w hw, nofun⟩
      · exact ih busy left s'
    cases r with
    | ok v =>
      refine .bind _ (answered_ends answering_keeps v (fun w hw => ?_) (h.stable v))
        (fun _ => .pure fun w hw => ⟨hw.1, fun v' hv => ?_⟩) fun _ _ hw => ⟨hw.1, nofun⟩
      · exact ⟨hw.1, (hw.2 _ s' rfl).2 v rfl⟩
      · cases hv
        exact hw.2
    | error e =>
      suffices hgo : Runs Step (P s') _ fun r w => At .up w ∧ ∀ v, r = .ok (Soft.done v) → J v w from
        hgo.weaken (fun w hw => (hw.2 _ s' rfl).1) fun _ _ h => h
      simp only
      split
      · exact .bind _ (hstart answering_keeps) (fun _ => .fail fun w hw => ⟨hw, nofun⟩) fun _ _ hw => ⟨hw, nofun⟩
      split
      · exact .bind _ (hstart romChanged_keeps) (fun _ => .bind _ answering_keeps
          (fun _ => .fail fun w hw => ⟨hw, nofun⟩) fun _ _ hw => ⟨hw, nofun⟩) fun _ _ hw => ⟨hw, nofun⟩
      split
      · exact .bind (fun _ => P s') (waitUnless_keeps hpass) (fun _ => hagain _ _)
          fun _ _ hw => ⟨h.up s' _ hw, nofun⟩
      split
      · exact .bind (fun _ => P s') (.modify (fun w hw => .own (.setMissed w true) (h.up s' w hw)) fun w hw =>
          h.missed s' w hw) (fun _ => hagain _ _) fun _ _ hw => ⟨h.up s' _ hw, nofun⟩
      · exact .pure fun w hw => ⟨h.up s' w hw, nofun⟩

theorem reconnectLoop_runs {retry : Retry} (s : S) (n : Nat)
    (h : retry = .resend → ∀ s, Runs Step (At .up) (op s) fun r w =>
      At .up w ∧ ∀ v s', r = .ok (.ok v, s') → J v w)
    (hs : ∀ v w w', J v w → Step w w' → J v w') :
    Runs Step (At .up) (reconnectLoop retry op s n) (Ended J) := by
  have hfail : ∀ {β : Type} {m : Host β} e, Keeps Step (At .up) m →
      Runs Step (At .up) (m >>= fun _ => fail e : Host α) (Ended J) := fun e hm =>
    .bind _ hm (fun _ => .fail fun w hw => ⟨hw, nofun⟩) fun _ _ hw => ⟨hw, nofun⟩
  induction n generalizing s with
  | zero => exact .fail fun w hw => ⟨hw, nofun⟩
  | succ n ih =>
    refine .bind (fun _ => At .up) giveUp_keeps (fun b => ?_) fun _ _ hw => ⟨hw, nofun⟩
    split
    · exact .fail fun w hw => ⟨hw, nofun⟩
    refine .bind (fun _ => At .up) (waitUnless_keeps fun w w' hw hp => ⟨.passes hp, hp.same.stage.trans hw⟩)
      (fun _ => ?_) fun _ _ hw => ⟨hw, nofun⟩
    refine .attempt_bind _ connect_keeps fun r => ?_
    cases r with
    | error e => exact ih s
    | ok u =>
      refine .bind (fun _ => At .up) (own_keeps .relinked) (fun _ => ?_) fun _ _ hw => ⟨hw, nofun⟩
      refine .bind (fun _ => At .up) giveUp_keeps (fun b => ?_) fun _ _ hw => ⟨hw, nofun⟩
      split
      · exact .fail fun w hw => ⟨hw, nofun⟩
      refine .bind (fun _ => At .up) (own_keeps .unwatched) (fun _ => ?_) fun _ _ hw => ⟨hw, nofun⟩
      cases retry with
      | once => exact hfail _ answering_keeps
      | resend =>
        refine .bind _ (h rfl s) (fun r => ?_) fun _ _ hw => ⟨hw.1, nofun⟩
        obtain ⟨r, s'⟩ := r
        cases r with
        | ok v =>
          refine .bind _ (answered_ends answering_keeps v (fun w hw => ?_) (hs v))
            (fun _ => .pure fun w hw => ⟨hw.1, fun v' hv => ?_⟩) fun _ _ hw => ⟨hw.1, nofun⟩
          · exact ⟨hw.1, hw.2 v s' rfl⟩
          · cases hv
            exact hw.2
        | error e =>
          suffices hgo : Runs Step (At .up) _ (Ended J) from hgo.weaken (fun w hw => hw.1) fun _ _ h => h
          simp only
          split
          · exact hfail _ answering_keeps
          · exact ih s'

theorem withRetry_runs {retry : Retry} (ht : Tries P J op) (s : S)
    (h : retry = .resend → ∀ s, Runs Step (At .up) (op s) fun r w =>
      At .up w ∧ ∀ v s', r = .ok (.ok v, s') → J v w) :
    Runs Step (P s) (withRetry retry op s) (Ended J) := by
  refine .get_bind fun x hx => ?_
  refine .bind _ ((softLoop_runs ht _ _ _ s).weaken (fun w hw => hw ▸ hx) fun _ _ h => h)
    (fun r => ?_) fun _ _ hw => ⟨hw.1, nofun⟩
  cases r with
  | done v =>
    refine .pure fun w hw => ⟨hw.1, fun v' hv => ?_⟩
    cases hv
    exact hw.2 v rfl
  | broke e s' =>
    exact (reconnectLoop_runs s' _ h ht.stable).weaken (fun w hw => hw.1) fun _ _ h => h

theorem each_keeps {m : Host α} (h : Keeps Op (fun _ => True) m) : Keeps Step (At .up) (withRetry .resend (each m) ()) := by
  have heach : ∀ s, Keeps Step (At .up) (each m s) := fun s =>
    Runs.attempt_bind _ (op_keeps h) fun r => .pure fun _ hw => hw
  refine (withRetry_runs (P := fun _ => At .up) (J := fun _ _ => True) ⟨fun _ _ hw => hw,
    fun _ _ _ hw hp => hp.same.stage.trans hw, fun _ _ hw => hw, fun s => ?_, fun _ _ _ _ _ => trivial⟩ ()
    fun _ s => ?_).weaken (fun _ hw => hw) fun _ _ hw => hw.1
  · exact (heach s).weaken (fun _ hw => hw) fun _ _ hw => ⟨hw, fun _ _ _ => ⟨hw, fun _ _ => trivial⟩⟩
  · exact (heach s).weaken (fun _ hw => hw) fun _ _ hw => ⟨hw, fun _ _ _ => trivial⟩

end Retry

section Calls

theorem collectEvents_keeps : Keeps Step (At .up) collectEvents :=
  .bind .get fun _ => .ite (own_keeps .collect) (.pure _)

theorem alive_keeps : Keeps Step (At .up) alive := by
  refine Runs.attempt_bind _ (op_keeps (peek_keeps _)) fun r => ?_
  cases r with
  | ok got => exact Keeps.bind collectEvents_keeps fun _ => .bind answering_keeps fun _ => .pure _
  | error e => exact Keeps.bind (own_keeps (.setMissed · true)) fun _ => .pure _

theorem armWatch_keeps : Keeps Step (At .up) armWatch := by
  refine .bind .get fun w => ?_
  cases w.host.watch with
  | none => exact .pure _
  | some x =>
    refine .ite (own_keeps .watchArmed) ?_
    refine Runs.attempt_bind _ (each_keeps (watch_keeps _)) fun r => ?_
    cases r with
    | ok n => exact Keeps.bind (own_keeps (.watchOnCart · _)) fun _ => own_keeps .watchArmed
    | error e => exact Keeps.ite (.bind (own_keeps .watchArmed) fun _ => .fail _) (.fail _)

theorem setWatch_keeps (x : Watch) : Keeps Step (At .up) (setWatch x) :=
  .bind (own_keeps (.watchSet · x)) fun _ => Runs.attempt_bind _ armWatch_keeps fun _ => .pure fun _ h => h

theorem takeWatched_keeps : Keeps Step (At .up) takeWatched :=
  .bind .get fun _ => .bind (own_keeps .takeWatched) fun _ => .pure _

theorem sampleWatch_keeps : Keeps Step (At .up) sampleWatch := by
  refine .bind .get fun w => .ite (.pure _) ?_
  cases w.host.watch with
  | none => exact .pure _
  | some x =>
    refine .bind (each_keeps (peek_keeps _)) fun done => ?_
    cases done with
    | nil => exact .pure _
    | cons bytes rest => exact own_keeps (.observe · bytes)

theorem readBatch_keeps (batch : List (Region false)) : Keeps Step (At .up) (readBatch batch) := by
  refine .bind .get fun w => .bind (each_keeps (peek_keeps _)) fun done => ?_
  cases probeOf w batch with
  | none => exact .bind collectEvents_keeps fun _ => .pure _
  | some r => exact .bind (own_keeps (.observe · _)) fun _ => .bind collectEvents_keeps fun _ => .pure _

theorem readBatches_keeps (bs : List (List (Region false))) : Keeps Step (At .up) (readBatches bs) := by
  induction bs with
  | nil => exact .pure _
  | cons b bs ih => exact .bind (readBatch_keeps b) fun _ => .bind ih fun _ => .pure _

theorem lift_keeps {α : Type} (r : Except IoErr α) : Keeps Step (At .up) (lift r) := by
  cases r with
  | ok a => exact .pure _
  | error e => exact .fail _

theorem readMany_keeps (regions : List (UInt32 × Nat)) : Keeps Step (At .up) (readMany regions) := by
  have hrearm : Keeps Step (At .up) rearm :=
    .bind .get fun _ => .ite (Runs.attempt_bind _ armWatch_keeps fun _ => .pure fun _ h => h) (.pure _)
  exact .bind hrearm fun _ => .bind .get fun _ => .bind (lift_keeps _) fun _ =>
    .bind (readBatches_keeps _) fun _ => lift_keeps _

theorem fillBatches_keeps (bs : List (List (Region false))) : Keeps Step (At .up) (fillBatches bs) := by
  have hinsert : ∀ l, Keeps Step (At .up) (insertPages l) := by
    intro l
    induction l with
    | nil => exact .pure _
    | cons x l ih => exact .bind (own_keeps (.insertPage · _ _)) fun _ => ih
  induction bs with
  | nil => exact .pure _
  | cons b bs ih => exact .bind (each_keeps (peekRom_keeps b)) fun _ => .bind (hinsert _) fun _ => ih

theorem readRomMany_keeps (regions : List (UInt32 × Nat)) : Keeps Step (At .up) (readRomMany regions) := by
  refine .bind .get fun w => ?_
  cases w.t.romBytes with
  | none => exact .fail _
  | some window =>
    refine .bind (lift_keeps _) fun _ => .bind (.bind .get fun _ => fillBatches_keeps _) fun _ => ?_
    refine .bind .get fun w' => .ite (.fail _) ?_
    cases regions.mapM fun r => cachedBytes w'.host.romPages r.2 r.1.toNat (r.1.toNat + r.2) with
    | none => exact .fail _
    | some out => exact .pure _

/-- What a write needs to be sent again as `sent`: that it was sent, behind the
first `n` requests, as the batch is encoded. -/
structure Written (n : Nat) (batch : List (UInt32 × Bytes)) (sent : Option Ticket) (w : World) : Prop where
  issued : n ≤ w.issued
  asked : ∀ k ∈ sent, n < k.tag ∧ ∃ app, encodePokev k.rid batch = .ok app ∧ w.Asked k app

/-- The batch was sent as one write, behind the first `n` requests, and that
write was acknowledged. -/
def Acked (n : Nat) (batch : List (UInt32 × Bytes)) (w : World) : Prop :=
  ∃ (k : Ticket) (app : Bytes), n < k.tag ∧ k.tag ≤ w.issued ∧ encodePokev k.rid batch = .ok app ∧
    (w.led.issues k.tag).body = app ∧ k.tag ∈ w.led.acked

variable {n : Nat} {batch : List (UInt32 × Bytes)} {known : Option Bytes}

theorem Written.op {sent : Option Ticket} {w w' : World} (hw : Written n batch sent w) (h : Op w w') :
    Written n batch sent w' := by
  refine ⟨Nat.le_trans hw.issued h.grows.issued, fun k hk => ?_⟩
  obtain ⟨hlt, app, happ, hasked⟩ := hw.asked k hk
  exact ⟨hlt, app, happ, h.grows.asked (encodePokev_names happ).ne_nil hasked⟩

theorem Acked.step {w w' : World} (hw : Acked n batch w) (h : Step w w') : Acked n batch w' := by
  obtain ⟨k, app, hlt, hle, happ, hbody, hacked⟩ := hw
  have hold := (h.remembers.old k.tag hle).2.2
  rw [hbody] at hold
  exact ⟨k, app, hlt, Nat.le_trans hle h.remembers.issued, happ, hold (encodePokev_names happ).ne_nil,
    h.acked hacked⟩

/-- What an operation on the link leaves of a write sent as `k`. -/
theorem written_runs {α : Type} {m : Host α} {k : Ticket} {Q : Except IoErr α → World → Prop}
    (h : Runs Op (fun w => w.Owns k) m Q) :
    Runs Op (Written n batch (some k)) m fun r w => Q r w ∧ Written n batch (some k) w :=
  (h.keeping fun _ _ hs hw => Written.op hw hs).weaken (fun w hw => ⟨by
    obtain ⟨_, app, _, hasked⟩ := hw.asked k rfl
    exact hasked.toOwns, hw⟩) fun _ _ h => h

theorem pokeAgain_keeps (k : Ticket) : Keeps Op (Written n batch (some k)) (pokeAgain batch known k) := by
  have hresend : Keeps Op (Written n batch (some k)) (resendPoke k batch) := by
    intro w hw
    obtain ⟨_, app, happ, hasked⟩ := hw.asked k rfl
    exact (((resendPoke_keeps happ).keeping fun _ _ hs hw => Written.op hw hs).weaken (fun _ h => h) fun _ _ h => h.2) w
      ⟨hasked, hw⟩
  cases known with
  | none => exact hresend
  | some header =>
    refine .bind ((written_runs ((sameRom_keeps header).weaken (fun _ _ => trivial) fun _ _ h => h)).weaken
      (fun _ h => h) fun _ _ h => h.2) fun b => ?_
    split
    · exact hresend
    · exact .fail _

theorem pokeTry_runs (sent : Option Ticket) :
    Runs Op (Written n batch sent) (pokeTry batch known sent) fun r w =>
      ∀ r' s', r = .ok (r', s') → Written n batch s' w ∧ (r' = .ok () → Acked n batch w) := by
  have hawait : ∀ k, Runs Op (Written n batch (some k)) (do
      let r ← attempt (awaitPoke k batch.length)
      pure (r, some k) : Host (Except IoErr Unit × Option Ticket)) fun r w =>
        ∀ r' s', r = .ok (r', s') → Written n batch s' w ∧ (r' = .ok () → Acked n batch w) := fun k =>
    .attempt_bind _ (written_runs (awaitPoke_runs k _)) fun r => .pure fun w hw _ _ h => by
      cases h
      refine ⟨hw.2, fun hr => ?_⟩
      obtain ⟨hlt, app, happ, hasked⟩ := hw.2.asked k rfl
      exact ⟨k, app, hlt, hasked.le, happ, hasked.body, hw.1 hr⟩
  cases sent with
  | none =>
    refine .attempt_bind _ ((sendPoke_runs n batch).keeping (Q := fun w => n ≤ w.issued)
      (fun _ _ hs hw => Nat.le_trans hw hs.grows.issued) |>.weaken (fun w hw => ⟨hw.issued, hw.issued⟩)
      fun _ _ h => h) fun r => ?_
    cases r with
    | error e =>
      exact .pure fun w hw _ _ h => by
        cases h
        exact ⟨⟨hw.2, nofun⟩, nofun⟩
    | ok k =>
      refine (hawait k).weaken (fun w hw => ⟨hw.2, ?_⟩) fun _ _ h => h
      intro k' hk'
      cases hk'
      exact hw.1 k rfl
  | some k =>
    refine .bind (fun _ => Written n batch (some k)) Keeps.get (fun w => ?_) fun _ _ _ _ _ => nofun
    split
    · refine .attempt_bind _ (pokeAgain_keeps k) fun r => ?_
      cases r with
      | error e =>
        exact .pure fun w hw _ _ h => by
          cases h
          exact ⟨hw, nofun⟩
      | ok u => exact hawait k
    · exact hawait k

theorem pokeTry_tries :
    Tries (fun s w => Written n batch s w ∧ At .up w) (fun _ => Acked n batch) (pokeTry batch known) := by
  refine ⟨fun _ _ hw => hw.2, fun _ _ _ hw hp => ⟨hw.1.op (.passes hp), hp.same.stage.trans hw.2⟩,
    fun _ _ hw => ⟨⟨hw.1.issued, fun k hk => ?_⟩, hw.2⟩, fun s => ?_, fun _ _ _ hw h => hw.step h⟩
  · obtain ⟨hlt, app, happ, hasked⟩ := hw.1.asked k hk
    exact ⟨hlt, app, happ, ⟨hasked.pos, hasked.le, hasked.base, hasked.rid⟩, hasked.body⟩
  · exact ((pokeTry_runs s).lift fun _ _ hs hup => ⟨.op hs hup, hs.stage.trans hup⟩).weaken (fun _ h => h)
      fun _ _ h => ⟨h.2, fun r' s' hr => ⟨⟨(h.1 r' s' hr).1, h.2⟩, fun v hv => (h.1 r' s' hr).2 hv⟩⟩

theorem pokeOnce_runs (n : Nat) (batch : List (UInt32 × Bytes)) :
    Runs Step (fun w => At .up w ∧ n ≤ w.issued) (pokeOnce batch) fun r w =>
      At .up w ∧ (r = .ok () → batch ≠ [] → Acked n batch w) := by
  unfold pokeOnce
  split
  next hnil => exact .pure fun w hw => ⟨hw.1, fun _ hne => absurd hnil hne⟩
  next =>
    refine .get_bind fun x hx => ?_
    have honce : Retry.once = Retry.resend → ∀ s, Runs Step (At .up) (pokeTry batch x.knownHeader s) fun r w =>
        At .up w ∧ ∀ v s', r = .ok (.ok v, s') → Acked n batch w := nofun
    exact (withRetry_runs pokeTry_tries none honce).weaken
      (fun w hw => ⟨⟨by rw [hw]; exact hx.2, nofun⟩, by rw [hw]; exact hx.1⟩)
      fun _ _ h => ⟨h.1, fun hr _ => h.2 () hr⟩

theorem pokeOnce_keeps (batch : List (UInt32 × Bytes)) : Keeps Step (At .up) (pokeOnce batch) :=
  (pokeOnce_runs 0 batch).weaken (fun _ hw => ⟨hw, Nat.zero_le _⟩) fun _ _ h => h.1

theorem writeMany_keeps (writes : List (UInt32 × Bytes)) : Keeps Step (At .up) (writeMany writes) := by
  have hall : ∀ bs, Keeps Step (At .up) (pokeAll bs) := by
    intro bs
    induction bs with
    | nil => exact .pure _
    | cons b bs ih => exact .bind (pokeOnce_keeps b) fun _ => ih
  exact .bind .get fun _ => .bind (lift_keeps _) fun _ => hall _

theorem Call.run_keeps (c : Call) : Keeps Step (At .up) c.run := by
  cases c with
  | alive => exact .bind alive_keeps fun _ => .pure _
  | readMany regions => exact .bind (readMany_keeps regions).attempt fun _ => .pure _
  | readRomMany regions => exact .bind (readRomMany_keeps regions).attempt fun _ => .pure _
  | writeMany writes => exact .bind (writeMany_keeps writes).attempt fun _ => .pure _
  | setWatch x => exact setWatch_keeps x
  | takeWatched => exact .bind takeWatched_keeps fun _ => .pure _
  | sampleWatch => exact .bind sampleWatch_keeps.attempt fun _ => .pure _
  | idle => exact waitUnless_keeps fun w w' hw hp => ⟨.passes hp, hp.same.stage.trans hw⟩

/-- A session is a path of link steps. -/
theorem session_keeps (calls : List Call) : Keeps Step (At .up) (session calls) := by
  have hrun : ∀ calls, Keeps Step (At .up) (runCalls calls) := by
    intro calls
    induction calls with
    | nil => exact .pure _
    | cons c calls ih => exact .bind c.run_keeps fun _ => ih
  exact .bind connect_keeps fun _ => .bind (own_keeps .opened) fun _ => hrun calls

end Calls

end Backend

end Multi64
