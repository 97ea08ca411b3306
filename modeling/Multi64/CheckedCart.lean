import Mathlib
import Multi64.Lib.Bytes

/-! The cart as a session's connector is given it, `Checked` in `play.rs`: asked
again what it is running whenever its link changed. The cart inside it, and
what it answers, may be any. -/

namespace Multi64

namespace Checked

/-- The calls that `checked` guards. -/
inductive Op where
  | readMany (regions : List (UInt32 × Nat))
  | writeMany (writes : List (UInt32 × Bytes))
  | readRomMany (regions : List (UInt32 × Nat))
  | sampleWatch
  deriving DecidableEq

inductive Fault (ε : Type) where
  | linkRestarted (why : String)
  | cart (e : ε)
  deriving DecidableEq

/-- The cart inside, and the question whether it still runs the game. Each call
also says how many times the link restarted under it. -/
structure Inner (σ ε : Type) where
  run : Op → σ → Except ε (List Bytes) × σ × Nat
  takeWatched : σ → Option Bytes × σ × Nat
  sameGame : σ → Except String Unit × σ × Nat

/-- What reached the cart, or was handed back as the game's, and whether the
game was known to run on the link's generation then. -/
inductive Entry where
  | passed (op : Op) (known : Bool)
  | returned (known : Bool)
  deriving DecidableEq

def Entry.known : Entry → Bool
  | .passed _ known => known
  | .returned known => known

/-- `CheckedInner`, with the cart's generation. `confirmed` are the generations
the game was found on, on a link that did not move under the question; `asked`
counts the questions; `strayed` is whether a watched event was taken ungated.
The code reads none of the last four. -/
structure State (σ : Type) where
  cart : σ
  generation : Nat
  checked : Nat
  changed : Option String
  serve : Bool
  confirmed : List Nat
  asked : Nat
  log : List Entry
  strayed : Bool

variable {σ ε : Type} (c : Inner σ ε)

def checkTries : Nat := 3

namespace State

variable (s : State σ)

def known : Bool := s.generation ∈ s.confirmed

def record (e : Bool → Entry) : State σ := { s with log := s.log ++ [e s.known] }

/-- The game was found changed. -/
def latch (why : String) : State σ := { s with changed := some why, serve := true }

/-- Ask the cart what it is running, and its answer. -/
def ask : Except String Unit × State σ :=
  let (answer, cart, moves) := c.sameGame s.cart
  let still : Bool := answer.isOk && moves = 0
  (answer,
    { s with
      cart := cart
      generation := s.generation + moves
      confirmed := if still then s.generation :: s.confirmed else s.confirmed
      asked := s.asked + 1 })

def touched (cart : σ) (moves : Nat) : State σ := { s with cart := cart, generation := s.generation + moves }

end State

/-- One turn of the loop of `check`, behind `tries` questions: its result, or
the tries to go on with. -/
def checkTurn (tries : Nat) (s : State σ) : (Except String Unit ⊕ Nat) × State σ :=
  match s.changed with
  | some why => (.inl (.error why), s)
  | none =>
    let at_ := s.generation
    if at_ = s.checked then (.inl (.ok ()), s)
    else if tries = checkTries then
      (.inr tries, s.latch "the link to the cart kept restarting while it was checked")
    else
      match s.ask c with
      | (.ok _, s') =>
        -- The same game, unless the link restarted again under the check.
        if s'.generation = at_ then (.inr (tries + 1), { s' with checked := at_ }) else (.inr (tries + 1), s')
      | (.error why, s') => (.inr (tries + 1), s'.latch why)

/-- Up to so many turns. -/
def checkLoop : Nat → Nat → State σ → Option (Except String Unit × State σ)
  | 0, _, _ => none
  | n + 1, tries, s =>
    match checkTurn c tries s with
    | (.inl r, s') => some (r, s')
    | (.inr tries, s') => checkLoop n tries s'

/-- The turns that are left to a check behind `tries` questions. -/
def turnsLeft (tries : Nat) (s : State σ) : Nat :=
  if s.changed.isSome then 1 else if s.generation = s.checked then 1 else checkTries - tries + 2

theorem checkLoop_ends (n : Nat) : ∀ (tries : Nat) (s : State σ), tries ≤ checkTries → turnsLeft tries s ≤ n →
    ∃ r, checkLoop c n tries s = some r ∧ r.2.asked ≤ s.asked + (checkTries - tries) := by
  have htries : checkTries = 3 := rfl
  induction n with
  | zero =>
    intro tries s _ hn
    unfold turnsLeft at hn
    split at hn
    · omega
    · split at hn <;> omega
  | succ n ih =>
    intro tries s ht hn
    unfold checkLoop checkTurn
    unfold turnsLeft at hn
    cases hc : s.changed with
    | some why => exact ⟨_, rfl, by simp only; omega⟩
    | none =>
      simp only
      by_cases hsame : s.generation = s.checked
      · simp only [if_pos hsame]
        exact ⟨_, rfl, by simp only; omega⟩
      · simp only [hc, Option.isSome_none, Bool.false_eq_true, if_false, if_neg hsame] at hn ⊢
        by_cases hlast : tries = checkTries
        · simp only [if_pos hlast]
          obtain ⟨r, hr, hasked⟩ := ih tries (s.latch "the link to the cart kept restarting while it was checked") ht
            (by simp only [turnsLeft, State.latch, Option.isSome_some, if_true]; omega)
          exact ⟨r, hr, hasked⟩
        · simp only [if_neg hlast]
          have hmore : tries + 1 ≤ checkTries := by omega
          have hasked' : (s.ask c).2.asked = s.asked + 1 := rfl
          cases ha : s.ask c with
          | mk answer s' =>
            rw [ha] at hasked'
            cases answer with
            | ok u =>
              simp only
              by_cases hstill : s'.generation = s.generation
              · simp only [if_pos hstill]
                obtain ⟨r, hr, hasked⟩ := ih (tries + 1) { s' with checked := s.generation } hmore (by
                  simp only [turnsLeft, hstill, if_true]
                  split <;> omega)
                exact ⟨r, hr, by simp only at hasked hasked'; omega⟩
              · simp only [if_neg hstill]
                obtain ⟨r, hr, hasked⟩ := ih (tries + 1) s' hmore (by
                  unfold turnsLeft
                  split
                  · omega
                  · split <;> omega)
                exact ⟨r, hr, by simp only at hasked hasked'; omega⟩
            | error why =>
              simp only
              obtain ⟨r, hr, hasked⟩ := ih (tries + 1) (s'.latch why) hmore
                (by simp only [turnsLeft, State.latch, Option.isSome_some, if_true]; omega)
              have hlatch : (s'.latch why).asked = s'.asked := rfl
              exact ⟨r, hr, by simp only at hasked'; omega⟩

theorem check_ends (s : State σ) :
    ∃ r, checkLoop c (checkTries + 2) 0 s = some r ∧ r.2.asked ≤ s.asked + checkTries := by
  refine checkLoop_ends c (checkTries + 2) 0 s (Nat.zero_le _) ?_
  unfold turnsLeft
  split
  · omega
  · split <;> omega

theorem check_isSome (s : State σ) : (checkLoop c (checkTries + 2) 0 s).isSome := by
  obtain ⟨r, hr, _⟩ := check_ends c s
  rw [hr]
  rfl

/-- Whether the cart is still running the game. -/
def check (s : State σ) : Except String Unit × State σ := (checkLoop c (checkTries + 2) 0 s).get (check_isSome c s)

/-- `op` on the cart, between two checks. -/
def checked (op : Op) (s : State σ) : Except (Fault ε) (List Bytes) × State σ :=
  match check c s with
  | (.error why, s) => (.error (.linkRestarted why), s)
  | (.ok _, s) =>
    let (done, cart, moves) := c.run op s.cart
    let s := (s.record (.passed op)).touched cart moves
    match done with
    | .error e => (.error (.cart e), s)
    | .ok got =>
      match check c s with
      | (.error why, s) => (.error (.linkRestarted why), s)
      | (.ok _, s) => (.ok got, s.record .returned)

/-- An event may be taken without a check: the game is not found changed, and
it is found on this generation or there is no event. -/
def State.settled (s : State σ) (event : Option Bytes) (moves : Nat) : Bool :=
  s.changed.isNone && (event.isNone || (s.generation = s.checked && moves = 0))

def takeWatched (s : State σ) : Option Bytes × State σ :=
  let (event, cart, moves) := c.takeWatched s.cart
  let s' := { s.touched cart moves with strayed := s.strayed || !s.settled event moves }
  (event, if event.isSome then s'.record .returned else s')

/-- What the connector calls; or the cart's owner uses it in between. -/
inductive Call (σ : Type) where
  | op (op : Op)
  | takeWatched
  | elsewhere (cart : σ) (moves : Nat)

inductive Result (ε : Type) where
  | done (r : Except (Fault ε) (List Bytes))
  | watched (event : Option Bytes)
  | nothing

/-- Whether something was handed back as the game's. -/
def Result.handed : Result ε → Bool
  | .done r => r.isOk
  | .watched event => event.isSome
  | .nothing => false

def step (s : State σ) : Call σ → Result ε × State σ
  | .op op => ((checked c op s).1 |> .done, (checked c op s).2)
  | .takeWatched => ((takeWatched c s).1 |> .watched, (takeWatched c s).2)
  | .elsewhere cart moves => (.nothing, s.touched cart moves)

def run (s : State σ) (calls : List (Call σ)) : State σ := calls.foldl (fun s call => (step c s call).2) s

/-- The game was found on generation `found`, and the link restarted `moves`
times since. -/
def start (cart : σ) (found moves : Nat) : State σ := ⟨cart, found + moves, found, none, false, [found], 0, [], false⟩

section Gated

structure Gated (s : State σ) : Prop where
  log : ∀ e ∈ s.log, e.known = true
  checked : s.checked ∈ s.confirmed
  served : s.changed.isSome = true → s.serve = true

variable {c} {s : State σ}

theorem Gated.latch (h : Gated s) (why : String) : Gated (s.latch why) := ⟨h.log, h.checked, fun _ => rfl⟩

theorem Gated.touched (h : Gated s) (cart : σ) (moves : Nat) : Gated (s.touched cart moves) :=
  ⟨h.log, h.checked, h.served⟩

theorem Gated.record (h : Gated s) (hk : s.known = true) {e : Bool → Entry} (he : ∀ b, (e b).known = b) :
    Gated (s.record e) := by
  refine ⟨fun x hx => ?_, h.checked, h.served⟩
  rcases List.mem_append.mp hx with hx | hx
  · exact h.log x hx
  · rw [List.mem_singleton.mp hx, he, hk]

theorem Gated.ask (h : Gated s) : Gated (s.ask c).2 := by
  refine ⟨h.log, ?_, h.served⟩
  simp only [State.ask]
  split
  · exact List.mem_cons_of_mem _ h.checked
  · exact h.checked

/-- A link that stood still under an answer of Ok is known. -/
theorem ask_confirms (hok : (s.ask c).1.isOk = true) (hstill : (s.ask c).2.generation = s.generation) :
    s.generation ∈ (s.ask c).2.confirmed := by
  unfold State.ask at hok hstill ⊢
  generalize c.sameGame s.cart = asked at hok hstill ⊢
  obtain ⟨answer, cart, moves⟩ := asked
  simp only at hok hstill ⊢
  have hmoves : moves = 0 := by omega
  simp [hok, hmoves]

/-- What a turn of the check leaves, and what its result says. -/
theorem checkTurn_spec (h : Gated s) (tries : Nat) : Gated (checkTurn c tries s).2 ∧
    ∀ r, (checkTurn c tries s).1 = .inl r → (checkTurn c tries s).2 = s ∧
      (r.isOk = true → s.changed = none ∧ s.generation = s.checked) ∧ (s.changed.isSome = true → r.isOk = false) := by
  unfold checkTurn
  cases hc : s.changed with
  | some why =>
    refine ⟨h, fun r hr => ⟨rfl, ?_⟩⟩
    obtain rfl := Sum.inl.inj hr
    exact ⟨nofun, fun _ => rfl⟩
  | none =>
    simp only
    by_cases hsame : s.generation = s.checked
    · simp only [if_pos hsame]
      exact ⟨h, fun r _ => ⟨trivial, fun _ => ⟨trivial, hsame⟩, nofun⟩⟩
    · simp only [if_neg hsame]
      by_cases hlast : tries = checkTries
      · simp only [if_pos hlast]
        exact ⟨h.latch _, nofun⟩
      · simp only [if_neg hlast]
        have hask : Gated (s.ask c).2 := h.ask
        have hconfirm := @ask_confirms _ _ c s
        cases ha : s.ask c with
        | mk answer s' =>
          rw [ha] at hask hconfirm
          cases answer with
          | ok u =>
            simp only
            by_cases hstill : s'.generation = s.generation
            · simp only [if_pos hstill]
              exact ⟨⟨hask.log, hconfirm rfl hstill, hask.served⟩, nofun⟩
            · simp only [if_neg hstill]
              exact ⟨hask, nofun⟩
          | error why =>
            simp only
            exact ⟨hask.latch why, nofun⟩

theorem checkLoop_spec (n : Nat) : ∀ (tries : Nat) (s : State σ), Gated s → ∀ r, checkLoop c n tries s = some r →
    Gated r.2 ∧ (r.1.isOk = true → r.2.changed = none ∧ r.2.generation = r.2.checked) := by
  induction n with
  | zero => exact fun _ _ _ r hr => nomatch hr
  | succ n ih =>
    intro tries s h r hr
    obtain ⟨hgated, hend⟩ := checkTurn_spec (c := c) h tries
    unfold checkLoop at hr
    cases ht : checkTurn c tries s with
    | mk turn s' =>
      rw [ht] at hr hgated hend
      cases turn with
      | inl result =>
        obtain rfl := Option.some.inj hr
        obtain ⟨hs, hok, _⟩ := hend result rfl
        simp only at hs
        exact ⟨hgated, fun hr => by
          simp only [hs]
          exact hok hr⟩
      | inr tries' => exact ih tries' s' hgated r hr

theorem check_spec (h : Gated s) : Gated (check c s).2 ∧
    ((check c s).1.isOk = true → (check c s).2.changed = none ∧ (check c s).2.known = true) := by
  obtain ⟨hgated, hok⟩ := checkLoop_spec (c := c) (checkTries + 2) 0 s h (check c s) (Option.some_get _).symm
  refine ⟨hgated, fun hr => ?_⟩
  obtain ⟨hchanged, hgen⟩ := hok hr
  exact ⟨hchanged, by simpa [State.known, hgen] using hgated.checked⟩

/-- Once the game was found changed a check fails at once. -/
theorem check_changed {why : String} (h : s.changed = some why) : check c s = (.error why, s) := by
  have hloop : checkLoop c (checkTries + 2) 0 s = some (.error why, s) := by
    rw [checkLoop, checkTurn, h]
  simp only [check, hloop, Option.get_some]

theorem checked_gated (h : Gated s) (op : Op) : Gated (checked c op s).2 := by
  obtain ⟨hgated, hok⟩ := check_spec (c := c) h
  unfold checked
  cases hc : check c s with
  | mk r s₁ =>
    rw [hc] at hgated hok
    cases r with
    | error why => exact hgated
    | ok u =>
      simp only
      have hpassed := (hgated.record (hok rfl).2 (e := .passed op) fun _ => rfl).touched (c.run op s₁.cart).2.1
        (c.run op s₁.cart).2.2
      obtain ⟨hgated', hok'⟩ := check_spec (c := c) hpassed
      cases hd : (c.run op s₁.cart).1 with
      | error e => exact hpassed
      | ok got =>
        simp only
        cases hc' : check c ((s₁.record (.passed op)).touched (c.run op s₁.cart).2.1 (c.run op s₁.cart).2.2) with
        | mk r' s₂ =>
          rw [hc'] at hgated' hok'
          cases r' with
          | error why => exact hgated'
          | ok u' => exact hgated'.record (hok' rfl).2 fun _ => rfl

theorem takeWatched_gated (h : Gated s) (hs : (takeWatched c s).2.strayed = false) : Gated (takeWatched c s).2 := by
  unfold takeWatched at hs ⊢
  generalize c.takeWatched s.cart = taken at hs ⊢
  obtain ⟨event, cart, moves⟩ := taken
  simp only at hs ⊢
  cases event with
  | none => exact ⟨h.log, h.checked, h.served⟩
  | some bytes =>
    simp only [Option.isSome_some, if_true, State.record, State.settled, Option.isNone_some, Bool.false_or,
      Bool.or_eq_false_iff, Bool.not_eq_false', Bool.and_eq_true, decide_eq_true_eq] at hs ⊢
    obtain ⟨_, _, hgen, hmoves⟩ := hs
    have hknown : s.known = true := by simpa [State.known, hgen] using h.checked
    have hlog : ∀ e ∈ s.log ++ [Entry.returned s.known], e.known = true := (h.record hknown fun _ => rfl).log
    refine ⟨?_, h.checked, h.served⟩
    simpa [State.touched, State.known, hmoves] using hlog

theorem checked_returned {op : Op} (h : (checked c op s).1.isOk = true) :
    ∃ s₁ : State σ, (checked c op s).2 = s₁.record .returned := by
  unfold checked at h ⊢
  cases hc : check c s with
  | mk r s₁ =>
    rw [hc] at h
    cases r with
    | error why => exact nomatch h
    | ok u =>
      simp only at h ⊢
      cases hd : (c.run op s₁.cart).1 with
      | error e =>
        rw [hd] at h
        exact nomatch h
      | ok got =>
        rw [hd] at h
        simp only at h ⊢
        cases hc' : check c ((s₁.record (.passed op)).touched (c.run op s₁.cart).2.1 (c.run op s₁.cart).2.2) with
        | mk r' s₂ =>
          rw [hc'] at h
          cases r' with
          | error why => exact nomatch h
          | ok u' => exact ⟨s₂, rfl⟩

theorem step_returned {call : Call σ} (h : (step c s call).1.handed = true) :
    ∃ s₁ : State σ, (step c s call).2 = s₁.record .returned := by
  cases call with
  | op op => exact checked_returned h
  | takeWatched =>
    change (takeWatched c s).1.isSome = true at h
    unfold takeWatched at h
    simp only at h
    exact ⟨_, if_pos h⟩
  | elsewhere cart moves => exact nomatch h

theorem Gated.known_returned {s₁ : State σ} (h : Gated (s₁.record .returned)) : (s₁.record .returned).known = true :=
  h.log (.returned s₁.known) (List.mem_append_right _ List.mem_cons_self)

theorem checkLoop_strayed (n : Nat) : ∀ (tries : Nat) (s : State σ) r, checkLoop c n tries s = some r →
    r.2.strayed = s.strayed := by
  induction n with
  | zero => exact fun _ _ r hr => nomatch hr
  | succ n ih =>
    intro tries s r hr
    unfold checkLoop checkTurn at hr
    cases hc : s.changed with
    | some why =>
      rw [hc] at hr
      obtain rfl := Option.some.inj hr
      rfl
    | none =>
      simp only [hc] at hr
      by_cases hsame : s.generation = s.checked
      · simp only [if_pos hsame] at hr
        obtain rfl := Option.some.inj hr
        rfl
      · simp only [if_neg hsame] at hr
        by_cases hlast : tries = checkTries
        · simp only [if_pos hlast] at hr
          exact ih tries (s.latch _) r hr
        · simp only [if_neg hlast] at hr
          have hask : (s.ask c).2.strayed = s.strayed := rfl
          cases ha : s.ask c with
          | mk answer s' =>
            rw [ha] at hr hask
            cases answer with
            | ok u =>
              simp only at hr
              by_cases hstill : s'.generation = s.generation
              · simp only [if_pos hstill] at hr
                exact (ih _ _ r hr).trans hask
              · simp only [if_neg hstill] at hr
                exact (ih _ _ r hr).trans hask
            | error why => exact (ih _ _ r hr).trans hask

theorem check_strayed (s : State σ) : (check c s).2.strayed = s.strayed :=
  checkLoop_strayed (checkTries + 2) 0 s (check c s) (Option.some_get _).symm

theorem checked_strayed (op : Op) (s : State σ) : (checked c op s).2.strayed = s.strayed := by
  have hfirst := @check_strayed _ _ c s
  unfold checked
  cases hc : check c s with
  | mk r s₁ =>
    rw [hc] at hfirst
    cases r with
    | error why => exact hfirst
    | ok u =>
      simp only
      have hlast := @check_strayed _ _ c ((s₁.record (.passed op)).touched (c.run op s₁.cart).2.1 (c.run op s₁.cart).2.2)
      cases hd : (c.run op s₁.cart).1 with
      | error e => exact hfirst
      | ok got =>
        simp only
        cases hc' : check c ((s₁.record (.passed op)).touched (c.run op s₁.cart).2.1 (c.run op s₁.cart).2.2) with
        | mk r' s₂ =>
          rw [hc'] at hlast
          cases r' with
          | error why => exact hlast.trans hfirst
          | ok u' => exact hlast.trans hfirst

/-- What strayed stays so. -/
theorem step_strayed {s : State σ} {call : Call σ} (h : (step c s call).2.strayed = false) : s.strayed = false := by
  cases call with
  | op op =>
    rw [← @checked_strayed _ _ c op s]
    exact h
  | takeWatched =>
    change (takeWatched c s).2.strayed = false at h
    unfold takeWatched at h
    simp only at h
    split at h
    · exact (Bool.or_eq_false_iff.mp h).1
    · exact (Bool.or_eq_false_iff.mp h).1
  | elsewhere cart moves => exact h

theorem step_gated {call : Call σ} (h : Gated s) (hs : (step c s call).2.strayed = false) : Gated (step c s call).2 := by
  cases call with
  | op op => exact checked_gated h op
  | takeWatched => exact takeWatched_gated h hs
  | elsewhere cart moves => exact h.touched cart moves

theorem run_gated (calls : List (Call σ)) (h : Gated s) (hs : (run c s calls).strayed = false) :
    Gated (run c s calls) := by
  induction calls using List.reverseRecOn with
  | nil => exact h
  | append_singleton calls call ih =>
    rw [run, List.foldl_append, ← run] at hs ⊢
    exact step_gated (ih (step_strayed hs)) hs

theorem start_gated (cart : σ) (found moves : Nat) : Gated (start cart found moves) :=
  ⟨(fun _ he => nomatch he), List.mem_singleton_self found, nofun⟩

end Gated

/-- A call of the connector that is refused, and touches nothing. -/
def Refused (s : State σ) (call : Call σ) : Prop :=
  (∃ cart moves, call = .elsewhere cart moves) ∨
    (∃ why, (step c s call).1 = .done (.error (.linkRestarted why))) ∧ (step c s call).2 = s

/-- In any run where every watched event is taken on a generation the game was
found on: what reached the cart did so on such a generation, and what was
handed back is followed by one; a check ends and asks three times at most; and
once the game is found changed the connector is told to stop, and every further
call is refused. -/
theorem run_guarded (cart : σ) (found moves : Nat) (calls : List (Call σ)) :
    let s := run c (start cart found moves) calls
    s.strayed = false →
      (∀ e ∈ s.log, e.known = true) ∧
        (∀ call, (step c s call).2.strayed = false → (step c s call).1.handed = true → (step c s call).2.known = true) ∧
        (∀ t : State σ, ∃ r, checkLoop c (checkTries + 2) 0 t = some r ∧ r.2.asked ≤ t.asked + checkTries) ∧
        (s.changed.isSome = true → s.serve = true ∧
          ∀ call, (step c s call).2.strayed = false → Refused c s call ∧ (step c s call).2.changed = s.changed) := by
  intro s hs
  have hgated : Gated s := run_gated calls (start_gated cart found moves) hs
  refine ⟨hgated.log, fun call hcall hhanded => ?_, check_ends c,
    fun hchanged => ⟨hgated.served hchanged, fun call hcall => ?_⟩⟩
  · obtain ⟨s₁, hs₁⟩ := step_returned hhanded
    have hnext := step_gated hgated hcall
    rw [hs₁] at hnext ⊢
    exact hnext.known_returned
  obtain ⟨why, hwhy⟩ := Option.isSome_iff_exists.mp hchanged
  cases call with
  | op op =>
    have hrefused : checked c op s = (.error (.linkRestarted why), s) := by rw [checked, check_changed hwhy]
    have hstep : step c s (.op op) = (.done (.error (.linkRestarted why)), s) := by rw [step, hrefused]
    exact ⟨.inr ⟨⟨why, by rw [hstep]⟩, by rw [hstep]⟩, by rw [hstep]⟩
  | takeWatched =>
    change (takeWatched c s).2.strayed = false at hcall
    unfold takeWatched at hcall
    simp only [State.settled, hwhy, Option.isNone_some, Bool.false_and, Bool.not_false, Bool.or_true] at hcall
    split at hcall
    · exact nomatch hcall
    · exact nomatch hcall
  | elsewhere cart' moves' => exact ⟨.inl ⟨cart', moves', rfl⟩, rfl⟩

/-- A cart whose console is reset into another game under a read, which also
catches a change of the watched slot. -/
def resetUnderRead : Inner (List Bytes) Unit where
  run _ queue := (.ok [], queue ++ [[7]], 1)
  takeWatched queue := (queue.head?, queue.tail, 0)
  sameGame queue := (.error "another game", queue, 0)

theorem run_guarded_reset :
    let s := run resetUnderRead (start [] 0 0) [.op (.readMany [(0, 4)])]
    (∀ e ∈ s.log, e.known = true) ∧ s.serve = true ∧ Refused resetUnderRead s (.op (.writeMany [(0, [1])])) := by
  obtain ⟨hlog, _, _, hlatched⟩ := run_guarded resetUnderRead [] 0 0 [.op (.readMany [(0, 4)])] (by decide)
  obtain ⟨hserve, hrefused⟩ := hlatched (by decide)
  exact ⟨hlog, hserve, (hrefused (.op (.writeMany [(0, [1])])) (by decide)).1⟩

/-- The event read from the other game is handed back as the game's, after the
change was found. -/
theorem watched_after_change :
    let s := run resetUnderRead (start [] 0 0) [.op (.readMany [(0, 4)])]
    s.changed = some "another game" ∧ (takeWatched resetUnderRead s).1 = some [7] ∧
      Entry.returned false ∈ (takeWatched resetUnderRead s).2.log := by
  decide

end Checked

end Multi64
