import Multi64.GoldenEyePickups

/-! GoldenEye's world frame by frame: what `game.c` does before the game's update and
after it, whatever the game leaves in memory in between. -/

namespace Multi64

namespace GoldenEye

def screenIdAddr : Nat := 0x02A8C0
def missionIdAddr : Nat := 0x02A8F8
def screenGameplay : UInt32 := 0x0B
def screenMap : UInt32 := 0x07
def screenDebrief1 : UInt32 := 0x0C
def screenDebrief2 : UInt32 := 0x0D

def targetEcValue : UInt32 := 1
def targetPulseCount : UInt32 := 4
def startupReadyMailboxAddr : Nat := 0x7F020
def keyItemFlagsMailboxAddr : Nat := 0x7F200
def keyItemStateMailboxAddr : Nat := 0x7F204
def tankOwnedAddr : Nat := 0x7F20A
def tankDescriptorAddr : Nat := 0x7F210
def missionAttemptAddr : Nat := 0x7F218
def handOffTimerEc : Nat := 0x1C

structure Tank where
  obj : Nat
  prop : Nat
  enabled : UInt8
  deriving DecidableEq

/-- The state of `game.c`. What was never read is one less than no value. -/
structure Game where
  lastScreen : UInt32
  lastMission : UInt32
  lastBond : Nat
  prevScreen : UInt32
  lastTimer : Option UInt32
  pulses : UInt32
  readySent : Bool
  attempt : UInt32
  tables : Tables
  tank : Option Tank
  deriving DecidableEq

def Game.initial : Game :=
  ⟨0xFFFFFFFE, 0xFFFFFFFE, 0xFFFFFFFE, 0xFFFFFFFE, none, 0, false, 0, ⟨[], none, []⟩, none⟩

section Frame

variable (g : Game) (m : Store)

def bonddataBase : Nat := toRdram (m.read32 bonddataPtrAddr)

/-- A mission with Bond in it is on the screen. -/
def playing : Bool := m.read32 screenIdAddr = screenGameplay ∧ m.read32 missionIdAddr ≠ 0 ∧ 0 < bonddataBase m

def changed : Bool :=
  m.read32 screenIdAddr ≠ g.lastScreen ∨ m.read32 missionIdAddr ≠ g.lastMission ∨ bonddataBase m ≠ g.lastBond

/-- The mailboxes of an attempt, as it begins. -/
def startMission (attempt : UInt32) : Store :=
  let words := [(startupReadyMailboxAddr, 0), (resultMailboxAddr, 0), (missionAttemptAddr, attempt), (0x7F21C, 0), (0x7F220, 0),
    (0x7F224, 0), (keyItemFlagsMailboxAddr, 0), (keyItemStateMailboxAddr, 0)].foldl (fun m w => m.write32 w.1 w.2) m
  let bytes := (words.write 0x7F20B [0]).write 0x7F209 [0]
  ((bytes.write32 0x7F20C 0).write tankOwnedAddr [0]).write32 tankDescriptorAddr 0

/-- `reset_state` and what else starts over, when the screen, the mission or Bond's data change. -/
def startOver : Game :=
  if changed g m then
    { g with
      lastTimer := none
      pulses := 0
      readySent := false
      attempt := if playing m then g.attempt + 1 else g.attempt
      tables := { g.tables with targets := [], signature := none }
      tank := none }
  else g

def startOverMailboxes : Store := if changed g m ∧ playing m then startMission m (g.attempt + 1) else m

/-- The debrief screens are left for the map only. -/
def holdDebrief (prevScreen screen : UInt32) : Store :=
  if (prevScreen = screenDebrief1 ∨ prevScreen = screenDebrief2) ∧ screen ≠ screenDebrief1 ∧ screen ≠ screenDebrief2 ∧
      screen ≠ screenMap then m.write32 screenIdAddr screenMap
  else m

def note (screen mission : UInt32) (bond : Nat) : Game :=
  { g with lastScreen := screen, lastMission := mission, lastBond := bond, prevScreen := screen }

/-- Everything before the test for gameplay. -/
def observe : Game × Store :=
  let screen := m.read32 screenIdAddr
  (note (startOver g m) screen (m.read32 missionIdAddr) (bonddataBase m),
    holdDebrief (startOverMailboxes g m) g.prevScreen screen)

/-- One look at the timer of the hand; the fourth pulse is published, once. -/
def countPulse (timer : UInt32) : Game × Store :=
  let pulses := if g.lastTimer ≠ some targetEcValue ∧ timer = targetEcValue then g.pulses + 1 else g.pulses
  if targetPulseCount ≤ pulses ∧ ¬g.readySent then
    ({ g with pulses := pulses, readySent := true }, m.write32 startupReadyMailboxAddr 1)
  else ({ g with pulses := pulses }, m)

def findTank (descriptor : UInt32) : Option Tank :=
  (List.range propMax).findSome? fun i =>
    let prop := propPool + i * propSize
    let obj := toRdram (m.read32 (prop + propOffObj))
    if 0 < obj ∧ m (obj + objOffType) = 45 ∧ m.read32 (obj + objOffModelPad) = descriptor ∧
        toRdram (m.read32 (obj + objOffProp)) = prop then some ⟨obj, prop, m (prop + 1) &&& 4⟩
    else none

def showTank (t : Tank) : Option Tank × Store :=
  if toRdram (m.read32 (t.obj + objOffProp)) ≠ t.prop ∨ toRdram (m.read32 (t.prop + propOffObj)) ≠ t.obj then (none, m)
  else
    let flags := m (t.prop + 1)
    let desired := flags &&& ~~~4 ||| (if m tankOwnedAddr = 1 then t.enabled else 0)
    (some t, if flags ≠ desired then m.write (t.prop + 1) [desired] else m)

def updateTankVisibility (tank : Option Tank) : Option Tank × Store :=
  let descriptor := m.read32 tankDescriptorAddr
  if descriptor = 0 then (tank, m) else (tank.or (findTank m descriptor)).elim (none, m) (showTank m)

def gameFrameStart : Option (Game × Store) :=
  let seen := observe g m
  if ¬playing m then some seen
  else do
    let bond := bonddataBase m
    let timer := seen.2.read32 (bond + offHandsBase + handOffTimerEc)
    let counted := countPulse seen.1 seen.2 timer
    let tank := updateTankVisibility counted.2 counted.1.tank
    let picked ← updateFreestandingPickups bond counted.1.tables tank.2
    return ({ counted.1 with tank := tank.1, tables := picked.1, lastTimer := some timer }, picked.2)

def clearKeyItems : Store :=
  let keyState := m.read32 keyItemStateMailboxAddr
  if (m.read32 keyItemFlagsMailboxAddr ≠ 0 ∨ keyState ≠ 0) ∧ keyState >>> 8 &&& 0xFF ≠ m.read32 missionIdAddr then
    (m.write32 keyItemFlagsMailboxAddr 0).write32 keyItemStateMailboxAddr 0
  else m

def gameFrameEnd : Option (Game × Store) :=
  if ¬playing m then some (g, m)
  else do
    let picked ← updateFreestandingPickups (bonddataBase m) g.tables (clearKeyItems m)
    return ({ g with tables := picked.1 }, picked.2)

end Frame

inductive Hook where
  | start
  | finish
  deriving DecidableEq

/-- One call of the hook, over the memory that the game left. -/
def Hook.call (hook : Hook) (g : Game) (m : Store) : Option (Game × Store) :=
  match hook with
  | .start => gameFrameStart g m
  | .finish => gameFrameEnd g m

section Run

variable {g g' : Game} {m m' : Store} {bond : Nat}

/-- The state after some calls of the hook, each over memory of the game's making. -/
def run (g : Game) : List (Hook × Store) → Option Game
  | [] => some g
  | e :: events => (e.1.call g e.2).bind fun r => run r.1 events

theorem startOver_bounded (h : g.tables.Bounded) (m : Store) : (startOver g m).tables.Bounded := by
  have hreset : ({ g.tables with targets := [], signature := none } : Tables).Bounded :=
    ⟨Nat.zero_le _, fun _ ht => absurd ht List.not_mem_nil, h.inv⟩
  rw [startOver]
  split
  · exact hreset
  · exact h

theorem note_tables (screen mission : UInt32) (bond : Nat) : (note g screen mission bond).tables = g.tables := rfl

theorem observe_bounded (h : g.tables.Bounded) (m : Store) : (observe g m).1.tables.Bounded := by
  rw [observe]
  exact (note_tables ..).symm ▸ startOver_bounded h m

@[simp] theorem countPulse_tables (timer : UInt32) : (countPulse g m timer).1.tables = g.tables := by
  simp only [countPulse, apply_ite Prod.fst, apply_ite Game.tables, ite_self]

theorem gameFrameStart_bounded (h : g.tables.Bounded) (m : Store) :
    ∃ g' m', gameFrameStart g m = some (g', m') ∧ g'.tables.Bounded := by
  rw [gameFrameStart]
  split
  · exact ⟨_, _, rfl, observe_bounded h m⟩
  · obtain ⟨seen, hseen⟩ : ∃ seen, observe g m = seen := ⟨_, rfl⟩
    have htables : seen.1.tables.Bounded := hseen ▸ observe_bounded h m
    obtain ⟨counted, hcounted⟩ : ∃ counted, countPulse seen.1 seen.2
        (seen.2.read32 (bonddataBase m + offHandsBase + handOffTimerEc)) = counted := ⟨_, rfl⟩
    obtain ⟨tank, htank⟩ : ∃ tank, updateTankVisibility counted.2 counted.1.tank = tank := ⟨_, rfl⟩
    have hready : counted.1.tables.Bounded := by
      rw [← hcounted, countPulse_tables]
      exact htables
    obtain ⟨-, -, -, s', m', -, hresult, hbounded⟩ := update_bounded (bonddataBase m) tank.2 hready
    simp only [hseen, hcounted, htank, hresult, Option.bind_eq_bind, Option.bind_some]
    exact ⟨_, _, rfl, hbounded⟩

theorem gameFrameEnd_bounded (h : g.tables.Bounded) (m : Store) :
    ∃ g' m', gameFrameEnd g m = some (g', m') ∧ g'.tables.Bounded := by
  rw [gameFrameEnd]
  split
  · exact ⟨g, m, rfl, h⟩
  · obtain ⟨-, -, -, s', m', -, hresult, hbounded⟩ := update_bounded (bonddataBase m) (clearKeyItems m) h
    simp only [hresult, Option.bind_eq_bind, Option.bind_some]
    exact ⟨_, _, rfl, hbounded⟩

theorem initial_bounded : Game.initial.tables.Bounded :=
  ⟨Nat.zero_le _, fun _ ht => absurd ht List.not_mem_nil, Nat.zero_le _⟩

/-- The hook never leaves a table, whatever it finds in memory at each of its calls. -/
theorem run_bounded (events : List (Hook × Store)) : ∃ g', run Game.initial events = some g' ∧ g'.tables.Bounded := by
  have hrun : ∀ g : Game, g.tables.Bounded → ∃ g', run g events = some g' ∧ g'.tables.Bounded := by
    induction events with
    | nil => exact fun g h => ⟨g, rfl, h⟩
    | cons e events ih =>
      intro g h
      obtain ⟨hook, m⟩ := e
      obtain ⟨g', m', hcall, hbounded⟩ : ∃ g' m', hook.call g m = some (g', m') ∧ g'.tables.Bounded := by
        cases hook with
        | start => exact gameFrameStart_bounded h m
        | finish => exact gameFrameEnd_bounded h m
      obtain ⟨last, hlast, hend⟩ := ih g' hbounded
      refine ⟨last, ?_, hend⟩
      rw [run, hcall]
      exact hlast
  exact hrun _ initial_bounded

end Run

section Startup

/-- How often a timer comes to the value it is watched for, from anything else. -/
def edgesFrom (last : Option UInt32) : List UInt32 → Nat
  | [] => 0
  | timer :: timers => (if last ≠ some targetEcValue ∧ timer = targetEcValue then 1 else 0) + edgesFrom (some timer) timers

def edges (timers : List UInt32) : Nat := edgesFrom none timers

/-- The timer as a frame finds it. -/
def timerOf (g : Game) (m : Store) : UInt32 := (observe g m).2.read32 (bonddataBase m + offHandsBase + handOffTimerEc)

/-- The timers of the attempt that a frame is in, before it. -/
def attemptTimers (g : Game) (m : Store) (timers : List UInt32) : List UInt32 := if changed g m then [] else timers

/-- A state that calls of the hook lead to, with the timers seen since the attempt began. -/
inductive Reached : Game → List UInt32 → Prop where
  | initial : Reached Game.initial []
  | start {g g' : Game} {m m' : Store} {timers : List UInt32} : Reached g timers → gameFrameStart g m = some (g', m') →
      Reached g' (attemptTimers g m timers ++ if playing m then [timerOf g m] else [])
  | finish {g g' : Game} {m m' : Store} {timers : List UInt32} : Reached g timers → gameFrameEnd g m = some (g', m') →
      Reached g' timers

/-- What the state says of the timers of the attempt. -/
structure Counted (g : Game) (timers : List UInt32) : Prop where
  last : g.lastTimer = timers.getLast?
  pulses : g.pulses.toNat = edges timers % 2 ^ 32
  sent : g.readySent = true ↔ 4 ≤ edges timers

variable {g g' : Game} {m m' : Store} {timers : List UInt32} {timer : UInt32} {last : Option UInt32}

theorem edgesFrom_append (timers : List UInt32) (timer : UInt32) : edgesFrom last (timers ++ [timer]) =
    edgesFrom last timers + if (timers.getLast?.or last) ≠ some targetEcValue ∧ timer = targetEcValue then 1 else 0 := by
  induction timers generalizing last with
  | nil =>
    rw [List.nil_append, edgesFrom, edgesFrom, edgesFrom, Nat.add_comm]
    rfl
  | cons first timers ih =>
    have hlast : (first :: timers).getLast?.or last = timers.getLast?.or (some first) := by
      cases timers with
      | nil => rfl
      | cons second timers => simp [List.getLast?_cons]
    rw [List.cons_append, edgesFrom, edgesFrom, ih, hlast, Nat.add_assoc]

theorem edges_append (timers : List UInt32) (timer : UInt32) : edges (timers ++ [timer]) =
    edges timers + if timers.getLast? ≠ some targetEcValue ∧ timer = targetEcValue then 1 else 0 := by
  rw [edges, edgesFrom_append, Option.or_none, edges]

theorem Counted.startOver (h : Counted g timers) (m : Store) : Counted (startOver g m) (attemptTimers g m timers) := by
  rw [GoldenEye.startOver, attemptTimers]
  split
  · exact ⟨rfl, rfl, by simp [edges, edgesFrom]⟩
  · exact h

theorem Counted.note (h : Counted g timers) (screen mission : UInt32) (bond : Nat) : Counted (note g screen mission bond) timers :=
  ⟨h.last, h.pulses, h.sent⟩

theorem Counted.observe (h : Counted g timers) (m : Store) : Counted (observe g m).1 (attemptTimers g m timers) := by
  rw [GoldenEye.observe]
  exact (h.startOver m).note ..

/-- The mailbox is written at the fourth pulse and at no other look. -/
theorem countPulse_counted (h : Counted g timers) (m : Store) (timer : UInt32) :
    Counted { (countPulse g m timer).1 with lastTimer := some timer } (timers ++ [timer]) ∧
      (countPulse g m timer).2 =
        if edges timers = 3 ∧ edges (timers ++ [timer]) = 4 then m.write32 startupReadyMailboxAddr 1 else m := by
  obtain ⟨pulses, hpulses⟩ : ∃ pulses, (if g.lastTimer ≠ some targetEcValue ∧ timer = targetEcValue then g.pulses + 1 else g.pulses) =
    pulses := ⟨_, rfl⟩
  have hcount : pulses.toNat = edges (timers ++ [timer]) % 2 ^ 32 := by
    rw [← hpulses, edges_append, ← h.last]
    split
    · rw [UInt32.toNat_add, h.pulses]
      simp
    · rw [h.pulses, Nat.add_zero]
  have hstep : edges (timers ++ [timer]) ≤ edges timers + 1 ∧ edges timers ≤ edges (timers ++ [timer]) := by
    rw [edges_append]
    split <;> omega
  have hfour : targetPulseCount ≤ pulses ↔ 4 ≤ pulses.toNat := by
    rw [UInt32.le_iff_toNat_le]
    rfl
  have hready : targetPulseCount ≤ pulses ∧ ¬g.readySent ↔ edges timers = 3 ∧ edges (timers ++ [timer]) = 4 := by
    rw [hfour, h.sent, hcount]
    omega
  have hlast : (timers ++ [timer]).getLast? = some timer := List.getLast?_concat
  simp only [countPulse, hpulses]
  by_cases hpublish : targetPulseCount ≤ pulses ∧ ¬g.readySent
  · obtain ⟨hbefore, hnow⟩ := hready.mp hpublish
    rw [if_pos hpublish, if_pos ⟨hbefore, hnow⟩]
    exact ⟨⟨hlast.symm, hcount, by simp [hnow]⟩, rfl⟩
  · rw [if_neg hpublish, if_neg fun h => hpublish (hready.mpr h)]
    refine ⟨⟨hlast.symm, hcount, ?_⟩, rfl⟩
    rw [hready] at hpublish
    rw [h.sent]
    omega

theorem gameFrameStart_counted (h : Counted g timers) (hstep : gameFrameStart g m = some (g', m')) :
    Counted g' (attemptTimers g m timers ++ if playing m then [timerOf g m] else []) := by
  have hseen := h.observe m
  rw [gameFrameStart] at hstep
  by_cases hplay : playing m = true
  · rw [if_pos hplay]
    rw [if_neg (not_not.mpr hplay)] at hstep
    have hcounted := (countPulse_counted hseen (observe g m).2 (timerOf g m)).1
    obtain ⟨seen, hobserved⟩ : ∃ seen, observe g m = seen := ⟨_, rfl⟩
    rw [timerOf] at hcounted ⊢
    rw [hobserved] at hcounted hstep ⊢
    obtain ⟨timer, htimer⟩ : ∃ timer, seen.2.read32 (bonddataBase m + offHandsBase + handOffTimerEc) = timer := ⟨_, rfl⟩
    obtain ⟨counted, hpulse⟩ : ∃ counted, countPulse seen.1 seen.2 timer = counted := ⟨_, rfl⟩
    simp only [htimer, hpulse, Option.bind_eq_bind] at hstep hcounted ⊢
    obtain ⟨picked, -, hresult⟩ := Option.bind_eq_some_iff.mp hstep
    obtain ⟨rfl, -⟩ := Prod.mk.inj (Option.some.inj hresult)
    exact ⟨hcounted.last, hcounted.pulses, hcounted.sent⟩
  · rw [if_neg hplay, List.append_nil]
    rw [if_pos hplay] at hstep
    rw [Option.some.inj hstep] at hseen
    exact hseen

theorem gameFrameEnd_counted (h : Counted g timers) (hstep : gameFrameEnd g m = some (g', m')) : Counted g' timers := by
  rw [gameFrameEnd] at hstep
  split at hstep
  · obtain ⟨rfl, -⟩ := Prod.mk.inj (Option.some.inj hstep)
    exact h
  · obtain ⟨picked, -, hresult⟩ := Option.bind_eq_some_iff.mp hstep
    obtain ⟨rfl, -⟩ := Prod.mk.inj (Option.some.inj hresult)
    exact ⟨h.last, h.pulses, h.sent⟩

theorem Reached.counted (h : Reached g timers) : Counted g timers := by
  induction h with
  | initial => exact ⟨rfl, rfl, by simp [edges, edgesFrom, Game.initial]⟩
  | start _ hstep ih => exact gameFrameStart_counted ih hstep
  | finish _ hstep ih => exact gameFrameEnd_counted ih hstep

end Startup

end GoldenEye

end Multi64
