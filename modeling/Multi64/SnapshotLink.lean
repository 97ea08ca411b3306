import Multi64.Snapshot

/-! What a link restart does to the snapshot of `retroarch.rs`: which link
generation each window, each word a write is compared with and each write was
read on, over every interleaving of the two threads and every restart. -/

namespace Multi64

namespace RetroArch

/-- A read answered, or a run of a batch put on the console, with the link
generation its window or the words of its writes were read on. -/
inductive Outcome where
  | answered (readOn : Nat) (seen : Option Nat)
  | put (servedOn : List Nat) (sentOn : Nat)
  deriving DecidableEq

/-- Nothing of an earlier link generation. -/
def Outcome.Kept : Outcome → Prop
  | .answered readOn seen => ∀ g, seen = some g → g ≤ readOn
  | .put servedOn sentOn => ∀ g ∈ servedOn, sentOn ≤ g

/-- A restart puts another console behind the link. -/
inductive LinkEvent where
  | plain (e : Event)
  | restart (ram : Store)

/-- Whether the refreshing thread is in a request, or between two passes. The
link is its own, and restarts nowhere else. -/
def underRequest (bitwise : List (Nat × Nat)) : Refreshing → Bool
  | .idle | .writing .. => true
  | .reading bases _ _ | .rereading bases _ _ => bases ≠ []
  | .merging _ writes _ _ _ => liveWords bitwise writes ≠ []
  | .draining _ | .settling _ | .listing _ => false

/-- A session with what the code does not keep: the generation everything in it
was read on, whether a restart was followed since the word of a write was taken,
and whether one came after a part of the fetch was read. -/
structure Tracked where
  session : Session
  enteredOn : Nat
  torn : Bool
  gotOn : List Nat
  windowOn : Nat → Nat
  wordOn : Nat
  overtaken : Bool
  queuedOn : List Nat
  batchOn : List Nat
  outcomes : List Outcome

namespace Tracked

variable (rdram : Nat) (bitwise : List (Nat × Nat)) (t : Tracked)

def start (ram : Store) (linkGeneration : Nat) : Tracked where
  session := .start ram linkGeneration
  enteredOn := linkGeneration
  torn := false
  gotOn := []
  windowOn := fun _ => linkGeneration
  wordOn := linkGeneration
  overtaken := false
  queuedOn := []
  batchOn := []
  outcomes := []

/-- Whether `follow` finds the link restarted. -/
def restarted : Bool := t.session.generation ≠ none ∧ t.session.generation ≠ some t.session.linkGeneration

def followed (s : Session) : Tracked :=
  { t with
    session := s
    queuedOn := if t.restarted then [] else t.queuedOn
    overtaken := t.overtaken || t.restarted }

def installed (s : Session) (got : List (Nat × Bytes)) : Tracked :=
  { t.followed s with
    windowOn := (got.zip t.gotOn).foldl (fun on e => Function.update on e.1.1 e.2) t.windowOn }

/-- The window at hand answers a read, or gives a write its word. -/
def served (s : Session) (r : Request) : Tracked :=
  let readOn := t.windowOn (baseOf r.phys)
  match r with
  | .read _ _ => { t with session := s, outcomes := t.outcomes ++ [.answered readOn t.session.generation] }
  | .write _ _ _ => { t with session := s, wordOn := readOn, overtaken := false }

def answer (expired : Bool) : Tracked :=
  let s := t.session.answer bitwise expired
  match t.session.answering with
  | .idle => { t with session := s }
  | .asked r | .waiting r =>
    if (t.session.windows.get (baseOf r.phys)).isSome then t.served s r else { t with session := s }
  | .served .. => { t with session := s, queuedOn := t.queuedOn ++ [t.wordOn] }

/-- A batch whose link restarted is refused from there on. -/
def refresh (gone fails : Bool) : Tracked :=
  let s := t.session.refresh rdram bitwise gone fails
  let on_ := t.session.linkGeneration
  match t.session.refreshing with
  | .idle => { t.followed s with torn := false, gotOn := [] }
  | .reading _ (_ :: _) _ | .rereading _ (_ :: _) _ =>
    { t with session := s, gotOn := if fails then t.gotOn else t.gotOn ++ [on_] }
  | .reading bases [] got | .rereading bases [] got =>
    if bases = [] then { t with session := s } else t.installed s got
  | .draining _ => { t with session := s, queuedOn := [], batchOn := t.queuedOn }
  | .merging _ _ _ _ _ => { t with session := s, enteredOn := on_ }
  | .writing fresh _ _ (_ :: _) =>
    if on_ ≠ t.enteredOn then { t with session := { t.session with refreshing := .settling fresh } }
    else { t with session := s, outcomes := if fails then t.outcomes else t.outcomes ++ [.put t.batchOn on_] }
  | .writing _ _ _ [] => { t with session := s }
  | .settling _ => t.followed s
  | .listing _ => { t with session := s, torn := false, gotOn := [] }

def restart (ram : Store) : Tracked :=
  if underRequest bitwise t.session.refreshing then
    { t with
      session := { t.session with ram := ram, linkGeneration := t.session.linkGeneration + 1 }
      torn := t.torn || t.gotOn ≠ [] }
  else t

def step : LinkEvent → Tracked
  | .plain (.answer expired) => t.answer bitwise expired
  | .plain (.refresh gone fails) => t.refresh rdram bitwise gone fails
  | .plain e => { t with session := t.session.step rdram bitwise e }
  | .restart ram => t.restart bitwise ram

def run (events : List LinkEvent) : Tracked := events.foldl (step rdram bitwise) t

/-- No write is queued after a restart was followed since its word was taken, and
no fetch is installed of which a part was read before the link restarted. -/
def calm : LinkEvent → Bool
  | .plain (.answer _) => match t.session.answering with
    | .served .. => !t.overtaken
    | _ => true
  | .plain (.refresh _ _) => match t.session.refreshing with
    | .reading _ [] _ | .rereading _ [] _ => !t.torn
    | _ => true
  | _ => true

def calmRun : Tracked → List LinkEvent → Bool
  | _, [] => true
  | t, e :: events => t.calm e && calmRun (t.step rdram bitwise e) events

end Tracked

/-- Which generation what a phase of a pass holds was read on. -/
def PhaseTied (bitwise : List (Nat × Nat)) (t : Tracked) : Refreshing → Prop
  | .idle | .settling _ | .listing _ => True
  | .reading bases _ got => (t.gotOn.length = got.length ∧ (t.torn = false → ∀ g ∈ t.gotOn, g = t.session.linkGeneration)) ∧
      (bases = [] → t.session.generation = some t.session.linkGeneration)
  | .rereading _ _ got => t.gotOn.length = got.length ∧ (t.torn = false → ∀ g ∈ t.gotOn, g = t.session.linkGeneration)
  | .draining _ => t.session.generation = some t.session.linkGeneration
  | .merging _ writes readOn _ _ => (∀ g ∈ t.batchOn, g = readOn) ∧
      (liveWords bitwise writes = [] → t.session.linkGeneration = readOn)
  | .writing _ _ _ _ => ∀ g ∈ t.batchOn, g = t.enteredOn

/-- Everything the snapshot holds was read on the generation it follows. -/
structure Tied (bitwise : List (Nat × Nat)) (t : Tracked) : Prop where
  windows : ∀ base data, t.session.windows.get base = some data → t.session.generation = some (t.windowOn base)
  queued : ∀ g ∈ t.queuedOn, t.session.generation = some g
  word : ∀ addr phys client word, t.session.answering = .served addr phys client word → t.overtaken = false →
    t.session.generation = some t.wordOn
  refreshing : PhaseTied bitwise t t.session.refreshing
  outcomes : ∀ o ∈ t.outcomes, o.Kept

namespace Session

variable (s : Session)

theorem follow_generation : s.follow.generation = some s.linkGeneration := by
  unfold follow
  split <;> rfl

theorem follow_linkGeneration : s.follow.linkGeneration = s.linkGeneration := by
  unfold follow
  split <;> rfl

theorem follow_answering : s.follow.answering = s.answering := by
  unfold follow
  split <;> rfl

end Session

namespace Tracked

variable {rdram : Nat} {bitwise : List (Nat × Nat)} {t : Tracked}

/-- What `follow` keeps was read on the generation it goes on with. -/
theorem followed_kept {g : Nat} (h : t.restarted = false) (hg : t.session.generation = some g) :
    g = t.session.linkGeneration := by
  simp only [restarted, hg, decide_eq_false_iff_not] at h
  by_contra hne
  exact h ⟨Option.some_ne_none _, fun heq => hne (Option.some.inj heq)⟩

theorem follow_windows {base : Nat} {data : Bytes} (h : t.session.follow.windows.get base = some data) :
    t.restarted = false ∧ t.session.windows.get base = some data := by
  by_cases hr : t.session.generation = none ∨ t.session.generation = some t.session.linkGeneration
  · rw [Session.follow, if_pos hr] at h
    refine ⟨decide_eq_false fun hne => ?_, h⟩
    rcases hr with hr | hr
    · exact hne.1 hr
    · exact hne.2 hr
  · rw [Session.follow, if_neg hr] at h
    exact nomatch h

/-- A follow drops what was read before a restart. -/
theorem followed_tied (h : Tied bitwise t) {s : Session} (hfollow : ∃ windows wanted phase,
    s = { t.session.follow with windows := windows, wanted := wanted, refreshing := phase } ∧
      (∀ base data, windows.get base = some data → t.session.follow.windows.get base = some data))
    (hphase : PhaseTied bitwise (t.followed s) s.refreshing) : Tied bitwise (t.followed s) := by
  obtain ⟨windows, wanted, phase, rfl, hsub⟩ := hfollow
  have hgen : t.session.follow.generation = some t.session.linkGeneration := t.session.follow_generation
  refine ⟨fun base data hdata => ?_, fun g hg => ?_, fun addr phys client word hserved hnot => ?_, hphase, h.outcomes⟩
  · obtain ⟨hkept, hwas⟩ := follow_windows (hsub base data hdata)
    have hread := h.windows base data hwas
    rw [← followed_kept hkept hread] at hgen
    exact hgen
  · cases hr : t.restarted with
    | true =>
      simp only [followed, hr] at hg
      exact nomatch hg
    | false =>
      simp only [followed, hr] at hg
      have hread := h.queued g hg
      rw [← followed_kept hr hread] at hgen
      exact hgen
  · obtain ⟨hwas, hr⟩ := Bool.or_eq_false_iff.mp hnot
    have hread := h.word addr phys client word (t.session.follow_answering.symm.trans hserved) hwas
    rw [← followed_kept hr hread] at hgen
    exact hgen

theorem start_tied (ram : Store) (linkGeneration : Nat) : Tied bitwise (start ram linkGeneration) :=
  ⟨nofun, nofun, nofun, trivial, nofun⟩

/-- A step of the answering thread that leaves the windows and the queue as they are. -/
theorem waits_tied (h : Tied bitwise t) {s : Session} (hwindows : s.windows = t.session.windows)
    (hgen : s.generation = t.session.generation) (hlink : s.linkGeneration = t.session.linkGeneration)
    (hphase : s.refreshing = t.session.refreshing)
    (hanswering : ∀ addr phys client word, s.answering ≠ .served addr phys client word) :
    Tied bitwise { t with session := s } := by
  refine ⟨fun base data hdata => ?_, fun g hg => ?_, fun addr phys client word hserved _ => ?_, ?_, h.outcomes⟩
  · rw [hwindows] at hdata
    exact hgen.trans (h.windows base data hdata)
  · exact hgen.trans (h.queued g hg)
  · exact absurd hserved (hanswering addr phys client word)
  · have hp := h.refreshing
    rw [← hphase] at hp
    revert hp
    cases s.refreshing <;> simp only [PhaseTied, hgen, hlink] <;> exact id

theorem served_tied (h : Tied bitwise t) {r : Request} {data : Bytes}
    (hdata : t.session.windows.get (baseOf r.phys) = some data) :
    Tied bitwise (t.served (t.session.serve r (slice data (r.phys - baseOf r.phys) 4)) r) := by
  have hread := h.windows _ _ hdata
  cases r with
  | read addr phys =>
    refine ⟨h.windows, h.queued, nofun, h.refreshing, fun o ho => ?_⟩
    rcases List.mem_append.mp ho with ho | ho
    · exact h.outcomes o ho
    · obtain rfl := List.mem_singleton.mp ho
      intro g hg
      exact Nat.le_of_eq (Option.some.inj (hg.symm.trans hread))
  | write addr phys client => exact ⟨h.windows, h.queued, fun _ _ _ _ _ _ => hread, h.refreshing, h.outcomes⟩

/-- A write shown at once stays in the window it is in. -/
theorem push_windows {s : Session} {addr : List Char} {phys : Nat} {client word : Bytes} {base : Nat} {data : Bytes}
    (h : (s.push bitwise addr phys client word).windows.get base = some data) :
    ∃ old, s.windows.get base = some old := by
  simp only [Session.push, Session.reply] at h
  cases hold : s.windows.get (baseOf phys) with
  | none =>
    rw [hold] at h
    exact ⟨data, h⟩
  | some old =>
    by_cases hb : base = baseOf phys
    · exact ⟨old, hb ▸ hold⟩
    · rw [hold] at h
      simp only [SortedMap.get_insert_of_ne hb] at h
      exact ⟨data, h⟩

theorem answer_tied (h : Tied bitwise t) (expired : Bool) (hcalm : t.calm (.plain (.answer expired)) = true) :
    Tied bitwise (t.answer bitwise expired) := by
  unfold answer
  cases ha : t.session.answering with
  | idle =>
    simp only [Session.answer, ha]
    exact h
  | asked r =>
    cases hw : t.session.windows.get (baseOf r.phys) with
    | some data =>
      simp only [Session.answer, ha, hw]
      exact served_tied h hw
    | none =>
      simp only [Session.answer, ha, hw]
      exact waits_tied h rfl rfl rfl rfl nofun
  | waiting r =>
    cases hw : t.session.windows.get (baseOf r.phys) with
    | some data =>
      simp only [Session.answer, ha, hw]
      exact served_tied h hw
    | none =>
      simp only [Session.answer, ha, hw]
      cases expired with
      | true => exact waits_tied h rfl rfl rfl rfl nofun
      | false => exact h
  | served addr phys client word =>
    simp only [Session.answer, ha]
    simp only [calm, ha, Bool.not_eq_true'] at hcalm
    have hread := h.word addr phys client word ha hcalm
    refine ⟨fun base data hdata => ?_, fun g hg => ?_, nofun, h.refreshing, h.outcomes⟩
    · obtain ⟨old, hold⟩ := push_windows hdata
      exact h.windows base old hold
    · rcases List.mem_append.mp hg with hg | hg
      · exact h.queued g hg
      · rw [List.mem_singleton.mp hg]
        exact hread

theorem command_tied (h : Tied bitwise t) (line : String) :
    Tied bitwise { t with session := t.session.command rdram line } := by
  cases ha : t.session.answering with
  | idle =>
    cases hp : parse rdram line <;> simp only [Session.command, ha, hp]
    · exact waits_tied h rfl rfl rfl rfl nofun
    · exact waits_tied h rfl rfl rfl rfl nofun
  | asked | waiting | served =>
    simp only [Session.command, ha]
    exact h

/-- What an install puts in the snapshot was read on the generation it follows. -/
theorem installed_tied (h : Tied bitwise t) {got : List (Nat × Bytes)} {phase : Refreshing}
    (hlen : t.gotOn.length = got.length) (hgot : ∀ g ∈ t.gotOn, g = t.session.linkGeneration)
    (hphase : PhaseTied bitwise (t.installed { t.session.install got with refreshing := phase } got) phase) :
    Tied bitwise (t.installed { t.session.install got with refreshing := phase } got) := by
  have hgen : t.session.follow.generation = some t.session.linkGeneration := t.session.follow_generation
  have hf : Tied bitwise (t.followed { t.session.follow with refreshing := .settling [] }) :=
    followed_tied h ⟨t.session.follow.windows, t.session.follow.wanted, .settling [], rfl, fun _ _ hd => hd⟩ trivial
  refine ⟨?_, hf.queued, hf.word, hphase, h.outcomes⟩
  have hold : ∀ base data, t.session.follow.windows.get base = some data →
      t.windowOn base = t.session.linkGeneration := by
    intro base data hdata
    exact Option.some.inj ((hf.windows base data hdata).symm.trans hgen)
  simp only [installed, followed, Session.install, hgen, Option.some.injEq]
  revert hold hlen hgot
  generalize t.session.follow.windows = windows
  generalize t.windowOn = on_
  generalize t.gotOn = gotOn
  clear hphase hf
  induction got generalizing windows on_ gotOn with
  | nil =>
    intro _ _ hold base data hdata
    rw [List.zip_nil_left]
    exact (hold base data hdata).symm
  | cons e got ih =>
    intro hlen hgot hold
    cases gotOn with
    | nil => exact nomatch hlen
    | cons g gotOn =>
      obtain ⟨hg, hrest⟩ := List.forall_mem_cons.mp hgot
      refine ih _ _ gotOn (Nat.succ.inj hlen) hrest fun base data hdata => ?_
      by_cases hb : base = e.1
      · rw [hb]
        simp only [Function.update_self]
        exact hg
      · rw [SortedMap.get_insert_of_ne hb] at hdata
        exact (Function.update_of_ne hb _ _).trans (hold base data hdata)

/-- A step of a pass that changes neither the windows nor the queue. -/
theorem phase_tied (h : Tied bitwise t) {phase : Refreshing} {ram : Store} {enteredOn : Nat} {torn : Bool}
    {gotOn : List Nat} {outcomes : List Outcome}
    (hphase : PhaseTied bitwise
      { t with session := { t.session with ram := ram, refreshing := phase }, enteredOn := enteredOn, torn := torn,
               gotOn := gotOn, outcomes := outcomes } phase)
    (houtcomes : ∀ o ∈ outcomes, o.Kept) :
    Tied bitwise
      { t with session := { t.session with ram := ram, refreshing := phase }, enteredOn := enteredOn, torn := torn,
               gotOn := gotOn, outcomes := outcomes } :=
  ⟨h.windows, h.queued, h.word, hphase, houtcomes⟩

theorem refresh_tied (h : Tied bitwise t) (gone fails : Bool) (hcalm : t.calm (.plain (.refresh gone fails)) = true) :
    Tied bitwise (t.refresh rdram bitwise gone fails) := by
  have hfits := h.refreshing
  have hfollow : t.session.follow.generation = some t.session.linkGeneration := t.session.follow_generation
  have hlink : t.session.follow.linkGeneration = t.session.linkGeneration := t.session.follow_linkGeneration
  have gots : ∀ (got : List (Nat × Bytes)) (e : Nat × Bytes), t.gotOn.length = got.length →
      (t.torn = false → ∀ g ∈ t.gotOn, g = t.session.linkGeneration) →
      (t.gotOn ++ [t.session.linkGeneration]).length = (got ++ [e]).length ∧
        (t.torn = false → ∀ g ∈ t.gotOn ++ [t.session.linkGeneration], g = t.session.linkGeneration) := by
    intro got e hlen hgot
    refine ⟨by simp only [List.length_append, hlen, List.length_singleton], fun hwhole g hg => ?_⟩
    rcases List.mem_append.mp hg with hg | hg
    · exact hgot hwhole g hg
    · exact List.mem_singleton.mp hg
  unfold refresh
  cases hr : t.session.refreshing with
  | idle =>
    simp only [Session.refresh, hr]
    have hf := @followed_tied bitwise t h
      { t.session.follow with windows := if gone then .empty else t.session.follow.windows, wanted := [],
                              refreshing := .settling [] }
      ⟨_, _, _, rfl, fun base data hdata => by cases gone <;> [exact hdata; exact nomatch hdata]⟩ trivial
    refine ⟨hf.windows, hf.queued, hf.word, ⟨⟨rfl, fun _ => nofun⟩, fun _ => ?_⟩, hf.outcomes⟩
    exact hfollow.trans (congrArg some hlink.symm)
  | reading bases todo got =>
    rw [hr] at hfits
    simp only [Session.refresh, hr]
    cases todo with
    | cons b todo =>
      cases fails with
      | true => exact phase_tied h trivial h.outcomes
      | false => exact phase_tied h ⟨gots got _ hfits.1.1 hfits.1.2, hfits.2⟩ h.outcomes
    | nil =>
      by_cases hb : bases = []
      · simp only [if_pos hb]
        exact phase_tied h (hfits.2 hb) h.outcomes
      · simp only [if_neg hb]
        simp only [calm, hr, Bool.not_eq_true'] at hcalm
        exact installed_tied h hfits.1.1 (hfits.1.2 hcalm) (hfollow.trans (congrArg some hlink.symm))
  | rereading bases todo got =>
    rw [hr] at hfits
    simp only [Session.refresh, hr]
    cases todo with
    | cons b todo =>
      cases fails with
      | true => exact phase_tied h trivial h.outcomes
      | false => exact phase_tied h (gots got _ hfits.1 hfits.2) h.outcomes
    | nil =>
      by_cases hb : bases = []
      · simp only [if_pos hb]
        exact phase_tied h trivial h.outcomes
      · simp only [if_neg hb]
        simp only [calm, hr, Bool.not_eq_true'] at hcalm
        exact installed_tied h hfits.1 (hfits.2 hcalm) trivial
  | draining fresh =>
    rw [hr] at hfits
    simp only [Session.refresh, hr]
    have hgen : t.session.generation = some t.session.linkGeneration := hfits
    refine ⟨h.windows, nofun, h.word, ⟨fun g hg => ?_, fun _ => ?_⟩, h.outcomes⟩
    · simp only [h.queued g hg, Option.getD_some]
    · simp only [hgen, Option.getD_some]
  | merging fresh writes readOn todo live =>
    rw [hr] at hfits
    simp only [Session.refresh, hr]
    cases todo with
    | cons p todo =>
      cases fails with
      | true => exact phase_tied h trivial h.outcomes
      | false => exact phase_tied h hfits h.outcomes
    | nil =>
      by_cases hmoved : liveWords bitwise writes ≠ [] ∧ t.session.linkGeneration ≠ readOn
      · simp only [if_pos hmoved]
        exact phase_tied h trivial h.outcomes
      · simp only [if_neg hmoved]
        have hsame : t.session.linkGeneration = readOn := by
          by_cases hwords : liveWords bitwise writes = []
          · exact hfits.2 hwords
          · by_contra hne
            exact hmoved ⟨hwords, hne⟩
        exact phase_tied h (fun g hg => (hfits.1 g hg).trans hsame.symm) h.outcomes
  | writing fresh writes live runs =>
    rw [hr] at hfits
    simp only [Session.refresh, hr]
    cases runs with
    | nil =>
      cases fails with
      | true => exact phase_tied h trivial h.outcomes
      | false => exact phase_tied h trivial h.outcomes
    | cons run runs =>
      by_cases hmoved : t.session.linkGeneration ≠ t.enteredOn
      · simp only [if_pos hmoved]
        exact phase_tied h trivial h.outcomes
      · simp only [if_neg hmoved]
        cases fails with
        | true => exact phase_tied h trivial h.outcomes
        | false =>
          refine phase_tied h hfits fun o ho => ?_
          rcases List.mem_append.mp ho with ho | ho
          · exact h.outcomes o ho
          · obtain rfl := List.mem_singleton.mp ho
            intro g hg
            rw [hfits g hg]
            exact Nat.le_of_eq (not_not.mp hmoved)
  | settling fresh =>
    simp only [Session.refresh, hr]
    exact followed_tied h ⟨_, _, _, rfl, fun _ _ hd => hd⟩ trivial
  | listing fresh =>
    simp only [Session.refresh, hr]
    exact phase_tied h ⟨rfl, fun _ => nofun⟩ h.outcomes

theorem restart_tied (h : Tied bitwise t) (ram : Store) : Tied bitwise (t.restart bitwise ram) := by
  unfold restart
  by_cases hu : underRequest bitwise t.session.refreshing = true
  · rw [if_pos hu]
    refine ⟨h.windows, h.queued, h.word, ?_, h.outcomes⟩
    have hfits := h.refreshing
    have unread : ∀ {gots : List Nat}, (t.torn || decide (gots ≠ [])) = false → gots = [] := by
      intro gots hwhole
      by_contra hne
      rw [decide_eq_true hne, Bool.or_true] at hwhole
      exact nomatch hwhole
    revert hfits hu
    cases hr : t.session.refreshing with
    | idle | draining | settling | listing => exact fun hu hfits => by first | exact trivial | exact nomatch hu
    | reading bases todo got =>
      intro hu hfits
      refine ⟨⟨hfits.1.1, fun hwhole g hg => ?_⟩, fun hb => absurd hb (of_decide_eq_true hu)⟩
      rw [unread hwhole] at hg
      exact nomatch hg
    | rereading bases todo got =>
      intro hu hfits
      refine ⟨hfits.1, fun hwhole g hg => ?_⟩
      rw [unread hwhole] at hg
      exact nomatch hg
    | merging fresh writes readOn todo live =>
      intro hu hfits
      exact ⟨hfits.1, fun hwords => absurd hwords (of_decide_eq_true hu)⟩
    | writing fresh writes live runs => exact fun _ hfits => hfits
  · rw [if_neg hu]
    exact h

theorem step_tied (h : Tied bitwise t) (e : LinkEvent) (hcalm : t.calm e = true) : Tied bitwise (t.step rdram bitwise e) := by
  cases e with
  | restart ram => exact restart_tied h ram
  | plain e =>
    cases e with
    | command line => exact command_tied h line
    | answer expired => exact answer_tied h expired hcalm
    | refresh gone fails => exact refresh_tied h gone fails hcalm
    | game ram => exact phase_tied h h.refreshing h.outcomes

theorem run_tied (h : Tied bitwise t) (events : List LinkEvent) (hcalm : t.calmRun rdram bitwise events = true) :
    Tied bitwise (t.run rdram bitwise events) := by
  induction events generalizing t with
  | nil => exact h
  | cons e events ih =>
    obtain ⟨hstep, hrest⟩ := Bool.and_eq_true_iff.mp hcalm
    exact ih (step_tied h e hstep) hrest

/-- In every interleaving in which no restart is followed between the two locks
of a write, and the link restarts under no fetch a part of which was read, no
write is put on a later link generation than its word was read on, and no read
is answered from an earlier one than the snapshot follows. -/
theorem run_kept (rdram : Nat) (bitwise : List (Nat × Nat)) (ram : Store) (linkGeneration : Nat)
    (events : List LinkEvent) (hcalm : (start ram linkGeneration).calmRun rdram bitwise events = true) :
    ∀ o ∈ ((start ram linkGeneration).run rdram bitwise events).outcomes, o.Kept :=
  (run_tied (start_tied ram linkGeneration) events hcalm).outcomes

private def noRam : Store := fun _ => 0

/-- A pass that reads `n` windows and puts on `runs` runs. -/
private def pass (n runs : Nat) : List LinkEvent := List.replicate (8 + n + runs) (.plain (.refresh false false))

private def asks (line : String) : List LinkEvent := [.plain (.command line), .plain (.answer false)]

private def setsByte : String := "WRITE_CORE_MEMORY A0000004 00 00 00 01"

/-- The client is served a window, writes into it and reads it again once the
link restarted between two passes. -/
private def reboots : List LinkEvent :=
  asks "READ_CORE_MEMORY A0000004 4" ++ pass 1 0 ++ [.plain (.answer false)] ++ asks setsByte ++
    [.plain (.answer false)] ++ pass 1 1 ++ [.restart noRam] ++ pass 1 0 ++ asks "READ_CORE_MEMORY A0000004 4"

/-- A restart is followed between the two locks of a write. -/
private def overtakes : List LinkEvent :=
  asks "READ_CORE_MEMORY A0000004 4" ++ pass 1 0 ++ [.plain (.answer false)] ++ asks setsByte ++ [.restart noRam] ++
    pass 1 0 ++ [.plain (.answer false)] ++ pass 1 1

/-- One window more than a request carries, and the link restarts before the
request for the last. -/
private def tears : List LinkEvent :=
  ((List.range 32).flatMap fun i =>
    asks ("READ_CORE_MEMORY " ++ String.ofList (Nat.toDigits 16 (i * window)) ++ " 4") ++ [.plain (.answer true)]) ++
    List.replicate 32 (.plain (.refresh false false)) ++ [.restart noRam] ++ pass 0 0 ++ asks "READ_CORE_MEMORY 0 4"

theorem run_kept_reboots :
    ((start noRam 0).run 8 [] reboots).outcomes = [.answered 0 (some 0), .put [0] 0, .answered 1 (some 1)] ∧
      ∀ o ∈ ((start noRam 0).run 8 [] reboots).outcomes, o.Kept :=
  ⟨by decide +kernel, run_kept 8 [] noRam 0 reboots (by decide +kernel)⟩

/-- A write goes to the console that booted after its word was read, and a read
is answered from a window of the one before. -/
theorem earlier_link_reached :
    (∃ o ∈ ((start noRam 0).run 8 [] overtakes).outcomes, ¬o.Kept) ∧
      ∃ o ∈ ((start noRam 0).run 0x2000 [] tears).outcomes, ¬o.Kept := by
  constructor
  · have hput : ((start noRam 0).run 8 [] overtakes).outcomes = [.answered 0 (some 0), .put [0] 1] := by
      decide +kernel
    rw [hput]
    exact ⟨.put [0] 1, by simp, fun h => nomatch h 0 List.mem_cons_self⟩
  · have hanswered : ((start noRam 0).run 0x2000 [] tears).outcomes = [.answered 0 (some 1)] := by
      decide +kernel
    rw [hanswered]
    exact ⟨.answered 0 (some 1), by simp, fun h => nomatch h 1 rfl⟩

end Tracked

end RetroArch

end Multi64
