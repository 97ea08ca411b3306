import Mathlib
import Multi64.SnapshotMerge

/-! Whose bytes a refresh puts on the console, over every interleaving of the
answering thread, the refreshing thread and the game. -/

namespace Multi64

namespace RetroArch

/-- A word of RDRAM. -/
def Placed (rdram phys : Nat) : Prop := phys % 4 = 0 ∧ phys + 4 ≤ rdram

section Parse

theorem mapM_length {α β : Type} {f : α → Option β} (l : List α) {l' : List β} (h : l.mapM f = some l') :
    l'.length = l.length := by
  induction l generalizing l' with
  | nil =>
    obtain rfl := Option.some.inj h
    rfl
  | cons x l ih =>
    simp only [List.mapM_cons, Option.bind_eq_bind, Option.bind_eq_some_iff, Option.pure_def, Option.some.injEq] at h
    obtain ⟨y, _, ys, hys, rfl⟩ := h
    rw [List.length_cons, List.length_cons, ih hys]

/-- What a request that passes the checks is about. -/
def Request.Fits (rdram : Nat) (r : Request) : Prop :=
  Placed rdram r.phys ∧ ∀ addr phys client, r = .write addr phys client → client.length = 4

theorem parse_fits {rdram : Nat} {line : String} {r : Request} (h : parse rdram line = .ok r) : r.Fits rdram := by
  unfold parse at h
  split at h
  next cmd addr rest _ =>
    split at h
    · cases h
    next a _ =>
      simp only at h
      by_cases hbad : a % 2 ^ 29 % 4 ≠ 0 ∨ rdram < a % 2 ^ 29 + 4
      · rw [if_pos hbad] at h
        cases h
      · rw [if_neg hbad] at h
        have hplaced : Placed rdram (a % 2 ^ 29) := ⟨by omega, by omega⟩
        split at h
        · obtain rfl := Except.ok.inj h
          exact ⟨hplaced, (by intros; contradiction)⟩
        · split at h
          next hwrite =>
            split at h
            · cases h
            next le hle =>
              obtain rfl := Except.ok.inj h
              refine ⟨hplaced, fun _ _ client hc => ?_⟩
              injection hc with _ _ hclient
              rw [← hclient, List.length_map, List.length_reverse, mapM_length rest hle, hwrite.2]
          · cases h
  · cases h

end Parse

section Windows

variable {rdram : Nat} {writes : List Write} {w : Write} {base : Nat} {data : Bytes}

/-- A word lies within its window. -/
theorem Placed.inWindow {phys : Nat} (h : Placed rdram phys) :
    baseOf phys ≤ phys ∧ phys - baseOf phys + 4 ≤ min window (rdram - baseOf phys) := by
  obtain ⟨hword, hin⟩ := h
  have hw : window = 256 := rfl
  rw [baseOf, hw]
  omega

/-- Two words of one window do not overlap. -/
theorem Placed.apart {p q : Nat} (hp : Placed rdram p) (hq : Placed rdram q) (hne : p ≠ q) (hb : baseOf p = baseOf q) :
    p - baseOf p + 4 ≤ q - baseOf q ∨ q - baseOf q + 4 ≤ p - baseOf p := by
  have hpw := hp.inWindow
  have hqw := hq.inWindow
  have hpm := hp.1
  have hqm := hq.1
  omega

/-- A window shows the last of the writes to each of its words. -/
def Shows (writes : List Write) (base : Nat) (data : Bytes) : Prop :=
  ∀ phys w, lastFor writes phys = some w → baseOf phys = base → slice data (phys - base) 4 = w.client

theorem lastFor_mem {phys : Nat} (h : lastFor writes phys = some w) : w ∈ writes ∧ w.phys = phys := by
  have hmem := List.mem_filter.mp (List.mem_of_getLast? h)
  exact ⟨hmem.1, of_decide_eq_true hmem.2⟩

theorem Shows.nil (base : Nat) (data : Bytes) : Shows [] base data := fun _ _ h => nomatch h

/-- One more write laid over a window. -/
theorem Shows.snoc (h : Shows writes base data) (hlen : data.length = min window (rdram - base))
    (hplaced : ∀ w ∈ writes, Placed rdram w.phys) (hw : Placed rdram w.phys) (hclient : w.client.length = 4) :
    (Session.overlay [w] base data).length = data.length ∧ Shows (writes ++ [w]) base (Session.overlay [w] base data) := by
  rw [Session.overlay, List.foldl_cons, List.foldl_nil]
  by_cases hb : baseOf w.phys = base
  · rw [if_pos hb]
    have hin := hw.inWindow
    rw [hb, ← hlen, ← hclient] at hin
    refine ⟨overwrite_length hin.2, fun phys w' hl hbase => ?_⟩
    by_cases hphys : w.phys = phys
    · subst hphys
      rw [lastFor_snoc_self] at hl
      obtain rfl := Option.some.inj hl
      rw [← hclient]
      exact slice_overwrite hin.2
    · rw [lastFor_snoc_of_ne hphys] at hl
      obtain ⟨hmem, hw'⟩ := lastFor_mem hl
      have hold := h phys w' hl hbase
      have hapart := (hplaced w' hmem).apart hw (fun heq => hphys (heq.symm.trans hw')) (by rw [hw', hbase, hb])
      rw [hw', hbase, hb] at hapart
      rcases hapart with hbefore | hbehind
      · rw [slice_overwrite_before (by omega) hbefore, hold]
      · rw [slice_overwrite_behind hin.2 (by omega), hold]
  · rw [if_neg hb]
    refine ⟨rfl, fun phys w' hl hbase => ?_⟩
    have hphys : w.phys ≠ phys := fun heq => hb (heq ▸ hbase)
    rw [lastFor_snoc_of_ne hphys] at hl
    exact h phys w' hl hbase

/-- The queue laid over what came back from the console. -/
theorem overlay_shows (hplaced : ∀ w ∈ writes, Placed rdram w.phys ∧ w.client.length = 4)
    (hlen : data.length = min window (rdram - base)) :
    (Session.overlay writes base data).length = data.length ∧ Shows writes base (Session.overlay writes base data) := by
  induction writes using List.reverseRecOn with
  | nil => exact ⟨rfl, .nil _ _⟩
  | append_singleton writes w ih =>
    have hbefore : ∀ w ∈ writes, Placed rdram w.phys ∧ w.client.length = 4 :=
      fun t ht => hplaced t (List.mem_append_left _ ht)
    have hlast := hplaced w (by simp)
    obtain ⟨hl, hs⟩ := ih hbefore
    have hnext := hs.snoc (hl.trans hlen) (fun t ht => (hbefore t ht).1) hlast.1 hlast.2
    rw [Session.overlay, List.foldl_append]
    exact ⟨hnext.1.trans hl, hnext.2⟩

end Windows

/-- Writes as the answering thread queues them. -/
structure Batch (rdram : Nat) (bitwise : List (Nat × Nat)) (stale : Bool) (writes : List Write) : Prop where
  placed : ∀ w ∈ writes, Placed rdram w.phys ∧ w.client.length = 4
  hands : stale = false → ∀ w ∈ writes, handsBack bitwise w = true
  linked : Linked writes

/-- Every byte a bitwise change needs has been read. -/
def Covers (bitwise : List (Nat × Nat)) (writes : List Write) (todo : List Nat) (live : SortedMap Nat UInt8) : Prop :=
  ∀ p ∈ liveWords bitwise writes, p ∈ todo ∨ ∀ i < 4, live.get (p + i) ≠ none

def AnswerFits (rdram : Nat) (writes : List Write) : Answering → Prop
  | .idle => True
  | .asked r | .waiting r => r.Fits rdram
  | .served _ phys client word => (Placed rdram phys ∧ client.length = 4) ∧
      ∀ w, lastFor writes phys = some w → word = w.client

def Got (rdram : Nat) (got : List (Nat × Bytes)) : Prop := ∀ e ∈ got, e.2.length = min window (rdram - e.1)

def RefreshFits (rdram : Nat) (bitwise : List (Nat × Nat)) (stale : Bool) : Refreshing → Prop
  | .reading _ _ got | .rereading _ _ got => Got rdram got
  | .merging _ writes _ todo live => Batch rdram bitwise stale writes ∧ Covers bitwise writes todo live
  | .writing _ writes live runs => (Batch rdram bitwise stale writes ∧ Covers bitwise writes [] live) ∧
      ∀ run ∈ runs, run ∈ toRuns (merge bitwise live writes)
  | _ => True

theorem AnswerFits.nil {rdram : Nat} {writes : List Write} {a : Answering} (h : AnswerFits rdram writes a) : AnswerFits rdram [] a := by
  cases a with
  | idle | asked | waiting => exact h
  | served addr phys client word => exact ⟨h.1, nofun⟩

theorem RefreshFits.stale {rdram : Nat} {bitwise : List (Nat × Nat)} {stale b : Bool} {r : Refreshing} (h : RefreshFits rdram bitwise stale r) :
    RefreshFits rdram bitwise (stale || b) r := by
  have hbatch : ∀ writes, Batch rdram bitwise stale writes → Batch rdram bitwise (stale || b) writes :=
    fun writes hb => ⟨hb.placed, fun hs => hb.hands (Bool.or_eq_false_iff.mp hs).1, hb.linked⟩
  cases r with
  | idle | draining | settling | listing => trivial
  | reading | rereading => exact h
  | merging fresh writes readOn todo live => exact ⟨hbatch _ h.1, h.2⟩
  | writing fresh writes live runs => exact ⟨⟨hbatch _ h.1.1, h.1.2⟩, h.2⟩

structure Sound (rdram : Nat) (bitwise : List (Nat × Nat)) (s : Session) : Prop where
  queue : Batch rdram bitwise s.stale s.writes
  windows : ∀ base data, s.windows.get base = some data →
    data.length = min window (rdram - base) ∧ Shows s.writes base data
  answering : AnswerFits rdram s.writes s.answering
  refreshing : RefreshFits rdram bitwise s.stale s.refreshing

namespace Session

variable {rdram : Nat} {bitwise : List (Nat × Nat)} {s : Session}

theorem start_sound (ram : Store) (linkGeneration : Nat) : Sound rdram bitwise (start ram linkGeneration) :=
  ⟨⟨nofun, fun _ => nofun, .nil⟩, nofun, trivial, trivial⟩

theorem follow_sound (h : Sound rdram bitwise s) : Sound rdram bitwise s.follow := by
  unfold follow
  split
  · exact ⟨h.queue, h.windows, h.answering, h.refreshing⟩
  · exact ⟨⟨nofun, fun _ => nofun, .nil⟩, nofun, h.answering.nil, h.refreshing⟩

theorem command_sound (h : Sound rdram bitwise s) (line : String) : Sound rdram bitwise (s.command rdram line) := by
  unfold command
  split
  · split
    · exact ⟨h.queue, h.windows, trivial, h.refreshing⟩
    next r hr => exact ⟨h.queue, h.windows, parse_fits hr, h.refreshing⟩
  · exact h

theorem serve_sound (h : Sound rdram bitwise s) {r : Request} {data : Bytes} (hr : r.Fits rdram)
    (hdata : s.windows.get (baseOf r.phys) = some data) :
    Sound rdram bitwise (s.serve r (slice data (r.phys - baseOf r.phys) 4)) := by
  cases r with
  | read addr phys => exact ⟨h.queue, h.windows, trivial, h.refreshing⟩
  | write addr phys client =>
    have hshown := (h.windows _ _ hdata).2
    exact ⟨h.queue, h.windows, ⟨⟨hr.1, hr.2 addr phys client rfl⟩, fun w hw => hshown phys w hw rfl⟩, h.refreshing⟩

theorem push_sound (h : Sound rdram bitwise s) {addr : List Char} {phys : Nat} {client word : Bytes}
    (hplaced : Placed rdram phys) (hclient : client.length = 4)
    (hword : ∀ w, lastFor s.writes phys = some w → word = w.client) :
    Sound rdram bitwise (s.push bitwise addr phys client word) := by
  let w : Write := ⟨phys, word, client, s.answered phys⟩
  constructor
  · refine ⟨fun t ht => ?_, fun hs t ht => ?_, .snoc s.writes w h.queue.linked hword⟩
    · rcases List.mem_append.mp ht with ht | ht
      · exact h.queue.placed t ht
      · obtain rfl := List.mem_singleton.mp ht
        exact ⟨hplaced, hclient⟩
    · obtain ⟨hold, hnew⟩ := Bool.or_eq_false_iff.mp hs
      rcases List.mem_append.mp ht with ht | ht
      · exact h.queue.hands hold t ht
      · obtain rfl := List.mem_singleton.mp ht
        simpa using hnew
  · intro base data hdata
    have hsnoc : ∀ data, s.windows.get base = some data →
        (overlay [w] base data).length = min window (rdram - base) ∧ Shows (s.writes ++ [w]) base (overlay [w] base data) := by
      intro data hd
      obtain ⟨hlen, hshows⟩ := h.windows base data hd
      have hnext := hshows.snoc hlen (fun t ht => (h.queue.placed t ht).1) (w := w) hplaced hclient
      exact ⟨hnext.1.trans hlen, hnext.2⟩
    simp only [overlay, List.foldl_cons, List.foldl_nil] at hsnoc
    simp only [push, reply] at hdata ⊢
    by_cases hb : baseOf phys = base
    · subst hb
      simp only [w, if_true] at hsnoc
      cases hold : s.windows.get (baseOf phys) with
      | none =>
        rw [hold] at hdata
        cases hold.symm.trans hdata
      | some old =>
        rw [hold] at hdata
        simp only [SortedMap.get_insert_self, Option.some.injEq] at hdata
        subst hdata
        exact hsnoc old hold
    · simp only [w, if_neg hb] at hsnoc
      refine hsnoc data ?_
      revert hdata
      cases s.windows.get (baseOf phys) with
      | none => exact id
      | some old =>
        simp only [SortedMap.get_insert_of_ne (Ne.symm hb)]
        exact id
  · exact trivial
  · exact h.refreshing.stale

theorem answer_sound (h : Sound rdram bitwise s) (expired : Bool) : Sound rdram bitwise (s.answer bitwise expired) := by
  have hfits := h.answering
  unfold answer
  split
  · exact h
  next r hr =>
    rw [hr] at hfits
    simp only
    split
    next data hdata => exact serve_sound h hfits hdata
    · exact ⟨h.queue, h.windows, hfits, h.refreshing⟩
  next r hr =>
    rw [hr] at hfits
    simp only
    split
    next data hdata => exact serve_sound h hfits hdata
    · split
      · exact ⟨h.queue, h.windows, trivial, h.refreshing⟩
      · exact h
  next addr phys client word hr =>
    rw [hr] at hfits
    exact push_sound h hfits.1.1 hfits.1.2 hfits.2

theorem install_sound (h : Sound rdram bitwise s) {got : List (Nat × Bytes)} (hgot : Got rdram got) :
    Sound rdram bitwise (s.install got) := by
  have hf := follow_sound h
  refine ⟨hf.queue, ?_, hf.answering, hf.refreshing⟩
  simp only [install]
  have hstart := hf.windows
  revert hstart
  generalize s.follow.windows = windows
  induction got generalizing windows with
  | nil => exact fun hstart => hstart
  | cons e got ih =>
    intro hstart
    obtain ⟨he, hrest⟩ := List.forall_mem_cons.mp hgot
    refine ih hrest _ fun base data hdata => ?_
    by_cases hb : base = e.1
    · subst hb
      rw [SortedMap.get_insert_self, Option.some.injEq] at hdata
      subst hdata
      have hlaid := overlay_shows hf.queue.placed he
      exact ⟨hlaid.1.trans he, hlaid.2⟩
    · rw [SortedMap.get_insert_of_ne hb] at hdata
      exact hstart base data hdata

theorem got_snoc {got : List (Nat × Bytes)} (h : Got rdram got) (s : Session) (b : Nat) :
    Got rdram (got ++ [s.readWindow rdram b]) := by
  intro e he
  rcases List.mem_append.mp he with he | he
  · exact h e he
  · obtain rfl := List.mem_singleton.mp he
    exact Store.read_length ..

theorem insertLive_get (live : SortedMap Nat UInt8) (p : Nat) (data : Bytes) :
    (∀ i < 4, (insertLive live p data).get (p + i) ≠ none) ∧
      ∀ a, live.get a ≠ none → (insertLive live p data).get a ≠ none := by
  have hfold : ∀ (is : List Nat) (live : SortedMap Nat UInt8) (a : Nat), live.get a ≠ none ∨ (∃ i ∈ is, a = p + i) →
      (is.foldl (fun live i => live.insert (p + i) (byteAt data i)) live).get a ≠ none := by
    intro is
    induction is with
    | nil =>
      intro live a h
      simpa using h
    | cons i is ih =>
      intro live a h
      refine ih _ a ?_
      by_cases ha : a = p + i
      · rw [ha, SortedMap.get_insert_self]
        exact .inl (Option.some_ne_none _)
      · rw [SortedMap.get_insert_of_ne ha]
        rcases h with h | ⟨j, hj, hja⟩
        · exact .inl h
        · rcases List.mem_cons.mp hj with rfl | hj
          · exact absurd hja ha
          · exact .inr ⟨j, hj, hja⟩
  constructor
  · exact fun i hi => hfold _ live _ (.inr ⟨i, List.mem_range.mpr hi, rfl⟩)
  · exact fun a ha => hfold _ live a (.inl ha)

theorem refresh_sound (h : Sound rdram bitwise s) (gone fails : Bool) :
    Sound rdram bitwise (s.refresh rdram bitwise gone fails) := by
  have idle : Sound rdram bitwise { s with refreshing := .idle } := ⟨h.queue, h.windows, h.answering, trivial⟩
  have hfits := h.refreshing
  unfold refresh
  split
  · have hf := follow_sound h
    refine ⟨hf.queue, fun base data hdata => ?_, hf.answering, nofun⟩
    cases gone with
    | true => exact nomatch hdata
    | false => exact hf.windows base data hdata
  next fresh b todo got hr =>
    rw [hr] at hfits
    split
    · exact idle
    · exact ⟨h.queue, h.windows, h.answering, got_snoc hfits s b⟩
  next fresh got hr =>
    rw [hr] at hfits
    split
    · exact ⟨h.queue, h.windows, h.answering, trivial⟩
    · have hi := install_sound h hfits
      exact ⟨hi.queue, hi.windows, hi.answering, trivial⟩
  next fresh hr =>
    refine ⟨⟨nofun, fun _ => nofun, .nil⟩, fun base data hdata => ?_, h.answering.nil, h.queue, fun p hp => .inl hp⟩
    exact ⟨(h.windows base data hdata).1, .nil _ _⟩
  next fresh writes readOn p todo live hr =>
    rw [hr] at hfits
    split
    · exact idle
    · refine ⟨h.queue, h.windows, h.answering, hfits.1, fun q hq => ?_⟩
      obtain ⟨hnew, hkept⟩ := insertLive_get live p (s.ram.read p 4)
      rcases hfits.2 q hq with hmem | hread
      · rcases List.mem_cons.mp hmem with rfl | hmem
        · exact .inr hnew
        · exact .inl hmem
      · exact .inr fun i hi => hkept _ (hread i hi)
  next fresh writes readOn live hr =>
    rw [hr] at hfits
    split
    · exact ⟨h.queue, h.windows, h.answering, trivial⟩
    · exact ⟨h.queue, h.windows, h.answering, hfits, fun run hrun => hrun⟩
  next fresh writes live run runs hr =>
    rw [hr] at hfits
    split
    · exact idle
    · exact ⟨h.queue, h.windows, h.answering, hfits.1, fun r hrun => hfits.2 r (List.mem_cons_of_mem _ hrun)⟩
  next fresh writes live hr =>
    cases fails with
    | true => exact idle
    | false => exact ⟨h.queue, h.windows, h.answering, trivial⟩
  next fresh hr =>
    have hf := follow_sound h
    exact ⟨hf.queue, hf.windows, hf.answering, trivial⟩
  next fresh hr => exact ⟨h.queue, h.windows, h.answering, nofun⟩
  next rest b todo got hr =>
    rw [hr] at hfits
    split
    · exact idle
    · exact ⟨h.queue, h.windows, h.answering, got_snoc hfits s b⟩
  next rest got hr =>
    rw [hr] at hfits
    split
    · exact idle
    · have hi := install_sound h hfits
      exact ⟨hi.queue, hi.windows, hi.answering, trivial⟩

theorem step_sound (h : Sound rdram bitwise s) (e : Event) : Sound rdram bitwise (s.step rdram bitwise e) := by
  cases e with
  | command line => exact command_sound h line
  | answer expired => exact answer_sound h expired
  | refresh gone fails => exact refresh_sound h gone fails
  | game ram => exact ⟨h.queue, h.windows, h.answering, h.refreshing⟩

theorem run_sound (h : Sound rdram bitwise s) (events : List Event) : Sound rdram bitwise (s.run rdram bitwise events) := by
  induction events generalizing s with
  | nil => exact h
  | cons e events ih => exact ih (step_sound h e)

end Session

section Own

variable {rdram : Nat} {bitwise : List (Nat × Nat)} {writes : List Write} {live : SortedMap Nat UInt8} {a k : Nat}

theorem latest_eq (writes : List Write) (a : Nat) : latest writes a = lastFor writes (a - a % 4) := rfl

/-- A byte a write has other than it was served it has other than the client was
answered, unless it handed back something that was gone. -/
theorem Touched.differs (h : Touched bitwise writes a k) (hk : k < 8)
    (hands : ∀ w ∈ writes, handsBack bitwise w = true) : ∃ w ∈ writes, Differs bitwise a k w := by
  obtain ⟨w, hw, hword, hdiff⟩ := h
  refine ⟨w, hw, hword, fun known hknown => ?_⟩
  have hback := hands w hw
  have hat : w.phys + a % 4 = a := by omega
  simp only [handsBack, hknown, List.all_eq_true, List.mem_range, Bool.or_eq_true, Bool.not_eq_true'] at hback
  have hbyte := hback (a % 4) (Nat.mod_lt _ (by omega)) k hk
  rw [hat] at hbyte
  rcases hbyte with hnot | hserved
  · exact hnot
  · by_contra hsame
    have hclient := agree_trans (Bool.of_not_eq_false hsame) (agree_symm hserved)
    exact Bool.noConfusion (hclient.symm.trans hdiff)

theorem mem_liveWords {w : Write} {i : Nat} (hw : w ∈ writes) (hi : i ∈ changed w)
    (hf : flag bitwise (w.phys + i) = true) : w.phys ∈ liveWords bitwise writes := by
  rw [liveWords, List.mem_dedup, (List.perm_insertionSort _ _).mem_iff]
  exact List.mem_map.mpr ⟨w, List.mem_filter.mpr ⟨hw, List.any_eq_true.mpr ⟨i, hi, hf⟩⟩, rfl⟩

/-- A run put on the console is the client's own, but for bits of a bitwise byte
that are put back as they were read. -/
theorem run_own (hb : Batch rdram bitwise false writes) (hc : Covers bitwise writes [] live) {run : Nat × Bytes}
    (hr : run ∈ toRuns (merge bitwise live writes)) (ram : Store) (hk : k < 8) :
    ClientsOwn bitwise writes a k (ram a) (ram.write run.1 run.2 a) ∨
      flag bitwise a = true ∧ ∃ b, live.get a = some b ∧ agree bitwise a k (ram.write run.1 run.2 a) b = true := by
  by_cases hin : run.1 ≤ a ∧ a < run.1 + run.2.length
  · obtain ⟨i, rfl⟩ := Nat.exists_eq_add_of_le hin.1
    have hi : i < run.2.length := by omega
    rw [Store.write_inside _ _ hi]
    have hread : ∀ w ∈ writes, ∀ j ∈ changed w, flag bitwise (w.phys + j) = true → live.get (w.phys + j) ≠ none := by
      intro w hw j hj hf
      rcases hc _ (mem_liveWords hw hj hf) with hnone | hall
      · exact nomatch hnone
      · exact hall j (mem_changed.mp hj).1
    have hsettled := merge_settled hk hb.linked (fun w hw => (hb.placed w hw).1.1) hread (mem_toRuns hr hi)
    rcases hsettled with ⟨htouched, hlast⟩ | hlive
    · exact .inl (.inr ⟨htouched.differs hk (hb.hands rfl), hlast⟩)
    · exact .inr hlive
  · rw [Store.write_outside _ _ (by omega)]
    exact .inl (.inl (agree_refl _))

theorem follow_ram (s : Session) : s.follow.ram = s.ram := by
  unfold Session.follow
  split <;> rfl

/-- Nothing but a run of a batch puts anything on the console. -/
theorem refresh_ram (s : Session) (gone fails : Bool) :
    (∃ fresh writes live run runs, s.refreshing = .writing fresh writes live (run :: runs) ∧
      (s.refresh rdram bitwise gone fails).ram = s.ram.write run.1 run.2) ∨
      (s.refresh rdram bitwise gone fails).ram = s.ram := by
  unfold Session.refresh
  split
  · exact .inr (follow_ram s)
  · split <;> exact .inr rfl
  · split
    · exact .inr rfl
    · exact .inr (follow_ram s)
  · exact .inr rfl
  · split <;> exact .inr rfl
  · split <;> exact .inr rfl
  next fresh writes live run runs hr =>
    cases fails with
    | true => exact .inr rfl
    | false => exact .inl ⟨fresh, writes, live, run, runs, hr, rfl⟩
  · exact .inr rfl
  · exact .inr (follow_ram s)
  · exact .inr rfl
  · split <;> exact .inr rfl
  · split
    · exact .inr rfl
    · exact .inr (follow_ram s)

/-- In every interleaving in which no write handed back something the snapshot
no longer held, a step of a refresh changes only what is the client's own, but
for bits of a bitwise byte that it puts back as it read them. -/
theorem refresh_own (rdram : Nat) (bitwise : List (Nat × Nat)) (ram : Store) (linkGeneration : Nat)
    (events : List Event) (gone fails : Bool) {a k : Nat} (hk : k < 8)
    (hs : ((Session.start ram linkGeneration).run rdram bitwise events).stale = false) :
    let s := (Session.start ram linkGeneration).run rdram bitwise events
    let s' := s.step rdram bitwise (.refresh gone fails)
    ClientsOwn bitwise s.refreshing.batch a k (s.ram a) (s'.ram a) ∨
      flag bitwise a = true ∧ ∃ b, s.refreshing.live.get a = some b ∧ agree bitwise a k (s'.ram a) b = true := by
  intro s s'
  have h : Sound rdram bitwise s := Session.run_sound (Session.start_sound ram linkGeneration) events
  rcases @refresh_ram rdram bitwise s gone fails with ⟨fresh, writes, live, run, runs, hr, hram⟩ | hsame
  · have hfits := h.refreshing
    have hstale : s.stale = false := hs
    rw [hr, hstale] at hfits
    have hs' : s'.ram = s.ram.write run.1 run.2 := hram
    rw [hr, hs']
    exact run_own hfits.1.1 hfits.1.2 (hfits.2 run List.mem_cons_self) s.ram hk
  · have hs' : s'.ram = s.ram := hsame
    rw [hs']
    exact .inl (.inl (agree_refl _))

private def oneBit : Store := fun a => if a = 0 then 1 else 0

/-- The client sets the second bit of a byte, and the game makes it `put` just
before the refresh writes. -/
private def racing (put : UInt8) : List Event :=
  [.command "READ_CORE_MEMORY A0000000 4", .answer false, .refresh false false, .refresh false false,
    .refresh false false, .answer false, .command "WRITE_CORE_MEMORY A0000000 00 00 00 03", .answer false,
    .answer false, .refresh false false, .refresh false false, .refresh false false, .game (oneBit.write 0 [put])]

theorem refresh_own_calm :
    let s := (Session.start oneBit 0).run 8 [(0, 4)] (racing 1)
    let s' := s.step 8 [(0, 4)] (.refresh false false)
    s.ram 0 = 1 ∧ s'.ram 0 = 3 ∧ (ClientsOwn [(0, 4)] s.refreshing.batch 0 1 (s.ram 0) (s'.ram 0) ∨
      flag [(0, 4)] 0 = true ∧ ∃ b, s.refreshing.live.get 0 = some b ∧ agree [(0, 4)] 0 1 (s'.ram 0) b = true) :=
  ⟨by decide +kernel, by decide +kernel,
    refresh_own 8 [(0, 4)] oneBit 0 (racing 1) false false (by decide) (by decide +kernel)⟩

/-- The client changes one byte of a word in which the game changed another
after the client read it, and before the snapshot was refreshed. -/
private def movedOn : List Event :=
  [.command "READ_CORE_MEMORY A0000004 4", .answer false] ++ List.replicate 3 (.refresh false false) ++
    [.answer false, .game (oneBit.write 5 [7])] ++ List.replicate 15 (.refresh false false) ++
    [.command "WRITE_CORE_MEMORY A0000004 00 00 00 01", .answer false, .answer false] ++
    List.replicate 4 (.refresh false false)

/-- A byte the client handed back as it was answered is put over the game's, and
a bit the game sets between the refresh's read and its write is lost. -/
theorem games_own_lost :
    (let s := (Session.start oneBit 0).run 8 [(0, 4)] movedOn
      let s' := s.step 8 [(0, 4)] (.refresh false false)
      s.ram 5 = 7 ∧ s'.ram 5 = 0 ∧ ¬ClientsOwn [(0, 4)] s.refreshing.batch 5 0 (s.ram 5) (s'.ram 5)) ∧
    (let s := (Session.start oneBit 0).run 8 [(0, 4)] (racing 5)
      let s' := s.step 8 [(0, 4)] (.refresh false false)
      s.ram 0 = 5 ∧ s'.ram 0 = 3 ∧ ¬ClientsOwn [(0, 4)] s.refreshing.batch 0 2 (s.ram 0) (s'.ram 0)) := by
  -- The one write of the batch has the byte as the client was answered.
  have lost : ∀ (s s' : Session) (a k : Nat) (before after : UInt8), s.ram a = before → s'.ram a = after →
      agree [(0, 4)] a k after before = false →
      (∀ w ∈ s.refreshing.batch, ∃ known ∈ w.known,
        agree [(0, 4)] a k (byteAt w.client (a % 4)) (byteAt known (a % 4)) = true) →
      ¬ClientsOwn [(0, 4)] s.refreshing.batch a k (s.ram a) (s'.ram a) := by
    rintro s s' a k _ _ rfl rfl hne hbatch (hsame | ⟨⟨w, hw, _, hdiff⟩, _⟩)
    · exact Bool.noConfusion (hsame.symm.trans hne)
    · obtain ⟨known, hknown, hback⟩ := hbatch w hw
      exact Bool.noConfusion (hback.symm.trans (hdiff known hknown))
  constructor
  · intro s s'
    have hrun : s.ram 5 = 7 ∧ s'.ram 5 = 0 ∧ ∀ w ∈ s.refreshing.batch, ∃ known ∈ w.known,
        agree [(0, 4)] 5 0 (byteAt w.client (5 % 4)) (byteAt known (5 % 4)) = true := by
      decide +kernel
    exact ⟨hrun.1, hrun.2.1, lost s s' 5 0 7 0 hrun.1 hrun.2.1 (by decide) hrun.2.2⟩
  · intro s s'
    have hrun : s.ram 0 = 5 ∧ s'.ram 0 = 3 ∧ ∀ w ∈ s.refreshing.batch, ∃ known ∈ w.known,
        agree [(0, 4)] 0 2 (byteAt w.client (0 % 4)) (byteAt known (0 % 4)) = true := by
      decide +kernel
    exact ⟨hrun.1, hrun.2.1, lost s s' 0 2 5 3 hrun.1 hrun.2.1 (by decide) hrun.2.2⟩

end Own

end RetroArch

end Multi64
