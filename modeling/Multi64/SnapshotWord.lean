import Multi64.SnapshotApply

/-! What a client reads of a word it writes, over every interleaving in which
the link stays up, every request succeeds and the game leaves the word alone. -/

namespace Multi64

namespace RetroArch

section Chain

variable {rdram p : Nat} {bitwise : List (Nat × Nat)} {from_ mid to_ : Bytes} {writes more : List Write} {ram : Store}

/-- The writes to the word at `p`, each served what the one before it left. -/
def Chained (p : Nat) : Bytes → List Write → Bytes → Prop
  | from_, [], to_ => from_ = to_
  | from_, w :: writes, to_ =>
    if w.phys = p then w.served = from_ ∧ Chained p w.client writes to_ else Chained p from_ writes to_

theorem chained_append : Chained p from_ (writes ++ more) to_ ↔ ∃ mid, Chained p from_ writes mid ∧ Chained p mid more to_ := by
  induction writes generalizing from_ with
  | nil => simp [Chained]
  | cons w writes ih =>
    by_cases hw : w.phys = p
    · simp only [List.cons_append, Chained, if_pos hw, ih, and_assoc, exists_and_left]
    · simp only [List.cons_append, Chained, if_neg hw, ih]

/-- The queue laid over a window leaves the word as the last of its writes. -/
theorem overlay_word (hp : Placed rdram p) (hplaced : ∀ w ∈ writes, Placed rdram w.phys ∧ w.client.length = 4) {data : Bytes}
    (hlen : data.length = min window (rdram - baseOf p)) (hc : Chained p (slice data (p - baseOf p) 4) writes to_) :
    slice (Session.overlay writes (baseOf p) data) (p - baseOf p) 4 = to_ := by
  induction writes generalizing data with
  | nil => exact hc
  | cons w writes ih =>
    obtain ⟨⟨hw, hclient⟩, hrest⟩ := List.forall_mem_cons.mp hplaced
    rw [Session.overlay, List.foldl_cons, ← Session.overlay]
    by_cases hbase : baseOf w.phys = baseOf p
    · have hin := hw.inWindow
      rw [hbase, ← hlen, ← hclient] at hin
      rw [if_pos hbase]
      refine ih hrest ((overwrite_length hin.2).trans hlen) ?_
      by_cases hword : w.phys = p
      · rw [Chained, if_pos hword] at hc
        rw [hword] at hin ⊢
        rw [← hclient, slice_overwrite hin.2]
        exact hc.2
      · rw [Chained, if_neg hword] at hc
        have hapart := hp.apart hw (Ne.symm hword) hbase.symm
        rw [hbase] at hapart
        rcases hapart with hbefore | hbehind
        · rwa [slice_overwrite_before (by omega) hbefore]
        · rwa [slice_overwrite_behind hin.2 (by omega)]
    · have hword : w.phys ≠ p := fun heq => hbase (heq ▸ rfl)
      rw [Chained, if_neg hword] at hc
      rw [if_neg hbase]
      exact ih hrest hlen hc

theorem oneByte_served (w : Write) (i : Nat) : oneByte bitwise w i (byteAt w.served i) = byteAt w.client i := by
  unfold oneByte
  by_cases hf : flag bitwise (w.phys + i) = true
  · simp only [if_pos hf]
    apply UInt8.toBitVec_inj.mp
    ext k hk
    simp only [UInt8.toBitVec_or, UInt8.toBitVec_and, UInt8.toBitVec_not, UInt8.toBitVec_xor, BitVec.getElem_or,
      BitVec.getElem_and, BitVec.getElem_not, BitVec.getElem_xor]
    cases (byteAt w.client i).toBitVec[k] <;> cases (byteAt w.served i).toBitVec[k] <;> rfl
  · simp only [if_neg hf]

theorem putOne_word {w : Write} (hw : w.phys % 4 = 0) (hp : p % 4 = 0) (hclient : w.client.length = 4)
    (hserved : w.phys = p → w.served = ram.read p 4) :
    (putOne bitwise ram w).read p 4 = if w.phys = p then w.client else ram.read p 4 := by
  by_cases hword : w.phys = p
  · subst hword
    rw [if_pos rfl]
    refine Store.ext_byteAt (by rw [Store.read_length, hclient]) fun i hi => ?_
    rw [Store.read_length] at hi
    have hnow : ram (w.phys + i) = byteAt w.served i := by rw [hserved rfl, Store.byteAt_read _ _ _ hi]
    rw [Store.byteAt_read _ _ _ hi, putOne, Nat.add_sub_cancel_left, hnow, oneByte_served]
    by_cases hch : i ∈ changed w
    · exact if_pos ⟨Nat.le_add_right _ _, hch⟩
    · rw [if_neg fun h => hch h.2]
      by_contra hne
      exact hch (mem_changed.mpr ⟨hi, fun heq => hne heq.symm⟩)
  · rw [if_neg hword]
    refine Store.read_congr _ _ _ fun a hle hlt => if_neg ?_
    rintro ⟨hwle, hmem⟩
    have hlt4 := (mem_changed.mp hmem).1
    omega

theorem foldl_putOne_word (hp : p % 4 = 0) (hplaced : ∀ w ∈ writes, Placed rdram w.phys ∧ w.client.length = 4)
    (hc : Chained p (ram.read p 4) writes to_) : (writes.foldl (putOne bitwise) ram).read p 4 = to_ := by
  induction writes generalizing ram with
  | nil => exact hc
  | cons w writes ih =>
    obtain ⟨⟨hw, hclient⟩, hrest⟩ := List.forall_mem_cons.mp hplaced
    have hserved : w.phys = p → w.served = ram.read p 4 := fun hword => by
      rw [Chained, if_pos hword] at hc
      exact hc.1
    refine ih hrest ?_
    rw [putOne_word hw.1 hp hclient hserved]
    by_cases hword : w.phys = p
    · rw [Chained, if_pos hword] at hc
      rw [if_pos hword]
      exact hc.2
    · rw [Chained, if_neg hword] at hc
      rw [if_neg hword]
      exact hc

/-- The runs of a batch leave the word as the last of its writes. -/
theorem runs_word {live : SortedMap Nat UInt8} (hp : p % 4 = 0)
    (hplaced : ∀ w ∈ writes, Placed rdram w.phys ∧ w.client.length = 4)
    (hlive : ∀ w ∈ writes, ∀ i ∈ changed w, flag bitwise (w.phys + i) = true → live.get (w.phys + i) ≠ none)
    (hvalue : ∀ a v, p ≤ a → a < p + 4 → live.get a = some v → v = ram a) (hc : Chained p (ram.read p 4) writes to_) :
    (writeAll ram (toRuns (merge bitwise live writes))).read p 4 = to_ := by
  rw [← foldl_putOne_word hp hplaced hc]
  refine Store.read_congr _ _ _ fun a hle hlt => ?_
  rw [writeAll_toRuns]
  refine merge_get fun w hw i hi hat hf => ?_
  subst hat
  obtain ⟨v, hv⟩ := Option.ne_none_iff_exists'.mp (hlive w hw i hi hf)
  rw [hv, hvalue _ v hle hlt hv]

theorem writeAll_congr {runs : List (Nat × Bytes)} {ram' : Store} (h : ∀ a, p ≤ a → a < p + 4 → ram a = ram' a) :
    (writeAll ram runs).read p 4 = (writeAll ram' runs).read p 4 := by
  induction runs generalizing ram ram' with
  | nil => exact Store.read_congr _ _ _ h
  | cons r runs ih =>
    refine ih fun a hle hlt => ?_
    simp only [Store.write]
    by_cases hin : r.1 ≤ a ∧ a < r.1 + r.2.length
    · rw [if_pos hin, if_pos hin]
    · rw [if_neg hin, if_neg hin]
      exact h a hle hlt

end Chain

section Word

variable (rdram : Nat) (bitwise : List (Nat × Nat)) (p : Nat)

/-- The word at `p` once a write to it is acknowledged. -/
def wordAfter (s : Session) (e : Event) (word : Bytes) : Bytes :=
  match e, s.answering with
  | .answer _, .served _ phys client _ => if phys = p then client else word
  | _, _ => word

/-- The word last written to `p`, or the one RDRAM began with. -/
def lastWord : Session → List Event → Bytes → Bytes
  | _, [], word => word
  | s, e :: events, word => lastWord (s.step rdram bitwise e) events (wordAfter p s e word)

/-- No request fails, and the game leaves the word as it is. -/
def quiet (s : Session) : Event → Bool
  | .refresh _ fails => !fails
  | .game ram => ram.read p 4 = s.ram.read p 4
  | _ => true

def quietRun : Session → List Event → Bool
  | _, [] => true
  | s, e :: events => quiet p s e && quietRun (s.step rdram bitwise e) events

/-- The client writes nothing. -/
def restful (s : Session) : Event → Bool
  | .answer _ => match s.answering with
    | .served .. => false
    | _ => true
  | _ => true

def restfulRun : Session → List Event → Bool
  | _, [] => true
  | s, e :: events => restful s e && restfulRun (s.step rdram bitwise e) events

end Word

/-- Where the word at `p` is while a pass is in each of its phases: what RDRAM
holds of it, or will once the runs at hand are written, and the writes to come. -/
def PhaseHolds (p : Nat) (s : Session) (word : Bytes) : Refreshing → Prop
  | .reading _ _ got | .rereading _ _ got => Chained p (s.ram.read p 4) s.writes word ∧
      ∀ e ∈ got, e.1 = baseOf p → slice e.2 (p - baseOf p) 4 = s.ram.read p 4
  | .merging _ writes readOn _ live => (Chained p (s.ram.read p 4) (writes ++ s.writes) word ∧ readOn = s.linkGeneration) ∧
      ∀ a v, p ≤ a → a < p + 4 → live.get a = some v → v = s.ram a
  | .writing _ _ _ runs => Chained p ((writeAll s.ram runs).read p 4) s.writes word
  | _ => Chained p (s.ram.read p 4) s.writes word

/-- Wherever the word at `p` is kept, it is `word`. -/
structure Holds (p : Nat) (s : Session) (word : Bytes) : Prop where
  windows : ∀ data, s.windows.get (baseOf p) = some data → slice data (p - baseOf p) 4 = word
  served : ∀ addr client w, s.answering = .served addr p client w → w = word
  link : s.generation = some s.linkGeneration ∨ s.generation = none ∧ s.refreshing = .idle
  refreshing : PhaseHolds p s word s.refreshing

section Steps

variable {rdram p : Nat} {bitwise : List (Nat × Nat)} {s : Session} {word from_ : Bytes} {writes : List Write} {w : Write}

theorem PhaseHolds.congr {s' : Session} {r : Refreshing} (h : PhaseHolds p s word r) (hram : s'.ram = s.ram)
    (hwrites : s'.writes = s.writes) (hlink : s'.linkGeneration = s.linkGeneration) : PhaseHolds p s' word r := by
  cases r <;> simp only [PhaseHolds, hram, hwrites, hlink] at h ⊢ <;> exact h

theorem chained_snoc (hc : Chained p from_ writes word) (hserved : w.phys = p → w.served = word) :
    Chained p from_ (writes ++ [w]) (if w.phys = p then w.client else word) := by
  refine chained_append.mpr ⟨word, hc, ?_⟩
  by_cases hw : w.phys = p
  · simp only [Chained, if_pos hw, hserved hw, and_self]
  · simp only [Chained, if_neg hw]

/-- One more write in the queue, in any phase. -/
theorem PhaseHolds.push {s' : Session} {r : Refreshing} (h : PhaseHolds p s word r) (hserved : w.phys = p → w.served = word)
    (hram : s'.ram = s.ram) (hwrites : s'.writes = s.writes ++ [w]) (hlink : s'.linkGeneration = s.linkGeneration) :
    PhaseHolds p s' (if w.phys = p then w.client else word) r := by
  cases r with
  | merging fresh writes readOn todo live =>
    simp only [PhaseHolds, hram, hwrites, hlink, ← List.append_assoc] at h ⊢
    exact ⟨⟨chained_snoc h.1.1 hserved, h.1.2⟩, h.2⟩
  | reading fresh todo got | rereading fresh todo got =>
    simp only [PhaseHolds, hram, hwrites] at h ⊢
    exact ⟨chained_snoc h.1 hserved, h.2⟩
  | idle | draining | settling | listing | writing =>
    simp only [PhaseHolds, hram, hwrites] at h ⊢
    exact chained_snoc h hserved

theorem follow_same (hlink : s.generation = some s.linkGeneration ∨ s.generation = none) :
    s.follow = { s with generation := some s.linkGeneration } := by
  unfold Session.follow
  rw [if_pos hlink.symm]

theorem Holds.follow (h : Holds p s word) : s.follow = { s with generation := some s.linkGeneration } :=
  follow_same (h.link.imp id And.left)

theorem Holds.linked (h : Holds p s word) (hr : s.refreshing ≠ .idle) : s.generation = some s.linkGeneration :=
  h.link.elim id fun hidle => absurd hidle.2 hr

theorem readWindow_word (hp : Placed rdram p) (b : Nat) (hb : b = baseOf p) :
    slice (s.readWindow rdram b).2 (p - baseOf p) 4 = s.ram.read p 4 := by
  subst hb
  have hin := hp.inWindow
  rw [Session.readWindow, Store.slice_read _ _ _ hin.2, Nat.add_sub_cancel' hin.1]

/-- A fetch that shows the console's word, with the queue laid over it. -/
theorem install_word (hp : Placed rdram p) (hs : Sound rdram bitwise s) (h : Holds p s word) {got : List (Nat × Bytes)}
    (hgot : Got rdram got) (hshow : ∀ e ∈ got, e.1 = baseOf p → slice e.2 (p - baseOf p) 4 = s.ram.read p 4)
    (hc : Chained p (s.ram.read p 4) s.writes word) {data : Bytes} (hdata : (s.install got).windows.get (baseOf p) = some data) :
    slice data (p - baseOf p) 4 = word := by
  simp only [Session.install, h.follow] at hdata
  have hstart := h.windows
  revert hstart hdata
  generalize s.windows = windows
  induction got generalizing windows with
  | nil => exact fun hdata hstart => hstart data hdata
  | cons e got ih =>
    intro hdata hstart
    obtain ⟨hlen, hlens⟩ := List.forall_mem_cons.mp hgot
    obtain ⟨he, hes⟩ := List.forall_mem_cons.mp hshow
    refine ih hlens hes _ hdata fun data' hdata' => ?_
    by_cases hb : e.1 = baseOf p
    · simp only [hb, SortedMap.get_insert_self, Option.some.injEq] at hdata'
      subst hdata'
      exact overlay_word hp hs.queue.placed (hb ▸ hlen) (by rwa [he hb])
    · simp only [SortedMap.get_insert_of_ne (Ne.symm hb)] at hdata'
      exact hstart data' hdata'

theorem start_holds (ram : Store) (linkGeneration : Nat) : Holds p (.start ram linkGeneration) (ram.read p 4) :=
  ⟨nofun, nofun, .inr ⟨rfl, rfl⟩, rfl⟩

theorem command_holds (h : Holds p s word) (line : String) : Holds p (s.command rdram line) word := by
  unfold Session.command
  split
  · split
    · exact ⟨h.windows, nofun, h.link, h.refreshing.congr rfl rfl rfl⟩
    · exact ⟨h.windows, nofun, h.link, h.refreshing.congr rfl rfl rfl⟩
  · exact h

theorem serve_holds (h : Holds p s word) (r : Request) {data : Bytes} (hdata : s.windows.get (baseOf r.phys) = some data) :
    Holds p (s.serve r (slice data (r.phys - baseOf r.phys) 4)) word := by
  cases r with
  | read addr phys => exact ⟨h.windows, nofun, h.link, h.refreshing.congr rfl rfl rfl⟩
  | write addr phys client =>
    refine ⟨h.windows, fun addr' client' w hw => ?_, h.link, h.refreshing.congr rfl rfl rfl⟩
    injection hw with _ hphys _ hword
    subst hphys
    rw [← hword]
    exact h.windows data hdata

/-- A write is shown in the window of its word and in no other word of it. -/
theorem push_holds (hp : Placed rdram p) (hs : Sound rdram bitwise s) (h : Holds p s word) {addr : List Char} {phys : Nat}
    {client served : Bytes} (hplaced : Placed rdram phys) (hclient : client.length = 4)
    (hserved : phys = p → served = word) :
    Holds p (s.push bitwise addr phys client served) (if phys = p then client else word) := by
  refine ⟨fun data hdata => ?_, (by intros; contradiction), h.link, ?_⟩
  · simp only [Session.push, Session.reply] at hdata
    by_cases hb : baseOf phys = baseOf p
    · cases hold : s.windows.get (baseOf phys) with
      | none =>
        rw [hold] at hdata
        rw [hb] at hold
        cases hold.symm.trans hdata
      | some old =>
        have hlen := (hs.windows _ _ hold).1
        have hin := hplaced.inWindow
        rw [hold, hb] at hdata
        rw [hb] at hin hlen hold
        simp only [SortedMap.get_insert_self, Option.some.injEq] at hdata
        subst hdata
        rw [← hlen, ← hclient] at hin
        by_cases hword : phys = p
        · have hnew := slice_overwrite hin.2
          rw [hclient, hword] at hnew
          rw [if_pos hword, hword]
          exact hnew
        · rw [if_neg hword, ← h.windows old hold]
          have hapart := hp.apart hplaced (Ne.symm hword) hb.symm
          rw [hb] at hapart
          rcases hapart with hbefore | hbehind
          · exact slice_overwrite_before (by omega) hbefore
          · exact slice_overwrite_behind hin.2 (by omega)
    · have hword : phys ≠ p := fun heq => hb (heq ▸ rfl)
      rw [if_neg hword]
      refine h.windows data ?_
      revert hdata
      cases s.windows.get (baseOf phys) with
      | none => exact id
      | some old =>
        simp only [SortedMap.get_insert_of_ne (Ne.symm hb)]
        exact id
  · exact h.refreshing.push (w := ⟨phys, served, client, s.answered phys⟩) hserved rfl rfl rfl

theorem answer_holds (hp : Placed rdram p) (hs : Sound rdram bitwise s) (h : Holds p s word) (expired : Bool) :
    Holds p (s.answer bitwise expired) (wordAfter p s (.answer expired) word) := by
  have hfits := hs.answering
  have hserved := h.served
  unfold Session.answer wordAfter
  cases hr : s.answering with
  | idle => exact h
  | asked r =>
    cases hdata : s.windows.get (baseOf r.phys) with
    | some data =>
      simp only [hdata]
      exact serve_holds h r hdata
    | none =>
      simp only [hdata]
      exact ⟨h.windows, nofun, h.link, h.refreshing.congr rfl rfl rfl⟩
  | waiting r =>
    cases hdata : s.windows.get (baseOf r.phys) with
    | some data =>
      simp only [hdata]
      exact serve_holds h r hdata
    | none =>
      simp only [hdata]
      split
      · exact ⟨h.windows, nofun, h.link, h.refreshing.congr rfl rfl rfl⟩
      · exact h
  | served addr phys client w =>
    rw [hr] at hfits hserved
    exact push_holds hp hs h hfits.1.1 hfits.1.2 fun hphys => hserved addr client w (hphys ▸ rfl)

theorem refresh_holds (hp : Placed rdram p) (hs : Sound rdram bitwise s) (h : Holds p s word) (gone : Bool) :
    Holds p (s.refresh rdram bitwise gone false) word := by
  have hfits := hs.refreshing
  have hphase := h.refreshing
  unfold Session.refresh
  cases hr : s.refreshing with
  | idle =>
    rw [hr] at hphase
    simp only [h.follow]
    refine ⟨fun data hdata => ?_, h.served, .inl rfl, hphase, (by intros; contradiction)⟩
    cases gone with
    | true => cases hdata
    | false => exact h.windows data hdata
  | reading fresh todo got =>
    rw [hr] at hfits hphase
    have hlink : s.generation = some s.linkGeneration := h.linked (by rw [hr]; intro h; cases h)
    cases todo with
    | cons b todo =>
      refine ⟨h.windows, h.served, .inl hlink, hphase.1, fun e he => ?_⟩
      rcases List.mem_append.mp he with he | he
      · exact hphase.2 e he
      · obtain rfl := List.mem_singleton.mp he
        exact readWindow_word hp b
    | nil =>
      by_cases hnone : fresh = []
      · simp only [if_pos hnone]
        exact ⟨h.windows, h.served, .inl hlink, hphase.1⟩
      · have hwindows := fun data => @install_word rdram p bitwise s word hp hs h got hfits hphase.2 hphase.1 data
        simp only [if_neg hnone]
        revert hwindows
        simp only [Session.install, h.follow]
        exact fun hwindows => ⟨hwindows, h.served, .inl rfl, hphase.1⟩
  | rereading rest todo got =>
    rw [hr] at hfits hphase
    have hlink : s.generation = some s.linkGeneration := h.linked (by rw [hr]; intro h; cases h)
    cases todo with
    | cons b todo =>
      refine ⟨h.windows, h.served, .inl hlink, hphase.1, fun e he => ?_⟩
      rcases List.mem_append.mp he with he | he
      · exact hphase.2 e he
      · obtain rfl := List.mem_singleton.mp he
        exact readWindow_word hp b
    | nil =>
      by_cases hnone : rest = []
      · simp only [if_pos hnone]
        exact ⟨h.windows, h.served, .inl hlink, hphase.1⟩
      · have hwindows := fun data => @install_word rdram p bitwise s word hp hs h got hfits hphase.2 hphase.1 data
        simp only [if_neg hnone]
        revert hwindows
        simp only [Session.install, h.follow]
        exact fun hwindows => ⟨hwindows, h.served, .inl rfl, hphase.1⟩
  | draining fresh =>
    rw [hr] at hphase
    have hlink : s.generation = some s.linkGeneration := h.linked (by rw [hr]; intro h; cases h)
    refine ⟨h.windows, h.served, .inl hlink, ⟨?_, by rw [hlink]; rfl⟩, (by intros; contradiction)⟩
    rw [List.append_nil]
    exact hphase
  | merging fresh writes readOn todo live =>
    rw [hr] at hfits hphase
    have hlink : s.generation = some s.linkGeneration := h.linked (by rw [hr]; intro h; cases h)
    cases todo with
    | cons q todo =>
      exact ⟨h.windows, h.served, .inl hlink, hphase.1, fun a v hle hlt hv =>
        insertLive_value (fun v => hphase.2 a v hle hlt) q hv⟩
    | nil =>
      have hstay : ¬(liveWords bitwise writes ≠ [] ∧ s.linkGeneration ≠ readOn) := fun hmoved => hmoved.2 hphase.1.2.symm
      simp only [if_neg hstay]
      obtain ⟨mid, hbatch, hqueue⟩ := chained_append.mp hphase.1.1
      have hlive : ∀ w ∈ writes, ∀ i ∈ changed w, flag bitwise (w.phys + i) = true → live.get (w.phys + i) ≠ none := by
        intro w hw i hi hf
        rcases hfits.2 _ (mem_liveWords hw hi hf) with hnone | hread
        · cases hnone
        · exact hread i (mem_changed.mp hi).1
      refine ⟨h.windows, h.served, .inl hlink, ?_⟩
      simp only [PhaseHolds, runs_word hp.1 hfits.1.placed hlive hphase.2 hbatch]
      exact hqueue
  | writing fresh writes live runs =>
    rw [hr] at hphase
    have hlink : s.generation = some s.linkGeneration := h.linked (by rw [hr]; intro h; cases h)
    cases runs with
    | cons run runs => exact ⟨h.windows, h.served, .inl hlink, hphase⟩
    | nil => exact ⟨h.windows, h.served, .inl hlink, hphase⟩
  | settling fresh =>
    rw [hr] at hphase
    simp only [h.follow]
    exact ⟨h.windows, h.served, .inl rfl, hphase⟩
  | listing fresh =>
    rw [hr] at hphase
    exact ⟨h.windows, h.served, .inl (h.linked (by rw [hr]; intro h; cases h)), hphase, (by intros; contradiction)⟩

theorem game_holds (h : Holds p s word) {ram : Store} (hword : ram.read p 4 = s.ram.read p 4) :
    Holds p { s with ram := ram } word := by
  have hbyte : ∀ a, p ≤ a → a < p + 4 → ram a = s.ram a := by
    intro a hle hlt
    obtain ⟨i, rfl⟩ := Nat.exists_eq_add_of_le hle
    rw [← Store.byteAt_read ram p 4 (by omega), hword, Store.byteAt_read _ _ _ (by omega)]
  refine ⟨h.windows, h.served, h.link, ?_⟩
  have hphase := h.refreshing
  cases hr : s.refreshing with
  | merging fresh writes readOn todo live =>
    rw [hr] at hphase
    simp only [PhaseHolds, hword]
    exact ⟨hphase.1, fun a v hle hlt hv => (hphase.2 a v hle hlt hv).trans (hbyte a hle hlt).symm⟩
  | writing fresh writes live runs =>
    rw [hr] at hphase
    simp only [PhaseHolds, writeAll_congr hbyte]
    exact hphase
  | idle | reading | draining | settling | listing | rereading =>
    rw [hr] at hphase
    simp only [PhaseHolds, hword]
    exact hphase

theorem step_holds (hp : Placed rdram p) (hs : Sound rdram bitwise s) (h : Holds p s word) {e : Event}
    (hq : quiet p s e = true) : Holds p (s.step rdram bitwise e) (wordAfter p s e word) := by
  cases e with
  | command line => exact command_holds h line
  | answer expired => exact answer_holds hp hs h expired
  | refresh gone fails =>
    cases fails with
    | true => exact nomatch hq
    | false => exact refresh_holds hp hs h gone
  | game ram => exact game_holds h (of_decide_eq_true hq)

theorem run_holds (hp : Placed rdram p) (hs : Sound rdram bitwise s) (h : Holds p s word) (events : List Event)
    (hq : quietRun rdram bitwise p s events = true) :
    Holds p (s.run rdram bitwise events) (lastWord rdram bitwise p s events word) := by
  induction events generalizing s word with
  | nil => exact h
  | cons e events ih =>
    obtain ⟨he, hes⟩ := Bool.and_eq_true_iff.mp hq
    exact ih (Session.step_sound hs e) (step_holds hp hs h he) hes

end Steps

section Settled

variable {rdram p : Nat} {bitwise : List (Nat × Nat)} {s : Session} {word : Bytes}

/-- Past the drain of a pass nothing is queued. -/
def Drained (s : Session) : Prop :=
  match s.refreshing with
  | .reading .. | .draining .. => True
  | _ => s.writes = []

theorem rest_word {e : Event} (hr : restful s e = true) : wordAfter p s e word = word := by
  cases e with
  | answer expired =>
    cases ha : s.answering with
    | served addr phys client w =>
      rw [restful, ha] at hr
      exact nomatch hr
    | idle | asked | waiting => simp only [wordAfter, ha]
  | command | refresh | game => rfl

theorem rest_writes {e : Event} (hr : restful s e = true) (he : ∀ gone fails, e ≠ .refresh gone fails) :
    (s.step rdram bitwise e).writes = s.writes ∧ (s.step rdram bitwise e).refreshing = s.refreshing := by
  cases e with
  | command line =>
    change (s.command rdram line).writes = s.writes ∧ (s.command rdram line).refreshing = s.refreshing
    unfold Session.command
    split
    · split <;> exact ⟨rfl, rfl⟩
    · exact ⟨rfl, rfl⟩
  | refresh gone fails => exact absurd rfl (he gone fails)
  | game ram => exact ⟨rfl, rfl⟩
  | answer expired =>
    simp only [Session.step, Session.answer]
    have hserve (r : Request) (data : Bytes) : (s.serve r data).writes = s.writes ∧ (s.serve r data).refreshing = s.refreshing := by
      cases r <;> exact ⟨rfl, rfl⟩
    cases ha : s.answering with
    | idle => exact ⟨rfl, rfl⟩
    | asked r =>
      cases hdata : s.windows.get (baseOf r.phys) with
      | some data =>
        simp only [hdata]
        exact hserve r _
      | none => simp only [hdata, and_self]
    | waiting r =>
      cases hdata : s.windows.get (baseOf r.phys) with
      | some data =>
        simp only [hdata]
        exact hserve r _
      | none =>
        simp only [hdata]
        split <;> exact ⟨rfl, rfl⟩
    | served addr phys client w =>
      rw [restful, ha] at hr
      exact nomatch hr

/-- A pass drains the queue, and starts no other before it ends. -/
theorem refresh_drained (h : Holds p s word) (hd : s.refreshing = .idle ∨ Drained s) (gone : Bool) :
    Drained (s.refresh rdram bitwise gone false) := by
  have hafter (hidle : s.refreshing ≠ .idle) (hreading : ∀ fresh todo got, s.refreshing ≠ .reading fresh todo got)
      (hdraining : ∀ fresh, s.refreshing ≠ .draining fresh) : s.writes = [] := by
    have hd' := hd.resolve_left hidle
    unfold Drained at hd'
    split at hd'
    next fresh todo got heq => exact absurd heq (hreading fresh todo got)
    next fresh heq => exact absurd heq (hdraining fresh)
    · exact hd'
  unfold Session.refresh
  cases hr : s.refreshing with
  | idle =>
    simp only [h.follow]
    trivial
  | reading fresh todo got =>
    cases todo with
    | cons b todo => trivial
    | nil =>
      by_cases hnone : fresh = []
      · simp only [if_pos hnone]
        trivial
      · simp only [if_neg hnone]
        trivial
  | draining fresh => exact rfl
  | merging fresh writes readOn todo live =>
    have hempty := hafter (by rw [hr]; nofun) (by rw [hr]; nofun) (by rw [hr]; nofun)
    cases todo with
    | cons q todo => exact hempty
    | nil =>
      by_cases hmoved : liveWords bitwise writes ≠ [] ∧ s.linkGeneration ≠ readOn
      · simp only [if_pos hmoved]
        exact hempty
      · simp only [if_neg hmoved]
        exact hempty
  | writing fresh writes live runs =>
    have hempty := hafter (by rw [hr]; nofun) (by rw [hr]; nofun) (by rw [hr]; nofun)
    cases runs with
    | cons run runs => exact hempty
    | nil => exact hempty
  | settling fresh =>
    simp only [h.follow]
    exact hafter (by rw [hr]; nofun) (by rw [hr]; nofun) (by rw [hr]; nofun)
  | listing fresh => exact hafter (by rw [hr]; nofun) (by rw [hr]; nofun) (by rw [hr]; nofun)
  | rereading rest todo got =>
    have hempty := hafter (by rw [hr]; nofun) (by rw [hr]; nofun) (by rw [hr]; nofun)
    cases todo with
    | cons b todo => exact hempty
    | nil =>
      by_cases hnone : rest = []
      · simp only [if_pos hnone]
        exact hempty
      · simp only [if_neg hnone, Session.install, h.follow]
        exact hempty

theorem step_drained (h : Holds p s word) {e : Event} (hq : quiet p s e = true) (hr : restful s e = true)
    (hd : Drained s ∨ (∃ gone fails, e = .refresh gone fails) ∧ s.refreshing = .idle) : Drained (s.step rdram bitwise e) := by
  cases e with
  | refresh gone fails =>
    cases fails with
    | true => exact nomatch hq
    | false => exact refresh_drained h (hd.symm.imp And.right id) gone
  | command | answer | game =>
    have hsame := @rest_writes rdram bitwise s _ hr (by nofun)
    rcases hd with hd | ⟨⟨gone, fails, heq⟩, _⟩
    · unfold Drained at hd ⊢
      rw [hsame.1, hsame.2]
      exact hd
    · exact nomatch heq

/-- Once a pass is begun and ended in which the client writes nothing, RDRAM
holds the word. -/
theorem settled_word (hp : Placed rdram p) (hs : Sound rdram bitwise s) (h : Holds p s word) {events : List Event}
    (hq : quietRun rdram bitwise p s events = true) (hrest : restfulRun rdram bitwise s events = true)
    (hd : Drained s ∨ (∃ gone fails, .refresh gone fails ∈ events) ∧ s.refreshing = .idle)
    (hend : (s.run rdram bitwise events).refreshing = .idle) : (s.run rdram bitwise events).ram.read p 4 = word := by
  induction events generalizing s with
  | nil =>
    rcases hd with hd | ⟨⟨gone, fails, hmem⟩, _⟩
    · have hidle : s.refreshing = .idle := hend
      have hphase := h.refreshing
      rw [hidle] at hphase
      have hempty : s.writes = [] := by simpa only [Drained, hidle] using hd
      have hc : Chained p (s.ram.read p 4) s.writes word := hphase
      rw [hempty] at hc
      exact hc
    · exact nomatch hmem
  | cons e events ih =>
    obtain ⟨he, hes⟩ := Bool.and_eq_true_iff.mp hq
    obtain ⟨hr, hrs⟩ := Bool.and_eq_true_iff.mp hrest
    have hstep := step_holds hp hs h he
    rw [rest_word hr] at hstep
    refine ih (Session.step_sound hs e) hstep hes hrs ?_ hend
    rcases hd with hd | ⟨⟨gone, fails, hmem⟩, hidle⟩
    · exact .inl (step_drained h he hr (.inl hd))
    · rcases List.mem_cons.mp hmem with heq | hmem
      · exact .inl (step_drained h he hr (.inr ⟨⟨gone, fails, heq.symm⟩, hidle⟩))
      · by_cases hrefresh : ∃ gone fails, e = .refresh gone fails
        · exact .inl (step_drained h he hr (.inr ⟨hrefresh, hidle⟩))
        · have hsame := @rest_writes rdram bitwise s e hr fun gone fails heq => hrefresh ⟨gone, fails, heq⟩
          exact .inr ⟨⟨gone, fails, hmem⟩, hsame.2.trans hidle⟩

end Settled

deriving instance DecidableEq for Request, Answering

def Refreshing.isIdle : Refreshing → Bool
  | .idle => true
  | _ => false

theorem Refreshing.isIdle_iff {r : Refreshing} : r.isIdle = true ↔ r = .idle := by cases r <;> simp [isIdle]

section Reads

variable {rdram p : Nat} {bitwise : List (Nat × Nat)} {s : Session} {word : Bytes}

/-- A reply to a read of the word, given by this step of the answering thread. -/
def Answers (bitwise : List (Nat × Nat)) (s : Session) (p : Nat) (addr : List Char) (expired : Bool) (r : Reply) : Prop :=
  (s.answering = .asked (.read addr p) ∨ s.answering = .waiting (.read addr p)) ∧
    (s.answer bitwise expired).replies = s.replies ++ [r]

theorem answers_word (h : Holds p s word) {addr : List Char} {expired : Bool} {r : Reply} (ha : Answers bitwise s p addr expired r) :
    r = .word addr word.reverse ∨
      (r = (Request.read addr p).unanswered ∧ expired = true ∧ s.windows.get (baseOf p) = none) := by
  obtain ⟨hasked, hreply⟩ := ha
  cases hdata : s.windows.get (baseOf p) with
  | some data =>
    have hword := h.windows data hdata
    have hlast : (s.answer bitwise expired).replies = s.replies ++ [.word addr word.reverse] := by
      rcases hasked with hasked | hasked <;>
        simp only [Session.answer, hasked, Request.phys, hdata, Session.serve, Session.reply, hword]
    rw [hlast] at hreply
    exact .inl (List.singleton_inj.mp (List.append_cancel_left hreply)).symm
  | none =>
    have hgrows : s.replies ≠ s.replies ++ [r] := fun heq => by
      have hlen := congrArg List.length heq
      rw [List.length_append, List.length_singleton] at hlen
      omega
    rcases hasked with hasked | hasked
    · simp only [Session.answer, hasked, Request.phys, hdata] at hreply
      exact absurd hreply hgrows
    · simp only [Session.answer, hasked, Request.phys, hdata] at hreply
      by_cases hexp : expired = true
      · rw [if_pos hexp] at hreply
        exact .inr ⟨(List.singleton_inj.mp (List.append_cancel_left hreply)).symm, hexp, rfl⟩
      · rw [if_neg hexp] at hreply
        exact absurd hreply hgrows

/-- In every interleaving, on one link that answers every request, with the word
left alone by the game: a read of it is answered with what was last written to
it, unless the wait for its window ran out; and once the client rests and a pass
is begun and ended, RDRAM holds it. -/
theorem reads_last_written (rdram : Nat) (bitwise : List (Nat × Nat)) (ram : Store) (linkGeneration p : Nat)
    (hp : Placed rdram p) (events : List Event)
    (hquiet : quietRun rdram bitwise p (.start ram linkGeneration) events = true) :
    let s := (Session.start ram linkGeneration).run rdram bitwise events
    let word := lastWord rdram bitwise p (.start ram linkGeneration) events (ram.read p 4)
    (∀ addr expired r, Answers bitwise s p addr expired r →
      r = .word addr word.reverse ∨
        (r = (Request.read addr p).unanswered ∧ expired = true ∧ s.windows.get (baseOf p) = none)) ∧
    ∀ rest : List Event, s.refreshing = .idle → quietRun rdram bitwise p s rest = true →
      restfulRun rdram bitwise s rest = true → (∃ gone fails, .refresh gone fails ∈ rest) →
      (s.run rdram bitwise rest).refreshing = .idle → (s.run rdram bitwise rest).ram.read p 4 = word := by
  intro s word
  have hs : Sound rdram bitwise s := Session.run_sound (Session.start_sound ram linkGeneration) events
  have h : Holds p s word := run_holds hp (Session.start_sound ram linkGeneration) (start_holds ram linkGeneration) events hquiet
  exact ⟨fun addr expired r => answers_word h, fun rest hidle hq hrest hbegun hend =>
    settled_word hp hs h hq hrest (.inr ⟨hbegun, hidle⟩) hend⟩

private def blank : Store := fun _ => 0

/-- A pass that fetches `n` windows and writes `runs` runs. -/
private def wholePass (n runs : Nat) : List Event := List.replicate (8 + n + runs) (.refresh false false)

/-- The client writes a word it never read. The write is acknowledged before
anything is on the console, and the word asked for. -/
private def asksAgain : List Event :=
  [.command "WRITE_CORE_MEMORY A0000004 01 00 00 00", .answer false] ++ wholePass 1 0 ++
    [.answer false, .answer false, .command "READ_CORE_MEMORY A0000004"]

theorem reads_last_written_queued :
    let s := (Session.start blank 0).run 8 [] asksAgain
    (s.answer [] false).replies = s.replies ++ [.word "A0000004".toList [1, 0, 0, 0]] ∧
      (Reply.word "A0000004".toList [1, 0, 0, 0] =
          .word "A0000004".toList (lastWord 8 [] 4 (.start blank 0) asksAgain (blank.read 4 4)).reverse ∨
        (Reply.word "A0000004".toList [1, 0, 0, 0] = (Request.read "A0000004".toList 4).unanswered ∧ false = true ∧
          s.windows.get (baseOf 4) = none)) ∧
      (s.run 8 [] (wholePass 1 1)).ram.read 4 4 = lastWord 8 [] 4 (.start blank 0) asksAgain (blank.read 4 4) := by
  intro s
  have hplaced : Placed 8 4 := ⟨by decide, by decide⟩
  have hall := reads_last_written 8 [] blank 0 4 hplaced asksAgain (by decide +kernel)
  have hreply : (s.answer [] false).replies = s.replies ++ [.word "A0000004".toList [1, 0, 0, 0]] := by decide +kernel
  have hasked : s.answering = .asked (.read "A0000004".toList 4) := by decide +kernel
  have hidle : s.refreshing = .idle := Refreshing.isIdle_iff.mp (by decide +kernel)
  have hended : (s.run 8 [] (wholePass 1 1)).refreshing = .idle := Refreshing.isIdle_iff.mp (by decide +kernel)
  exact ⟨hreply, hall.1 "A0000004".toList false _ ⟨.inl hasked, hreply⟩,
    hall.2 (wholePass 1 1) hidle (by decide +kernel) (by decide +kernel) ⟨false, false, by simp [wholePass]⟩ hended⟩

/-- The client was gone for a while, so the window was dropped, and the one pass
that could fetch it again does not come in time. -/
private def comesBack : List Event :=
  [.command "WRITE_CORE_MEMORY A0000004 01 00 00 00", .answer false] ++ wholePass 1 0 ++ [.answer false, .answer false] ++
    wholePass 1 1 ++ [.refresh true false] ++ List.replicate 6 (.refresh false false) ++
    [.command "READ_CORE_MEMORY A0000004", .answer false]

/-- A read of a word that was written, and is on the console, is answered with an
error. -/
theorem written_word_refused :
    let s := (Session.start blank 0).run 8 [] comesBack
    quietRun 8 [] 4 (.start blank 0) comesBack = true ∧
      lastWord 8 [] 4 (.start blank 0) comesBack (blank.read 4 4) = [0, 0, 0, 1] ∧ s.ram.read 4 4 = [0, 0, 0, 1] ∧
      Answers [] s 4 "A0000004".toList true (.refused "READ_CORE_MEMORY".toList "A0000004".toList "the console has not answered yet") := by
  intro s
  have hwaiting : s.answering = .waiting (.read "A0000004".toList 4) := by decide +kernel
  exact ⟨by decide +kernel, by decide +kernel, by decide +kernel, .inr hwaiting, by decide +kernel⟩

end Reads

end RetroArch

end Multi64
