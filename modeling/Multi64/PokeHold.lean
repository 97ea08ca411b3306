import Multi64.PokeOnce
import Multi64.WriteMany
import Mathlib

/-! The write the agent holds, over any history of payloads: a write is applied
unless it repeats the request served last, and a repeat stores nothing. -/

namespace Multi64

/-- What happens to the agent: a payload, a frame, the game's own stores and the
counters set back. -/
inductive AgentEvent where
  | payload (p : Bytes)
  | frame
  | game (byte : Nat → UInt8)
  | resetStats

/-- A payload that is served, whatever it asks for. -/
def M64pRequest (p : Bytes) : Prop := ¬(p.length < 5 ∨ p.take 4 ≠ m64pMagic)

instance (p : Bytes) : Decidable (M64pRequest p) := inferInstanceAs (Decidable (¬_))

/-- A write under `rid`, well formed or not behind it. -/
def PokeUnder (rid : UInt16) (p : Bytes) : Prop := ∃ count rest, p = appHeader .pokev ++ putBe16 rid ++ count :: rest

/-- A write of `rs` that the agent can apply to `size` bytes of RDRAM. -/
def ValidPoke (size : UInt32) (p : Bytes) (rid : UInt16) (rs : List (Region true)) : Prop :=
  RegionsFit size rs ∧ ∃ rest, p = (Request.pokev rid rs).encode ++ rest

/-- Of payloads that came with the last first: `p` repeats the request served
last, a write under its rid that was applied, with `n` regions, or repeated one. -/
def RepeatOf (size : UInt32) : List Bytes → Bytes → UInt8 → Prop
  | [], _, _ => False
  | q :: ps, p, n =>
    if M64pRequest q then
      ∃ rid, PokeUnder rid p ∧ PokeUnder rid q ∧
        (RepeatOf size ps q n ∨ (¬∃ m, RepeatOf size ps q m) ∧ ∃ rs, ValidPoke size q rid rs ∧ n = UInt8.ofNat rs.length)
    else RepeatOf size ps p n

/-- The payloads of a history, the last first. -/
def payloads (es : List AgentEvent) : List Bytes :=
  es.reverse.filterMap fun
    | .payload p => some p
    | _ => none

def handleEvent (h : Hooks) (s : MemProto) : AgentEvent → Except Fault MemProto
  | .payload p => do
    match ← m64pHandle h s p with
    | some (s', _) => return s'
    | none => return s
  | .frame => return m64pWatchTick s
  | .game byte => return { s with ram := { s.ram with byte := byte } }
  | .resetStats => return { s with requests := 0, bytesRead := 0, bytesWritten := 0, errors := 0, lastError := 0 }

def handleAll (h : Hooks) (s : MemProto) (es : List AgentEvent) : Except Fault MemProto := es.foldlM (handleEvent h) s

section Spelling

variable {size : UInt32} {p q : Bytes} {rid rid' : UInt16} {n : UInt8} {ps : List Bytes}

theorem PokeUnder.rid_eq (hp : PokeUnder rid p) : readBe16 p 5 = rid := by
  obtain ⟨count, rest, rfl⟩ := hp
  exact readBe16_poke.1

theorem PokeUnder.request (hp : PokeUnder rid p) : M64pRequest p := by
  obtain ⟨count, rest, rfl⟩ := hp
  rintro (hlen | hmagic)
  · simp only [List.length_append, appHeader_length, putBe16_length, List.length_cons] at hlen
    omega
  · exact hmagic rfl

theorem encode_poke (rid : UInt16) (rs : List (Region true)) (rest : Bytes) : (Request.pokev rid rs).encode ++ rest =
    appHeader .pokev ++ putBe16 rid ++ UInt8.ofNat rs.length :: ((rs.map Region.encode).flatten ++ rest) := by
  simp only [Request.encode, encodeList, List.append_assoc, List.length_map, List.cons_append, List.nil_append]

theorem ValidPoke.under {rs : List (Region true)} (hv : ValidPoke size p rid rs) : PokeUnder rid p := by
  obtain ⟨_, rest, rfl⟩ := hv
  exact ⟨_, _, encode_poke rid rs rest⟩

theorem ValidPoke.unique {rs rs' : List (Region true)} (hv : ValidPoke size p rid rs) (hv' : ValidPoke size p rid' rs') :
    rid = rid' ∧ rs = rs' := by
  have hrid : rid = rid' := hv.under.rid_eq.symm.trans hv'.under.rid_eq
  obtain ⟨hfit, rest, hp⟩ := hv
  obtain ⟨hfit', rest', hp'⟩ := hv'
  subst hrid
  refine ⟨rfl, ?_⟩
  rw [hp, encode_poke, encode_poke, List.append_assoc, List.append_assoc] at hp'
  have hcount := List.append_cancel_left (List.append_cancel_left hp')
  obtain ⟨hlen, hregions⟩ := List.cons.inj hcount
  have hc := hfit.count
  have hc' := hfit'.count
  have hmax : m64pMaxRegions = 32 := rfl
  have hnat := congrArg UInt8.toNat hlen
  rw [UInt8.toNat_ofNat', UInt8.toNat_ofNat'] at hnat
  exact regions_inj (by omega) hregions

/-- What a repeat repeats depends on its rid alone. -/
theorem RepeatOf.congr (h : RepeatOf size ps p n) (hp : PokeUnder rid p) (hq : PokeUnder rid q) : RepeatOf size ps q n := by
  induction ps with
  | nil => exact h
  | cons r ps ih =>
    unfold RepeatOf at h ⊢
    by_cases hr : M64pRequest r
    · rw [if_pos hr] at h ⊢
      obtain ⟨rid', hp', hr', hwas⟩ := h
      have heq : rid' = rid := hp'.rid_eq.symm.trans hp.rid_eq
      exact ⟨rid', heq ▸ hq, hr', hwas⟩
    · rw [if_neg hr] at h ⊢
      exact ih h

theorem RepeatOf.under (h : RepeatOf size ps p n) : ∃ rid, PokeUnder rid p := by
  induction ps with
  | nil => exact h.elim
  | cons r ps ih =>
    unfold RepeatOf at h
    by_cases hr : M64pRequest r
    · rw [if_pos hr] at h
      obtain ⟨rid, hp, _⟩ := h
      exact ⟨rid, hp⟩
    · rw [if_neg hr] at h
      exact ih h

end Spelling

section Hold

variable {h : Hooks} {s : MemProto} {size : UInt32} {ps : List Bytes} {p q : Bytes}

/-- The agent holds the write that a repeat would repeat. -/
def Holding (s : MemProto) (ps : List Bytes) : Prop :=
  ∀ rid p n, PokeUnder rid p → (RepeatOf s.ram.size ps p n ↔ s.held = some (rid, n))

theorem Holding.repeats (hb : h.pokeOnce = true) (hs : Holding s ps) :
    (∃ n, RepeatOf s.ram.size ps p n) ↔ ∃ rid n, Repeats h s p rid n := by
  constructor
  · rintro ⟨n, hrep⟩
    obtain ⟨rid, hp⟩ := hrep.under
    exact ⟨rid, n, hb, (hs rid p n hp).mp hrep, hp⟩
  · rintro ⟨rid, n, hr⟩
    exact ⟨n, (hs rid p n hr.poke).mpr hr.held⟩

theorem perform_size (h : Hooks) (s : MemProto) (r : Request) : (perform h s r).1.ram.size = s.ram.size := by
  cases r with
  | pokev rid rs =>
    simp only [perform, Rdram.writeAll]
    generalize s.ram = ram
    induction rs generalizing ram with
    | nil => rfl
    | cons x rs ih => exact ih _
  | peekv rid rs =>
    obtain ⟨events, he⟩ := peekTrailer_frame s (listReply .peekvResp rid rs.length (peekReply s.ram rs)).length
    simp only [perform, he]
  | hello => rfl
  | peekrom rid rs => rfl
  | watch rid slots => rfl

/-- Serving any request but a write. -/
theorem perform_other {r : Request} (hr : ¬∃ rid rs, r = .pokev rid rs) : (perform h s r).1.ram = s.ram ∧
    (h.pokeOnce = true → ∀ held, r.hold h held = none) ∧ byteAt (perform h s r).2 4 ≠ M64pMsg.pokeAck.code := by
  cases r with
  | pokev rid rs => exact absurd ⟨rid, rs, rfl⟩ hr
  | hello =>
    refine ⟨rfl, fun hb _ => if_pos hb, ?_⟩
    rw [show byteAt (perform h s .hello).2 4 = M64pMsg.helloAck.code from rfl]
    decide
  | peekv rid rs =>
    obtain ⟨events, he⟩ := peekTrailer_frame s (listReply .peekvResp rid rs.length (peekReply s.ram rs)).length
    refine ⟨by simp only [perform, he], fun hb _ => if_pos hb, ?_⟩
    rw [show byteAt (perform h s (.peekv rid rs)).2 4 = M64pMsg.peekvResp.code from rfl]
    decide
  | peekrom rid rs =>
    refine ⟨rfl, fun hb _ => if_pos hb, ?_⟩
    rw [show byteAt (perform h s (.peekrom rid rs)).2 4 = M64pMsg.peekromResp.code from rfl]
    decide
  | watch rid slots =>
    refine ⟨rfl, fun hb _ => if_pos hb, ?_⟩
    rw [show byteAt (perform h s (.watch rid slots)).2 4 = M64pMsg.watchAck.code from rfl]
    decide

/-- What a payload comes to, as far as writes go. -/
inductive Poked (h : Hooks) (s : MemProto) (p : Bytes) : Option (MemProto × Bytes) → Prop where
  | notOurs (hp : ¬M64pRequest p) : Poked h s p none
  | repeated (rid : UInt16) (n : UInt8) (hr : Repeats h s p rid n) :
      Poked h s p (some ({ s with requests := s.requests + 1 }, appHeader .pokeAck ++ putBe16 rid ++ [n]))
  | applied (rid : UInt16) (rs : List (Region true)) (hv : ValidPoke s.ram.size p rid rs) (hr : ∀ rid n, ¬Repeats h s p rid n) :
      Poked h s p (some ({ (perform h s (.pokev rid rs)).1 with held := some (rid, UInt8.ofNat rs.length) },
        (perform h s (.pokev rid rs)).2))
  | other (s' : MemProto) (reply : Bytes) (hp : M64pRequest p) (hv : ∀ rid rs, ¬ValidPoke s.ram.size p rid rs)
      (hr : ∀ rid n, ¬Repeats h s p rid n) (hram : s'.ram = s.ram) (hheld : s'.held = none)
      (hack : byteAt reply 4 ≠ M64pMsg.pokeAck.code) : Poked h s p (some (s', reply))

/-- A write that fits and is no repeat is not refused. -/
theorem dispatch_valid {rid : UInt16} {rs : List (Region true)} (hv : ValidPoke s.ram.size p rid rs) :
    m64pDispatch h s p = .ok (some (perform h s (.pokev rid rs))) := by
  obtain ⟨hfit, rest, rfl⟩ := hv
  have hlimits : (Request.pokev rid rs).Limits := ⟨hfit.count, fun r hr => (hfit.fits r hr).2, hfit.total⟩
  obtain ⟨out, hout, hread⟩ := m64pDispatch_reads (h := h) (s := s) hlimits rest nofun
  rw [hout]
  cases hread with
  | performed hf => rfl
  | outOfRange hr => exact absurd (fun r hmem => (hfit.fits r hmem).1) hr
  | noRom hmsg hrom =>
    obtain ⟨_, _, hmsg⟩ := hmsg
    nomatch hmsg
  | busy hmsg hbusy =>
    obtain ⟨_, _, hmsg⟩ := hmsg
    nomatch hmsg

/-- What is no request is not answered. -/
theorem m64pHandle_silent (hp : ¬M64pRequest p) : m64pHandle h s p = .ok none := by
  rcases not_not.mp hp with hlen | hmagic
  · have hd : m64pDispatch h s p = .ok none := by
      rw [m64pDispatch, if_pos hlen]
      rfl
    have hserve : ∀ poke, m64pServe h s p poke = .ok none := fun poke => by
      simp only [m64pServe, hd, bind, Except.bind, pure, Except.pure]
    have hshort : ¬8 ≤ p.length := by omega
    unfold m64pHandle
    split
    · exact hd
    · simp only [hshort, decide_false, Bool.false_and]
      exact hserve false
  · exact m64pHandle_not_ours hmagic

theorem ValidPoke.length {rid : UInt16} {rs : List (Region true)} (hv : ValidPoke size p rid rs) : 8 ≤ p.length := by
  obtain ⟨count, rest, rfl⟩ := hv.under
  simp only [List.length_append, appHeader_length, putBe16_length, List.length_cons]
  omega

/-- A refusal is of no valid write. -/
theorem refused_invalid {s' : MemProto} {reply : Bytes} (hout : m64pHandle h s p = .ok (some (s', reply)))
    (hack : byteAt reply 4 ≠ M64pMsg.pokeAck.code) (hr : ∀ rid n, ¬Repeats h s p rid n) (rid : UInt16) (rs : List (Region true)) :
    ¬ValidPoke s.ram.size p rid rs := by
  intro hv
  obtain ⟨held, hdone⟩ := m64pHandle_dispatch hv.length hr (dispatch_valid hv)
  rw [hdone] at hout
  obtain ⟨_, hreply⟩ := Prod.mk.inj (Option.some.inj (Except.ok.inj hout))
  rw [← hreply] at hack
  exact hack rfl

theorem m64pHandle_poked (hb : h.pokeOnce = true) (s : MemProto) (p : Bytes) : ∃ out, m64pHandle h s p = .ok out ∧ Poked h s p out := by
  obtain ⟨out, hout, hh⟩ := m64pHandle_spec h s p
  refine ⟨out, hout, ?_⟩
  cases hh with
  | notOurs hp => exact .notOurs (not_not_intro hp)
  | repeated rid n hr => exact .repeated rid n hr
  | refused rid e hmsg hrid =>
    have hack : byteAt (appHeader .err ++ putBe16 rid ++ [e.code]) 4 ≠ M64pMsg.pokeAck.code := by
      rw [List.append_assoc, show byteAt (appHeader .err ++ (putBe16 rid ++ [e.code])) 4 = M64pMsg.err.code from rfl]
      decide
    have hr : ∀ rid n, ¬Repeats h s p rid n := by
      intro rid' n hr
      rw [m64pHandle_repeats hr] at hout
      obtain ⟨_, hreply⟩ := Prod.mk.inj (Option.some.inj (Except.ok.inj hout))
      rw [← hreply] at hack
      exact hack rfl
    refine .other _ _ ?_ (refused_invalid hout hack hr) hr rfl (if_pos hb) hack
    intro hnot
    rw [m64pHandle_silent (not_not_intro hnot)] at hout
    nomatch hout
  | performed r rest he hf hr =>
    have hp : M64pRequest p := by
      intro hnot
      rw [m64pHandle_silent (not_not_intro hnot)] at hout
      nomatch hout
    by_cases hpoke : ∃ rid rs, r = .pokev rid rs
    · obtain ⟨rid, rs, rfl⟩ := hpoke
      have hv : ValidPoke s.ram.size p rid rs := ⟨hf, rest, he⟩
      rw [Request.hold, if_pos hb]
      exact .applied rid rs hv hr
    · have hother := perform_other (h := h) (s := s) hpoke
      exact .other _ _ hp (refused_invalid hout hother.2.2 hr) hr hother.1 (hother.2.1 hb _) hother.2.2

theorem Poked.ram_size {out : Option (MemProto × Bytes)} {s' : MemProto} {reply : Bytes} (hp : Poked h s p out)
    (ho : out = some (s', reply)) : s'.ram.size = s.ram.size := by
  cases hp with
  | notOurs hp => nomatch ho
  | repeated rid n hr =>
    obtain ⟨rfl, _⟩ := Prod.mk.inj (Option.some.inj ho)
    rfl
  | applied rid rs hv hr =>
    obtain ⟨rfl, _⟩ := Prod.mk.inj (Option.some.inj ho)
    exact perform_size h s (.pokev rid rs)
  | other s'' reply' hp hv hr hram hheld hack =>
    obtain ⟨rfl, _⟩ := Prod.mk.inj (Option.some.inj ho)
    rw [hram]

theorem RepeatOf.skip {size : UInt32} (hq : ¬M64pRequest q) (ps : List Bytes) (n : UInt8) :
    RepeatOf size (q :: ps) p n ↔ RepeatOf size ps p n := by rw [RepeatOf, if_neg hq]

theorem RepeatOf.served {size : UInt32} (hq : M64pRequest q) (ps : List Bytes) (n : UInt8) :
    RepeatOf size (q :: ps) p n ↔ ∃ rid, PokeUnder rid p ∧ PokeUnder rid q ∧
      (RepeatOf size ps q n ∨ (¬∃ m, RepeatOf size ps q m) ∧ ∃ rs, ValidPoke size q rid rs ∧ n = UInt8.ofNat rs.length) := by
  rw [RepeatOf, if_pos hq]

/-- The hold after a payload is what the next one may repeat. -/
theorem Holding.payload (hb : h.pokeOnce = true) (hs : Holding s ps) {s' : MemProto} {reply : Bytes}
    (hp : Poked h s q (some (s', reply))) : Holding s' (q :: ps) := by
  have hsize := hp.ram_size rfl
  have hnone : (∀ rid n, ¬Repeats h s q rid n) → ¬∃ m, RepeatOf s.ram.size ps q m := fun hr hex => by
    obtain ⟨rid, n, hrep⟩ := (hs.repeats hb).mp hex
    exact hr rid n hrep
  intro rid p n hunder
  rw [hsize]
  cases hp with
  | repeated rid' m hr =>
    have hq : PokeUnder rid' q := hr.poke
    rw [RepeatOf.served hq.request]
    constructor
    · rintro ⟨rid'', hp', hq', hrep | ⟨hfirst, _⟩⟩
      · have heq : rid'' = rid := hp'.rid_eq.symm.trans hunder.rid_eq
        subst heq
        exact (hs rid'' q n hq').mp hrep
      · exact absurd ((hs.repeats hb).mpr ⟨rid', m, hr⟩) hfirst
    · intro hheld
      have hheld' : s.held = some (rid, n) := hheld
      rw [hr.held] at hheld'
      obtain ⟨rfl, rfl⟩ := Prod.mk.inj (Option.some.inj hheld')
      exact ⟨rid', hunder, hq, .inl ((hs rid' q m hq).mpr hr.held)⟩
  | applied rid' rs hv hr =>
    rw [RepeatOf.served hv.under.request]
    constructor
    · rintro ⟨rid'', hp', hq', hrep | ⟨_, rs', hv', rfl⟩⟩
      · exact absurd ⟨n, hrep⟩ (hnone hr)
      · have heq : rid'' = rid := hp'.rid_eq.symm.trans hunder.rid_eq
        obtain ⟨rfl, rfl⟩ := hv.unique hv'
        rw [← heq]
    · intro hheld
      obtain ⟨rfl, rfl⟩ := Prod.mk.inj (Option.some.inj hheld)
      exact ⟨rid', hunder, hv.under, .inr ⟨hnone hr, rs, hv, rfl⟩⟩
  | other _ _ hreq hv hr hram hheld hack =>
    rw [RepeatOf.served hreq, hheld]
    constructor
    · rintro ⟨rid'', _, _, hrep | ⟨_, rs, hv', _⟩⟩
      · exact absurd ⟨n, hrep⟩ (hnone hr)
      · exact absurd hv' (hv rid'' rs)
    · exact nofun

theorem payloads_append (es : List AgentEvent) (e : AgentEvent) :
    payloads (es ++ [e]) = (match e with | .payload p => [p] | _ => []) ++ payloads es := by
  unfold payloads
  rw [List.reverse_append]
  cases e <;> rfl

theorem handleEvent_holding (hb : h.pokeOnce = true) {es : List AgentEvent} (hs : Holding s (payloads es)) (e : AgentEvent) :
    ∃ s', handleEvent h s e = .ok s' ∧ s'.ram.size = s.ram.size ∧ Holding s' (payloads (es ++ [e])) := by
  rw [payloads_append]
  cases e with
  | payload q =>
    obtain ⟨out, hout, hp⟩ := m64pHandle_poked hb s q
    simp only [handleEvent, hout, bind, Except.bind]
    cases out with
    | some r =>
      obtain ⟨s', reply⟩ := r
      exact ⟨s', rfl, hp.ram_size rfl, hs.payload hb hp⟩
    | none =>
      cases hp with
      | notOurs hq =>
        refine ⟨s, rfl, rfl, fun rid p n hunder => ?_⟩
        exact (RepeatOf.skip hq _ n).trans (hs rid p n hunder)
  | frame =>
    obtain ⟨watch, events, dropped, hframe⟩ := watchTickLoop_frame 0 s.watch s
    refine ⟨_, rfl, ?_, ?_⟩
    · rw [m64pWatchTick, hframe]
    · unfold Holding
      rw [m64pWatchTick, hframe]
      exact hs
  | game byte => exact ⟨_, rfl, rfl, hs⟩
  | resetStats => exact ⟨_, rfl, rfl, hs⟩

theorem handleAll_holding (hb : h.pokeOnce = true) (hboot : s.held = none) (es : List AgentEvent) :
    ∃ s', handleAll h s es = .ok s' ∧ s'.ram.size = s.ram.size ∧ Holding s' (payloads es) := by
  induction es using List.reverseRecOn with
  | nil =>
    refine ⟨s, rfl, rfl, fun rid p n hunder => ?_⟩
    rw [hboot]
    exact ⟨fun hrep => hrep.elim, nofun⟩
  | append_singleton es e ih =>
    obtain ⟨s₁, hrun, hsize, hs⟩ := ih
    obtain ⟨s₂, hlast, hsize', hs'⟩ := handleEvent_holding hb hs e
    refine ⟨s₂, ?_, hsize'.trans hsize, hs'⟩
    unfold handleAll at hrun ⊢
    rw [List.foldlM_append, hrun]
    simp only [bind, Except.bind, List.foldlM_cons, List.foldlM_nil, hlast, pure, Except.pure]

/-- Over every history from boot, a write that fits is applied unless it repeats
the request served last, each repeat is acknowledged with the first one's count
and stores nothing, and nothing else is acknowledged or stores. -/
theorem m64pHandle_holds (h : Hooks) (hb : h.pokeOnce = true) (s₀ : MemProto) (hboot : s₀.held = none) (es : List AgentEvent)
    (p : Bytes) : ∃ s out, handleAll h s₀ es = .ok s ∧ m64pHandle h s p = .ok out ∧
      (∀ n, RepeatOf s₀.ram.size (payloads es) p n →
        out = some ({ s with requests := s.requests + 1 }, appHeader .pokeAck ++ putBe16 (readBe16 p 5) ++ [n])) ∧
      ((¬∃ n, RepeatOf s₀.ram.size (payloads es) p n) → ∀ rid rs, ValidPoke s₀.ram.size p rid rs →
        ∃ s', out = some (s', appHeader .pokeAck ++ putBe16 rid ++ [UInt8.ofNat rs.length]) ∧ s'.ram = s.ram.writeAll rs) ∧
      ((¬∃ n, RepeatOf s₀.ram.size (payloads es) p n) → (¬∃ rid rs, ValidPoke s₀.ram.size p rid rs) →
        ∀ s' reply, out = some (s', reply) → s'.ram = s.ram ∧ byteAt reply 4 ≠ M64pMsg.pokeAck.code) := by
  obtain ⟨s, hrun, hsize, hs⟩ := handleAll_holding hb hboot es
  obtain ⟨out, hout, hp⟩ := m64pHandle_poked hb s p
  refine ⟨s, out, hrun, hout, ?_⟩
  rw [← hsize]
  have hrep : (∃ n, RepeatOf s.ram.size (payloads es) p n) ↔ ∃ rid n, Repeats h s p rid n := hs.repeats hb
  cases hp with
  | notOurs hreq =>
    refine ⟨fun n hn => ?_, fun _ rid rs hv => absurd hv.under.request hreq, fun _ _ s' reply ho => nomatch ho⟩
    obtain ⟨rid, hunder⟩ := hn.under
    exact absurd hunder.request hreq
  | repeated rid n hr =>
    refine ⟨fun m hm => ?_, fun hnone => absurd (hrep.mpr ⟨rid, n, hr⟩) hnone, fun hnone => absurd (hrep.mpr ⟨rid, n, hr⟩) hnone⟩
    have hunder : PokeUnder rid p := hr.poke
    have hheld := (hs rid p m hunder).mp hm
    rw [hr.held] at hheld
    obtain ⟨_, rfl⟩ := Prod.mk.inj (Option.some.inj hheld)
    rw [hunder.rid_eq]
  | applied rid rs hv hr =>
    refine ⟨fun n hn => ?_, fun _ rid' rs' hv' => ?_, fun _ hnone => absurd ⟨rid, rs, hv⟩ hnone⟩
    · obtain ⟨rid', m, hr'⟩ := hrep.mp ⟨n, hn⟩
      exact absurd hr' (hr rid' m)
    · obtain ⟨rfl, rfl⟩ := hv.unique hv'
      exact ⟨_, by rw [perform, listReply, List.append_nil], rfl⟩
  | other s'' reply'' hreq hv hr hram hheld hack =>
    refine ⟨fun n hn => ?_, fun _ rid rs hv' => absurd hv' (hv rid rs), fun _ _ s' reply ho => ?_⟩
    · obtain ⟨rid', m, hr'⟩ := hrep.mp ⟨n, hn⟩
      exact absurd hr' (hr rid' m)
    · obtain ⟨rfl, rfl⟩ := Prod.mk.inj (Option.some.inj ho)
      exact ⟨hram, hack⟩

theorem pokeByte_valid : ValidPoke 64 (pokeByte 1 0 7).encode 1 [⟨0, 1, [7], rfl⟩] := by
  refine ⟨⟨by decide, fun r hr => ?_, by decide⟩, [], (List.append_nil _).symm⟩
  rw [List.mem_singleton.mp hr]
  exact ⟨by decide, by decide⟩

theorem m64pHandle_holds_repeat : ∃ s, handleAll bareHooks bareProto [.payload (pokeByte 1 0 7).encode, .payload [0]] = .ok s ∧
    m64pHandle bareHooks s (pokeByte 1 4 9).encode =
      .ok (some ({ s with requests := s.requests + 1 }, appHeader .pokeAck ++ [0, 1] ++ [1])) := by
  have hrep : RepeatOf 64 (payloads [.payload (pokeByte 1 0 7).encode, .payload [0]]) (pokeByte 1 4 9).encode 1 := by
    refine (RepeatOf.skip (by decide) _ 1).mpr ((RepeatOf.served (by decide) _ 1).mpr ?_)
    exact ⟨1, ⟨_, _, rfl⟩, ⟨_, _, rfl⟩, .inr ⟨fun ⟨_, h⟩ => h.elim, _, pokeByte_valid, rfl⟩⟩
  obtain ⟨s, out, hrun, hout, hack, _, _⟩ := m64pHandle_holds bareHooks rfl bareProto rfl
    [.payload (pokeByte 1 0 7).encode, .payload [0]] (pokeByte 1 4 9).encode
  exact ⟨s, hrun, hout.trans (congrArg Except.ok (hack 1 hrep))⟩

end Hold

end Multi64
