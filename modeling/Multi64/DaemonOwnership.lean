import Mathlib
import Multi64.Daemon

/-! Whose port it is over every order in which the lock of the link is taken. -/

namespace Multi64

namespace Daemon

open List

/-- What may come behind `before`. -/
structure Allowed (before : List Entry) (e : Entry) : Prop where
  touches : e.Touches → ∀ earlier w between, before = earlier ++ .released w :: between →
    (∃ v, .resumed v ∈ between) ∨ ∃ v pipe, e = .opened (.resume v) pipe
  alone : ∀ by_ pipe, e = .opened by_ pipe → ∀ other q, .opened other q ∈ before → .closed q ∈ before
  answers : ∀ w, e = .answered w .ok → .took w .release ∈ before → .released w ∈ before

/-- A release stands until a resume, and the link is released as long. -/
def Out (link : LinkState) (t : List Entry) : Prop :=
  ∀ earlier w between, t = earlier ++ .released w :: between → (∃ v, .resumed v ∈ between) ∨ link = .released

/-- What was written on a pipe is whole but for the last. -/
structure Sent (link : LinkState) (pipe : Nat) (t : List Entry) : Prop where
  ordered : (writesOn pipe t).map Prod.fst <+ messages t
  whole : ∀ x ∈ (writesOn pipe t).dropLast, x.1.length ≤ x.2
  current : link = .active pipe → ∀ x ∈ writesOn pipe t, x.1.length ≤ x.2

structure Held (link : LinkState) (opens : Nat) (t : List Entry) : Prop where
  allowed : Every Allowed t
  single : ∀ by_ pipe, .opened by_ pipe ∈ t → .closed pipe ∈ t ∨ link = .active pipe
  opened : ∀ pipe message sent, .wrote pipe message sent ∈ t → pipe < opens
  current : ∀ pipe, link = .active pipe → pipe < opens
  sent : ∀ pipe, Sent link pipe t

section Trace

variable {link : LinkState} {opens pipe w : Nat} {t : List Entry} {e : Entry}

theorem Out.snoc (h : Out link t) (he : ∀ w, e = .released w → link = .released) : Out link (t ++ [e]) := by
  intro earlier w between hsplit
  rcases split_snoc hsplit with ⟨_, hlast, _⟩ | ⟨rest, hrest, rfl⟩
  · exact .inr (he w hlast)
  · rcases h earlier w rest hrest with ⟨v, hv⟩ | hout
    · exact .inl ⟨v, mem_append_left _ hv⟩
    · exact .inr hout

theorem out_resumed (link : LinkState) (t : List Entry) (v : Nat) : Out link (t ++ [.resumed v]) := by
  intro earlier w between hsplit
  rcases split_snoc hsplit with ⟨_, hlast, _⟩ | ⟨rest, _, rfl⟩
  · exact nomatch hlast
  · exact .inl ⟨v, by simp⟩

theorem out_down (h : Out link t) {link' : LinkState} (hlink : link = .released → link' = .released) : Out link' t :=
  fun earlier w between hsplit => (h earlier w between hsplit).imp_right hlink

/-- While the link is not released nothing touches the port out of turn. -/
theorem Out.touches (h : Out link t) (hlink : link = .released → ∃ v q, e = .opened (.resume v) q) :
    ∀ earlier w between, t = earlier ++ .released w :: between →
      (∃ v, .resumed v ∈ between) ∨ ∃ v q, e = .opened (.resume v) q :=
  fun earlier w between hsplit => (h earlier w between hsplit).imp_right hlink

theorem messages_snoc (t : List Entry) (e : Entry) : messages (t ++ [e]) = messages t ++ messages [e] := filterMap_append

theorem writesOn_snoc (pipe : Nat) (t : List Entry) (e : Entry) :
    writesOn pipe (t ++ [e]) = writesOn pipe t ++ writesOn pipe [e] := filterMap_append

/-- An entry that is not a write. -/
theorem Sent.snoc (h : Sent link pipe t) (he : ∀ q message sent, e ≠ .wrote q message sent) : Sent link pipe (t ++ [e]) := by
  have hnone : writesOn pipe [e] = [] := by
    cases e with
    | wrote q message sent => exact absurd rfl (he q message sent)
    | _ => rfl
  have hsame : writesOn pipe (t ++ [e]) = writesOn pipe t := by rw [writesOn_snoc, hnone, append_nil]
  constructor
  · rw [hsame, messages_snoc]
    exact h.ordered.trans (sublist_append_left _ _)
  · rw [hsame]
    exact h.whole
  · rw [hsame]
    exact h.current

/-- An entry that neither opens the port nor writes to it. -/
theorem Held.snoc (h : Held link opens t) (hallowed : Allowed t e) (hopened : ∀ by_ q, e ≠ .opened by_ q)
    (hwrote : ∀ q message sent, e ≠ .wrote q message sent) : Held link opens (t ++ [e]) := by
  refine ⟨h.allowed.snoc hallowed, fun by_ pipe hmem => ?_, fun pipe message sent hmem => ?_, h.current,
    fun pipe => (h.sent pipe).snoc hwrote⟩
  · rcases mem_append.mp hmem with hmem | hmem
    · exact (h.single by_ pipe hmem).imp_left (mem_append_left _)
    · exact absurd (mem_singleton.mp hmem).symm (hopened by_ pipe)
  · rcases mem_append.mp hmem with hmem | hmem
    · exact h.opened pipe message sent hmem
    · exact absurd (mem_singleton.mp hmem).symm (hwrote pipe message sent)

/-- A link that goes down when its pipe is closed. -/
theorem Held.down (h : Held link opens t) {link' : LinkState} (hdown : ∀ q, link' ≠ .active q)
    (hclosed : ∀ q, link = .active q → .closed q ∈ t) : Held link' opens t := by
  refine ⟨h.allowed, fun by_ pipe hmem => ?_, h.opened, fun pipe heq => absurd heq (hdown pipe),
    fun pipe => ⟨(h.sent pipe).ordered, (h.sent pipe).whole, fun heq => absurd heq (hdown pipe)⟩⟩
  rcases h.single by_ pipe hmem with hclosed' | hactive
  · exact .inl hclosed'
  · exact .inl (hclosed pipe hactive)

/-- A pipe is opened where there is none. -/
theorem Held.open_ (h : Held link opens t) (hout : Out link t) {by_ : Opener} (hnone : ∀ q, link ≠ .active q)
    (hresume : link = .released → ∃ v, by_ = .resume v) :
    Held (.active opens) (opens + 1) (t ++ [.opened by_ opens]) := by
  have hclosed : ∀ other q, .opened other q ∈ t → .closed q ∈ t := fun other q hmem =>
    (h.single other q hmem).resolve_right (hnone q)
  have hallowed : Allowed t (.opened by_ opens) := by
    refine ⟨fun _ => hout.touches fun hlink => ?_, fun _ _ _ => hclosed, nofun⟩
    obtain ⟨v, rfl⟩ := hresume hlink
    exact ⟨v, opens, rfl⟩
  refine ⟨h.allowed.snoc hallowed, fun other pipe hmem => ?_, fun pipe message sent hmem => ?_, fun pipe heq => ?_,
    fun pipe => ?_⟩
  · rcases mem_append.mp hmem with hmem | hmem
    · exact .inl (mem_append_left _ (hclosed other pipe hmem))
    · have heq := mem_singleton.mp hmem
      rw [Entry.opened.injEq] at heq
      exact .inr (congrArg LinkState.active heq.2.symm)
  · rcases mem_append.mp hmem with hmem | hmem
    · exact Nat.lt_succ_of_lt (h.opened pipe message sent hmem)
    · exact nomatch mem_singleton.mp hmem
  · rw [LinkState.active.injEq] at heq
    omega
  · have hkept : Sent link pipe (t ++ [.opened by_ opens]) := (h.sent pipe).snoc nofun
    refine ⟨hkept.ordered, hkept.whole, fun heq x hx => ?_⟩
    rw [LinkState.active.injEq] at heq
    subst heq
    rw [writesOn_snoc, show writesOn opens [.opened by_ opens] = [] from rfl, append_nil] at hx
    obtain ⟨e, he, hmap⟩ := mem_filterMap.mp hx
    cases e with
    | wrote q message sent =>
      have hq := h.opened q message sent he
      simp only [if_neg (Nat.ne_of_lt hq)] at hmap
      exact nomatch hmap
    | _ => exact nomatch hmap

/-- What is written once the lock is taken comes last on its pipe. -/
theorem writesOn_write (q : Nat) (t : List Entry) (w pipe : Nat) (message : Bytes) (sent : Nat) :
    writesOn q (t ++ [.took w (.client message)] ++ [.wrote pipe message sent]) =
      if pipe = q then writesOn q t ++ [(message, sent)] else writesOn q t := by
  by_cases hq : pipe = q
  · subst hq
    simp [writesOn]
  · simp [writesOn, hq]

theorem messages_write (t : List Entry) (w pipe : Nat) (message : Bytes) (sent : Nat) :
    messages (t ++ [.took w (.client message)] ++ [.wrote pipe message sent]) = messages t ++ [message] := by
  simp [messages]

theorem Sent.write {link' : LinkState} {q : Nat} (h : ∀ q, Sent (.active pipe) q t) (w : Nat) (message : Bytes) (sent : Nat)
    (hkept : ∀ q, link' = .active q → q = pipe ∧ message.length ≤ sent) :
    Sent link' q (t ++ [.took w (.client message)] ++ [.wrote pipe message sent]) := by
  constructor
  · rw [writesOn_write, messages_write]
    by_cases hq : pipe = q
    · rw [if_pos hq, map_append]
      exact (h q).ordered.append (Sublist.refl _)
    · rw [if_neg hq]
      exact (h q).ordered.trans (sublist_append_left _ _)
  · rw [writesOn_write]
    by_cases hq : pipe = q
    · subst hq
      rw [if_pos rfl, dropLast_concat]
      exact (h pipe).current rfl
    · rw [if_neg hq]
      exact (h q).whole
  · intro hlink
    obtain ⟨rfl, hwhole⟩ := hkept q hlink
    rw [writesOn_write, if_pos rfl]
    intro x hx
    rcases mem_append.mp hx with hx | hx
    · exact (h q).current rfl x hx
    · rw [mem_singleton.mp hx]
      exact hwhole

/-- A message goes out on the open pipe, and the link is kept if it is whole. -/
theorem Held.write (h : Held (.active pipe) opens t) (hout : Out (.active pipe) t) (w : Nat) (message : Bytes) {sent : Nat}
    (hwhole : message.length ≤ sent) :
    Held (.active pipe) opens (t ++ [.took w (.client message)] ++ [.wrote pipe message sent]) := by
  have htook : Held (.active pipe) opens (t ++ [.took w (.client message)]) :=
    h.snoc ⟨nofun, nofun, nofun⟩ nofun nofun
  have houttook : Out (.active pipe) (t ++ [.took w (.client message)]) := hout.snoc nofun
  refine ⟨htook.allowed.snoc ⟨fun _ => houttook.touches nofun, nofun, nofun⟩, fun by_ q hmem => ?_,
    fun q m n hmem => ?_, h.current, fun q => Sent.write h.sent w message sent fun r hr => ?_⟩
  · rcases mem_append.mp hmem with hmem | hmem
    · exact (htook.single by_ q hmem).imp_left (mem_append_left _)
    · exact nomatch mem_singleton.mp hmem
  · rcases mem_append.mp hmem with hmem | hmem
    · exact htook.opened q m n hmem
    · have heq := mem_singleton.mp hmem
      rw [Entry.wrote.injEq] at heq
      rw [heq.1]
      exact h.current pipe rfl
  · exact ⟨(LinkState.active.inj hr).symm, hwhole⟩

/-- A write that fails takes the link down. -/
theorem Held.fail (h : Held (.active pipe) opens t) (hout : Out (.active pipe) t) (w : Nat) (message : Bytes) (sent : Nat) :
    Held .faulted opens (t ++ [.took w (.client message)] ++ [.wrote pipe message sent] ++ [.closed pipe]) := by
  have htook : Held (.active pipe) opens (t ++ [.took w (.client message)]) :=
    h.snoc ⟨nofun, nofun, nofun⟩ nofun nofun
  have houttook : Out (.active pipe) (t ++ [.took w (.client message)]) := hout.snoc nofun
  have hwrote : Allowed (t ++ [.took w (.client message)]) (.wrote pipe message sent) :=
    ⟨fun _ => houttook.touches nofun, nofun, nofun⟩
  have hclose : Allowed (t ++ [.took w (.client message)] ++ [.wrote pipe message sent]) (.closed pipe) :=
    ⟨nofun, nofun, nofun⟩
  refine ⟨(htook.allowed.snoc hwrote).snoc hclose, fun by_ q hmem => ?_, fun q m n hmem => ?_, nofun,
    fun q => Sent.snoc (Sent.write h.sent w message sent nofun) nofun⟩
  · simp only [mem_append, mem_singleton, reduceCtorEq, or_false] at hmem
    rcases h.single by_ q hmem with hclosed | hactive
    · simp [hclosed]
    · simp [LinkState.active.inj hactive]
  · simp only [mem_append, mem_singleton, reduceCtorEq, or_false, Entry.wrote.injEq] at hmem
    rcases hmem with hmem | ⟨rfl, _, _⟩
    · exact h.opened q m n hmem
    · exact h.current q rfl

end Trace

/-- Every request is in the queue, with the link, or done with it. -/
structure Requests (d : Daemon) : Prop where
  nodup : (d.waiting.map Prod.fst).Nodup
  arrived : ∀ x ∈ d.waiting, x.1 < d.arrivals
  idle : ∀ x ∈ d.waiting, ∀ e ∈ d.trace, ¬e.Acts x.1
  acted : ∀ w, ∀ e ∈ d.trace, e.Acts w → w < d.arrivals
  refused : ∀ w, .answered w .serviceUnavailable ∈ d.trace →
    w < d.arrivals ∧ (∀ x ∈ d.waiting, x.1 ≠ w) ∧ ∀ e ∈ d.trace, ¬e.Acts w
  released : ∀ w, .took w .release ∈ d.trace → .released w ∈ d.trace
  served : ∀ x ∈ d.served, x.2 ≠ .serviceUnavailable

structure Owned (d : Daemon) : Prop where
  held : Held d.link d.opens d.trace
  out : Out d.link d.trace
  requests : Requests d

section Acts

variable {d : Daemon} {w : Nat} {o : Outcome}

/-- What a request with the link leaves alone. -/
structure Acted (d d' : Daemon) (w : Nat) : Prop where
  waiting : d'.waiting = d.waiting
  arrivals : d'.arrivals = d.arrivals
  served : ∀ x ∈ d'.served, x ∈ d.served ∨ x.2 ≠ .serviceUnavailable
  trace : ∃ new, d'.trace = d.trace ++ new ∧ ∀ e ∈ new, (∀ v, e.Acts v → v = w) ∧
    (∀ v s, e ≠ .answered v s) ∧ ∀ v a, e ≠ .took v a

theorem Acted.refl (d : Daemon) (w : Nat) : Acted d d w :=
  ⟨rfl, rfl, fun _ h => .inl h, [], (append_nil _).symm, nofun⟩

theorem Acted.trans {d d' d'' : Daemon} (h : Acted d d' w) (h' : Acted d' d'' w) : Acted d d'' w := by
  obtain ⟨new, htrace, hnew⟩ := h.trace
  obtain ⟨new', htrace', hnew'⟩ := h'.trace
  refine ⟨h'.waiting.trans h.waiting, h'.arrivals.trans h.arrivals, fun x hx => ?_, new ++ new', ?_, fun e he => ?_⟩
  · rcases h'.served x hx with hx | hx
    · exact h.served x hx
    · exact .inr hx
  · rw [htrace', htrace, append_assoc]
  · rcases mem_append.mp he with he | he
    · exact hnew e he
    · exact hnew' e he

theorem Acted.note {e : Entry} (d : Daemon) (hacts : ∀ v, e.Acts v → v = w) (hanswered : ∀ v s, e ≠ .answered v s)
    (htook : ∀ v a, e ≠ .took v a) : Acted d (d.note e) w := by
  refine ⟨rfl, rfl, fun _ h => .inl h, [e], rfl, fun x hx => ?_⟩
  rw [mem_singleton.mp hx]
  exact ⟨hacts, hanswered, htook⟩

theorem drop_acted (d : Daemon) (w : Nat) : Acted d d.drop_ w := by
  cases hlink : d.link with
  | active pipe =>
    simp only [drop_, hlink]
    exact .note d nofun nofun nofun
  | released | faulted =>
    simp only [drop_, hlink]
    exact .refl d w

theorem openPipe_acted (d : Daemon) (by_ : Opener) (hby : ∀ v, by_ = .resume v → v = w) (opening : Opening) :
    Acted d (d.openPipe by_ opening).1 w := by
  have hopened : ∀ v, (Entry.opened by_ d.opens).Acts v → v = w := by
    intro v hv
    cases by_ with
    | resume u => exact hv ▸ hby u rfl
    | startup | reader => exact hv.elim
  cases opening with
  | refused => exact .refl d w
  | failed =>
    have hfirst : Acted d ({ d with opens := d.opens + 1 }.note (.opened by_ d.opens)) w := by
      have hn := @Acted.note w (.opened by_ d.opens) { d with opens := d.opens + 1 } hopened nofun nofun
      exact ⟨hn.waiting, hn.arrivals, hn.served, hn.trace⟩
    exact hfirst.trans (.note _ nofun nofun nofun)
  | ready =>
    have hn := @Acted.note w (.opened by_ d.opens) { d with link := .active d.opens, opens := d.opens + 1 } hopened nofun nofun
    exact ⟨hn.waiting, hn.arrivals, hn.served, hn.trace⟩

/-- A port opened where none is, and what is left when it does not open. -/
theorem openPipe_held (h : Held d.link d.opens d.trace) (hout : Out d.link d.trace) (by_ : Opener)
    (hnone : ∀ q, d.link ≠ .active q) (hresume : d.link = .released → ∃ v, by_ = .resume v) (opening : Opening) :
    Held (d.openPipe by_ opening).1.link (d.openPipe by_ opening).1.opens (d.openPipe by_ opening).1.trace ∧
      (d.link = .faulted ∨ (d.openPipe by_ opening).2 = false →
        Out (d.openPipe by_ opening).1.link (d.openPipe by_ opening).1.trace) := by
  have hopen := h.open_ hout hnone hresume
  cases opening with
  | refused => exact ⟨h, fun _ => hout⟩
  | failed =>
    have hclosed : Held (.active d.opens) (d.opens + 1) (d.trace ++ [.opened by_ d.opens] ++ [.closed d.opens]) :=
      hopen.snoc ⟨nofun, nofun, nofun⟩ nofun nofun
    constructor
    · exact hclosed.down hnone fun q hq => by simp [LinkState.active.inj hq]
    · have houtopen : Out d.link (d.trace ++ [.opened by_ d.opens]) := hout.snoc nofun
      exact fun _ => houtopen.snoc nofun
  | ready =>
    refine ⟨hopen, fun hfaulted => ?_⟩
    have hlink : d.link = .faulted := hfaulted.resolve_right Bool.noConfusion
    have hup : Out (.active d.opens) d.trace := out_down hout fun hreleased => nomatch hlink.symm.trans hreleased
    exact hup.snoc nofun

/-- The pipe of a link that is dropped is closed. -/
theorem drop_held (h : Held d.link d.opens d.trace) (hout : Out d.link d.trace) (link' : LinkState)
    (hdown : ∀ q, link' ≠ .active q) (hlink : d.link = .released → link' = .released) :
    Held link' d.opens d.drop_.trace ∧ Out link' d.drop_.trace := by
  cases hl : d.link with
  | active pipe =>
    rw [hl] at h hout
    simp only [drop_, hl]
    have hclosed : Held (.active pipe) d.opens (d.trace ++ [.closed pipe]) := h.snoc ⟨nofun, nofun, nofun⟩ nofun nofun
    exact ⟨hclosed.down hdown fun q hq => by simp [LinkState.active.inj hq], (out_down hout nofun).snoc nofun⟩
  | released =>
    simp only [drop_, hl]
    exact ⟨h.down hdown (fun q hq => nomatch hl.symm.trans hq), out_down hout hlink⟩
  | faulted =>
    simp only [drop_, hl]
    exact ⟨h.down hdown (fun q hq => nomatch hl.symm.trans hq), out_down hout hlink⟩

theorem drop_fields (d : Daemon) : d.drop_.opens = d.opens ∧ d.drop_.served = d.served := by
  unfold drop_
  split <;> exact ⟨rfl, rfl⟩

/-- What a pass, a write or a request comes to. -/
structure Kept (d d' : Daemon) (w : Nat) (a : Actor) : Prop where
  held : Held d'.link d'.opens d'.trace
  out : Out d'.link d'.trace
  acted : Acted d d' w
  released : a = .release → .released w ∈ d'.trace

theorem readOnce_kept (h : Held d.link d.opens d.trace) (hout : Out d.link d.trace) (mayReopen : Bool) :
    Kept d (d.readOnce mayReopen o).1 w (.reader mayReopen) := by
  have same : Kept d d w (.reader mayReopen) := ⟨h, hout, .refl d w, nofun⟩
  cases hl : d.link with
  | released =>
    simp only [readOnce, hl]
    exact same
  | faulted =>
    simp only [readOnce, hl]
    cases mayReopen with
    | false => exact same
    | true =>
      obtain ⟨hheld, hrest⟩ := openPipe_held h hout .reader (fun q hq => nomatch hl.symm.trans hq)
        (fun hq => nomatch hl.symm.trans hq) o.opening
      exact ⟨hheld, hrest (.inl hl), openPipe_acted d .reader nofun o.opening, nofun⟩
  | active pipe =>
    simp only [readOnce, hl]
    have hread : Held (d.note (.read pipe)).link (d.note (.read pipe)).opens (d.note (.read pipe)).trace :=
      h.snoc (e := .read pipe) ⟨fun _ => hout.touches (fun hq => nomatch hl.symm.trans hq), nofun, nofun⟩ nofun nofun
    have hreadout : Out (d.note (.read pipe)).link (d.note (.read pipe)).trace :=
      hout.snoc (e := .read pipe) nofun
    have hreadacted : Acted d (d.note (.read pipe)) w := .note d nofun nofun nofun
    cases o.reading with
    | data bytes => exact ⟨hread, hreadout, hreadacted, nofun⟩
    | empty | lost => exact ⟨hread, hreadout, hreadacted, nofun⟩
    | failed =>
      obtain ⟨hdown, hdownout⟩ := drop_held hread hreadout .faulted nofun fun hq => nomatch hl.symm.trans hq
      have hdropped := hreadacted.trans (drop_acted (d.note (.read pipe)) w)
      refine ⟨?_, hdownout, ⟨hdropped.waiting, hdropped.arrivals, hdropped.served, hdropped.trace⟩, nofun⟩
      rw [(drop_fields _).1]
      exact hdown

theorem writeToLink_kept (h : Held d.link d.opens d.trace) (hout : Out d.link d.trace) (message : Bytes) :
    Kept (d.note (.took w (.client message))) ((d.note (.took w (.client message))).writeToLink message o) w
      (.client message) := by
  have htook : Held d.link d.opens (d.trace ++ [.took w (.client message)]) := h.snoc ⟨nofun, nofun, nofun⟩ nofun nofun
  have houttook : Out d.link (d.trace ++ [.took w (.client message)]) := hout.snoc nofun
  cases hl : d.link with
  | released | faulted =>
    simp only [writeToLink, note, hl]
    rw [hl] at htook houttook
    exact ⟨htook, houttook, .refl _ w, nofun⟩
  | active pipe =>
    rw [hl] at h hout houttook
    have hkept : ∀ sent, message.length ≤ sent →
        Held (.active pipe) d.opens (d.trace ++ [.took w (.client message)] ++ [.wrote pipe message sent]) :=
      fun sent hwhole => h.write hout w message hwhole
    have hfailed : ∀ sent, Held .faulted d.opens
        (d.trace ++ [.took w (.client message)] ++ [.wrote pipe message sent] ++ [.closed pipe]) :=
      fun sent => h.fail hout w message sent
    have houtwrote : ∀ sent, Out (.active pipe) (d.trace ++ [.took w (.client message)] ++ [.wrote pipe message sent]) :=
      fun sent => houttook.snoc nofun
    have houtfailed : ∀ sent, Out .faulted
        (d.trace ++ [.took w (.client message)] ++ [.wrote pipe message sent] ++ [.closed pipe]) := by
      intro sent
      have hdown : Out .faulted (d.trace ++ [.took w (.client message)] ++ [.wrote pipe message sent]) :=
        out_down (houtwrote sent) nofun
      exact hdown.snoc nofun
    have wrote : ∀ sent, ∀ e ∈ [Entry.wrote pipe message sent, .closed pipe],
        (∀ v, e.Acts v → v = w) ∧ (∀ v s, e ≠ .answered v s) ∧ ∀ v a, e ≠ .took v a := by
      intro sent e he
      simp only [mem_cons, not_mem_nil, or_false] at he
      rcases he with rfl | rfl <;> exact ⟨nofun, nofun, nofun⟩
    have failed : ∀ sent, Kept (d.note (.took w (.client message)))
        { ((d.note (.took w (.client message))).note (.wrote pipe message sent)).note (.closed pipe) with link := .faulted } w
        (.client message) := fun sent =>
      ⟨hfailed sent, houtfailed sent, ⟨rfl, rfl, fun _ hx => .inl hx, _, append_assoc _ _ _, wrote sent⟩, nofun⟩
    simp only [writeToLink, note, hl]
    cases o.writing with
    | ok =>
      refine ⟨hkept _ (Nat.le_refl _), houtwrote _, ⟨rfl, rfl, fun _ hx => .inl hx, _, rfl, fun e he => ?_⟩, nofun⟩
      exact wrote message.length e (mem_cons.mpr (.inl (mem_singleton.mp he)))
    | unset => simpa only [writeWithWriteTimeout, drop_, note, hl, Bool.false_eq_true, if_false] using failed 0
    | cut sent => simpa only [writeWithWriteTimeout, drop_, note, hl, Bool.false_eq_true, if_false] using failed (min sent message.length)
    | unrestored => simpa only [writeWithWriteTimeout, drop_, note, hl, Bool.false_eq_true, if_false] using failed message.length

theorem postSerialRelease_kept (h : Held d.link d.opens d.trace) (hout : Out d.link d.trace) :
    Kept d (d.postSerialRelease w) w .release := by
  obtain ⟨hdown, hdownout⟩ := drop_held h hout .released nofun fun _ => rfl
  have hdropped := drop_acted d w
  have hacted : Acted d { d.drop_ with link := .released, served := (w, .ok) :: d.served } w := by
    refine ⟨hdropped.waiting, hdropped.arrivals, fun x hx => ?_, hdropped.trace⟩
    rcases mem_cons.mp hx with rfl | hx
    · exact .inr nofun
    · exact .inl hx
  refine ⟨?_, hdownout.snoc fun _ _ => rfl, hacted.trans (.note _ (fun v hv => hv.symm) nofun nofun), fun _ => ?_⟩
  · have hnote : Held .released d.opens (d.drop_.trace ++ [.released w]) := hdown.snoc ⟨nofun, nofun, nofun⟩ nofun nofun
    rw [← (drop_fields d).1] at hnote
    exact hnote
  · exact mem_append_right _ (mem_singleton.mpr rfl)

theorem postSerialResume_kept (h : Held d.link d.opens d.trace) (hout : Out d.link d.trace) :
    Kept d (d.postSerialResume w o) w .resume := by
  have serves : ∀ (d' : Daemon) (s : Status), s ≠ .serviceUnavailable → d'.served = d.served → Acted d d' w →
      Acted d { d' with served := (w, s) :: d.served } w := by
    intro d' s hs _ hd'
    refine ⟨hd'.waiting, hd'.arrivals, fun x hx => ?_, hd'.trace⟩
    rcases mem_cons.mp hx with rfl | hx
    · exact .inr hs
    · exact .inl hx
  have hserved : (d.openPipe (.resume w) o.opening).1.served = d.served := by
    cases o.opening <;> rfl
  have hopened := openPipe_acted (w := w) d (.resume w) (fun v hv => (Opener.resume.inj hv).symm) o.opening
  have down : (∀ q, d.link ≠ .active q) → Kept d
      (if (d.openPipe (.resume w) o.opening).2 then
        { (d.openPipe (.resume w) o.opening).1 with served := (w, .ok) :: d.served }.note (.resumed w)
      else { (d.openPipe (.resume w) o.opening).1 with served := (w, .internalServerError) :: d.served }) w .resume := by
    intro hnone
    obtain ⟨hheld, hrest⟩ := openPipe_held h hout (.resume w) hnone (fun _ => ⟨w, rfl⟩) o.opening
    cases hok : (d.openPipe (.resume w) o.opening).2 with
    | true =>
      rw [if_pos rfl]
      have hacted := serves _ .ok nofun hserved hopened
      refine ⟨?_, out_resumed _ _ w, hacted.trans (.note _ (fun v hv => hv.symm) nofun nofun), nofun⟩
      exact hheld.snoc ⟨nofun, nofun, nofun⟩ nofun nofun
    | false =>
      rw [if_neg Bool.false_ne_true]
      exact ⟨hheld, hrest (.inr hok), serves _ .internalServerError nofun hserved hopened, nofun⟩
  cases hl : d.link with
  | active pipe =>
    simp only [postSerialResume, hl]
    rw [← hl]
    exact ⟨h, hout, serves d .ok nofun rfl (.refl d w), nofun⟩
  | released | faulted =>
    simp only [postSerialResume, hl]
    exact down fun q hq => nomatch hl.symm.trans hq

theorem act_kept (h : Held d.link d.opens d.trace) (hout : Out d.link d.trace) (a : Actor) :
    Kept (d.note (.took w a)) ((d.note (.took w a)).act w o a) w a := by
  have htook : Held d.link d.opens (d.trace ++ [.took w a]) := h.snoc ⟨nofun, nofun, nofun⟩ nofun nofun
  have houttook : Out d.link (d.trace ++ [.took w a]) := hout.snoc nofun
  cases a with
  | reader mayReopen => exact readOnce_kept (d := d.note (.took w (.reader mayReopen))) htook houttook mayReopen
  | client message => exact writeToLink_kept h hout message
  | release => exact postSerialRelease_kept (d := d.note (.took w .release)) htook houttook
  | resume => exact postSerialResume_kept (d := d.note (.took w .resume)) htook houttook

end Acts

section Runs

variable {d : Daemon} {w : Nat}

theorem mem_leave {x : Nat × Actor} : x ∈ (d.leave w).waiting ↔ x ∈ d.waiting ∧ x.1 ≠ w := by
  simp [leave, mem_filter]

theorem leave_requests (h : Requests d) (w : Nat) : Requests (d.leave w) where
  nodup := h.nodup.sublist (filter_sublist.map Prod.fst)
  arrived := fun x hx => h.arrived x (mem_leave.mp hx).1
  idle := fun x hx => h.idle x (mem_leave.mp hx).1
  acted := h.acted
  refused := fun v hv => ⟨(h.refused v hv).1, fun x hx => (h.refused v hv).2.1 x (mem_leave.mp hx).1, (h.refused v hv).2.2⟩
  released := h.released
  served := h.served

/-- A request that takes the lock was neither refused nor with the link before. -/
theorem take_requests (h : Requests d) (hout : Out d.link d.trace) (hheld : Held d.link d.opens d.trace) {a : Actor}
    (hw : (w, a) ∈ d.waiting) (o : Outcome) : Requests (((d.leave w).note (.took w a)).act w o a) := by
  have hl := leave_requests h w
  have hkept := act_kept (d := d.leave w) (w := w) (o := o) hheld hout a
  obtain ⟨new, htrace, hnew⟩ := hkept.acted.trace
  have hentry : ∀ e ∈ (((d.leave w).note (.took w a)).act w o a).trace, e ∈ d.trace ∨ e = .took w a ∨ e ∈ new := by
    intro e he
    rw [htrace] at he
    rcases mem_append.mp he with he | he
    · rcases mem_append.mp he with he | he
      · exact .inl he
      · exact .inr (.inl (mem_singleton.mp he))
    · exact .inr (.inr he)
  have hacts : ∀ v, v ≠ w → ∀ e ∈ (((d.leave w).note (.took w a)).act w o a).trace, e.Acts v → e ∈ d.trace := by
    intro v hv e he hact
    rcases hentry e he with he | rfl | he
    · exact he
    · exact absurd hact.symm hv
    · exact absurd ((hnew e he).1 v hact) hv
  have hgone : ∀ x ∈ (((d.leave w).note (.took w a)).act w o a).waiting, x ∈ (d.leave w).waiting ∧ x.1 ≠ w := by
    intro x hx
    rw [hkept.acted.waiting] at hx
    exact ⟨hx, (mem_leave.mp hx).2⟩
  constructor
  · rw [hkept.acted.waiting]
    exact hl.nodup
  · intro x hx
    rw [hkept.acted.arrivals]
    exact hl.arrived x (hgone x hx).1
  · intro x hx e he hact
    exact hl.idle x (hgone x hx).1 e (hacts x.1 (hgone x hx).2 e he hact) hact
  · intro v e he hact
    rw [hkept.acted.arrivals]
    by_cases hv : v = w
    · exact hv ▸ h.arrived (w, a) hw
    · exact h.acted v e (hacts v hv e he hact) hact
  · intro v hv
    have hold : .answered v .serviceUnavailable ∈ d.trace := by
      rcases hentry _ hv with hv | hv | hv
      · exact hv
      · exact nomatch hv
      · exact absurd rfl ((hnew _ hv).2.1 v .serviceUnavailable)
    obtain ⟨hlt, hwait, hnone⟩ := h.refused v hold
    have hne : v ≠ w := fun heq => hwait (w, a) hw heq.symm
    refine ⟨?_, fun x hx => (hl.refused v hold).2.1 x (hgone x hx).1, fun e he hact => ?_⟩
    · rw [hkept.acted.arrivals]
      exact hlt
    · exact hnone e (hacts v hne e he hact) hact
  · intro v hv
    rcases hentry _ hv with hold | hnow | hv
    · rw [htrace]
      exact mem_append_left _ (mem_append_left _ (h.released v hold))
    · rw [Entry.took.injEq] at hnow
      obtain ⟨rfl, rfl⟩ := hnow
      exact hkept.released rfl
    · exact absurd rfl ((hnew _ hv).2.2 v .release)
  · intro x hx
    rcases hkept.acted.served x hx with hx | hx
    · exact hl.served x hx
    · exact hx

theorem answered_requests (h : Requests d) (s : Status) (hs : s = .serviceUnavailable →
    w < d.arrivals ∧ (∀ x ∈ d.waiting, x.1 ≠ w) ∧ ∀ e ∈ d.trace, ¬e.Acts w) : Requests (d.note (.answered w s)) := by
  have hacts : ∀ v, ∀ e ∈ (d.note (.answered w s)).trace, e.Acts v → e ∈ d.trace := by
    intro v e he hact
    rcases mem_append.mp he with he | he
    · exact he
    · rw [mem_singleton.mp he] at hact
      exact hact.elim
  refine ⟨h.nodup, h.arrived, fun x hx e he hact => h.idle x hx e (hacts x.1 e he hact) hact,
    fun v e he hact => h.acted v e (hacts v e he hact) hact, fun v hv => ?_, fun v hv => ?_, h.served⟩
  · have hold : w = v ∧ s = .serviceUnavailable ∨ .answered v .serviceUnavailable ∈ d.trace := by
      rcases mem_append.mp hv with hv | hv
      · exact .inr hv
      · have heq := mem_singleton.mp hv
        rw [Entry.answered.injEq] at heq
        exact .inl ⟨heq.1.symm, heq.2.symm⟩
    have hrefused : v < d.arrivals ∧ (∀ x ∈ d.waiting, x.1 ≠ v) ∧ ∀ e ∈ d.trace, ¬e.Acts v := by
      rcases hold with ⟨rfl, hunavailable⟩ | hold
      · exact hs hunavailable
      · exact h.refused v hold
    exact ⟨hrefused.1, hrefused.2.1, fun e he hact => hrefused.2.2 e (hacts v e he hact) hact⟩
  · rcases mem_append.mp hv with hv | hv
    · exact mem_append_left _ (h.released v hv)
    · exact nomatch mem_singleton.mp hv

theorem step_owned (h : Owned d) (e : Event) : Owned (d.step e) := by
  have hr := h.requests
  cases e with
  | arrive a =>
    refine ⟨h.held, h.out, ?_, fun x hx => ?_, fun x hx e he hact => ?_, fun v e he hact => ?_, fun v hv => ?_, hr.released,
      hr.served⟩
    · simp only [step, map_append, map_cons, map_nil]
      refine nodup_append.mpr ⟨hr.nodup, nodup_singleton _, fun v hv u hu => ?_⟩
      obtain ⟨x, hx, rfl⟩ := mem_map.mp hv
      rw [mem_singleton.mp hu]
      exact Nat.ne_of_lt (hr.arrived x hx)
    · rcases mem_append.mp hx with hx | hx
      · exact Nat.lt_succ_of_lt (hr.arrived x hx)
      · rw [mem_singleton.mp hx]
        exact Nat.lt_succ_self _
    · rcases mem_append.mp hx with hx | hx
      · exact hr.idle x hx e he hact
      · rw [mem_singleton.mp hx] at hact
        exact Nat.lt_irrefl _ (hr.acted _ e he hact)
    · exact Nat.lt_succ_of_lt (hr.acted v e he hact)
    · obtain ⟨hlt, hwait, hnone⟩ := hr.refused v hv
      refine ⟨Nat.lt_succ_of_lt hlt, fun x hx => ?_, hnone⟩
      rcases mem_append.mp hx with hx | hx
      · exact hwait x hx
      · rw [mem_singleton.mp hx]
        exact (Nat.ne_of_lt hlt).symm
  | expire w =>
    by_cases hw : (w, .release) ∈ d.waiting ∨ (w, .resume) ∈ d.waiting
    · simp only [step, if_pos hw]
      have hallowed : Allowed d.trace (.answered w .serviceUnavailable) := ⟨nofun, nofun, nofun⟩
      refine ⟨h.held.snoc hallowed nofun nofun, h.out.snoc nofun, answered_requests (leave_requests hr w) _ fun _ => ?_⟩
      obtain ⟨a, ha⟩ : ∃ a, (w, a) ∈ d.waiting := by
        rcases hw with hw | hw
        · exact ⟨_, hw⟩
        · exact ⟨_, hw⟩
      exact ⟨hr.arrived (w, a) ha, fun x hx => (mem_leave.mp hx).2, hr.idle (w, a) ha⟩
    · simp only [step, if_neg hw]
      exact h
  | abandon w =>
    by_cases hw : (w, .release) ∈ d.waiting ∨ (w, .resume) ∈ d.waiting
    · simp only [step, if_pos hw]
      exact ⟨h.held, h.out, leave_requests hr w⟩
    · simp only [step, if_neg hw]
      exact ⟨h.held, h.out, hr.nodup, hr.arrived, hr.idle, hr.acted, hr.refused, hr.released,
        fun x hx => hr.served x (mem_filter.mp hx).1⟩
  | take w o =>
    cases hf : d.waiting.find? (·.1 = w) with
    | none =>
      simp only [step, hf]
      exact h
    | some x =>
      obtain ⟨v, a⟩ := x
      have hv : v = w := by simpa using find?_some hf
      have hmem : (w, a) ∈ d.waiting := hv ▸ mem_of_find?_eq_some hf
      simp only [step, hf]
      have hkept := act_kept (d := d.leave w) (w := w) (o := o) h.held h.out a
      exact ⟨hkept.held, hkept.out, take_requests hr h.out h.held hmem o⟩
  | answer w =>
    cases hf : d.served.find? (·.1 = w) with
    | none =>
      simp only [step, hf]
      exact h
    | some x =>
      obtain ⟨v, s⟩ := x
      have hs : s ≠ .serviceUnavailable := hr.served (v, s) (mem_of_find?_eq_some hf)
      simp only [step, hf]
      have hallowed : Allowed d.trace (.answered w s) := by
        refine ⟨nofun, nofun, fun u hu htook => ?_⟩
        exact hr.released u htook
      have hrest : Requests { d with served := d.served.filter fun x => x.1 ≠ w } :=
        ⟨hr.nodup, hr.arrived, hr.idle, hr.acted, hr.refused, hr.released, fun x hx => hr.served x (mem_filter.mp hx).1⟩
      exact ⟨h.held.snoc hallowed nofun nofun, h.out.snoc nofun, answered_requests hrest s fun hu => absurd hu hs⟩

theorem run_owned (h : Owned d) (events : List Event) : Owned (d.run events) := by
  induction events generalizing d with
  | nil => exact h
  | cons e events ih => exact ih (step_owned h e)

theorem start_owned (opening : Opening) : Owned (start opening) := by
  have hempty : Held .faulted 0 [] :=
    ⟨.nil, nofun, nofun, nofun, fun pipe => ⟨Sublist.refl _, nofun, nofun⟩⟩
  have hnone : Out .faulted [] := fun earlier w between hsplit => by simp at hsplit
  obtain ⟨hheld, hout⟩ := openPipe_held (d := ⟨.faulted, 0, 0, [], [], []⟩) hempty hnone .startup nofun nofun opening
  refine ⟨hheld, hout (.inl rfl), ?_⟩
  have hentry : ∀ e ∈ (start opening).trace, (∀ v, ¬e.Acts v) ∧ (∀ v s, e ≠ .answered v s) ∧ ∀ v a, e ≠ .took v a := by
    cases opening with
    | refused => exact nofun
    | failed => simp [start, openPipe, note, Entry.Acts]
    | ready => simp [start, openPipe, note, Entry.Acts]
  have hwaiting : (start opening).waiting = [] ∧ (start opening).served = [] := by
    cases opening <;> exact ⟨rfl, rfl⟩
  refine ⟨?_, ?_, ?_, fun w e he hact => absurd hact ((hentry e he).1 w),
    fun w hw => absurd rfl ((hentry _ hw).2.1 w .serviceUnavailable), fun w hw => absurd rfl ((hentry _ hw).2.2 w .release), ?_⟩
  · rw [hwaiting.1]
    exact nodup_nil
  · rw [hwaiting.1]
    exact nofun
  · rw [hwaiting.1]
    exact nofun
  · rw [hwaiting.2]
    exact nofun

end Runs

/-- Over every order in which the readers, the writes and the requests take the
lock: from a release to a resume that opens the port only a resume touches it,
and a release that is answered was made; a pipe is opened where every other is
closed; a request refused for the lock never has the link; and what goes out on
a pipe is whole messages in the order their writes took the lock, but for the
last. -/
theorem daemon_owned (opening : Opening) (events : List Event) :
    let t := ((start opening).run events).trace
    (∀ before e, before ++ [e] <+: t → Allowed before e) ∧
      (∀ w, .answered w .serviceUnavailable ∈ t → ∀ e ∈ t, ¬e.Acts w) ∧
      ∀ pipe, ∃ whole cut, sentOn pipe t = whole.flatten ++ cut ∧
        (cut = [] ∧ whole <+ messages t ∨ ∃ message, cut <+: message ∧ whole ++ [message] <+ messages t) := by
  intro t
  have h : Owned ((start opening).run events) := run_owned (start_owned opening) events
  refine ⟨h.held.allowed, fun w hw => (h.requests.refused w hw).2.2, fun pipe => ?_⟩
  obtain ⟨hordered, hwhole, _⟩ := h.held.sent pipe
  change (writesOn pipe t).map Prod.fst <+ messages t at hordered
  change ∀ x ∈ (writesOn pipe t).dropLast, x.1.length ≤ x.2 at hwhole
  have all : ∀ l : List (Bytes × Nat), (∀ x ∈ l, x.1.length ≤ x.2) →
      l.flatMap (fun x => x.1.take x.2) = (l.map Prod.fst).flatten := by
    intro l hl
    induction l with
    | nil => rfl
    | cons x l ih =>
      obtain ⟨hx, hrest⟩ := forall_mem_cons.mp hl
      rw [flatMap_cons, map_cons, flatten_cons, take_of_length_le hx, ih hrest]
  rcases eq_nil_or_concat (writesOn pipe t) with hnil | ⟨init, last, hlast⟩
  · exact ⟨[], [], by rw [sentOn, hnil]; rfl, .inl ⟨rfl, nil_sublist _⟩⟩
  · rw [concat_eq_append] at hlast
    rw [hlast, map_append] at hordered
    rw [hlast, dropLast_concat] at hwhole
    refine ⟨init.map Prod.fst, last.1.take last.2, ?_, .inr ⟨last.1, take_prefix _ _, hordered⟩⟩
    rw [sentOn, hlast, flatMap_append, all init hwhole, flatMap_singleton]

end Daemon

end Multi64
