import Multi64.Relay

/-! What the relay brings across, over every run of its passes: each connection
gets packets of one boot in order, and the input buffer gets the client's. -/

namespace Multi64

namespace Relay

section Events

variable {o : Options} {asked : Bool} {s s' : System}

/-- Whether the relay can tell a boot from the one before; `asked` is before its
read, which is where it can tell by the pointers. -/
def Event.shown (asked : Bool) : Event → Bool
  | .publish _ _ .seen => true
  | .publish _ _ .moved => asked
  | .publish _ _ .hidden => false
  | _ => true

def Turn.shown (t : Turn) : Bool := t.before.all (Event.shown true) && t.between.all (Event.shown false)

/-- What an event does to the console. -/
inductive Happens (o : Options) (asked : Bool) (s : System) : Console → Prop where
  | same : Happens o asked s s.console
  | speak (b : Bytes) (published : s.console.buffers.isSome) (free : command s.console.output = 0) (said : command b ≠ 0)
      (full : b.length = o.maxPacket) :
      Happens o asked s { s.console with
        output := b
        packets := Function.update s.console.packets s.console.boot (s.console.packets s.console.boot ++ [b.take (packetLen b)]) }
  | take : Happens o asked s { s.console with input := overwrite s.console.input 2 [0, 0] }
  | reset (blank : Bytes)
      (bare : ¬(fits o s.console.rdramSize (readBe32 blank 0) = true ∧ fits o s.console.rdramSize (readBe32 blank 4) = true)) :
      Happens o asked s { s.console with boot := s.console.boot + 1, buffers := none, blank := blank }
  | publish (input output : UInt32) (none_ : s.console.buffers = none) (hinput : fits o s.console.rdramSize input = true)
      (houtput : fits o s.console.rdramSize output = true) (clear : apart o input output = true)
      (seen : s.letGo = true ∨ asked = true ∧ s.link.buffers ≠ some (input, output)) :
      Happens o asked s { s.console with
        buffers := some (input, output)
        output := List.replicate o.maxPacket 0
        input := List.replicate o.maxPacket 0 }
  | restart : Happens o asked s { s.console with restarting := true }

theorem fits_zero (size : Nat) : fits o size 0 = false := by simp [fits]

theorem happen_cases {e : Event} (he : e.shown asked = true) : ∃ c, happen o s e = { s with console := c } ∧ Happens o asked s c := by
  cases e with
  | speak b =>
    unfold happen
    simp only
    split
    · next h => exact ⟨_, rfl, .speak b h.1 h.2.1 h.2.2.1 h.2.2.2⟩
    · exact ⟨s.console, rfl, .same⟩
  | take =>
    unfold happen
    simp only
    split
    · exact ⟨_, rfl, .take⟩
    · exact ⟨s.console, rfl, .same⟩
  | reset blank =>
    refine ⟨_, rfl, .reset _ ?_⟩
    by_cases h : fits o s.console.rdramSize (readBe32 blank 0) = true ∧ fits o s.console.rdramSize (readBe32 blank 4) = true
    · rw [if_pos h]
      have hzero : readBe32 [] 0 = 0 := rfl
      rw [hzero, fits_zero]
      exact fun h => nomatch h.1
    · rw [if_neg h]
      exact h
  | publish input output how =>
    unfold happen
    simp only
    split
    · next h =>
      refine ⟨_, rfl, .publish input output (Option.isNone_iff_eq_none.mp h.1) h.2.1 h.2.2.1 h.2.2.2.1 ?_⟩
      cases how with
      | seen => exact .inl h.2.2.2.2
      | moved => exact .inr ⟨he, by simpa [System.shows] using h.2.2.2.2⟩
      | hidden => nomatch he
    · exact ⟨s.console, rfl, .same⟩
  | restart => exact ⟨_, rfl, .restart⟩

/-- What holds of the console in every run. -/
structure Console.Ok (o : Options) (c : Console) : Prop where
  clear : ∀ input output, c.buffers = some (input, output) →
    fits o c.rdramSize input = true ∧ fits o c.rdramSize output = true ∧ apart o input output = true
  full : c.buffers.isSome → c.output.length = o.maxPacket
  said : c.buffers.isSome → command c.output ≠ 0 →
    (c.packets c.boot).getLast? = some (c.output.take (packetLen c.output))
  bare : c.buffers = none →
    ¬(fits o c.rdramSize (readBe32 c.blank 0) = true ∧ fits o c.rdramSize (readBe32 c.blank 4) = true)

theorem command_zero {b : Bytes} (h2 : byteAt b 2 = 0) (h3 : byteAt b 3 = 0) : command b = 0 := by
  rw [command, readBe16, h2, h3]
  rfl

theorem command_replicate (n : Nat) : command (List.replicate n 0) = 0 := by
  have hbyte (i : Nat) : byteAt (List.replicate n 0) i = 0 := by
    simp only [byteAt, List.getD_eq_getElem?_getD, List.getElem?_replicate]
    split <;> rfl
  exact command_zero (hbyte 2) (hbyte 3)

theorem command_overwrite (b : Bytes) : command (overwrite b 2 [0, 0]) = 0 := by
  match b with
  | [] => exact command_zero rfl rfl
  | [x] => exact command_zero rfl rfl
  | x :: y :: rest => exact command_zero rfl rfl

theorem Console.Ok.happens (hs : s.console.Ok o) {c : Console} (h : Happens o asked s c) : c.Ok o := by
  cases h with
  | same => exact hs
  | speak b published free said full =>
    refine ⟨hs.clear, fun _ => full, fun _ _ => ?_, hs.bare⟩
    simp only [Function.update_self, List.getLast?_concat]
  | take => exact ⟨hs.clear, hs.full, hs.said, hs.bare⟩
  | reset blank bare => exact ⟨nofun, nofun, nofun, fun _ => bare⟩
  | publish input output none_ hinput houtput clear seen =>
    refine ⟨?_, fun _ => List.length_replicate, fun _ hsaid => absurd (command_replicate _) hsaid, nofun⟩
    rintro i o' h
    obtain ⟨rfl, rfl⟩ := Prod.mk.inj (Option.some.inj h)
    exact ⟨hinput, houtput, clear⟩
  | restart => exact ⟨hs.clear, hs.full, hs.said, hs.bare⟩

/-- The relay is about to learn that the boot its buffers are of is over: the
link restarted, or they are not those published. -/
def Stale (s : System) : Prop :=
  s.console.restarting = true ∨ s.link.generation ≠ some s.generation ∨ s.console.buffers ≠ s.link.buffers

theorem letGo_cases (hb : s.link.buffers.isSome) (h : s.letGo = true) :
    s.console.restarting = true ∨ s.link.generation ≠ some s.generation := by
  simp only [System.letGo, Bool.or_eq_true, Option.isNone_iff_eq_none, bne_iff_ne, ne_eq] at h
  rcases h with (hnone | hrestart) | hgen
  · rw [hnone] at hb
    nomatch hb
  · exact .inl hrestart
  · exact .inr hgen

theorem Stale.happens (hb : s.link.buffers.isSome) (hs : Stale s) {c : Console} (h : Happens o asked s c) :
    Stale { s with console := c } := by
  cases h with
  | same | speak | take => exact hs
  | reset blank bare =>
    refine .inr (.inr fun hnone => ?_)
    have hnone : none = s.link.buffers := hnone
    rw [← hnone] at hb
    nomatch hb
  | publish input output none_ hinput houtput clear seen =>
    rcases seen with hgo | ⟨_, hmoved⟩
    · rcases letGo_cases hb hgo with hrestart | hgen
      · exact .inl hrestart
      · exact .inr (.inl hgen)
    · exact .inr (.inr (Ne.symm hmoved))
  | restart => exact .inl rfl

/-- Nothing a pass writes can land. -/
def Lost (s : System) : Prop := s.console.restarting = true ∨ s.console.buffers = none

theorem Lost.stale (hb : s.link.buffers.isSome) (hs : Lost s) : Stale s := by
  rcases hs with hrestart | hnone
  · exact .inl hrestart
  · refine .inr (.inr fun heq => ?_)
    rw [← heq, hnone] at hb
    nomatch hb

theorem Lost.happens (hb : s.link.buffers.isSome) (hgen : s.link.generation = some s.generation) (hs : Lost s) {c : Console}
    (h : Happens o false s c) : Lost { s with console := c } := by
  cases h with
  | same | speak | take => exact hs
  | reset blank bare => exact .inr rfl
  | publish input output none_ hinput houtput clear seen =>
    rcases seen with hgo | ⟨hasked, _⟩
    · exact .inl ((letGo_cases hb hgo).resolve_right (absurd hgen))
    · nomatch hasked
  | restart => exact .inl rfl

/-- The relay faces the boot its buffers are of, as far as it has gone: a packet
sent is still in the output buffer, and an input buffer seen free is free. -/
structure Facing (s : System) (sent free : Bool) : Prop where
  buffers : s.console.buffers = s.link.buffers
  sent : sent = true → command s.console.output ≠ 0
  free : free = true → command s.console.input = 0

theorem Facing.happens {sent free : Bool} (hb : s.link.buffers.isSome) (hs : Facing s sent free) {c : Console} (h : Happens o asked s c) :
    Lost { s with console := c } ∨ Facing { s with console := c } sent free := by
  cases h with
  | same => exact .inr hs
  | speak b published free said full => exact .inr ⟨hs.buffers, fun _ => said, hs.free⟩
  | take => exact .inr ⟨hs.buffers, hs.sent, fun _ => command_overwrite _⟩
  | reset blank bare => exact .inl (.inr rfl)
  | publish input output none_ hinput houtput clear seen =>
    rw [← hs.buffers, none_] at hb
    nomatch hb
  | restart => exact .inl (.inl rfl)

end Events

section Ledger

variable {o : Options} {asked : Bool} {s : System} {packets packets' : Nat → List Bytes} {landed : List Landing} {k : Nat} {d : Conn}
  {boot i n : Nat} {cut extra : Bytes} {sent free : Bool}

/-- The packets a connection has put in the input buffer. -/
def putBy (landed : List Landing) (k : Nat) : List Bytes := (landed.filter (·.conn = k)).map (·.packet)

/-- A packet with its length in front, that a buffer holds. -/
def Framed (o : Options) (p : Bytes) : Prop := 4 ≤ p.length ∧ p.length ≤ o.maxPacket ∧ packetLen p = p.length

/-- What a connection was sent are `n` packets of one boot from the `i`-th on,
and part of the next where a send was cut; what it put are the packets its bytes
start with. -/
structure Kept (o : Options) (packets : Nat → List Bytes) (landed : List Landing) (k : Nat) (d : Conn) (boot i n : Nat)
    (cut : Bytes) : Prop where
  received : d.received = (((packets boot).drop i).take n).flatten ++ cut
  counted : i + n ≤ (packets boot).length
  part : cut = [] ∨ ∃ p, (packets boot)[i + n]? = some p ∧ cut <+: p
  stream : (putBy landed k).flatten <+: d.stream
  put : ∀ e ∈ landed, e.conn = k → e.boot = boot ∧ e.generation = d.generation ∧ e.free = true ∧ Framed o e.packet

/-- A connection that was let go, and nothing of it since. -/
def Done (o : Options) (packets : Nat → List Bytes) (landed : List Landing) (k : Nat) (d : Conn) : Prop :=
  (∃ boot i n cut, Kept o packets landed k d boot i n cut) ∧
    ∃ m, d.gone = some m ∧ ∀ j e, m ≤ j → landed[j]? = some e → e.conn ≠ k

theorem Kept.grows (hk : Kept o packets landed k d boot i n cut) (h : ∀ b, packets b <+: packets' b) :
    Kept o packets' landed k d boot i n cut := by
  obtain ⟨more, hmore⟩ := h boot
  have hn : n ≤ ((packets boot).drop i).length := by
    have hcounted := hk.counted
    rw [List.length_drop]
    omega
  constructor
  · rw [hk.received, ← hmore, List.drop_append_of_le_length (by have := hk.counted; omega), List.take_append_of_le_length hn]
  · exact Nat.le_trans hk.counted (h boot).length_le
  · refine hk.part.imp_right fun ⟨p, hp, hcut⟩ => ⟨p, ?_, hcut⟩
    rw [← hmore, List.getElem?_append_left (List.getElem?_eq_some_iff.mp hp).1]
    exact hp
  · exact hk.stream
  · exact hk.put

theorem putBy_append {e : Landing} : putBy (landed ++ [e]) k = putBy landed k ++ (if e.conn = k then [e.packet] else []) := by
  unfold putBy
  rw [List.filter_append, List.map_append]
  by_cases he : e.conn = k
  · simp [he]
  · simp [he]

/-- A packet that another connection puts. -/
theorem Kept.other (hk : Kept o packets landed k d boot i n cut) {e : Landing} (he : e.conn ≠ k) :
    Kept o packets (landed ++ [e]) k d boot i n cut := by
  refine ⟨hk.received, hk.counted, hk.part, ?_, ?_⟩
  · rw [putBy_append, if_neg he, List.append_nil]
    exact hk.stream
  · intro e' he' hconn
    rcases List.mem_append.mp he' with hold | hnew
    · exact hk.put e' hold hconn
    · rw [List.mem_singleton.mp hnew] at hconn
      exact absurd hconn he

theorem Done.grows (hd : Done o packets landed k d) (h : ∀ b, packets b <+: packets' b) : Done o packets' landed k d := by
  obtain ⟨⟨boot, i, n, cut, hk⟩, hgone⟩ := hd
  exact ⟨⟨boot, i, n, cut, hk.grows h⟩, hgone⟩

theorem Done.other (hd : Done o packets landed k d) {e : Landing} (he : e.conn ≠ k) : Done o packets (landed ++ [e]) k d := by
  obtain ⟨⟨boot, i, n, cut, hk⟩, m, hgone, hsince⟩ := hd
  refine ⟨⟨boot, i, n, cut, hk.other he⟩, m, hgone, fun j e' hj he' => ?_⟩
  rcases Nat.lt_or_ge j landed.length with hlt | hge
  · rw [List.getElem?_append_left hlt] at he'
    exact hsince j e' hj he'
  · rw [List.getElem?_append_right hge] at he'
    obtain rfl := List.mem_singleton.mp (List.mem_of_getElem? he')
    exact he

/-- What is in the input buffer came from the connections in turn. -/
def Ordered (landed : List Landing) (n : Nat) : Prop :=
  (∀ e ∈ landed, e.conn < n) ∧ (landed.map (·.conn)).Pairwise (· ≤ ·)

structure Base (o : Options) (s : System) : Prop where
  ok : s.console.Ok o
  ordered : Ordered s.landed s.conns.length
  fitted : ∀ input output, s.link.buffers = some (input, output) → fits o s.console.rdramSize input = true ∧
    fits o s.console.rdramSize output = true
  past : ∀ g, s.link.generation = some g → g ≤ s.generation

def NoConn (o : Options) (s : System) : Prop :=
  s.link.conn = false ∧ s.link.inbox = [] ∧ ∀ k d, s.conns[k]? = some d → Done o s.console.packets s.landed k d

/-- The last connection is open. -/
structure Opened (o : Options) (s : System) (cs : List Conn) (d : Conn) (boot i n : Nat) : Prop where
  conn : s.link.conn = true
  conns : s.conns = cs ++ [d]
  done : ∀ k e, cs[k]? = some e → Done o s.console.packets s.landed k e
  kept : Kept o s.console.packets s.landed cs.length d boot i n []
  gone : d.gone = none
  generation : s.link.generation = some d.generation
  buffers : s.link.buffers.isSome

/-- The open connection has been sent all the boot's packets up to the one in the
output buffer, and its bytes are those put, those taken out to be put and those
still here. -/
structure Synced (s : System) (k : Nat) (d : Conn) (boot i n : Nat) (sent : Bool) (extra : Bytes) : Prop where
  same : s.console.boot = boot
  packets : (s.console.packets boot).length = i + n + (if command s.console.output = 0 ∨ sent = true then 0 else 1)
  stream : (putBy s.landed k).flatten ++ extra ++ s.link.inbox = d.stream

def Open (o : Options) (s : System) (sent free : Bool) (extra : Bytes) : Prop :=
  ∃ cs d boot i n, Opened o s cs d boot i n ∧ (Stale s ∨ Facing s sent free ∧ Synced s cs.length d boot i n sent extra)

/-- What holds between passes. -/
def Inv (o : Options) (s : System) : Prop := Base o s ∧ (NoConn o s ∨ Open o s false false [])

theorem packets_grow {c : Console} (h : Happens o asked s c) (b : Nat) : s.console.packets b <+: c.packets b := by
  cases h with
  | speak buffer published free said full =>
    by_cases hb : b = s.console.boot
    · subst hb
      simp only [Function.update_self]
      exact List.prefix_append _ _
    · simp only [Function.update_of_ne hb]
      exact List.prefix_refl _
  | same | take | reset | publish | restart => exact List.prefix_refl _

theorem rdramSize_kept {c : Console} (h : Happens o asked s c) : c.rdramSize = s.console.rdramSize := by
  cases h with
  | same | speak | take | reset | publish | restart => rfl

theorem Base.happens (hb : Base o s) {c : Console} (h : Happens o asked s c) : Base o { s with console := c } := by
  refine ⟨hb.ok.happens h, hb.ordered, fun input output hbuf => ?_, hb.past⟩
  rw [rdramSize_kept h]
  exact hb.fitted input output hbuf

theorem NoConn.happens (hn : NoConn o s) {c : Console} (h : Happens o asked s c) : NoConn o { s with console := c } :=
  ⟨hn.1, hn.2.1, fun k d hd => (hn.2.2 k d hd).grows (packets_grow h)⟩

theorem Opened.happens {cs : List Conn} (ho : Opened o s cs d boot i n) {c : Console} (h : Happens o asked s c) :
    Opened o { s with console := c } cs d boot i n where
  conn := ho.conn
  conns := ho.conns
  done k e he := (ho.done k e he).grows (packets_grow h)
  kept := ho.kept.grows (packets_grow h)
  gone := ho.gone
  generation := ho.generation
  buffers := ho.buffers

theorem Synced.happens (hb : s.link.buffers.isSome) (hf : Facing s sent free) (hs : Synced s k d boot i n sent extra) {c : Console} (h : Happens o asked s c)
    (hfresh : ¬Stale { s with console := c }) : Synced { s with console := c } k d boot i n sent extra := by
  cases h with
  | same => exact hs
  | speak b published free_ said full =>
    have hsent : sent = false := by
      cases sent with
      | false => rfl
      | true => exact absurd free_ (hf.sent rfl)
    refine ⟨hs.same, ?_, hs.stream⟩
    have hlen := hs.packets
    rw [if_pos (.inl free_)] at hlen
    rw [← hs.same] at hlen ⊢
    simp only [Function.update_self, List.length_append, List.length_singleton, hlen, said, hsent, false_or,
      Bool.false_eq_true, if_false]
  | take => exact ⟨hs.same, hs.packets, hs.stream⟩
  | reset blank bare =>
    refine absurd (Lost.stale ?_ (.inr rfl)) hfresh
    exact hb
  | publish input output none_ hinput houtput clear seen =>
    rw [← hf.buffers, none_] at hb
    nomatch hb
  | restart => exact ⟨hs.same, hs.packets, hs.stream⟩

theorem Open.happens (ho : Open o s sent free extra) {c : Console} (h : Happens o asked s c) :
    Open o { s with console := c } sent free extra := by
  obtain ⟨cs, d, boot, i, n, hopened, hlive⟩ := ho
  refine ⟨cs, d, boot, i, n, hopened.happens h, ?_⟩
  rcases hlive with hstale | ⟨hfacing, hsynced⟩
  · exact .inl (hstale.happens hopened.buffers h)
  · rcases hfacing.happens hopened.buffers h with hlost | hfacing'
    · exact .inl (hlost.stale hopened.buffers)
    · by_cases hstale : Stale { s with console := c }
      · exact .inl hstale
      · exact .inr ⟨hfacing', hsynced.happens hopened.buffers hfacing h hstale⟩

theorem Inv.happens (hi : Inv o s) {c : Console} (h : Happens o asked s c) : Inv o { s with console := c } :=
  ⟨hi.1.happens h, hi.2.imp (·.happens h) (·.happens h)⟩

/-- What holds in a pass between its read and its write. -/
structure Mid (o : Options) (input output : UInt32) (sent free : Bool) (extra : Bytes) (s : System) : Prop where
  base : Base o s
  checked : s.link.generation = some s.generation
  buffers : s.link.buffers = some (input, output)
  facing : Lost s ∨ Facing s sent free
  conns : NoConn o s ∨ Open o s sent free extra

theorem Mid.happens {input output : UInt32} (hm : Mid o input output sent free extra s) {c : Console} (h : Happens o false s c) :
    Mid o input output sent free extra { s with console := c } := by
  have hb : s.link.buffers.isSome := by rw [hm.buffers]; rfl
  refine ⟨hm.base.happens h, hm.checked, hm.buffers, ?_, hm.conns.imp (·.happens h) (·.happens h)⟩
  rcases hm.facing with hlost | hfacing
  · exact .inl (hlost.happens hb hm.checked h)
  · exact hfacing.happens hb h

/-- What every event keeps, all of them keep. -/
theorem happenAll_keeps {P : System → Prop} (hP : ∀ s, P s → ∀ c, Happens o asked s c → P { s with console := c }) (es : List Event)
    (hes : es.all (Event.shown asked) = true) (hs : P s) : P (happenAll o s es) := by
  induction es generalizing s with
  | nil => exact hs
  | cons e es ih =>
    rw [List.all_cons, Bool.and_eq_true] at hes
    obtain ⟨c, hc, hstep⟩ := happen_cases (o := o) (s := s) hes.1
    have hnext := hP s hs c hstep
    rw [← hc] at hnext
    exact ih hes.2 hnext

theorem Open.weaken (ho : Open o s sent free extra) (hextra : ¬Stale s → sent = false ∧ extra = []) : Open o s false false [] := by
  obtain ⟨cs, d, boot, i, n, hopened, hlive⟩ := ho
  refine ⟨cs, d, boot, i, n, hopened, ?_⟩
  by_cases hstale : Stale s
  · exact .inl hstale
  · obtain ⟨rfl, rfl⟩ := hextra hstale
    obtain ⟨hfacing, hsynced⟩ := hlive.resolve_left hstale
    exact .inr ⟨⟨hfacing.buffers, nofun, nofun⟩, hsynced⟩

theorem Stale.restarted (hpast : ∀ g, s.link.generation = some g → g ≤ s.generation) (hs : Stale s) :
    Stale (Relay.restarted s) := by
  by_cases hr : s.console.restarting = true
  · refine .inr (.inl fun h => ?_)
    have hle := hpast _ h
    simp only [Relay.restarted, hr, if_true] at hle
    omega
  · rcases hs with h | h | h
    · exact absurd h hr
    · refine .inr (.inl ?_)
      simp only [Relay.restarted, hr, Bool.false_eq_true, if_false, Nat.add_zero]
      exact h
    · exact .inr (.inr h)

theorem Base.restarted (hb : Base o s) : Base o (Relay.restarted s) :=
  ⟨⟨hb.ok.clear, hb.ok.full, hb.ok.said, hb.ok.bare⟩, hb.ordered, hb.fitted, fun g hg => Nat.le_add_right_of_le (hb.past g hg)⟩

theorem Open.restarted (hb : Base o s) (ho : Open o s sent free extra) : Open o (Relay.restarted s) sent free extra := by
  obtain ⟨cs, d, boot, i, n, hopened, hlive⟩ := ho
  refine ⟨cs, d, boot, i, n, ⟨hopened.conn, hopened.conns, hopened.done, hopened.kept, hopened.gone, hopened.generation,
    hopened.buffers⟩, ?_⟩
  refine hlive.imp (·.restarted hb.past) fun ⟨hfacing, hsynced⟩ => ?_
  exact ⟨⟨hfacing.buffers, hfacing.sent, hfacing.free⟩, ⟨hsynced.same, hsynced.packets, hsynced.stream⟩⟩

theorem Inv.restarted (hi : Inv o s) : Inv o (Relay.restarted s) :=
  ⟨hi.1.restarted, hi.2.imp (fun hn => ⟨hn.1, hn.2.1, hn.2.2⟩) (·.restarted hi.1)⟩

end Ledger

section Drops

variable {o : Options} {s : System}

/-- A connection as it is when it is let go. -/
def Leaving (o : Options) (s : System) : Prop :=
  s.link.conn = true ∧ ∃ cs d, s.conns = cs ++ [d] ∧ (∀ k e, cs[k]? = some e → Done o s.console.packets s.landed k e) ∧
    ∃ boot i n cut, Kept o s.console.packets s.landed cs.length d boot i n cut

theorem Open.leaving {sent free : Bool} {extra : Bytes} (ho : Open o s sent free extra) : Leaving o s := by
  obtain ⟨cs, d, boot, i, n, hopened, _⟩ := ho
  exact ⟨hopened.conn, cs, d, hopened.conns, hopened.done, boot, i, n, [], hopened.kept⟩

theorem modify_last (cs : List Conn) (d : Conn) (f : Conn → Conn) : (cs ++ [d]).modify ((cs ++ [d]).length - 1) f = cs ++ [f d] := by
  rw [List.length_append, List.length_singleton, Nat.add_sub_cancel]
  induction cs with
  | nil => rfl
  | cons c cs ih => exact congrArg (c :: ·) ih

def dropped (s : System) : System :=
  let s := if s.link.conn then letConnGo s else s
  { s with link := { s.link with conn := false, inbox := [] } }

theorem dropClient_run (s : System) : dropClient s = (.ok (), dropped s) := rfl

theorem dropped_kept (s : System) : (dropped s).console = s.console ∧ (dropped s).landed = s.landed ∧
    (dropped s).generation = s.generation ∧ (dropped s).link.buffers = s.link.buffers ∧
    (dropped s).link.generation = s.link.generation ∧ (dropped s).conns.length = s.conns.length := by
  unfold dropped
  by_cases hc : s.link.conn = true
  · simp [hc, letConnGo]
  · simp [hc]

theorem Base.dropped (hb : Base o s) : Base o (dropped s) := by
  obtain ⟨hconsole, hlanded, hgen, hbuf, hlink, hlen⟩ := dropped_kept s
  constructor
  · rw [hconsole]
    exact hb.ok
  · rw [hlanded, hlen]
    exact hb.ordered
  · rw [hbuf, hconsole]
    exact hb.fitted
  · rw [hlink, hgen]
    exact hb.past

theorem dropped_noConn (h : NoConn o s ∨ Leaving o s) : NoConn o (dropped s) := by
  rcases h with hn | ⟨hconn, cs, d, hconns, hdone, boot, i, n, cut, hkept⟩
  · have hs : dropped s = { s with link := { s.link with conn := false, inbox := [] } } := by
      unfold dropped
      simp [hn.1]
    rw [hs]
    exact ⟨rfl, rfl, hn.2.2⟩
  · have hs : dropped s = { s with
        conns := cs ++ [{ d with gone := some s.landed.length }], link := { s.link with conn := false, inbox := [] } } := by
      unfold dropped letConnGo
      simp only [hconn, if_true, hconns, modify_last]
    rw [hs]
    refine ⟨rfl, rfl, fun k e he => ?_⟩
    rcases Nat.lt_or_ge k cs.length with hlt | hge
    · simp only at he
      rw [List.getElem?_append_left hlt] at he
      exact hdone k e he
    · simp only at he
      rw [List.getElem?_append_right hge] at he
      have hk : k = cs.length := by
        have hlt := (List.getElem?_eq_some_iff.mp he).1
        rw [List.length_singleton] at hlt
        omega
      obtain rfl := List.mem_singleton.mp (List.mem_of_getElem? he)
      subst hk
      refine ⟨⟨boot, i, n, cut, ⟨hkept.received, hkept.counted, hkept.part, hkept.stream, hkept.put⟩⟩, _, rfl, fun j e hj he => ?_⟩
      exact absurd (List.getElem?_eq_some_iff.mp he).1 (Nat.not_lt_of_le hj)

theorem Mid.dropped {input output : UInt32} {sent free : Bool} {extra : Bytes} (hm : Mid o input output sent free extra s) :
    Mid o input output sent free [] (dropped s) := by
  obtain ⟨hconsole, hlanded, hgen, hbuf, hlink, hlen⟩ := dropped_kept s
  refine ⟨hm.base.dropped, by rw [hlink, hgen]; exact hm.checked, hbuf.trans hm.buffers, ?_,
    .inl (dropped_noConn (hm.conns.imp_right (·.leaving)))⟩
  refine hm.facing.imp (fun hlost => ?_) fun hfacing => ?_
  · unfold Lost
    rw [hconsole]
    exact hlost
  · exact ⟨by rw [hconsole, hbuf]; exact hfacing.buffers, by rw [hconsole]; exact hfacing.sent, by rw [hconsole]; exact hfacing.free⟩

end Drops

section Requests

variable {o : Options} {s : System} {input output : UInt32} {sent free : Bool}

/-- What holds where a pass ends the session. -/
def Safe (o : Options) (s : System) : Prop := Base o s ∧ (NoConn o s ∨ ∃ sent free extra, Open o s sent free extra)

theorem Inv.safe (hi : Inv o s) : Safe o s := ⟨hi.1, hi.2.imp_right fun ho => ⟨false, false, [], ho⟩⟩

/-- A session goes on with the invariant, or ends with what matters of it. -/
def Ends {α : Type} (o : Options) (r : Except Failure α × System) : Prop :=
  match r.1 with
  | .ok _ => Inv o r.2
  | .error _ => Safe o r.2

theorem Ends.of_inv {α : Type} {r : Except Failure α × System} (h : Inv o r.2) : Ends o r := by
  unfold Ends
  cases r.1 with
  | ok _ => exact h
  | error _ => exact h.safe

theorem readMany_inv (hi : Inv o s) {es : List Event} (hes : es.all (Event.shown true) = true) (fails : Option String)
    (regions : List (Nat × Nat)) : Inv o (readMany o es fails regions s).2 := by
  have hafter : Inv o (restarted (happenAll o s es)) := (happenAll_keeps (fun _ hi _ h => hi.happens h) es hes hi).restarted
  unfold readMany
  cases fails with
  | some why => exact hafter
  | none => exact hafter

/-- A restart found: the client is let go. One not found: nothing has changed. -/
theorem linkRestarted_cases (hi : Inv o s) :
    (linkRestarted s = (.ok false, { s with link := { s.link with generation := some s.generation } }) ∧
      Inv o { s with link := { s.link with generation := some s.generation } }) ∨
    ∃ s', linkRestarted s = (.ok true, s') ∧ Inv o s' := by
  by_cases hsame : s.link.generation = none ∨ s.link.generation = some s.generation
  · refine .inl ⟨?_, ?_⟩
    · unfold linkRestarted
      simp only [hsame, if_true]
    · refine ⟨⟨hi.1.ok, hi.1.ordered, hi.1.fitted, fun g hg => Nat.le_of_eq (Option.some.inj hg).symm⟩, ?_⟩
      refine hi.2.imp (fun hn => ⟨hn.1, hn.2.1, hn.2.2⟩) fun ho => ?_
      obtain ⟨cs, d, boot, i, n, hopened, hlive⟩ := ho
      have hgen : s.link.generation = some s.generation := by
        rcases hsame with hnone | hsome
        · rw [hopened.generation] at hnone
          nomatch hnone
        · exact hsome
      have hself : { s with link := { s.link with generation := some s.generation } } = s := by rw [← hgen]
      rw [hself]
      exact ⟨cs, d, boot, i, n, hopened, hlive⟩
  · refine .inr ⟨dropped { s with link := { s.link with generation := some s.generation, buffers := none } }, ?_, ?_, ?_⟩
    · unfold linkRestarted
      simp only [hsame, if_false]
      rfl
    · exact Base.dropped ⟨hi.1.ok, hi.1.ordered, nofun, fun g hg => Nat.le_of_eq (Option.some.inj hg).symm⟩
    · refine .inl (dropped_noConn (hi.2.imp (fun hn => ⟨hn.1, hn.2.1, hn.2.2⟩) fun ho => ?_))
      exact ho.leaving

theorem readMany_link {es : List Event} (hes : es.all (Event.shown true) = true) (fails : Option String)
    (regions : List (Nat × Nat)) : (readMany o es fails regions s).2.link = s.link := by
  have hafter : (happenAll o s es).link = s.link :=
    happenAll_keeps (o := o) (P := fun s' => s'.link = s.link) (fun _ h _ _ => h) es hes rfl
  unfold readMany
  cases fails with
  | some why => exact hafter
  | none => exact hafter

theorem NoConn.of_buffers (hi : Inv o s) (hnone : s.link.buffers = none) : NoConn o s := by
  refine hi.2.resolve_right fun ⟨cs, d, boot, i, n, hopened, _⟩ => ?_
  have hsome := hopened.buffers
  rw [hnone] at hsome
  nomatch hsome

theorem accept_inv (hi : Inv o s) (hidle : NoConn o s) (found : UInt32 × UInt32) : Inv o (accept o found s).2 := by
  unfold accept
  by_cases hfits : fits o s.console.rdramSize found.1 = true ∧ fits o s.console.rdramSize found.2 = true
  · rw [if_pos hfits]
    refine ⟨⟨hi.1.ok, hi.1.ordered, fun input output h => ?_, hi.1.past⟩, .inl ⟨hidle.1, hidle.2.1, hidle.2.2⟩⟩
    have hfound : found = (input, output) := Option.some.inj h
    rw [hfound] at hfits
    exact hfits
  · rw [if_neg hfits]
    exact ⟨hi.1.dropped, .inl (dropped_noConn (.inl hidle))⟩

theorem settle_inv (hi : Inv o s) (hidle : NoConn o s) (r : List Bytes) : Inv o (settle o r s).2 := by
  unfold settle
  exact accept_inv hi hidle _

/-- What follows a read sees the console as it was read. -/
theorem readMany_then {α : Type} {es : List Event} (hi : Inv o s) (hes : es.all (Event.shown true) = true) (fails : Option String)
    (regions : List (Nat × Nat)) {f : List Bytes → Act α}
    (hf : ∀ s', Inv o s' → s'.link = s.link → s'.console.restarting = false → Ends o (f (regions.map (s'.console.block o)) s')) :
    Ends o ((readMany o es fails regions >>= f) s) := by
  have hread := readMany_inv hi hes fails regions
  have hlink := readMany_link (o := o) (s := s) hes fails regions
  rw [Eff.bind_run]
  revert hread hlink
  cases fails with
  | some why => exact fun hread _ => hread.safe
  | none => exact fun hread hlink => hf _ hread hlink rfl

theorem findBuffers_ends (hi : Inv o s) (hnone : s.link.buffers = none) {t : Turn} (ht : t.before.all (Event.shown true) = true) :
    Ends o (findBuffers o t s) :=
  readMany_then hi ht _ _ fun _ hread hlink _ => .of_inv (settle_inv hread (.of_buffers hread (hlink ▸ hnone)) _)

theorem Mid.inv {extra : Bytes} (hm : Mid o input output false free extra s) (hextra : extra = []) : Inv o s :=
  ⟨hm.base, hm.conns.imp_right (·.weaken fun _ => ⟨rfl, hextra⟩)⟩

theorem Mid.published {extra : Bytes} (hm : Mid o input output sent free extra s) : s.link.buffers.isSome := by
  rw [hm.buffers]
  rfl

/-- What a turn's write leaves where it does not land. -/
theorem Mid.unwritten {extra : Bytes} (hm : Mid o input output sent free extra s) (hlost : Lost s) : Inv o s :=
  ⟨hm.base, hm.conns.imp_right (·.weaken fun hfresh => absurd (hlost.stale hm.published) hfresh)⟩

theorem Mid.current {extra : Bytes} (hm : Mid o input output sent free extra s) (hkept : ¬Lost s) : Facing s sent free ∧ ¬Stale s := by
  have hfacing := hm.facing.resolve_left hkept
  refine ⟨hfacing, ?_⟩
  rintro (hrestart | hgen | hbuf)
  · exact hkept (.inl hrestart)
  · exact hgen hm.checked
  · exact hbuf hfacing.buffers

/-- The writes of a pass: the packet just sent cleared, and one put in. -/
def writesOf (input output : UInt32) (sent : Bool) (packet : Option Bytes) : List (Nat × Bytes) :=
  (if sent then [(physical output + 2, [0, 0])] else []) ++ packet.toList.map fun p => (physical input, p)

theorem Base.put_output (hb : Base o s) (hbuf : s.console.buffers = some (input, output)) :
    Base o { s with console := { s.console with output := overwrite s.console.output 2 [0, 0] } } := by
  have hlen := hb.ok.full (by rw [hbuf]; rfl)
  have hroom := o.room
  refine ⟨⟨hb.ok.clear, fun _ => ?_, fun _ hsaid => absurd (command_overwrite _) hsaid, hb.ok.bare⟩, hb.ordered, hb.fitted, hb.past⟩
  rw [overwrite_length (by rw [List.length_cons, List.length_singleton]; omega)]
  exact hlen

/-- The output buffer cleared, where its packet was sent. -/
theorem Mid.clear {extra : Bytes} (hm : Mid o input output true free extra s) (hkept : ¬Lost s) :
    Mid o input output false free extra
      { s with console := { s.console with output := overwrite s.console.output 2 [0, 0] } } := by
  obtain ⟨hfacing, hfresh⟩ := hm.current hkept
  have hbuf : s.console.buffers = some (input, output) := hfacing.buffers.trans hm.buffers
  have hfacing' : Facing { s with console := { s.console with output := overwrite s.console.output 2 [0, 0] } } false free :=
    ⟨hfacing.buffers, nofun, hfacing.free⟩
  refine ⟨hm.base.put_output hbuf, hm.checked, hm.buffers, .inr hfacing', ?_⟩
  refine hm.conns.imp (fun hn => ⟨hn.1, hn.2.1, hn.2.2⟩) fun ⟨cs, d, boot, i, n, hopened, hlive⟩ => ?_
  obtain ⟨_, hsynced⟩ := hlive.resolve_left hfresh
  refine ⟨cs, d, boot, i, n, ⟨hopened.conn, hopened.conns, hopened.done, hopened.kept, hopened.gone, hopened.generation,
    hopened.buffers⟩, .inr ⟨hfacing', hsynced.same, ?_, hsynced.stream⟩⟩
  have hlen := hsynced.packets
  rw [if_pos (.inr rfl)] at hlen
  rw [if_pos (.inl (command_overwrite _))]
  exact hlen

/-- A packet put in the input buffer, by the connection that is open. -/
theorem land_packet {packet : Bytes} (hm : Mid o input output false true packet s) (hopen : Open o s false true packet)
    (hfresh : ¬Stale s) (hframed : Framed o packet) :
    Inv o { s with
      console := { s.console with input := overwrite s.console.input 0 packet }
      landed := s.landed ++ [⟨s.conns.length - 1, s.console.boot, s.generation, command s.console.input = 0, packet⟩] } := by
  obtain ⟨cs, d, boot, i, n, hopened, hlive⟩ := hopen
  obtain ⟨hfacing, hsynced⟩ := hlive.resolve_left hfresh
  have hlen : s.conns.length - 1 = cs.length := by rw [hopened.conns, List.length_append, List.length_singleton]; omega
  have hlen' : s.conns.length = cs.length + 1 := by rw [hopened.conns, List.length_append, List.length_singleton]
  have hfree : command s.console.input = 0 := hfacing.free rfl
  have hgen : s.generation = d.generation := Option.some.inj (hm.checked.symm.trans hopened.generation)
  rw [hlen]
  constructor
  · refine ⟨⟨hm.base.ok.clear, hm.base.ok.full, hm.base.ok.said, hm.base.ok.bare⟩, ⟨fun e he => ?_, ?_⟩, hm.base.fitted, hm.base.past⟩
    · rcases List.mem_append.mp he with hold | hnew
      · exact hm.base.ordered.1 e hold
      · rw [List.mem_singleton.mp hnew, hlen']
        exact Nat.lt_succ_self _
    · rw [List.map_append, List.pairwise_append]
      refine ⟨hm.base.ordered.2, List.pairwise_singleton _ _, fun a ha b hb => ?_⟩
      obtain ⟨e, he, rfl⟩ := List.mem_map.mp ha
      rw [List.map_singleton, List.mem_singleton] at hb
      have hlt := hm.base.ordered.1 e he
      rw [hb]
      simp only
      omega
  · refine .inr ⟨cs, d, boot, i, n, ⟨hopened.conn, hopened.conns, fun k e he => (hopened.done k e he).other ?_, ?_, hopened.gone,
      hopened.generation, hopened.buffers⟩, .inr ⟨⟨hfacing.buffers, nofun, nofun⟩, hsynced.same, hsynced.packets, ?_⟩⟩
    · have hlt := (List.getElem?_eq_some_iff.mp he).1
      simp only
      omega
    · refine ⟨hopened.kept.received, hopened.kept.counted, hopened.kept.part, ?_, fun e he hconn => ?_⟩
      · rw [putBy_append, if_pos rfl, List.flatten_append, List.flatten_singleton, ← hsynced.stream]
        exact List.prefix_append _ _
      · rcases List.mem_append.mp he with hold | hnew
        · exact hopened.kept.put e hold hconn
        · rw [List.mem_singleton.mp hnew]
          exact ⟨hsynced.same, hgen, decide_eq_true hfree, hframed⟩
    · rw [putBy_append, if_pos rfl, List.flatten_append, List.flatten_singleton, List.append_nil]
      exact hsynced.stream

theorem Mid.safe {extra : Bytes} (hm : Mid o input output sent free extra s) : Safe o s :=
  ⟨hm.base, hm.conns.imp_right fun ho => ⟨sent, free, extra, ho⟩⟩

theorem apart_ne (h : apart o input output = true) : physical input ≠ physical output + 2 := by
  have hroom := o.room
  simp only [apart, Bool.and_eq_true, decide_eq_true_eq] at h
  omega

theorem put_clear (hbuf : s.console.buffers = some (input, output)) : put s (physical output + 2, [0, 0]) =
    { s with console := { s.console with output := overwrite s.console.output 2 [0, 0] } } := by
  unfold put
  simp only
  split
  · next i out heq =>
    rw [hbuf] at heq
    obtain ⟨rfl, rfl⟩ := Prod.mk.inj (Option.some.inj heq)
    rw [if_pos rfl]
  · next heq =>
    rw [hbuf] at heq
    nomatch heq

theorem put_packet (hbuf : s.console.buffers = some (input, output)) (hne : physical input ≠ physical output + 2) (p : Bytes) :
    put s (physical input, p) = { s with
      console := { s.console with input := overwrite s.console.input 0 p }
      landed := s.landed ++ [⟨s.conns.length - 1, s.console.boot, s.generation, command s.console.input = 0, p⟩] } := by
  unfold put
  simp only
  split
  · next i out heq =>
    rw [hbuf] at heq
    obtain ⟨rfl, rfl⟩ := Prod.mk.inj (Option.some.inj heq)
    rw [if_neg hne, if_pos rfl]
  · next heq =>
    rw [hbuf] at heq
    nomatch heq

theorem puts_none (hbuf : s.console.buffers = none) (writes : List (Nat × Bytes)) : writes.foldl put s = s := by
  induction writes with
  | nil => rfl
  | cons w writes ih =>
    have hw : put s w = s := by simp only [put, hbuf]
    rw [List.foldl_cons, hw]
    exact ih

/-- A packet that is to be put: the connection is open and the buffer was free. -/
def Sends (o : Options) (s : System) (free : Bool) (extra : Bytes) : Option Bytes → Prop
  | none => extra = []
  | some p => extra = p ∧ Framed o p ∧ free = true ∧ s.link.conn = true

theorem Sends.of_link {s' : System} {extra : Bytes} {packet : Option Bytes} (hlink : s'.link = s.link)
    (h : Sends o s free extra packet) : Sends o s' free extra packet := by
  cases packet with
  | none => exact h
  | some p =>
    obtain ⟨hextra, hframed, hfree, hconn⟩ := h
    exact ⟨hextra, hframed, hfree, hlink ▸ hconn⟩

theorem sends_none : Sends o s free [] none := rfl

theorem Mid.put_packet {extra p : Bytes} (hm : Mid o input output false free extra s) (hsends : Sends o s free extra (some p))
    (hkept : ¬Lost s) : Inv o (put s (physical input, p)) := by
  obtain ⟨rfl, hframed, rfl, hconn⟩ := hsends
  obtain ⟨hfacing, hfresh⟩ := hm.current hkept
  have hbuf : s.console.buffers = some (input, output) := hfacing.buffers.trans hm.buffers
  have hopen : Open o s false true extra := by
    refine hm.conns.resolve_left fun hn => ?_
    rw [hn.1] at hconn
    nomatch hconn
  rw [Relay.put_packet hbuf (apart_ne (hm.base.ok.clear _ _ hbuf).2.2)]
  exact land_packet hm hopen hfresh hframed

/-- The writes of a pass, landed at one instant. -/
theorem Mid.landed {extra : Bytes} {packet : Option Bytes} (hm : Mid o input output sent free extra s)
    (hsends : Sends o s free extra packet) (hrestart : s.console.restarting = false) :
    Inv o ((writesOf input output sent packet).foldl put s) := by
  by_cases hlost : Lost s
  · have hnone : s.console.buffers = none := hlost.resolve_left (by rw [hrestart]; exact Bool.false_ne_true)
    rw [puts_none hnone]
    exact hm.unwritten hlost
  · have hbuf : s.console.buffers = some (input, output) := (hm.current hlost).1.buffers.trans hm.buffers
    unfold writesOf
    rw [List.foldl_append]
    have hcleared : Mid o input output false free extra ((if sent then [(physical output + 2, [0, 0])] else []).foldl put s) ∧
        ¬Lost ((if sent then [(physical output + 2, [0, 0])] else []).foldl put s) ∧
        ((if sent then [(physical output + 2, [0, 0])] else []).foldl put s).link = s.link := by
      cases sent with
      | false => exact ⟨hm, hlost, rfl⟩
      | true =>
        simp only [if_true, List.foldl_cons, List.foldl_nil, put_clear hbuf]
        exact ⟨hm.clear hlost, hlost, trivial⟩
    revert hcleared
    generalize (if sent then [(physical output + 2, [0, 0])] else []).foldl put s = s'
    rintro ⟨hm', hkept, hlink⟩
    cases packet with
    | none =>
      have hextra : extra = [] := hsends
      exact hm'.inv hextra
    | some p => exact hm'.put_packet (hsends.of_link hlink) hkept

theorem writeAll_ends {t : Turn} {extra : Bytes} {packet : Option Bytes} (hm : Mid o input output sent free extra s)
    (ht : t.between.all (Event.shown false) = true) (hsends : Sends o s free extra packet) :
    Ends o (writeAll o t (writesOf input output sent packet) s) := by
  unfold writeAll
  by_cases hnone : writesOf input output sent packet = []
  · rw [if_pos hnone]
    have hsent : sent = false := by
      cases sent with
      | false => rfl
      | true => exact absurd hnone (List.cons_ne_nil _ _)
    have hpacket : packet = none := by
      cases packet with
      | none => rfl
      | some p =>
        rw [hsent] at hnone
        exact absurd hnone (List.cons_ne_nil _ _)
    subst hsent hpacket
    have hextra : extra = [] := hsends
    exact hm.inv hextra
  · rw [if_neg hnone]
    have hafter : Mid o input output sent free extra (happenAll o s t.between) :=
      happenAll_keeps (fun _ hm _ h => hm.happens h) t.between ht hm
    have hlink : (happenAll o s t.between).link = s.link :=
      happenAll_keeps (o := o) (P := fun s' => s'.link = s.link) (fun _ h _ _ => h) t.between ht rfl
    have hlands := hafter.landed (hsends.of_link hlink)
    have hrun (f : Except Failure Unit → Act Unit) : (Eff.attempt (writeMany o t.between t.writeFails (writesOf input output sent packet)) >>= f) s =
        f (writeMany o t.between t.writeFails (writesOf input output sent packet) s).1
          (writeMany o t.between t.writeFails (writesOf input output sent packet) s).2 := rfl
    rw [hrun]
    unfold writeMany
    simp only
    revert hafter hlands
    generalize happenAll o s t.between = s'
    intro hafter hlands
    by_cases hrestart : s'.console.restarting = true
    · rw [if_pos hrestart]
      exact (hafter.unwritten (.inl hrestart)).restarted
    · rw [if_neg hrestart]
      cases t.writeFails with
      | some why => exact hafter.safe
      | none => exact hlands (Bool.eq_false_iff.mpr hrestart)

end Requests

section Client

variable {o : Options} {s : System} {input output : UInt32} {sent free : Bool}

/-- Bytes of the client taken in. -/
def taken (s : System) (b : Bytes) : System :=
  { s with
    conns := s.conns.modify (s.conns.length - 1) fun c => { c with stream := c.stream ++ b }
    link := { s.link with inbox := s.link.inbox ++ b } }

theorem Open.taken (ho : Open o s sent free []) (b : Bytes) : Open o (taken s b) sent free [] := by
  obtain ⟨cs, d, boot, i, n, hopened, hlive⟩ := ho
  have hconns : (Relay.taken s b).conns = cs ++ [{ d with stream := d.stream ++ b }] := by
    unfold Relay.taken
    simp only [hopened.conns, modify_last]
  have hkept := hopened.kept
  refine ⟨cs, { d with stream := d.stream ++ b }, boot, i, n, ⟨hopened.conn, hconns, hopened.done, ?_, hopened.gone,
    hopened.generation, hopened.buffers⟩, ?_⟩
  · exact ⟨hkept.received, hkept.counted, hkept.part, hkept.stream.trans (List.prefix_append _ _), hkept.put⟩
  · refine hlive.imp id fun ⟨hfacing, hsynced⟩ => ⟨⟨hfacing.buffers, hfacing.sent, hfacing.free⟩, hsynced.same, hsynced.packets, ?_⟩
    have hstream : (putBy s.landed cs.length).flatten ++ [] ++ s.link.inbox = d.stream := hsynced.stream
    unfold Relay.taken
    simp only
    rw [← hstream, List.append_assoc, List.append_assoc, List.append_assoc]

/-- What holds while the client's bytes come in. -/
def Talking (o : Options) (input output : UInt32) (sent free : Bool) (s : System) : Prop :=
  Mid o input output sent free [] s ∧ s.link.conn = true

theorem Talking.open (ht : Talking o input output sent free s) : Open o s sent free [] := by
  refine ht.1.conns.resolve_left fun hn => ?_
  have hconn := hn.1
  rw [ht.2] at hconn
  nomatch hconn

theorem Talking.taken (ht : Talking o input output sent free s) (b : Bytes) : Talking o input output sent free (taken s b) := by
  obtain ⟨hm, hconn⟩ := ht
  have hfacing : Lost (Relay.taken s b) ∨ Facing (Relay.taken s b) sent free :=
    hm.facing.imp id fun hfacing => ⟨hfacing.buffers, hfacing.sent, hfacing.free⟩
  refine ⟨⟨?_, hm.checked, hm.buffers, hfacing, .inr (Open.taken (Talking.open ⟨hm, hconn⟩) b)⟩, hconn⟩
  refine ⟨hm.base.ok, ?_, hm.base.fitted, hm.base.past⟩
  have hlen : (Relay.taken s b).conns.length = s.conns.length := List.length_modify _ _ _
  rw [hlen]
  exact hm.base.ordered

theorem take_run (ht : Talking o input output sent free s) (r : ReadResult) :
    ∃ x s', take r s = (.ok x, s') ∧ Talking o input output sent free s' := by
  cases r with
  | data b =>
    cases b with
    | nil => exact ⟨_, s, rfl, ht⟩
    | cons x b => exact ⟨_, _, rfl, ht.taken (x :: b)⟩
  | idle => exact ⟨_, s, rfl, ht⟩
  | closed => exact ⟨_, s, rfl, ht⟩
  | failed why => exact ⟨_, s, rfl, ht⟩

theorem drain_run (ht : Talking o input output sent free s) (reads : List ReadResult) :
    ∃ x s', drain reads s = (.ok x, s') ∧ Talking o input output sent free s' := by
  induction reads generalizing s with
  | nil => exact ⟨_, s, rfl, ht⟩
  | cons r rest ih =>
    obtain ⟨x, s', htake, ht'⟩ := take_run ht r
    unfold drain
    rw [Eff.bind_run, htake]
    cases x with
    | error why => exact ⟨_, s', rfl, ht'⟩
    | ok more =>
      cases more with
      | false => exact ⟨_, s', rfl, ht'⟩
      | true => exact ih ht'

/-- What the client sent is taken in, whole or in pieces. -/
theorem receive_run (ht : Talking o input output sent free s) (wait : Bool) (reads : List ReadResult) :
    ∃ x s', receive wait reads s = (.ok x, s') ∧ Talking o input output sent free s' := by
  cases wait with
  | false =>
    cases reads with
    | nil => exact drain_run ht []
    | cons r rest => exact drain_run ht (r :: rest)
  | true =>
    cases reads with
    | nil => exact drain_run ht []
    | cons r rest =>
      obtain ⟨x, s', htake, ht'⟩ := take_run ht r
      rw [receive, Eff.bind_run, htake]
      cases x with
      | error why => exact ⟨_, s', rfl, ht'⟩
      | ok more => exact drain_run ht' rest

/-- The first `n` bytes taken out, to be put. -/
theorem Talking.taken_out (ht : Talking o input output sent free s) (n : Nat) :
    Mid o input output sent free (s.link.inbox.take n) { s with link := { s.link with inbox := s.link.inbox.drop n } } := by
  obtain ⟨cs, d, boot, i, m, hopened, hlive⟩ := ht.open
  obtain ⟨hm, hconn⟩ := ht
  refine ⟨⟨hm.base.ok, hm.base.ordered, hm.base.fitted, hm.base.past⟩, hm.checked, hm.buffers, ?_, .inr ?_⟩
  · exact hm.facing.imp id fun hfacing => ⟨hfacing.buffers, hfacing.sent, hfacing.free⟩
  · refine ⟨cs, d, boot, i, m, ⟨hopened.conn, hopened.conns, hopened.done, hopened.kept, hopened.gone, hopened.generation,
      hopened.buffers⟩, ?_⟩
    refine hlive.imp id fun ⟨hfacing, hsynced⟩ => ⟨⟨hfacing.buffers, hfacing.sent, hfacing.free⟩, hsynced.same, hsynced.packets, ?_⟩
    simp only
    rw [List.append_assoc, List.take_append_drop, ← hsynced.stream, List.append_nil]

theorem framed_take {inbox : Bytes} (h4 : 4 ≤ packetLen inbox) (hmax : packetLen inbox ≤ o.maxPacket) (hlen : packetLen inbox ≤ inbox.length) :
    Framed o (inbox.take (packetLen inbox)) := by
  have htake : (inbox.take (packetLen inbox)).length = packetLen inbox := List.length_take_of_le hlen
  have hread : readBe16 inbox 0 = readBe16 (inbox.take (packetLen inbox)) 0 := by
    have happend := readBe16_append_left (b := inbox.take (packetLen inbox)) (i := 0) (by omega) (inbox.drop (packetLen inbox))
    rwa [List.take_append_drop] at happend
  refine ⟨by omega, by omega, ?_⟩
  rw [htake, packetLen, ← hread]
  rfl

theorem Ends.then {m : Act Unit} (h : Ends o (m s)) (x : Bool) : Ends o ((m >>= fun _ => return x) s) := by
  rw [Eff.bind_run]
  revert h
  cases m s with
  | mk r s' =>
    cases r with
    | ok _ => exact id
    | error e => exact id

theorem writesOf_some (p : Bytes) : writesOf input output sent none ++ [(physical input, p)] = writesOf input output sent (some p) := by
  unfold writesOf
  rw [List.append_assoc]
  rfl

/-- The client let go, and the write that is left. -/
theorem Mid.dropped_ends {extra : Bytes} (hm : Mid o input output sent free extra s) {t : Turn}
    (hb : t.between.all (Event.shown false) = true) (x : Bool) :
    Ends o ((dropClient >>= fun _ => writeAll o t (writesOf input output sent none) >>= fun _ => return x) s) :=
  Ends.then (writeAll_ends hm.dropped hb sends_none) x

theorem replied_ends (ht : Talking o input output sent free s) {t : Turn} (hb : t.between.all (Event.shown false) = true) :
    Ends o (replied o t input (writesOf input output sent none) sent free s) := by
  have hquiet (x : Bool) : Ends o ((writeAll o t (writesOf input output sent none) >>= fun _ => return x) s) :=
    Ends.then (writeAll_ends ht.1 hb sends_none) x
  unfold replied
  rw [Eff.bind_run]
  simp only [getLink]
  by_cases hready : free = true ∧ 4 ≤ s.link.inbox.length
  · rw [if_pos hready]
    by_cases hlen : 4 ≤ packetLen s.link.inbox ∧ packetLen s.link.inbox ≤ o.maxPacket
    · rw [if_neg (not_not_intro hlen)]
      by_cases hwhole : packetLen s.link.inbox ≤ s.link.inbox.length
      · rw [if_pos hwhole, writesOf_some]
        refine Ends.then (writeAll_ends (ht.taken_out _) hb ?_) true
        exact ⟨rfl, framed_take hlen.1 hlen.2 hwhole, hready.1, ht.2⟩
      · rw [if_neg hwhole]
        exact hquiet _
    · rw [if_pos hlen]
      exact ht.1.dropped_ends hb sent
  · rw [if_neg hready]
    exact hquiet _

theorem reply_ends (ht : Talking o input output sent free s) {t : Turn} (hb : t.between.all (Event.shown false) = true) :
    Ends o (reply o t input (writesOf input output sent none) sent free s) := by
  obtain ⟨x, s', hrun, ht'⟩ := receive_run ht (sent && free) t.reads
  unfold reply
  rw [Eff.bind_run, hrun]
  cases x with
  | error why => exact ht'.1.dropped_ends hb sent
  | ok _ => exact replied_ends ht' hb

end Client

section Passes

variable {o : Options} {s : System} {input output : UInt32} {free : Bool}

/-- The relay has just read the boot its buffers are of. -/
structure Current (o : Options) (input output : UInt32) (s : System) : Prop where
  inv : Inv o s
  checked : s.link.generation = some s.generation
  found : s.link.buffers = some (input, output)
  published : s.console.buffers = some (input, output)
  restarting : s.console.restarting = false

theorem Current.fresh (hc : Current o input output s) : ¬Stale s := by
  rintro (hrestart | hgen | hbuf)
  · rw [hc.restarting] at hrestart
    nomatch hrestart
  · exact hgen hc.checked
  · exact hbuf (hc.published.trans hc.found.symm)

theorem Current.open (hc : Current o input output s) (hconn : s.link.conn = true) :
    ∃ cs d boot i n, Opened o s cs d boot i n ∧ Synced s cs.length d boot i n false [] := by
  have hopen : Open o s false false [] := by
    refine hc.inv.2.resolve_left fun hn => ?_
    have hclosed := hn.1
    rw [hconn] at hclosed
    nomatch hclosed
  obtain ⟨cs, d, boot, i, n, hopened, hlive⟩ := hopen
  exact ⟨cs, d, boot, i, n, hopened, (hlive.resolve_left hc.fresh).2⟩

/-- With nothing in the output buffer there is nothing to send. -/
theorem Current.idle (hc : Current o input output s) (hconn : s.link.conn = true)
    (hfree : free = true → command s.console.input = 0) : Talking o input output false free s := by
  obtain ⟨cs, d, boot, i, n, hopened, hsynced⟩ := hc.open hconn
  have hfacing : Facing s false free := ⟨hc.published.trans hc.found.symm, nofun, hfree⟩
  exact ⟨⟨hc.inv.1, hc.checked, hc.found, .inr hfacing, .inr ⟨cs, d, boot, i, n, hopened, .inr ⟨hfacing, hsynced⟩⟩⟩, hconn⟩

/-- The last connection's record with `b` more received. -/
def sentTo (s : System) (b : Bytes) : System :=
  { s with conns := s.conns.modify (s.conns.length - 1) fun c => { c with received := c.received ++ b } }

/-- The packet in the output buffer is the one after those the connection has. -/
theorem Synced.next {cs : List Conn} {d : Conn} {boot i n : Nat} (hs : Synced s cs.length d boot i n false []) (hok : s.console.Ok o)
    (hpub : s.console.buffers.isSome) (hsaid : command s.console.output ≠ 0) :
    (s.console.packets boot).length = i + n + 1 ∧
      (s.console.packets boot)[i + n]? = some (s.console.output.take (packetLen s.console.output)) := by
  have hlen := hs.packets
  rw [if_neg (by simp [hsaid])] at hlen
  have hlast := hok.said hpub hsaid
  rw [hs.same, List.getLast?_eq_getElem?, hlen] at hlast
  exact ⟨hlen, hlast⟩

theorem sentTo_conns {cs : List Conn} {d : Conn} (h : s.conns = cs ++ [d]) (b : Bytes) :
    (sentTo s b).conns = cs ++ [{ d with received := d.received ++ b }] := by
  unfold sentTo
  simp only [h, modify_last]

theorem Base.sentTo (hb : Base o s) (b : Bytes) : Base o (sentTo s b) := by
  refine ⟨hb.ok, ?_, hb.fitted, hb.past⟩
  have hlen : (Relay.sentTo s b).conns.length = s.conns.length := List.length_modify _ _ _
  rw [hlen]
  exact hb.ordered

/-- A packet sent whole. -/
theorem Current.sent (hc : Current o input output s) (hconn : s.link.conn = true) (hsaid : command s.console.output ≠ 0)
    (hfree : free = true → command s.console.input = 0) :
    Talking o input output true free (sentTo s (s.console.output.take (packetLen s.console.output))) := by
  obtain ⟨cs, d, boot, i, n, hopened, hsynced⟩ := hc.open hconn
  obtain ⟨hlen, hnext⟩ := hsynced.next hc.inv.1.ok (by rw [hc.published]; rfl) hsaid
  have hkept := hopened.kept
  have hfacing : Facing (sentTo s (s.console.output.take (packetLen s.console.output))) true free :=
    ⟨hc.published.trans hc.found.symm, fun _ => hsaid, hfree⟩
  refine ⟨⟨hc.inv.1.sentTo _, hc.checked, hc.found, .inr hfacing, .inr ⟨cs, _, boot, i, n + 1,
    ⟨hopened.conn, sentTo_conns hopened.conns _, hopened.done, ?_, hopened.gone, hopened.generation, hopened.buffers⟩,
    .inr ⟨hfacing, hsynced.same, ?_, hsynced.stream⟩⟩⟩, hconn⟩
  · refine ⟨?_, by have := hlen; simp only [Relay.sentTo]; omega, .inl rfl, hkept.stream, hkept.put⟩
    have hget : ((s.console.packets boot).drop i)[n]? = some (s.console.output.take (packetLen s.console.output)) := by
      rw [List.getElem?_drop]
      exact hnext
    simp only [Relay.sentTo]
    rw [hkept.received, List.take_add_one, hget, Option.toList_some, List.flatten_append, List.flatten_singleton,
      List.append_nil, List.append_nil]
  · rw [if_pos (.inr rfl)]
    exact hlen

/-- A packet cut off. -/
theorem Current.cut (hc : Current o input output s) (hconn : s.link.conn = true) (hsaid : command s.console.output ≠ 0) (k : Nat) :
    Leaving o (sentTo s ((s.console.output.take (packetLen s.console.output)).take k)) := by
  obtain ⟨cs, d, boot, i, n, hopened, hsynced⟩ := hc.open hconn
  obtain ⟨hlen, hnext⟩ := hsynced.next hc.inv.1.ok (by rw [hc.published]; rfl) hsaid
  have hkept := hopened.kept
  refine ⟨hconn, cs, _, sentTo_conns hopened.conns _, hopened.done, boot, i, n,
    (s.console.output.take (packetLen s.console.output)).take k, ?_, hkept.counted, ?_, hkept.stream, hkept.put⟩
  · simp only
    rw [hkept.received, List.append_nil]
    rfl
  · exact .inr ⟨_, hnext, List.take_prefix _ _⟩

theorem exchange_ends (hc : Current o input output s) (hconn : s.link.conn = true)
    (hfree : free = true → command s.console.input = 0) {t : Turn} (hb : t.between.all (Event.shown false) = true) :
    Ends o (exchange o t input output s.console.output free s) := by
  unfold exchange
  by_cases hsaid : command s.console.output ≠ 0
  · rw [if_pos hsaid]
    by_cases hlen : 4 ≤ packetLen s.console.output ∧ packetLen s.console.output ≤ o.maxPacket
    · rw [if_neg (not_not_intro hlen), Eff.bind_run]
      unfold send
      cases t.cut with
      | none => exact reply_ends (hc.sent hconn hsaid hfree) hb
      | some k => exact .of_inv ⟨(hc.inv.1.sentTo _).dropped, .inl (dropped_noConn (.inr (hc.cut hconn hsaid k)))⟩
    · rw [if_pos hlen]
      exact .of_inv ⟨hc.inv.1.dropped, .inl (dropped_noConn (hc.inv.2.imp_right (·.leaving)))⟩
  · rw [if_neg hsaid]
    exact reply_ends (hc.idle hconn hfree) hb

theorem connected_ends (hc : Current o input output s) (hfree : free = true → command s.console.input = 0) {t : Turn}
    (hb : t.between.all (Event.shown false) = true) : Ends o (connected o t input output s.console.output free s) := by
  have hrun : connected o t input output s.console.output free s =
      (if s.link.conn = true then exchange o t input output s.console.output free else return false) s := rfl
  rw [hrun]
  by_cases hconn : s.link.conn = true
  · rw [if_pos hconn]
    exact exchange_ends hc hconn hfree hb
  · rw [if_neg hconn]
    exact .of_inv hc.inv

theorem putBy_fresh {landed : List Landing} {k : Nat} (h : ∀ e ∈ landed, e.conn < k) : putBy landed k = [] := by
  unfold putBy
  rw [List.filter_eq_nil_iff.mpr, List.map_nil]
  intro e he
  simp [Nat.ne_of_lt (h e he)]

/-- A client dialled while the ROM has something to say. -/
theorem Current.dialled (hc : Current o input output s) (hidle : ¬s.link.conn = true) (hsaid : command s.console.output ≠ 0) :
    Current o input output { s with link := { s.link with conn := true }, conns := s.conns ++ [⟨s.generation, [], [], none⟩] } := by
  have hn : NoConn o s := hc.inv.2.resolve_right fun ⟨cs, d, boot, i, n, hopened, _⟩ => hidle hopened.conn
  have hpub : s.console.buffers.isSome := by rw [hc.published]; rfl
  have hlast := hc.inv.1.ok.said hpub hsaid
  have hpos : 0 < (s.console.packets s.console.boot).length := by
    refine List.length_pos_iff.mpr fun hnil => ?_
    rw [hnil] at hlast
    nomatch hlast
  have hordered := hc.inv.1.ordered
  have hfresh := putBy_fresh hordered.1
  have hfacing : Facing s false false := ⟨hc.published.trans hc.found.symm, nofun, nofun⟩
  refine ⟨⟨⟨hc.inv.1.ok, ⟨fun e he => ?_, hordered.2⟩, hc.inv.1.fitted, hc.inv.1.past⟩, .inr ⟨s.conns, ⟨s.generation, [], [], none⟩,
    s.console.boot, (s.console.packets s.console.boot).length - 1, 0, ⟨rfl, rfl, hn.2.2, ?_, rfl, hc.checked, ?_⟩,
    .inr ⟨⟨hfacing.buffers, nofun, nofun⟩, rfl, ?_, ?_⟩⟩⟩, hc.checked, hc.found, hc.published, hc.restarting⟩
  · rw [List.length_append, List.length_singleton]
    exact Nat.lt_succ_of_lt (hordered.1 e he)
  · refine ⟨rfl, by simp only; omega, .inl rfl, ?_, fun e he hconn => ?_⟩
    · rw [hfresh]
      exact List.prefix_refl _
    · exact absurd hconn (Nat.ne_of_lt (hordered.1 e he))
  · rw [hc.found]
    rfl
  · simp only [hsaid, Bool.false_eq_true, or_self, if_false]
    omega
  · rw [hfresh, hn.2.1]
    rfl

theorem readBe32_take (b : Bytes) {n i : Nat} (h : i + 4 ≤ n) : readBe32 (b.take n) i = readBe32 b i := by
  have hbyte {j : Nat} (hj : j < n) : byteAt (b.take n) j = byteAt b j := by
    simp only [byteAt, List.getD_eq_getElem?_getD, List.getElem?_take_of_lt hj]
  unfold readBe32
  rw [hbyte (by omega), hbyte (by omega), hbyte (by omega), hbyte (by omega)]

/-- What the pointers say, where they are where the relay found them. -/
theorem Console.Ok.shows {c : Console} (hok : c.Ok o) (hinput : fits o c.rdramSize input = true) (houtput : fits o c.rdramSize output = true)
    (h : (readBe32 (c.pointers.take 8) 0, readBe32 (c.pointers.take 8) 4) = (input, output)) : c.buffers = some (input, output) := by
  rw [readBe32_take _ (by decide), readBe32_take _ (by decide)] at h
  obtain ⟨hi, ho⟩ := Prod.mk.inj h
  cases hbuf : c.buffers with
  | none =>
    have hblank : c.pointers = c.blank := by rw [Console.pointers, hbuf]
    rw [hblank] at hi ho
    rw [← hi] at hinput
    rw [← ho] at houtput
    exact absurd ⟨hinput, houtput⟩ (hok.bare hbuf)
  | some found =>
    obtain ⟨i, out⟩ := found
    have hpointers : c.pointers = putBe32 i ++ putBe32 out := by rw [Console.pointers, hbuf]
    have hsecond : readBe32 (putBe32 i ++ putBe32 out) 4 = readBe32 (putBe32 out) 0 := readBe32_append_right _ _ 0
    have hout : readBe32 (putBe32 out) 0 = out := by
      have happend := readBe32_putBe32 out []
      rwa [List.append_nil] at happend
    rw [hpointers, readBe32_putBe32] at hi
    rw [hpointers, hsecond, hout] at ho
    rw [hi, ho]

theorem clear_ne {a b m n : Nat} (hm : 0 < m) (hn : 0 < n) (h : a + m ≤ b ∨ b + n ≤ a) : a ≠ b := by omega

theorem block_pointers (c : Console) (n : Nat) : c.block o (physical o.pointers, n) = c.pointers.take n := by
  unfold Console.block
  rw [if_pos rfl]

theorem block_output {c : Console} (hok : c.Ok o) (hpub : c.buffers = some (input, output)) :
    c.block o (physical output, o.maxPacket) = c.output := by
  have hroom := o.room
  have hapart := (hok.clear _ _ hpub).2.2
  simp only [apart, Bool.and_eq_true, decide_eq_true_eq] at hapart
  unfold Console.block
  rw [if_neg (clear_ne (by omega) (by omega) hapart.2)]
  simp only [hpub, if_true]
  exact List.take_of_length_le (Nat.le_of_eq (hok.full (by rw [hpub]; rfl)))

theorem block_input {c : Console} (hok : c.Ok o) (hpub : c.buffers = some (input, output)) (n : Nat) :
    c.block o (physical input, n) = c.input.take n := by
  have hroom := o.room
  have hapart := (hok.clear _ _ hpub).2.2
  simp only [apart, Bool.and_eq_true, decide_eq_true_eq] at hapart
  unfold Console.block
  have hother : physical input ≠ physical output := clear_ne (by omega) (by omega) hapart.1.1
  rw [if_neg (clear_ne (by omega) (by omega) hapart.1.2)]
  simp only [hpub, hother, if_true, if_false]

theorem command_take (b : Bytes) : command (b.take 4) = command b := by
  have hbyte {j : Nat} (hj : j < 4) : byteAt (b.take 4) j = byteAt b j := by
    simp only [byteAt, List.getD_eq_getElem?_getD, List.getElem?_take_of_lt hj]
  unfold command readBe16
  rw [hbyte (by omega), hbyte (by omega)]

/-- The buffers are gone from where they were. -/
theorem lost_ends (hi : Inv o s) :
    Ends o ((updateLink (fun l => { l with buffers := none }) >>= fun _ => dropClient >>= fun _ => return false) s) := by
  have hrun : (updateLink (fun l => { l with buffers := none }) >>= fun _ => dropClient >>= fun _ => return false) s =
      ((.ok false, dropped { s with link := { s.link with buffers := none } }) : Except Failure Bool × System) := rfl
  rw [hrun]
  refine .of_inv ⟨Base.dropped ⟨hi.1.ok, hi.1.ordered, nofun, hi.1.past⟩, .inl (dropped_noConn ?_)⟩
  exact hi.2.imp (fun hn => ⟨hn.1, hn.2.1, hn.2.2⟩) (·.leaving)

/-- What a pass reads. -/
def regionsOf (o : Options) (input output : UInt32) : List (Nat × Nat) :=
  [(physical o.pointers, 8), (physical output, o.maxPacket), (physical input, 4)]

theorem seen_ends (hi : Inv o s) (hchecked : s.link.generation = some s.generation) (hfound : s.link.buffers = some (input, output))
    (hrestart : s.console.restarting = false) {t : Turn} (hb : t.between.all (Event.shown false) = true) :
    Ends o (seen o t input output ((regionsOf o input output).map (s.console.block o)) s) := by
  unfold seen regionsOf
  simp only [List.map_cons, List.map_nil, List.getD_cons_zero, List.getD_cons_succ, block_pointers]
  by_cases hsame : (readBe32 (s.console.pointers.take 8) 0, readBe32 (s.console.pointers.take 8) 4) = (input, output)
  · have hfits := hi.1.fitted _ _ hfound
    have hpub := hi.1.ok.shows hfits.1 hfits.2 hsame
    have hc : Current o input output s := ⟨hi, hchecked, hfound, hpub, hrestart⟩
    rw [if_neg (not_not_intro hsame), block_output hi.1.ok hpub, block_input hi.1.ok hpub, command_take, Eff.bind_run]
    simp only [getLink]
    by_cases hdial : ¬s.link.conn = true ∧ command s.console.output ≠ 0
    · rw [if_pos hdial, Eff.bind_run]
      unfold dial
      by_cases hreach : t.dials = true
      · rw [if_pos hreach]
        exact connected_ends (hc.dialled hdial.1 hdial.2) of_decide_eq_true hb
      · rw [if_neg hreach]
        exact connected_ends hc of_decide_eq_true hb
    · rw [if_neg hdial]
      exact connected_ends hc of_decide_eq_true hb
  · rw [if_pos hsame]
    exact lost_ends hi

theorem unlessRestarted_ends (hi : Inv o s) {next : Act Bool}
    (hnext : ∀ s', Inv o s' → s'.link.generation = some s'.generation → s'.link.buffers = s.link.buffers →
      s'.console = s.console → Ends o (next s')) : Ends o (unlessRestarted next s) := by
  unfold unlessRestarted
  rw [Eff.bind_run]
  rcases linkRestarted_cases hi with ⟨hrun, hi'⟩ | ⟨s', hrun, hi'⟩
  · rw [hrun]
    exact hnext _ hi' rfl rfl rfl
  · rw [hrun]
    exact .of_inv hi'

theorem look_ends (hi : Inv o s) (hfound : s.link.buffers = some (input, output)) {t : Turn} (ht : t.shown = true) :
    Ends o (look o t input output s) := by
  unfold Turn.shown at ht
  rw [Bool.and_eq_true] at ht
  refine readMany_then hi ht.1 _ (regionsOf o input output) fun s' hi' hlink hrestart => ?_
  refine unlessRestarted_ends hi' fun s'' hi'' hchecked hbuf hconsole => ?_
  rw [← hconsole] at hrestart ⊢
  exact seen_ends hi'' hchecked (hbuf.trans (hlink ▸ hfound)) hrestart ht.2

theorem pass_ends (hi : Inv o s) {t : Turn} (ht : t.shown = true) : Ends o (pass o t s) := by
  refine unlessRestarted_ends hi fun s' hi' _ _ _ => ?_
  rw [Eff.bind_run]
  simp only [getLink]
  cases hfound : s'.link.buffers with
  | none =>
    unfold Turn.shown at ht
    rw [Bool.and_eq_true] at ht
    exact findBuffers_ends hi' hfound ht.1
  | some found =>
    obtain ⟨input, output⟩ := found
    exact look_ends hi' hfound ht

theorem serve_safe {ts : List Turn} (hts : ∀ t ∈ ts, t.shown = true) (hi : Inv o s) : Safe o (serve o ts s) := by
  induction ts generalizing s with
  | nil => exact hi.safe
  | cons t ts ih =>
    have hpass := pass_ends hi (hts t List.mem_cons_self)
    unfold serve
    revert hpass
    cases pass o t s with
    | mk r s' =>
      cases r with
      | error e => exact id
      | ok moved => exact ih fun t ht => hts t (List.mem_cons_of_mem _ ht)

theorem start_inv (rdramSize : Nat) (elsewhere : Store) : Inv o (start rdramSize elsewhere) := by
  refine ⟨⟨⟨nofun, nofun, nofun, fun _ => ?_⟩, ⟨nofun, List.Pairwise.nil⟩, nofun, nofun⟩, .inl ⟨rfl, rfl, nofun⟩⟩
  have hzero : readBe32 [] 0 = 0 := rfl
  intro h
  have hfits := h.1
  unfold start at hfits
  rw [hzero, fits_zero] at hfits
  nomatch hfits

/-- What a connection has been sent and has put, and that nothing of it is put
once it is let go. -/
def Brought (o : Options) (s : System) (k : Nat) (c : Conn) : Prop :=
  ∃ boot i n cut, Kept o s.console.packets s.landed k c boot i n cut ∧ (cut ≠ [] → c.gone.isSome) ∧
    ∀ m, c.gone = some m → ∀ j e, m ≤ j → s.landed[j]? = some e → e.conn ≠ k

theorem Done.brought {k : Nat} {c : Conn} (hd : Done o s.console.packets s.landed k c) : Brought o s k c := by
  obtain ⟨⟨boot, i, n, cut, hkept⟩, m, hgone, hsince⟩ := hd
  refine ⟨boot, i, n, cut, hkept, fun _ => by rw [hgone]; rfl, fun m' hm' => ?_⟩
  rw [hgone] at hm'
  obtain rfl := Option.some.inj hm'
  exact hsince

theorem Opened.brought {cs : List Conn} {d : Conn} {boot i n k : Nat} {c : Conn} (ho : Opened o s cs d boot i n)
    (hk : s.conns[k]? = some c) : Brought o s k c := by
  rw [ho.conns] at hk
  rcases Nat.lt_or_ge k cs.length with hlt | hge
  · rw [List.getElem?_append_left hlt] at hk
    exact (ho.done k c hk).brought
  · rw [List.getElem?_append_right hge] at hk
    have hlast : k = cs.length := by
      have hlt := (List.getElem?_eq_some_iff.mp hk).1
      rw [List.length_singleton] at hlt
      omega
    obtain rfl := List.mem_singleton.mp (List.mem_of_getElem? hk)
    subst hlast
    refine ⟨boot, i, n, [], ho.kept, fun hcut => absurd rfl hcut, fun m hm => ?_⟩
    rw [ho.gone] at hm
    nomatch hm

/-- Over every run of passes in which no boot takes over unseen, each connection
is sent packets of one boot in order, and the input buffer gets the packets its
bytes start with, one connection's after another's. -/
theorem relay_in_order (o : Options) (rdramSize : Nat) (elsewhere : Store) (ts : List Turn) (hts : ∀ t ∈ ts, t.shown = true) :
    (∀ k c, (serve o ts (start rdramSize elsewhere)).conns[k]? = some c → Brought o (serve o ts (start rdramSize elsewhere)) k c) ∧
      Ordered (serve o ts (start rdramSize elsewhere)).landed (serve o ts (start rdramSize elsewhere)).conns.length := by
  obtain ⟨hbase, hconns⟩ := serve_safe hts (start_inv rdramSize elsewhere)
  refine ⟨fun k c hk => ?_, hbase.ordered⟩
  rcases hconns with hn | ⟨sent, free, extra, cs, d, boot, i, n, hopened, _⟩
  · exact (hn.2.2 k c hk).brought
  · exact hopened.brought hk

def smallRoom : Options := ⟨0x80000300, 8, by decide⟩

/-- The buffers found, then a packet each way, with `after` while the second half
of the client's comes in. -/
def bothWays (after : List Event) : List Turn :=
  [⟨[.publish 0x80000100 0x80000200 .seen], none, false, none, [], [], none⟩,
    ⟨[.speak [0, 4, 0, 1, 7, 7, 0, 0]], none, true, none, [.idle, .data [0, 4, 0, 2, 9]], [], none⟩,
    ⟨[], none, true, none, [.data [9, 0]], after, none⟩]

theorem relay_in_order_both_ways :
    (serve smallRoom (bothWays []) (start 0x1000 fun _ => 0)).landed = [⟨0, 0, 0, true, [0, 4, 0, 2, 9, 9]⟩] ∧
      Brought smallRoom (serve smallRoom (bothWays []) (start 0x1000 fun _ => 0)) 0 ⟨0, [0, 4, 0, 1, 7, 7], [0, 4, 0, 2, 9, 9, 0], none⟩ :=
  ⟨by decide +kernel, (relay_in_order smallRoom 0x1000 (fun _ => 0) (bothWays []) (by decide)).1 0 _ (by decide +kernel)⟩

/-- A connection that has put a packet on a boot that said nothing was sent nothing. -/
theorem Brought.unsaid {k : Nat} {c : Conn} {e : Landing} (h : Brought o s k c) (he : e ∈ s.landed) (hconn : e.conn = k)
    (hnone : s.console.packets e.boot = []) (hgone : c.gone = none) : c.received = [] := by
  obtain ⟨boot, i, n, cut, hkept, hcut, _⟩ := h
  obtain rfl := (hkept.put e he hconn).1
  have hwhole : cut = [] := by
    by_contra hsome
    have hisSome := hcut hsome
    rw [hgone] at hisSome
    nomatch hisSome
  rw [hkept.received, hnone, hwhole, List.drop_nil, List.take_nil, List.flatten_nil, List.append_nil]

/-- A boot that takes over between a pass's read and its write, with its buffers
where they were. -/
def takenOver : List Turn := bothWays [.reset [], .publish 0x80000100 0x80000200 .hidden]

theorem unseen_boot : (serve smallRoom takenOver (start 0x1000 fun _ => 0)).conns[0]? =
      some ⟨0, [0, 4, 0, 1, 7, 7], [0, 4, 0, 2, 9, 9, 0], none⟩ ∧
    ¬Brought smallRoom (serve smallRoom takenOver (start 0x1000 fun _ => 0)) 0
      ⟨0, [0, 4, 0, 1, 7, 7], [0, 4, 0, 2, 9, 9, 0], none⟩ := by
  refine ⟨by decide +kernel, fun hbrought => ?_⟩
  have hlanded : ⟨0, 1, 0, true, [0, 4, 0, 2, 9, 9]⟩ ∈ (serve smallRoom takenOver (start 0x1000 fun _ => 0)).landed := by decide +kernel
  have hpackets : (serve smallRoom takenOver (start 0x1000 fun _ => 0)).console.packets 1 = [] := by decide +kernel
  nomatch hbrought.unsaid hlanded rfl hpackets rfl

end Passes

end Relay

end Multi64
