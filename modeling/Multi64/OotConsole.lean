import Multi64.Lib.Store
import Multi64.OotConnector

/-! The game behind the Ocarina of Time connector: its memory, the frames in
which it may take an item from the mailbox, and a cart whose requests are served
between frames, each at one instant or not at all; what every frame and every
write that lands keeps. -/

namespace Multi64

namespace Connector

namespace Oot

def half (m : Store) (a : Nat) : Nat := (be16 (m a) (m (a + 1))).toNat

def full (m : Store) (a : Nat) : Nat := (be32 (m a) (m (a + 1)) (m (a + 2)) (m (a + 3))).toNat

/-- Where the ROM has its context, and the block of the co-op. -/
structure Places where
  rando : Nat
  coop : Nat

def countAt : Nat := 0x11A5D0 + 0x90

def pointerAt : Nat := 0x1C6E90 + 0x15D4

structure Game where
  ram : Store
  taken : List Nat

def Game.count (g : Game) : Nat := half g.ram countAt

/-- What a frame makes of the memory that is not kept here, and whether it takes
the item that waits. -/
structure Frame where
  other : Store
  takes : Bool

section Play

variable (p : Places)

def Game.item (g : Game) : Nat := half g.ram (p.coop + 8)

/-- The mailbox, the count, and the pointers of the ROM's context. -/
def Places.keeps (a : Nat) : Bool :=
  p.coop + 6 ≤ a ∧ a < p.coop + 10 ∨ countAt ≤ a ∧ a < countAt + 2 ∨ pointerAt ≤ a ∧ a < pointerAt + 4 ∨
    p.rando ≤ a ∧ a < p.rando + 4

/-- The mailbox is left alone, or its item is taken, it is emptied and the count
goes up by one. -/
def Game.frame (g : Game) (f : Frame) : Game :=
  let g := { g with ram := fun a => if p.keeps a then g.ram a else f.other a }
  if f.takes ∧ g.item p ≠ 0 ∧ g.count + 1 < 2 ^ 16 then
    { ram := (g.ram.write (p.coop + 6) [0, 0, 0, 0]).write countAt (putBe16 (UInt16.ofNat (g.count + 1)))
      taken := g.taken ++ [g.item p] }
  else g

def Game.frames (g : Game) (fs : List Frame) : Game := fs.foldl (Game.frame p) g

end Play

/-- What happens at a request: the frames before it, whether it fails, whether a
write lands all the same, and how often the link restarts under it. -/
structure Turn where
  frames : List Frame
  failure : Option CartError
  lands : Bool
  restarts : Nat
  events : List Bytes

def Turn.answer {α : Type} (t : Turn) (a : α) : Except CartError α :=
  match t.failure with
  | some e => .error e
  | none => .ok a

structure Console where
  game : Game
  watched : List Bytes
  rom : Store
  turns : List Turn

def Console.turn (p : Places) (s : Console) (t : Turn) (turns : List Turn) : Console :=
  { s with game := s.game.frames p t.frames, watched := s.watched ++ t.events, turns }

/-- A batch lands as a whole. -/
def Game.land (g : Game) (writes : List (Nat × Bytes)) : Game :=
  { g with ram := writes.foldl (fun m w => m.write w.1 w.2) g.ram }

/-- The cart, until its turns are over. -/
def console (p : Places) : Cart Console where
  readMany regions s :=
    match s.turns with
    | [] => (.error (.other "the cart is gone"), s, 0)
    | t :: turns =>
      let s := s.turn p t turns
      (t.answer (regions.map fun r => s.game.ram.read r.1 r.2), s, t.restarts)
  writeMany writes s :=
    match s.turns with
    | [] => (.error (.other "the cart is gone"), s, 0)
    | t :: turns =>
      let s := s.turn p t turns
      (t.answer (), if t.lands then { s with game := s.game.land writes } else s, t.restarts)
  readRomMany regions s := (.ok (regions.map fun r => s.rom.read r.1 r.2), s, 0)
  takeWatched s := (s.watched.head?, { s with watched := s.watched.tail })

/-- What a line has the client's items as. -/
def Line.items (line : Line) : Option (List Int) :=
  match line.block with
  | .ok (some block) => block.items
  | _ => none

/-- Sessions of the connector one after the other, and where they leave the cart. -/
def sessions (p : Places) (encode : Reply → Except String String) (generation : Nat) : List (List Line) → Console → Console
  | [], s => s
  | lines :: rest, s =>
    let start := connect (oot (console p) encode) s generation
    match start.1 with
    | .error _ => sessions p encode generation rest start.2.host.cart
    | .ok () =>
      let last := (handleAll (oot (console p) encode) lines start.2).getLast?.elim start.2 (·.2)
      sessions p encode generation rest last.host.cart

/-- What is written, and what is kept over it, lie apart. -/
structure Places.Apart (p : Places) : Prop where
  mail : ∀ r ∈ [(countAt, 2), (pointerAt, 4), (p.rando, 4)], p.coop + 10 ≤ r.1 ∨ r.1 + r.2 ≤ p.coop + 6
  count : countAt + 2 ≤ p.rando ∨ p.rando + 4 ≤ countAt
  writes : ∀ k ∈ [(p.coop + 6, 4), (countAt, 2), (pointerAt, 4), (p.rando, 4)],
    ∀ w ∈ [(p.coop + 20, 0x800), (0x11A600, 2), (0x40002C, 8)], k.1 + k.2 ≤ w.1 ∨ w.1 + w.2 ≤ k.1

/-- An item as the mailbox has it. -/
def stored (v : Int) : Nat := (v % 2 ^ 16).toNat

/-- What is taken are the items from the `n`-th on, the count says how many, and
the mailbox is empty or has the one at the count. -/
structure Tally (p : Places) (n : Nat) (items : List Int) (g : Game) : Prop where
  taken : g.taken = ((items.drop n).take g.taken.length).map stored
  count : g.count = n + g.taken.length
  mail : g.item p = 0 ∨ items[g.count]?.map stored = some (g.item p)
  rando : full g.ram pointerAt = 0x80000000 + p.rando
  coop : full g.ram p.rando = 0x80000000 + p.coop

/-- A game with `n` items received and nothing in the mailbox. -/
structure Opens (p : Places) (n : Nat) (g : Game) : Prop where
  taken : g.taken = []
  count : g.count = n
  item : g.item p = 0
  rando : full g.ram pointerAt = 0x80000000 + p.rando
  coop : full g.ram p.rando = 0x80000000 + p.coop

theorem Opens.tally {p : Places} {n : Nat} {g : Game} (h : Opens p n g) (items : List Int) : Tally p n items g where
  taken := by rw [h.taken]; rfl
  count := by rw [h.taken]; exact h.count
  mail := .inl h.item
  rando := h.rando
  coop := h.coop

section Games

variable {p : Places} {n : Nat} {items : List Int} {g : Game} {m m' : Store}

theorem half_congr {a : Nat} (h : ∀ i < 2, m (a + i) = m' (a + i)) : half m a = half m' a := by
  have h0 : m a = m' a := h 0 (by omega)
  have h1 : m (a + 1) = m' (a + 1) := h 1 (by omega)
  simp [half, h0, h1]

theorem full_congr {a : Nat} (h : ∀ i < 4, m (a + i) = m' (a + i)) : full m a = full m' a := by
  have h0 : m a = m' a := h 0 (by omega)
  have h1 : m (a + 1) = m' (a + 1) := h 1 (by omega)
  have h2 : m (a + 2) = m' (a + 2) := h 2 (by omega)
  have h3 : m (a + 3) = m' (a + 3) := h 3 (by omega)
  simp [full, h0, h1, h2, h3]

theorem half_write (a : Nat) (v : UInt16) : half (m.write a (putBe16 v)) a = v.toNat := by
  have h0 : m.write a (putBe16 v) a = Multi64.byteAt (putBe16 v ++ []) 0 := m.write_inside a (i := 0) Nat.two_pos
  have h1 : m.write a (putBe16 v) (a + 1) = Multi64.byteAt (putBe16 v ++ []) 1 := m.write_inside a (i := 1) Nat.one_lt_two
  have hv := readBe16_putBe16 v []
  rw [half, h0, h1]
  exact congrArg UInt16.toNat hv

/-- The bytes that decide what is taken, and where. -/
def Places.decides (p : Places) (a : Nat) : Prop :=
  p.coop + 8 ≤ a ∧ a < p.coop + 10 ∨ countAt ≤ a ∧ a < countAt + 2 ∨ pointerAt ≤ a ∧ a < pointerAt + 4 ∨
    p.rando ≤ a ∧ a < p.rando + 4

/-- What a tally says depends on few bytes only. -/
theorem Tally.congr (ht : Tally p n items g) (h : ∀ a, p.decides a → m a = g.ram a) : Tally p n items { g with ram := m } := by
  have hitem : half m (p.coop + 8) = half g.ram (p.coop + 8) := half_congr fun i hi => h _ (.inl (by omega))
  have hcount : half m countAt = half g.ram countAt := half_congr fun i hi => h _ (.inr (.inl (by omega)))
  have hpointer : full m pointerAt = full g.ram pointerAt :=
    full_congr fun i hi => h _ (.inr (.inr (.inl (by omega))))
  have hrando : full m p.rando = full g.ram p.rando := full_congr fun i hi => h _ (.inr (.inr (.inr (by omega))))
  constructor
  · exact ht.taken
  · exact hcount.trans ht.count
  · simpa only [Game.item, Game.count, hitem, hcount] using ht.mail
  · exact hpointer.trans ht.rando
  · exact hrando.trans ht.coop

theorem decides_keeps {a : Nat} (h : p.decides a) : p.keeps a = true := by
  simp only [Places.decides] at h
  simp only [Places.keeps, decide_eq_true_eq]
  omega

/-- The regions that lie apart, as bounds. -/
theorem Places.Apart.bounds (hp : p.Apart) :
    (p.coop + 10 ≤ countAt ∨ countAt + 2 ≤ p.coop + 6) ∧ (p.coop + 10 ≤ pointerAt ∨ pointerAt + 4 ≤ p.coop + 6) ∧
      (p.coop + 10 ≤ p.rando ∨ p.rando + 4 ≤ p.coop + 6) ∧ (countAt + 2 ≤ p.rando ∨ p.rando + 4 ≤ countAt) := by
  have hmail := hp.mail
  simp only [List.forall_mem_cons, List.not_mem_nil, false_implies, implies_true, and_true] at hmail
  exact ⟨hmail.1, hmail.2.1, hmail.2.2, hp.count⟩

/-- An item that is taken is the next. -/
theorem Tally.take (hp : p.Apart) (ht : Tally p n items g) (hitem : g.item p ≠ 0) (hcount : g.count + 1 < 2 ^ 16) :
    Tally p n items { ram := (g.ram.write (p.coop + 6) [0, 0, 0, 0]).write countAt (putBe16 (UInt16.ofNat (g.count + 1)))
                      taken := g.taken ++ [g.item p] } := by
  obtain ⟨hc, hptr, hr, hcr⟩ := hp.bounds
  have hpc : countAt + 2 ≤ pointerAt := by decide
  have hnext : items[g.count]?.map stored = some (g.item p) := ht.mail.resolve_left hitem
  have hpast {a : Nat} (hn : a < countAt ∨ countAt + 2 ≤ a) :
      (g.ram.write (p.coop + 6) [0, 0, 0, 0]).write countAt (putBe16 (UInt16.ofNat (g.count + 1))) a =
        g.ram.write (p.coop + 6) [0, 0, 0, 0] a := Store.write_outside _ _ hn
  have hout {a : Nat} (hm : a < p.coop + 6 ∨ p.coop + 10 ≤ a) (hn : a < countAt ∨ countAt + 2 ≤ a) :
      (g.ram.write (p.coop + 6) [0, 0, 0, 0]).write countAt (putBe16 (UInt16.ofNat (g.count + 1))) a = g.ram a :=
    (hpast hn).trans (Store.write_outside _ _ hm)
  have hcounted : half ((g.ram.write (p.coop + 6) [0, 0, 0, 0]).write countAt (putBe16 (UInt16.ofNat (g.count + 1)))) countAt
      = g.count + 1 := by
    rw [half_write, UInt16.toNat_ofNat']
    exact Nat.mod_eq_of_lt hcount
  have hempty : half ((g.ram.write (p.coop + 6) [0, 0, 0, 0]).write countAt (putBe16 (UInt16.ofNat (g.count + 1)))) (p.coop + 8)
      = 0 := by
    have h2 : g.ram.write (p.coop + 6) [0, 0, 0, 0] (p.coop + 8) = 0 := g.ram.write_inside (p.coop + 6) (i := 2) (by decide)
    have h3 : g.ram.write (p.coop + 6) [0, 0, 0, 0] (p.coop + 9) = 0 := g.ram.write_inside (p.coop + 6) (i := 3) (by decide)
    rw [half, hpast (by omega), hpast (by omega), h2, h3]
    rfl
  constructor
  · have hk : (items.drop n)[g.taken.length]? = items[g.count]? := by rw [List.getElem?_drop, ht.count]
    rw [List.length_append, List.length_singleton, List.take_add_one, List.map_append, ← ht.taken, hk]
    revert hnext
    cases items[g.count]? with
    | none => exact nofun
    | some v =>
      intro hv
      rw [← Option.some.inj hv]
      rfl
  · rw [List.length_append, List.length_singleton, ← Nat.add_assoc, ← ht.count]
    exact hcounted
  · exact .inl hempty
  · rw [← ht.rando]
    exact full_congr fun i hi => hout (by omega) (by omega)
  · rw [← ht.coop]
    exact full_congr fun i hi => hout (by omega) (by omega)

theorem Tally.frame (hp : p.Apart) (ht : Tally p n items g) (f : Frame) : Tally p n items (g.frame p f) := by
  have hmasked : Tally p n items { g with ram := fun a => if p.keeps a then g.ram a else f.other a } :=
    ht.congr fun a ha => if_pos (decides_keeps ha)
  unfold Game.frame
  simp only
  split
  · next htakes => exact hmasked.take hp htakes.2.1 htakes.2.2
  · exact hmasked

theorem Tally.frames (hp : p.Apart) (ht : Tally p n items g) (fs : List Frame) : Tally p n items (g.frames p fs) := by
  induction fs generalizing g with
  | nil => exact ht
  | cons f fs ih => exact ih (ht.frame hp f)

/-- A frame finds nothing in an empty mailbox. -/
theorem frame_empty (hitem : g.item p = 0) (f : Frame) : (g.frame p f).item p = 0 ∧ (g.frame p f).count = g.count := by
  have hsame : half (fun a => if p.keeps a then g.ram a else f.other a) (p.coop + 8) = g.item p :=
    half_congr fun i hi => if_pos (decides_keeps (.inl (by omega)))
  have hcount : half (fun a => if p.keeps a then g.ram a else f.other a) countAt = g.count :=
    half_congr fun i hi => if_pos (decides_keeps (.inr (.inl (by omega))))
  unfold Game.frame
  simp only
  rw [if_neg fun htakes => htakes.2.1 (hsame.trans hitem)]
  exact ⟨hsame.trans hitem, hcount⟩

theorem frames_empty (hitem : g.item p = 0) (fs : List Frame) :
    (g.frames p fs).item p = 0 ∧ (g.frames p fs).count = g.count := by
  induction fs generalizing g with
  | nil => exact ⟨hitem, rfl⟩
  | cons f fs ih =>
    obtain ⟨hframe, hcount⟩ := frame_empty hitem f
    obtain ⟨hlast, hsame⟩ := ih hframe
    exact ⟨hlast, hsame.trans hcount⟩

theorem beBytes_two (v : Int) : beBytes 2 v = putBe16 (UInt16.ofNat (stored v)) := by
  have hlt : stored v < 2 ^ 16 := by
    unfold stored
    omega
  have hhigh : UInt8.ofNat (v / 256 % 256).toNat = UInt8.ofNat (stored v / 0x100) := by
    apply UInt8.toNat.inj
    simp only [UInt8.toNat_ofNat', stored]
    omega
  have hlow : UInt8.ofNat (v / 1 % 256).toNat = UInt8.ofNat (stored v) := by
    apply UInt8.toNat.inj
    simp only [UInt8.toNat_ofNat', stored]
    omega
  have hval : (UInt16.ofNat (stored v)).toNat = stored v := by
    rw [UInt16.toNat_ofNat']
    exact Nat.mod_eq_of_lt hlt
  rw [putBe16, hval, ← hhigh, ← hlow]
  rfl

/-- A write that leaves what decides alone. -/
def Places.spares (p : Places) (w : Write) : Prop := ∀ a : Nat, p.decides a → (a : Int) < w.1 ∨ w.1 + w.2.length ≤ a

/-- What waits to be written: nothing that decides, or the next item for a
mailbox that is empty. -/
def Due (p : Places) (items : List Int) (g : Game) (ws : List Write) : Prop :=
  (∀ w ∈ ws, p.spares w) ∨
    g.item p = 0 ∧ ∃ v, items[g.count]? = some v ∧ ∀ w ∈ ws, p.spares w ∨ w = ((p.coop : Int) + 8, beBytes 2 v)

theorem Due.frames {ws : List Write} (hd : Due p items g ws) (fs : List Frame) : Due p items (g.frames p fs) ws := by
  rcases hd with hall | ⟨hitem, v, hv, hws⟩
  · exact .inl hall
  · obtain ⟨hempty, hcount⟩ := frames_empty hitem fs
    exact .inr ⟨hempty, v, by rw [hcount]; exact hv, hws⟩

theorem Due.append {ws ws' : List Write} (hd : Due p items g ws) (h : ∀ w ∈ ws', p.spares w) : Due p items g (ws ++ ws') := by
  rcases hd with hall | ⟨hitem, v, hv, hws⟩
  · exact .inl (List.forall_mem_append.mpr ⟨hall, h⟩)
  · exact .inr ⟨hitem, v, hv, List.forall_mem_append.mpr ⟨hws, fun w hw => .inl (h w hw)⟩⟩

/-- The item at the count, for a mailbox that is empty. -/
theorem Due.queue {ws : List Write} {v : Int} (hd : Due p items g ws) (hitem : g.item p = 0) (hv : items[g.count]? = some v) :
    Due p items g (ws ++ [((p.coop : Int) + 8, beBytes 2 v)]) := by
  refine .inr ⟨hitem, v, hv, List.forall_mem_append.mpr ⟨fun w hw => ?_, ?_⟩⟩
  · rcases hd with hall | ⟨_, v', hv', hws⟩
    · exact .inl (hall w hw)
    · rw [Option.some.inj (hv'.symm.trans hv)] at hws
      exact hws w hw
  · exact List.forall_mem_singleton.mpr (.inr rfl)

/-- A write with its address as a `u32`. -/
def placed (w : Write) : Nat × Bytes := (w.1.toNat, w.2)

theorem write_spared {w : Write} (hpos : 0 ≤ w.1) (h : p.spares w) {a : Nat} (ha : p.decides a) :
    m.write w.1.toNat w.2 a = m a := by
  have hout := h a ha
  exact m.write_outside _ (by omega)

theorem land_spared {ws : List Write} (h : ∀ w ∈ ws, 0 ≤ w.1 ∧ p.spares w) {a : Nat} (ha : p.decides a) (m : Store) :
    (ws.map placed).foldl (fun m w => m.write w.1 w.2) m a = m a := by
  induction ws generalizing m with
  | nil => rfl
  | cons w ws ih =>
    obtain ⟨⟨hpos, hw⟩, hws⟩ := List.forall_mem_cons.mp h
    exact (ih hws _).trans (write_spared hpos hw ha)

/-- A batch with the next item in it: that or what was there is in the mailbox,
and nothing else that decides has changed. -/
theorem land_item {ws : List Write} {v : Int}
    (h : ∀ w ∈ ws, 0 ≤ w.1 ∧ (p.spares w ∨ w = ((p.coop : Int) + 8, beBytes 2 v))) (m : Store) :
    (∀ a, p.decides a → a < p.coop + 8 ∨ p.coop + 10 ≤ a → (ws.map placed).foldl (fun m w => m.write w.1 w.2) m a = m a) ∧
      (half ((ws.map placed).foldl (fun m w => m.write w.1 w.2) m) (p.coop + 8) = half m (p.coop + 8) ∨
        half ((ws.map placed).foldl (fun m w => m.write w.1 w.2) m) (p.coop + 8) = stored v) := by
  induction ws generalizing m with
  | nil => exact ⟨fun _ _ _ => rfl, .inl rfl⟩
  | cons w ws ih =>
    obtain ⟨⟨hpos, hw⟩, hws⟩ := List.forall_mem_cons.mp h
    obtain ⟨hrest, hlast⟩ := ih hws (m.write w.1.toNat w.2)
    rcases hw with hw | rfl
    · have hsame : half (m.write w.1.toNat w.2) (p.coop + 8) = half m (p.coop + 8) :=
        half_congr fun i hi => write_spared hpos hw (.inl (by omega))
      refine ⟨fun a ha hout => (hrest a ha hout).trans (write_spared hpos hw ha), ?_⟩
      rw [hsame] at hlast
      exact hlast
    · have hplace : ((p.coop : Int) + 8).toNat = p.coop + 8 := by omega
      have hval : (UInt16.ofNat (stored v)).toNat = stored v := by
        rw [UInt16.toNat_ofNat', stored]
        omega
      have hitem : half (m.write ((p.coop : Int) + 8).toNat (beBytes 2 v)) (p.coop + 8) = stored v := by
        rw [hplace, beBytes_two, half_write, hval]
      refine ⟨fun a ha hout => (hrest a ha hout).trans ?_, ?_⟩
      · rw [hplace]
        exact m.write_outside _ hout
      · rw [hitem] at hlast
        exact .inr (hlast.elim id id)

theorem Tally.land {ws : List Write} (hp : p.Apart) (ht : Tally p n items g) (hd : Due p items g ws) (hpos : ∀ w ∈ ws, 0 ≤ w.1) :
    Tally p n items (g.land (ws.map placed)) := by
  rcases hd with hall | ⟨hitem, v, hv, hws⟩
  · exact ht.congr fun a ha => land_spared (fun w hw => ⟨hpos w hw, hall w hw⟩) ha g.ram
  · obtain ⟨hc, hptr, hr, _⟩ := hp.bounds
    obtain ⟨hout, hmail⟩ := land_item (fun w hw => ⟨hpos w hw, hws w hw⟩) g.ram
    have hcount : (g.land (ws.map placed)).count = g.count :=
      half_congr fun i hi => hout _ (.inr (.inl (by omega))) (by omega)
    constructor
    · exact ht.taken
    · exact hcount.trans ht.count
    · rw [hcount, hv]
      exact hmail.imp (·.trans hitem) fun hnew => congrArg some hnew.symm
    · rw [← ht.rando]
      exact full_congr fun i hi => hout _ (.inr (.inr (.inl (by omega)))) (by omega)
    · rw [← ht.coop]
      exact full_congr fun i hi => hout _ (.inr (.inr (.inr (by omega)))) (by omega)

end Games

end Oot

end Connector

end Multi64
