import Multi64.MemProto

/-! A slot watched by the host, `watch.rs`: the changes it has seen and not
shown yet. -/

namespace Multi64

def queueCap : Nat := 16

structure Filter where
  at_ : Nat
  values : Bytes
  deriving DecidableEq, Repr

def Filter.admits (f : Filter) (value : Bytes) : Bool := value[f.at_]?.any (f.values.contains ·)

structure WatchStats where
  samples : Nat
  events : Nat
  queued : Nat
  replayed : Nat
  dropped : Nat
  deriving DecidableEq, Repr

structure Watch where
  addr : UInt32
  len : Nat
  filter : Option Filter
  last : Option Bytes
  queue : List Bytes
  stats : WatchStats
  deriving DecidableEq, Repr

namespace Watch

def new (addr : UInt32) (len : Nat) (filter : Option Filter) : Watch :=
  ⟨addr, len, filter, none, [], ⟨0, 0, 0, 0, 0⟩⟩

/-- Queue a change; behind a full queue the oldest is dropped. -/
def enqueue (w : Watch) (bytes : Bytes) : Watch :=
  if w.queue.length = queueCap then
    { w with
      queue := w.queue.tail ++ [bytes]
      stats := { w.stats with dropped := w.stats.dropped + 1, queued := w.stats.queued + 1 } }
  else { w with queue := w.queue ++ [bytes], stats := { w.stats with queued := w.stats.queued + 1 } }

def pushEvent (w : Watch) (bytes : Bytes) : Watch :=
  if bytes.length ≠ w.len then w
  else enqueue { w with stats := { w.stats with events := w.stats.events + 1 } } bytes

def addDropped (w : Watch) (n : Nat) : Watch :=
  { w with stats := { w.stats with dropped := w.stats.dropped + n } }

def observe (w : Watch) (bytes : Bytes) : Watch :=
  if bytes.length ≠ w.len then w
  else
    let was := w.last
    let w := { w with last := some bytes, stats := { w.stats with samples := w.stats.samples + 1 } }
    -- The first sample is a baseline, and a slot going to zero is no event.
    if was = none ∨ was = some bytes ∨ bytes.all (· = 0) then w
    else
      let w := { w with stats := { w.stats with events := w.stats.events + 1 } }
      if w.filter.all (·.admits bytes) then w.enqueue bytes else w

def take (w : Watch) : Option Bytes × Watch :=
  match w.queue with
  | [] => (none, w)
  | v :: rest => (some v, { w with queue := rest, stats := { w.stats with replayed := w.stats.replayed + 1 } })

section Lemmas

variable (w : Watch) (b : Bytes)

@[simp] theorem addDropped_queue (n : Nat) : (w.addDropped n).queue = w.queue := rfl

@[simp] theorem addDropped_len (n : Nat) : (w.addDropped n).len = w.len := rfl

@[simp] theorem addDropped_dropped (n : Nat) : (w.addDropped n).stats.dropped = w.stats.dropped + n := rfl

theorem pushEvent_len : (w.pushEvent b).len = w.len := by
  unfold pushEvent enqueue
  split
  · rfl
  · split <;> rfl

/-- A change of the watch's own length is queued, and what it pushes out is
counted. -/
theorem pushEvent_queue (hb : b.length = w.len) :
    ∃ lost, w.queue ++ [b] = lost ++ (w.pushEvent b).queue ∧
      (w.pushEvent b).stats.dropped = w.stats.dropped + lost.length := by
  unfold pushEvent
  rw [if_neg (not_not.mpr hb), enqueue]
  split
  case isTrue hfull =>
    cases hq : w.queue with
    | nil => exact absurd (hq ▸ hfull) (by decide)
    | cons x q => exact ⟨[x], rfl, rfl⟩
  case isFalse => exact ⟨[], rfl, rfl⟩

end Lemmas

end Watch

end Multi64
