import Mathlib

/-! Incremental scanners. A scanner looks at the symbols it holds and either
waits for more, skips some, or emits an item and the symbols it used. When
every look commutes with input that arrives later, scanning a stream in
pieces and scanning it whole give the same items. -/

namespace Multi64

/-- What a scanner decides about the symbols it holds. `wait n` forgets the
first `n` of them and stops until more arrive. -/
inductive Look (α : Type*) where
  | wait (n : Nat)
  | skip (n : Nat)
  | emit (a : α) (n : Nat)

variable {α β : Type*}

/-- The same decision with `n` more symbols in front. -/
def Look.shift (n : Nat) : Look α → Look α
  | .wait k => .wait (k + n)
  | .skip k => .skip (k + n)
  | .emit a k => .emit a (k + n)

/-- Look again and again, at most `fuel` times. The items come with the
symbols still held. -/
def scanFuel (look : List β → Look α) : Nat → List β → List α × List β
  | 0, b => ([], b)
  | fuel + 1, b =>
    match look b with
    | .wait n => ([], b.drop n)
    | .skip n => scanFuel look fuel (b.drop n)
    | .emit a n => (a :: (scanFuel look fuel (b.drop n)).1, (scanFuel look fuel (b.drop n)).2)

/-- Every look that does not wait uses a symbol, so this many looks suffice. -/
def scan (look : List β → Look α) (b : List β) : List α × List β :=
  scanFuel look (b.length + 1) b

/-- A look that goes on uses at least one of the symbols held. -/
structure Progress (look : List β → Look α) : Prop where
  skip : ∀ {b n}, look b = .skip n → 0 < n ∧ n ≤ b.length
  emit : ∀ {b a n}, look b = .emit a n → 0 < n ∧ n ≤ b.length

section Progress

variable {look : List β → Look α}

theorem Progress.scanFuel_eq (hp : Progress look) {m n : Nat} {b : List β}
    (hm : b.length < m) (hn : b.length < n) : scanFuel look m b = scanFuel look n b := by
  induction m generalizing n b with
  | zero => omega
  | succ m ih =>
    cases n with
    | zero => omega
    | succ n =>
      cases hl : look b with
      | wait k => simp only [scanFuel, hl]
      | skip k =>
        have hk := hp.skip hl
        have hd : (b.drop k).length < b.length := by rw [List.length_drop]; omega
        simp only [scanFuel, hl]
        exact ih (by omega) (by omega)
      | emit a k =>
        have hk := hp.emit hl
        have hd : (b.drop k).length < b.length := by rw [List.length_drop]; omega
        have hb : scanFuel look m (b.drop k) = scanFuel look n (b.drop k) := ih (by omega) (by omega)
        simp only [scanFuel, hl, hb]

theorem scan_wait {b : List β} {n : Nat} (h : look b = .wait n) :
    scan look b = ([], b.drop n) := by
  simp only [scan, scanFuel, h]

theorem Progress.scan_skip (hp : Progress look) {b : List β} {n : Nat}
    (h : look b = .skip n) : scan look b = scan look (b.drop n) := by
  have hn := hp.skip h
  have hd : (b.drop n).length < b.length := by rw [List.length_drop]; omega
  rw [scan, scanFuel, h]
  exact hp.scanFuel_eq hd (Nat.lt_succ_self _)

theorem Progress.scan_emit (hp : Progress look) {b : List β} {a : α} {n : Nat}
    (h : look b = .emit a n) :
    scan look b = (a :: (scan look (b.drop n)).1, (scan look (b.drop n)).2) := by
  have hn := hp.emit h
  have hd : (b.drop n).length < b.length := by rw [List.length_drop]; omega
  have he : scanFuel look b.length (b.drop n) = scan look (b.drop n) :=
    hp.scanFuel_eq hd (Nat.lt_succ_self _)
  simp only [scan, scanFuel, h] at he ⊢
  rw [he]

/-- Symbols a look passes over without deciding on them can go first. -/
theorem Progress.scan_shift (hp : Progress look) {b : List β} {n : Nat}
    (h : look b = (look (b.drop n)).shift n) : scan look b = scan look (b.drop n) := by
  have hadd : ∀ k, b.drop (k + n) = (b.drop n).drop k := by
    intro k
    rw [List.drop_drop, Nat.add_comm]
  cases hl : look (b.drop n) with
  | wait k =>
    rw [hl, Look.shift] at h
    rw [scan_wait h, scan_wait hl, hadd]
  | skip k =>
    rw [hl, Look.shift] at h
    rw [hp.scan_skip h, hp.scan_skip hl, hadd]
  | emit a k =>
    rw [hl, Look.shift] at h
    rw [hp.scan_emit h, hp.scan_emit hl, hadd]

/-- Induction on what the scanner sees, one look at a time. -/
theorem Progress.induction (hp : Progress look) {motive : List β → Prop}
    (wait : ∀ b n, look b = .wait n → motive b)
    (skip : ∀ b n, look b = .skip n → motive (b.drop n) → motive b)
    (emit : ∀ b a n, look b = .emit a n → motive (b.drop n) → motive b) (b : List β) :
    motive b := by
  induction hlen : b.length using Nat.strongRecOn generalizing b with
  | _ len ih =>
    cases hl : look b with
    | wait n => exact wait b n hl
    | skip n =>
      have hn := hp.skip hl
      exact skip b n hl (ih _ (by rw [List.length_drop]; omega) _ rfl)
    | emit a n =>
      have hn := hp.emit hl
      exact emit b a n hl (ih _ (by rw [List.length_drop]; omega) _ rfl)

theorem Progress.scan_nil (hp : Progress look) : scan look [] = ([], []) := by
  cases hl : look ([] : List β) with
  | wait n => simp [scan_wait hl]
  | skip n => exact absurd (hp.skip hl) (by simp; omega)
  | emit a n => exact absurd (hp.emit hl) (by simp; omega)

theorem Progress.scan_length_le (hp : Progress look) (b : List β) :
    (scan look b).2.length ≤ b.length := by
  induction b using hp.induction with
  | wait b n h => simp [scan_wait h]
  | skip b n h ih => rw [hp.scan_skip h]; exact Nat.le_trans ih (by simp)
  | emit b a n h ih => rw [hp.scan_emit h]; exact Nat.le_trans ih (by simp)

end Progress

/-- Whatever a look decides, it decides the same way once more symbols have
arrived behind the ones it saw. -/
structure Stable (look : List β → Look α) : Prop extends Progress look where
  wait_append : ∀ {b n}, look b = .wait n → ∀ t,
    scan look (b ++ t) = scan look (b.drop n ++ t)
  skip_append : ∀ {b n}, look b = .skip n → ∀ t,
    scan look (b ++ t) = scan look (b.drop n ++ t)
  emit_append : ∀ {b a n}, look b = .emit a n → ∀ t, look (b ++ t) = .emit a n

/-- One delivery: scan what was held with the new symbols behind it. -/
def feed (look : List β → Look α) (held : List β) (chunk : List β) : List α × List β :=
  scan look (held ++ chunk)

/-- All items of a list of deliveries, and what is held at the end. -/
def feedAll (look : List β → Look α) : List β → List (List β) → List α × List β
  | held, [] => ([], held)
  | held, chunk :: chunks =>
    let r := feed look held chunk
    let rest := feedAll look r.2 chunks
    (r.1 ++ rest.1, rest.2)

section Stable

variable {look : List β → Look α}

/-- Scanning a longer input goes on from what scanning a shorter one held. -/
theorem Stable.scan_append (hs : Stable look) (b t : List β) :
    scan look (b ++ t) =
      ((scan look b).1 ++ (scan look ((scan look b).2 ++ t)).1,
        (scan look ((scan look b).2 ++ t)).2) := by
  induction b using hs.toProgress.induction with
  | wait b n h => rw [hs.wait_append h t, scan_wait h]; rfl
  | skip b n h ih => rw [hs.skip_append h t, hs.toProgress.scan_skip h, ih]
  | emit b a n h ih =>
    have hn := hs.toProgress.emit h
    rw [hs.toProgress.scan_emit (hs.emit_append h t), hs.toProgress.scan_emit h,
      List.drop_append_of_le_length hn.2, ih]
    rfl

/-- Deliveries continue a scan: cutting the input differently changes neither
the items nor what is held. -/
theorem Stable.scan_flatten (hs : Stable look) (s : List β) (chunks : List (List β)) :
    scan look (s ++ chunks.flatten) =
      ((scan look s).1 ++ (feedAll look (scan look s).2 chunks).1,
        (feedAll look (scan look s).2 chunks).2) := by
  induction chunks generalizing s with
  | nil => simp [feedAll]
  | cons c chunks ih =>
    have hc := ih (s ++ c)
    rw [hs.scan_append s c] at hc
    simpa [feedAll, feed, List.append_assoc] using hc

/-- Of the items in the input `sent`, `items` have been taken and the rest are
in the symbols `held`. -/
def Taken (look : List β → Look α) (sent : List β) (items : List α) (held : List β) : Prop :=
  scan look sent = (items ++ (scan look held).1, (scan look held).2)

theorem Taken.start (look : List β → Look α) (s : List β) : Taken look s [] s := rfl

theorem Taken.congr {sent held held' : List β} {items : List α} (ht : Taken look sent items held)
    (h : scan look held = scan look held') : Taken look sent items held' := by
  rw [Taken, ht, h]

theorem Taken.receive (hs : Stable look) {sent held : List β} {items : List α}
    (ht : Taken look sent items held) (got : List β) :
    Taken look (sent ++ got) items (held ++ got) := by
  rw [Taken, hs.scan_append sent got, hs.scan_append held got, ht, List.append_assoc]

theorem Taken.take (hp : Progress look) {sent held : List β} {items : List α}
    (ht : Taken look sent items held) {a : α} {n : Nat} (h : look held = .emit a n) :
    Taken look sent (items ++ [a]) (held.drop n) := by
  rw [Taken, ht, hp.scan_emit h, List.append_assoc]
  rfl

theorem Stable.scan_congr (hs : Stable look) {b b' : List β} (h : scan look b = scan look b')
    (t : List β) : scan look (b ++ t) = scan look (b' ++ t) := by
  rw [hs.scan_append b t, hs.scan_append b' t, h]

theorem Stable.feedAll_eq (hs : Stable look) (chunks : List (List β)) :
    feedAll look [] chunks = scan look chunks.flatten := by
  have h := hs.scan_flatten [] chunks
  simpa [hs.toProgress.scan_nil] using h.symm

end Stable

end Multi64
