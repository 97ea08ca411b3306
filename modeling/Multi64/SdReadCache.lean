import Mathlib
import Multi64.Lib.Effect
import Multi64.Lib.SortedMap
import Multi64.Lib.Store

/-! The read cache for SD sectors, `sd_read_cache.rs`: whole requests by their
first sector, dropped before a write that overlaps them. -/

namespace Multi64

def sectorBytes : Nat := 512

structure SdReadCache where
  entries : SortedMap Nat Bytes
  order : List Nat
  bytes : Nat

namespace SdReadCache

def budgetBytes : Nat := 8 * 1024 * 1024

def new : SdReadCache := ⟨.empty, [], 0⟩

/-- The sector behind the last that `len` bytes from `lba` touch. -/
def end_ (lba len : Nat) : Nat := word (lba + (len + 511) / sectorBytes)

/-- Forget everything. -/
def clear : SdReadCache := new

variable (c : SdReadCache)

/-- The `len` bytes from `lba`, if one entry covers all of them. -/
def covering (lba len : Nat) : Option Bytes :=
  match c.entries.lastLE lba with
  | none => none
  | some (start, bytes) =>
    let from_ := word ((lba - start) * sectorBytes)
    let upto := word (from_ + len)
    if from_ ≤ upto ∧ upto ≤ bytes.length then some (slice bytes from_ (upto - from_)) else none

def remove (start : Nat) : SdReadCache :=
  match c.entries.get start with
  | none => c
  | some bytes => ⟨c.entries.erase start, c.order.filter (· ≠ start), c.bytes - bytes.length⟩

/-- Whether an entry shares a sector with `len` bytes from `lba`. -/
def touches (lba len : Nat) (e : Nat × Bytes) : Bool := e.1 < end_ lba len && lba < end_ e.1 e.2.length

def invalidate (lba len : Nat) : SdReadCache :=
  ((c.entries.restrict (touches lba len)).keys).foldl remove c

/-- Drop the oldest entries until `len` bytes more fit. Every turn drops one,
so it takes at most one turn for each. -/
def evict (len : Nat) : Nat → SdReadCache → SdReadCache
  | 0, c => c
  | n + 1, c =>
    if budgetBytes < c.bytes + len then
      match c.order with
      | [] => c
      | oldest :: _ => evict len n (c.remove oldest)
    else c

def insert (lba : Nat) (bytes : Bytes) : SdReadCache :=
  if budgetBytes < bytes.length then c
  else
    let c := c.invalidate lba bytes.length
    let c := evict bytes.length c.order.length c
    ⟨c.entries.insert lba bytes, c.order ++ [lba], c.bytes + bytes.length⟩

section Through

variable {ε σ : Type}

/-- `fetch` fills a buffer of the length it is given. -/
def readThrough (lba len : Nat) (fetch : Nat → Nat → Eff ε σ Bytes) (s : σ) : (Except ε Bytes × SdReadCache) × σ :=
  if len = 0 then
    let r := fetch lba len s
    ((r.1, c), r.2)
  else
    match c.covering lba len with
    | some bytes => ((.ok bytes, c), s)
    | none =>
      let r := fetch lba len s
      match r.1 with
      | .ok buf => ((.ok buf, c.insert lba buf), r.2)
      | .error e => ((.error e, c), r.2)

def writeThrough (lba : Nat) (buf : Bytes) (store : Nat → Bytes → Eff ε σ Unit) (s : σ) :
    (Except ε Unit × SdReadCache) × σ :=
  let r := store lba buf s
  ((r.1, c.invalidate lba buf.length), r.2)

end Through

section Invariant

/-- What the cache says of itself is true. -/
structure Valid : Prop where
  order : c.order.Perm c.entries.keys
  bytes : c.bytes = (c.entries.entries.map fun e => e.2.length).sum
  budget : c.bytes ≤ budgetBytes
  apart : ∀ e ∈ c.entries.entries, ∀ e' ∈ c.entries.entries, e.1 < e'.1 → end_ e.1 e.2.length ≤ e'.1
  small : ∀ e ∈ c.entries.entries, e.1 < 2 ^ 55 ∧ 0 < e.2.length

/-- Every entry is what the card holds. -/
def Coherent (card : Store) : Prop :=
  ∀ e ∈ c.entries.entries, e.2 = card.read (e.1 * sectorBytes) e.2.length

end Invariant

section Lemmas

variable {c : SdReadCache} {lba len k : Nat} {e : Nat × Bytes} {card : Store}

theorem end_eq (hl : lba < 2 ^ 55) (hn : len < 2 ^ 63) : end_ lba len = lba + (len + 511) / 512 := by
  rw [end_, word_eq (by rw [sectorBytes]; omega), sectorBytes]

theorem Coherent.subset {c' : SdReadCache} (h : c.Coherent card)
    (hs : ∀ e ∈ c'.entries.entries, e ∈ c.entries.entries) : c'.Coherent card :=
  fun e he => h e (hs e he)

theorem Valid.length_le (h : c.Valid) (he : e ∈ c.entries.entries) : e.2.length ≤ budgetBytes := by
  have hperm := SortedMap.erase_perm (k := e.1) (v := e.2) he
  have hsum := (hperm.map fun e => e.2.length).sum_nat
  rw [List.map_cons, List.sum_cons, ← h.bytes] at hsum
  have hbudget := h.budget
  have hle : e.2.length ≤ c.bytes := hsum ▸ Nat.le_add_right _ _
  omega

theorem mem_remove : e ∈ (c.remove k).entries.entries ↔ e ∈ c.entries.entries ∧ e.1 ≠ k := by
  unfold remove
  split
  next hnone => exact ⟨fun he => ⟨he, SortedMap.get_none hnone he⟩, And.left⟩
  next => exact SortedMap.mem_erase

theorem Valid.remove (h : c.Valid) (k : Nat) : (c.remove k).Valid := by
  have hsub : ∀ e ∈ (c.remove k).entries.entries, e ∈ c.entries.entries := fun e he => (mem_remove.mp he).1
  have hapart := fun e he e' he' => h.apart e (hsub e he) e' (hsub e' he')
  have hsmall := fun e he => h.small e (hsub e he)
  revert hapart hsmall
  unfold SdReadCache.remove
  split
  · exact fun _ _ => h
  next bytes hget =>
    intro hapart hsmall
    have hperm := SortedMap.erase_perm (SortedMap.get_mem hget)
    have hsum := (hperm.map fun e => e.2.length).sum_nat
    rw [List.map_cons, List.sum_cons, ← h.bytes] at hsum
    refine ⟨?_, ?_, ?_, hapart, hsmall⟩
    · have hkeys : (c.entries.erase k).keys = c.entries.keys.filter (· ≠ k) := by
        simp only [SortedMap.keys, SortedMap.erase, SortedMap.restrict, List.filter_map]
        rfl
      rw [hkeys]
      exact h.order.filter _
    · change c.bytes - bytes.length = ((c.entries.erase k).entries.map fun e => e.2.length).sum
      rw [hsum, Nat.add_sub_cancel_left]
    · have hbudget := h.budget
      change c.bytes - bytes.length ≤ _
      omega

theorem mem_removeAll (ks : List Nat) :
    e ∈ (ks.foldl SdReadCache.remove c).entries.entries ↔ e ∈ c.entries.entries ∧ e.1 ∉ ks := by
  induction ks generalizing c with
  | nil => simp
  | cons k ks ih => rw [List.foldl_cons, ih, mem_remove, List.mem_cons, not_or, and_assoc]

theorem Valid.removeAll (h : c.Valid) (ks : List Nat) : (ks.foldl SdReadCache.remove c).Valid := by
  induction ks generalizing c with
  | nil => exact h
  | cons k ks ih => exact ih (h.remove k)

/-- What is left after a write to `len` bytes from `lba` shares no sector with
it. -/
theorem mem_invalidate :
    e ∈ (c.invalidate lba len).entries.entries ↔ e ∈ c.entries.entries ∧ touches lba len e = false := by
  rw [invalidate, mem_removeAll]
  refine and_congr_right fun he => ?_
  have hkey : e.1 ∈ (c.entries.restrict (touches lba len)).keys ↔ touches lba len e = true := by
    rw [SortedMap.keys, List.mem_map]
    constructor
    · rintro ⟨e', he', hk⟩
      obtain ⟨hin, ht⟩ := SortedMap.mem_restrict.mp he'
      have heq := List.inj_on_of_nodup_map SortedMap.nodup_keys hin he hk
      rwa [heq] at ht
    · exact fun ht => ⟨e, SortedMap.mem_restrict.mpr ⟨he, ht⟩, rfl⟩
  rw [hkey, Bool.not_eq_true]

theorem Valid.invalidate (h : c.Valid) (lba len : Nat) : (c.invalidate lba len).Valid := h.removeAll _

theorem mem_evict (n : Nat) : ∀ c : SdReadCache, e ∈ (evict len n c).entries.entries → e ∈ c.entries.entries := by
  induction n with
  | zero => exact fun _ he => he
  | succ n ih =>
    intro c he
    unfold evict at he
    split at he
    · split at he
      · exact he
      · exact (mem_remove.mp (ih _ he)).1
    · exact he

theorem Valid.evict (h : c.Valid) (len n : Nat) : (SdReadCache.evict len n c).Valid := by
  induction n generalizing c with
  | zero => exact h
  | succ n ih =>
    unfold SdReadCache.evict
    split
    · split
      · exact h
      · exact ih (h.remove _)
    · exact h

/-- Without an entry there are no bytes. -/
theorem Valid.bytes_nil (h : c.Valid) (hnil : c.order = []) : c.bytes = 0 := by
  have hkeys : c.entries.keys = [] := (hnil ▸ h.order).symm.eq_nil
  rw [h.bytes, List.map_eq_nil_iff.mp hkeys]
  rfl

/-- As many turns as there are entries make room. -/
theorem Valid.evict_room (h : c.Valid) (hlen : len ≤ budgetBytes) (n : Nat) (hn : c.order.length ≤ n) :
    (SdReadCache.evict len n c).bytes + len ≤ budgetBytes := by
  induction n generalizing c with
  | zero =>
    have hzero := h.bytes_nil (List.eq_nil_of_length_eq_zero (Nat.le_zero.mp hn))
    rw [SdReadCache.evict, hzero]
    omega
  | succ n ih =>
    unfold SdReadCache.evict
    split
    · split
      next hnil =>
        have hzero := h.bytes_nil hnil
        omega
      next oldest rest horder =>
        refine ih (h.remove oldest) ?_
        have hmem : oldest ∈ c.entries.keys := h.order.mem_iff.mp (by rw [horder]; exact List.mem_cons_self)
        unfold SdReadCache.remove
        split
        next hnone =>
          obtain ⟨e, he, hk⟩ := List.mem_map.mp hmem
          exact absurd hk (SortedMap.get_none hnone he)
        next bytes hget =>
          have hlt : (c.order.filter (· ≠ oldest)).length < c.order.length := by
            rw [horder, List.filter_cons_of_neg (by simp)]
            exact Nat.lt_succ_of_le (List.length_filter_le _ _)
          change (c.order.filter (· ≠ oldest)).length ≤ n
          omega
    next hroom => omega

theorem Valid.insert (h : c.Valid) {bytes : Bytes} (hl : lba < 2 ^ 55) (hne : 0 < bytes.length) :
    (c.insert lba bytes).Valid := by
  unfold SdReadCache.insert
  split
  · exact h
  next hfit =>
    have hmax : budgetBytes = 8388608 := rfl
    have hlen : bytes.length < 2 ^ 63 := by omega
    have hinv := h.invalidate lba bytes.length
    have hev := hinv.evict bytes.length (c.invalidate lba bytes.length).order.length
    have hroom := hinv.evict_room (Nat.not_lt.mp hfit) _ (Nat.le_refl _)
    have hclear : ∀ e ∈ (SdReadCache.evict bytes.length (c.invalidate lba bytes.length).order.length
        (c.invalidate lba bytes.length)).entries.entries, touches lba bytes.length e = false := fun e he =>
      (mem_invalidate.mp (mem_evict _ _ he)).2
    revert hev hroom hclear
    simp only
    generalize SdReadCache.evict bytes.length (c.invalidate lba bytes.length).order.length
      (c.invalidate lba bytes.length) = c₁
    intro hev hroom hclear
    have hend := end_eq hl hlen
    -- An entry that shares no sector with the new one lies before it or behind it.
    have hside : ∀ e ∈ c₁.entries.entries, end_ e.1 e.2.length ≤ lba ∨ end_ lba bytes.length ≤ e.1 := by
      intro e he
      have ht := hclear e he
      simp only [touches, Bool.and_eq_false_iff, decide_eq_false_iff_not, Nat.not_lt] at ht
      exact ht.symm
    have hends : ∀ e ∈ c₁.entries.entries, e.1 < end_ e.1 e.2.length := by
      intro e he
      have hle := hev.length_le he
      obtain ⟨hlt, hpos⟩ := hev.small e he
      rw [end_eq hlt (by omega)]
      omega
    have hfresh : ∀ e ∈ c₁.entries.entries, e.1 ≠ lba := by
      intro e he heq
      have hee := hends e he
      have hs := hside e he
      omega
    have herase : (c₁.entries.erase lba).entries = c₁.entries.entries :=
      List.filter_eq_self.mpr fun e he => decide_eq_true (hfresh e he)
    have hperm := SortedMap.insert_perm (m := c₁.entries) (k := lba) (v := bytes)
    rw [herase] at hperm
    refine ⟨?_, ?_, hroom, fun e he e' he' hlt => ?_, fun e he => ?_⟩
    · refine (List.perm_append_singleton lba c₁.order).trans ?_
      exact (hev.order.cons lba).trans (hperm.map Prod.fst).symm
    · have hsum := (hperm.map fun e => e.2.length).sum_nat
      rw [List.map_cons, List.sum_cons, ← hev.bytes] at hsum
      change c₁.bytes + bytes.length = _
      rw [hsum, Nat.add_comm]
    · rcases List.mem_cons.mp (hperm.mem_iff.mp he) with rfl | he
      · rcases List.mem_cons.mp (hperm.mem_iff.mp he') with rfl | he'
        · exact absurd hlt (Nat.lt_irrefl _)
        · have hs := hside e' he'
          have hee := hends e' he'
          have hlt' : lba < e'.1 := hlt
          exact hs.resolve_left (by omega)
      · rcases List.mem_cons.mp (hperm.mem_iff.mp he') with rfl | he'
        · have hs := hside e he
          have hlt' : e.1 < lba := hlt
          exact hs.resolve_right (by omega)
        · exact hev.apart e he e' he' hlt
    · rcases List.mem_cons.mp (hperm.mem_iff.mp he) with rfl | he
      · exact ⟨hl, hne⟩
      · exact hev.small e he

theorem Coherent.insert (h : c.Coherent card) (lba n : Nat) :
    (c.insert lba (card.read (lba * sectorBytes) n)).Coherent card := by
  unfold SdReadCache.insert
  split
  · exact h
  · intro e he
    rcases SortedMap.mem_insert.mp he with rfl | ⟨he, _⟩
    · simp only [Store.read_length]
    · exact h e (mem_invalidate.mp (mem_evict _ _ he)).1

/-- What one entry covers is read from the card as it is. -/
theorem Coherent.covering (h : c.Coherent card) {bytes : Bytes} (hl : lba < 2 ^ 55) (hn : len < 2 ^ 63)
    (hc : c.covering lba len = some bytes) : bytes = card.read (lba * sectorBytes) len := by
  unfold SdReadCache.covering at hc
  split at hc
  · cases hc
  next start data hlast =>
    obtain ⟨hmem, hle⟩ := SortedMap.lastLE_mem hlast
    have hdata := h _ hmem
    have hsec : sectorBytes = 512 := rfl
    have hstart : start ≤ lba := hle
    have hfrom : word ((lba - start) * sectorBytes) = (lba - start) * 512 := by
      rw [hsec, word_eq (by omega)]
    simp only [hfrom] at hc
    split at hc
    next hfit =>
      have hupto : word ((lba - start) * 512 + len) = (lba - start) * 512 + len := by
        by_cases hbig : (lba - start) * 512 + len < 2 ^ 64
        · exact word_eq hbig
        · have hwrap : word ((lba - start) * 512 + len) = (lba - start) * 512 + len - 2 ^ 64 := by
            rw [word]
            omega
          omega
      rw [hupto] at hfit hc
      rw [Option.some.injEq, Nat.add_sub_cancel_left] at hc
      simp only at hdata
      rw [← hc, hdata, Store.slice_read _ _ _ hfit.2,
        show start * sectorBytes + (lba - start) * 512 = lba * sectorBytes by rw [hsec]; omega]
    · cases hc

end Lemmas

section Card

/-- A fetch from the card, which may fail. -/
def cardFetch (ok : Bool) (lba len : Nat) : Eff Unit Store Bytes := fun card =>
  if ok then (.ok (card.read (lba * sectorBytes) len), card) else (.error (), card)

/-- A store to the card. One that fails has `applied` some of its bytes. -/
def cardStore (applied : Option (Nat → Bool)) (lba : Nat) (buf : Bytes) : Eff Unit Store Unit := fun card =>
  let stored := card.write (lba * sectorBytes) buf
  match applied with
  | none => (.ok (), stored)
  | some which => (.error (), fun a => if which a then stored a else card a)

inductive SdOp where
  | read (lba len : Nat) (fetches : Bool)
  | write (lba : Nat) (buf : Bytes) (applied : Option (Nat → Bool))
  | clear

/-- Addresses whose byte address is a `u64`, and buffers there can be. -/
def SdOp.InRange : SdOp → Prop
  | .read lba len _ => lba < 2 ^ 55 ∧ len < 2 ^ 63
  | .write lba buf _ => lba < 2 ^ 55 ∧ buf.length < 2 ^ 63
  | .clear => True

structure SdState where
  cache : SdReadCache
  card : Store

def SdState.read (s : SdState) (lba len : Nat) (fetches : Bool) : Except Unit Bytes × SdState :=
  let r := s.cache.readThrough lba len (cardFetch fetches) s.card
  (r.1.1, ⟨r.1.2, r.2⟩)

def SdState.step (s : SdState) : SdOp → SdState
  | .read lba len fetches => (s.read lba len fetches).2
  | .write lba buf applied =>
    let r := s.cache.writeThrough lba buf (cardStore applied) s.card
    ⟨r.1.2, r.2⟩
  | .clear => ⟨clear, s.card⟩

def SdState.run (s : SdState) (ops : List SdOp) : SdState := ops.foldl SdState.step s

structure SdState.Good (s : SdState) : Prop where
  valid : s.cache.Valid
  coherent : s.cache.Coherent s.card

variable {s : SdState} {lba len : Nat}

theorem cardStore_outside (applied : Option (Nat → Bool)) (buf : Bytes) (card : Store) {a : Nat}
    (h : a < lba * sectorBytes ∨ lba * sectorBytes + buf.length ≤ a) :
    (cardStore applied lba buf card).2 a = card a := by
  have hsame := card.write_outside (lba * sectorBytes) h
  unfold cardStore
  cases applied with
  | none => exact hsame
  | some which =>
    simp only [hsame]
    exact ite_self _

theorem SdState.Good.read (h : s.Good) (hl : lba < 2 ^ 55) (hn : len < 2 ^ 63) (fetches : Bool) :
    (s.read lba len fetches).2.Good ∧ (s.read lba len fetches).2.card = s.card ∧
      ∀ bytes, (s.read lba len fetches).1 = .ok bytes → bytes = s.card.read (lba * sectorBytes) len := by
  unfold SdState.read readThrough
  have hfetch : ∀ bytes, (cardFetch fetches lba len s.card).1 = .ok bytes →
      bytes = s.card.read (lba * sectorBytes) len := by
    intro bytes hb
    cases fetches with
    | true => exact (Except.ok.inj hb).symm
    | false => exact nomatch hb
  have hcard : (cardFetch fetches lba len s.card).2 = s.card := by
    cases fetches <;> rfl
  by_cases hzero : len = 0
  · rw [if_pos hzero]
    simp only [hcard]
    exact ⟨⟨h.valid, h.coherent⟩, trivial, hfetch⟩
  · rw [if_neg hzero]
    cases hc : s.cache.covering lba len with
    | some bytes =>
      exact ⟨⟨h.valid, h.coherent⟩, rfl, fun _ hb => Except.ok.inj hb ▸ h.coherent.covering hl hn hc⟩
    | none =>
      cases hr : (cardFetch fetches lba len s.card).1 with
      | error e =>
        simp only [hr, hcard]
        exact ⟨⟨h.valid, h.coherent⟩, trivial, nofun⟩
      | ok buf =>
        have hbuf := hfetch buf hr
        simp only [hr, hcard]
        refine ⟨⟨h.valid.insert hl ?_, ?_⟩, trivial, fun _ hb => Except.ok.inj hb ▸ hbuf⟩
        · rw [hbuf, Store.read_length]
          omega
        · rw [hbuf]
          exact h.coherent.insert lba len

/-- A change to the bytes of a write is none to what is left after it. -/
theorem Coherent.changed {c : SdReadCache} (hv : c.Valid) {card card' : Store} (hl : lba < 2 ^ 55) (hn : len < 2 ^ 63)
    (h : (c.invalidate lba len).Coherent card)
    (hout : ∀ a, a < lba * sectorBytes ∨ lba * sectorBytes + len ≤ a → card' a = card a) :
    (c.invalidate lba len).Coherent card' := by
  intro e he
  obtain ⟨hmem, ht⟩ := mem_invalidate.mp he
  have hsec : sectorBytes = 512 := rfl
  have hmax : budgetBytes = 8388608 := rfl
  have hle := hv.length_le hmem
  obtain ⟨hsmall, _⟩ := hv.small e hmem
  simp only [touches, Bool.and_eq_false_iff, decide_eq_false_iff_not, Nat.not_lt, end_eq hl hn,
    end_eq hsmall (show e.2.length < 2 ^ 63 by omega)] at ht
  have hdisjoint : ∀ i, e.1 * sectorBytes ≤ i → i < e.1 * sectorBytes + e.2.length → card i = card' i := by
    intro i hi hlt
    have hside : i < lba * sectorBytes ∨ lba * sectorBytes + len ≤ i := by
      rw [hsec] at hi hlt ⊢
      omega
    exact (hout i hside).symm
  exact (h e he).trans (Store.read_congr _ _ _ hdisjoint)

theorem SdState.Good.write (h : s.Good) {buf : Bytes} (hl : lba < 2 ^ 55) (hn : buf.length < 2 ^ 63)
    (applied : Option (Nat → Bool)) : (s.step (.write lba buf applied)).Good := by
  have hleft : (s.cache.invalidate lba buf.length).Coherent s.card :=
    h.coherent.subset fun e he => (mem_invalidate.mp he).1
  exact ⟨h.valid.invalidate lba buf.length,
    hleft.changed h.valid hl hn fun a ha => cardStore_outside applied buf s.card ha⟩

theorem SdState.Good.step (h : s.Good) {op : SdOp} (hop : op.InRange) : (s.step op).Good := by
  cases op with
  | read lba len fetches => exact (h.read hop.1 hop.2 fetches).1
  | write lba buf applied => exact h.write hop.1 hop.2 applied
  | clear => exact ⟨⟨.nil, rfl, Nat.zero_le _, nofun, nofun⟩, nofun⟩

theorem SdState.Good.run (h : s.Good) {ops : List SdOp} (hops : ∀ op ∈ ops, op.InRange) : (s.run ops).Good := by
  induction ops generalizing s with
  | nil => exact h
  | cons op ops ih =>
    exact ih (h.step (hops op List.mem_cons_self)) fun x hx => hops x (List.mem_cons_of_mem _ hx)

/-- Over any operations at addresses whose byte address is a `u64`, what the
cache says of itself is true, and a read that succeeds returns what the card
holds. -/
theorem run_coherent (card : Store) {ops : List SdOp} (hops : ∀ op ∈ ops, op.InRange) :
    let s := (SdState.mk new card).run ops
    s.cache.Valid ∧ ∀ lba len fetches bytes, (SdOp.read lba len fetches).InRange →
      (s.read lba len fetches).1 = .ok bytes → bytes = s.card.read (lba * sectorBytes) len := by
  intro s
  have hstart : (SdState.mk new card).Good := ⟨⟨.nil, rfl, Nat.zero_le _, nofun, nofun⟩, nofun⟩
  have hgood : s.Good := hstart.run hops
  exact ⟨hgood.valid, fun lba len fetches bytes hr hb => (hgood.read hr.1 hr.2 fetches).2.2 bytes hb⟩

private def blank : Store := fun _ => 0

private def marked : Store := fun a => if a = 0 then 1 else 0

/-- A write in the middle of a cached request, applied in part, and a read of
its last sector. -/
theorem run_coherent_torn :
    let ops : List SdOp := [.read 4 1024 true, .write 5 [7, 8] (some fun a => a = 5 * 512 + 1)]
    let s := (SdState.mk new blank).run ops
    s.cache.Valid ∧ (s.read 5 2 true).1.toOption = some [0, 8] ∧
      ∀ bytes, (s.read 5 2 true).1 = .ok bytes → bytes = s.card.read (5 * sectorBytes) 2 := by
  have hops : ∀ op ∈ ([.read 4 1024 true, .write 5 [7, 8] (some fun a => a = 5 * 512 + 1)] : List SdOp),
      op.InRange := by
    simp [SdOp.InRange]
  have hrun := run_coherent blank hops
  exact ⟨hrun.1, by decide +kernel, fun bytes hb => hrun.2 5 2 true bytes (by simp [SdOp.InRange]) hb⟩

/-- 2^55 sectors behind a cached one, the offset in its bytes is 2^64, which is
0 in a `u64`. -/
theorem read_wraps :
    let s := (SdState.mk new marked).run [.read 0 512 true]
    (s.read (2 ^ 55) 512 true).1.toOption = some (marked.read 0 512) ∧
      marked.read 0 512 ≠ s.card.read (2 ^ 55 * sectorBytes) 512 := by
  constructor <;> decide +kernel

end Card

end SdReadCache

end Multi64
