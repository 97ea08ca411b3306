import Multi64.Lib.Except
import Multi64.Lib.Image
import Multi64.GenericBatch

/-! When a batch of the generic connector comes to what its requests come to one
by one. -/

namespace Multi64

namespace GenericBatch

open Lua

section Snapshot

variable {host : Host} {mem m b : Bytes} {x n : Lua.Num} {a k : Nat} {r : Region}

/-- A region of the snapshot that shows a memory. -/
def Shows (m : Bytes) (r : Region) : Prop :=
  ∃ a n : Nat, r.addr.Is a ∧ r.len.Is n ∧ a + n ≤ m.length ∧ r.data = slice m a n

/-- Two whole numbers that name bytes of RDRAM. -/
def InRam (size : Nat) (x n : Lua.Num) : Prop := ∃ a k : Nat, x.Is a ∧ n.Is k ∧ a + k ≤ size

/-- A write laid over a region leaves it showing what is written. -/
theorem overlay_shows (hsize : m.length < 2 ^ 32) (hx : x.Is a) (hb : a + b.length ≤ m.length) (hr : Shows m r) :
    ∃ r', overlay x b r = .ok r' ∧ r'.addr = r.addr ∧ r'.len = r.len ∧ Shows (overwrite m a b) r' := by
  obtain ⟨ra, rn, hra, hrn, hrange, hdata⟩ := hr
  have hlen := overwrite_length hb
  have hend := hx.add_nat (Lua.Num.is_int b.length) (by omega)
  have hlo := hx.max_nat hra
  have hhi := hend.min_nat (hra.add_nat hrn (by omega))
  by_cases hnone : min (a + b.length) (ra + rn) ≤ max a ra
  · refine ⟨r, ?_, rfl, rfl, ra, rn, hra, hrn, by omega, ?_⟩
    · rw [overlay, if_pos ((hhi.le_nat hlo).mpr hnone)]
    · rw [hdata]
      exact (slice_congr (by omega) (by omega) fun j hj hlt => byteAt_overwrite_outside hb (by omega)).symm
  · obtain ⟨off, hoff⟩ : ∃ off, max a ra = ra + off := Nat.exists_eq_add_of_le (le_max_right a ra)
    obtain ⟨i, hi⟩ : ∃ i, max a ra = a + i := Nat.exists_eq_add_of_le (le_max_left a ra)
    obtain ⟨w, hw⟩ : ∃ w, min (a + b.length) (ra + rn) = max a ra + w := Nat.exists_eq_add_of_le (by omega)
    have hdlen : r.data.length = rn := by rw [hdata, slice_length hrange]
    have hoffset : ((x.max r.addr).sub r.addr).Is off := by
      have h := hlo.sub_nat hra (by omega) (by omega)
      rwa [hoff, Nat.add_sub_cancel_left] at h
    have hinto : ((x.max r.addr).sub x).Is i := by
      have h := hlo.sub_nat hx (by omega) (by omega)
      rwa [hi, Nat.add_sub_cancel_left] at h
    have hupto : (((x.add (.int b.length)).min (r.addr.add r.len)).sub x).Is (i + w : Nat) := by
      have h := hhi.sub_nat hx (by omega) (by omega)
      rwa [hw, hi, Nat.add_assoc, Nat.add_sub_cancel_left] at h
    have hwidth : (((x.add (.int b.length)).min (r.addr.add r.len)).sub (x.max r.addr)).Is w := by
      have h := hhi.sub_nat hlo (by omega) (by omega)
      rwa [hw, Nat.add_sub_cancel_left] at h
    have hfront : part r.data (.int 1) ((x.max r.addr).sub r.addr) = .ok (slice m ra off) := by
      have hpart : part r.data (.int 1) ((x.max r.addr).sub r.addr) = .ok (slice r.data 0 off) :=
        part_slice (Lua.Num.is_int 1) (by simpa using hoffset) (by omega)
      rw [hpart, hdata, slice_slice m (by omega), Nat.add_zero]
    have hmiddle : part b (((x.max r.addr).sub x).add (.int 1)) (((x.add (.int b.length)).min (r.addr.add r.len)).sub x) =
        .ok (slice b i w) := by
      refine part_slice (hinto.succ (by omega)) ?_ (by omega)
      exact_mod_cast hupto
    have hback : part r.data
        ((((x.max r.addr).sub r.addr).add (((x.add (.int b.length)).min (r.addr.add r.len)).sub (x.max r.addr))).add (.int 1))
        (.int (-1)) = .ok (r.data.drop (off + w)) :=
      part_drop ((hoffset.add_nat hwidth (by omega)).succ (by omega)) (by omega)
    refine ⟨{ r with data := slice m ra off ++ slice b i w ++ r.data.drop (off + w) }, ?_, rfl, rfl, ra, rn, hra, hrn,
      by omega, ?_⟩
    · rw [overlay, if_neg fun h => hnone ((hhi.le_nat hlo).mp h)]
      simp only [hfront, hmiddle, hback]
      rfl
    · have hrn' : rn = off + w + (rn - (off + w)) := by omega
      have hstart : slice (overwrite m a b) ra off = slice m ra off :=
        slice_congr (by omega) (by omega) fun j hj hlt => byteAt_overwrite_outside hb (by omega)
      have hinside : slice (overwrite m a b) (ra + off) w = slice b i w := by
        rw [← hoff, hi]
        exact slice_overwrite_inside hb (by omega)
      have hrest : slice (overwrite m a b) (ra + (off + w)) (rn - (off + w)) = slice m (ra + (off + w)) (rn - (off + w)) :=
        slice_congr (by omega) (by omega) fun j hj hlt => byteAt_overwrite_outside hb (by omega)
      have hdrop : r.data.drop (off + w) = slice m (ra + (off + w)) (rn - (off + w)) := by
        rw [hdata, slice, List.drop_take, List.drop_drop, slice]
      show slice m ra off ++ slice b i w ++ r.data.drop (off + w) = _
      rw [hdrop, ← hstart, ← hinside, ← hrest, ← slice_add, ← slice_add, ← hrn']

theorem checkRdram_whole {size : Nat} (hsize : size < 2 ^ 32) (hx : x.Is a) (hn : n.Is k) (h : a + k ≤ size) :
    checkRdram size (.num x) (.num n) = .ok (x, n) := by
  have hend := hx.add_nat hn (by omega)
  have hlt : ¬ (Lua.Num.int size).lt (x.add n) := fun hlt => absurd (((Lua.Num.is_int size).lt_nat hend).mp hlt) (by omega)
  rw [checkRdram, if_neg]
  simp [hx.isNeg, hn.isNeg, hlt]

end Snapshot

section Steps

variable (host : Host) (mem : Bytes)

/-- The snapshot and the queued writes say what RDRAM is by now. -/
structure Sim (data : List Value) (s : State) (m : Bytes) : Prop where
  length : m.length = mem.length
  shows : ∀ r ∈ s.snapshot, Shows m r
  foreseen : ∀ req ∈ data, ∀ x n, wanted host mem req = .ok (some (.rdram, x, n)) →
    ∃ r ∈ s.snapshot, r.addr = x ∧ r.len = n
  pending : writeMany host mem s.pending = .ok m

/-- The numbers of an access that is not refused are whole, and name bytes that
are there. -/
def Whole (domain addr len : Value) : Prop :=
  match resolve host mem.length domain addr with
  | .error _ => True
  | .ok (.rom, a) => (∃ b, romRead host a len = .ok b) → isFraction addr = false ∧ isFraction len = false
  | .ok (.rdram, a) => ∀ x n, checkRdram mem.length a len = .ok (x, n) → InRam mem.length x n

/-- The bytes of RDRAM that an access names are as they were before the batch. -/
def Unchanged (m : Bytes) (domain addr len : Value) : Prop :=
  ∀ a x n, ∀ i k : Nat, resolve host mem.length domain addr = .ok (.rdram, a) →
    checkRdram mem.length a len = .ok (x, n) → x.Is i → n.Is k → slice m i k = slice mem i k

/-- A request that a batch carries out as it would be carried out alone, on RDRAM
as it is by now. -/
def Plain (m : Bytes) (req : Value) : Prop :=
  match kind (field req "type") with
  | .read => Whole host mem (field req "domain") (field req "address") (field req "size")
  | .guard => ∀ expected, decode64 host (field req "expected_data") = .ok expected →
      Whole host mem (field req "domain") (field req "address") (.num (.int expected.length)) ∧
        ((∃ s, field req "expected_data" = .str s) ∨
          Unchanged host mem m (field req "domain") (field req "address") (.num (.int expected.length)))
  | .write => ∀ b, decode64 host (field req "value") = .ok b → ∀ a x n,
      resolve host mem.length (field req "domain") (field req "address") = .ok (.rdram, a) →
        checkRdram mem.length a (.num (.int b.length)) = .ok (x, n) → InRam mem.length x n
  | _ => True

variable {host mem} {data : List Value} {s : State} {m b : Bytes} {domain addr len req : Value} {x n : Lua.Num} {a k : Nat}

theorem Sim.small (h : Sim host mem data s m) (hsize : mem.length < 2 ^ 32) : m.length < 2 ^ 32 := by
  rw [h.length]
  exact hsize

variable {entries : List (Value × Value)}

/-- Each request up to a guard that does not hold is plain, on RDRAM as those
before it leave it. -/
def PlainRun (host : Host) (mem : Bytes) : List Value → Bytes → Prop
  | [], _ => True
  | req :: rest, m => Plain host mem m req ∧
      ((respond host mem.length (alone host) req m).1.failed = false →
        PlainRun host mem rest (respond host mem.length (alone host) req m).2)

/-- The whole numbers that fit. -/
def taken (fits : Int → Bool) : Value → Option Nat
  | .num x => x.toInteger.bind fun n => if fits n then some n.toNat else none
  | _ => none

def request (fields : List (String × Value)) : Value := .table (fields.map fun f => (.str (ascii f.1), f.2))

end Steps

end GenericBatch

end Multi64
