import Mathlib
import Multi64.Lib.Bytes

/-! What a partition is to the file systems on it: an array of bytes with a
position. The disk in memory, `mem_disk.rs`, is one. -/

namespace Multi64

inductive ErrorKind where
  | invalidInput
  | invalidData
  | writeZero
  | unsupported
  | other
  deriving DecidableEq, Repr

structure DiskError where
  kind : ErrorKind
  text : String
  deriving DecidableEq, Repr

inductive SeekFrom where
  | start (s : UInt64)
  | current (d : Int64)
  | end_ (d : Int64)

/-- Where a seek leads, in 128 bits. -/
def SeekFrom.newPos (pos len : Nat) : SeekFrom → Int
  | .start s => s.toNat
  | .current d => pos + d.toInt
  | .end_ d => len + d.toInt

/-- The `seek` of both disks. The check is on the 64 bits of the sum. -/
def seekTo (past : String) (len pos : Nat) (s : SeekFrom) : Except DiskError Nat :=
  let newPos := s.newPos pos len
  if newPos < 0 then .error ⟨.invalidInput, "seek before start"⟩
  else
    let n := word newPos.toNat
    if len < n then .error ⟨.invalidInput, past⟩ else .ok n

inductive DiskOp where
  | seek (s : SeekFrom)
  | read (len : Nat)
  | write (buf : Bytes)

inductive Answer where
  | pos (n : Nat)
  | bytes (b : Bytes)
  | count (n : Nat)
  deriving DecidableEq, Repr

/-- An array of bytes and a position in it. -/
structure FlatDisk where
  bytes : Bytes
  pos : Nat
  writable : Bool
  inside : pos ≤ bytes.length

namespace FlatDisk

variable (d : FlatDisk)

def seek (s : SeekFrom) : Except ErrorKind Answer × FlatDisk :=
  let t := s.newPos d.pos d.bytes.length
  if h : 0 ≤ t ∧ t ≤ d.bytes.length then (.ok (.pos t.toNat), { d with pos := t.toNat, inside := by omega })
  else (.error .invalidInput, d)

theorem read_inside (len : Nat) : d.pos + (slice d.bytes d.pos len).length ≤ d.bytes.length := by
  have h := d.inside
  simp only [slice, List.length_take, List.length_drop]
  omega

def read (len : Nat) : Except ErrorKind Answer × FlatDisk :=
  let b := slice d.bytes d.pos len
  (.ok (.bytes b), { d with
    pos := d.pos + b.length
    inside := d.read_inside len })

/-- All of `buf` or none of it. -/
def write (buf : Bytes) : Except ErrorKind Answer × FlatDisk :=
  if d.writable = false then (.error .unsupported, d)
  else if h : d.pos + buf.length ≤ d.bytes.length then
    (.ok (.count buf.length), { d with
      bytes := overwrite d.bytes d.pos buf
      pos := d.pos + buf.length
      inside := by rwa [overwrite_length h] })
  else (.error .writeZero, d)

def step : DiskOp → Except ErrorKind Answer × FlatDisk
  | .seek s => d.seek s
  | .read len => d.read len
  | .write buf => d.write buf

def run (d : FlatDisk) : List DiskOp → List (Except ErrorKind Answer) × FlatDisk
  | [] => ([], d)
  | op :: ops =>
    let r := d.step op
    let rest := run r.2 ops
    (r.1 :: rest.1, rest.2)

end FlatDisk

structure RamPartitionDisk where
  storage : Bytes
  pos : Nat
  writable : Bool

namespace RamPartitionDisk

variable (d : RamPartitionDisk)

def read (len : Nat) : Except DiskError Bytes × RamPartitionDisk :=
  if len = 0 then (.ok [], d)
  else if d.storage.length ≤ d.pos then (.ok [], d)
  else
    let n := min len (d.storage.length - d.pos)
    (.ok (slice d.storage d.pos n), { d with pos := d.pos + n })

def write (buf : Bytes) : Except DiskError Nat × RamPartitionDisk :=
  if d.writable = false then (.error ⟨.unsupported, "read-only RAM partition"⟩, d)
  else if buf = [] then (.ok 0, d)
  else if 2 ^ 64 ≤ d.pos + buf.length then (.error ⟨.invalidInput, "write overflow"⟩, d)
  else if d.storage.length < d.pos + buf.length then (.error ⟨.writeZero, "write past end of RAM partition"⟩, d)
  else (.ok buf.length, { d with storage := overwrite d.storage d.pos buf, pos := d.pos + buf.length })

def seek (s : SeekFrom) : Except DiskError Nat × RamPartitionDisk :=
  match seekTo "seek past end of RAM partition" d.storage.length d.pos s with
  | .ok n => (.ok n, { d with pos := n })
  | .error e => (.error e, d)

def step : DiskOp → Except DiskError Answer × RamPartitionDisk
  | .seek s => ((d.seek s).1.map .pos, (d.seek s).2)
  | .read len => ((d.read len).1.map .bytes, (d.read len).2)
  | .write buf => ((d.write buf).1.map .count, (d.write buf).2)

end RamPartitionDisk

section Refinement

theorem SeekFrom.newPos_lt (s : SeekFrom) {pos len : Nat} (hp : pos ≤ len) (hl : len ≤ 2 ^ 63) :
    s.newPos pos len < 2 ^ 64 := by
  cases s with
  | start s =>
    have hs := s.toNat_lt
    simp only [SeekFrom.newPos]
    omega
  | current d =>
    have hd := d.toInt_lt
    simp only [SeekFrom.newPos]
    omega
  | end_ d =>
    have hd := d.toInt_lt
    simp only [SeekFrom.newPos]
    omega

/-- Where the sum fits 64 bits, the check is on the sum. -/
theorem seekTo_cases (past : String) (s : SeekFrom) {pos len : Nat} (hfits : s.newPos pos len < 2 ^ 64) :
    (0 ≤ s.newPos pos len ∧ s.newPos pos len ≤ len ∧ seekTo past len pos s = .ok (s.newPos pos len).toNat) ∨
      (¬(0 ≤ s.newPos pos len ∧ s.newPos pos len ≤ len) ∧
        ∃ text, seekTo past len pos s = .error ⟨.invalidInput, text⟩) := by
  unfold seekTo
  have hword : word (s.newPos pos len).toNat = (s.newPos pos len).toNat := word_eq (by omega)
  simp only [hword]
  by_cases hneg : s.newPos pos len < 0
  · rw [if_pos hneg]
    exact .inr ⟨by omega, _, rfl⟩
  · rw [if_neg hneg]
    by_cases hpast : len < (s.newPos pos len).toNat
    · rw [if_pos hpast]
      exact .inr ⟨by omega, _, rfl⟩
    · rw [if_neg hpast]
      exact .inl ⟨by omega, by omega, rfl⟩

theorem FlatDisk.seek_inside {f : FlatDisk} {s : SeekFrom} (h0 : 0 ≤ s.newPos f.pos f.bytes.length)
    (h1 : s.newPos f.pos f.bytes.length ≤ f.bytes.length) :
    (f.seek s).1 = .ok (.pos (s.newPos f.pos f.bytes.length).toNat) ∧
      (f.seek s).2.pos = (s.newPos f.pos f.bytes.length).toNat ∧ (f.seek s).2.bytes = f.bytes ∧
      (f.seek s).2.writable = f.writable := by
  unfold FlatDisk.seek
  rw [dif_pos ⟨h0, h1⟩]
  exact ⟨rfl, rfl, rfl, rfl⟩

theorem FlatDisk.seek_outside {f : FlatDisk} {s : SeekFrom}
    (h : ¬(0 ≤ s.newPos f.pos f.bytes.length ∧ s.newPos f.pos f.bytes.length ≤ f.bytes.length)) :
    f.seek s = (.error .invalidInput, f) :=
  dif_neg h

theorem FlatDisk.seek_behind_end (f : FlatDisk) {d : Int64} (hd : 0 < d.toInt) :
    (f.run [.seek (.end_ 0), .seek (.current d)]).1 = [.ok (.pos f.bytes.length), .error .invalidInput] := by
  have hend : (SeekFrom.end_ 0).newPos f.pos f.bytes.length = f.bytes.length := Int.add_zero _
  obtain ⟨hr, hpos, hbytes, -⟩ := FlatDisk.seek_inside (f := f) (s := .end_ 0) (by omega) (by omega)
  have hpast : ¬(0 ≤ (SeekFrom.current d).newPos (f.seek (.end_ 0)).2.pos (f.seek (.end_ 0)).2.bytes.length ∧
      (SeekFrom.current d).newPos (f.seek (.end_ 0)).2.pos (f.seek (.end_ 0)).2.bytes.length ≤
        (f.seek (.end_ 0)).2.bytes.length) := by
    rw [hpos, hbytes, hend, SeekFrom.newPos]
    omega
  change [(f.seek (.end_ 0)).1, ((f.seek (.end_ 0)).2.seek (.current d)).1] = _
  rw [hr, FlatDisk.seek_outside hpast, hend]
  rfl

theorem FlatDisk.write_inside {f : FlatDisk} (buf : Bytes) (hw : f.writable = true)
    (h : f.pos + buf.length ≤ f.bytes.length) :
    (f.write buf).1 = .ok (.count buf.length) ∧ (f.write buf).2.bytes = overwrite f.bytes f.pos buf ∧
      (f.write buf).2.pos = f.pos + buf.length ∧ (f.write buf).2.writable = f.writable := by
  unfold FlatDisk.write
  rw [if_neg (by rw [hw]; exact Bool.noConfusion), dif_pos h]
  exact ⟨rfl, rfl, rfl, rfl⟩

theorem FlatDisk.write_outside {f : FlatDisk} {buf : Bytes} (hw : f.writable = true)
    (h : f.bytes.length < f.pos + buf.length) : f.write buf = (.error .writeZero, f) := by
  unfold FlatDisk.write
  rw [if_neg (by rw [hw]; exact Bool.noConfusion), dif_neg (Nat.not_le.mpr h)]

/-- The disk in memory that holds `f`. -/
def FlatDisk.ram (f : FlatDisk) : RamPartitionDisk := ⟨f.bytes, f.pos, f.writable⟩

theorem FlatDisk.ram_seek (f : FlatDisk) (s : SeekFrom) (hsize : f.bytes.length < 2 ^ 63) :
    ((f.ram.seek s).1.map Answer.pos).mapError DiskError.kind = (f.seek s).1 ∧
      (f.ram.seek s).2 = (f.seek s).2.ram := by
  have hfits := s.newPos_lt f.inside (Nat.le_of_lt hsize)
  unfold RamPartitionDisk.seek FlatDisk.ram
  obtain ⟨h0, h1, hok⟩ | ⟨hout, text, herr⟩ := seekTo_cases "seek past end of RAM partition" s hfits
  · obtain ⟨hr, hpos, hbytes, hw⟩ := FlatDisk.seek_inside h0 h1
    simp only [hok, hr, hpos, hbytes, hw]
    exact ⟨rfl, trivial⟩
  · simp only [herr, FlatDisk.seek_outside hout]
    exact ⟨rfl, trivial⟩

theorem FlatDisk.ram_read (f : FlatDisk) (len : Nat) :
    ((f.ram.read len).1.map Answer.bytes).mapError DiskError.kind = (f.read len).1 ∧
      (f.ram.read len).2 = (f.read len).2.ram := by
  unfold RamPartitionDisk.read FlatDisk.ram FlatDisk.read
  have hin := f.inside
  simp only
  by_cases hzero : len = 0
  · rw [if_pos hzero, hzero]
    exact ⟨rfl, rfl⟩
  · rw [if_neg hzero]
    by_cases hend : f.bytes.length ≤ f.pos
    · have hnil : slice f.bytes f.pos len = [] := by rw [slice, List.drop_eq_nil_of_le hend, List.take_nil]
      rw [if_pos hend, hnil]
      exact ⟨rfl, rfl⟩
    · have hsame : slice f.bytes f.pos (min len (f.bytes.length - f.pos)) = slice f.bytes f.pos len := by
        rw [slice, slice, ← List.length_drop, ← List.take_eq_take_min]
      have hlen : (slice f.bytes f.pos len).length = min len (f.bytes.length - f.pos) := by
        rw [slice, List.length_take, List.length_drop]
      rw [if_neg hend, hsame, hlen]
      exact ⟨rfl, rfl⟩

theorem FlatDisk.ram_write (f : FlatDisk) (buf : Bytes) (hsize : f.bytes.length < 2 ^ 63)
    (hbuf : buf.length < 2 ^ 63) :
    ((f.ram.write buf).1.map Answer.count).mapError DiskError.kind = (f.write buf).1 ∧
      (f.ram.write buf).2 = (f.write buf).2.ram := by
  have hin := f.inside
  cases hw : f.writable with
  | false =>
    unfold RamPartitionDisk.write FlatDisk.write FlatDisk.ram
    simp only [hw, if_true]
    exact ⟨rfl, trivial⟩
  | true =>
    unfold RamPartitionDisk.write
    have hwr : f.ram.writable ≠ false := by simp [FlatDisk.ram, hw]
    rw [if_neg hwr]
    by_cases hnil : buf = []
    · subst hnil
      obtain ⟨hr, hbytes, hpos, hsame⟩ := FlatDisk.write_inside [] hw (by simpa using hin)
      rw [if_pos rfl, hr, FlatDisk.ram, FlatDisk.ram, hbytes, hpos, hsame]
      exact ⟨rfl, by simp [overwrite]⟩
    · have hover : ¬2 ^ 64 ≤ f.ram.pos + buf.length := by
        change ¬2 ^ 64 ≤ f.pos + buf.length
        omega
      rw [if_neg hnil, if_neg hover]
      by_cases hpast : f.ram.storage.length < f.ram.pos + buf.length
      · rw [if_pos hpast, FlatDisk.write_outside hw hpast]
        exact ⟨rfl, rfl⟩
      · obtain ⟨hr, hbytes, hpos, hsame⟩ := FlatDisk.write_inside buf hw (Nat.not_lt.mp hpast)
        rw [if_neg hpast, hr, FlatDisk.ram, FlatDisk.ram, hbytes, hpos, hsame]
        exact ⟨rfl, rfl⟩

/-- A `Vec` and a slice have fewer than 2^63 bytes. The disk in memory is a flat
one. -/
theorem FlatDisk.ram_step (f : FlatDisk) (hsize : f.bytes.length < 2 ^ 63) {op : DiskOp}
    (hop : ∀ buf, op = .write buf → buf.length < 2 ^ 63) :
    (f.ram.step op).1.mapError DiskError.kind = (f.step op).1 ∧ (f.ram.step op).2 = (f.step op).2.ram := by
  cases op with
  | seek s => exact f.ram_seek s hsize
  | read len => exact f.ram_read len
  | write buf => exact f.ram_write buf hsize (hop buf rfl)

end Refinement

end Multi64
