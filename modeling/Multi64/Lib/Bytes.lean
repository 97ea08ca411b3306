import Mathlib

/-! Byte strings and the big-endian numbers in them. -/

namespace Multi64

abbrev Bytes := List UInt8

/-- A `u64`. -/
def word (n : Nat) : Nat := n % 2 ^ 64

theorem word_eq {n : Nat} (h : n < 2 ^ 64) : word n = n := Nat.mod_eq_of_lt h

/-- The byte at `i`. Callers check the length first; past the end it is 0. -/
def byteAt (b : Bytes) (i : Nat) : UInt8 := b.getD i 0

def be16 (b0 b1 : UInt8) : UInt16 :=
  UInt16.ofNat (b0.toNat * 0x100 + b1.toNat)

def be32 (b0 b1 b2 b3 : UInt8) : UInt32 :=
  UInt32.ofNat (b0.toNat * 0x1000000 + b1.toNat * 0x10000 + b2.toNat * 0x100 + b3.toNat)

def readBe16 (b : Bytes) (i : Nat) : UInt16 := be16 (byteAt b i) (byteAt b (i + 1))

def readBe32 (b : Bytes) (i : Nat) : UInt32 :=
  be32 (byteAt b i) (byteAt b (i + 1)) (byteAt b (i + 2)) (byteAt b (i + 3))

def putBe16 (v : UInt16) : Bytes :=
  [UInt8.ofNat (v.toNat / 0x100), UInt8.ofNat v.toNat]

def putBe32 (v : UInt32) : Bytes :=
  [UInt8.ofNat (v.toNat / 0x1000000), UInt8.ofNat (v.toNat / 0x10000),
    UInt8.ofNat (v.toNat / 0x100), UInt8.ofNat v.toNat]

@[simp] theorem putBe16_length (v : UInt16) : (putBe16 v).length = 2 := rfl

@[simp] theorem putBe32_length (v : UInt32) : (putBe32 v).length = 4 := rfl

theorem be16_toNat (a b : UInt8) : (be16 a b).toNat = a.toNat * 0x100 + b.toNat := by
  have ha := a.toNat_lt
  have hb := b.toNat_lt
  rw [be16, UInt16.toNat_ofNat']
  omega

theorem be32_toNat (a b c d : UInt8) : (be32 a b c d).toNat =
    a.toNat * 0x1000000 + b.toNat * 0x10000 + c.toNat * 0x100 + d.toNat := by
  have ha := a.toNat_lt
  have hb := b.toNat_lt
  have hc := c.toNat_lt
  have hd := d.toNat_lt
  rw [be32, UInt32.toNat_ofNat']
  omega

theorem byteAt_append_left {b : Bytes} {i : Nat} (h : i < b.length) (t : Bytes) :
    byteAt (b ++ t) i = byteAt b i := by
  simp [byteAt, List.getD_eq_getElem?_getD, List.getElem?_append_left h]

theorem byteAt_append_right (b t : Bytes) (i : Nat) :
    byteAt (b ++ t) (b.length + i) = byteAt t i := by
  simp [byteAt, List.getD_eq_getElem?_getD, List.getElem?_append_right]

@[simp] theorem byteAt_zero (x : UInt8) (b : Bytes) : byteAt (x :: b) 0 = x := rfl

@[simp] theorem byteAt_succ (x : UInt8) (b : Bytes) (i : Nat) :
    byteAt (x :: b) (i + 1) = byteAt b i := rfl

theorem byteAt_drop (b : Bytes) (n i : Nat) : byteAt (b.drop n) i = byteAt b (n + i) := by
  simp [byteAt, List.getD_eq_getElem?_getD]

theorem readBe16_append_left {b : Bytes} {i : Nat} (h : i + 2 ≤ b.length) (t : Bytes) :
    readBe16 (b ++ t) i = readBe16 b i := by
  simp only [readBe16, byteAt_append_left (show i < b.length by omega),
    byteAt_append_left (show i + 1 < b.length by omega)]

theorem readBe32_append_left {b : Bytes} {i : Nat} (h : i + 4 ≤ b.length) (t : Bytes) :
    readBe32 (b ++ t) i = readBe32 b i := by
  simp only [readBe32, byteAt_append_left (show i < b.length by omega),
    byteAt_append_left (show i + 1 < b.length by omega),
    byteAt_append_left (show i + 2 < b.length by omega),
    byteAt_append_left (show i + 3 < b.length by omega)]

theorem readBe16_append_right (b t : Bytes) (i : Nat) :
    readBe16 (b ++ t) (b.length + i) = readBe16 t i := by
  simp only [readBe16, Nat.add_assoc, byteAt_append_right]

theorem readBe32_append_right (b t : Bytes) (i : Nat) :
    readBe32 (b ++ t) (b.length + i) = readBe32 t i := by
  simp only [readBe32, Nat.add_assoc, byteAt_append_right]

theorem readBe16_drop (b : Bytes) (n i : Nat) : readBe16 (b.drop n) i = readBe16 b (n + i) := by
  simp only [readBe16, byteAt_drop, Nat.add_assoc]

theorem readBe32_drop (b : Bytes) (n i : Nat) : readBe32 (b.drop n) i = readBe32 b (n + i) := by
  simp only [readBe32, byteAt_drop, Nat.add_assoc]

@[simp] theorem readBe16_putBe16 (v : UInt16) (t : Bytes) : readBe16 (putBe16 v ++ t) 0 = v := by
  have hv := v.toNat_lt
  apply UInt16.toNat_inj.mp
  simp only [putBe16, readBe16, List.cons_append, List.nil_append, byteAt_zero, byteAt_succ,
    be16_toNat, UInt8.toNat_ofNat']
  omega

@[simp] theorem readBe32_putBe32 (v : UInt32) (t : Bytes) : readBe32 (putBe32 v ++ t) 0 = v := by
  have hv := v.toNat_lt
  apply UInt32.toNat_inj.mp
  simp only [putBe32, readBe32, List.cons_append, List.nil_append, byteAt_zero, byteAt_succ,
    be32_toNat, UInt8.toNat_ofNat']
  omega

theorem putBe16_be16 (a b : UInt8) : putBe16 (be16 a b) = [a, b] := by
  have ha := a.toNat_lt
  have hb := b.toNat_lt
  have h0 : UInt8.ofNat ((be16 a b).toNat / 0x100) = a := by
    apply UInt8.toNat_inj.mp
    rw [UInt8.toNat_ofNat', be16_toNat]
    omega
  have h1 : UInt8.ofNat (be16 a b).toNat = b := by
    apply UInt8.toNat_inj.mp
    rw [UInt8.toNat_ofNat', be16_toNat]
    omega
  rw [putBe16, h0, h1]

theorem putBe32_be32 (a b c d : UInt8) : putBe32 (be32 a b c d) = [a, b, c, d] := by
  have ha := a.toNat_lt
  have hb := b.toNat_lt
  have hc := c.toNat_lt
  have hd := d.toNat_lt
  have h0 : UInt8.ofNat ((be32 a b c d).toNat / 0x1000000) = a := by
    apply UInt8.toNat_inj.mp
    rw [UInt8.toNat_ofNat', be32_toNat]
    omega
  have h1 : UInt8.ofNat ((be32 a b c d).toNat / 0x10000) = b := by
    apply UInt8.toNat_inj.mp
    rw [UInt8.toNat_ofNat', be32_toNat]
    omega
  have h2 : UInt8.ofNat ((be32 a b c d).toNat / 0x100) = c := by
    apply UInt8.toNat_inj.mp
    rw [UInt8.toNat_ofNat', be32_toNat]
    omega
  have h3 : UInt8.ofNat (be32 a b c d).toNat = d := by
    apply UInt8.toNat_inj.mp
    rw [UInt8.toNat_ofNat', be32_toNat]
    omega
  rw [putBe32, h0, h1, h2, h3]

/-- The `n` bytes at `i`. -/
def slice (b : Bytes) (i n : Nat) : Bytes := (b.drop i).take n

theorem slice_append_left {b : Bytes} {i n : Nat} (h : i + n ≤ b.length) (t : Bytes) :
    slice (b ++ t) i n = slice b i n := by
  rw [slice, slice, List.drop_append_of_le_length (by omega),
    List.take_append_of_le_length (by rw [List.length_drop]; omega)]

theorem slice_append_drop (b : Bytes) (i n : Nat) : slice b i n ++ b.drop (i + n) = b.drop i := by
  rw [slice, ← List.drop_drop, List.take_append_drop]

theorem slice_add (b : Bytes) (i n m : Nat) : slice b i (n + m) = slice b i n ++ slice b (i + n) m := by
  simp only [slice, List.take_add, List.drop_drop]

theorem slice_length {b : Bytes} {i n : Nat} (h : i + n ≤ b.length) : (slice b i n).length = n := by
  rw [slice, List.length_take, List.length_drop]
  omega

theorem drop_eq_byteAt_cons {b : Bytes} {i : Nat} (h : i < b.length) :
    b.drop i = byteAt b i :: b.drop (i + 1) := by
  rw [List.drop_eq_getElem_cons h, byteAt, List.getD_eq_getElem?_getD, List.getElem?_eq_getElem h]
  rfl

theorem drop_eq_readBe16 {b : Bytes} {i : Nat} (h : i + 2 ≤ b.length) :
    b.drop i = putBe16 (readBe16 b i) ++ b.drop (i + 2) := by
  rw [readBe16, putBe16_be16, drop_eq_byteAt_cons (by omega), drop_eq_byteAt_cons (by omega)]
  rfl

theorem drop_eq_readBe32 {b : Bytes} {i : Nat} (h : i + 4 ≤ b.length) :
    b.drop i = putBe32 (readBe32 b i) ++ b.drop (i + 4) := by
  rw [readBe32, putBe32_be32, drop_eq_byteAt_cons (by omega), drop_eq_byteAt_cons (by omega),
    drop_eq_byteAt_cons (by omega), drop_eq_byteAt_cons (by omega)]
  rfl

/-- The little-endian number of `n` bytes at `i`. -/
def readLe (b : Bytes) (i : Nat) : Nat → Nat
  | 0 => 0
  | n + 1 => (byteAt b i).toNat + 256 * readLe b (i + 1) n

theorem readLe_lt (b : Bytes) (n : Nat) : ∀ i, readLe b i n < 256 ^ n := by
  induction n with
  | zero => exact fun _ => Nat.one_pos
  | succ n ih =>
    intro i
    have hrest := ih (i + 1)
    have hbyte := (byteAt b i).toNat_lt
    rw [readLe, Nat.pow_succ]
    omega

/-- The low `n` bytes of a number, the lowest first. -/
def putLe (v : Nat) : Nat → Bytes
  | 0 => []
  | n + 1 => .ofNat v :: putLe (v / 256) n

@[simp] theorem putLe_length (v n : Nat) : (putLe v n).length = n := by
  induction n generalizing v with
  | zero => rfl
  | succ n ih => simp [putLe, ih]

theorem readLe_append_right (a b : Bytes) (i n : Nat) : readLe (a ++ b) (a.length + i) n = readLe b i n := by
  induction n generalizing i with
  | zero => rfl
  | succ n ih => rw [readLe, readLe, byteAt_append_right, Nat.add_assoc, ih]

theorem readLe_putLe (v n : Nat) (t : Bytes) : readLe (putLe v n ++ t) 0 n = v % 256 ^ n := by
  induction n generalizing v with
  | zero => simp [readLe, Nat.mod_one]
  | succ n ih =>
    have hrest : readLe (UInt8.ofNat v :: (putLe (v / 256) n ++ t)) 1 n = v / 256 % 256 ^ n :=
      (readLe_append_right [UInt8.ofNat v] (putLe (v / 256) n ++ t) 0 n).trans (ih (v / 256))
    have hbyte : (UInt8.ofNat v).toNat = v % 256 := UInt8.toNat_ofNat'
    rw [putLe, readLe, List.cons_append, byteAt_zero, hbyte, hrest, Nat.pow_succ', Nat.mod_mul]

/-- A number among other bytes. -/
theorem readLe_middle (a : Bytes) (v n : Nat) (t : Bytes) : readLe (a ++ (putLe v n ++ t)) a.length n = v % 256 ^ n := by
  rw [← readLe_putLe v n t, ← readLe_append_right a (putLe v n ++ t) 0 n, Nat.add_zero]

/-- `b` with `d` in place of the bytes at `i`. -/
def overwrite (b : Bytes) (i : Nat) (d : Bytes) : Bytes := b.take i ++ d ++ b.drop (i + d.length)

theorem overwrite_length {b d : Bytes} {i : Nat} (h : i + d.length ≤ b.length) :
    (overwrite b i d).length = b.length := by
  simp only [overwrite, List.length_append, List.length_take, List.length_drop]
  omega

theorem slice_overwrite {b d : Bytes} {i : Nat} (h : i + d.length ≤ b.length) :
    slice (overwrite b i d) i d.length = d := by
  have htake : (b.take i).length = i := by
    rw [List.length_take]
    omega
  rw [slice, overwrite, List.append_assoc, List.drop_left' htake, List.take_left]

theorem slice_overwrite_before {b d : Bytes} {i j n : Nat} (hi : i ≤ b.length) (h : j + n ≤ i) :
    slice (overwrite b i d) j n = slice b j n := by
  have htake : (b.take i).length = i := by
    rw [List.length_take]
    omega
  rw [overwrite, List.append_assoc, slice_append_left (by omega), slice, slice, List.drop_take, List.take_take,
    Nat.min_eq_left (by omega)]

theorem slice_overwrite_behind {b d : Bytes} {i j n : Nat} (hi : i + d.length ≤ b.length) (h : i + d.length ≤ j) :
    slice (overwrite b i d) j n = slice b j n := by
  have hlen : (b.take i ++ d).length = i + d.length := by
    rw [List.length_append, List.length_take]
    omega
  obtain ⟨k, rfl⟩ := Nat.exists_eq_add_of_le h
  rw [overwrite, slice, slice, ← List.drop_drop (i := k) (j := i + d.length), List.drop_left' hlen, List.drop_drop]

end Multi64
