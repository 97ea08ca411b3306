import Multi64.Lib.Bytes

/-! Images that bytes are laid over: what a byte of one is after it was cut off,
filled up or written to. Past its end an image is all zeros. -/

namespace Multi64

/-- `b` cut off or filled up with zeros to `n` bytes. -/
def resize (b : Bytes) (n : Nat) : Bytes := b.take n ++ List.replicate (n - b.length) 0

section Lemmas

variable {b d : Bytes} {i j n : Nat}

theorem byteAt_past (h : b.length ≤ i) : byteAt b i = 0 := by
  simp [byteAt, List.getD_eq_getElem?_getD, List.getElem?_eq_none h]

theorem byteAt_take (h : i < n) : byteAt (b.take n) i = byteAt b i := by
  simp [byteAt, List.getD_eq_getElem?_getD, List.getElem?_take_of_lt h]

theorem byteAt_append (b t : Bytes) (i : Nat) :
    byteAt (b ++ t) i = if i < b.length then byteAt b i else byteAt t (i - b.length) := by
  by_cases h : i < b.length
  · rw [if_pos h, byteAt_append_left h]
  · rw [if_neg h]
    obtain ⟨k, rfl⟩ := Nat.exists_eq_add_of_le (Nat.not_lt.mp h)
    rw [byteAt_append_right, Nat.add_sub_cancel_left]

@[simp] theorem byteAt_replicate_zero (n i : Nat) : byteAt (List.replicate n 0) i = 0 := by
  by_cases h : i < n
  · simp [byteAt, h]
  · exact byteAt_past (by simpa using h)

@[simp] theorem resize_length (b : Bytes) (n : Nat) : (resize b n).length = n := by
  simp only [resize, List.length_append, List.length_take, List.length_replicate]
  omega

theorem byteAt_resize (h : i < n) : byteAt (resize b n) i = byteAt b i := by
  rw [resize, byteAt_append, List.length_take]
  by_cases hi : i < b.length
  · rw [if_pos (by omega), byteAt_take h]
  · rw [if_neg (by omega), byteAt_replicate_zero, byteAt_past (by omega)]

theorem byteAt_overwrite_outside (h : i + d.length ≤ b.length) (hj : j < i ∨ i + d.length ≤ j) :
    byteAt (overwrite b i d) j = byteAt b j := by
  have htake : (b.take i).length = i := by
    rw [List.length_take]
    omega
  rw [overwrite, List.append_assoc, byteAt_append, htake]
  by_cases hlt : j < i
  · rw [if_pos hlt, byteAt_take hlt]
  · have hback : i + d.length + (j - i - d.length) = j := by omega
    rw [if_neg hlt, byteAt_append, if_neg (by omega), byteAt_drop, hback]

theorem byteAt_overwrite_inside (h : i + d.length ≤ b.length) (hj : j < d.length) :
    byteAt (overwrite b i d) (i + j) = byteAt d j := by
  have htake : (b.take i).length = i := by
    rw [List.length_take]
    omega
  rw [overwrite, List.append_assoc, byteAt_append, htake, if_neg (by omega), byteAt_append,
    Nat.add_sub_cancel_left, if_pos hj]

theorem readBe32_congr {b' : Bytes} (h : ∀ j, i ≤ j → j < i + 4 → byteAt b' j = byteAt b j) :
    readBe32 b' i = readBe32 b i := by
  simp only [readBe32]
  rw [h i (by omega) (by omega), h (i + 1) (by omega) (by omega), h (i + 2) (by omega) (by omega),
    h (i + 3) (by omega) (by omega)]

theorem readBe32_overwrite (h : i + 4 ≤ b.length) (v : UInt32) : readBe32 (overwrite b i (putBe32 v)) i = v := by
  have hin (j : Nat) (hj : j < 4) : byteAt (overwrite b i (putBe32 v)) (i + j) = byteAt (putBe32 v ++ []) (0 + j) := by
    rw [byteAt_overwrite_inside h hj, List.append_nil, Nat.zero_add]
  calc readBe32 (overwrite b i (putBe32 v)) i
      = be32 (byteAt (overwrite b i (putBe32 v)) (i + 0)) (byteAt (overwrite b i (putBe32 v)) (i + 1))
          (byteAt (overwrite b i (putBe32 v)) (i + 2)) (byteAt (overwrite b i (putBe32 v)) (i + 3)) := rfl
    _ = readBe32 (putBe32 v ++ []) 0 := by
        rw [hin 0 (by omega), hin 1 (by omega), hin 2 (by omega), hin 3 (by omega)]
        rfl
    _ = v := readBe32_putBe32 v []

theorem slice_slice (b : Bytes) {i n j m : Nat} (h : j + m ≤ n) : slice (slice b i n) j m = slice b (i + j) m := by
  rw [slice, slice, slice, List.drop_take, List.drop_drop, List.take_take, Nat.min_eq_left (by omega)]

theorem byteAt_slice (h : j < n) : byteAt (slice b i n) j = byteAt b (i + j) := by
  rw [slice, byteAt_take h, byteAt_drop]

theorem slice_overwrite_inside (h : i + d.length ≤ b.length) (hin : j + n ≤ d.length) :
    slice (overwrite b i d) (i + j) n = slice d j n := by
  rw [← slice_slice _ hin, slice_overwrite h]

theorem slice_congr {b' : Bytes} (hb : i + n ≤ b.length) (hb' : i + n ≤ b'.length)
    (h : ∀ j, i ≤ j → j < i + n → byteAt b' j = byteAt b j) : slice b' i n = slice b i n := by
  induction n generalizing i with
  | zero => simp [slice]
  | succ n ih =>
    have hrest := ih (i := i + 1) (by omega) (by omega) fun j hj hlt => h j (by omega) (by omega)
    have hcons {c : Bytes} (hc : i + (n + 1) ≤ c.length) : slice c i (n + 1) = byteAt c i :: slice c (i + 1) n := by
      rw [slice, drop_eq_byteAt_cons (by omega), List.take_succ_cons, slice]
    rw [hcons hb, hcons hb', hrest, h i (by omega) (by omega)]

end Lemmas

section Agree

variable {ε ι : Type} {p out d : Bytes} {i : Nat}

/-- Runs of `p` laid over an image, but for some places of it. -/
theorem overwrite_agrees {but : Nat → Prop} (hin : i + d.length ≤ out.length)
    (hd : ∀ j < d.length, ¬but (i + j) → byteAt d j = byteAt p (i + j)) {j : Nat} (hbut : ¬but j)
    (h : byteAt out j = byteAt p j ∨ (i ≤ j ∧ j < i + d.length)) : byteAt (overwrite out i d) j = byteAt p j := by
  by_cases hj : i ≤ j ∧ j < i + d.length
  · obtain ⟨k, rfl⟩ := Nat.exists_eq_add_of_le hj.1
    rw [byteAt_overwrite_inside hin (by omega)]
    exact hd k (by omega) hbut
  · rw [byteAt_overwrite_outside hin (by omega)]
    exact h.resolve_right hj

/-- Steps that each make an image agree with `p` where they reach, and elsewhere leave it. -/
theorem foldlM_agrees {step : Bytes → ι → Except ε Bytes} {reach : ι → Nat → Prop} {but : Nat → Prop} {l : List ι}
    (hstep : ∀ x ∈ l, ∀ out : Bytes, out.length = p.length → ∃ out', step out x = .ok out' ∧ out'.length = p.length ∧
      ∀ j, ¬but j → byteAt out j = byteAt p j ∨ reach x j → byteAt out' j = byteAt p j) (hlen : out.length = p.length) :
    ∃ out', l.foldlM step out = .ok out' ∧ out'.length = p.length ∧
      ∀ j, ¬but j → (byteAt out j = byteAt p j ∨ ∃ x ∈ l, reach x j) → byteAt out' j = byteAt p j := by
  induction l generalizing out with
  | nil => exact ⟨out, rfl, hlen, fun j _ h => h.resolve_right fun ⟨x, hx, _⟩ => absurd hx List.not_mem_nil⟩
  | cons x l ih =>
    obtain ⟨mid, hmid, hmidlen, hagree⟩ := hstep x List.mem_cons_self out hlen
    obtain ⟨out', hrest, hlen', hagree'⟩ := ih (fun y hy => hstep y (List.mem_cons_of_mem x hy)) hmidlen
    refine ⟨out', by rw [List.foldlM_cons, hmid]; exact hrest, hlen', fun j hbut h => hagree' j hbut ?_⟩
    rcases h with hout | ⟨y, hy, hreach⟩
    · exact .inl (hagree j hbut (.inl hout))
    · rcases List.mem_cons.mp hy with rfl | hy
      · exact .inl (hagree j hbut (.inr hreach))
      · exact .inr ⟨y, hy, hreach⟩

end Agree

end Multi64
