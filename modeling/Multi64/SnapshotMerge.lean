import Mathlib
import Multi64.Snapshot

/-! What one refresh puts on the console: the writes of a batch merged byte by
byte, and in bitwise ranges bit by bit. -/

namespace Multi64

namespace RetroArch

variable {bitwise : List (Nat × Nat)} {live : SortedMap Nat UInt8} {a k : Nat}

section Agree

variable {x y z : UInt8}

theorem agree_refl (x : UInt8) : agree bitwise a k x x = true := by
  unfold agree
  split <;> exact beq_self_eq_true _

theorem agree_symm (h : agree bitwise a k x y = true) : agree bitwise a k y x = true := by
  unfold agree at h ⊢
  split <;> simp_all

theorem agree_trans (h : agree bitwise a k x y = true) (h' : agree bitwise a k y z = true) :
    agree bitwise a k x z = true := by
  unfold agree at h h' ⊢
  split <;> simp_all

theorem agree_bit (hf : flag bitwise a = true) :
    agree bitwise a k x y = true ↔ x.toBitVec.getLsbD k = y.toBitVec.getLsbD k := by
  rw [agree, if_pos hf, beq_iff_eq]

theorem agree_byte (hf : flag bitwise a = false) : agree bitwise a k x y = true ↔ x = y := by
  rw [agree, if_neg (by simp [hf]), beq_iff_eq]

end Agree

section Byte

variable {w : Write} {i : Nat} {earlier : Option UInt8}

/-- A merged byte has the client's value where the client changed it. -/
theorem mergedByte_changed (hk : k < 8) (h : agree bitwise (w.phys + i) k (byteAt w.client i) (byteAt w.served i) = false) :
    agree bitwise (w.phys + i) k (mergedByte bitwise live w i earlier) (byteAt w.client i) = true := by
  by_cases hf : flag bitwise (w.phys + i) = true
  · have hne : ¬(byteAt w.client i).toBitVec.getLsbD k = (byteAt w.served i).toBitVec.getLsbD k := by
      rw [← agree_bit hf, h]
      exact Bool.false_ne_true
    rw [agree_bit hf, mergedByte, if_pos hf]
    simp only [UInt8.toBitVec_or, UInt8.toBitVec_and, UInt8.toBitVec_not, BitVec.getLsbD_or, BitVec.getLsbD_and,
      BitVec.getLsbD_not, hk, decide_true, Bool.true_and]
    revert hne
    generalize (byteAt w.client i).toBitVec.getLsbD k = c
    generalize (byteAt w.served i).toBitVec.getLsbD k = s
    cases c <;> cases s <;> simp
  · rw [mergedByte, if_neg hf]
    exact agree_refl _

/-- And what was there before where it did not. -/
theorem mergedByte_kept (hk : k < 8) (hf : flag bitwise (w.phys + i) = true)
    (h : agree bitwise (w.phys + i) k (byteAt w.client i) (byteAt w.served i) = true) :
    agree bitwise (w.phys + i) k (mergedByte bitwise live w i earlier)
      ((earlier.or (live.get (w.phys + i))).getD (byteAt w.served i)) = true := by
  rw [agree_bit hf] at h
  rw [agree_bit hf, mergedByte, if_pos hf]
  simp only [UInt8.toBitVec_or, UInt8.toBitVec_and, UInt8.toBitVec_not, BitVec.getLsbD_or, BitVec.getLsbD_and,
    BitVec.getLsbD_not, hk, decide_true, Bool.true_and, h]
  cases (byteAt w.served i).toBitVec.getLsbD k <;> simp

/-- The bytes of one write, merged into what earlier ones left. -/
theorem foldl_mergeByte (is : List Nat) (hnd : is.Nodup) (out : SortedMap Nat UInt8) :
    (is.foldl (mergeByte bitwise live w) out).get a =
      if w.phys ≤ a ∧ a - w.phys ∈ is then some (mergedByte bitwise live w (a - w.phys) (out.get a)) else out.get a := by
  induction is generalizing out with
  | nil => simp
  | cons i is ih =>
    obtain ⟨hi, hnd⟩ := List.nodup_cons.mp hnd
    rw [List.foldl_cons, ih hnd]
    by_cases ha : a = w.phys + i
    · subst ha
      rw [if_neg (by simpa using hi), if_pos (by simp), mergeByte, SortedMap.get_insert_self, Nat.add_sub_cancel_left]
    · have hget : (mergeByte bitwise live w out i).get a = out.get a := SortedMap.get_insert_of_ne ha
      rw [hget]
      by_cases hin : w.phys ≤ a ∧ a - w.phys ∈ is
      · rw [if_pos hin, if_pos ⟨hin.1, List.mem_cons_of_mem _ hin.2⟩]
      · have hout : ¬(w.phys ≤ a ∧ a - w.phys ∈ i :: is) := by
          rintro ⟨hle, hmem⟩
          rcases List.mem_cons.mp hmem with heq | hmem
          · exact ha (by omega)
          · exact hin ⟨hle, hmem⟩
        rw [if_neg hin, if_neg hout]

end Byte

section Batch

/-- The last write to the word at `phys`. -/
def lastFor (writes : List Write) (phys : Nat) : Option Write := (writes.filter fun w => w.phys = phys).getLast?

/-- Each write was served what the one before it to its word left. -/
inductive Linked : List Write → Prop where
  | nil : Linked []
  | snoc (writes : List Write) (w : Write) (h : Linked writes)
      (hw : ∀ w', lastFor writes w.phys = some w' → w.served = w'.client) : Linked (writes ++ [w])

variable {writes : List Write} {w : Write}

theorem lastFor_snoc_self (writes : List Write) (w : Write) : lastFor (writes ++ [w]) w.phys = some w := by
  simp [lastFor]

theorem lastFor_snoc_of_ne {phys : Nat} (h : w.phys ≠ phys) : lastFor (writes ++ [w]) phys = lastFor writes phys := by
  simp [lastFor, h]

/-- A write of a batch has the byte at `a` other than it was served. -/
def Touched (bitwise : List (Nat × Nat)) (writes : List Write) (a k : Nat) : Prop :=
  ∃ w ∈ writes, w.phys = a - a % 4 ∧ agree bitwise a k (byteAt w.client (a % 4)) (byteAt w.served (a % 4)) = false

/-- Where the value `v` for the byte at `a` comes from: the client's last write
to it, or, in a bitwise range, what was read of it. -/
def Settled (bitwise : List (Nat × Nat)) (live : SortedMap Nat UInt8) (writes : List Write) (a k : Nat) (v : UInt8) :
    Prop :=
  (Touched bitwise writes a k ∧ ∃ w, lastFor writes (a - a % 4) = some w ∧
    agree bitwise a k v (byteAt w.client (a % 4)) = true) ∨
  (flag bitwise a = true ∧ ∃ b, live.get a = some b ∧ agree bitwise a k v b = true)

theorem mem_changed {i : Nat} : i ∈ changed w ↔ i < 4 ∧ byteAt w.client i ≠ byteAt w.served i := by
  simp [changed]

/-- What one more write does to a byte. Either it leaves it, or it is its own. -/
theorem Settled.snoc {out : SortedMap Nat UInt8} (hk : k < 8) (hphys : w.phys % 4 = 0)
    (hlink : ∀ w', lastFor writes w.phys = some w' → w.served = w'.client)
    (hlive : ∀ i ∈ changed w, flag bitwise (w.phys + i) = true → live.get (w.phys + i) ≠ none)
    (hold : ∀ v, out.get a = some v → Settled bitwise live writes a k v) {v : UInt8}
    (hv : ((changed w).foldl (mergeByte bitwise live w) out).get a = some v) :
    Settled bitwise live (writes ++ [w]) a k v := by
  have hnd : (changed w).Nodup := List.nodup_range.filter _
  rw [foldl_mergeByte _ hnd] at hv
  by_cases hword : w.phys = a - a % 4
  · have hbyte : a - w.phys = a % 4 := by omega
    have hat : w.phys + a % 4 = a := by omega
    have hlast : lastFor (writes ++ [w]) (a - a % 4) = some w := hword ▸ lastFor_snoc_self writes w
    have hmem : w ∈ writes ++ [w] := by simp
    -- An earlier value that is the client's is what this write was served.
    have hearlier : ∀ v', Settled bitwise live writes a k v' →
        agree bitwise a k (byteAt w.client (a % 4)) (byteAt w.served (a % 4)) = true → ∀ v'', agree bitwise a k v'' v' = true →
        Settled bitwise live (writes ++ [w]) a k v'' := by
      intro v' hs hsame v'' hv''
      rcases hs with ⟨⟨t, ht, htw, hdiff⟩, w', hw', hval⟩ | ⟨hf, b, hb, hval⟩
      · have hserved : w.served = w'.client := hlink w' (hword ▸ hw')
        have hclient := agree_trans hval (hserved ▸ agree_symm hsame)
        exact .inl ⟨⟨t, List.mem_append_left _ ht, htw, hdiff⟩, w, hlast, agree_trans hv'' hclient⟩
      · exact .inr ⟨hf, b, hb, agree_trans hv'' hval⟩
    by_cases hchanged : a % 4 ∈ changed w
    · rw [if_pos ⟨by omega, hbyte ▸ hchanged⟩, hbyte] at hv
      obtain rfl := Option.some.inj hv
      by_cases hsame : agree bitwise a k (byteAt w.client (a % 4)) (byteAt w.served (a % 4)) = true
      · -- Another bit of the byte is the client's.
        have hf : flag bitwise a = true := by
          by_contra hf
          exact (mem_changed.mp hchanged).2 ((agree_byte (by simpa using hf)).mp hsame)
        have hkept := @mergedByte_kept bitwise live k w (a % 4) (out.get a) hk (hat.symm ▸ hf) (by rwa [hat])
        rw [hat] at hkept
        cases hget : out.get a with
        | some v' =>
          rw [hget] at hkept
          exact hearlier v' (hold v' hget) hsame _ hkept
        | none =>
          have hread := hlive (a % 4) hchanged (hat.symm ▸ hf)
          rw [hat] at hread
          obtain ⟨b, hb⟩ := Option.ne_none_iff_exists'.mp hread
          rw [hget, hb] at hkept
          exact .inr ⟨hf, b, hb, hkept⟩
      · have hdiff := Bool.of_not_eq_true hsame
        have hclient := @mergedByte_changed bitwise live k w (a % 4) (out.get a) hk (by rwa [hat])
        rw [hat] at hclient
        exact .inl ⟨⟨w, hmem, hword, hdiff⟩, w, hlast, hclient⟩
    · rw [if_neg (fun h => hchanged (hbyte ▸ h.2))] at hv
      have hequal : byteAt w.client (a % 4) = byteAt w.served (a % 4) := by
        by_contra hne
        exact hchanged (mem_changed.mpr ⟨Nat.mod_lt _ (by omega), hne⟩)
      exact hearlier v (hold v hv) (hequal ▸ agree_refl _) v (agree_refl _)
  · have hout : ¬(w.phys ≤ a ∧ a - w.phys ∈ changed w) := by
      rintro ⟨hle, hmem⟩
      have hlt := (mem_changed.mp hmem).1
      omega
    rw [if_neg hout] at hv
    have hlast : lastFor (writes ++ [w]) _ = lastFor writes _ := lastFor_snoc_of_ne hword
    rcases hold v hv with ⟨⟨t, ht, htw, hdiff⟩, hw'⟩ | hlive
    · exact .inl ⟨⟨t, List.mem_append_left _ ht, htw, hdiff⟩, hlast ▸ hw'⟩
    · exact .inr hlive

theorem merge_settled (hk : k < 8) (h : Linked writes) (hphys : ∀ w ∈ writes, w.phys % 4 = 0)
    (hlive : ∀ w ∈ writes, ∀ i ∈ changed w, flag bitwise (w.phys + i) = true → live.get (w.phys + i) ≠ none) {v : UInt8}
    (hv : (merge bitwise live writes).get a = some v) : Settled bitwise live writes a k v := by
  induction h generalizing v with
  | nil => exact nomatch hv
  | snoc writes w _ hw ih =>
    rw [merge, List.foldl_append] at hv
    have hin : ∀ t ∈ writes, t ∈ writes ++ [w] := fun t ht => List.mem_append_left _ ht
    have hlast : w ∈ writes ++ [w] := by simp
    exact Settled.snoc hk (hphys w hlast) hw (hlive w hlast)
      (fun v' hv' => ih (fun t ht => hphys t (hin t ht)) (fun t ht => hlive t (hin t ht)) hv') hv

theorem addRun_mem {runs : List (Nat × Bytes)} {e : Nat × UInt8} {run : Nat × Bytes} (h : run ∈ addRun runs e) :
    run ∈ runs ∨ run = (e.1, [e.2]) ∨ ∃ r ∈ runs, r.1 + r.2.length = e.1 ∧ run = (r.1, r.2 ++ [e.2]) := by
  unfold addRun at h
  cases hlast : runs.getLast? with
  | none =>
    simp only [hlast, List.mem_singleton] at h
    exact .inr (.inl h)
  | some r =>
    simp only [hlast] at h
    by_cases hnext : r.1 + r.2.length = e.1
    · rw [if_pos hnext] at h
      rcases List.mem_append.mp h with h | h
      · exact .inl ((List.dropLast_sublist runs).subset h)
      · exact .inr (.inr ⟨r, List.mem_of_getLast? hlast, hnext, List.mem_singleton.mp h⟩)
    · rw [if_neg hnext] at h
      rcases List.mem_append.mp h with h | h
      · exact .inl h
      · exact .inr (.inl (List.mem_singleton.mp h))

/-- A run holds bytes of the map it was made from. -/
theorem mem_toRuns {out : SortedMap Nat UInt8} {run : Nat × Bytes} (hr : run ∈ toRuns out) {i : Nat}
    (hi : i < run.2.length) : out.get (run.1 + i) = some (byteAt run.2 i) := by
  rw [SortedMap.get_eq_some]
  unfold toRuns at hr
  revert hr hi run i
  generalize out.entries = l
  induction l using List.reverseRecOn with
  | nil => exact fun hr => nomatch hr
  | append_singleton l e ih =>
    intro run hr i hi
    rw [List.foldl_append, List.foldl_cons, List.foldl_nil] at hr
    rcases addRun_mem hr with hbefore | rfl | ⟨r, hbefore, hnext, rfl⟩
    · exact List.mem_append_left _ (ih hbefore hi)
    · have hzero : i = 0 := by simpa using hi
      simp [hzero]
    · rw [List.length_append, List.length_singleton] at hi
      by_cases hin : i < r.2.length
      · rw [byteAt_append_left hin]
        exact List.mem_append_left _ (ih hbefore hin)
      · have hi' : i = r.2.length + 0 := by omega
        rw [hi', byteAt_append_right, byteAt_zero, Nat.add_zero, hnext]
        simp

end Batch

end RetroArch

end Multi64
