import Multi64.Yaz0

/-! How long what a Yaz0 stream decompresses to is: as long as its header says,
unless a back-reference runs past that. What a file of a table then writes. -/

namespace Multi64

inductive YazCommand where
  | literal
  | copy (dist n : Nat)
  deriving DecidableEq

/-- A place in a stream: the next byte, the code byte of the group and the bits
of it that are left. -/
structure YazCursor where
  pos : Nat
  code : UInt8
  left : Nat
  deriving DecidableEq

section Stream

variable (src : Bytes) (size : Nat)

/-- The command that the next bit of a group stands for. -/
def YazCursor.command (c : YazCursor) : Option (YazCommand × YazCursor) :=
  if c.code &&& (0x80 >>> UInt8.ofNat (8 - c.left)) ≠ 0 then
    if c.pos < src.length then some (.literal, ⟨c.pos + 1, c.code, c.left - 1⟩) else none
  else if c.pos + 1 < src.length then
    let b1 := (byteAt src c.pos).toNat
    let dist := b1 % 0x10 * 0x100 + (byteAt src (c.pos + 1)).toNat + 1
    if b1 / 0x10 = 0 then
      if c.pos + 2 < src.length then some (.copy dist ((byteAt src (c.pos + 2)).toNat + 0x12), ⟨c.pos + 3, c.code, c.left - 1⟩)
      else none
    else some (.copy dist (b1 / 0x10 + 2), ⟨c.pos + 2, c.code, c.left - 1⟩)
  else none

def YazCursor.next (c : YazCursor) : Option (YazCommand × YazCursor) :=
  if c.left = 0 then
    if c.pos < src.length then YazCursor.command src ⟨c.pos + 1, byteAt src c.pos, 8⟩ else none
  else c.command src

/-- The length once a command was carried out on `n` bytes, where it can be. -/
def YazCommand.grow (n : Nat) : YazCommand → Option Nat
  | .literal => some (n + 1)
  | .copy dist k => if dist ≤ n then some (n + k) else none

/-- One command of a stream that is to come to `size` bytes. -/
def YazStep (x y : YazCursor × Nat) : Prop :=
  x.2 < size ∧ ∃ cmd, x.1.next src = some (cmd, y.1) ∧ cmd.grow x.2 = some y.2

/-- Commands, one after another. -/
def YazRun : YazCursor × Nat → YazCursor × Nat → Prop := Relation.ReflTransGen (YazStep src size)

/-- The stream at `at_`, of `size` bytes by its header, has a command that ends
past `bound`. -/
def YazOverruns (at_ size bound : Nat) : Prop := ∃ c n, YazRun src size (⟨at_ + 16, 0, 0⟩, 0) (c, n) ∧ bound < n

end Stream

section Length

variable {src : Bytes} {size at_ s n : Nat} {code : UInt8} {out : Bytes} {x y z : YazCursor × Nat}

theorem copyBack_length (dist k : Nat) (out : Bytes) : (copyBack dist k out).length = out.length + k := by
  induction k generalizing out with
  | zero => rfl
  | succ k ih =>
    rw [copyBack, ih, List.length_append, List.length_singleton]
    omega

theorem yazStep_unique : Relator.RightUnique (YazStep src size) := by
  rintro x ⟨c, n⟩ ⟨c', n'⟩ ⟨_, cmd, hnext, hgrow⟩ ⟨_, cmd', hnext', hgrow'⟩
  obtain ⟨rfl, rfl⟩ := Prod.mk.inj (Option.some.inj (hnext.symm.trans hnext'))
  obtain rfl := Option.some.inj (hgrow.symm.trans hgrow')
  rfl

/-- No command can be carried out here, and there is more to come. -/
def YazStuck (src : Bytes) (size : Nat) (x : YazCursor × Nat) : Prop := x.2 < size ∧ ∀ y, ¬YazStep src size x y

/-- What the loops come to: a run of commands to a length past `size`, or one
that is stuck. -/
def YazComesTo (src : Bytes) (size : Nat) (x : YazCursor × Nat) : Except TransformError Bytes → Prop
  | .ok v => ∃ c, YazRun src size x (c, v.length) ∧ size ≤ v.length
  | .error _ => ∃ y, YazRun src size x y ∧ YazStuck src size y

/-- What one group comes to. -/
def YazGroupTo (src : Bytes) (size : Nat) (code : UInt8) (x : YazCursor × Nat) : Except TransformError (Nat × Bytes) → Prop
  | .ok (s, out) => ∃ left, YazRun src size x (⟨s, code, left⟩, out.length) ∧ (left = 0 ∨ size ≤ out.length) ∧ x.1.pos ≤ s
  | .error _ => ∃ y, YazRun src size x y ∧ YazStuck src size y

theorem YazGroupTo.step {r : Except TransformError (Nat × Bytes)} (hstep : YazStep src size x y) (hpos : x.1.pos ≤ y.1.pos)
    (h : YazGroupTo src size code y r) : YazGroupTo src size code x r := by
  cases r with
  | ok v =>
    obtain ⟨left, hrun, hend, hle⟩ := h
    exact ⟨left, .head hstep hrun, hend, Nat.le_trans hpos hle⟩
  | error e =>
    obtain ⟨z, hrun, hstuck⟩ := h
    exact ⟨z, .head hstep hrun, hstuck⟩

theorem stuck_of_next {c : YazCursor} (hn : n < size) (h : c.next src = none) : YazStuck src size (c, n) := by
  refine ⟨hn, fun y hy => ?_⟩
  obtain ⟨_, cmd, hnext, _⟩ := hy
  rw [h] at hnext
  nomatch hnext

theorem stuck_of_grow {c c' : YazCursor} {cmd : YazCommand} (hn : n < size) (h : c.next src = some (cmd, c'))
    (hgrow : cmd.grow n = none) : YazStuck src size (c, n) := by
  refine ⟨hn, fun y hy => ?_⟩
  obtain ⟨_, cmd', hnext, hgrow'⟩ := hy
  obtain ⟨rfl, _⟩ := Prod.mk.inj (Option.some.inj (h.symm.trans hnext))
  rw [hgrow] at hgrow'
  nomatch hgrow'

theorem yazByte_in {i : Nat} (h : i < src.length) : yazByte src at_ i = .ok (byteAt src i) := if_pos h

theorem yazByte_past {i : Nat} (h : ¬i < src.length) : yazByte src at_ i = .error (.corrupt at_) := if_neg h

/-- A back-reference, where what follows it is known. -/
theorem copy_comes {c c' : YazCursor} {dist k : Nat} {f : Bytes → Except TransformError (Nat × Bytes)} (hroom : out.length < size)
    (hnext : c.next src = some (.copy dist k, c')) (hpos : c.pos ≤ c'.pos)
    (hf : ∀ out, YazGroupTo src size code (c', out.length) (f out)) :
    YazGroupTo src size code (c, out.length) (if out.length < dist then .error (.corrupt at_) else f (copyBack dist k out)) := by
  by_cases hdist : out.length < dist
  · rw [if_pos hdist]
    exact ⟨_, .refl, stuck_of_grow hroom hnext (if_neg (Nat.not_le.mpr hdist))⟩
  · rw [if_neg hdist]
    have hrest := hf (copyBack dist k out)
    rw [copyBack_length] at hrest
    have hgrow : (YazCommand.copy dist k).grow out.length = some (out.length + k) := if_pos (Nat.not_lt.mp hdist)
    exact hrest.step ⟨hroom, _, hnext, hgrow⟩ hpos

theorem yazGroup_comes (at_ : Nat) (code : UInt8) {left : Nat} (hleft : left ≤ 8) (s : Nat) (out : Bytes) :
    YazGroupTo src size code (⟨s, code, left⟩, out.length) (yazGroup src size at_ code left s out) := by
  induction left generalizing s out with
  | zero => exact ⟨0, .refl, .inl rfl, Nat.le_refl s⟩
  | succ left ih =>
    unfold yazGroup
    by_cases hfull : size ≤ out.length
    · rw [if_pos hfull]
      exact ⟨left + 1, .refl, .inr hfull, Nat.le_refl s⟩
    rw [if_neg hfull]
    have hroom : out.length < size := by omega
    have hnext : YazCursor.next src ⟨s, code, left + 1⟩ = YazCursor.command src ⟨s, code, left + 1⟩ := if_neg (Nat.succ_ne_zero left)
    have hbit : 8 - (left + 1) = 7 - left := by omega
    unfold YazCursor.command at hnext
    simp only [hbit, Nat.add_sub_cancel] at hnext
    by_cases hlit : code &&& (0x80 >>> UInt8.ofNat (7 - left)) ≠ 0
    · rw [if_pos hlit] at hnext ⊢
      by_cases hs : s < src.length
      · rw [if_pos hs] at hnext
        rw [yazByte_in hs]
        have hrest := ih (by omega) (s + 1) (out ++ [byteAt src s])
        rw [List.length_append, List.length_singleton] at hrest
        exact hrest.step ⟨hroom, _, hnext, rfl⟩ (Nat.le_succ s)
      · rw [if_neg hs] at hnext
        rw [yazByte_past hs]
        exact ⟨_, .refl, stuck_of_next hroom hnext⟩
    rw [if_neg hlit] at hnext ⊢
    by_cases hs1 : s + 1 < src.length
    · rw [if_pos hs1] at hnext
      rw [yazByte_in (by omega), yazByte_in hs1]
      simp only [bind, Except.bind]
      generalize (byteAt src s).toNat % 0x10 * 0x100 + (byteAt src (s + 1)).toNat + 1 = dist at hnext ⊢
      by_cases hlong : (byteAt src s).toNat / 0x10 = 0
      · rw [if_pos hlong] at hnext ⊢
        by_cases hs2 : s + 2 < src.length
        · rw [if_pos hs2] at hnext
          rw [yazByte_in hs2]
          exact copy_comes hroom hnext (by simp only; omega) (ih (by omega) (s + 3))
        · rw [if_neg hs2] at hnext
          rw [yazByte_past hs2]
          exact ⟨_, .refl, stuck_of_next hroom hnext⟩
      · rw [if_neg hlong] at hnext ⊢
        exact copy_comes hroom hnext (by simp only; omega) (ih (by omega) (s + 2))
    · rw [if_neg hs1] at hnext
      have hstuck : YazStuck src size (⟨s, code, left + 1⟩, out.length) := stuck_of_next hroom hnext
      by_cases hs : s < src.length
      · rw [yazByte_in hs, yazByte_past hs1]
        exact ⟨_, .refl, hstuck⟩
      · rw [yazByte_past hs]
        exact ⟨_, .refl, hstuck⟩

theorem YazComesTo.steps {r : Except TransformError Bytes} (hrun : YazRun src size x y) (h : YazComesTo src size y r) :
    YazComesTo src size x r := by
  cases r with
  | ok v =>
    obtain ⟨c, hrest, hend⟩ := h
    exact ⟨c, hrun.trans hrest, hend⟩
  | error e =>
    obtain ⟨z, hrest, hstuck⟩ := h
    exact ⟨z, hrun.trans hrest, hstuck⟩

/-- A group starts with its code byte. -/
theorem next_group (hs : s < src.length) (code' : UInt8) :
    YazCursor.next src ⟨s, code', 0⟩ = YazCursor.next src ⟨s + 1, byteAt src s, 8⟩ := by
  unfold YazCursor.next
  rw [if_pos rfl, if_pos hs, if_neg (Nat.succ_ne_zero 7)]

theorem YazComesTo.group {r : Except TransformError Bytes} (hs : s < src.length) (hn : n < size) (code' : UInt8)
    (h : YazComesTo src size (⟨s + 1, byteAt src s, 8⟩, n) r) : YazComesTo src size (⟨s, code', 0⟩, n) r := by
  have hstep (y : YazCursor × Nat) : YazStep src size (⟨s, code', 0⟩, n) y ↔ YazStep src size (⟨s + 1, byteAt src s, 8⟩, n) y := by
    unfold YazStep
    simp only [next_group hs code']
  have hhead {y : YazCursor × Nat} (hrun : YazRun src size (⟨s + 1, byteAt src s, 8⟩, n) y) :
      (⟨s + 1, byteAt src s, 8⟩, n) = y ∨ YazRun src size (⟨s, code', 0⟩, n) y := by
    rcases Relation.ReflTransGen.cases_head hrun with rfl | ⟨z, hfirst, hrest⟩
    · exact .inl rfl
    · exact .inr (.head ((hstep z).mpr hfirst) hrest)
  cases r with
  | ok v =>
    obtain ⟨c, hrun, hend⟩ := h
    rcases hhead hrun with heq | hrun'
    · have hlen := congrArg Prod.snd heq
      simp only at hlen
      omega
    · exact ⟨c, hrun', hend⟩
  | error e =>
    obtain ⟨y, hrun, hstuck⟩ := h
    rcases hhead hrun with rfl | hrun'
    · exact ⟨_, .refl, hn, fun z hz => hstuck.2 z ((hstep z).mp hz)⟩
    · exact ⟨y, hrun', hstuck⟩

theorem yazLoop_comes (at_ : Nat) {fuel : Nat} (hfuel : src.length < fuel + s) (code' : UInt8) (out : Bytes) :
    YazComesTo src size (⟨s, code', 0⟩, out.length) (yazLoop src size at_ fuel s out) := by
  induction fuel generalizing s code' out with
  | zero =>
    unfold yazLoop
    by_cases hfull : size ≤ out.length
    · rw [if_pos hfull]
      exact ⟨_, .refl, hfull⟩
    · rw [if_neg hfull]
      refine ⟨_, .refl, stuck_of_next (by omega) ?_⟩
      rw [YazCursor.next, if_pos rfl, if_neg (by simp only; omega)]
  | succ fuel ih =>
    unfold yazLoop
    by_cases hfull : size ≤ out.length
    · rw [if_pos hfull]
      exact ⟨_, .refl, hfull⟩
    rw [if_neg hfull]
    by_cases hs : s < src.length
    · rw [yazByte_in hs]
      simp only [bind, Except.bind]
      refine YazComesTo.group hs (by omega) code' ?_
      have hgroup : YazGroupTo src size (byteAt src s) (⟨s + 1, byteAt src s, 8⟩, out.length)
          (yazGroup src size at_ (byteAt src s) 8 (s + 1) out) := yazGroup_comes at_ (byteAt src s) (Nat.le_refl 8) (s + 1) out
      revert hgroup
      cases yazGroup src size at_ (byteAt src s) 8 (s + 1) out with
      | error e => exact id
      | ok r =>
        obtain ⟨s', out'⟩ := r
        rintro ⟨left, hrun, hend, hle⟩
        simp only at hle ⊢
        rcases hend with rfl | hfull'
        · exact (ih (by omega) (byteAt src s) out').steps hrun
        · have hdone : yazLoop src size at_ fuel s' out' = .ok out' := by
            cases fuel with
            | zero => exact if_pos hfull'
            | succ fuel => exact if_pos hfull'
          rw [hdone]
          exact ⟨_, hrun, hfull'⟩
    · rw [yazByte_past hs]
      refine ⟨_, .refl, stuck_of_next (by omega) ?_⟩
      rw [YazCursor.next, if_pos rfl, if_neg hs]

theorem run_end (hend : ∀ z, ¬YazStep src size x z) (hrun : YazRun src size x y) : x = y := by
  rcases Relation.ReflTransGen.cases_head hrun with heq | ⟨z, hstep, _⟩
  · exact heq
  · exact absurd hstep (hend z)

/-- Runs that cannot go on end in the same place. -/
theorem runs_meet (hx : YazRun src size x y) (hz : YazRun src size x z) (hy : ∀ w, ¬YazStep src size y w)
    (hend : ∀ w, ¬YazStep src size z w) : y = z := by
  rcases Relation.ReflTransGen.total_of_right_unique yazStep_unique hx hz with hrun | hrun
  · exact run_end hy hrun
  · exact (run_end hend hrun).symm

theorem full_end {c : YazCursor} (h : size ≤ n) (w : YazCursor × Nat) : ¬YazStep src size (c, n) w := by
  rintro ⟨hlt, _⟩
  simp only at hlt
  omega

end Length

section Header

variable {src : Bytes} {at_ max bound : Nat}

/-- The header is whole and declares no more than `max` bytes. -/
structure YazHeader (src : Bytes) (at_ max : Nat) : Prop where
  whole : at_ + 8 ≤ src.length
  magic : slice src at_ 4 = yazMagic
  fits : yazSize src at_ ≤ max

theorem yaz0_header (h : YazHeader src at_ max) : yaz0 src at_ max = yazLoop src (yazSize src at_) at_ (src.length + 1) (at_ + 16) [] := by
  have hwhole := h.whole
  have hread : readU32 src (at_ + 4) = some (readBe32 src (at_ + 4)) := if_pos (by omega)
  unfold yaz0
  rw [if_neg (not_not_intro ⟨by omega, h.magic⟩), hread]
  exact if_neg (Nat.not_lt.mpr h.fits)

theorem header_of_yaz0 {v : Bytes} (h : yaz0 src at_ max = .ok v) : YazHeader src at_ max := by
  unfold yaz0 at h
  by_cases hmagic : at_ + 4 ≤ src.length ∧ slice src at_ 4 = yazMagic
  · rw [if_neg (not_not_intro hmagic)] at h
    by_cases hwhole : at_ + 4 + 4 ≤ src.length
    · have hread : readU32 src (at_ + 4) = some (readBe32 src (at_ + 4)) := if_pos hwhole
      rw [hread] at h
      by_cases hfits : max < (readBe32 src (at_ + 4)).toNat
      · simp only [hfits, if_true] at h
        nomatch h
      · exact ⟨by omega, hmagic.2, Nat.not_lt.mp hfits⟩
    · have hread : readU32 src (at_ + 4) = none := if_neg hwhole
      rw [hread] at h
      nomatch h
  · rw [if_pos hmagic] at h
    nomatch h

theorem yaz0_comes (h : YazHeader src at_ max) : YazComesTo src (yazSize src at_) (⟨at_ + 16, 0, 0⟩, 0) (yaz0 src at_ max) := by
  rw [yaz0_header h]
  exact yazLoop_comes at_ (by omega) 0 []

/-- The decompressor goes past a bound just where the stream does. -/
theorem yaz0_past (hbound : yazSize src at_ ≤ bound) :
    (∃ v, yaz0 src at_ max = .ok v ∧ bound < v.length) ↔
      YazHeader src at_ max ∧ YazOverruns src at_ (yazSize src at_) bound := by
  constructor
  · rintro ⟨v, hv, hlong⟩
    have hheader := header_of_yaz0 hv
    have hcomes := yaz0_comes hheader
    rw [hv] at hcomes
    obtain ⟨c, hrun, _⟩ := hcomes
    exact ⟨hheader, c, v.length, hrun, hlong⟩
  · rintro ⟨hheader, c, n, hrun, hlong⟩
    have hcomes := yaz0_comes hheader
    have hfull : yazSize src at_ ≤ n := by omega
    revert hcomes
    cases yaz0 src at_ max with
    | ok v =>
      rintro ⟨c', hrun', hend⟩
      have heq := runs_meet hrun hrun' (full_end hfull) (full_end hend)
      have hlen : n = v.length := congrArg Prod.snd heq
      exact ⟨v, rfl, by omega⟩
    | error e =>
      rintro ⟨y, hrun', hstuck⟩
      have heq := runs_meet hrun hrun' (full_end hfull) hstuck.2
      have hshort := hstuck.1
      rw [← heq] at hshort
      simp only at hshort
      omega

end Header

end Multi64
