import Multi64.AgentRx
import Multi64.L3Stream

/-! One turn of the agent's frame search as a stable scanner, and what
`rx_frame_len` answers. -/

namespace Multi64

section Noise

theorem take_four_of_magicAt {b : Bytes} (h : rxMagicAt b = true) (hlen : 4 ≤ b.length) :
    b.take 4 = magic := by
  refine (List.isPrefixOf_iff_prefix.mp h).eq_of_length ?_
  rw [List.length_take, Nat.min_eq_left hlen]
  rfl

theorem rxMagicAt_of_take_four {b : Bytes} (h : b.take 4 = magic) : rxMagicAt b = true := by
  rw [rxMagicAt, h]
  decide

theorem rxMagicAt_of_append {b t : Bytes} (h : rxMagicAt (b ++ t) = true) : rxMagicAt b = true := by
  simp only [rxMagicAt, List.isPrefixOf_iff_prefix] at *
  refine List.IsPrefix.trans ?_ h
  rw [List.take_append]
  exact List.prefix_append _ _

theorem rxNoise_le (b : Bytes) : rxNoise b ≤ b.length := by
  induction b with
  | nil => simp [rxNoise]
  | cons x rest ih =>
    simp only [rxNoise, List.length_cons]
    split <;> omega

theorem rxMagicAt_noise (b : Bytes) : rxMagicAt (b.drop (rxNoise b)) = true := by
  induction b with
  | nil => rfl
  | cons x rest ih =>
    simp only [rxNoise]
    split
    case isTrue h => exact h
    case isFalse h => exact ih

theorem rxNoise_of_magicAt {b : Bytes} (h : rxMagicAt b = true) : rxNoise b = 0 := by
  cases b with
  | nil => rfl
  | cons x rest => simp only [rxNoise, h, if_true]

theorem rxNoise_append (b t : Bytes) :
    rxNoise (b ++ t) = rxNoise (b.drop (rxNoise b) ++ t) + rxNoise b := by
  induction b with
  | nil => simp [rxNoise]
  | cons x rest ih =>
    by_cases h : rxMagicAt (x :: rest) = true
    · rw [rxNoise_of_magicAt h]
      rfl
    · have hne : ¬ rxMagicAt (x :: (rest ++ t)) = true := fun ht => h (rxMagicAt_of_append ht)
      simp only [List.cons_append, rxNoise, h, hne, if_false, List.drop_succ_cons, ih, Bool.false_eq_true]
      omega

/-- Four bytes decide that a magic is there. -/
theorem rxNoise_append_of_long {b : Bytes} (h : 4 ≤ (b.drop (rxNoise b)).length) (t : Bytes) :
    rxNoise (b ++ t) = rxNoise b := by
  have hm := rxMagicAt_noise b
  rw [rxNoise_append, rxNoise_of_magicAt, Nat.zero_add]
  simpa only [rxMagicAt, List.take_append_of_le_length h] using hm

end Noise

def rxTotal (b : Bytes) : Nat := headerLen + (readBe32 b 12).toNat

/-- What one turn of `rx_frame_len` decides. -/
def rxLook (rx : Bytes) : Look Bytes :=
  let b := rx.drop (rxNoise rx)
  if b.length < headerLen then .wait (rxNoise rx)
  else if !rxHeaderPlausible b then .skip (rxNoise rx + 1)
  else if b.length < rxTotal b then .wait (rxNoise rx)
  else .emit (b.take (rxTotal b)) (rxNoise rx + rxTotal b)

theorem rxHeaderPlausible_append {b : Bytes} (h : headerLen ≤ b.length) (t : Bytes) :
    rxHeaderPlausible (b ++ t) = rxHeaderPlausible b := by
  have h16 : 16 ≤ b.length := h
  simp only [rxHeaderPlausible, byteAt_append_left (show 4 < b.length by omega),
    byteAt_append_left (show 5 < b.length by omega), readBe32_append_left (show 12 + 4 ≤ b.length by omega)]

theorem rxTotal_append {b : Bytes} (h : headerLen ≤ b.length) (t : Bytes) :
    rxTotal (b ++ t) = rxTotal b := by
  have h16 : 16 ≤ b.length := h
  rw [rxTotal, rxTotal, readBe32_append_left (by omega)]

theorem rxTotal_le {b : Bytes} (h : rxHeaderPlausible b = true) : rxTotal b ≤ agentRxCap := by
  simp only [rxHeaderPlausible, Bool.and_eq_true, decide_eq_true_eq] at h
  have hcap : headerLen ≤ agentRxCap := by decide
  simp only [rxTotal]
  omega

/-- The ways a turn can come out, with what it found in the buffer. -/
inductive RxTurn (rx : Bytes) : Look Bytes → Prop where
  | shortHeader (hlen : (rx.drop (rxNoise rx)).length < headerLen) : RxTurn rx (.wait (rxNoise rx))
  | rejected (hlen : headerLen ≤ (rx.drop (rxNoise rx)).length)
      (hp : rxHeaderPlausible (rx.drop (rxNoise rx)) = false) : RxTurn rx (.skip (rxNoise rx + 1))
  | shortBody (hlen : headerLen ≤ (rx.drop (rxNoise rx)).length)
      (hp : rxHeaderPlausible (rx.drop (rxNoise rx)) = true)
      (ht : (rx.drop (rxNoise rx)).length < rxTotal (rx.drop (rxNoise rx))) :
      RxTurn rx (.wait (rxNoise rx))
  | whole (hlen : headerLen ≤ (rx.drop (rxNoise rx)).length)
      (hp : rxHeaderPlausible (rx.drop (rxNoise rx)) = true)
      (ht : rxTotal (rx.drop (rxNoise rx)) ≤ (rx.drop (rxNoise rx)).length) :
      RxTurn rx (.emit ((rx.drop (rxNoise rx)).take (rxTotal (rx.drop (rxNoise rx))))
        (rxNoise rx + rxTotal (rx.drop (rxNoise rx))))

theorem rxLook_turn (rx : Bytes) : RxTurn rx (rxLook rx) := by
  unfold rxLook
  rcases Nat.lt_or_ge (rx.drop (rxNoise rx)).length headerLen with hlen | hlen
  · simp only [if_pos hlen]
    exact .shortHeader hlen
  · simp only [if_neg (Nat.not_lt.mpr hlen)]
    cases hp : rxHeaderPlausible (rx.drop (rxNoise rx)) with
    | false => exact .rejected hlen hp
    | true =>
      rcases Nat.lt_or_ge (rx.drop (rxNoise rx)).length (rxTotal (rx.drop (rxNoise rx))) with ht | ht
      · simp only [if_pos ht]
        exact .shortBody hlen hp ht
      · simp only [if_neg (Nat.not_lt.mpr ht)]
        exact .whole hlen hp ht

theorem rxTotal_ge (b : Bytes) : headerLen ≤ rxTotal b := Nat.le_add_right _ _

theorem rxLook_progress : Progress rxLook where
  skip := by
    intro b n h
    cases h ▸ rxLook_turn b with
    | rejected hlen hp =>
      have hpos : 0 < headerLen := by decide
      rw [List.length_drop] at hlen
      omega
  emit := by
    intro b a n h
    cases h ▸ rxLook_turn b with
    | whole hlen hp ht =>
      have hpos : 0 < headerLen := by decide
      have hge := rxTotal_ge (b.drop (rxNoise b))
      rw [List.length_drop] at ht
      have hle := rxNoise_le b
      omega

/-- Bytes before the first place a frame can begin change nothing. -/
theorem scan_drop_rxNoise (b t : Bytes) :
    scan rxLook (b ++ t) = scan rxLook (b.drop (rxNoise b) ++ t) := by
  rw [← List.drop_append_of_le_length (rxNoise_le b)]
  apply rxLook_progress.scan_shift
  have hn : rxNoise (b ++ t) = rxNoise ((b ++ t).drop (rxNoise b)) + rxNoise b := by
    rw [List.drop_append_of_le_length (rxNoise_le b)]
    exact rxNoise_append b t
  have hadd : (b ++ t).drop (rxNoise (b ++ t)) =
      ((b ++ t).drop (rxNoise b)).drop (rxNoise ((b ++ t).drop (rxNoise b))) := by
    rw [List.drop_drop, Nat.add_comm, ← hn]
  simp only [rxLook, hadd]
  rw [hn]
  split
  · rfl
  · split
    · simp only [Look.shift, Nat.add_right_comm]
    · split
      · rfl
      · simp only [Look.shift, Nat.add_right_comm]

theorem rxLook_stable : Stable rxLook where
  toProgress := rxLook_progress
  wait_append := by
    intro b n h t
    cases h ▸ rxLook_turn b with
    | shortHeader hlen => exact scan_drop_rxNoise b t
    | shortBody hlen hp ht => exact scan_drop_rxNoise b t
  skip_append := by
    intro b n h t
    cases h ▸ rxLook_turn b with
    | rejected hlen hp =>
      have h16 : 16 ≤ (b.drop (rxNoise b)).length := hlen
      have hn := rxNoise_append_of_long (show 4 ≤ (b.drop (rxNoise b)).length by omega) t
      have hdrop : (b ++ t).drop (rxNoise b) = b.drop (rxNoise b) ++ t :=
        List.drop_append_of_le_length (rxNoise_le b)
      have hlen' : ¬ (b.drop (rxNoise b) ++ t).length < headerLen := by rw [List.length_append]; omega
      have hskip : rxLook (b ++ t) = .skip (rxNoise b + 1) := by
        simp only [rxLook, hn, hdrop, hlen', if_false, rxHeaderPlausible_append hlen, hp, Bool.not_false,
          if_true]
      rw [List.length_drop] at h16
      rw [rxLook_progress.scan_skip hskip, List.drop_append_of_le_length (by omega)]
  emit_append := by
    intro b a n h t
    cases h ▸ rxLook_turn b with
    | whole hlen hp ht =>
      have h16 : 16 ≤ (b.drop (rxNoise b)).length := hlen
      have hn := rxNoise_append_of_long (show 4 ≤ (b.drop (rxNoise b)).length by omega) t
      have hdrop : (b ++ t).drop (rxNoise b) = b.drop (rxNoise b) ++ t :=
        List.drop_append_of_le_length (rxNoise_le b)
      have hlen' : ¬ (b.drop (rxNoise b) ++ t).length < headerLen := by rw [List.length_append]; omega
      have ht' : ¬ (b.drop (rxNoise b) ++ t).length < rxTotal (b.drop (rxNoise b)) := by
        rw [List.length_append]
        omega
      simp only [rxLook, hn, hdrop, hlen', if_false, rxHeaderPlausible_append hlen, hp, Bool.not_true,
        Bool.false_eq_true, rxTotal_append hlen, ht', List.take_append_of_le_length ht]

/-- A complete frame lies at the start of the bytes. -/
structure WholeAt (b : Bytes) : Prop where
  magicAt : rxMagicAt b = true
  headerOk : rxHeaderPlausible b = true
  fits : rxTotal b ≤ b.length

theorem WholeAt.look {b : Bytes} (h : WholeAt b) : rxLook b = .emit (b.take (rxTotal b)) (rxTotal b) := by
  have hge := Nat.le_trans (rxTotal_ge b) h.fits
  simp only [rxLook, rxNoise_of_magicAt h.magicAt, List.drop_zero, Nat.not_lt.mpr hge, if_false,
    h.headerOk, Bool.not_true, Bool.false_eq_true, Nat.not_lt.mpr h.fits, Nat.zero_add]

/-- What `rx_frame_len` answers about `rx`. -/
structure FrameLenSpec (rx : Bytes) (r : Nat × Bytes) : Prop where
  suffix : r.2 <:+ rx
  scan_eq : scan rxLook r.2 = scan rxLook rx
  whole : r.1 ≠ 0 → WholeAt r.2 ∧ r.1 = rxTotal r.2
  partly : r.1 = 0 → rxLook r.2 = .wait 0 ∧ r.2.length < agentRxCap

theorem rxFrameLenFuel_spec (fuel : Nat) (rx : Bytes) (h : rx.length < fuel) :
    FrameLenSpec rx (rxFrameLenFuel fuel rx) := by
  induction fuel generalizing rx with
  | zero => omega
  | succ fuel ih =>
    have hm := rxMagicAt_noise rx
    have hsuf := List.drop_suffix (rxNoise rx) rx
    have hle : (rx.drop (rxNoise rx)).length ≤ rx.length := by
      rw [List.length_drop]
      omega
    have hscan : scan rxLook (rx.drop (rxNoise rx)) = scan rxLook rx := by
      simpa only [List.append_nil] using (scan_drop_rxNoise rx []).symm
    rw [rxFrameLenFuel]
    revert hm hsuf hscan hle
    generalize rx.drop (rxNoise rx) = b
    intro hm hsuf hle hscan
    have hzero := rxNoise_of_magicAt hm
    by_cases hlen : b.length < headerLen
    · simp only [if_pos hlen]
      refine ⟨hsuf, hscan, fun hne => absurd rfl hne, fun _ => ⟨?_, ?_⟩⟩
      · simp only [rxLook, hzero, List.drop_zero, hlen, if_true]
      · exact Nat.lt_of_lt_of_le hlen (by decide)
    · cases hp : rxHeaderPlausible b with
      | false =>
        have hskip : rxLook b = .skip 1 := by
          simp only [rxLook, hzero, List.drop_zero, hlen, if_false, hp, Bool.not_false, if_true,
            Nat.zero_add]
        have hlt := (rxLook_progress.skip hskip)
        simp only [if_neg hlen, Bool.not_false, if_true]
        have hr := ih (b.drop 1) (by rw [List.length_drop]; omega)
        refine ⟨?_, ?_, hr.whole, hr.partly⟩
        · exact hr.suffix.trans ((List.drop_suffix 1 b).trans hsuf)
        · rw [hr.scan_eq, ← rxLook_progress.scan_skip hskip, hscan]
      | true =>
        simp only [if_neg hlen, Bool.not_true, Bool.false_eq_true, if_false]
        by_cases ht : b.length < rxTotal b
        · have htot := rxTotal_le hp
          rw [rxTotal] at ht htot
          simp only [if_pos ht]
          refine ⟨hsuf, hscan, fun hne => absurd rfl hne, fun _ => ⟨?_, Nat.lt_of_lt_of_le ht htot⟩⟩
          simp only [rxLook, hzero, List.drop_zero, hlen, if_false, hp, Bool.not_true, Bool.false_eq_true,
            rxTotal, if_pos ht]
        · have hpos : 0 < headerLen := by decide
          have hfit : rxTotal b ≤ b.length := Nat.not_lt.mp ht
          rw [rxTotal] at ht
          simp only [if_neg ht]
          exact ⟨hsuf, hscan, fun _ => ⟨⟨hm, hp, hfit⟩, rfl⟩, fun hz => absurd hz (by simp only; omega)⟩

theorem rxFrameLen_spec (rx : Bytes) : FrameLenSpec rx (rxFrameLen rx) :=
  rxFrameLenFuel_spec _ _ (Nat.lt_succ_self _)

section Reference

theorem rxNoise_le_of_magicAt {s : Bytes} {i : Nat} (h : rxMagicAt (s.drop i) = true) :
    rxNoise s ≤ i := by
  induction s generalizing i with
  | nil => exact Nat.zero_le _
  | cons x rest ih =>
    rw [rxNoise]
    split
    case isTrue => exact Nat.zero_le _
    case isFalse hx =>
      cases i with
      | zero => exact absurd h hx
      | succ i => exact Nat.succ_le_succ (ih h)

theorem findMagic_of_long {s : Bytes} (h : 4 ≤ (s.drop (rxNoise s)).length) :
    findMagic s = some (rxNoise s) := by
  induction s with
  | nil => simp at h
  | cons x rest ih =>
    by_cases hx : rxMagicAt (x :: rest) = true
    · rw [rxNoise_of_magicAt hx] at h ⊢
      exact findMagic_zero (take_four_of_magicAt hx h)
    · have hne : (x :: rest).take 4 ≠ magic := fun hm => hx (rxMagicAt_of_take_four hm)
      have hn : rxNoise (x :: rest) = rxNoise rest + 1 := by simp only [rxNoise, hx, if_false, Bool.false_eq_true]
      rw [hn, List.drop_succ_cons] at h
      rw [findMagic, if_neg hne, ih h, hn]
      rfl

theorem findMagic_of_short {s : Bytes} (h : (s.drop (rxNoise s)).length < 4) : findMagic s = none := by
  cases hm : findMagic s with
  | none => rfl
  | some i =>
    have hmagic := findMagic_some hm
    have hle := rxNoise_le_of_magicAt (rxMagicAt_of_take_four hmagic)
    have hlen := take_magic_length hmagic
    rw [List.length_drop] at h hlen
    omega

/-- A whole byte string is searched as one scan of it. -/
theorem referenceRequests_eq (s : Bytes) : referenceRequests s = (scan rxLook s).1 := by
  induction s using rxLook_progress.induction with
  | wait b n h =>
    rw [scan_wait h, referenceRequests]
    cases h ▸ rxLook_turn b with
    | shortHeader hlen =>
      rcases Nat.lt_or_ge (b.drop (rxNoise b)).length 4 with h4 | h4
      · rw [findMagic_of_short h4]
      · simp only [findMagic_of_long h4, hlen, dite_true]
    | shortBody hlen hp ht =>
      rw [rxTotal] at ht
      simp only [findMagic_of_long (Nat.le_trans (by decide) hlen), Nat.not_lt.mpr hlen, dite_false, hp,
        Bool.not_true, Bool.false_eq_true, if_false, ht, if_true]
  | skip b n h ih =>
    rw [rxLook_progress.scan_skip h, referenceRequests, ← ih]
    cases h ▸ rxLook_turn b with
    | rejected hlen hp =>
      simp only [findMagic_of_long (Nat.le_trans (by decide) hlen), Nat.not_lt.mpr hlen, dite_false, hp,
        Bool.not_false, if_true, List.drop_drop]
  | emit b a n h ih =>
    rw [rxLook_progress.scan_emit h, referenceRequests, ← ih]
    cases h ▸ rxLook_turn b with
    | whole hlen hp ht =>
      rw [rxTotal] at ht
      simp only [findMagic_of_long (Nat.le_trans (by decide) hlen), Nat.not_lt.mpr hlen, dite_false, hp,
        Bool.not_true, Bool.false_eq_true, if_false, Nat.not_lt.mpr ht, List.drop_drop]
      rfl

end Reference

end Multi64
