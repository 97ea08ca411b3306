import Multi64.L3Decode

/-! The stream decoder is a stable scanner, so the frames it emits do not
depend on where the chunk boundaries fall. -/

namespace Multi64

section FindMagic

theorem take_magic_length {b : Bytes} (h : b.take 4 = magic) : 4 ≤ b.length := by
  have hlen := congrArg List.length h
  simp only [List.length_take, magic, List.length_cons, List.length_nil] at hlen
  omega

theorem take_magic_append {b : Bytes} (h : b.take 4 = magic) (t : Bytes) :
    (b ++ t).take 4 = magic := by
  rw [List.take_append_of_le_length (take_magic_length h), h]

theorem findMagic_zero {b : Bytes} (h : b.take 4 = magic) : findMagic b = some 0 := by
  cases b with
  | nil => exact absurd h (by decide)
  | cons x rest => simp only [findMagic, h, if_true]

theorem findMagic_some {b : Bytes} {i : Nat} (h : findMagic b = some i) :
    (b.drop i).take 4 = magic := by
  induction b generalizing i with
  | nil => simp [findMagic] at h
  | cons x rest ih =>
    simp only [findMagic] at h
    split at h
    case isTrue hm =>
      cases h
      exact hm
    case isFalse hm =>
      obtain ⟨j, hj, rfl⟩ := Option.map_eq_some_iff.mp h
      exact ih hj

theorem findMagic_some_length {b : Bytes} {i : Nat} (h : findMagic b = some i) :
    i + 4 ≤ b.length := by
  have hlen := take_magic_length (findMagic_some h)
  rw [List.length_drop] at hlen
  omega

theorem findMagic_append {b : Bytes} {i : Nat} (h : findMagic b = some i) (t : Bytes) :
    findMagic (b ++ t) = some i := by
  induction b generalizing i with
  | nil => simp [findMagic] at h
  | cons x rest ih =>
    have hpos := findMagic_some_length h
    simp only [findMagic] at h
    split at h
    case isTrue hm =>
      rw [findMagic_zero (take_magic_append hm t)]
      exact h
    case isFalse hm =>
      obtain ⟨j, hj, rfl⟩ := Option.map_eq_some_iff.mp h
      have htake : (x :: (rest ++ t)).take 4 = (x :: rest).take 4 := by
        rw [← List.cons_append, List.take_append_of_le_length (by omega)]
      simp only [List.cons_append, findMagic, htake, hm, if_false, ih hj, Option.map_some]

/-- Only the last three bytes can begin a magic that later input completes. -/
theorem findMagic_append_of_none {b : Bytes} (h : findMagic b = none) {n : Nat}
    (hn : n + 3 ≤ b.length) (t : Bytes) :
    findMagic (b ++ t) = (findMagic (b.drop n ++ t)).map (· + n) := by
  induction n generalizing b with
  | zero => simp
  | succ n ih =>
    cases b with
    | nil => simp at hn
    | cons x rest =>
      simp only [List.length_cons] at hn
      have hx : (x :: rest).take 4 ≠ magic := by
        intro hm
        rw [findMagic_zero hm] at h
        cases h
      have hrest : findMagic rest = none := by
        simpa only [findMagic, hx, if_false, Option.map_eq_none_iff] using h
      have hxt : (x :: (rest ++ t)).take 4 ≠ magic := by
        rw [← List.cons_append, List.take_append_of_le_length (by simp only [List.length_cons]; omega)]
        exact hx
      simp only [List.cons_append, findMagic, hxt, if_false, ih hrest (by omega), List.drop_succ_cons,
        Option.map_map]
      rfl

end FindMagic

theorem parseHeader_append {b : Bytes} (h : headerLen ≤ b.length) (t : Bytes) :
    parseHeader (b ++ t) = parseHeader b := by
  have h16 : 16 ≤ b.length := h
  have hlen : ¬ (b ++ t).length < headerLen := by rw [List.length_append]; omega
  simp only [parseHeader, hlen, show ¬ b.length < headerLen by omega, if_false,
    List.take_append_of_le_length (show 4 ≤ b.length by omega),
    byteAt_append_left (show 4 < b.length by omega), byteAt_append_left (show 5 < b.length by omega),
    readBe16_append_left (show 6 + 2 ≤ b.length by omega),
    readBe32_append_left (show 8 + 4 ≤ b.length by omega),
    readBe32_append_left (show 12 + 4 ≤ b.length by omega)]

theorem Header.total_ge (h : Header) : headerLen ≤ h.total := Nat.le_add_right _ _

/-- What one turn of `drain_frames` decides. -/
def drainLook (buf : Bytes) : Look Frame :=
  match findMagic buf with
  | none => .wait (buf.length - min (magic.length - 1) buf.length)
  | some i =>
    if (buf.drop i).length < headerLen then .wait i
    else
      match parseHeader (buf.drop i) with
      | .error _ => .skip (i + 1)
      | .ok h =>
        if (buf.drop i).length < h.total then .wait i
        else .emit (h.intoFrame (slice (buf.drop i) headerLen h.payloadLen)) (i + h.total)

theorem drainFrames_eq (fuel : Nat) (buf : Bytes) :
    drainFrames fuel buf = scanFuel drainLook fuel buf := by
  induction fuel generalizing buf with
  | zero => rfl
  | succ fuel ih =>
    simp only [drainFrames, scanFuel, drainLook]
    cases findMagic buf with
    | none => rfl
    | some i =>
      simp only
      split
      · rfl
      · cases parseHeader (buf.drop i) with
        | error e => simp only [ih, List.drop_drop]
        | ok h =>
          simp only
          split
          · rfl
          · simp only [ih, List.drop_drop]

/-- The ways a turn can come out, with what it found in the buffer. -/
inductive DrainTurn (b : Bytes) : Look Frame → Prop where
  | noMagic (hm : findMagic b = none) : DrainTurn b (.wait (b.length - min 3 b.length))
  | shortHeader {i : Nat} (hm : findMagic b = some i) (hlen : (b.drop i).length < headerLen) :
      DrainTurn b (.wait i)
  | rejected {i : Nat} {e : DecodeError} (hm : findMagic b = some i)
      (hlen : headerLen ≤ (b.drop i).length) (he : parseHeader (b.drop i) = .error e) :
      DrainTurn b (.skip (i + 1))
  | shortBody {i : Nat} {h : Header} (hm : findMagic b = some i)
      (hlen : headerLen ≤ (b.drop i).length) (he : parseHeader (b.drop i) = .ok h)
      (ht : (b.drop i).length < h.total) : DrainTurn b (.wait i)
  | whole {i : Nat} {h : Header} (hm : findMagic b = some i)
      (hlen : headerLen ≤ (b.drop i).length) (he : parseHeader (b.drop i) = .ok h)
      (ht : h.total ≤ (b.drop i).length) :
      DrainTurn b (.emit (h.intoFrame (slice (b.drop i) headerLen h.payloadLen)) (i + h.total))

theorem drainLook_turn (b : Bytes) : DrainTurn b (drainLook b) := by
  cases hm : findMagic b with
  | none =>
    simp only [drainLook, hm]
    exact .noMagic hm
  | some i =>
    rcases Nat.lt_or_ge (b.drop i).length headerLen with hlen | hlen
    · simp only [drainLook, hm, if_pos hlen]
      exact .shortHeader hm hlen
    · cases he : parseHeader (b.drop i) with
      | error e =>
        simp only [drainLook, hm, he, if_neg (Nat.not_lt.mpr hlen)]
        exact .rejected hm hlen he
      | ok h =>
        rcases Nat.lt_or_ge (b.drop i).length h.total with ht | ht
        · simp only [drainLook, hm, he, if_neg (Nat.not_lt.mpr hlen), if_pos ht]
          exact .shortBody hm hlen he ht
        · simp only [drainLook, hm, he, if_neg (Nat.not_lt.mpr hlen), if_neg (Nat.not_lt.mpr ht)]
          exact .whole hm hlen he ht

theorem drainLook_progress : Progress drainLook where
  skip := by
    intro b n h
    cases h ▸ drainLook_turn b with
    | rejected hm hlen he =>
      have hi := findMagic_some_length hm
      omega
  emit := by
    intro b a n h
    cases h ▸ drainLook_turn b with
    | @whole i hd hm hlen he ht =>
      have hi := findMagic_some_length hm
      have hge : 16 ≤ hd.total := hd.total_ge
      rw [List.length_drop] at ht
      omega

/-- Dropping bytes that hold no start of a magic changes nothing. -/
theorem scan_drop_noise {u : Bytes} {n : Nat} (hn : n = 0 ∨ n + 3 ≤ u.length)
    (h : findMagic u = (findMagic (u.drop n)).map (· + n)) :
    scan drainLook u = scan drainLook (u.drop n) := by
  rcases hn with rfl | hn
  · rfl
  cases hm : findMagic (u.drop n) with
  | none =>
    have hu : findMagic u = none := by rw [h, hm]; rfl
    have hlu : drainLook u = .wait (u.length - min 3 u.length) := by simp only [drainLook, hu]; rfl
    have hl : drainLook (u.drop n) = .wait ((u.drop n).length - min 3 (u.drop n).length) := by
      simp only [drainLook, hm]
      rfl
    rw [scan_wait hlu, scan_wait hl, List.drop_drop, List.length_drop]
    congr 2
    omega
  | some i =>
    have hu : findMagic u = some (i + n) := by rw [h, hm]; rfl
    have hadd : u.drop (i + n) = (u.drop n).drop i := by rw [List.drop_drop, Nat.add_comm]
    apply drainLook_progress.scan_shift
    simp only [drainLook, hu, hm, hadd]
    split
    · rfl
    · cases parseHeader ((u.drop n).drop i) with
      | error e => simp only [Look.shift, Nat.add_right_comm]
      | ok hd =>
        simp only
        split
        · rfl
        · simp only [Look.shift, Nat.add_right_comm]

/-- A magic stays where it was found, so the bytes before it can go. -/
theorem scan_drop_to_magic {b : Bytes} {i : Nat} (hm : findMagic b = some i) (t : Bytes) :
    scan drainLook (b ++ t) = scan drainLook (b.drop i ++ t) := by
  have hi := findMagic_some_length hm
  rw [← List.drop_append_of_le_length (by omega)]
  refine scan_drop_noise (.inr (by rw [List.length_append]; omega)) ?_
  have hzero := findMagic_zero (take_magic_append (findMagic_some hm) t)
  rw [findMagic_append hm, List.drop_append_of_le_length (by omega), hzero]
  simp only [Option.map_some, Nat.zero_add]

theorem drainLook_stable : Stable drainLook where
  toProgress := drainLook_progress
  wait_append := by
    intro b n h t
    cases h ▸ drainLook_turn b with
    | noMagic hm =>
      rw [← List.drop_append_of_le_length (Nat.sub_le _ _)]
      rcases Nat.lt_or_ge b.length 3 with hlt | hge
      · rw [Nat.min_eq_right (by omega), Nat.sub_self]
        rfl
      · rw [Nat.min_eq_left hge]
        refine scan_drop_noise (.inr (by rw [List.length_append]; omega)) ?_
        rw [List.drop_append_of_le_length (Nat.sub_le _ _)]
        exact findMagic_append_of_none hm (by omega) t
    | shortHeader hm hlen => exact scan_drop_to_magic hm t
    | shortBody hm hlen he ht => exact scan_drop_to_magic hm t
  skip_append := by
    intro b n h t
    cases h ▸ drainLook_turn b with
    | @rejected i e hm hlen he =>
      have hi := findMagic_some_length hm
      have hdrop : (b ++ t).drop i = b.drop i ++ t := List.drop_append_of_le_length (by omega)
      have hlen' : ¬ (b.drop i ++ t).length < headerLen := by rw [List.length_append]; omega
      have hskip : drainLook (b ++ t) = .skip (i + 1) := by
        simp only [drainLook, findMagic_append hm, hdrop, hlen', if_false, parseHeader_append hlen, he]
      rw [drainLook_progress.scan_skip hskip, List.drop_append_of_le_length (by omega)]
  emit_append := by
    intro b a n h t
    cases h ▸ drainLook_turn b with
    | @whole i hd hm hlen he ht =>
      have hi := findMagic_some_length hm
      have hdrop : (b ++ t).drop i = b.drop i ++ t := List.drop_append_of_le_length (by omega)
      have hlen' : ¬ (b.drop i ++ t).length < headerLen := by rw [List.length_append]; omega
      have ht' : ¬ (b.drop i ++ t).length < hd.total := by rw [List.length_append]; omega
      simp only [drainLook, findMagic_append hm, hdrop, hlen', if_false, parseHeader_append hlen, he, ht']
      rw [slice_append_left (show headerLen + hd.payloadLen ≤ (b.drop i).length from ht)]

theorem StreamDecoder.pushBytes_eq (d : StreamDecoder) (chunk : Bytes) :
    d.pushBytes chunk = ((feed drainLook d.buf chunk).1, ⟨(feed drainLook d.buf chunk).2⟩) := by
  simp only [StreamDecoder.pushBytes, drainFrames_eq]
  rfl

theorem StreamDecoder.pushAll_eq (d : StreamDecoder) (chunks : List Bytes) :
    d.pushAll chunks =
      ((feedAll drainLook d.buf chunks).1, ⟨(feedAll drainLook d.buf chunks).2⟩) := by
  induction chunks generalizing d with
  | nil => rfl
  | cons c chunks ih => simp only [StreamDecoder.pushAll, StreamDecoder.pushBytes_eq, ih, feedAll]

/-- The whole-string search is one scan of the whole string. -/
theorem referenceFrames_eq (s : Bytes) : referenceFrames s = (scan drainLook s).1 := by
  induction s using drainLook_progress.induction with
  | wait b n h =>
    rw [scan_wait h, referenceFrames]
    cases h ▸ drainLook_turn b with
    | noMagic hm => simp only [hm]
    | shortHeader hm hlen => simp only [hm, hlen, dite_true]
    | shortBody hm hlen he ht => simp only [hm, Nat.not_lt.mpr hlen, dite_false, he, ht, if_true]
  | skip b n h ih =>
    rw [drainLook_progress.scan_skip h, referenceFrames, ← ih]
    cases h ▸ drainLook_turn b with
    | rejected hm hlen he => simp only [hm, Nat.not_lt.mpr hlen, dite_false, he, List.drop_drop]
  | emit b a n h ih =>
    rw [drainLook_progress.scan_emit h, referenceFrames, ← ih]
    cases h ▸ drainLook_turn b with
    | whole hm hlen he ht =>
      simp only [hm, Nat.not_lt.mpr hlen, dite_false, he, Nat.not_lt.mpr ht, if_false, List.drop_drop]

theorem StreamDecoder.pushAll_frames (chunks : List Bytes) :
    (StreamDecoder.new.pushAll chunks).1 = referenceFrames chunks.flatten := by
  rw [StreamDecoder.pushAll_eq, referenceFrames_eq, ← drainLook_stable.feedAll_eq]
  rfl

end Multi64
