import Multi64.MemRequest

/-! The walks of the protocol handler over a region list: what validation
accepts, and what the second walk does with an accepted list. No access of
either walk is a fault. -/

namespace Multi64

section Load

theorem load8_eq {p : Bytes} {i : Nat} (h : i < p.length) : load8 p i = .ok (byteAt p i) := by
  rw [load8, if_pos h]

theorem load16_eq {p : Bytes} {i : Nat} (h : i + 2 ≤ p.length) : load16 p i = .ok (readBe16 p i) := by
  rw [load16, if_pos h]

theorem load32_eq {p : Bytes} {i : Nat} (h : i + 4 ≤ p.length) : load32 p i = .ok (readBe32 p i) := by
  rw [load32, if_pos h]

theorem putReply_eq {reply b : Bytes} (h : reply.length + b.length ≤ m64pAppCap) :
    putReply reply b = .ok (reply ++ b) := by
  rw [putReply, if_pos h]

theorem readBe32_of_drop {b t : Bytes} {i : Nat} {v : UInt32} (h : b.drop i = putBe32 v ++ t) :
    i + 4 ≤ b.length ∧ readBe32 b i = v ∧ b.drop (i + 4) = t := by
  have hlen := congrArg List.length h
  simp only [List.length_drop, List.length_append, putBe32_length] at hlen
  refine ⟨by omega, ?_, ?_⟩
  · rw [← Nat.add_zero i, ← readBe32_drop, h, readBe32_putBe32]
  · rw [← List.drop_drop, h, List.drop_left' (putBe32_length v)]

theorem readBe16_of_drop {b t : Bytes} {i : Nat} {v : UInt16} (h : b.drop i = putBe16 v ++ t) :
    i + 2 ≤ b.length ∧ readBe16 b i = v ∧ b.drop (i + 2) = t := by
  have hlen := congrArg List.length h
  simp only [List.length_drop, List.length_append, putBe16_length] at hlen
  refine ⟨by omega, ?_, ?_⟩
  · rw [← Nat.add_zero i, ← readBe16_drop, h, readBe16_putBe16]
  · rw [← List.drop_drop, h, List.drop_left' (putBe16_length v)]

theorem byteAt_of_drop {b t : Bytes} {i : Nat} {v : UInt8} (h : b.drop i = v :: t) :
    i < b.length ∧ byteAt b i = v ∧ b.drop (i + 1) = t := by
  have hlen := congrArg List.length h
  simp only [List.length_drop, List.length_cons] at hlen
  refine ⟨by omega, ?_, ?_⟩
  · rw [← Nat.add_zero i, ← byteAt_drop, h, byteAt_zero]
  · rw [← List.drop_drop, h, List.drop_succ_cons, List.drop_zero]

end Load

variable {w : Bool}

/-- How far a walk moves over a region. -/
def stride (w : Bool) (len : UInt16) : Nat := if w then len.toNat else 0

/-- What the walks read where a region lies. -/
structure RegionAt (body : Bytes) (off : Nat) (r : Region w) (rest : Bytes) : Prop where
  bound : off + 6 + stride w r.len ≤ body.length
  addr : readBe32 body off = r.addr
  len : readBe16 body (off + 4) = r.len
  data : slice body (off + 6) (stride w r.len) = r.data
  rest : body.drop (off + 6 + stride w r.len) = rest

theorem Region.at_of_drop {body rest : Bytes} {off : Nat} {r : Region w}
    (h : body.drop off = r.encode ++ rest) : RegionAt body off r rest := by
  simp only [Region.encode, List.append_assoc] at h
  obtain ⟨_, haddr, h⟩ := readBe32_of_drop h
  obtain ⟨hb, hlen, h⟩ := readBe16_of_drop h
  have hdata : r.data.length = stride w r.len := r.carries
  have hbound := congrArg List.length h
  simp only [List.length_drop, List.length_append, hdata] at hbound
  refine ⟨by omega, haddr, hlen, ?_, ?_⟩
  · rw [slice, h, List.take_left' hdata]
  · rw [← List.drop_drop, h, List.drop_left' hdata]

theorem exists_region {body : Bytes} {off : Nat} (h : off + 6 ≤ body.length)
    (hw : off + 6 + stride w (readBe16 body (off + 4)) ≤ body.length) :
    ∃ r : Region w, r.addr = readBe32 body off ∧ r.len = readBe16 body (off + 4) ∧
      body.drop off = r.encode ++ body.drop (off + 6 + stride w r.len) := by
  refine ⟨⟨readBe32 body off, readBe16 body (off + 4),
    slice body (off + 6) (stride w (readBe16 body (off + 4))), slice_length hw⟩, rfl, rfl, ?_⟩
  rw [Region.encode, List.append_assoc, List.append_assoc, slice_append_drop,
    ← drop_eq_readBe16 (by omega), ← drop_eq_readBe32 (by omega)]

theorem range_check {space addr : UInt32} {len : UInt16} :
    (space < addr || space - addr < len.toUInt32) = false ↔ addr.toNat + len.toNat ≤ space.toNat := by
  have hl : len.toUInt32.toNat = len.toNat := UInt16.toNat_toUInt32 len
  simp only [Bool.or_eq_false_iff, decide_eq_false_iff_not, UInt32.lt_iff_toNat_lt, Nat.not_lt, hl]
  constructor
  · rintro ⟨ha, hs⟩
    rw [UInt32.toNat_sub_of_le _ _ (UInt32.le_iff_toNat_le.mpr ha)] at hs
    omega
  · intro h
    have ha : addr.toNat ≤ space.toNat := by omega
    rw [UInt32.toNat_sub_of_le _ _ (UInt32.le_iff_toNat_le.mpr ha)]
    omega

/-- `rs` is a list of regions from `off` on, each in range. -/
structure Walk (body : Bytes) (space : UInt32) (off : Nat) (rs : List (Region w)) : Prop where
  lies : ∃ rest, body.drop off = (rs.map Region.encode).flatten ++ rest
  fits : ∀ r ∈ rs, r.FitsIn space

theorem Walk.cons {body : Bytes} {space : UInt32} {off : Nat} {r : Region w} {rs : List (Region w)}
    (h : Walk body space off (r :: rs)) :
    (∃ rest, RegionAt body off r rest) ∧ r.FitsIn space ∧
      Walk body space (off + 6 + stride w r.len) rs := by
  obtain ⟨rest, hrest⟩ := h.lies
  rw [List.map_cons, List.flatten_cons, List.append_assoc] at hrest
  have hat := Region.at_of_drop hrest
  exact ⟨⟨_, hat⟩, h.fits r List.mem_cons_self,
    ⟨⟨rest, hat.rest⟩, fun x hx => h.fits x (List.mem_cons_of_mem _ hx)⟩⟩

section Validate

/-- An accepted list is a walk, and no list makes the walk leave the payload. -/
theorem validateLoop_sound (body : Bytes) (space : UInt32) (n off total : Nat) :
    ∃ res, validateLoop body w space n off total = .ok res ∧ ∀ t, res = .ok t →
      ∃ rs : List (Region w), rs.length = n ∧ Walk body space off rs ∧ t = total + totalLen rs ∧
        (total ≤ m64pMaxTotalBytes → t ≤ m64pMaxTotalBytes) := by
  induction n generalizing off total with
  | zero =>
    refine ⟨.ok total, rfl, fun t ht => ⟨[], rfl, ⟨⟨body.drop off, rfl⟩, fun _ h => (nomatch h)⟩, ?_⟩⟩
    cases ht
    exact ⟨rfl, id⟩
  | succ n ih =>
    rw [validateLoop]
    by_cases h6 : body.length < off + 6
    · exact ⟨.error .malformed, if_pos h6, fun _ h => nomatch h⟩
    rw [if_neg h6, load32_eq (by omega), load16_eq (by omega)]
    simp only [bind, Except.bind, pure, Except.pure]
    by_cases hlen : m64pMaxRegionBytes < (readBe16 body (off + 4)).toNat
    · exact ⟨.error .tooLarge, if_pos hlen, fun _ h => nomatch h⟩
    rw [if_neg hlen]
    by_cases htot : m64pMaxTotalBytes < total + (readBe16 body (off + 4)).toNat
    · exact ⟨.error .tooLarge, if_pos htot, fun _ h => nomatch h⟩
    rw [if_neg htot]
    cases hr : (space < readBe32 body off || space - readBe32 body off <
        (readBe16 body (off + 4)).toUInt32 : Bool) with
    | true => exact ⟨.error .range, by simp only [if_true], fun _ h => nomatch h⟩
    | false =>
      simp only [Bool.false_eq_true, if_false]
      cases hd : (w && decide (body.length < off + 6 + (readBe16 body (off + 4)).toNat) : Bool) with
      | true => exact ⟨.error .malformed, by simp only [if_true], fun _ h => nomatch h⟩
      | false =>
        simp only [Bool.false_eq_true, if_false]
        have hstride : off + 6 + stride w (readBe16 body (off + 4)) ≤ body.length := by
          cases w <;> simp_all [stride]
        have hnext : (if w = true then off + 6 + (readBe16 body (off + 4)).toNat else off + 6) =
            off + 6 + stride w (readBe16 body (off + 4)) := by
          cases w <;> rfl
        rw [hnext]
        obtain ⟨r, haddr, hl, hdrop⟩ := exists_region (w := w) (by omega) hstride
        obtain ⟨res, hres, hok⟩ := ih (off + 6 + stride w (readBe16 body (off + 4)))
          (total + (readBe16 body (off + 4)).toNat)
        refine ⟨res, hres, fun t ht => ?_⟩
        obtain ⟨rs, hn, ⟨⟨rest, hlies⟩, hfits⟩, htotal, hmax⟩ := hok t ht
        have hfit : r.FitsIn space := by
          refine ⟨?_, ?_⟩
          · rw [haddr, hl]
            exact range_check.mp hr
          · rw [hl]
            omega
        refine ⟨r :: rs, by rw [List.length_cons, hn], ⟨⟨rest, ?_⟩, ?_⟩, ?_, fun _ => hmax (by omega)⟩
        · rw [hdrop, List.map_cons, List.flatten_cons, List.append_assoc, ← hlies, hl]
        · intro x hx
          rcases List.mem_cons.mp hx with rfl | hx
          · exact hfit
          · exact hfits x hx
        · rw [htotal, totalLen, totalLen, List.map_cons, List.sum_cons, hl]
          omega

/-- A walk within the limits is accepted. -/
theorem validateLoop_complete {body : Bytes} {space : UInt32} {rs : List (Region w)} {off : Nat}
    (h : Walk body space off rs) (total : Nat) (ht : total + totalLen rs ≤ m64pMaxTotalBytes) :
    validateLoop body w space rs.length off total = .ok (.ok (total + totalLen rs)) := by
  induction rs generalizing off total with
  | nil => rfl
  | cons r rs ih =>
    obtain ⟨⟨rest, hat⟩, hfit, hwalk⟩ := h.cons
    have hb := hat.bound
    rw [totalLen, List.map_cons, List.sum_cons, ← totalLen] at ht ⊢
    have hrange := range_check.mpr hfit.1
    have hd : (w && decide (body.length < off + 6 + r.len.toNat) : Bool) = false := by
      cases w
      · rfl
      · simpa [stride] using hb
    have hnext : (if w = true then off + 6 + r.len.toNat else off + 6) = off + 6 + stride w r.len := by
      cases w <;> rfl
    have hlen := hfit.2
    rw [List.length_cons, validateLoop, if_neg (by omega), load32_eq (by omega), load16_eq (by omega),
      hat.addr, hat.len]
    simp only [bind, Except.bind, pure, Except.pure]
    rw [if_neg (by omega), if_neg (by omega), hrange, hd, hnext]
    simp only [Bool.false_eq_true, if_false]
    rw [ih hwalk _ (by omega)]
    simp only [Nat.add_assoc]

end Validate

section Serve

@[simp] theorem Rdram.bytes_length (r : Rdram) (addr k : Nat) : (r.bytes addr k).length = k := by
  simp only [Rdram.bytes, List.length_map, List.length_range]

theorem Rdram.bytes_succ (r : Rdram) (addr k : Nat) :
    r.bytes addr (k + 1) = r.byte addr :: r.bytes (addr + 1) k := by
  simp only [Rdram.bytes, List.range_succ_eq_map, List.map_cons, List.map_map, Nat.add_zero]
  congr 1
  apply List.map_congr_left
  intro j _
  simp only [Function.comp, Nat.succ_eq_add_one, Nat.add_assoc, Nat.add_comm 1]

theorem copyOut_eq {ram : Rdram} {k addr : Nat} {reply : Bytes} (hr : addr + k ≤ ram.size.toNat)
    (hcap : reply.length + k ≤ m64pAppCap) :
    copyOut ram k addr reply = .ok (reply ++ ram.bytes addr k) := by
  induction k generalizing addr reply with
  | zero => simp [copyOut, Rdram.bytes, pure, Except.pure]
  | succ k ih =>
    have hput : putReply reply [ram.byte addr] = .ok (reply ++ [ram.byte addr]) := by
      apply putReply_eq
      simp only [List.length_singleton]
      omega
    rw [copyOut, Rdram.load, if_pos (by omega)]
    simp only [bind, Except.bind, hput]
    rw [ih (by omega) (by simp only [List.length_append, List.length_singleton]; omega),
      Rdram.bytes_succ, List.append_assoc]
    rfl

/-- A region list takes its lengths and its bytes in a reply. -/
theorem peekReply_length (ram : Rdram) (rs : List (Region false)) :
    (peekReply ram rs).length = 2 * rs.length + totalLen rs := by
  induction rs with
  | nil => rfl
  | cons r rs ih =>
    rw [peekReply] at ih
    simp only [peekReply, totalLen, List.flatMap_cons, List.length_append, putBe16_length,
      Rdram.bytes_length, List.length_cons, List.map_cons, List.sum_cons, ih]
    omega

theorem peekLoop_eq {ram : Rdram} {body : Bytes} {rs : List (Region false)} {off : Nat} {reply : Bytes}
    (h : Walk body ram.size off rs) (hcap : reply.length + (peekReply ram rs).length ≤ m64pAppCap) :
    peekLoop ram body rs.length off reply = .ok (reply ++ peekReply ram rs) := by
  induction rs generalizing off reply with
  | nil => simp [peekLoop, peekReply, pure, Except.pure]
  | cons r rs ih =>
    obtain ⟨⟨rest, hat⟩, hfit, hwalk⟩ := h.cons
    have hb := hat.bound
    have hnext : off + 6 + stride false r.len = off + 6 := rfl
    rw [hnext] at hwalk
    have hcons : peekReply ram (r :: rs) =
        putBe16 r.len ++ ram.bytes r.addr.toNat r.len.toNat ++ peekReply ram rs := by
      simp only [peekReply, List.flatMap_cons]
    rw [hcons] at hcap ⊢
    simp only [List.length_append, putBe16_length, Rdram.bytes_length] at hcap
    rw [List.length_cons, peekLoop, load32_eq (by omega), load16_eq (by omega), hat.addr, hat.len]
    simp only [bind, Except.bind]
    rw [putReply_eq (by rw [putBe16_length]; omega)]
    simp only
    rw [copyOut_eq hfit.1 (by simp only [List.length_append, putBe16_length]; omega)]
    simp only
    rw [ih hwalk (by simp only [List.length_append, putBe16_length, Rdram.bytes_length]; omega)]
    simp only [List.append_assoc]

theorem Rdram.write_nil (r : Rdram) (addr : Nat) : r.write addr [] = r := by
  have hb : (r.write addr []).byte = r.byte := by
    funext a
    simp only [Rdram.write, List.length_nil, Nat.add_zero]
    rw [if_neg (by omega)]
  cases r
  simp only [Rdram.write] at hb ⊢
  rw [hb]

theorem Rdram.write_cons (r : Rdram) (addr : Nat) (b : UInt8) (data : Bytes) :
    ({ r with byte := Function.update r.byte addr b } : Rdram).write (addr + 1) data =
      r.write addr (b :: data) := by
  simp only [Rdram.write, Rdram.mk.injEq, true_and]
  funext a
  simp only [List.length_cons]
  by_cases ha : a = addr
  · rw [if_neg (by omega), if_pos (by omega), ha, Function.update_self, Nat.sub_self, byteAt_zero]
  · rw [Function.update_of_ne ha]
    by_cases hin : addr + 1 ≤ a ∧ a < addr + 1 + data.length
    · rw [if_pos hin, if_pos (by omega), show a - addr = a - (addr + 1) + 1 by omega, byteAt_succ]
    · rw [if_neg hin, if_neg (by omega)]

theorem copyIn_eq {body : Bytes} {k src addr : Nat} {ram : Rdram} (hr : addr + k ≤ ram.size.toNat)
    (hs : src + k ≤ body.length) :
    copyIn body k src addr ram = .ok (ram.write addr (slice body src k)) := by
  induction k generalizing src addr ram with
  | zero => simp [copyIn, slice, Rdram.write_nil, pure, Except.pure]
  | succ k ih =>
    have hcons : slice body src (k + 1) = byteAt body src :: slice body (src + 1) k := by
      rw [slice, drop_eq_byteAt_cons (by omega), List.take_succ_cons, slice]
    rw [copyIn, load8_eq (by omega)]
    simp only [bind, Except.bind, Rdram.store]
    rw [if_pos (by omega)]
    simp only
    rw [ih (by simp only; omega) (by omega), Rdram.write_cons, hcons]

@[simp] theorem Rdram.write_size (r : Rdram) (addr : Nat) (data : Bytes) :
    (r.write addr data).size = r.size := rfl

theorem pokeLoop_eq {body : Bytes} {rs : List (Region true)} {off : Nat} {ram : Rdram}
    (h : Walk body ram.size off rs) : pokeLoop body rs.length off ram = .ok (ram.writeAll rs) := by
  induction rs generalizing off ram with
  | nil => rfl
  | cons r rs ih =>
    obtain ⟨⟨rest, hat⟩, hfit, hwalk⟩ := h.cons
    have hb := hat.bound
    have hdata := hat.data
    simp only [stride, if_true] at hb hdata hwalk
    rw [List.length_cons, pokeLoop, load32_eq (by omega), load16_eq (by omega), hat.addr, hat.len]
    simp only [bind, Except.bind]
    rw [copyIn_eq hfit.1 (by omega), hdata]
    exact ih hwalk

theorem romReply_length (h : Hooks) (rs : List (Region false)) :
    (romReply h rs).length = 2 * rs.length + totalLen rs := by
  induction rs with
  | nil => rfl
  | cons r rs ih =>
    rw [romReply] at ih
    simp only [romReply, totalLen, List.flatMap_cons, List.length_append, putBe16_length,
      List.length_map, List.length_range, List.length_cons, List.map_cons, List.sum_cons, ih]
    omega

/-- The cartridge is read whole, or the PI was busy at one of the regions. -/
theorem romLoop_eq {h : Hooks} {body : Bytes} {rs : List (Region false)} {off : Nat} {space : UInt32}
    (i : Nat) (reply : Bytes) (hw : Walk body space off rs)
    (hcap : reply.length + (romReply h rs).length ≤ m64pAppCap) :
    (romLoop h body rs.length i off reply = .ok none ∧ ∃ j, h.romBusy j = true) ∨
      romLoop h body rs.length i off reply = .ok (some (reply ++ romReply h rs)) := by
  induction rs generalizing i off reply with
  | nil => exact .inr (by simp [romLoop, romReply, pure, Except.pure])
  | cons r rs ih =>
    obtain ⟨⟨rest, hat⟩, hfit, hwalk⟩ := hw.cons
    have hb := hat.bound
    have hnext : off + 6 + stride false r.len = off + 6 := rfl
    rw [hnext] at hwalk
    have hcons : romReply h (r :: rs) = putBe16 r.len ++
        ((List.range r.len.toNat).map fun j => h.rom (r.addr.toNat + j)) ++ romReply h rs := by
      simp only [romReply, List.flatMap_cons]
    rw [hcons] at hcap ⊢
    simp only [List.length_append, putBe16_length, List.length_map, List.length_range] at hcap
    rw [List.length_cons, romLoop, load32_eq (by omega), load16_eq (by omega), hat.addr, hat.len]
    simp only [bind, Except.bind]
    rw [putReply_eq (by rw [putBe16_length]; omega)]
    simp only
    rw [putReply_eq (by
      simp only [List.length_append, putBe16_length, List.length_map, List.length_range]
      omega)]
    simp only
    split
    next hbusy =>
      rw [Bool.and_eq_true] at hbusy
      exact .inl ⟨rfl, i, hbusy.2⟩
    · have hrest := ih (i + 1) (reply ++ putBe16 r.len ++
        (List.range r.len.toNat).map fun j => h.rom (r.addr.toNat + j)) hwalk (by
          simp only [List.length_append, putBe16_length, List.length_map, List.length_range]
          omega)
      simpa only [List.append_assoc] using hrest

end Serve

end Multi64
