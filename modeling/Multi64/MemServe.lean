import Multi64.MemWalk

/-! Each handler of `mem_proto.c` refuses its request and changes nothing but
the error counters, or performs it; and it performs every request that fits. -/

namespace Multi64

section Watch

structure SlotAt (body : Bytes) (off : Nat) (s : SlotSpec) (rest : Bytes) : Prop where
  bound : off + 7 + s.values.length ≤ body.length
  addr : readBe32 body off = s.addr
  len : byteAt body (off + 4) = s.len
  at_ : byteAt body (off + 5) = s.at_
  nvalues : (byteAt body (off + 6)).toNat = s.values.length
  values : slice body (off + 7) s.values.length = s.values
  rest : body.drop (off + 7 + s.values.length) = rest

theorem SlotSpec.at_of_drop {body rest : Bytes} {off : Nat} {s : SlotSpec}
    (h : body.drop off = s.encode ++ rest) : SlotAt body off s rest := by
  simp only [SlotSpec.encode, List.append_assoc, List.cons_append, List.nil_append] at h
  obtain ⟨_, haddr, h⟩ := readBe32_of_drop h
  obtain ⟨_, hlen, h⟩ := byteAt_of_drop h
  obtain ⟨_, hat, h⟩ := byteAt_of_drop h
  obtain ⟨_, hn, h⟩ := byteAt_of_drop h
  have hbound := congrArg List.length h
  simp only [List.length_drop, List.length_append] at hbound
  have hshort := s.short
  refine ⟨by omega, haddr, hlen, hat, ?_, ?_, ?_⟩
  · rw [hn, UInt8.toNat_ofNat']
    omega
  · rw [slice, h, List.take_left' rfl]
  · rw [← List.drop_drop, h, List.drop_left' rfl]

theorem exists_slotSpec {body : Bytes} {off : Nat} (h : off + 7 ≤ body.length)
    (hv : off + 7 + (byteAt body (off + 6)).toNat ≤ body.length) :
    ∃ s : SlotSpec, s.addr = readBe32 body off ∧ s.len = byteAt body (off + 4) ∧
      s.at_ = byteAt body (off + 5) ∧ s.values = slice body (off + 7) (byteAt body (off + 6)).toNat ∧
      body.drop off = s.encode ++ body.drop (off + 7 + (byteAt body (off + 6)).toNat) := by
  have hlen : (slice body (off + 7) (byteAt body (off + 6)).toNat).length = (byteAt body (off + 6)).toNat :=
    slice_length hv
  refine ⟨⟨readBe32 body off, byteAt body (off + 4), byteAt body (off + 5),
    slice body (off + 7) (byteAt body (off + 6)).toNat, ?_⟩, rfl, rfl, rfl, rfl, ?_⟩
  · rw [hlen]
    exact UInt8.toNat_lt _
  · simp only [SlotSpec.encode, hlen, List.append_assoc, slice_append_drop, List.cons_append, List.nil_append]
    rw [UInt8.ofNat_toNat, ← drop_eq_byteAt_cons (i := off + 6) (by omega),
      ← drop_eq_byteAt_cons (i := off + 5) (by omega), ← drop_eq_byteAt_cons (i := off + 4) (by omega),
      ← drop_eq_readBe32 (by omega)]

theorem watchSlotsLoop_sound (body : Bytes) (size : UInt32) (n i off : Nat) (hi : i + n ≤ m64pWatchSlots) :
    ∃ res, watchSlotsLoop body size n i off = .ok res ∧ ∀ ws, res = .ok ws →
      ∃ slots : List SlotSpec, slots.length = n ∧
        (∃ rest, body.drop off = (slots.map SlotSpec.encode).flatten ++ rest) ∧
        (∀ s ∈ slots, s.FitsIn size) ∧ ws = slots.map SlotSpec.slot := by
  induction n generalizing i off with
  | zero => exact ⟨.ok [], rfl, fun ws h => ⟨[], rfl, ⟨body.drop off, rfl⟩, fun _ h => (nomatch h), by cases h; rfl⟩⟩
  | succ n ih =>
    rw [watchSlotsLoop]
    by_cases h7 : body.length < off + 7
    · exact ⟨.error .malformed, if_pos h7, fun _ h => nomatch h⟩
    rw [if_neg h7, load8_eq (by omega), load8_eq (by omega)]
    simp only [bind, Except.bind, pure, Except.pure]
    cases hlarge : (decide (byteAt body (off + 4) = 0) || decide (m64pWatchMaxLen < (byteAt body (off + 4)).toNat) ||
        decide (m64pWatchMaxValues < (byteAt body (off + 6)).toNat) : Bool) with
    | true => exact ⟨.error .tooLarge, by simp only [if_true], fun _ h => nomatch h⟩
    | false =>
      simp only [Bool.false_eq_true, if_false]
      by_cases hv : body.length < off + 7 + (byteAt body (off + 6)).toNat
      · exact ⟨.error .malformed, if_pos hv, fun _ h => nomatch h⟩
      rw [if_neg hv, if_neg (by omega), load32_eq (by omega), load8_eq (by omega)]
      simp only
      cases hfilter : (decide (byteAt body (off + 6) ≠ 0) &&
          decide (byteAt body (off + 4) ≤ byteAt body (off + 5)) : Bool) with
      | true => exact ⟨.error .range, by simp only [if_true], fun _ h => nomatch h⟩
      | false =>
        simp only [Bool.false_eq_true, if_false]
        cases hrange : (decide (size < readBe32 body off + (byteAt body (off + 4)).toUInt32) ||
            decide (size < readBe32 body off) : Bool) with
        | true => exact ⟨.error .range, by simp only [if_true], fun _ h => nomatch h⟩
        | false =>
          simp only [Bool.false_eq_true, if_false]
          obtain ⟨res, hres, hok⟩ := ih (i + 1) (off + 7 + (byteAt body (off + 6)).toNat) (by omega)
          obtain ⟨s, haddr, hlen, hat, hvalues, hdrop⟩ := exists_slotSpec (by omega) (Nat.not_lt.mp hv)
          rw [hres]
          cases res with
          | error e => exact ⟨.error e, rfl, fun _ h => nomatch h⟩
          | ok ws =>
            refine ⟨_, rfl, fun ws' h => ?_⟩
            obtain ⟨slots, hn, ⟨rest, hrest⟩, hfits, hws⟩ := hok ws rfl
            cases h
            have hvlen : s.values.length = (byteAt body (off + 6)).toNat := by
              rw [hvalues, slice_length (by omega)]
            have hfit : s.FitsIn size := by
              simp only [Bool.or_eq_false_iff, Bool.and_eq_false_iff, decide_eq_false_iff_not, ne_eq,
                not_not, Nat.not_lt] at hlarge hfilter hrange
              refine ⟨by rw [hlen]; exact hlarge.1.1, by rw [hlen]; exact hlarge.1.2,
                by rw [hvlen]; exact hlarge.2, fun hne => ?_, ?_⟩
              · rw [hat, hlen]
                rcases hfilter with hz | hlt
                · rw [hz] at hvlen
                  exact absurd (List.eq_nil_of_length_eq_zero hvlen) hne
                · exact UInt8.not_le.mp hlt
              · rw [haddr, hlen]
                exact ⟨UInt32.not_lt.mp hrange.1, UInt32.not_lt.mp hrange.2⟩
            refine ⟨s :: slots, by rw [List.length_cons, hn], ⟨rest, ?_⟩, ?_, ?_⟩
            · rw [hdrop, List.map_cons, List.flatten_cons, List.append_assoc, ← hrest]
            · intro x hx
              rcases List.mem_cons.mp hx with rfl | hx
              · exact hfit
              · exact hfits x hx
            · rw [hws, List.map_cons, SlotSpec.slot, haddr, hlen, hat, hvalues]

theorem watchSlotsLoop_complete {body rest : Bytes} {size : UInt32} {slots : List SlotSpec} {i off : Nat}
    (hi : i + slots.length ≤ m64pWatchSlots)
    (h : body.drop off = (slots.map SlotSpec.encode).flatten ++ rest)
    (hfits : ∀ s ∈ slots, s.FitsIn size) :
    watchSlotsLoop body size slots.length i off = .ok (.ok (slots.map SlotSpec.slot)) := by
  induction slots generalizing i off with
  | nil => rfl
  | cons s slots ih =>
    rw [List.map_cons, List.flatten_cons, List.append_assoc] at h
    have hat := SlotSpec.at_of_drop h
    have hb := hat.bound
    have hfit := hfits s List.mem_cons_self
    rw [List.length_cons] at hi
    have hlarge : (decide (s.len = 0) || decide (m64pWatchMaxLen < s.len.toNat) ||
        decide (m64pWatchMaxValues < s.values.length) : Bool) = false := by
      simp only [Bool.or_eq_false_iff, decide_eq_false_iff_not, Nat.not_lt]
      exact ⟨⟨hfit.len_pos, hfit.len_le⟩, hfit.values_le⟩
    have hfilter : (decide (byteAt body (off + 6) ≠ 0) && decide (s.len ≤ s.at_) : Bool) = false := by
      simp only [Bool.and_eq_false_iff, decide_eq_false_iff_not, ne_eq, not_not]
      by_cases hz : byteAt body (off + 6) = 0
      · exact .inl hz
      · refine .inr (UInt8.not_le.mpr (hfit.filter fun hnil => hz ?_))
        have hn := hat.nvalues
        rw [hnil, List.length_nil] at hn
        exact UInt8.toNat_inj.mp hn
    have hrange : (decide (size < s.addr + s.len.toUInt32) || decide (size < s.addr) : Bool) = false := by
      simp only [Bool.or_eq_false_iff, decide_eq_false_iff_not]
      exact ⟨UInt32.not_lt.mpr hfit.range.1, UInt32.not_lt.mpr hfit.range.2⟩
    rw [List.length_cons, watchSlotsLoop, if_neg (by omega), load8_eq (by omega), load8_eq (by omega)]
    simp only [bind, Except.bind, pure, Except.pure, hat.len, hat.nvalues, hlarge, Bool.false_eq_true,
      if_false]
    rw [if_neg (by omega), if_neg (by omega), load32_eq (by omega), load8_eq (by omega)]
    simp only [hat.at_, hat.addr, hfilter, hrange, Bool.false_eq_true, if_false, hat.values]
    rw [ih (by omega) hat.rest fun x hx => hfits x (List.mem_cons_of_mem _ hx)]
    rfl

end Watch

end Multi64
