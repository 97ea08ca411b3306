import Multi64.MemServe

/-! What `m64p_handle` does with any payload: it refuses, answers a write sent
again, or performs a request that fits, and it makes no access out of
bounds. -/

namespace Multi64

section Body

theorem listBody_of_walk {body rest : Bytes} {items : List Bytes} (hlen : 3 ≤ body.length)
    (hn : items.length = (byteAt body 2).toNat) (h : body.drop 3 = items.flatten ++ rest) :
    body = encodeList (readBe16 body 0) items ++ rest := by
  have h0 : body.drop 0 = putBe16 (readBe16 body 0) ++ body.drop 2 := drop_eq_readBe16 (by omega)
  rw [drop_eq_byteAt_cons (i := 2) (by omega), h] at h0
  rw [encodeList, hn, UInt8.ofNat_toNat]
  simpa only [List.drop_zero, List.append_assoc, List.cons_append, List.nil_append] using h0

theorem listBody_reads {body rest : Bytes} {rid : UInt16} {items : List Bytes}
    (hn : items.length < 0x100) (h : body = encodeList rid items ++ rest) :
    3 ≤ body.length ∧ readBe16 body 0 = rid ∧ byteAt body 2 = UInt8.ofNat items.length ∧
      (byteAt body 2).toNat = items.length ∧ body.drop 3 = items.flatten ++ rest := by
  simp only [encodeList, List.append_assoc, List.cons_append, List.nil_append] at h
  obtain ⟨_, hrid, h⟩ := readBe16_of_drop (i := 0) h
  obtain ⟨hlt, hcount, h⟩ := byteAt_of_drop h
  simp only [Nat.zero_add] at hlt hcount h
  refine ⟨hlt, hrid, hcount, ?_, h⟩
  rw [hcount, UInt8.toNat_ofNat']
  omega

theorem Walk.of_list {w : Bool} {body rest : Bytes} {space : UInt32} {rs : List (Region w)}
    (h : body.drop 3 = (rs.map Region.encode).flatten ++ rest) (hfit : RegionsFit space rs) :
    Walk body space 3 rs :=
  ⟨⟨rest, h⟩, hfit.fits⟩

end Body

/-- A region list is refused, or it lies in the payload and fits. -/
theorem validateRegions_sound {w : Bool} (body : Bytes) (n : UInt8) (space : UInt32) :
    (∃ e, validateRegions body n w space = .ok (.error e)) ∨
      ∃ rs : List (Region w), validateRegions body n w space = .ok (.ok (totalLen rs)) ∧
        rs.length = n.toNat ∧ Walk body space 3 rs ∧ RegionsFit space rs := by
  rw [validateRegions]
  by_cases hn : m64pMaxRegions < n.toNat
  · exact .inl ⟨.tooMany, if_pos hn⟩
  rw [if_neg hn]
  obtain ⟨res, hres, hok⟩ := validateLoop_sound (w := w) body space n.toNat 3 0
  cases res with
  | error e => exact .inl ⟨e, hres⟩
  | ok t =>
    obtain ⟨rs, hlen, hwalk, htotal, hmax⟩ := hok t rfl
    rw [Nat.zero_add] at htotal
    subst htotal
    exact .inr ⟨rs, hres, hlen, hwalk, ⟨by omega, hwalk.fits, hmax (Nat.zero_le _)⟩⟩

theorem validateRegions_complete {w : Bool} {body : Bytes} {n : UInt8} {space : UInt32}
    {rs : List (Region w)} (hn : n.toNat = rs.length) (hwalk : Walk body space 3 rs)
    (hfit : RegionsFit space rs) : validateRegions body n w space = .ok (.ok (totalLen rs)) := by
  have hc := hfit.count
  have ht := hfit.total
  rw [validateRegions, if_neg (by omega), hn]
  simpa only [Nat.zero_add] using validateLoop_complete hwalk 0 (by omega)

section Trailer

theorem trailerEvents_length_le {room : Nat} (es : List WatchEvent) {at_ : Nat} (h : at_ ≤ room) :
    at_ + ((trailerEvents room es at_).flatMap WatchEvent.encode).length ≤ room := by
  induction es generalizing at_ with
  | nil => exact h
  | cons e es ih =>
    rw [trailerEvents]
    split
    · exact h
    · have hrest := ih (show at_ + 2 + e.bytes.length ≤ room by omega)
      simp only [List.flatMap_cons, List.length_append, WatchEvent.encode, List.length_cons,
        List.length_nil] at hrest ⊢
      omega

theorem watchTrailer_length_le (s : MemProto) (room : Nat) : (watchTrailer s room).1.length ≤ room := by
  rw [watchTrailer]
  split
  · exact Nat.zero_le _
  · have he := trailerEvents_length_le s.events.contents (show 3 ≤ room by omega)
    simp only [List.length_append, List.length_singleton, putBe16_length]
    omega

theorem peekTrailer_length_le (s : MemProto) (used : Nat) :
    (peekTrailer s used).1.length ≤ m64pAppCap - used := by
  rw [peekTrailer]
  split
  · exact Nat.zero_le _
  · exact watchTrailer_length_le s _

end Trailer

theorem listReply_length (msg : M64pMsg) (rid : UInt16) (n : Nat) (rest : Bytes) :
    (listReply msg rid n rest).length = 8 + rest.length := by
  simp only [listReply, List.length_append, appHeader_length, putBe16_length, List.length_singleton]

theorem RegionsFit.reply_le {space : UInt32} {rs : List (Region false)} (h : RegionsFit space rs) :
    8 + (2 * rs.length + totalLen rs) ≤ m64pAppCap := by
  have hc : rs.length ≤ 32 := h.count
  have ht : totalLen rs ≤ 7936 := h.total
  have hcap : m64pAppCap = 8008 := rfl
  omega

section Handlers

variable {s : MemProto} {body : Bytes}

/-- The reply before its regions. -/
theorem putReply_head {msg : M64pMsg} {rid : UInt16} {n : UInt8} {k : Nat} (hn : n.toNat = k) :
    putReply [] (appHeader msg ++ putBe16 rid ++ [n]) = .ok (listReply msg rid k []) := by
  have hcap : ([] : Bytes).length + (appHeader msg ++ putBe16 rid ++ [n]).length ≤ m64pAppCap := by
    simp only [List.length_append, appHeader_length, putBe16_length, List.length_singleton, List.length_nil]
    decide
  rw [putReply_eq hcap, listReply, ← hn, UInt8.ofNat_toNat, List.append_nil, List.nil_append]

theorem listReply_append (msg : M64pMsg) (rid : UInt16) (n : Nat) (rest : Bytes) :
    listReply msg rid n [] ++ rest = listReply msg rid n rest := by
  simp only [listReply, List.append_nil]

theorem handlePeekv_walk (h : Hooks) {rs : List (Region false)} (h3 : 3 ≤ body.length)
    (hn : (byteAt body 2).toNat = rs.length) (hwalk : Walk body s.ram.size 3 rs)
    (hfit : RegionsFit s.ram.size rs) :
    handlePeekv s body = .ok (perform h s (.peekv (readBe16 body 0) rs)) := by
  have hcap := hfit.reply_le
  have hval := validateRegions_complete hn hwalk hfit
  have hreply := peekReply_length s.ram rs
  have hlen := listReply_length .peekvResp (readBe16 body 0) rs.length (peekReply s.ram rs)
  have htrailer := peekTrailer_length_le s
    (listReply .peekvResp (readBe16 body 0) rs.length (peekReply s.ram rs)).length
  rw [handlePeekv, if_neg (by omega), load16_eq (by omega), load8_eq (by omega)]
  simp only [bind, Except.bind, pure, Except.pure, hval, putReply_head hn]
  rw [hn, peekLoop_eq hwalk (by rw [listReply_length]; simp only [List.length_nil]; omega)]
  simp only [listReply_append]
  rw [← peekTrailer, putReply_eq (by omega)]
  rfl

theorem handlePokev_walk (h : Hooks) {rs : List (Region true)} (h3 : 3 ≤ body.length)
    (hn : (byteAt body 2).toNat = rs.length) (hwalk : Walk body s.ram.size 3 rs)
    (hfit : RegionsFit s.ram.size rs) :
    handlePokev s body = .ok (perform h s (.pokev (readBe16 body 0) rs)) := by
  have hval := validateRegions_complete hn hwalk hfit
  rw [handlePokev, if_neg (by omega), load16_eq (by omega), load8_eq (by omega)]
  simp only [bind, Except.bind, pure, Except.pure, hval]
  rw [hn, pokeLoop_eq hwalk]
  simp only [perform, listReply, ← hn, UInt8.ofNat_toNat, List.append_nil]

theorem handlePeekrom_walk (h : Hooks) {rs : List (Region false)} (h3 : 3 ≤ body.length)
    (hn : (byteAt body 2).toNat = rs.length) (hrom : h.romSize ≠ 0) (hwalk : Walk body h.romSize 3 rs)
    (hfit : RegionsFit h.romSize rs) :
    (handlePeekrom h s body = .ok (sendErr s (readBe16 body 0) .busy) ∧ ∃ j, h.romBusy j = true) ∨
      handlePeekrom h s body = .ok (perform h s (.peekrom (readBe16 body 0) rs)) := by
  have hcap := hfit.reply_le
  have hval := validateRegions_complete hn hwalk hfit
  have hreply := romReply_length h rs
  rw [handlePeekrom, if_neg (by omega), load16_eq (by omega), load8_eq (by omega)]
  simp only [bind, Except.bind, pure, Except.pure, if_neg hrom, hval, putReply_head hn, hn]
  rcases romLoop_eq (h := h) 0 (listReply .peekromResp (readBe16 body 0) rs.length [])
    hwalk (by rw [listReply_length]; simp only [List.length_nil]; omega) with ⟨hbusy, hpi⟩ | hread
  · rw [hbusy]
    exact .inl ⟨rfl, hpi⟩
  · rw [hread, listReply_append]
    exact .inr rfl

theorem handleWatch_slots (h : Hooks) {slots : List SlotSpec} {rest : Bytes} (h3 : 3 ≤ body.length)
    (hn : (byteAt body 2).toNat = slots.length) (hcount : slots.length ≤ m64pWatchSlots)
    (hlies : body.drop 3 = (slots.map SlotSpec.encode).flatten ++ rest)
    (hfits : ∀ x ∈ slots, x.FitsIn s.ram.size) :
    handleWatch s body = .ok (perform h s (.watch (readBe16 body 0) slots)) := by
  rw [handleWatch, if_neg (by omega), load16_eq (by omega), load8_eq (by omega)]
  simp only [bind, Except.bind, pure, Except.pure]
  rw [if_neg (by omega), hn, watchSlotsLoop_complete (by omega) hlies hfits]
  simp only [perform, listReply, ← hn, UInt8.ofNat_toNat, List.append_nil]
  rfl

/-- What serving the body of a list request comes to: refused, or performed as
the request it spells. -/
inductive Served (h : Hooks) (s : MemProto) (body : Bytes) (msg : M64pMsg) :
    Except Fault (MemProto × Bytes) → Prop where
  | refused (rid : UInt16) (e : M64pErr) (hrid : 3 ≤ body.length → rid = readBe16 body 0) :
      Served h s body msg (.ok (sendErr s rid e))
  | performed (r : Request) (rest : Bytes) (he : appHeader msg ++ body = r.encode ++ rest)
      (hf : r.Fits h s.ram.size) : Served h s body msg (.ok (perform h s r))

theorem handlePeekv_served (h : Hooks) (s : MemProto) (body : Bytes) :
    Served h s body .peekv (handlePeekv s body) := by
  by_cases h3 : body.length < 3
  · rw [handlePeekv, if_pos h3]
    exact .refused 0 .malformed fun hlen => absurd hlen (by omega)
  rcases validateRegions_sound (w := false) body (byteAt body 2) s.ram.size with ⟨e, he⟩ | ⟨rs, _, hn, hwalk, hfit⟩
  · rw [handlePeekv, if_neg h3, load16_eq (by omega), load8_eq (by omega)]
    simp only [bind, Except.bind, pure, Except.pure, he]
    exact .refused _ e fun _ => rfl
  · rw [handlePeekv_walk h (by omega) hn.symm hwalk hfit]
    obtain ⟨rest, hrest⟩ := hwalk.lies
    refine .performed _ rest ?_ hfit
    have hbody := listBody_of_walk (by omega) (by rw [List.length_map, hn]) hrest
    rw [Request.encode, List.append_assoc, ← hbody]

theorem handlePokev_served (h : Hooks) (s : MemProto) (body : Bytes) :
    Served h s body .pokev (handlePokev s body) := by
  by_cases h3 : body.length < 3
  · rw [handlePokev, if_pos h3]
    exact .refused 0 .malformed fun hlen => absurd hlen (by omega)
  rcases validateRegions_sound (w := true) body (byteAt body 2) s.ram.size with ⟨e, he⟩ | ⟨rs, _, hn, hwalk, hfit⟩
  · rw [handlePokev, if_neg h3, load16_eq (by omega), load8_eq (by omega)]
    simp only [bind, Except.bind, pure, Except.pure, he]
    exact .refused _ e fun _ => rfl
  · rw [handlePokev_walk h (by omega) hn.symm hwalk hfit]
    obtain ⟨rest, hrest⟩ := hwalk.lies
    refine .performed _ rest ?_ hfit
    have hbody := listBody_of_walk (by omega) (by rw [List.length_map, hn]) hrest
    rw [Request.encode, List.append_assoc, ← hbody]

theorem handlePeekrom_served (h : Hooks) (s : MemProto) (body : Bytes) :
    Served h s body .peekrom (handlePeekrom h s body) := by
  by_cases h3 : body.length < 3
  · rw [handlePeekrom, if_pos h3]
    exact .refused 0 .malformed fun hlen => absurd hlen (by omega)
  by_cases hrom : h.romSize = 0
  · rw [handlePeekrom, if_neg h3, load16_eq (by omega), load8_eq (by omega)]
    simp only [bind, Except.bind, pure, Except.pure, if_pos hrom]
    exact .refused _ .unsupported fun _ => rfl
  rcases validateRegions_sound (w := false) body (byteAt body 2) h.romSize with ⟨e, he⟩ | ⟨rs, _, hn, hwalk, hfit⟩
  · rw [handlePeekrom, if_neg h3, load16_eq (by omega), load8_eq (by omega)]
    simp only [bind, Except.bind, pure, Except.pure, if_neg hrom, he]
    exact .refused _ e fun _ => rfl
  · rcases handlePeekrom_walk (s := s) h (by omega) hn.symm hrom hwalk hfit with ⟨hbusy, -⟩ | hread
    · rw [hbusy]
      exact .refused _ .busy fun _ => rfl
    · rw [hread]
      obtain ⟨rest, hrest⟩ := hwalk.lies
      refine .performed _ rest ?_ ⟨hrom, hfit⟩
      have hbody := listBody_of_walk (by omega) (by rw [List.length_map, hn]) hrest
      rw [Request.encode, List.append_assoc, ← hbody]

theorem handleWatch_served (h : Hooks) (s : MemProto) (body : Bytes) :
    Served h s body .watch (handleWatch s body) := by
  by_cases h3 : body.length < 3
  · rw [handleWatch, if_pos h3]
    exact .refused 0 .malformed fun hlen => absurd hlen (by omega)
  by_cases hcount : m64pWatchSlots < (byteAt body 2).toNat
  · rw [handleWatch, if_neg h3, load16_eq (by omega), load8_eq (by omega)]
    simp only [bind, Except.bind, pure, Except.pure, if_pos hcount]
    exact .refused _ .tooMany fun _ => rfl
  obtain ⟨res, hres, hok⟩ := watchSlotsLoop_sound body s.ram.size (byteAt body 2).toNat 0 3 (by omega)
  cases res with
  | error e =>
    rw [handleWatch, if_neg h3, load16_eq (by omega), load8_eq (by omega)]
    simp only [bind, Except.bind, pure, Except.pure, if_neg hcount, hres]
    exact .refused _ e fun _ => rfl
  | ok ws =>
    obtain ⟨slots, hn, ⟨rest, hrest⟩, hfits, _⟩ := hok ws rfl
    rw [handleWatch_slots h (by omega) hn.symm (by omega) hrest hfits]
    refine .performed _ rest ?_ ⟨by omega, hfits⟩
    have hbody := listBody_of_walk (by omega) (by rw [List.length_map, hn]) hrest
    rw [Request.encode, List.append_assoc, ← hbody]

end Handlers

end Multi64
