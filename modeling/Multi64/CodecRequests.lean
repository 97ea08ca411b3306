import Multi64.HostCodec
import Multi64.MemSafety

/-! Requests from the host's encoders to the agent's parser: what the one
accepts is what the other reads. -/

namespace Multi64

inductive HostRequest where
  | hello
  | peekv (rid : UInt16) (regions : List (Region false))
  | peekrom (rid : UInt16) (regions : List (Region false))
  | pokev (rid : UInt16) (writes : List (UInt32 × Bytes))
  | watch (rid : UInt16) (slots : List Slot)

def HostRequest.encode : HostRequest → Except M64pError Bytes
  | .hello => .ok encodeHello
  | .peekv rid regions => encodePeekv rid regions
  | .peekrom rid regions => encodePeekrom rid regions
  | .pokev rid writes => encodePokev rid writes
  | .watch rid slots => encodeWatch rid slots

def SlotSpec.host (s : SlotSpec) : Slot := ⟨s.addr, s.len, s.at_, s.values⟩

/-- The rid, the list, the data and the slots of `r` are those the host named. -/
def HostRequest.Spells : HostRequest → Request → Prop
  | .hello, r => r = .hello
  | .peekv rid regions, r => r = .peekv rid regions
  | .peekrom rid regions, r => r = .peekrom rid regions
  | .pokev rid writes, r => ∃ rs, r = .pokev rid rs ∧ rs.map (fun x => (x.addr, x.data)) = writes
  | .watch rid slots, r => ∃ specs, r = .watch rid specs ∧ specs.map SlotSpec.host = slots

def Request.rid : Request → UInt16
  | .hello => 0
  | .peekv rid _ | .peekrom rid _ => rid
  | .pokev rid _ => rid
  | .watch rid _ => rid

section Limits

variable {w : Bool}

structure RegionLimits (rs : List (Region w)) : Prop where
  count : rs.length ≤ m64pMaxRegions
  each : ∀ r ∈ rs, r.len.toNat ≤ m64pMaxRegionBytes
  total : totalLen rs ≤ m64pMaxTotalBytes

structure SlotSpec.Limits (s : SlotSpec) : Prop where
  len_pos : s.len ≠ 0
  len_le : s.len.toNat ≤ m64pWatchMaxLen
  values_le : s.values.length ≤ m64pWatchMaxValues
  filter : s.values ≠ [] → s.at_ < s.len

/-- The limits that do not depend on the console's memory. -/
def Request.Limits : Request → Prop
  | .hello => True
  | .peekv _ rs | .peekrom _ rs => RegionLimits rs
  | .pokev _ rs => RegionLimits rs
  | .watch _ slots => slots.length ≤ 0xFF ∧ ∀ s ∈ slots, s.Limits

def Region.InRange (space : UInt32) (r : Region w) : Prop := r.addr.toNat + r.len.toNat ≤ space.toNat

def SlotSpec.InRange (size : UInt32) (s : SlotSpec) : Prop := s.addr + s.len.toUInt32 ≤ size ∧ s.addr ≤ size

instance (space : UInt32) (r : Region w) : Decidable (r.InRange space) := inferInstanceAs (Decidable (_ ≤ _))

instance (size : UInt32) (s : SlotSpec) : Decidable (s.InRange size) := inferInstanceAs (Decidable (_ ∧ _))

/-- The part that does. -/
def Request.InRange (h : Hooks) (size : UInt32) : Request → Prop
  | .hello => True
  | .peekv _ rs => ∀ r ∈ rs, r.InRange size
  | .pokev _ rs => ∀ r ∈ rs, r.InRange size
  | .peekrom _ rs => ∀ r ∈ rs, r.InRange h.romSize
  | .watch _ slots => ∀ s ∈ slots, s.InRange size

theorem RegionLimits.fits {rs : List (Region w)} {space : UInt32} (h : RegionLimits rs)
    (hr : ∀ r ∈ rs, r.InRange space) : RegionsFit space rs :=
  ⟨h.count, fun r hmem => ⟨hr r hmem, h.each r hmem⟩, h.total⟩

theorem SlotSpec.Limits.fits {s : SlotSpec} {size : UInt32} (h : s.Limits) (hr : s.InRange size) : s.FitsIn size :=
  ⟨h.len_pos, h.len_le, h.values_le, h.filter, hr⟩

end Limits

section Encoders

theorem checkLimits_ok {lens : List Nat} (h : checkLimits lens = .ok ()) :
    lens.length ≤ m64pMaxRegions ∧ (∀ n ∈ lens, n ≤ m64pMaxRegionBytes) ∧ lens.sum ≤ m64pMaxTotalBytes := by
  unfold checkLimits at h
  split at h
  · exact nomatch h
  next hcount =>
    split at h
    · exact nomatch h
    next hfind =>
      split at h
      · exact nomatch h
      next hsum =>
        refine ⟨Nat.not_lt.mp hcount, fun n hn => ?_, Nat.not_lt.mp hsum⟩
        have hno := List.find?_eq_none.mp hfind n hn
        rw [decide_eq_true_eq] at hno
        exact Nat.not_lt.mp hno

theorem encodePeek_ok {msg : M64pMsg} {rid : UInt16} {rs : List (Region false)} {p : Bytes}
    (h : encodePeek msg rid rs = .ok p) :
    p = appHeader msg ++ encodeList rid (rs.map Region.encode) ∧ RegionLimits rs := by
  unfold encodePeek at h
  cases hc : checkLimits (rs.map (·.len.toNat)) with
  | error e =>
    rw [hc] at h
    exact nomatch h
  | ok u =>
    rw [hc] at h
    obtain ⟨hcount, heach, htotal⟩ := checkLimits_ok hc
    rw [List.length_map] at hcount
    exact ⟨(Except.ok.inj h).symm, hcount, fun r hr => heach _ (List.mem_map_of_mem hr), htotal⟩

/-- Writes within the limits are regions with data. -/
theorem exists_regions {writes : List (UInt32 × Bytes)} (h : ∀ x ∈ writes, x.2.length ≤ m64pMaxRegionBytes) :
    ∃ rs : List (Region true), rs.map (fun x => (x.addr, x.data)) = writes ∧
      rs.map Region.encode = writes.map encodeWrite ∧ rs.map (·.len.toNat) = writes.map (·.2.length) := by
  induction writes with
  | nil => exact ⟨[], rfl, rfl, rfl⟩
  | cons x writes ih =>
    obtain ⟨rs, hspell, henc, hlen⟩ := ih fun y hy => h y (List.mem_cons_of_mem _ hy)
    have hx := h x List.mem_cons_self
    have hmax : m64pMaxRegionBytes = 4096 := rfl
    have hnat : (UInt16.ofNat x.2.length).toNat = x.2.length := by
      rw [UInt16.toNat_ofNat']
      omega
    refine ⟨⟨x.1, UInt16.ofNat x.2.length, x.2, by rw [if_pos rfl, hnat]⟩ :: rs, ?_, ?_, ?_⟩
    · rw [List.map_cons, hspell]
    · rw [List.map_cons, henc]
      rfl
    · rw [List.map_cons, hlen, List.map_cons, hnat]

theorem encodePokev_ok {rid : UInt16} {writes : List (UInt32 × Bytes)} {p : Bytes}
    (h : encodePokev rid writes = .ok p) : ∃ rs : List (Region true),
      rs.map (fun x => (x.addr, x.data)) = writes ∧ p = (Request.pokev rid rs).encode ∧ RegionLimits rs := by
  unfold encodePokev at h
  cases hc : checkLimits (writes.map (·.2.length)) with
  | error e =>
    rw [hc] at h
    exact nomatch h
  | ok u =>
    rw [hc] at h
    obtain ⟨hcount, heach, htotal⟩ := checkLimits_ok hc
    obtain ⟨rs, hspell, henc, hlen⟩ := exists_regions fun x hx => heach _ (List.mem_map_of_mem (f := (·.2.length)) hx)
    refine ⟨rs, hspell, ?_, ?_, fun r hr => ?_, ?_⟩
    · rw [Request.encode, henc]
      exact (Except.ok.inj h).symm
    · rw [← hlen, List.length_map] at hcount
      exact hcount
    · exact heach _ (by rw [← hlen]; exact List.mem_map_of_mem (f := fun x : Region true => x.len.toNat) hr)
    · rw [totalLen, hlen]
      exact htotal

theorem Slot.check_ok {s : Slot} (h : s.check = .ok ()) :
    ∃ spec : SlotSpec, spec.host = s ∧ spec.encode = s.encode ∧ spec.Limits := by
  unfold Slot.check at h
  split at h
  · exact nomatch h
  next hlen =>
    split at h
    · exact nomatch h
    next hvalues =>
      split at h
      · exact nomatch h
      next hfilter =>
        rw [not_or] at hlen
        have hv := Nat.not_lt.mp hvalues
        have hmax : m64pWatchMaxValues = 8 := rfl
        refine ⟨⟨s.addr, s.len, s.at_, s.values, by omega⟩, rfl, rfl,
          ⟨hlen.2, Nat.not_lt.mp hlen.1, hv, fun hne => ?_⟩⟩
        exact UInt8.not_le.mp fun hle => hfilter ⟨hne, hle⟩

theorem exists_slotSpecs {slots : List Slot} (h : slots.forM Slot.check = .ok ()) :
    ∃ specs : List SlotSpec, specs.map SlotSpec.host = slots ∧
      specs.map SlotSpec.encode = slots.map Slot.encode ∧ ∀ s ∈ specs, s.Limits := by
  induction slots with
  | nil => exact ⟨[], rfl, rfl, nofun⟩
  | cons s slots ih =>
    change (s.check >>= fun _ => slots.forM Slot.check) = .ok () at h
    cases hs : s.check with
    | error e =>
      rw [hs] at h
      exact nomatch h
    | ok u =>
      rw [hs] at h
      obtain ⟨specs, hspell, henc, hlimits⟩ := ih h
      obtain ⟨spec, hhost, hencode, hl⟩ := Slot.check_ok hs
      refine ⟨spec :: specs, by rw [List.map_cons, hspell, hhost], by rw [List.map_cons, henc, hencode, List.map_cons],
        List.forall_mem_cons.mpr ⟨hl, hlimits⟩⟩

theorem encodeWatch_ok {rid : UInt16} {slots : List Slot} {p : Bytes} (h : encodeWatch rid slots = .ok p) :
    ∃ specs : List SlotSpec, specs.map SlotSpec.host = slots ∧ p = (Request.watch rid specs).encode ∧
      specs.length ≤ 0xFF ∧ ∀ s ∈ specs, s.Limits := by
  unfold encodeWatch at h
  split at h
  · exact nomatch h
  next hcount =>
    cases hc : slots.forM Slot.check with
    | error e =>
      rw [hc] at h
      exact nomatch h
    | ok u =>
      rw [hc] at h
      obtain ⟨specs, hspell, henc, hlimits⟩ := exists_slotSpecs hc
      refine ⟨specs, hspell, ?_, ?_, hlimits⟩
      · rw [Request.encode, henc]
        exact (Except.ok.inj h).symm
      · rw [← hspell, List.length_map] at hcount
        exact Nat.not_lt.mp hcount

/-- An encoder writes a request within the limits, and no other. -/
theorem HostRequest.encode_ok {req : HostRequest} {p : Bytes} (h : req.encode = .ok p) :
    ∃ r : Request, req.Spells r ∧ p = r.encode ∧ r.Limits := by
  cases req with
  | hello => exact ⟨.hello, rfl, (Except.ok.inj h).symm, trivial⟩
  | peekv rid regions =>
    obtain ⟨hp, hlimits⟩ := encodePeek_ok h
    exact ⟨.peekv rid regions, rfl, hp, hlimits⟩
  | peekrom rid regions =>
    obtain ⟨hp, hlimits⟩ := encodePeek_ok h
    exact ⟨.peekrom rid regions, rfl, hp, hlimits⟩
  | pokev rid writes =>
    obtain ⟨rs, hspell, hp, hlimits⟩ := encodePokev_ok h
    exact ⟨.pokev rid rs, ⟨rs, rfl, hspell⟩, hp, hlimits⟩
  | watch rid slots =>
    obtain ⟨specs, hspell, hp, hlimits⟩ := encodeWatch_ok h
    exact ⟨.watch rid specs, ⟨specs, rfl, hspell⟩, hp, hlimits⟩

end Encoders

section Agent

variable {w : Bool} {body rest : Bytes}

/-- The walk over a list within the limits. It refuses one for what the memory
is, and for nothing else. -/
theorem validateLoop_reads {rs : List (Region w)} {space : UInt32} {off : Nat} (total : Nat)
    (h : body.drop off = (rs.map Region.encode).flatten ++ rest)
    (heach : ∀ r ∈ rs, r.len.toNat ≤ m64pMaxRegionBytes) (ht : total + totalLen rs ≤ m64pMaxTotalBytes) :
    validateLoop body w space rs.length off total =
      .ok (if ∀ r ∈ rs, r.InRange space then .ok (total + totalLen rs) else .error .range) := by
  induction rs generalizing off total with
  | nil => rw [if_pos (fun _ hr => nomatch hr)]; rfl
  | cons r rs ih =>
    rw [List.map_cons, List.flatten_cons, List.append_assoc] at h
    have hat := Region.at_of_drop h
    have hb := hat.bound
    have hlen := heach r List.mem_cons_self
    rw [totalLen, List.map_cons, List.sum_cons, ← totalLen] at ht ⊢
    have hd : (w && decide (body.length < off + 6 + r.len.toNat) : Bool) = false := by
      cases w
      · rfl
      · simpa [stride] using hb
    have hnext : (if w = true then off + 6 + r.len.toNat else off + 6) = off + 6 + stride w r.len := by
      cases w <;> rfl
    rw [List.length_cons, validateLoop, if_neg (by omega), load32_eq (by omega), load16_eq (by omega),
      hat.addr, hat.len]
    simp only [bind, Except.bind, pure, Except.pure]
    rw [if_neg (by omega), if_neg (by omega), hd, hnext]
    simp only [Bool.false_eq_true, if_false, List.forall_mem_cons]
    by_cases hr : r.InRange space
    · rw [range_check.mpr hr, ih _ hat.rest (fun x hx => heach x (List.mem_cons_of_mem _ hx)) (by omega)]
      simp only [Bool.false_eq_true, if_false, hr, true_and, Nat.add_assoc]
    · have hout : (space < r.addr || space - r.addr < r.len.toUInt32) = true :=
        Bool.not_eq_false _ ▸ fun hc => hr (range_check.mp hc)
      rw [hout, if_pos rfl, if_neg (fun hall => hr hall.1)]

theorem validateRegions_outOfRange {rs : List (Region w)} {space : UInt32} {n : UInt8}
    (hn : n.toNat = rs.length) (h : body.drop 3 = (rs.map Region.encode).flatten ++ rest) (hl : RegionLimits rs)
    (hr : ¬∀ r ∈ rs, r.InRange space) : validateRegions body n w space = .ok (.error .range) := by
  have hc := hl.count
  have ht := hl.total
  rw [validateRegions, if_neg (by omega), hn, validateLoop_reads 0 h hl.each (by omega), if_neg hr]

theorem watchSlotsLoop_reads {slots : List SlotSpec} {size : UInt32} {i off : Nat}
    (hi : i + slots.length ≤ m64pWatchSlots) (h : body.drop off = (slots.map SlotSpec.encode).flatten ++ rest)
    (hl : ∀ s ∈ slots, s.Limits) :
    watchSlotsLoop body size slots.length i off =
      .ok (if ∀ s ∈ slots, s.InRange size then .ok (slots.map SlotSpec.slot) else .error .range) := by
  induction slots generalizing i off with
  | nil => rw [if_pos (fun _ hs => nomatch hs)]; rfl
  | cons s slots ih =>
    rw [List.map_cons, List.flatten_cons, List.append_assoc] at h
    have hat := SlotSpec.at_of_drop h
    have hb := hat.bound
    have hlim := hl s List.mem_cons_self
    rw [List.length_cons] at hi
    have hlarge : (decide (s.len = 0) || decide (m64pWatchMaxLen < s.len.toNat) ||
        decide (m64pWatchMaxValues < s.values.length) : Bool) = false := by
      simp only [Bool.or_eq_false_iff, decide_eq_false_iff_not, Nat.not_lt]
      exact ⟨⟨hlim.len_pos, hlim.len_le⟩, hlim.values_le⟩
    have hfilter : (decide (byteAt body (off + 6) ≠ 0) && decide (s.len ≤ s.at_) : Bool) = false := by
      simp only [Bool.and_eq_false_iff, decide_eq_false_iff_not, ne_eq, not_not]
      by_cases hz : byteAt body (off + 6) = 0
      · exact .inl hz
      · refine .inr (UInt8.not_le.mpr (hlim.filter fun hnil => hz ?_))
        have hn := hat.nvalues
        rw [hnil, List.length_nil] at hn
        exact UInt8.toNat_inj.mp hn
    rw [List.length_cons, watchSlotsLoop, if_neg (by omega), load8_eq (by omega), load8_eq (by omega)]
    simp only [bind, Except.bind, pure, Except.pure, hat.len, hat.nvalues, hlarge, Bool.false_eq_true,
      if_false]
    rw [if_neg (by omega), if_neg (by omega), load32_eq (by omega), load8_eq (by omega)]
    simp only [hat.at_, hat.addr, hfilter, Bool.false_eq_true, if_false, hat.values, List.forall_mem_cons]
    by_cases hr : s.InRange size
    · have hin : (decide (size < s.addr + s.len.toUInt32) || decide (size < s.addr) : Bool) = false := by
        simp only [Bool.or_eq_false_iff, decide_eq_false_iff_not]
        exact ⟨UInt32.not_lt.mpr hr.1, UInt32.not_lt.mpr hr.2⟩
      rw [hin, ih (by omega) hat.rest fun x hx => hl x (List.mem_cons_of_mem _ hx)]
      simp only [Bool.false_eq_true, if_false, hr, true_and]
      by_cases hall : ∀ x ∈ slots, x.InRange size
      · rw [if_pos hall, if_pos hall]
        rfl
      · rw [if_neg hall, if_neg hall]
    · have hout : (decide (size < s.addr + s.len.toUInt32) || decide (size < s.addr) : Bool) = true := by
        rw [← Bool.not_eq_false]
        intro hc
        simp only [Bool.or_eq_false_iff, decide_eq_false_iff_not] at hc
        exact hr ⟨UInt32.not_lt.mp hc.1, UInt32.not_lt.mp hc.2⟩
      rw [hout, if_pos rfl, if_neg (fun hall => hr hall.1)]

/-- The agent understood `r`: it performs it, or refuses it by its rid for what
the console is. -/
inductive ReadAs (h : Hooks) (s : MemProto) (r : Request) : MemProto × Bytes → Prop where
  | performed (hf : r.Fits h s.ram.size) : ReadAs h s r (perform h s r)
  | outOfRange (hr : ¬r.InRange h s.ram.size) : ReadAs h s r (sendErr s r.rid .range)
  | noRom (hmsg : ∃ rid rs, r = .peekrom rid rs) (hrom : h.romSize = 0) :
      ReadAs h s r (sendErr s r.rid .unsupported)
  | busy (hmsg : ∃ rid rs, r = .peekrom rid rs) (hbusy : ∃ i, h.romBusy i = true) :
      ReadAs h s r (sendErr s r.rid .busy)

variable {h : Hooks} {s : MemProto} {rid : UInt16}

theorem handlePeekv_reads {rs : List (Region false)} (hb : body = encodeList rid (rs.map Region.encode) ++ rest)
    (hl : RegionLimits rs) : ∃ out, handlePeekv s body = .ok out ∧ ReadAs h s (.peekv rid rs) out := by
  have hc := hl.count
  have hmax : m64pMaxRegions = 32 := rfl
  obtain ⟨h3, hrid, -, hn, hdrop⟩ := listBody_reads (by rw [List.length_map]; omega) hb
  rw [List.length_map] at hn
  by_cases hr : ∀ r ∈ rs, r.InRange s.ram.size
  · have hfit := hl.fits hr
    refine ⟨_, handlePeekv_walk h h3 hn (.of_list hdrop hfit) hfit, ?_⟩
    rw [hrid]
    exact .performed hfit
  · refine ⟨_, ?_, .outOfRange hr⟩
    rw [handlePeekv, if_neg (by omega), load16_eq (by omega), load8_eq (by omega), hrid]
    simp only [bind, Except.bind, pure, Except.pure, validateRegions_outOfRange hn hdrop hl hr]
    rfl

theorem handlePokev_reads {rs : List (Region true)} (hb : body = encodeList rid (rs.map Region.encode) ++ rest)
    (hl : RegionLimits rs) : ∃ out, handlePokev s body = .ok out ∧ ReadAs h s (.pokev rid rs) out := by
  have hc := hl.count
  have hmax : m64pMaxRegions = 32 := rfl
  obtain ⟨h3, hrid, -, hn, hdrop⟩ := listBody_reads (by rw [List.length_map]; omega) hb
  rw [List.length_map] at hn
  by_cases hr : ∀ r ∈ rs, r.InRange s.ram.size
  · have hfit := hl.fits hr
    refine ⟨_, handlePokev_walk h h3 hn (.of_list hdrop hfit) hfit, ?_⟩
    rw [hrid]
    exact .performed hfit
  · refine ⟨_, ?_, .outOfRange hr⟩
    rw [handlePokev, if_neg (by omega), load16_eq (by omega), load8_eq (by omega), hrid]
    simp only [bind, Except.bind, pure, Except.pure, validateRegions_outOfRange hn hdrop hl hr]
    rfl

theorem handlePeekrom_reads {rs : List (Region false)} (hb : body = encodeList rid (rs.map Region.encode) ++ rest)
    (hl : RegionLimits rs) : ∃ out, handlePeekrom h s body = .ok out ∧ ReadAs h s (.peekrom rid rs) out := by
  have hc := hl.count
  have hmax : m64pMaxRegions = 32 := rfl
  obtain ⟨h3, hrid, -, hn, hdrop⟩ := listBody_reads (by rw [List.length_map]; omega) hb
  rw [List.length_map] at hn
  by_cases hrom : h.romSize = 0
  · refine ⟨_, ?_, .noRom ⟨_, _, rfl⟩ hrom⟩
    rw [handlePeekrom, if_neg (by omega), load16_eq (by omega), load8_eq (by omega), hrid]
    simp only [bind, Except.bind, pure, Except.pure, if_pos hrom]
    rfl
  by_cases hr : ∀ r ∈ rs, r.InRange h.romSize
  · have hfit := hl.fits hr
    rcases handlePeekrom_walk (s := s) h h3 hn hrom (.of_list hdrop hfit) hfit with ⟨hbusy, hpi⟩ | hread
    · refine ⟨_, hbusy, ?_⟩
      rw [hrid]
      exact .busy ⟨_, _, rfl⟩ hpi
    · refine ⟨_, hread, ?_⟩
      rw [hrid]
      exact .performed ⟨hrom, hfit⟩
  · refine ⟨_, ?_, .outOfRange hr⟩
    rw [handlePeekrom, if_neg (by omega), load16_eq (by omega), load8_eq (by omega), hrid]
    simp only [bind, Except.bind, pure, Except.pure, if_neg hrom, validateRegions_outOfRange hn hdrop hl hr]
    rfl

theorem handleWatch_reads {slots : List SlotSpec} (hb : body = encodeList rid (slots.map SlotSpec.encode) ++ rest)
    (hcount : slots.length ≤ m64pWatchSlots) (hl : ∀ x ∈ slots, x.Limits) :
    ∃ out, handleWatch s body = .ok out ∧ ReadAs h s (.watch rid slots) out := by
  have hmax : m64pWatchSlots = 4 := rfl
  obtain ⟨h3, hrid, -, hn, hdrop⟩ := listBody_reads (by rw [List.length_map]; omega) hb
  rw [List.length_map] at hn
  by_cases hr : ∀ x ∈ slots, x.InRange s.ram.size
  · have hfits : ∀ x ∈ slots, x.FitsIn s.ram.size := fun x hx => (hl x hx).fits (hr x hx)
    refine ⟨_, handleWatch_slots h h3 hn hcount hdrop hfits, ?_⟩
    rw [hrid]
    exact .performed ⟨hcount, hfits⟩
  · refine ⟨_, ?_, .outOfRange hr⟩
    rw [handleWatch, if_neg (by omega), load16_eq (by omega), load8_eq (by omega), hrid]
    simp only [bind, Except.bind, pure, Except.pure]
    rw [if_neg (by omega), hn, watchSlotsLoop_reads (by omega) hdrop hl, if_neg hr]
    rfl

/-- More slots than the agent has are refused before one is read. -/
theorem handleWatch_tooMany {slots : List SlotSpec} (hb : body = encodeList rid (slots.map SlotSpec.encode) ++ rest)
    (hcount : m64pWatchSlots < slots.length) (hmax : slots.length ≤ 0xFF) :
    handleWatch s body = .ok (sendErr s rid .tooMany) := by
  obtain ⟨h3, hrid, -, hn, -⟩ := listBody_reads (by rw [List.length_map]; omega) hb
  rw [List.length_map] at hn
  rw [handleWatch, if_neg (by omega), load16_eq (by omega), load8_eq (by omega), hrid]
  simp only [bind, Except.bind, pure, Except.pure]
  rw [if_pos (by omega)]

/-- The dispatcher hands what is behind the header to the message's handler. -/
theorem m64pDispatch_header (msg : M64pMsg) (body : Bytes) : m64pDispatch h s (appHeader msg ++ body) =
    match msg with
    | .hello => .ok (some (handleHello h { s with requests := s.requests + 1 }))
    | .peekv => (handlePeekv s body).map some
    | .pokev => (handlePokev s body).map some
    | .peekrom => (handlePeekrom h s body).map some
    | .watch => (handleWatch s body).map some
    | _ => if 2 ≤ body.length then (load16 body 0).map fun rid => some (sendErr s rid .malformed)
      else .ok (some (sendErr s 0 .malformed)) := by
  have hlen : ¬(appHeader msg ++ body).length < 5 := by
    rw [List.length_append, appHeader_length]
    omega
  have hmagic : ¬(appHeader msg ++ body).take 4 ≠ m64pMagic := not_not.mpr rfl
  have hdrop : (appHeader msg ++ body).drop 5 = body := rfl
  rw [m64pDispatch, if_neg hlen, if_neg hmagic, load8_eq (by omega), hdrop,
    show byteAt (appHeader msg ++ body) 4 = msg.code from rfl]
  cases msg <;> rfl

theorem m64pDispatch_reads {r : Request} (hl : r.Limits) (rest : Bytes)
    (hslots : ∀ rid slots, r = .watch rid slots → slots.length ≤ m64pWatchSlots) :
    ∃ out, m64pDispatch h s (r.encode ++ rest) = .ok (some out) ∧ ReadAs h s r out := by
  cases r with
  | hello => exact ⟨_, m64pDispatch_header .hello rest, .performed trivial⟩
  | peekv rid rs =>
    have hbody : encodeList rid (rs.map Region.encode) ++ rest = encodeList rid (rs.map Region.encode) ++ rest := rfl
    obtain ⟨out, hout, hread⟩ := handlePeekv_reads (h := h) (s := s) hbody hl
    refine ⟨out, ?_, hread⟩
    rw [Request.encode, List.append_assoc, m64pDispatch_header, hout]
    rfl
  | pokev rid rs =>
    have hbody : encodeList rid (rs.map Region.encode) ++ rest = encodeList rid (rs.map Region.encode) ++ rest := rfl
    obtain ⟨out, hout, hread⟩ := handlePokev_reads (h := h) (s := s) hbody hl
    refine ⟨out, ?_, hread⟩
    rw [Request.encode, List.append_assoc, m64pDispatch_header, hout]
    rfl
  | peekrom rid rs =>
    have hbody : encodeList rid (rs.map Region.encode) ++ rest = encodeList rid (rs.map Region.encode) ++ rest := rfl
    obtain ⟨out, hout, hread⟩ := handlePeekrom_reads (h := h) (s := s) hbody hl
    refine ⟨out, ?_, hread⟩
    rw [Request.encode, List.append_assoc, m64pDispatch_header, hout]
    rfl
  | watch rid slots =>
    have hbody : encodeList rid (slots.map SlotSpec.encode) ++ rest =
        encodeList rid (slots.map SlotSpec.encode) ++ rest := rfl
    obtain ⟨out, hout, hread⟩ := handleWatch_reads (h := h) (s := s) hbody (hslots rid slots rfl) hl.2
    refine ⟨out, ?_, hread⟩
    rw [Request.encode, List.append_assoc, m64pDispatch_header, hout]
    rfl

end Agent

end Multi64
