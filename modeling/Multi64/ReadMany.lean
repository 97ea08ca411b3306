import Multi64.Correlation
import Multi64.Lib.Pack

/-! What a read of many regions comes to: its requests, and its result when
one memory answers each of them. -/

namespace Multi64

section Memory

variable (ram : Rdram)

def Region.readFrom (r : Region false) : Bytes := ram.bytes r.addr.toNat r.len.toNat

theorem Rdram.bytes_add (a j k : Nat) : ram.bytes a (j + k) = ram.bytes a j ++ ram.bytes (a + j) k := by
  simp only [Rdram.bytes, List.range_add, List.map_append, List.map_map]
  congr 1
  exact List.map_congr_left fun i _ => by simp only [Function.comp, Nat.add_assoc]

end Memory

section Split

variable {ram : Rdram} {size : UInt32}

theorem splitOne_spec {a : UInt32} {len : Nat} (ha : a.toNat + len < 2 ^ 32) (n : Nat) : ∀ done, len ≤ done + n →
    done ≤ len → ((splitOne a n done len).map (Region.readFrom ram)).flatten = ram.bytes (a.toNat + done) (len - done) ∧
      ∀ r ∈ splitOne a n done len, r.len.toNat ≤ m64pMaxRegionBytes := by
  have hmax : m64pMaxRegionBytes = 4096 := rfl
  induction n with
  | zero =>
    intro done hn hdone
    have hend : len - done = 0 := by omega
    simp [splitOne, hend, Rdram.bytes]
  | succ n ih =>
    intro done hn hdone
    unfold splitOne
    by_cases hlt : done < len
    · rw [if_pos hlt]
      simp only
      obtain ⟨htake, hle, hpos⟩ : min (len - done) m64pMaxRegionBytes ≤ 4096 ∧
          done + min (len - done) m64pMaxRegionBytes ≤ len ∧ 0 < min (len - done) m64pMaxRegionBytes := by omega
      generalize min (len - done) m64pMaxRegionBytes = take at htake hle hpos ⊢
      obtain ⟨hrest, hall⟩ := ih (done + take) (by omega) hle
      have haddr : (a + UInt32.ofNat done).toNat = a.toNat + done := by
        rw [UInt32.toNat_add, UInt32.toNat_ofNat']
        omega
      have hlen : (UInt16.ofNat take).toNat = take := by
        rw [UInt16.toNat_ofNat']
        omega
      constructor
      · have hsum : len - done = take + (len - (done + take)) := by omega
        rw [List.map_cons, List.flatten_cons, hrest, hsum, Rdram.bytes_add, Region.readFrom, plainRegion, haddr, hlen,
          Nat.add_assoc]
      · intro r hr
        rcases List.mem_cons.mp hr with rfl | hr
        · simp only [plainRegion, hlen]
          omega
        · exact hall r hr
    · have hend : len - done = 0 := by omega
      simp [hlt, hend, Rdram.bytes]

/-- Regions in range are split, each into chunks that together read it. -/
theorem split_spec {regions : List (UInt32 × Nat)} (h : ∀ r ∈ regions, r.1.toNat + r.2 ≤ size.toNat) :
    ∃ groups : List (List (Region false)), split size regions = .ok (groups.flatten, groups.map List.length) ∧
      (∀ ram, groups.map (fun g => (g.map (Region.readFrom ram)).flatten) =
        regions.map fun r => ram.bytes r.1.toNat r.2) ∧
      ∀ c ∈ groups.flatten, c.len.toNat ≤ m64pMaxRegionBytes := by
  induction regions with
  | nil => exact ⟨[], rfl, fun _ => rfl, by simp⟩
  | cons r rest ih =>
    obtain ⟨groups, hsplit, hread, hall⟩ := ih fun x hx => h x (List.mem_cons_of_mem r hx)
    have hr := h r List.mem_cons_self
    have hsize := size.toNat_lt
    have hone := fun ram => @splitOne_spec ram r.1 r.2 (by omega) r.2 0 (by omega) (Nat.zero_le _)
    refine ⟨splitOne r.1 r.2 0 r.2 :: groups, ?_, fun ram => ?_, ?_⟩
    · have hcheck : checkIn r.1 r.2 size = .ok () := if_neg (Nat.not_lt.mpr hr)
      rw [split, hcheck, hsplit]
      rfl
    · rw [List.map_cons, (hone ram).1, hread, List.map_cons, Nat.add_zero, Nat.sub_zero]
    · intro c hc
      rw [List.flatten_cons] at hc
      rcases List.mem_append.mp hc with hc | hc
      · exact (hone ⟨0, fun _ => 0⟩).2 c hc
      · exact hall c hc

/-- Replies in the order of the chunks are put together region by region. -/
theorem stitch_groups {α : Type} (f : α → Bytes) (groups : List (List α)) :
    stitch (groups.flatten.map f) (groups.map List.length) = .ok (groups.map fun g => (g.map f).flatten) := by
  induction groups with
  | nil => rfl
  | cons g groups ih =>
    rw [List.map_cons, stitch, List.flatten_cons, List.map_append, if_neg (by simp)]
    have hlen : (g.map f).length = g.length := List.length_map _
    rw [List.drop_left' hlen, List.take_left' hlen, ih]
    rfl

theorem batchesLoop_eq_pack (batch chunks : List (Region false)) :
    batchesLoop batch chunks = pack m64pMaxRegions m64pMaxTotalBytes (fun c => c.len.toNat) batch chunks := by
  induction chunks generalizing batch with
  | nil => rfl
  | cons c rest ih =>
    rw [batchesLoop, pack, ih, ih]
    rfl

theorem batches_spec {chunks : List (Region false)} (h : ∀ c ∈ chunks, c.len.toNat ≤ m64pMaxRegionBytes) :
    (batches chunks).flatten = chunks ∧
      ∀ b ∈ batches chunks, b ≠ [] ∧ b.length ≤ m64pMaxRegions ∧ totalLen b ≤ m64pMaxTotalBytes := by
  have heach : m64pMaxRegionBytes ≤ m64pMaxTotalBytes := by decide
  obtain ⟨hflat, hall⟩ := @pack_spec _ m64pMaxRegions m64pMaxTotalBytes (fun c : Region false => c.len.toNat) [] chunks
    (by decide) (fun c hc => (h c hc).trans heach) ⟨Nat.zero_le _, Nat.zero_le _⟩
  rw [← batchesLoop_eq_pack] at hflat hall
  exact ⟨hflat, fun b hb => ⟨(hall b hb).1, (hall b hb).2.count, (hall b hb).2.total⟩⟩

end Split

namespace Backend

open Eff World Transport

section Exchange

variable {ram : Rdram} {w : World} {batch : List (Region false)}

/-- The regions of the request that `batch` goes out in. -/
def asked (w : World) (batch : List (Region false)) : List (Region false) := batch ++ (probeOf w batch).toList

/-- The exchange of `batch`, its tries included. -/
def exchange (w : World) (batch : List (Region false)) : Except IoErr (List Bytes) × World :=
  withRetry .resend (each (peek (asked w batch))) () w

/-- Each request of a read, from `w` on, is answered from `ram`. -/
def AnsweredFrom (ram : Rdram) : List (List (Region false)) → World → Prop
  | [], _ => True
  | batch :: rest, w =>
    (exchange w batch).1 = .ok ((asked w batch).map (Region.readFrom ram)) ∧ AnsweredFrom ram rest (readBatch batch w).2

/-- The probe rides along only where there is room for it. -/
theorem asked_limits (w : World) (hcount : batch.length ≤ m64pMaxRegions) (htotal : totalLen batch ≤ m64pMaxTotalBytes) :
    (asked w batch).length ≤ m64pMaxRegions ∧ totalLen (asked w batch) ≤ m64pMaxTotalBytes := by
  unfold asked
  cases hp : probeOf w batch with
  | none =>
    rw [Option.toList_none, List.append_nil]
    exact ⟨hcount, htotal⟩
  | some p =>
    unfold probeOf at hp
    by_cases hcart : w.host.watchOnCart = true
    · rw [if_pos hcart] at hp
      exact nomatch hp
    · rw [if_neg hcart] at hp
      obtain ⟨x, _, hx⟩ := Option.bind_eq_some_iff.mp hp
      by_cases hfits : fits batch x.len = true
      · rw [if_pos hfits] at hx
        obtain rfl := Option.some.inj hx
        simp only [fits, Bool.and_eq_true, decide_eq_true_eq] at hfits
        have hle : (UInt16.ofNat x.len).toNat ≤ x.len := by
          rw [UInt16.toNat_ofNat']
          exact Nat.mod_le _ _
        have hlen : totalLen (batch ++ [plainRegion x.addr (UInt16.ofNat x.len)]) =
            totalLen batch + (UInt16.ofNat x.len).toNat := by
          simp [totalLen, plainRegion]
        simp only [Option.toList_some, List.length_append, List.length_singleton, hlen]
        omega
      · rw [if_neg hfits] at hx
        exact nomatch hx

theorem collectEvents_ok (w : World) : (collectEvents w).1 = .ok () := by
  unfold collectEvents
  change ((if w.host.watchOnCart then modify collect else pure () : Host Unit) w).1 = .ok ()
  split <;> rfl

/-- The bytes of the probe are not in what a batch brings back. -/
theorem readBatch_ok (f : Region false → Bytes) (h : (exchange w batch).1 = .ok ((asked w batch).map f)) :
    (readBatch batch w).1 = .ok (batch.map f) := by
  change ((withRetry .resend (each (peek (asked w batch))) () >>= _) w).1 = .ok (batch.map f)
  unfold exchange at h
  rw [bind_ok h]
  generalize (withRetry .resend (each (peek (asked w batch))) () w).2 = w'
  unfold asked
  cases probeOf w batch with
  | none =>
    change ((collectEvents >>= fun _ => pure ((batch ++ []).map f)) w').1 = _
    rw [bind_ok (collectEvents_ok w')]
    simp [pure]
  | some p =>
    change ((collectEvents >>= fun _ => pure ((batch ++ [p]).map f).dropLast) (w'.observe _)).1 = _
    rw [bind_ok (collectEvents_ok _)]
    simp [pure]

theorem readBatches_ok {reqs : List (List (Region false))} (h : AnsweredFrom ram reqs w) :
    (readBatches reqs w).1 = .ok (reqs.flatten.map (Region.readFrom ram)) := by
  induction reqs generalizing w with
  | nil => rfl
  | cons batch rest ih =>
    obtain ⟨hfirst, hrest⟩ := h
    have hdone := readBatch_ok _ hfirst
    change ((readBatch batch >>= fun done => readBatches rest >>= fun more => pure (done ++ more)) w).1 = _
    rw [bind_ok hdone, bind_ok (ih hrest)]
    simp [pure]

theorem rearm_ok (w : World) : (rearm w).1 = .ok () := by
  unfold rearm
  change ((if w.host.watch.isSome ∧ w.host.watchArmedAt ≠ some w.host.generation then
    (attempt armWatch >>= fun _ => pure ()) else pure () : Host Unit) w).1 = .ok ()
  split <;> rfl

/-- Regions in range are read as from one memory where one memory answers the
requests, watched or not; and the requests keep the limits of the wire, one a
batch of chunks, the probe included. -/
theorem readMany_plain {regions : List (UInt32 × Nat)}
    (h : ∀ r ∈ regions, r.1.toNat + r.2 ≤ (rearm w).2.t.rdramBytes.toNat) :
    ∃ (chunks : List (Region false)) (counts : List Nat),
      split (rearm w).2.t.rdramBytes regions = .ok (chunks, counts) ∧
      (∀ c ∈ chunks, c.len.toNat ≤ m64pMaxRegionBytes) ∧
      (batches chunks).flatten = chunks ∧
      (∀ batch ∈ batches chunks, batch ≠ [] ∧
        ∀ w, (asked w batch).length ≤ m64pMaxRegions ∧ totalLen (asked w batch) ≤ m64pMaxTotalBytes) ∧
      ∀ ram, AnsweredFrom ram (batches chunks) (rearm w).2 →
        (readMany regions w).1 = .ok (regions.map fun r => ram.bytes r.1.toNat r.2) := by
  obtain ⟨groups, hsplit, hread, hall⟩ := split_spec h
  obtain ⟨hflat, hreqs⟩ := batches_spec hall
  refine ⟨_, _, hsplit, hall, hflat, fun batch hb => ⟨(hreqs batch hb).1, fun w => ?_⟩, fun ram hans => ?_⟩
  · exact asked_limits w (hreqs batch hb).2.1 (hreqs batch hb).2.2
  · have hflatRead := readBatches_ok hans
    rw [hflat] at hflatRead
    change ((rearm >>= fun _ => Eff.get >>= fun w => lift (split w.t.rdramBytes regions) >>= fun x =>
      readBatches (batches x.1) >>= fun flat => lift (stitch flat x.2)) w).1 = _
    rw [bind_ok (rearm_ok w)]
    generalize (rearm w).2 = w' at hsplit hflatRead ⊢
    change ((lift (split w'.t.rdramBytes regions) >>= fun x =>
      readBatches (batches x.1) >>= fun flat => lift (stitch flat x.2)) w').1 = _
    rw [hsplit]
    change ((readBatches (batches groups.flatten) >>= fun flat => lift (stitch flat (groups.map List.length))) w').1 = _
    rw [bind_ok hflatRead, stitch_groups, hread]
    rfl

/-- Two reads in one request, on a console that answers at once. -/
theorem readMany_plain_small :
    let w := (session [] (start smallCart sc64Daemon 2 2 [.serve, .deliver, .serve, .deliver])).2
    (readMany [(8, 2), (0, 0), (4, 1)] w).1 = .ok [[8, 9], [], [4]] := by
  intro w
  obtain ⟨chunks, counts, hsplit, _, _, _, hread⟩ :=
    @readMany_plain w [(8, 2), (0, 0), (4, 1)] (by decide +kernel)
  have hchunks : split (rearm w).2.t.rdramBytes [(8, 2), (0, 0), (4, 1)] =
      .ok ([plainRegion 8 2, plainRegion 4 1], [1, 0, 1]) := by decide +kernel
  obtain ⟨rfl, _⟩ := Prod.mk.inj (Except.ok.inj (hsplit.symm.trans hchunks))
  have hans : AnsweredFrom ⟨64, UInt8.ofNat⟩ (batches [plainRegion 8 2, plainRegion 4 1]) (rearm w).2 :=
    ⟨by decide +kernel, trivial⟩
  exact hread _ hans

end Exchange

end Backend

end Multi64
