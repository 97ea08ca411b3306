import Multi64.Backend
import Multi64.CodecRequests
import Multi64.Lib.Pack
import Multi64.MemHandle

/-! What a batch of writes comes to: its requests, and RDRAM once the agent
applied each of them. -/

namespace Multi64

section ByByte

variable {writes : List (UInt32 × Bytes)} {f : Nat → UInt8} {a : UInt32} {b : UInt8}

def writeEach (ram : Rdram) (writes : List (UInt32 × Bytes)) : Rdram :=
  writes.foldl (fun ram x => ram.write x.1.toNat x.2) ram

/-- The bytes of `writes` one by one, as the code numbers them. -/
def bytesOf (writes : List (UInt32 × Bytes)) : List (UInt32 × UInt8) :=
  writes.flatMap fun w => w.2.zipIdx.map fun x => (w.1 + UInt32.ofNat x.2, x.1)

def setByte (f : Nat → UInt8) (x : UInt32 × UInt8) : Nat → UInt8 := Function.update f x.1.toNat x.2

/-- Each write ends at or before `size`. -/
def InRange (size : UInt32) (writes : List (UInt32 × Bytes)) : Prop :=
  ∀ w ∈ writes, w.1.toNat + w.2.length ≤ size.toNat

theorem bytesOf_append (u v : List (UInt32 × Bytes)) : bytesOf (u ++ v) = bytesOf u ++ bytesOf v :=
  List.flatMap_append

theorem bytesOf_cons (w : UInt32 × Bytes) (rest : List (UInt32 × Bytes)) :
    bytesOf (w :: rest) = bytesOf [w] ++ bytesOf rest := bytesOf_append [w] rest

theorem ofNat_add (a : UInt32) (i j : Nat) : a + UInt32.ofNat i + UInt32.ofNat j = a + UInt32.ofNat (i + j) := by
  rw [UInt32.add_assoc, UInt32.ofNat_add]

theorem bytesOf_one_append (a : UInt32) (d e : Bytes) :
    bytesOf [(a, d ++ e)] = bytesOf [(a, d)] ++ bytesOf [(a + UInt32.ofNat d.length, e)] := by
  simp only [bytesOf, List.flatMap_cons, List.flatMap_nil, List.append_nil, List.zipIdx_append, List.map_append,
    Nat.zero_add]
  congr 1
  rw [List.zipIdx_eq_map_add, List.map_map]
  refine List.map_congr_left fun x _ => ?_
  simp only [Function.comp, ofNat_add, Nat.add_comm]

theorem write_bytes (d : Bytes) : ∀ (ram : Rdram) (a : UInt32), a.toNat + d.length < 2 ^ 32 →
    (ram.write a.toNat d).byte = (bytesOf [(a, d)]).foldl setByte ram.byte := by
  induction d with
  | nil =>
    intro ram a _
    rw [Rdram.write_nil]
    rfl
  | cons b d ih =>
    intro ram a ha
    rw [List.length_cons] at ha
    have hnext : (a + UInt32.ofNat 1).toNat = a.toNat + 1 := by
      rw [UInt32.toNat_add, UInt32.toNat_ofNat']
      omega
    have hcons := bytesOf_one_append a [b] d
    rw [List.singleton_append, List.length_singleton] at hcons
    have hfirst : bytesOf [(a, [b])] = [(a, b)] := by simp [bytesOf]
    rw [← Rdram.write_cons, ← hnext, ih _ _ (by omega), hcons, hfirst]
    rfl

/-- Writing in turn is setting byte after byte. -/
theorem writeEach_bytes {size : UInt32} (h : InRange size writes) (ram : Rdram) :
    writeEach ram writes = { ram with byte := (bytesOf writes).foldl setByte ram.byte } := by
  induction writes generalizing ram with
  | nil => rfl
  | cons w rest ih =>
    have hw := h w List.mem_cons_self
    have hsize := size.toNat_lt
    have hrest := ih (fun x hx => h x (List.mem_cons_of_mem _ hx)) (ram.write w.1.toNat w.2)
    have hfirst := write_bytes w.2 ram w.1 (by omega)
    rw [writeEach, List.foldl_cons, ← writeEach, hrest, Rdram.write_size, hfirst, ← List.foldl_append, ← bytesOf_cons]

end ByByte

section Chunks

variable {size : UInt32} {writes : List (UInt32 × Bytes)}

theorem chunkWrite_spec (n : Nat) : ∀ (a : UInt32) (d : Bytes), d.length ≤ n →
    bytesOf (chunkWrite a n d) = bytesOf [(a, d)] ∧
      (∀ c ∈ chunkWrite a n d, c.2 ≠ [] ∧ c.2.length ≤ m64pMaxRegionBytes) ∧
        (a.toNat + d.length ≤ size.toNat → InRange size (chunkWrite a n d)) := by
  have hmax : m64pMaxRegionBytes = 4096 := rfl
  induction n with
  | zero =>
    intro a d hd
    have hnil : d = [] := List.eq_nil_of_length_eq_zero (Nat.le_zero.mp hd)
    simp [hnil, chunkWrite, bytesOf, InRange]
  | succ n ih =>
    intro a d hd
    unfold chunkWrite
    by_cases hnil : d = []
    · simp [hnil, bytesOf, InRange]
    · rw [if_neg hnil]
      have hpos := List.length_pos_of_ne_nil hnil
      have hdrop : (d.drop m64pMaxRegionBytes).length ≤ n := by
        rw [List.length_drop]
        omega
      obtain ⟨hbytes, heach, hrange⟩ := ih (a + UInt32.ofNat m64pMaxRegionBytes) (d.drop m64pMaxRegionBytes) hdrop
      refine ⟨?_, ?_, ?_⟩
      · rw [bytesOf_cons, hbytes]
        by_cases hlong : m64pMaxRegionBytes ≤ d.length
        · have hsplit := bytesOf_one_append a (d.take m64pMaxRegionBytes) (d.drop m64pMaxRegionBytes)
          rw [List.take_append_drop, List.length_take, Nat.min_eq_left hlong] at hsplit
          exact hsplit.symm
        · have hshort : d.length ≤ m64pMaxRegionBytes := by omega
          rw [List.take_of_length_le hshort, List.drop_of_length_le hshort]
          simp [bytesOf]
      · intro c hc
        rcases List.mem_cons.mp hc with rfl | hc
        · constructor
          · simp [hnil, hmax]
          · rw [List.length_take]
            omega
        · exact heach c hc
      · intro ha c hc
        rcases List.mem_cons.mp hc with rfl | hc
        · simp only [List.length_take]
          omega
        · by_cases hlong : m64pMaxRegionBytes ≤ d.length
          · have hsize := size.toNat_lt
            refine hrange ?_ c hc
            rw [UInt32.toNat_add, UInt32.toNat_ofNat', List.length_drop]
            omega
          · have hshort : d.length ≤ m64pMaxRegionBytes := by omega
            rw [List.drop_of_length_le hshort] at hc
            cases n <;> simp [chunkWrite] at hc

theorem chunksOf_spec (writes : List (UInt32 × Bytes)) : bytesOf (chunksOf writes) = bytesOf writes ∧
    (∀ c ∈ chunksOf writes, c.2 ≠ [] ∧ c.2.length ≤ m64pMaxRegionBytes) ∧
      (InRange size writes → InRange size (chunksOf writes)) := by
  induction writes with
  | nil => simp [chunksOf, bytesOf, InRange]
  | cons w rest ih =>
    obtain ⟨hbytes, heach, hrange⟩ := @chunkWrite_spec size w.2.length w.1 w.2 (Nat.le_refl _)
    obtain ⟨hbytes', heach', hrange'⟩ := ih
    have hcons : chunksOf (w :: rest) = chunkWrite w.1 w.2.length w.2 ++ chunksOf rest := List.flatMap_cons
    rw [hcons]
    refine ⟨?_, ?_, ?_⟩
    · rw [bytesOf_append, hbytes, hbytes', ← bytesOf_cons]
    · intro c hc
      rcases List.mem_append.mp hc with hc | hc
      · exact heach c hc
      · exact heach' c hc
    · intro h c hc
      rcases List.mem_append.mp hc with hc | hc
      · exact hrange (h w List.mem_cons_self) c hc
      · exact hrange' (fun x hx => h x (List.mem_cons_of_mem _ hx)) c hc

end Chunks

section Coalesce

variable {m : List (UInt32 × UInt8)} {f : Nat → UInt8} {a : UInt32} {b : UInt8} {size : UInt32}

def Ascending (m : List (UInt32 × UInt8)) : Prop := m.Pairwise fun x y => x.1 < y.1

theorem setByte_late (h : ∀ x ∈ m, x.1 ≠ a) (f : Nat → UInt8) :
    m.foldl setByte (setByte f (a, b)) = setByte (m.foldl setByte f) (a, b) := by
  induction m generalizing f with
  | nil => rfl
  | cons x m ih =>
    have hne : x.1.toNat ≠ a.toNat := fun heq => h x List.mem_cons_self (UInt32.toNat_inj.mp heq)
    have hswap : setByte (setByte f (a, b)) x = setByte (setByte f x) (a, b) := Function.update_comm hne.symm _ _ _
    rw [List.foldl_cons, List.foldl_cons, hswap, ih fun y hy => h y (List.mem_cons_of_mem x hy)]

theorem mem_putByte {x : UInt32 × UInt8} (h : x ∈ putByte a b m) : x = (a, b) ∨ x ∈ m := by
  induction m with
  | nil => simpa [putByte] using h
  | cons y m ih =>
    unfold putByte at h
    split at h
    · simpa using h
    · split at h
      · rcases List.mem_cons.mp h with h | h
        · exact .inl h
        · exact .inr (List.mem_cons_of_mem y h)
      · rcases List.mem_cons.mp h with rfl | h
        · exact .inr List.mem_cons_self
        · rcases ih h with h | h
          · exact .inl h
          · exact .inr (List.mem_cons_of_mem y h)

theorem putByte_ascending (h : Ascending m) : Ascending (putByte a b m) := by
  induction m with
  | nil => simp [putByte, Ascending]
  | cons y m ih =>
    obtain ⟨hy, hm⟩ := List.pairwise_cons.mp h
    unfold putByte
    by_cases hlt : a < y.1
    · rw [if_pos hlt]
      refine List.pairwise_cons.mpr ⟨fun x hx => ?_, h⟩
      rcases List.mem_cons.mp hx with rfl | hx
      · exact hlt
      · exact UInt32.lt_trans hlt (hy x hx)
    · rw [if_neg hlt]
      by_cases heq : a = y.1
      · rw [if_pos heq]
        exact List.pairwise_cons.mpr ⟨fun x hx => heq ▸ hy x hx, hm⟩
      · rw [if_neg heq]
        refine List.pairwise_cons.mpr ⟨fun x hx => ?_, ih hm⟩
        rcases mem_putByte hx with rfl | hx
        · exact UInt32.lt_of_le_of_ne (UInt32.not_lt.mp hlt) fun h => heq h.symm
        · exact hy x hx

/-- A byte put in where it belongs is a byte set last. -/
theorem putByte_set (h : Ascending m) (f : Nat → UInt8) :
    (putByte a b m).foldl setByte f = setByte (m.foldl setByte f) (a, b) := by
  induction m generalizing f with
  | nil => rfl
  | cons y m ih =>
    obtain ⟨hy, hm⟩ := List.pairwise_cons.mp h
    unfold putByte
    by_cases hlt : a < y.1
    · rw [if_pos hlt]
      refine setByte_late (fun x hx => ?_) f
      rcases List.mem_cons.mp hx with rfl | hx
      · exact (UInt32.ne_of_lt hlt).symm
      · exact (UInt32.ne_of_lt (UInt32.lt_trans hlt (hy x hx))).symm
    · rw [if_neg hlt]
      by_cases heq : a = y.1
      · have hover : setByte f (a, b) = setByte (setByte f y) (a, b) := by
          simp [setByte, heq]
        have hne : ∀ x ∈ m, x.1 ≠ a := fun x hx => heq ▸ (UInt32.ne_of_lt (hy x hx)).symm
        rw [if_pos heq, List.foldl_cons, List.foldl_cons, hover, setByte_late hne]
      · rw [if_neg heq, List.foldl_cons, List.foldl_cons, ih hm]

theorem putWrite_bytes (m : List (UInt32 × UInt8)) (writes : List (UInt32 × Bytes)) :
    writes.foldl putWrite m = (bytesOf writes).foldl (fun m x => putByte x.1 x.2 m) m := by
  induction writes generalizing m with
  | nil => rfl
  | cons w rest ih =>
    rw [List.foldl_cons, ih, bytesOf_cons, List.foldl_append]
    simp [bytesOf, putWrite, List.foldl_map]

theorem putBytes_spec (bs : List (UInt32 × UInt8)) : ∀ m, Ascending m →
    Ascending (bs.foldl (fun m x => putByte x.1 x.2 m) m) ∧
      (∀ f, (bs.foldl (fun m x => putByte x.1 x.2 m) m).foldl setByte f = bs.foldl setByte (m.foldl setByte f)) ∧
        ∀ x ∈ bs.foldl (fun m x => putByte x.1 x.2 m) m, x ∈ m ∨ x ∈ bs := by
  induction bs with
  | nil => exact fun m h => ⟨h, fun _ => rfl, fun x hx => .inl hx⟩
  | cons y bs ih =>
    intro m h
    obtain ⟨hasc, hset, hmem⟩ := ih (putByte y.1 y.2 m) (putByte_ascending h)
    refine ⟨hasc, fun f => ?_, fun x hx => ?_⟩
    · rw [List.foldl_cons, hset, putByte_set h]
      rfl
    · rcases hmem x hx with hx | hx
      · rcases mem_putByte hx with rfl | hx
        · exact .inr List.mem_cons_self
        · exact .inl hx
      · exact .inr (List.mem_cons_of_mem y hx)

theorem bytesOf_one (x : UInt32 × UInt8) : bytesOf [(x.1, [x.2])] = [x] := by simp [bytesOf]

theorem runsOf_bytes (runs : List (UInt32 × Bytes)) (x : UInt32 × UInt8) :
    bytesOf (runsOf runs x).reverse = bytesOf runs.reverse ++ [x] := by
  unfold runsOf
  cases runs with
  | nil => exact bytesOf_one x
  | cons r rest =>
    simp only
    split
    next hnext =>
      rw [List.reverse_cons, List.reverse_cons, bytesOf_append, bytesOf_append, bytesOf_one_append, hnext, bytesOf_one,
        List.append_assoc]
    · rw [List.reverse_cons, bytesOf_append, bytesOf_one]

theorem runsOf_inRange {runs : List (UInt32 × Bytes)} {x : UInt32 × UInt8} (h : InRange size runs)
    (hx : x.1.toNat < size.toNat) : InRange size (runsOf runs x) := by
  have hsize := size.toNat_lt
  have hone : InRange size [(x.1, [x.2])] := by
    intro r hr
    obtain rfl := List.mem_singleton.mp hr
    exact hx
  unfold runsOf
  cases runs with
  | nil => exact hone
  | cons r rest =>
    have hr := h r List.mem_cons_self
    have hrest : InRange size rest := fun w hw => h w (List.mem_cons_of_mem r hw)
    simp only
    split
    next hnext =>
      have hnat := congrArg UInt32.toNat hnext
      rw [UInt32.toNat_add, UInt32.toNat_ofNat'] at hnat
      intro w hw
      rcases List.mem_cons.mp hw with rfl | hw
      · simp only [List.length_append, List.length_singleton]
        omega
      · exact hrest w hw
    · intro w hw
      rcases List.mem_cons.mp hw with rfl | hw
      · exact hone _ List.mem_cons_self
      · exact h w hw

theorem runs_spec (m : List (UInt32 × UInt8)) : ∀ runs : List (UInt32 × Bytes),
    bytesOf (m.foldl runsOf runs).reverse = bytesOf runs.reverse ++ m ∧
      (InRange size runs → (∀ x ∈ m, x.1.toNat < size.toNat) → InRange size (m.foldl runsOf runs)) := by
  induction m with
  | nil => exact fun runs => ⟨(List.append_nil _).symm, fun h _ => h⟩
  | cons x m ih =>
    intro runs
    obtain ⟨hbytes, hrange⟩ := ih (runsOf runs x)
    refine ⟨?_, fun h hm => hrange (runsOf_inRange h (hm x List.mem_cons_self)) fun y hy => ?_⟩
    · rw [List.foldl_cons, hbytes, runsOf_bytes, List.append_assoc, List.singleton_append]
    · exact hm y (List.mem_cons_of_mem x hy)

theorem bytesOf_inRange {writes : List (UInt32 × Bytes)} (h : InRange size writes) :
    ∀ x ∈ bytesOf writes, x.1.toNat < size.toNat := by
  have hsize := size.toNat_lt
  intro x hx
  obtain ⟨w, hw, hx⟩ := List.mem_flatMap.mp hx
  obtain ⟨⟨v, i⟩, hi, rfl⟩ := List.mem_map.mp hx
  have hlt := List.snd_lt_of_mem_zipIdx hi
  have hwr := h w hw
  simp only [UInt32.toNat_add, UInt32.toNat_ofNat']
  omega

/-- The runs set the bytes the writes set, each to its last value. -/
theorem coalesce_spec {writes : List (UInt32 × Bytes)} (h : InRange size writes) : InRange size (coalesce writes) ∧
    ∀ f, (bytesOf (coalesce writes)).foldl setByte f = (bytesOf writes).foldl setByte f := by
  obtain ⟨_, hset, hmem⟩ := putBytes_spec (bytesOf writes) [] .nil
  rw [← putWrite_bytes] at hset hmem
  obtain ⟨hbytes, hrange⟩ := @runs_spec size (writes.foldl putWrite []) []
  have hin : InRange size ((writes.foldl putWrite []).foldl runsOf []) := by
    refine hrange (fun w hw => nomatch hw) fun x hx => bytesOf_inRange h x ?_
    exact (hmem x hx).resolve_left fun hx => nomatch hx
  refine ⟨fun w hw => hin w (List.mem_reverse.mp hw), fun f => ?_⟩
  rw [coalesce, hbytes]
  exact hset f

end Coalesce

section Requests

variable {chunks : List (UInt32 × Bytes)}

/-- A list one request can carry. -/
structure WriteLimits (batch : List (UInt32 × Bytes)) : Prop where
  count : batch.length ≤ m64pMaxRegions
  each : ∀ c ∈ batch, c.2.length ≤ m64pMaxRegionBytes
  total : writtenBytes batch ≤ m64pMaxTotalBytes

theorem writeBatches_eq_pack (batch chunks : List (UInt32 × Bytes)) :
    writeBatches batch chunks = pack m64pMaxRegions m64pMaxTotalBytes (fun c => c.2.length) batch chunks := by
  induction chunks generalizing batch with
  | nil => rfl
  | cons c rest ih =>
    rw [writeBatches, pack, ih, ih]
    rfl

theorem writeBatches_spec (hchunks : ∀ c ∈ chunks, c.2.length ≤ m64pMaxRegionBytes) :
    (writeBatches [] chunks).flatten = chunks ∧ ∀ req ∈ writeBatches [] chunks, req ≠ [] ∧ WriteLimits req := by
  have heach : m64pMaxRegionBytes ≤ m64pMaxTotalBytes := by decide
  obtain ⟨hflat, hall⟩ := @pack_spec _ m64pMaxRegions m64pMaxTotalBytes (fun c => c.2.length) [] chunks (by decide)
    (fun c hc => (hchunks c hc).trans heach) ⟨Nat.zero_le _, Nat.zero_le _⟩
  rw [← writeBatches_eq_pack] at hflat hall
  rw [List.nil_append] at hflat
  refine ⟨hflat, fun req hreq => ⟨(hall req hreq).1, (hall req hreq).2.count, fun c hc => ?_, (hall req hreq).2.total⟩⟩
  exact hchunks c (hflat ▸ List.mem_flatten_of_mem hreq hc)

end Requests

section Agent

variable {h : Hooks} {s s' : MemProto} {p reply : Bytes} {batch : List (UInt32 × Bytes)}

theorem WriteLimits.encodes (hl : WriteLimits batch) (rid : UInt16) : ∃ p, encodePokev rid batch = .ok p := by
  have hfind : (batch.map (·.2.length)).find? (m64pMaxRegionBytes < ·) = none := by
    refine List.find?_eq_none.mpr fun n hn => ?_
    obtain ⟨c, hc, rfl⟩ := List.mem_map.mp hn
    have hle := hl.each c hc
    simpa using hle
  have hcheck : checkLimits (batch.map (·.2.length)) = .ok () := by
    rw [checkLimits, List.length_map, if_neg (Nat.not_lt.mpr hl.count), hfind]
    exact if_neg (Nat.not_lt.mpr hl.total)
  exact ⟨_, by rw [encodePokev, hcheck]; rfl⟩

theorem m64pServe_dispatch (poke : Bool) (hlen : 8 ≤ p.length) (hd : m64pDispatch h s p = .ok (some (s', reply))) :
    ∃ held, m64pServe h s p poke = .ok (some ({ s' with held := held }, reply)) := by
  unfold m64pServe
  rw [hd]
  simp only [bind, Except.bind, pure, Except.pure]
  split
  · rw [load16_eq (by omega), load8_eq (by omega)]
    exact ⟨_, rfl⟩
  · exact ⟨_, rfl⟩

/-- What is no repeat of the write held is dispatched. -/
theorem m64pHandle_dispatch (hlen : 8 ≤ p.length) (hr : ∀ rid n, ¬ Repeats h s p rid n)
    (hd : m64pDispatch h s p = .ok (some (s', reply))) :
    ∃ held, m64pHandle h s p = .ok (some ({ s' with held := held }, reply)) := by
  unfold m64pHandle
  cases hb : h.pokeOnce with
  | false => exact ⟨s'.held, hd⟩
  | true =>
    simp only [Bool.not_true, Bool.false_eq_true, if_false]
    split
    next rid applied hpoke hheld =>
      rw [load16_eq (by omega)]
      simp only [bind, Except.bind]
      split
      next hrid =>
        obtain ⟨count, rest, hp⟩ := poke_iff.mp hpoke
        exact absurd ⟨hb, hheld, count, rest, hrid ▸ hp⟩ (hr rid applied)
      · exact m64pServe_dispatch _ hlen hd
    · exact m64pServe_dispatch _ hlen hd

/-- The agent applies the batches in turn, each as one `POKEV` that is no
repeat of the write it holds. -/
inductive AppliedOnce (h : Hooks) : MemProto → List (List (UInt32 × Bytes)) → MemProto → Prop
  | nil (s : MemProto) : AppliedOnce h s [] s
  | cons {s s' s'' : MemProto} {batch : List (UInt32 × Bytes)} {rest : List (List (UInt32 × Bytes))} {rid : UInt16}
      {p reply : Bytes} (he : encodePokev rid batch = .ok p) (hr : ∀ rid n, ¬ Repeats h s p rid n)
      (hp : m64pHandle h s p = .ok (some (s', reply))) (hrest : AppliedOnce h s' rest s'') :
      AppliedOnce h s (batch :: rest) s''

theorem pokev_applied {rid : UInt16} (hrange : InRange s.ram.size batch) (he : encodePokev rid batch = .ok p)
    (hr : ∀ rid n, ¬ Repeats h s p rid n) (hp : m64pHandle h s p = .ok (some (s', reply))) :
    s'.ram = writeEach s.ram batch := by
  obtain ⟨rs, hspell, rfl, hlimits⟩ := encodePokev_ok he
  have hin : ∀ r ∈ rs, r.InRange s.ram.size := by
    intro r hmem
    have hc := hrange (r.addr, r.data) (hspell ▸ List.mem_map_of_mem hmem)
    rw [r.carries, if_pos rfl] at hc
    exact hc
  obtain ⟨out, hout, hread⟩ := m64pDispatch_reads (h := h) (s := s) (r := .pokev rid rs) hlimits [] fun _ _ heq => by cases heq
  rw [List.append_nil] at hout
  have hlen : 8 ≤ (Request.pokev rid rs).encode.length := by
    simp only [Request.encode, encodeList, List.length_append, appHeader_length, putBe16_length, List.length_singleton]
    omega
  cases hread with
  | performed hf =>
    obtain ⟨held, hheld⟩ := m64pHandle_dispatch hlen hr hout
    rw [hp] at hheld
    obtain ⟨rfl, _⟩ := Prod.mk.inj (Option.some.inj (Except.ok.inj hheld))
    simp only [Rdram.writeAll, writeEach, ← hspell, List.foldl_map]
  | outOfRange hnot => exact absurd hin hnot
  | noRom hmsg _ =>
    obtain ⟨_, _, heq⟩ := hmsg
    cases heq
  | busy hmsg _ =>
    obtain ⟨_, _, heq⟩ := hmsg
    cases heq

@[simp] theorem writeEach_size (ram : Rdram) (writes : List (UInt32 × Bytes)) :
    (writeEach ram writes).size = ram.size := by
  induction writes generalizing ram with
  | nil => rfl
  | cons w rest ih => exact ih (ram.write w.1.toNat w.2)

theorem AppliedOnce.ram {reqs : List (List (UInt32 × Bytes))} (ha : AppliedOnce h s reqs s')
    (hrange : InRange s.ram.size reqs.flatten) : s'.ram = writeEach s.ram reqs.flatten := by
  induction ha with
  | nil s => rfl
  | @cons s s₁ s₂ batch rest rid p reply he hr hp hrest ih =>
    have hfirst := pokev_applied (fun c hc => hrange c (List.mem_append_left _ hc)) he hr hp
    have hnext := ih (by
      rw [hfirst, writeEach_size]
      exact fun c hc => hrange c (List.mem_append_right _ hc))
    rw [hnext, hfirst, List.flatten_cons, writeEach, writeEach, writeEach, List.foldl_append]

end Agent

section Plan

variable {size : UInt32} {writes : List (UInt32 × Bytes)}

theorem inRange_of_check (h : Backend.checkWrites size writes = .ok ()) : InRange size writes := by
  induction writes with
  | nil => exact fun w hw => nomatch hw
  | cons w rest ih =>
    change (checkIn w.1 w.2.length size >>= fun _ => Backend.checkWrites size rest) = .ok () at h
    by_cases hw : size.toNat < w.1.toNat + w.2.length
    · rw [checkIn, if_pos hw] at h
      exact nomatch h
    · rw [checkIn, if_neg hw] at h
      intro x hx
      rcases List.mem_cons.mp hx with rfl | hx
      · exact Nat.not_lt.mp hw
      · exact ih h x hx

theorem bytesOf_eq_nil : bytesOf writes = [] ↔ ∀ w ∈ writes, w.2 = [] := by
  simp [bytesOf, List.flatMap_eq_nil_iff]

theorem coalesce_bytes_nil : bytesOf (coalesce writes) = [] ↔ bytesOf writes = [] := by
  have hm := putWrite_bytes [] writes
  have hbytes := (@runs_spec 0 (writes.foldl putWrite []) []).1
  rw [coalesce, hbytes, hm, List.reverse_nil, bytesOf, List.flatMap_nil, List.nil_append]
  constructor
  · intro h
    rcases List.eq_nil_or_concat (bytesOf writes) with hnil | ⟨front, x, hx⟩
    · exact hnil
    · rw [hx, List.concat_eq_append, List.foldl_append, List.foldl_cons, List.foldl_nil] at h
      revert h
      generalize front.foldl (fun m x => putByte x.1 x.2 m) [] = m
      intro h
      cases m with
      | nil => simp [putByte] at h
      | cons y m =>
        unfold putByte at h
        split at h
        · exact nomatch h
        · split at h <;> exact nomatch h
  · intro h
    rw [h]
    rfl

theorem writeChunks_spec (h : InRange size writes) :
    InRange size (Backend.writeChunks writes) ∧ (∀ c ∈ Backend.writeChunks writes, c.2.length ≤ m64pMaxRegionBytes) ∧
      ∀ ram, writeEach ram (Backend.writeChunks writes) = writeEach ram writes := by
  obtain ⟨hmerged, hset⟩ := coalesce_spec h
  obtain ⟨hbytes, heach, hrange⟩ := @chunksOf_spec size (coalesce writes)
  obtain ⟨hbytes', heach', hrange'⟩ := @chunksOf_spec size writes
  unfold Backend.writeChunks
  simp only
  split
  · refine ⟨hrange hmerged, fun c hc => (heach c hc).2, fun ram => ?_⟩
    rw [writeEach_bytes (hrange hmerged), writeEach_bytes h, hbytes, hset]
  · refine ⟨hrange' h, fun c hc => (heach' c hc).2, fun ram => ?_⟩
    rw [writeEach_bytes (hrange' h), writeEach_bytes h, hbytes']

/-- The requests of a batch in range keep the limits, are one where the merged
runs fit one, and applied once each leave what the writes in turn leave. -/
theorem writeMany_effect (h : Backend.checkWrites size writes = .ok ()) :
    let reqs := writeBatches [] (Backend.writeChunks writes)
    (∀ w : World, w.t.rdramBytes = size → Backend.writeMany writes w = Backend.pokeAll reqs w) ∧
      (∀ req ∈ reqs, req ≠ [] ∧ WriteLimits req ∧ ∀ rid, ∃ p, encodePokev rid req = .ok p) ∧
      (fitsOneRequest (chunksOf (coalesce writes)) = true →
        reqs.length = if ∀ w ∈ writes, w.2 = [] then 0 else 1) ∧
      ∀ (hooks : Hooks) (s s' : MemProto), s.ram.size = size → AppliedOnce hooks s reqs s' →
        s'.ram = writeEach s.ram writes := by
  intro reqs
  have hin := inRange_of_check h
  obtain ⟨hrange, heach, heffect⟩ := writeChunks_spec hin
  obtain ⟨hflat, hreqs⟩ := writeBatches_spec heach
  refine ⟨fun w hw => ?_, fun req hreq => ?_, fun hfits => ?_, fun hooks s s' hsize ha => ?_⟩
  · change (Backend.lift (Backend.checkWrites w.t.rdramBytes writes) >>= fun _ => Backend.pokeAll reqs) w = _
    rw [hw, h]
    rfl
  · exact ⟨(hreqs req hreq).1, (hreqs req hreq).2, (hreqs req hreq).2.encodes⟩
  · have hchunks : Backend.writeChunks writes = chunksOf (coalesce writes) := if_pos hfits
    have hnil : chunksOf (coalesce writes) = [] ↔ ∀ w ∈ writes, w.2 = [] := by
      rw [← bytesOf_eq_nil, ← coalesce_bytes_nil]
      constructor
      · intro hc
        rw [← (@chunksOf_spec 0 (coalesce writes)).1, hc]
        rfl
      · intro hb
        by_contra hne
        obtain ⟨c, hc⟩ := List.exists_mem_of_ne_nil _ hne
        rw [← (@chunksOf_spec 0 (coalesce writes)).1, bytesOf_eq_nil] at hb
        exact ((@chunksOf_spec 0 (coalesce writes)).2.1 c hc).1 (hb c hc)
    simp only [fitsOneRequest, Bool.and_eq_true, decide_eq_true_eq] at hfits
    have hone := @pack_fits _ m64pMaxRegions m64pMaxTotalBytes (fun c => c.2.length) [] (chunksOf (coalesce writes))
      (by simpa using hfits.1) (by simpa [writtenBytes] using hfits.2)
    rw [← writeBatches_eq_pack, ← hchunks, List.nil_append] at hone
    rw [← hchunks] at hnil
    simp only [reqs, hone]
    by_cases hall : ∀ w ∈ writes, w.2 = []
    · rw [if_pos hall, if_pos (hnil.mpr hall), List.length_nil]
    · rw [if_neg hall, if_neg (mt hnil.mp hall), List.length_singleton]
  · have hram := ha.ram (by rw [hflat, hsize]; exact hrange)
    rw [hram, hflat, heffect]

/-- Two bytes side by side, written one after the other, go out as one request. -/
theorem writeMany_effect_adjacent : ∃ s' reply,
    m64pHandle bareHooks bareProto (Request.pokev 1 [⟨4, 2, [7, 8], rfl⟩]).encode = .ok (some (s', reply)) ∧
      s'.ram = writeEach bareProto.ram [(5, [8]), (4, [7])] ∧
        (writeBatches [] (Backend.writeChunks [(5, [8]), (4, [7])])).length = 1 := by
  have h : Backend.checkWrites 64 [(5, [8]), (4, [7])] = .ok () := rfl
  obtain ⟨_, _, hfits, heffect⟩ := writeMany_effect h
  have hno : ∀ rid n, ¬ Repeats bareHooks bareProto (Request.pokev 1 [⟨4, 2, [7, 8], rfl⟩]).encode rid n :=
    fun rid n hr => nomatch hr.held
  exact ⟨_, _, rfl, heffect bareHooks bareProto _ rfl (.cons rfl hno rfl (.nil _)), by rw [hfits (by decide)]; decide⟩

end Plan

end Multi64
