import Multi64.CodecRequests
import Multi64.MemHandle

/-! Replies from the agent to the host's parser, over any run of the agent:
what the one puts in is what the other takes out. -/

namespace Multi64

section Blocks

variable {b rest : Bytes} {off : Nat}

/-- Blocks, each behind its length. -/
def encodeBlocks (blocks : List Bytes) : Bytes := blocks.flatMap fun d => putBe16 (UInt16.ofNat d.length) ++ d

theorem parseRegions_blocks {blocks : List Bytes} (hshort : ∀ d ∈ blocks, d.length < 0x10000)
    (h : b.drop off = encodeBlocks blocks ++ rest) :
    parseRegions b blocks.length off = .ok (blocks, off + (encodeBlocks blocks).length) := by
  induction blocks generalizing off with
  | nil => rfl
  | cons d blocks ih =>
    simp only [encodeBlocks, List.flatMap_cons, List.append_assoc] at h
    obtain ⟨hb, hlen, h⟩ := readBe16_of_drop h
    have hd := hshort d List.mem_cons_self
    have hnat : (UInt16.ofNat d.length).toNat = d.length := by
      rw [UInt16.toNat_ofNat']
      omega
    have hbound := congrArg List.length h
    simp only [List.length_drop, List.length_append] at hbound
    have hslice : slice b (off + 2) d.length = d := by rw [slice, h, List.take_left' rfl]
    have hnext : b.drop (off + 2 + d.length) = encodeBlocks blocks ++ rest := by
      rw [← List.drop_drop, h, List.drop_left' rfl]
      rfl
    rw [List.length_cons, parseRegions, if_neg (by omega), hlen, hnat]
    simp only
    rw [if_neg (by omega), ih (fun x hx => hshort x (List.mem_cons_of_mem _ hx)) hnext, hslice]
    simp only [encodeBlocks, Except.map, List.flatMap_cons, List.length_append, putBe16_length, Nat.add_assoc]

theorem parseEvents_encode {es : List WatchEvent} (hshort : ∀ e ∈ es, e.bytes.length < 0x100)
    (h : b.drop off = es.flatMap WatchEvent.encode ++ rest) : parseEvents b es.length off = .ok es := by
  induction es generalizing off with
  | nil => rfl
  | cons e es ih =>
    simp only [List.flatMap_cons, WatchEvent.encode, List.append_assoc, List.cons_append, List.nil_append] at h
    obtain ⟨_, hslot, h⟩ := byteAt_of_drop h
    obtain ⟨hb, hlen, h⟩ := byteAt_of_drop h
    have he := hshort e List.mem_cons_self
    have hnat : (UInt8.ofNat e.bytes.length).toNat = e.bytes.length := by
      rw [UInt8.toNat_ofNat']
      omega
    have hbound := congrArg List.length h
    simp only [List.length_drop, List.length_append] at hbound
    have hslice : slice b (off + 2) e.bytes.length = e.bytes := by rw [slice, h, List.take_left' rfl]
    have hnext : b.drop (off + 2 + e.bytes.length) = es.flatMap WatchEvent.encode ++ rest := by
      rw [← List.drop_drop, h, List.drop_left' rfl]
    rw [List.length_cons, parseEvents, if_neg (by omega), hlen, hnat, hslot]
    simp only
    rw [if_neg (by omega), ih (fun x hx => hshort x (List.mem_cons_of_mem _ hx)) hnext, hslice]
    rfl

end Blocks

section Parse

/-- The parser takes what is behind the header by its message. -/
theorem parse_header (msg : M64pMsg) (b : Bytes) : parse (appHeader msg ++ b) =
    match msg with
    | .helloAck => parseHelloAck b
    | .peekvResp => parsePeek b false
    | .peekromResp => parsePeek b true
    | .pokeAck => if b.length < 3 then .error .truncated else .ok (.pokeAck (readBe16 b 0) (byteAt b 2))
    | .watchAck => if b.length < 3 then .error .truncated else .ok (.watchAck (readBe16 b 0) (byteAt b 2))
    | .err => if b.length < 3 then .error .truncated else .ok (.err (readBe16 b 0) (byteAt b 2))
    | msg => .error (.echoedRequest msg.code) := by
  have hours : ¬((appHeader msg ++ b).length < 5 ∨ (appHeader msg ++ b).take 4 ≠ m64pMagic) := by
    rw [List.length_append, appHeader_length]
    exact not_or.mpr ⟨by omega, not_not.mpr rfl⟩
  rw [parse, if_neg hours]
  simp only [show byteAt (appHeader msg ++ b) 4 = msg.code from rfl, show (appHeader msg ++ b).drop 5 = b from rfl]
  cases msg <;> rfl

theorem ack_reads (rid : UInt16) (n : UInt8) (rest : Bytes) :
    ¬(putBe16 rid ++ n :: rest).length < 3 ∧ readBe16 (putBe16 rid ++ n :: rest) 0 = rid ∧
      byteAt (putBe16 rid ++ n :: rest) 2 = n ∧ (putBe16 rid ++ n :: rest).drop 3 = rest := by
  refine ⟨?_, readBe16_putBe16 rid _, rfl, rfl⟩
  rw [List.length_append, putBe16_length, List.length_cons]
  omega

/-- Optional fields by their flags, in bit order. -/
theorem parseHelloAck_fields (proto flags slots : UInt8) (ver : UInt16) (rdram rom : UInt32) (rest : Bytes) :
    parseHelloAck ([proto] ++ putBe16 ver ++ putBe32 rdram ++ [flags] ++
        (if flags &&& m64pFlagCartRom ≠ 0 then putBe32 rom else []) ++
        (if flags &&& m64pFlagWatch ≠ 0 then [slots] else []) ++ rest) =
      .ok (.helloAck proto ver rdram flags (if flags &&& m64pFlagCartRom ≠ 0 then some rom else none)
        (if flags &&& m64pFlagWatch ≠ 0 then some slots else none)) := by
  generalize hb : [proto] ++ putBe16 ver ++ putBe32 rdram ++ [flags] ++
    (if flags &&& m64pFlagCartRom ≠ 0 then putBe32 rom else []) ++
    (if flags &&& m64pFlagWatch ≠ 0 then [slots] else []) ++ rest = b
  have hdrop : b.drop 0 = proto :: (putBe16 ver ++ (putBe32 rdram ++ (flags ::
      ((if flags &&& m64pFlagCartRom ≠ 0 then putBe32 rom else []) ++
        ((if flags &&& m64pFlagWatch ≠ 0 then [slots] else []) ++ rest))))) := by
    simp only [← hb, List.append_assoc, List.cons_append, List.nil_append, List.drop_zero]
  obtain ⟨_, hproto, hdrop⟩ := byteAt_of_drop hdrop
  obtain ⟨_, hver, hdrop⟩ := readBe16_of_drop hdrop
  obtain ⟨_, hrdram, hdrop⟩ := readBe32_of_drop hdrop
  obtain ⟨h8, hflags, hdrop⟩ := byteAt_of_drop hdrop
  simp only [Nat.zero_add, Nat.reduceAdd] at hver hrdram h8 hflags hdrop
  rw [parseHelloAck, if_neg (by omega), hproto, hver, hrdram, hflags]
  simp only
  by_cases hrom : flags &&& m64pFlagCartRom = 0
  · rw [if_neg (not_not.mpr hrom), List.nil_append] at hdrop
    by_cases hwatch : flags &&& m64pFlagWatch = 0
    · simp [hrom, hwatch]
    · rw [if_pos hwatch] at hdrop
      obtain ⟨hlt, hslots, -⟩ := byteAt_of_drop hdrop
      simp [hrom, hwatch, hlt, hslots]
  · rw [if_pos hrom] at hdrop
    obtain ⟨h12, hr, hdrop⟩ := readBe32_of_drop hdrop
    have hlong : ¬b.length < 12 := by omega
    by_cases hwatch : flags &&& m64pFlagWatch = 0
    · simp [hrom, hwatch, hlong, hr]
    · rw [if_pos hwatch] at hdrop
      obtain ⟨hlt, hslots, -⟩ := byteAt_of_drop hdrop
      simp only [Nat.reduceAdd] at hlt hslots
      simp [hrom, hwatch, hlong, hr, hlt, hslots]

end Parse

/-- A watched slot and a queued event are no longer than a slot may be. -/
structure MemProto.Sound (s : MemProto) : Prop where
  slots : ∀ w ∈ s.watch, w.len.toNat ≤ m64pWatchMaxLen
  events : ∀ e ∈ s.events.contents, e.bytes.length ≤ m64pWatchMaxLen

section Reach

theorem watchQueue_pos : 0 < m64pWatchQueue := by
  decide

/-- The statics as the build leaves them. -/
def MemProto.boot (ram : Rdram) : MemProto :=
  ⟨ram, [], ⟨fun _ => default, ⟨0, watchQueue_pos⟩, 0, Nat.zero_le _⟩, 0, 0, 0, 0, 0, 0, none⟩

/-- The states of an agent that is handed payloads and frames in any order,
while the game does what it wants with the memory. -/
inductive MemProto.Reached : MemProto → Prop where
  | boot (ram : Rdram) : Reached (boot ram)
  | handled {h : Hooks} {s s' : MemProto} {p reply : Bytes} (hs : Reached s)
      (hp : m64pHandle h s p = .ok (some (s', reply))) : Reached s'
  | tick {s : MemProto} (hs : Reached s) : Reached (m64pWatchTick s)
  | game {s : MemProto} (ram : Rdram) (hs : Reached s) : Reached { s with ram := ram }

theorem MemProto.Sound.clear (s : MemProto) : (watchClear s).Sound := ⟨nofun, nofun⟩

theorem MemProto.Sound.of_eq {s s' : MemProto} (h : s.Sound) (hw : s'.watch = s.watch)
    (he : ∀ e ∈ s'.events.contents, e ∈ s.events.contents) : s'.Sound :=
  ⟨fun w hmem => h.slots w (hw ▸ hmem), fun e hmem => h.events e (he e hmem)⟩

theorem peekTrailer_contents (s : MemProto) (used : Nat) :
    (peekTrailer s used).2.watch = s.watch ∧
      ∀ e ∈ (peekTrailer s used).2.events.contents, e ∈ s.events.contents := by
  rw [peekTrailer]
  split
  · exact ⟨rfl, fun _ he => he⟩
  · rw [watchTrailer]
    split
    · exact ⟨rfl, fun _ he => he⟩
    · refine ⟨rfl, fun e he => ?_⟩
      simp only [Ring.contents_dropFirst] at he
      exact List.mem_of_mem_drop he

theorem MemProto.Sound.perform {h : Hooks} {s : MemProto} {r : Request} (hs : s.Sound) (hf : r.Fits h s.ram.size) :
    (perform h s r).1.Sound := by
  cases r with
  | hello => exact .clear _
  | peekv rid rs =>
    obtain ⟨hw, he⟩ := peekTrailer_contents s (listReply .peekvResp rid rs.length (peekReply s.ram rs)).length
    exact hs.of_eq hw he
  | pokev rid rs => exact hs.of_eq rfl fun _ he => he
  | peekrom rid rs => exact hs.of_eq rfl fun _ he => he
  | watch rid slots =>
    refine ⟨fun w hw => ?_, nofun⟩
    obtain ⟨spec, hspec, rfl⟩ := List.mem_map.mp hw
    exact (hf.2 spec hspec).len_le

theorem MemProto.Sound.handled {h : Hooks} {s s' : MemProto} {p reply : Bytes} (hs : s.Sound)
    (hh : Handled h s p (some (s', reply))) : s'.Sound := by
  cases hh with
  | refused rid e hmsg hrid => exact hs.of_eq rfl fun _ he => he
  | repeated rid n hr => exact hs.of_eq rfl fun _ he => he
  | performed r rest he hf hr => exact (hs.perform hf).of_eq rfl fun _ he => he

theorem MemProto.Sound.push {s : MemProto} {e : WatchEvent} (hs : s.Sound)
    (he : e.bytes.length ≤ m64pWatchMaxLen) : (watchPush s e).Sound := by
  refine ⟨hs.slots, fun x hx => ?_⟩
  simp only [watchPush, Ring.contents_push] at hx
  split at hx
  · rcases List.mem_append.mp hx with hx | hx
    · exact hs.events x hx
    · exact List.mem_singleton.mp hx ▸ he
  · rcases List.mem_append.mp hx with hx | hx
    · exact hs.events x (List.mem_of_mem_drop hx)
    · exact List.mem_singleton.mp hx ▸ he

theorem watchSlotTick_len (ram : Rdram) (i : Nat) (w : WatchSlot) :
    (watchSlotTick ram i w).1.len = w.len ∧
      ∀ e, (watchSlotTick ram i w).2 = some e → e.bytes.length = w.len.toNat := by
  have hlen : ((List.range w.len.toNat).map fun j => ram.byte (w.addr.toNat + j)).length = w.len.toNat := by
    rw [List.length_map, List.length_range]
  unfold watchSlotTick
  simp only
  split
  · exact ⟨rfl, nofun⟩
  · split
    · exact ⟨rfl, nofun⟩
    · split
      · refine ⟨rfl, fun e he => ?_⟩
        obtain rfl := Option.some.inj he
        exact hlen
      · exact ⟨rfl, nofun⟩

theorem MemProto.Sound.tickLoop {ws : List WatchSlot} : ∀ {i : Nat} {s : MemProto}, s.Sound →
    (∀ w ∈ ws, w.len.toNat ≤ m64pWatchMaxLen) → (watchTickLoop i ws s).Sound := by
  induction ws with
  | nil => exact fun hs _ => hs
  | cons w ws ih =>
    intro i s hs hws
    have hw := hws w List.mem_cons_self
    obtain ⟨hlen, hev⟩ := watchSlotTick_len s.ram i w
    have hset : ({ s with watch := s.watch.set i (watchSlotTick s.ram i w).1 } : MemProto).Sound := by
      refine ⟨fun x hx => ?_, hs.events⟩
      rcases List.mem_or_eq_of_mem_set hx with hx | rfl
      · exact hs.slots x hx
      · rw [hlen]
        exact hw
    unfold watchTickLoop
    refine ih ?_ fun x hx => hws x (List.mem_cons_of_mem _ hx)
    cases he : (watchSlotTick s.ram i w).2 with
    | none => exact hset
    | some e => exact hset.push (by rw [hev e he]; exact hw)

theorem MemProto.Reached.sound {s : MemProto} (h : s.Reached) : s.Sound := by
  induction h with
  | boot ram => exact ⟨nofun, nofun⟩
  | handled _ hp ih =>
    obtain ⟨out, hout, hh⟩ := m64pHandle_spec _ _ _
    rw [hp] at hout
    obtain rfl := Except.ok.inj hout
    exact ih.handled hh
  | tick _ ih => exact ih.tickLoop ih.slots
  | game ram _ ih => exact ih.of_eq rfl fun _ he => he

end Reach

section Replies

def helloFlags (h : Hooks) : UInt8 :=
  m64pFlagWritable ||| (if h.pokeOnce then m64pFlagPokeOnce else 0) |||
    (if h.romSize ≠ 0 then m64pFlagCartRom else 0) ||| m64pFlagWatch

/-- The events and the drop count behind a PEEKV reply of `used` bytes. -/
def trailerData (s : MemProto) (used : Nat) : List WatchEvent × UInt16 :=
  if s.watch = [] ∨ m64pAppCap - used < 3 then ([], 0)
  else (trailerEvents (m64pAppCap - used) s.events.contents 3, s.dropped)

/-- What the agent answers a request it serves. -/
def Request.response (h : Hooks) (s : MemProto) : Request → Response
  | .hello =>
    .helloAck m64pProtoVersion 0x0100 s.ram.size (helloFlags h) (if h.romSize ≠ 0 then some h.romSize else none)
      (some (UInt8.ofNat m64pWatchSlots))
  | .peekv rid rs =>
    let t := trailerData s (8 + (2 * rs.length + totalLen rs))
    .peekV rid (rs.map fun r => s.ram.bytes r.addr.toNat r.len.toNat) t.1 t.2
  | .pokev rid rs => .pokeAck rid (UInt8.ofNat rs.length)
  | .peekrom rid rs =>
    .peekRom rid (rs.map fun r => (List.range r.len.toNat).map fun j => h.rom (r.addr.toNat + j))
  | .watch rid slots => .watchAck rid (UInt8.ofNat slots.length)

variable {h : Hooks} {s : MemProto} {rid : UInt16}

theorem trailerEvents_prefix (room : Nat) (es : List WatchEvent) (at_ : Nat) : trailerEvents room es at_ <+: es := by
  induction es generalizing at_ with
  | nil => exact List.prefix_refl _
  | cons e es ih =>
    rw [trailerEvents]
    split
    · exact List.nil_prefix
    · exact (List.prefix_cons_inj e).mpr (ih _)

theorem parseTrailer_reads {b : Bytes} {off used : Nat} (hs : s.Sound)
    (h : b.drop off = (peekTrailer s used).1) : parseTrailer b off = .ok (trailerData s used) := by
  have hlen := congrArg List.length h
  rw [List.length_drop] at hlen
  rw [parseTrailer, trailerData]
  by_cases hnone : s.watch = [] ∨ m64pAppCap - used < 3
  · have hnil : (peekTrailer s used).1 = [] := by
      rw [peekTrailer]
      split
      · rfl
      next hw => rw [watchTrailer, if_pos (hnone.resolve_left hw)]
    rw [hnil, List.length_nil] at hlen
    rw [if_pos hnone, if_neg (by omega)]
  · obtain ⟨hwatch, hroom⟩ := not_or.mp hnone
    rw [peekTrailer, if_neg hwatch, watchTrailer, if_neg hroom] at h
    simp only [List.cons_append, List.nil_append] at h
    have hpre := trailerEvents_prefix (m64pAppCap - used) s.events.contents 3
    have hcount := hpre.length_le
    have hcap := s.events.count_le
    have hq : m64pWatchQueue = 16 := rfl
    rw [Ring.contents_length] at hcount
    have hmax : m64pWatchMaxLen = 8 := rfl
    have hshort : ∀ e ∈ trailerEvents (m64pAppCap - used) s.events.contents 3, e.bytes.length < 0x100 := by
      intro e he
      have hle := hs.events e (hpre.subset he)
      omega
    obtain ⟨_, hn, h⟩ := byteAt_of_drop h
    obtain ⟨hb, hdropped, h⟩ := readBe16_of_drop h
    have hnat : (UInt8.ofNat (trailerEvents (m64pAppCap - used) s.events.contents 3).length).toNat =
        (trailerEvents (m64pAppCap - used) s.events.contents 3).length := by
      rw [UInt8.toNat_ofNat']
      omega
    have hevents : b.drop (off + 3) =
        (trailerEvents (m64pAppCap - used) s.events.contents 3).flatMap WatchEvent.encode ++ [] := by
      rw [List.append_nil]
      exact h
    rw [if_neg hnone, if_pos (by omega), hn, hnat, hdropped, parseEvents_encode hshort hevents]
    rfl

theorem peekReply_blocks (ram : Rdram) (rs : List (Region false)) :
    peekReply ram rs = encodeBlocks (rs.map fun r => ram.bytes r.addr.toNat r.len.toNat) := by
  simp only [peekReply, encodeBlocks, List.flatMap_map, Rdram.bytes_length, UInt16.ofNat_toNat]

theorem romReply_blocks (h : Hooks) (rs : List (Region false)) : romReply h rs =
    encodeBlocks (rs.map fun r => (List.range r.len.toNat).map fun j => h.rom (r.addr.toNat + j)) := by
  simp only [romReply, encodeBlocks, List.flatMap_map, List.length_map, List.length_range, UInt16.ofNat_toNat]

/-- The blocks of a list reply, whatever is behind them. -/
theorem parsePeek_list (rid : UInt16) {blocks : List Bytes} (tail : Bytes) (rom : Bool) (hn : blocks.length < 0x100)
    (hshort : ∀ d ∈ blocks, d.length < 0x10000) :
    parsePeek (putBe16 rid ++ UInt8.ofNat blocks.length :: (encodeBlocks blocks ++ tail)) rom =
      if rom then .ok (.peekRom rid blocks)
      else (parseTrailer (putBe16 rid ++ UInt8.ofNat blocks.length :: (encodeBlocks blocks ++ tail))
        (3 + (encodeBlocks blocks).length)).map fun t => .peekV rid blocks t.1 t.2 := by
  obtain ⟨hlen, hrid, hcount, hdrop⟩ := ack_reads rid (UInt8.ofNat blocks.length) (encodeBlocks blocks ++ tail)
  have hnat : (UInt8.ofNat blocks.length).toNat = blocks.length := by
    rw [UInt8.toNat_ofNat']
    omega
  rw [parsePeek, if_neg hlen, hcount, hnat, parseRegions_blocks hshort hdrop, hrid]
  cases rom with
  | true => rfl
  | false =>
    simp only [bind, Except.bind, Bool.false_eq_true, if_false]
    cases parseTrailer (putBe16 rid ++ UInt8.ofNat blocks.length :: (encodeBlocks blocks ++ tail))
      (3 + (encodeBlocks blocks).length) <;> rfl

theorem RegionsFit.blocks {space : UInt32} {rs : List (Region false)} (hf : RegionsFit space rs)
    (f : Region false → Bytes) (hlen : ∀ r, (f r).length = r.len.toNat) :
    (rs.map f).length < 0x100 ∧ ∀ d ∈ rs.map f, d.length < 0x10000 := by
  have hc := hf.count
  have hmax : m64pMaxRegions = 32 := rfl
  refine ⟨by rw [List.length_map]; omega, fun d hd => ?_⟩
  obtain ⟨r, -, rfl⟩ := List.mem_map.mp hd
  rw [hlen]
  exact r.len.toNat_lt

theorem parse_hello (h : Hooks) (s : MemProto) :
    parse (perform h s .hello).2 = .ok (Request.hello.response h s) := by
  have hrom : helloFlags h &&& m64pFlagCartRom ≠ 0 ↔ h.romSize ≠ 0 := by
    unfold helloFlags
    by_cases hp : h.pokeOnce = true <;> by_cases hr : h.romSize = 0 <;> simp [hp, hr] <;> decide
  have hwatch : helloFlags h &&& m64pFlagWatch ≠ 0 := by
    unfold helloFlags
    by_cases hp : h.pokeOnce = true <;> by_cases hr : h.romSize = 0 <;> simp [hp, hr] <;> decide
  have hfields := parseHelloAck_fields m64pProtoVersion (helloFlags h) (UInt8.ofNat m64pWatchSlots) 0x0100
    s.ram.size h.romSize []
  simp only [hrom, if_pos hwatch, List.append_nil] at hfields
  have hreply : (perform h s .hello).2 = appHeader .helloAck ++ ([m64pProtoVersion] ++ putBe16 0x0100 ++
      putBe32 s.ram.size ++ [helloFlags h] ++ (if h.romSize ≠ 0 then putBe32 h.romSize else []) ++
      [UInt8.ofNat m64pWatchSlots]) := by
    simp only [perform, handleHello, watchClear, helloFlags, List.append_assoc]
  rw [hreply, parse_header]
  exact hfields

/-- What the agent answers a request it serves is what the host reads. -/
theorem parse_perform {r : Request} (hs : s.Sound) (hf : r.Fits h s.ram.size) :
    parse (perform h s r).2 = .ok (r.response h s) := by
  cases r with
  | hello => exact parse_hello h s
  | peekv rid rs =>
    obtain ⟨hn, hshort⟩ := RegionsFit.blocks hf (fun r => s.ram.bytes r.addr.toNat r.len.toNat)
      fun r => Rdram.bytes_length ..
    have hlen : (listReply .peekvResp rid rs.length (peekReply s.ram rs)).length =
        8 + (2 * rs.length + totalLen rs) := by
      rw [listReply_length, peekReply_length]
    have hblocks := peekReply_blocks s.ram rs
    have hlist := parsePeek_list rid (peekTrailer s (8 + (2 * rs.length + totalLen rs))).1 false hn hshort
    obtain ⟨-, -, -, hdrop⟩ := ack_reads rid (UInt8.ofNat rs.length)
      (peekReply s.ram rs ++ (peekTrailer s (8 + (2 * rs.length + totalLen rs))).1)
    have htail := parseTrailer_reads hs (show (putBe16 rid ++ UInt8.ofNat rs.length ::
        (peekReply s.ram rs ++ (peekTrailer s (8 + (2 * rs.length + totalLen rs))).1)).drop
          (3 + (peekReply s.ram rs).length) = (peekTrailer s (8 + (2 * rs.length + totalLen rs))).1 by
      rw [← List.drop_drop, hdrop, List.drop_left' rfl])
    have hreply : (perform h s (.peekv rid rs)).2 = appHeader .peekvResp ++ (putBe16 rid ++ UInt8.ofNat rs.length ::
        (peekReply s.ram rs ++ (peekTrailer s (8 + (2 * rs.length + totalLen rs))).1)) := by
      rw [← hlen]
      simp only [perform, listReply, List.append_assoc, List.cons_append, List.nil_append]
    rw [← hblocks, List.length_map] at hlist
    rw [hreply, parse_header]
    simp only [hlist, htail, Bool.false_eq_true, if_false]
    rfl
  | pokev rid rs =>
    obtain ⟨hlen, hrid, hcount, -⟩ := ack_reads rid (UInt8.ofNat rs.length) []
    simp only [perform, listReply, List.append_assoc, List.cons_append, List.nil_append]
    rw [parse_header]
    simp only [if_neg hlen, hrid, hcount]
    rfl
  | peekrom rid rs =>
    obtain ⟨hn, hshort⟩ := RegionsFit.blocks hf.2
      (fun r => (List.range r.len.toNat).map fun j => h.rom (r.addr.toNat + j))
      fun r => by rw [List.length_map, List.length_range]
    have hlist := parsePeek_list rid [] true hn hshort
    rw [← romReply_blocks, List.length_map, List.append_nil] at hlist
    simp only [perform, listReply, List.append_assoc, List.cons_append, List.nil_append]
    rw [parse_header]
    simp only [hlist, if_true]
    rfl
  | watch rid slots =>
    obtain ⟨hlen, hrid, hcount, -⟩ := ack_reads rid (UInt8.ofNat slots.length) []
    simp only [perform, listReply, List.append_assoc, List.cons_append, List.nil_append]
    rw [parse_header]
    simp only [if_neg hlen, hrid, hcount]
    rfl

/-- The replies the agent builds, and what it says in them. -/
inductive Says (h : Hooks) (s : MemProto) : Bytes → Response → Prop where
  | refused (rid : UInt16) (e : M64pErr) : Says h s (sendErr s rid e).2 (.err rid e.code)
  | repeated (rid : UInt16) (n : UInt8) (held : s.held = some (rid, n)) :
      Says h s (appHeader .pokeAck ++ putBe16 rid ++ [n]) (.pokeAck rid n)
  | performed (r : Request) (hf : r.Fits h s.ram.size) : Says h s (perform h s r).2 (r.response h s)

theorem parse_says {reply : Bytes} {resp : Response} (hs : s.Sound) (hsaid : Says h s reply resp) :
    parse reply = .ok resp := by
  cases hsaid with
  | refused rid e =>
    obtain ⟨hlen, hrid, hcode, -⟩ := ack_reads rid e.code []
    simp only [sendErr, List.append_assoc]
    rw [parse_header]
    simp only [if_neg hlen, hrid, hcode]
  | repeated rid n held =>
    obtain ⟨hlen, hrid, hcount, -⟩ := ack_reads rid n []
    rw [List.append_assoc, parse_header]
    simp only [if_neg hlen, hrid, hcount]
  | performed r hf => exact parse_perform hs hf

theorem Handled.says {s' : MemProto} {p reply : Bytes} (hh : Handled h s p (some (s', reply))) :
    ∃ resp, Says h s reply resp := by
  cases hh with
  | refused rid e hmsg hrid => exact ⟨_, .refused rid e⟩
  | repeated rid n hr => exact ⟨_, .repeated rid n hr.held⟩
  | performed r rest he hf hr => exact ⟨_, .performed r hf⟩

end Replies

/-- Host to agent: what an encoder accepts is read as the request it names, and
a watch of more slots than there are is refused by its rid. Agent to host: in
any state a run reaches, what the agent says is what the parser reads. -/
theorem codec_agrees :
    (∀ (req : HostRequest) (p : Bytes), req.encode = .ok p → ∀ (h : Hooks) (s : MemProto),
      ∃ r : Request, req.Spells r ∧ p = r.encode ∧
        ((∀ rid slots, r = .watch rid slots → slots.length ≤ m64pWatchSlots) →
          ∃ out, m64pDispatch h s p = .ok (some out) ∧ ReadAs h s r out) ∧
        ∀ rid slots, r = .watch rid slots → m64pWatchSlots < slots.length →
          m64pDispatch h s p = .ok (some (sendErr s rid .tooMany))) ∧
    ∀ s : MemProto, s.Reached → ∀ (h : Hooks) (p : Bytes) (s' : MemProto) (reply : Bytes),
      m64pHandle h s p = .ok (some (s', reply)) → ∃ resp, Says h s reply resp ∧ parse reply = .ok resp := by
  constructor
  · intro req p hp h s
    obtain ⟨r, hspell, hr, hlimits⟩ := HostRequest.encode_ok hp
    refine ⟨r, hspell, hr, fun hslots => ?_, fun rid slots hw hmany => ?_⟩
    · have hread := m64pDispatch_reads (h := h) (s := s) hlimits [] hslots
      rwa [List.append_nil, ← hr] at hread
    · subst hw
      have hbody : encodeList rid (slots.map SlotSpec.encode) = encodeList rid (slots.map SlotSpec.encode) ++ [] :=
        (List.append_nil _).symm
      have hmany := handleWatch_tooMany (s := s) hbody hmany hlimits.1
      rw [hr, Request.encode, m64pDispatch_header, hmany]
      rfl
  · intro s hs h p s' reply hp
    obtain ⟨out, hout, hh⟩ := m64pHandle_spec h s p
    rw [hp] at hout
    obtain rfl := Except.ok.inj hout
    obtain ⟨resp, hsaid⟩ := hh.says
    exact ⟨resp, hsaid, parse_says hs.sound hsaid⟩

/-- One byte written, and the acknowledgement read back. -/
theorem codec_agrees_poke :
    (∃ r : Request, (HostRequest.pokev 1 [(0, [7])]).Spells r ∧
      ∃ out, m64pDispatch bareHooks bareProto r.encode = .ok (some out) ∧ ReadAs bareHooks bareProto r out) ∧
    ∃ s' reply resp, m64pHandle bareHooks bareProto (pokeByte 1 0 7).encode = .ok (some (s', reply)) ∧
      Says bareHooks bareProto reply resp ∧ parse reply = .ok resp := by
  constructor
  · obtain ⟨r, hspell, hr, hread, -⟩ := codec_agrees.1 (.pokev 1 [(0, [7])]) _ rfl bareHooks bareProto
    rw [hr] at hread
    refine ⟨r, hspell, hread fun rid slots hw => ?_⟩
    obtain ⟨rs, hpoke, -⟩ := hspell
    exact nomatch hpoke.symm.trans hw
  · obtain ⟨resp, hsaid, hparse⟩ := codec_agrees.2 bareProto (.boot _) bareHooks (pokeByte 1 0 7).encode _ _ rfl
    exact ⟨_, _, resp, rfl, hsaid, hparse⟩

/-- Five slots, which the encoder takes and the agent does not. -/
theorem watch_five_refused : ∃ p, encodeWatch 7 (List.replicate 5 ⟨0, 1, 0, []⟩) = .ok p ∧
    m64pDispatch bareHooks bareProto p = .ok (some (sendErr bareProto 7 .tooMany)) ∧
    (sendErr bareProto 7 .tooMany).1.watch = [] :=
  ⟨_, rfl, rfl, rfl⟩

end Multi64
