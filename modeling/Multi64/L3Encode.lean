import Multi64.L3Stream

/-! The encoder of L3 frames beside the decoders: what it writes is what they
read, and the other way round. -/

namespace Multi64

inductive EncodeError where
  | payloadTooLarge (len max : Nat)
  | invalidChannel (v : UInt8)
  | invalidFrameType (v : UInt8)
  deriving DecidableEq, Repr

def FrameType.toU8 : FrameType → UInt8
  | .handshake => 0x01
  | .handshakeOk => 0x02
  | .handshakeReject => 0x03
  | .data => 0x10
  | .ack => 0x11
  | .error => 0x12
  | .heartbeat => 0x20
  | .heartbeatAck => 0x21
  | .sessionOpen => 0x30
  | .sessionOpenOk => 0x31
  | .sessionClose => 0x32
  | .sessionCloseAck => 0x33

def Channel.toU8 : Channel → UInt8
  | .application => 0x00
  | .log => 0x01
  | .control => 0x02
  | .experimental v => v

def encodeFrameWithCap (frame : Frame) (maxPayload : Option UInt32) : Except EncodeError Bytes :=
  let plen := frame.payload.length
  let max := (maxPayload.map fun m => min m.toNat maxPayloadCeiling).getD maxPayloadCeiling
  if max < plen then .error (.payloadTooLarge plen max)
  else
    let ty := frame.ty.toU8
    if (FrameType.fromU8 ty).isNone then .error (.invalidFrameType ty)
    else
      -- A round trip, so `experimental` with a standard or reserved value is refused too.
      let ch := frame.channel.toU8
      if Channel.fromU8 ch ≠ some frame.channel then .error (.invalidChannel ch)
      else .ok (magic ++ (ty :: ch :: (putBe16 frame.flags ++ (putBe32 frame.requestId ++ (putBe32 (.ofNat plen) ++ frame.payload)))))

def Frame.encode (frame : Frame) : Except EncodeError Bytes := encodeFrameWithCap frame none

def Frame.decode (buf : Bytes) : Except DecodeError (Frame × Nat) := decodeFrame buf

section Header

variable {b t : Bytes} {h : Header}

/-- The sixteen bytes of a header. -/
def Header.bytes (h : Header) : Bytes :=
  magic ++ (h.ty.toU8 :: h.channel.toU8 :: (putBe16 h.flags ++ (putBe32 h.requestId ++ putBe32 (.ofNat h.payloadLen))))

/-- A header within the limits of the decoder. -/
structure Header.Admitted (h : Header) : Prop where
  channel : Channel.fromU8 h.channel.toU8 = some h.channel
  payloadLen : h.payloadLen ≤ maxPayloadCeiling

@[simp] theorem Header.bytes_length (h : Header) : h.bytes.length = headerLen := rfl

@[simp] theorem FrameType.fromU8_toU8 (ty : FrameType) : FrameType.fromU8 ty.toU8 = some ty := by cases ty <;> rfl

theorem FrameType.toU8_fromU8 {v : UInt8} {ty : FrameType} (hv : FrameType.fromU8 v = some ty) : ty.toU8 = v := by
  apply UInt8.toNat_inj.mp
  unfold FrameType.fromU8 at hv
  split at hv <;> simp at hv <;> subst hv <;> simp_all [FrameType.toU8]

theorem Channel.toU8_fromU8 {v : UInt8} {ch : Channel} (hv : Channel.fromU8 v = some ch) : ch.toU8 = v := by
  unfold Channel.fromU8 at hv
  split_ifs at hv with h0 h1 h2 hexp
  · obtain rfl := Option.some.inj hv
    exact h0.symm
  · obtain rfl := Option.some.inj hv
    exact h1.symm
  · obtain rfl := Option.some.inj hv
    exact h2.symm
  · obtain rfl := Option.some.inj hv
    rfl

theorem parseHeader_bytes (hh : h.Admitted) (t : Bytes) : parseHeader (h.bytes ++ t) = .ok h := by
  have hsize : (UInt32.ofNat h.payloadLen).toNat = h.payloadLen := by
    have hmax := hh.payloadLen
    rw [UInt32.toNat_ofNat']
    simp only [maxPayloadCeiling] at hmax
    omega
  have hlen : ¬(h.bytes ++ t).length < headerLen := by
    rw [List.length_append, Header.bytes_length]
    omega
  have hmagic : (h.bytes ++ t).take 4 = magic := rfl
  have hty : byteAt (h.bytes ++ t) 4 = h.ty.toU8 := rfl
  have hch : byteAt (h.bytes ++ t) 5 = h.channel.toU8 := rfl
  have hflags : readBe16 (h.bytes ++ t) 6 = h.flags := readBe16_putBe16 h.flags []
  have hid : readBe32 (h.bytes ++ t) 8 = h.requestId := readBe32_putBe32 h.requestId []
  have hplen : readBe32 (h.bytes ++ t) 12 = .ofNat h.payloadLen := readBe32_putBe32 (.ofNat h.payloadLen) []
  simp only [parseHeader, if_neg hlen, hmagic, ne_eq, not_true_eq_false, if_false, hty, hch, FrameType.fromU8_toU8,
    hh.channel, hplen, hsize, if_neg (Nat.not_lt.mpr hh.payloadLen), hflags, hid]

/-- What the decoder takes for a header is the header written out. -/
theorem parseHeader_ok (hb : parseHeader b = .ok h) : h.Admitted ∧ b = h.bytes ++ b.drop headerLen := by
  unfold parseHeader at hb
  by_cases hlen : b.length < headerLen
  · simp [hlen] at hb
  by_cases hmagic : b.take 4 = magic
  · cases hty : FrameType.fromU8 (byteAt b 4) with
    | none => simp [hlen, hmagic, hty] at hb
    | some ty =>
      cases hch : Channel.fromU8 (byteAt b 5) with
      | none => simp [hlen, hmagic, hty, hch] at hb
      | some ch =>
        by_cases hmax : maxPayloadCeiling < (readBe32 b 12).toNat
        · simp [hlen, hmagic, hty, hch, hmax] at hb
        simp only [if_neg hlen, hmagic, ne_eq, not_true_eq_false, if_false, hty, hch, if_neg hmax] at hb
        obtain rfl := Except.ok.inj hb
        have h16 : 16 ≤ b.length := Nat.not_lt.mp hlen
        have hbody : b.drop 4 = byteAt b 4 :: byteAt b 5 :: (putBe16 (readBe16 b 6) ++
            (putBe32 (readBe32 b 8) ++ (putBe32 (readBe32 b 12) ++ b.drop 16))) := by
          rw [drop_eq_byteAt_cons (by omega), drop_eq_byteAt_cons (by omega), drop_eq_readBe16 (by omega),
            drop_eq_readBe32 (by omega), drop_eq_readBe32 (by omega)]
        refine ⟨⟨by rw [Channel.toU8_fromU8 hch]; exact hch, Nat.not_lt.mp hmax⟩, ?_⟩
        calc b = b.take 4 ++ b.drop 4 := (List.take_append_drop 4 b).symm
          _ = _ := by
            rw [hmagic, hbody]
            simp only [Header.bytes, FrameType.toU8_fromU8 hty, Channel.toU8_fromU8 hch, UInt32.ofNat_toNat,
              List.append_assoc, List.cons_append, headerLen]
  · simp [hlen, hmagic] at hb

end Header

section Codec

variable {f : Frame} {b : Bytes} {n : Nat}

def Frame.header (f : Frame) : Header := ⟨f.ty, f.channel, f.flags, f.requestId, f.payload.length⟩

theorem Frame.encode_ok : f.encode = .ok b ↔ f.header.Admitted ∧ b = f.header.bytes ++ f.payload := by
  unfold Frame.encode encodeFrameWithCap
  by_cases hmax : maxPayloadCeiling < f.payload.length
  · have hno : ¬f.header.Admitted := fun ha => Nat.not_lt.mpr ha.payloadLen hmax
    simp [hmax, hno]
  · by_cases hch : Channel.fromU8 f.channel.toU8 = some f.channel
    · have ha : f.header.Admitted := ⟨hch, Nat.not_lt.mp hmax⟩
      have hbytes : f.header.bytes ++ f.payload = magic ++ (f.ty.toU8 :: f.channel.toU8 :: (putBe16 f.flags ++
          (putBe32 f.requestId ++ (putBe32 (.ofNat f.payload.length) ++ f.payload)))) := by
        simp only [Header.bytes, Frame.header, List.append_assoc, List.cons_append]
      simp [hmax, hch, ha, hbytes, eq_comm]
    · have hno : ¬f.header.Admitted := fun ha => hch ha.channel
      simp [hmax, hch, hno]

theorem Frame.decode_append (ha : f.header.Admitted) (t : Bytes) :
    Frame.decode (f.header.bytes ++ f.payload ++ t) = .ok (f, (f.header.bytes ++ f.payload).length) := by
  have htotal : f.header.total = (f.header.bytes ++ f.payload).length := by
    rw [List.length_append, Header.bytes_length]
    rfl
  have hpayload : slice (f.header.bytes ++ f.payload ++ t) headerLen f.header.payloadLen = f.payload := by
    rw [slice, List.append_assoc, List.drop_left' (Header.bytes_length _)]
    exact List.take_left
  have hlen : ¬(f.header.bytes ++ f.payload ++ t).length < f.header.total := by
    rw [htotal, Nat.not_lt]
    exact (List.prefix_append _ t).length_le
  have hparse : parseHeader (f.header.bytes ++ f.payload ++ t) = .ok f.header := by
    rw [List.append_assoc]
    exact parseHeader_bytes ha _
  simp only [Frame.decode, decodeFrame, hparse, if_neg hlen, hpayload]
  exact congrArg (fun n => Except.ok (f, n)) htotal

/-- The decoder takes a frame off the front of a string just when the string
starts with what the encoder writes for it. -/
theorem Frame.decode_ok_iff (f : Frame) (b : Bytes) (n : Nat) :
    Frame.decode b = .ok (f, n) ↔ n ≤ b.length ∧ f.encode = .ok (b.take n) := by
  constructor
  · intro h
    simp only [Frame.decode, decodeFrame] at h
    cases hparse : parseHeader b with
    | error e => simp [hparse] at h
    | ok hd =>
      obtain ⟨ha, hb⟩ := parseHeader_ok hparse
      by_cases hlen : b.length < hd.total
      · simp [hparse, hlen] at h
      simp only [hparse, if_neg hlen] at h
      obtain ⟨rfl, rfl⟩ := Prod.mk.inj (Except.ok.inj h)
      have hsize : (slice b headerLen hd.payloadLen).length = hd.payloadLen := slice_length (Nat.not_lt.mp hlen)
      have hheader : (hd.intoFrame (slice b headerLen hd.payloadLen)).header = hd := by
        simp only [Frame.header, Header.intoFrame, hsize]
      refine ⟨Nat.not_lt.mp hlen, Frame.encode_ok.mpr ?_⟩
      rw [hheader]
      refine ⟨ha, ?_⟩
      calc b.take hd.total = (hd.bytes ++ b.drop headerLen).take (hd.bytes.length + hd.payloadLen) := by rw [← hb]; rfl
        _ = _ := List.take_length_add_append _
  · rintro ⟨hlen, h⟩
    obtain ⟨ha, hb⟩ := Frame.encode_ok.mp h
    have hn : n = (f.header.bytes ++ f.payload).length := by rw [← hb, List.length_take, Nat.min_eq_left hlen]
    have hall := Frame.decode_append ha (b.drop n)
    rw [← hb, List.take_append_drop] at hall
    rw [hall, hb, ← hn]

/-- Encoding succeeds just where the limits of the decoder admit the frame, what
it writes decodes to the frame with nothing left over, and what decodes is what
is written for it. -/
theorem Frame.codec (f : Frame) (b : Bytes) :
    ((∃ bytes, f.encode = .ok bytes) ↔ f.header.Admitted) ∧
      ((∃ bytes, f.encode = .ok bytes) ↔ ∃ buf n, Frame.decode buf = .ok (f, n)) ∧
      (f.encode = .ok b ↔ Frame.decode b = .ok (f, b.length)) ∧
      ∀ n, Frame.decode b = .ok (f, n) ↔ n ≤ b.length ∧ f.encode = .ok (b.take n) := by
  have hwhole (b : Bytes) : f.encode = .ok b ↔ Frame.decode b = .ok (f, b.length) := by
    rw [Frame.decode_ok_iff, List.take_length]
    exact (and_iff_right (Nat.le_refl _)).symm
  refine ⟨⟨?_, ?_⟩, ⟨?_, ?_⟩, hwhole b, Frame.decode_ok_iff f b⟩
  · rintro ⟨bytes, h⟩
    exact (Frame.encode_ok.mp h).1
  · exact fun ha => ⟨_, Frame.encode_ok.mpr ⟨ha, rfl⟩⟩
  · rintro ⟨bytes, h⟩
    exact ⟨bytes, bytes.length, (hwhole bytes).mp h⟩
  · rintro ⟨buf, n, h⟩
    exact ⟨_, ((Frame.decode_ok_iff f buf n).mp h).2⟩

/-- Frames sent one after the other come out of the stream decoder again,
however the stream is cut. -/
theorem StreamDecoder.pushAll_encoded {frames : List Frame} {parts chunks : List Bytes}
    (henc : frames.map Frame.encode = parts.map .ok) (hcut : chunks.flatten = parts.flatten) :
    (StreamDecoder.new.pushAll chunks).1 = frames := by
  rw [StreamDecoder.pushAll_frames, hcut]
  clear hcut
  induction frames generalizing parts with
  | nil =>
    cases parts with
    | nil =>
      unfold referenceFrames
      rfl
    | cons b parts => nomatch henc
  | cons f frames ih =>
    cases parts with
    | nil => nomatch henc
    | cons b parts =>
      obtain ⟨hfirst, hrest⟩ := List.cons.inj henc
      obtain ⟨ha, rfl⟩ := Frame.encode_ok.mp hfirst
      have hdecode := Frame.decode_append ha parts.flatten
      have htotal : f.header.total = (f.header.bytes ++ f.payload).length := by
        rw [List.length_append, Header.bytes_length]
        rfl
      have hmagic : findMagic (f.header.bytes ++ f.payload ++ parts.flatten) = some 0 := findMagic_zero rfl
      have hparse : parseHeader (f.header.bytes ++ f.payload ++ parts.flatten) = .ok f.header := by
        rw [List.append_assoc]
        exact parseHeader_bytes ha _
      have hlen : f.header.total ≤ (f.header.bytes ++ f.payload ++ parts.flatten).length := by
        rw [htotal]
        exact (List.prefix_append _ parts.flatten).length_le
      have hhead := f.header.total_ge
      simp only [Frame.decode, decodeFrame, hparse, if_neg (Nat.not_lt.mpr hlen)] at hdecode
      have hframe := (Prod.mk.inj (Except.ok.inj hdecode)).1
      rw [List.flatten_cons, referenceFrames]
      simp only [hmagic, List.drop_zero, hparse]
      rw [dif_neg (by omega), if_neg (Nat.not_lt.mpr hlen), hframe, htotal, List.drop_left, ih hrest]

end Codec

end Multi64
