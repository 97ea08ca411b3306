import Multi64.Lib.Bytes
import Multi64.Lib.Scan

/-! L3 frames and the two decoders of the bridge protocol: one whole frame,
and a byte stream that arrives in pieces. -/

namespace Multi64

def magic : Bytes := [0x4D, 0x36, 0x34, 0x42]

def headerLen : Nat := 16

/-- The largest `MAX_PAYLOAD` a handshake can negotiate. -/
def maxPayloadCeiling : Nat := 1048576

inductive FrameType where
  | handshake | handshakeOk | handshakeReject
  | data | ack | error
  | heartbeat | heartbeatAck
  | sessionOpen | sessionOpenOk | sessionClose | sessionCloseAck
  deriving DecidableEq, Repr

def FrameType.fromU8 (v : UInt8) : Option FrameType :=
  match v.toNat with
  | 0x01 => some .handshake
  | 0x02 => some .handshakeOk
  | 0x03 => some .handshakeReject
  | 0x10 => some .data
  | 0x11 => some .ack
  | 0x12 => some .error
  | 0x20 => some .heartbeat
  | 0x21 => some .heartbeatAck
  | 0x30 => some .sessionOpen
  | 0x31 => some .sessionOpenOk
  | 0x32 => some .sessionClose
  | 0x33 => some .sessionCloseAck
  | _ => none

/-- `experimental` is for `0x80` and above; the reserved values between have
no constructor. -/
inductive Channel where
  | application | log | control
  | experimental (v : UInt8)
  deriving DecidableEq, Repr

def Channel.fromU8 (v : UInt8) : Option Channel :=
  if v = 0x00 then some .application
  else if v = 0x01 then some .log
  else if v = 0x02 then some .control
  else if 0x80 ≤ v then some (.experimental v)
  else none

structure Frame where
  ty : FrameType
  channel : Channel
  flags : UInt16
  requestId : UInt32
  payload : Bytes
  deriving DecidableEq, Repr

inductive DecodeError where
  | tooShort
  | badMagic
  | unknownFrameType (v : UInt8)
  | invalidChannel (v : UInt8)
  | payloadTooLarge (len : UInt32)
  deriving DecidableEq, Repr

/-- A 16-byte header whose fields all passed validation. -/
structure Header where
  ty : FrameType
  channel : Channel
  flags : UInt16
  requestId : UInt32
  payloadLen : Nat
  deriving DecidableEq, Repr

def Header.intoFrame (h : Header) (payload : Bytes) : Frame :=
  ⟨h.ty, h.channel, h.flags, h.requestId, payload⟩

def Header.total (h : Header) : Nat := headerLen + h.payloadLen

def parseHeader (buf : Bytes) : Except DecodeError Header :=
  if buf.length < headerLen then .error .tooShort
  else if buf.take 4 ≠ magic then .error .badMagic
  else
    match FrameType.fromU8 (byteAt buf 4) with
    | none => .error (.unknownFrameType (byteAt buf 4))
    | some ty =>
      match Channel.fromU8 (byteAt buf 5) with
      | none => .error (.invalidChannel (byteAt buf 5))
      | some channel =>
        let payloadLen := readBe32 buf 12
        if maxPayloadCeiling < payloadLen.toNat then .error (.payloadTooLarge payloadLen)
        else .ok ⟨ty, channel, readBe16 buf 6, readBe32 buf 8, payloadLen.toNat⟩

/-- One complete frame from the start of `buf`, and the bytes it used. -/
def decodeFrame (buf : Bytes) : Except DecodeError (Frame × Nat) :=
  match parseHeader buf with
  | .error e => .error e
  | .ok h =>
    if buf.length < h.total then .error .tooShort
    else .ok (h.intoFrame (slice buf headerLen h.payloadLen), h.total)

def findMagic : Bytes → Option Nat
  | [] => none
  | b :: rest =>
    if (b :: rest).take 4 = magic then some 0 else (findMagic rest).map (· + 1)

/-- The loop of `drain_frames`. Each turn that goes on drops a byte at least,
so `fuel` past the length of `buf` is never reached. -/
def drainFrames : Nat → Bytes → List Frame × Bytes
  | 0, buf => ([], buf)
  | fuel + 1, buf =>
    match findMagic buf with
    -- A trailing partial magic is kept for the next push to complete.
    | none => ([], buf.drop (buf.length - min (magic.length - 1) buf.length))
    | some magicPos =>
      let buf := buf.drop magicPos
      if buf.length < headerLen then ([], buf)
      else
        match parseHeader buf with
        | .error _ => drainFrames fuel (buf.drop 1)
        | .ok header =>
          if buf.length < header.total then ([], buf)
          else
            let rest := drainFrames fuel (buf.drop header.total)
            (header.intoFrame (slice buf headerLen header.payloadLen) :: rest.1, rest.2)

structure StreamDecoder where
  buf : Bytes

def StreamDecoder.new : StreamDecoder := ⟨[]⟩

/-- Append bytes; the frames emitted come back in order. -/
def StreamDecoder.pushBytes (d : StreamDecoder) (chunk : Bytes) : List Frame × StreamDecoder :=
  let buf := d.buf ++ chunk
  let r := drainFrames (buf.length + 1) buf
  (r.1, ⟨r.2⟩)

/-- All frames emitted while `chunks` are pushed one after the other. -/
def StreamDecoder.pushAll : StreamDecoder → List Bytes → List Frame × StreamDecoder
  | d, [] => ([], d)
  | d, chunk :: chunks =>
    let r := d.pushBytes chunk
    let rest := r.2.pushAll chunks
    (r.1 ++ rest.1, rest.2)

/-- What the decoder is for: search the whole string from the left, one byte
on past a rejected header, past the whole frame after an accepted one. -/
def referenceFrames (s : Bytes) : List Frame :=
  match findMagic s with
  | none => []
  | some i =>
    let t := s.drop i
    if _ : t.length < headerLen then []
    else
      match parseHeader t with
      | .error _ => referenceFrames (t.drop 1)
      | .ok header =>
        if t.length < header.total then []
        else header.intoFrame (slice t headerLen header.payloadLen) ::
          referenceFrames (t.drop header.total)
termination_by s.length
decreasing_by
  all_goals simp only [headerLen, Header.total, List.length_drop, t] at *; omega

end Multi64
