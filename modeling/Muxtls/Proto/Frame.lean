import Muxtls.Proto.VarInt
import Mathlib.Data.List.Basic

namespace Muxtls

/-- Errors raised while encoding or decoding protocol frames. -/
inductive ProtoError where
  | varInt (error : VarIntError)
  | unexpectedEof
  | unknownFrameType (frameType : UInt8)
  | unsupportedFlags (frameType flags : UInt8)
  | invalidUtf8
  | trailingBytes (remaining : Nat)
  | lengthOverflow (length : Nat)
deriving DecidableEq, Repr

structure ErrorCode where
  code : VarInt
deriving DecidableEq

namespace ErrorCode

def fromU64 (value : Nat) : Except ProtoError ErrorCode :=
  match VarInt.fromU64 value with
  | .error error => .error (.varInt error)
  | .ok code => .ok ⟨code⟩

def intoInner (c : ErrorCode) : Nat := c.code.intoInner

def encodedLen (c : ErrorCode) : Nat := c.code.encodedLen

end ErrorCode

/-- One protocol frame. -/
inductive Frame where
  | stream (streamId : VarInt) (fin : Bool) (payload : Bytes)
  | resetStream (streamId : VarInt) (errorCode : ErrorCode)
  | openStream (streamId : VarInt)
  | settings (maxData maxStreamData maxFrameSize : VarInt)
  | maxData (maximum : VarInt)
  | maxStreamData (streamId maximum : VarInt)
  | stopSending (streamId : VarInt)
  | ping
  | connectionClose (errorCode : ErrorCode) (reason : String)
deriving DecidableEq

/-- `str::as_bytes`. -/
def asBytes (s : String) : Bytes := s.toByteArray.data.toList

/-- `str::from_utf8`. -/
def fromUtf8 (b : Bytes) : Option String := String.fromUTF8? ⟨b.toArray⟩

/-- `usize::try_from` on a `u64`, on a 64-bit target. -/
def usizeOfU64 (n : Nat) : Except ProtoError Nat :=
  if n < 2 ^ 64 then .ok n else .error (.lengthOverflow n)

namespace Frame

def streamFinFlag : UInt8 := 0x01

/-- `VarInt::from_u64` on a length, with the error converted by `?`. -/
def lenVarInt (len : Nat) : Except ProtoError VarInt :=
  (VarInt.fromU64 len).mapError .varInt

/-- The exact encoded length of a frame. -/
def encodedLen : Frame → Except ProtoError Nat
  | stream streamId _ payload => do
    let payloadLen ← lenVarInt payload.length
    return 1 + streamId.encodedLen + 1 + payloadLen.encodedLen + payload.length
  | resetStream streamId errorCode => return 1 + streamId.encodedLen + errorCode.encodedLen
  | openStream streamId => return 1 + streamId.encodedLen
  | settings data streamData frameSize =>
    return 1 + data.encodedLen + streamData.encodedLen + frameSize.encodedLen
  | maxData maximum => return 1 + maximum.encodedLen
  | maxStreamData streamId maximum => return 1 + streamId.encodedLen + maximum.encodedLen
  | stopSending streamId => return 1 + streamId.encodedLen
  | ping => return 1
  | connectionClose errorCode reason => do
    let reasonLen ← lenVarInt (asBytes reason).length
    return 1 + errorCode.encodedLen + reasonLen.encodedLen + (asBytes reason).length

/-- Appends the encoding of a frame to a buffer. -/
def encode (out : Bytes) : Frame → Except ProtoError Bytes
  | stream streamId fin payload => do
    let len ← lenVarInt payload.length
    return out ++ [0x00] ++ streamId.encode ++ [if fin then streamFinFlag else 0] ++ len.encode ++
      payload
  | resetStream streamId errorCode =>
    return out ++ [0x01] ++ streamId.encode ++ errorCode.code.encode
  | openStream streamId => return out ++ [0x04] ++ streamId.encode
  | settings data streamData frameSize =>
    return out ++ [0x05] ++ data.encode ++ streamData.encode ++ frameSize.encode
  | maxData maximum => return out ++ [0x06] ++ maximum.encode
  | maxStreamData streamId maximum => return out ++ [0x07] ++ streamId.encode ++ maximum.encode
  | stopSending streamId => return out ++ [0x08] ++ streamId.encode
  | ping => return out ++ [0x02]
  | connectionClose errorCode reason => do
    let len ← lenVarInt (asBytes reason).length
    return out ++ [0x03] ++ errorCode.code.encode ++ len.encode ++ asBytes reason

/-- `VarInt::decode(src)?`. -/
def decodeVarInt (src : Bytes) : Except ProtoError (VarInt × Bytes) :=
  (VarInt.decode src).mapError .varInt

/-- `src.get_u8()` behind its `has_remaining` guard. -/
def getU8 : Bytes → Except ProtoError (UInt8 × Bytes)
  | [] => .error .unexpectedEof
  | b :: src => .ok (b, src)

/-- `src.copy_to_bytes(len)` behind its `remaining` guard. -/
def copyToBytes (len : Nat) (src : Bytes) : Except ProtoError (Bytes × Bytes) :=
  if src.length < len then .error .unexpectedEof else .ok (src.take len, src.drop len)

/-- The fields after the frame type. -/
def decodeFields (frameType : UInt8) (src : Bytes) : Except ProtoError (Frame × Bytes) :=
  match frameType.toNat with
  | 0x00 => do
    let (streamId, src) ← decodeVarInt src
    let (flags, src) ← getU8 src
    if flags &&& ~~~streamFinFlag ≠ 0 then throw (.unsupportedFlags frameType flags)
    let (dataLen, src) ← decodeVarInt src
    let dataLen ← usizeOfU64 dataLen.intoInner
    let (payload, src) ← copyToBytes dataLen src
    return (stream streamId (flags &&& streamFinFlag ≠ 0) payload, src)
  | 0x01 => do
    let (streamId, src) ← decodeVarInt src
    let (errorCode, src) ← decodeVarInt src
    return (resetStream streamId ⟨errorCode⟩, src)
  | 0x02 => return (ping, src)
  | 0x03 => do
    let (errorCode, src) ← decodeVarInt src
    let (reasonLen, src) ← decodeVarInt src
    let reasonLen ← usizeOfU64 reasonLen.intoInner
    let (bytes, src) ← copyToBytes reasonLen src
    match fromUtf8 bytes with
    | none => throw .invalidUtf8
    | some reason => return (connectionClose ⟨errorCode⟩ reason, src)
  | 0x04 => do
    let (streamId, src) ← decodeVarInt src
    return (openStream streamId, src)
  | 0x05 => do
    let (data, src) ← decodeVarInt src
    let (streamData, src) ← decodeVarInt src
    let (frameSize, src) ← decodeVarInt src
    return (settings data streamData frameSize, src)
  | 0x06 => do
    let (maximum, src) ← decodeVarInt src
    return (maxData maximum, src)
  | 0x07 => do
    let (streamId, src) ← decodeVarInt src
    let (maximum, src) ← decodeVarInt src
    return (maxStreamData streamId maximum, src)
  | 0x08 => do
    let (streamId, src) ← decodeVarInt src
    return (stopSending streamId, src)
  | _ => .error (.unknownFrameType frameType)

/-- Decodes one frame and refuses bytes left after it. -/
def decode (src : Bytes) : Except ProtoError (Frame × Bytes) := do
  let (frameType, src) ← getU8 src
  let (frame, src) ← decodeFields frameType src
  if src ≠ [] then throw (.trailingBytes src.length)
  return (frame, src)

/-- The length of a frame's variable tail, the payload or the reason. -/
def tailLen : Frame → Nat
  | stream _ _ payload => payload.length
  | connectionClose _ reason => (asBytes reason).length
  | _ => 0

theorem lenVarInt_ok (len : Nat) (h : len ≤ varIntMax) : lenVarInt len = .ok ⟨len, h⟩ := by
  rw [lenVarInt, VarInt.fromU64_eq_ok len h]
  rfl

@[simp] theorem decodeVarInt_encode (v : VarInt) (src : Bytes) :
    decodeVarInt (v.encode ++ src) = .ok (v, src) := by
  rw [decodeVarInt, VarInt.decode_encode]
  rfl

@[simp] theorem decodeVarInt_encode_nil (v : VarInt) : decodeVarInt v.encode = .ok (v, []) := by
  simpa using decodeVarInt_encode v []

theorem usizeOfU64_ok (v : VarInt) : usizeOfU64 v.intoInner = .ok v.intoInner := by
  have h := v.le_max
  rw [usizeOfU64, if_pos (by unfold varIntMax at h; omega)]

theorem copyToBytes_length (b : Bytes) : copyToBytes b.length b = .ok (b, []) := by
  simp [copyToBytes]

theorem fromUtf8_asBytes (s : String) : fromUtf8 (asBytes s) = some s := by
  have h : (⟨(asBytes s).toArray⟩ : ByteArray) = s.toByteArray := by simp [asBytes]
  rw [fromUtf8, h]
  simp [String.fromUTF8?, s.isValidUTF8, String.fromUTF8]

theorem lenVarInt_cases (len : Nat) :
    (∃ h : len ≤ varIntMax, lenVarInt len = .ok ⟨len, h⟩) ∨
      varIntMax < len ∧ lenVarInt len = .error (.varInt (.valueTooLarge len)) := by
  by_cases h : len ≤ varIntMax
  · exact .inl ⟨h, lenVarInt_ok len h⟩
  · refine .inr ⟨by omega, ?_⟩
    simp [lenVarInt, VarInt.fromU64, Nat.lt_of_not_le h, Except.mapError]

theorem stream_encodedLen (streamId : VarInt) (fin : Bool) (payload : Bytes) (n : Nat) :
    (stream streamId fin payload).encodedLen = .ok n ↔
      payload.length ≤ varIntMax ∧
        n = 1 + streamId.encodedLen + 1 + (VarInt.expect payload.length).encodedLen + payload.length := by
  rcases lenVarInt_cases payload.length with ⟨hl, he⟩ | ⟨hl, he⟩
  · have hv : VarInt.expect payload.length = ⟨payload.length, hl⟩ :=
      VarInt.ext_inner (VarInt.expect_intoInner _ hl)
    simp [encodedLen, he, hv, hl, bind, Except.bind, pure, Except.pure, eq_comm]
  · simp [encodedLen, he, bind, Except.bind, Nat.not_le_of_lt hl]

/-- A shorter payload makes a frame that is no longer. -/
theorem stream_encodedLen_mono (streamId : VarInt) (fin fin' : Bool) (payload payload' : Bytes) (n : Nat)
    (hle : payload'.length ≤ payload.length) (h : (stream streamId fin payload).encodedLen = .ok n) :
    ∃ n', (stream streamId fin' payload').encodedLen = .ok n' ∧ n' ≤ n := by
  obtain ⟨hmax, rfl⟩ := (stream_encodedLen streamId fin payload n).mp h
  have hm : (VarInt.expect payload'.length).encodedLen ≤ (VarInt.expect payload.length).encodedLen := by
    apply VarInt.encodedLen_mono
    rw [VarInt.expect_intoInner _ hmax, VarInt.expect_intoInner _ (hle.trans hmax)]
    exact hle
  exact ⟨_, (stream_encodedLen streamId fin' payload' _).mpr ⟨hle.trans hmax, rfl⟩, by omega⟩

/-- Encoding into a buffer appends to it. -/
theorem encode_out (f : Frame) (out : Bytes) : f.encode out = (f.encode []).map (out ++ ·) := by
  cases f with
  | stream streamId fin payload =>
    cases h : lenVarInt payload.length <;>
      simp [encode, h, bind, Except.bind, Except.map, pure, Except.pure]
  | connectionClose errorCode reason =>
    cases h : lenVarInt (asBytes reason).length <;>
      simp [encode, h, bind, Except.bind, Except.map, pure, Except.pure]
  | _ => simp [encode, Except.map, pure, Except.pure]

theorem encode_ok (f : Frame) (h : f.tailLen ≤ varIntMax) : ∃ bytes, f.encode [] = .ok bytes := by
  cases f with
  | stream streamId fin payload =>
    simp [encode, lenVarInt_ok payload.length h, bind, Except.bind, pure, Except.pure]
  | connectionClose errorCode reason =>
    simp [encode, lenVarInt_ok (asBytes reason).length h, bind, Except.bind, pure, Except.pure]
  | _ => exact ⟨_, rfl⟩

theorem encodedLen_encode (f : Frame) (bytes : Bytes) (h : f.encode [] = .ok bytes) :
    f.encodedLen = .ok bytes.length := by
  cases f with
  | stream streamId fin payload =>
    rcases lenVarInt_cases payload.length with ⟨hl, he⟩ | ⟨hl, he⟩ <;>
      simp only [encode, he, bind, Except.bind, pure, Except.pure, Except.ok.injEq, reduceCtorEq] at h
    subst h
    simp [encodedLen, he, bind, Except.bind, pure, Except.pure, VarInt.encode_length]
    omega
  | connectionClose errorCode reason =>
    rcases lenVarInt_cases (asBytes reason).length with ⟨hl, he⟩ | ⟨hl, he⟩ <;>
      simp only [encode, he, bind, Except.bind, pure, Except.pure, Except.ok.injEq, reduceCtorEq] at h
    subst h
    simp [encodedLen, he, bind, Except.bind, pure, Except.pure, VarInt.encode_length,
      ErrorCode.encodedLen]
    omega
  | _ =>
    simp only [encode, pure, Except.pure, Except.ok.injEq] at h
    subst h
    simp [encodedLen, pure, Except.pure, VarInt.encode_length, ErrorCode.encodedLen, Nat.add_comm,
      Nat.add_assoc]

theorem decode_encode (f : Frame) (bytes : Bytes) (h : f.encode [] = .ok bytes) :
    decode bytes = .ok (f, []) := by
  cases f with
  | stream streamId fin payload =>
    rcases lenVarInt_cases payload.length with ⟨hl, he⟩ | ⟨hl, he⟩ <;>
      simp only [encode, he, bind, Except.bind, pure, Except.pure, Except.ok.injEq, reduceCtorEq] at h
    subst h
    have hu := usizeOfU64_ok ⟨payload.length, hl⟩
    cases fin <;>
      simp [decode, getU8, decodeFields, hu, copyToBytes_length, streamFinFlag, bind, Except.bind,
        pure, Except.pure]
  | connectionClose errorCode reason =>
    rcases lenVarInt_cases (asBytes reason).length with ⟨hl, he⟩ | ⟨hl, he⟩ <;>
      simp only [encode, he, bind, Except.bind, pure, Except.pure, Except.ok.injEq, reduceCtorEq] at h
    subst h
    have hu := usizeOfU64_ok ⟨(asBytes reason).length, hl⟩
    simp [decode, getU8, decodeFields, hu, copyToBytes_length, fromUtf8_asBytes, bind,
      Except.bind, pure, Except.pure]
  | _ =>
    simp only [encode, pure, Except.pure, Except.ok.injEq] at h
    subst h
    simp [decode, getU8, decodeFields, bind, Except.bind, pure, Except.pure]

/-- Every frame with a representable payload or reason length encodes into any buffer, appends
exactly `encodedLen` bytes, and those bytes decode to the frame with nothing left. -/
theorem codec_round_trip (f : Frame) (h : f.tailLen ≤ varIntMax) (out : Bytes) :
    ∃ bytes, f.encode out = .ok (out ++ bytes) ∧ f.encodedLen = .ok bytes.length ∧
      decode bytes = .ok (f, []) := by
  obtain ⟨bytes, hb⟩ := f.encode_ok h
  refine ⟨bytes, ?_, f.encodedLen_encode bytes hb, f.decode_encode bytes hb⟩
  rw [encode_out, hb]
  rfl

theorem codec_round_trip_close : (connectionClose ⟨⟨1, by decide⟩⟩ "née").tailLen ≤ varIntMax ∧
    ∃ bytes, (connectionClose ⟨⟨1, by decide⟩⟩ "née").encode [] = .ok ([] ++ bytes) ∧
      (connectionClose ⟨⟨1, by decide⟩⟩ "née").encodedLen = .ok bytes.length ∧
      decode bytes = .ok (connectionClose ⟨⟨1, by decide⟩⟩ "née", []) :=
  ⟨by decide, codec_round_trip _ (by decide) []⟩

end Frame
end Muxtls
