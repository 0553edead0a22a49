import Muxtls.Proto.Frame

namespace Muxtls

/-- Reads from a `Buf` cursor. `none` is the panic of `get_u8` or `copy_to_bytes` past the end of the
buffer. -/
abbrev Reading (ε : Type) := ExceptT ε Option

namespace Reading

variable {ε α β : Type}

/-- A computation that reads nothing, or one whose reads are known to stay in the buffer. -/
def lift (x : Except ε α) : Reading ε α := ExceptT.mk (some x)

/-- Two steps that stay in the buffer stay in it one after the other. -/
theorem lift_bind (x : Except ε α) (f : α → Reading ε β)
    (g : α → Except ε β) (h : ∀ a, f a = lift (g a)) :
    lift x >>= f = lift (x >>= g) := by
  cases x with
  | error error => rfl
  | ok a => exact h a

end Reading

namespace Buf

variable {ε : Type}

/-- `src.get_u8()`. -/
def getU8 : Bytes → Reading ε (UInt8 × Bytes)
  | [] => ExceptT.mk none
  | b :: src => return (b, src)

/-- `src.copy_to_bytes(len)`. -/
def copyToBytes (len : Nat) (src : Bytes) : Reading ε (Bytes × Bytes) :=
  if src.length < len then ExceptT.mk none else return (src.take len, src.drop len)

end Buf

namespace VarInt

/-- The end of `VarInt::decode`: the value is checked by `from_u64`. -/
def readValue (value : Nat) (src : Bytes) : Reading VarIntError (VarInt × Bytes) :=
  .lift do
    let value ← fromU64 value
    return (value, src)

/-- What `VarInt::decode` does after the first byte, with its guards and its reads apart. -/
def readTail (tag low : Nat) (src : Bytes) : Reading VarIntError (VarInt × Bytes) :=
  match tag with
  | 0 => readValue low src
  | 1 => do
    if src.length < 1 then throw .unexpectedEof
    let (b₁, src) ← Buf.getU8 src
    readValue (low <<< 8 ||| b₁.toNat) src
  | 2 => do
    if src.length < 3 then throw .unexpectedEof
    let (b₁, src) ← Buf.getU8 src
    let (b₂, src) ← Buf.getU8 src
    let (b₃, src) ← Buf.getU8 src
    readValue (low <<< 24 ||| b₁.toNat <<< 16 ||| b₂.toNat <<< 8 ||| b₃.toNat) src
  | _ => do
    if src.length < 7 then throw .unexpectedEof
    let (b₁, src) ← Buf.getU8 src
    let (b₂, src) ← Buf.getU8 src
    let (b₃, src) ← Buf.getU8 src
    let (b₄, src) ← Buf.getU8 src
    let (b₅, src) ← Buf.getU8 src
    let (b₆, src) ← Buf.getU8 src
    let (b₇, src) ← Buf.getU8 src
    readValue (low <<< 56 ||| b₁.toNat <<< 48 ||| b₂.toNat <<< 40 ||| b₃.toNat <<< 32 |||
      b₄.toNat <<< 24 ||| b₅.toNat <<< 16 ||| b₆.toNat <<< 8 ||| b₇.toNat) src

/-- `VarInt::decode` with its guards and its reads apart. -/
def read (src : Bytes) : Reading VarIntError (VarInt × Bytes) := do
  if src.isEmpty then throw .unexpectedEof
  let (first, src) ← Buf.getU8 src
  readTail (first.toNat >>> 6) (first.toNat &&& 0x3f) src

/-- The guards of `VarInt::decode` keep every read in the buffer. -/
theorem read_eq_decode (src : Bytes) : read src = .lift (decode src) := by
  cases src with
  | nil => rfl
  | cons first src =>
    change readTail (first.toNat >>> 6) (first.toNat &&& 0x3f) src = _
    simp only [decode]
    generalize first.toNat >>> 6 = tag, first.toNat &&& 0x3f = low
    -- one case for each tag, and in it one for each number of bytes left
    rcases tag with _ | _ | _ | tag
    · rfl
    · match src with
      | [] => rfl
      | _ :: _ => rfl
    · match src with
      | [] => rfl
      | [_] => rfl
      | [_, _] => rfl
      | _ :: _ :: _ :: _ => rfl
    · match src with
      | [] => rfl
      | [_] => rfl
      | [_, _] => rfl
      | [_, _, _] => rfl
      | [_, _, _, _] => rfl
      | [_, _, _, _, _] => rfl
      | [_, _, _, _, _, _] => rfl
      | _ :: _ :: _ :: _ :: _ :: _ :: _ :: _ => rfl

/-- The forms of a varint on the wire: the top two bits of the first byte announce 0, 1, 3 or 7
further bytes, and the bits after them are the value in network byte order. -/
def Form (v : VarInt) (bytes : Bytes) : Prop :=
  ∃ first tail, bytes = first :: tail ∧ tail.length = tailLen first ∧ v.intoInner = wireValue first tail

theorem decode_short (first : UInt8) (src : Bytes) (h : src.length < tailLen first) :
    decode (first :: src) = .error .unexpectedEof := by
  have hf : first.toNat / 64 < 4 := by have := first.toNat_lt; omega
  obtain ⟨htag, -⟩ := first_fields first
  simp only [decode, htag]
  unfold tailLen at h
  rcases hq : first.toNat / 64 with _ | _ | _ | tag
  · simp [hq] at h
  · match src with
    | [] => rfl
    | _ :: _ => simp [hq] at h
  · match src with
    | [] => rfl
    | [_] => rfl
    | [_, _] => rfl
    | _ :: _ :: _ :: _ =>
      simp only [hq, List.length_cons] at h
      omega
  · match src with
    | [] => rfl
    | [_] => rfl
    | [_, _] => rfl
    | [_, _, _] => rfl
    | [_, _, _, _] => rfl
    | [_, _, _, _, _] => rfl
    | [_, _, _, _, _, _] => rfl
    | _ :: _ :: _ :: _ :: _ :: _ :: _ :: _ =>
      simp only [hq, List.length_cons] at h
      omega

/-- `decode` succeeds exactly on a varint form, and leaves what follows it. -/
theorem decode_ok_iff (src rest : Bytes) (v : VarInt) :
    decode src = .ok (v, rest) ↔ ∃ bytes, v.Form bytes ∧ src = bytes ++ rest := by
  constructor
  · intro h
    cases src with
    | nil => cases h
    | cons first src =>
      by_cases hlen : src.length < tailLen first
      · rw [decode_short first src hlen] at h
        cases h
      have htake : (src.take (tailLen first)).length = tailLen first := by
        rw [List.length_take]
        omega
      obtain ⟨w, hw, hd⟩ := decode_tail first _ (src.drop (tailLen first)) htake
      rw [List.take_append_drop, h] at hd
      cases hd
      exact ⟨_, ⟨first, _, rfl, htake, hw⟩, by rw [List.cons_append, List.take_append_drop]⟩
  · rintro ⟨bytes, ⟨first, tail, rfl, hl, hv⟩, rfl⟩
    obtain ⟨w, hw, hd⟩ := decode_tail first tail rest hl
    obtain rfl : w = v := ext_inner (hw.trans hv.symm)
    exact hd

end VarInt

theorem fromUtf8_eq_some (bytes : Bytes) (s : String) : fromUtf8 bytes = some s ↔ bytes = asBytes s := by
  constructor
  · intro h
    unfold fromUtf8 String.fromUTF8? at h
    split at h
    · cases h
      simp [asBytes, String.fromUTF8]
    · cases h
  · rintro rfl
    exact Frame.fromUtf8_asBytes s

namespace Frame

/-- `VarInt::decode(src)?`. -/
def readVarInt (src : Bytes) : Reading ProtoError (VarInt × Bytes) :=
  ExceptT.mk ((VarInt.read src).run.map (Except.mapError .varInt))

/-- `has_remaining` and the `get_u8` it guards. -/
def readU8 (src : Bytes) : Reading ProtoError (UInt8 × Bytes) := do
  if src.isEmpty then throw .unexpectedEof
  Buf.getU8 src

/-- The test of `remaining` and the `copy_to_bytes` it guards. -/
def readBytes (len : Nat) (src : Bytes) : Reading ProtoError (Bytes × Bytes) := do
  if src.length < len then throw .unexpectedEof
  Buf.copyToBytes len src

/-- The fields after the frame type, with the guards and the reads of the source apart. -/
def readFields (frameType : UInt8) (src : Bytes) : Reading ProtoError (Frame × Bytes) :=
  match frameType.toNat with
  | 0x00 => do
    let (streamId, src) ← readVarInt src
    let (flags, src) ← readU8 src
    if flags &&& ~~~streamFinFlag ≠ 0 then throw (.unsupportedFlags frameType flags)
    let (dataLen, src) ← readVarInt src
    let dataLen ← Reading.lift (usizeOfU64 dataLen.intoInner)
    let (payload, src) ← readBytes dataLen src
    return (stream streamId (flags &&& streamFinFlag ≠ 0) payload, src)
  | 0x01 => do
    let (streamId, src) ← readVarInt src
    let (errorCode, src) ← readVarInt src
    return (resetStream streamId ⟨errorCode⟩, src)
  | 0x02 => return (ping, src)
  | 0x03 => do
    let (errorCode, src) ← readVarInt src
    let (reasonLen, src) ← readVarInt src
    let reasonLen ← Reading.lift (usizeOfU64 reasonLen.intoInner)
    let (bytes, src) ← readBytes reasonLen src
    match fromUtf8 bytes with
    | none => throw .invalidUtf8
    | some reason => return (connectionClose ⟨errorCode⟩ reason, src)
  | 0x04 => do
    let (streamId, src) ← readVarInt src
    return (openStream streamId, src)
  | 0x05 => do
    let (data, src) ← readVarInt src
    let (streamData, src) ← readVarInt src
    let (frameSize, src) ← readVarInt src
    return (settings data streamData frameSize, src)
  | 0x06 => do
    let (maximum, src) ← readVarInt src
    return (maxData maximum, src)
  | 0x07 => do
    let (streamId, src) ← readVarInt src
    let (maximum, src) ← readVarInt src
    return (maxStreamData streamId maximum, src)
  | 0x08 => do
    let (streamId, src) ← readVarInt src
    return (stopSending streamId, src)
  | _ => throw (.unknownFrameType frameType)

/-- `Frame::decode` with its guards and its reads apart. -/
def read (src : Bytes) : Reading ProtoError (Frame × Bytes) := do
  let (frameType, src) ← readU8 src
  let (frame, src) ← readFields frameType src
  if src ≠ [] then throw (.trailingBytes src.length)
  return (frame, src)

theorem readVarInt_eq (src : Bytes) : readVarInt src = .lift (decodeVarInt src) := by
  rw [readVarInt, VarInt.read_eq_decode]
  rfl

theorem readU8_eq (src : Bytes) : readU8 src = .lift (getU8 src) := by
  cases src <;> rfl

theorem readBytes_eq (len : Nat) (src : Bytes) : readBytes len src = .lift (copyToBytes len src) := by
  unfold readBytes Buf.copyToBytes copyToBytes
  by_cases h : src.length < len
  · rw [if_pos h, if_pos h, if_pos h]
    rfl
  · rw [if_neg h, if_neg h, if_neg h]
    rfl

theorem readFields_eq (frameType : UInt8) (src : Bytes) :
    readFields frameType src = .lift (decodeFields frameType src) := by
  unfold readFields decodeFields
  simp only [readVarInt_eq, readU8_eq, readBytes_eq]
  rcases frameType.toNat with _ | _ | _ | _ | _ | _ | _ | _ | _ | _
  · apply Reading.lift_bind
    intro p
    apply Reading.lift_bind
    intro q
    split_ifs
    · rfl
    · apply Reading.lift_bind
      intro r
      apply Reading.lift_bind
      intro len
      exact Reading.lift_bind _ _ _ fun _ => rfl
  · apply Reading.lift_bind
    intro p
    exact Reading.lift_bind _ _ _ fun _ => rfl
  · rfl
  · apply Reading.lift_bind
    intro p
    apply Reading.lift_bind
    intro q
    apply Reading.lift_bind
    intro len
    apply Reading.lift_bind
    intro r
    cases fromUtf8 r.1 <;> rfl
  · exact Reading.lift_bind _ _ _ fun _ => rfl
  · apply Reading.lift_bind
    intro p
    apply Reading.lift_bind
    intro q
    exact Reading.lift_bind _ _ _ fun _ => rfl
  · exact Reading.lift_bind _ _ _ fun _ => rfl
  · apply Reading.lift_bind
    intro p
    exact Reading.lift_bind _ _ _ fun _ => rfl
  · exact Reading.lift_bind _ _ _ fun _ => rfl
  · rfl

/-- The guards of `Frame::decode` keep every read in the buffer. -/
theorem read_eq_decode (src : Bytes) : read src = .lift (decode src) := by
  unfold read decode
  simp only [readU8_eq, readFields_eq]
  apply Reading.lift_bind
  intro p
  apply Reading.lift_bind
  intro q
  split_ifs <;> rfl

/-- The frame layouts of version 1: the type byte, then the fields in order, and nothing after them. -/
inductive Layout : Frame → Bytes → Prop
  | stream (streamId len : VarInt) (fin : Bool) (payload idForm lenForm : Bytes) (hid : streamId.Form idForm)
    (hlen : len.Form lenForm) (h : len.intoInner = payload.length) :
    Layout (.stream streamId fin payload)
      ([0x00] ++ idForm ++ [if fin then 0x01 else 0x00] ++ lenForm ++ payload)
  | resetStream (streamId code : VarInt) (idForm codeForm : Bytes) (hid : streamId.Form idForm)
    (hcode : code.Form codeForm) : Layout (.resetStream streamId ⟨code⟩) ([0x01] ++ idForm ++ codeForm)
  | ping : Layout .ping [0x02]
  | connectionClose (code len : VarInt) (reason : String) (codeForm lenForm : Bytes)
    (hcode : code.Form codeForm) (hlen : len.Form lenForm) (h : len.intoInner = (asBytes reason).length) :
    Layout (.connectionClose ⟨code⟩ reason) ([0x03] ++ codeForm ++ lenForm ++ asBytes reason)
  | openStream (streamId : VarInt) (idForm : Bytes) (hid : streamId.Form idForm) :
    Layout (.openStream streamId) ([0x04] ++ idForm)
  | settings (data streamData frameSize : VarInt) (dataForm streamForm sizeForm : Bytes)
    (hdata : data.Form dataForm) (hstream : streamData.Form streamForm) (hsize : frameSize.Form sizeForm) :
    Layout (.settings data streamData frameSize) ([0x05] ++ dataForm ++ streamForm ++ sizeForm)
  | maxData (maximum : VarInt) (maxForm : Bytes) (hmax : maximum.Form maxForm) :
    Layout (.maxData maximum) ([0x06] ++ maxForm)
  | maxStreamData (streamId maximum : VarInt) (idForm maxForm : Bytes) (hid : streamId.Form idForm)
    (hmax : maximum.Form maxForm) : Layout (.maxStreamData streamId maximum) ([0x07] ++ idForm ++ maxForm)
  | stopSending (streamId : VarInt) (idForm : Bytes) (hid : streamId.Form idForm) :
    Layout (.stopSending streamId) ([0x08] ++ idForm)

theorem decodeVarInt_ok_iff (src rest : Bytes) (v : VarInt) :
    decodeVarInt src = .ok (v, rest) ↔ ∃ bytes, v.Form bytes ∧ src = bytes ++ rest := by
  rw [← VarInt.decode_ok_iff, decodeVarInt]
  cases VarInt.decode src <;> simp [Except.mapError]

theorem decodeVarInt_form {v : VarInt} {bytes : Bytes} (h : v.Form bytes) (rest : Bytes) :
    decodeVarInt (bytes ++ rest) = .ok (v, rest) :=
  (decodeVarInt_ok_iff _ _ _).mpr ⟨bytes, h, rfl⟩

theorem copyToBytes_ok_iff (len : Nat) (src bytes rest : Bytes) :
    copyToBytes len src = .ok (bytes, rest) ↔ bytes.length = len ∧ src = bytes ++ rest := by
  unfold copyToBytes
  constructor
  · intro h
    split_ifs at h with hlen
    cases h
    exact ⟨by rw [List.length_take]; omega, (List.take_append_drop _ _).symm⟩
  · rintro ⟨rfl, rfl⟩
    simp

set_option maxRecDepth 4096 in
/-- A flag byte the decoder takes is zero or the FIN flag. -/
theorem flags_cases (flags : UInt8) (h : ¬ flags &&& ~~~streamFinFlag ≠ 0) :
    flags = if flags &&& streamFinFlag ≠ 0 then 0x01 else 0x00 := by
  obtain ⟨⟨n⟩⟩ := flags
  revert n
  decide

theorem bind_ok_iff {ε α β : Type} (x : Except ε α) (f : α → Except ε β) (b : β) :
    x >>= f = .ok b ↔ ∃ a, x = .ok a ∧ f a = .ok b := by
  cases x <;> simp [bind, Except.bind]

/-- A decoder that goes on after a varint has read one of its forms. -/
theorem decodeVarInt_bind_ok {β : Type} {src : Bytes} {k : VarInt × Bytes → Except ProtoError β} {b : β}
    (h : decodeVarInt src >>= k = .ok b) :
    ∃ v form rest, v.Form form ∧ src = form ++ rest ∧ k (v, rest) = .ok b := by
  obtain ⟨⟨v, rest⟩, hv, hk⟩ := (bind_ok_iff _ _ _).mp h
  obtain ⟨form, hform, hsrc⟩ := (decodeVarInt_ok_iff _ _ _).mp hv
  exact ⟨v, form, rest, hform, hsrc, hk⟩

/-- A decoder that goes on after a field of announced length has read exactly that many bytes. -/
theorem copyToBytes_bind_ok {β : Type} {len : VarInt}
    {src : Bytes} {k : Bytes × Bytes → Except ProtoError β} {b : β}
    (h : (do let n ← usizeOfU64 len.intoInner; copyToBytes n src >>= k) = .ok b) :
    ∃ bytes rest, len.intoInner = bytes.length ∧ src = bytes ++ rest ∧ k (bytes, rest) = .ok b := by
  obtain ⟨n, hn, h⟩ := (bind_ok_iff _ _ _).mp h
  rw [usizeOfU64_ok] at hn
  cases hn
  obtain ⟨⟨bytes, rest⟩, hb, hk⟩ := (bind_ok_iff _ _ _).mp h
  obtain ⟨hlen, hsrc⟩ := (copyToBytes_ok_iff _ _ _ _).mp hb
  exact ⟨bytes, rest, hlen.symm, hsrc, hk⟩

theorem decodeFields_layout (frameType : UInt8) (src : Bytes) (f : Frame)
    (h : decodeFields frameType src = .ok (f, [])) : f.Layout (frameType :: src) := by
  unfold decodeFields at h
  rcases hq : frameType.toNat with _ | _ | _ | _ | _ | _ | _ | _ | _ | n <;> rw [hq] at h
  · obtain rfl : frameType = 0x00 := UInt8.toNat_inj.mp hq
    obtain ⟨streamId, idForm, src₁, hid, rfl, hk⟩ := decodeVarInt_bind_ok h
    cases src₁ with
    | nil => cases hk
    | cons flags src₂ =>
      by_cases hbits : flags &&& ~~~streamFinFlag ≠ 0
      · simp only [getU8, bind, Except.bind, if_pos hbits] at hk
        cases hk
      simp only [getU8, bind, Except.bind, if_neg hbits] at hk
      obtain ⟨len, lenForm, src₃, hlen, rfl, htail⟩ := decodeVarInt_bind_ok hk
      obtain ⟨payload, src₄, hsize, rfl, hend⟩ := copyToBytes_bind_ok htail
      cases hend
      have hl := Layout.stream streamId len (flags &&& streamFinFlag ≠ 0) payload idForm lenForm hid hlen hsize
      simp only [decide_eq_true_eq, ← flags_cases flags hbits] at hl
      simpa using hl
  · obtain rfl : frameType = 0x01 := UInt8.toNat_inj.mp hq
    obtain ⟨streamId, idForm, src₁, hid, rfl, h₁⟩ := decodeVarInt_bind_ok h
    obtain ⟨code, codeForm, src₂, hcode, rfl, h₂⟩ := decodeVarInt_bind_ok h₁
    cases h₂
    simpa using Layout.resetStream streamId code idForm codeForm hid hcode
  · obtain rfl : frameType = 0x02 := UInt8.toNat_inj.mp hq
    cases h
    exact .ping
  · obtain rfl : frameType = 0x03 := UInt8.toNat_inj.mp hq
    obtain ⟨code, codeForm, src₁, hcode, rfl, h₁⟩ := decodeVarInt_bind_ok h
    obtain ⟨len, lenForm, src₂, hlen, rfl, h₂⟩ := decodeVarInt_bind_ok h₁
    obtain ⟨bytes, src₃, hsize, rfl, h₃⟩ := copyToBytes_bind_ok h₂
    cases hs : fromUtf8 bytes with
    | none =>
      simp only [hs] at h₃
      cases h₃
    | some reason =>
      simp only [hs] at h₃
      cases h₃
      obtain rfl := (fromUtf8_eq_some _ _).mp hs
      simpa using Layout.connectionClose code len reason codeForm lenForm hcode hlen hsize
  · obtain rfl : frameType = 0x04 := UInt8.toNat_inj.mp hq
    obtain ⟨streamId, idForm, src₁, hid, rfl, h₁⟩ := decodeVarInt_bind_ok h
    cases h₁
    simpa using Layout.openStream streamId idForm hid
  · obtain rfl : frameType = 0x05 := UInt8.toNat_inj.mp hq
    obtain ⟨data, dataForm, src₁, hdata, rfl, h₁⟩ := decodeVarInt_bind_ok h
    obtain ⟨streamData, streamForm, src₂, hstream, rfl, h₂⟩ := decodeVarInt_bind_ok h₁
    obtain ⟨frameSize, sizeForm, src₃, hsize, rfl, h₃⟩ := decodeVarInt_bind_ok h₂
    cases h₃
    simpa using Layout.settings data streamData frameSize dataForm streamForm sizeForm hdata hstream hsize
  · obtain rfl : frameType = 0x06 := UInt8.toNat_inj.mp hq
    obtain ⟨maximum, maxForm, src₁, hmax, rfl, h₁⟩ := decodeVarInt_bind_ok h
    cases h₁
    simpa using Layout.maxData maximum maxForm hmax
  · obtain rfl : frameType = 0x07 := UInt8.toNat_inj.mp hq
    obtain ⟨streamId, idForm, src₁, hid, rfl, h₁⟩ := decodeVarInt_bind_ok h
    obtain ⟨maximum, maxForm, src₂, hmax, rfl, h₂⟩ := decodeVarInt_bind_ok h₁
    cases h₂
    simpa using Layout.maxStreamData streamId maximum idForm maxForm hid hmax
  · obtain rfl : frameType = 0x08 := UInt8.toNat_inj.mp hq
    obtain ⟨streamId, idForm, src₁, hid, rfl, h₁⟩ := decodeVarInt_bind_ok h
    cases h₁
    simpa using Layout.stopSending streamId idForm hid
  · cases h

theorem decode_layout (f : Frame) (b : Bytes) (h : f.Layout b) : decode b = .ok (f, []) := by
  cases h with
  | stream streamId len fin payload idForm lenForm hid hlen h =>
    have hpay : copyToBytes len.intoInner payload = .ok (payload, []) := by rw [h, copyToBytes_length]
    cases fin <;>
      simp [decode, getU8, decodeFields, decodeVarInt_form hid, decodeVarInt_form hlen, usizeOfU64_ok, hpay,
        streamFinFlag, bind, Except.bind, pure, Except.pure]
  | connectionClose code len reason codeForm lenForm hcode hlen h =>
    have hpay : copyToBytes len.intoInner (asBytes reason) = .ok (asBytes reason, []) := by
      rw [h, copyToBytes_length]
    simp [decode, getU8, decodeFields, decodeVarInt_form hcode, decodeVarInt_form hlen, usizeOfU64_ok, hpay,
      fromUtf8_asBytes, bind, Except.bind, pure, Except.pure]
  | ping => rfl
  | resetStream streamId code idForm codeForm hid hcode =>
    have hc := decodeVarInt_form hcode []
    rw [List.append_nil] at hc
    simp [decode, getU8, decodeFields, decodeVarInt_form hid, hc, bind, Except.bind, pure, Except.pure]
  | settings data streamData frameSize dataForm streamForm sizeForm hdata hstream hsize =>
    have hs := decodeVarInt_form hsize []
    rw [List.append_nil] at hs
    simp [decode, getU8, decodeFields, decodeVarInt_form hdata, decodeVarInt_form hstream, hs, bind, Except.bind,
      pure, Except.pure]
  | maxStreamData streamId maximum idForm maxForm hid hmax =>
    have hm := decodeVarInt_form hmax []
    rw [List.append_nil] at hm
    simp [decode, getU8, decodeFields, decodeVarInt_form hid, hm, bind, Except.bind, pure, Except.pure]
  | openStream v form hv | maxData v form hv | stopSending v form hv =>
    have hf := decodeVarInt_form hv []
    rw [List.append_nil] at hf
    simp [decode, getU8, decodeFields, hf, bind, Except.bind, pure, Except.pure]

theorem decode_ok_iff (b : Bytes) (f : Frame) (rest : Bytes) :
    decode b = .ok (f, rest) ↔ rest = [] ∧ f.Layout b := by
  constructor
  · intro h
    cases b with
    | nil => cases h
    | cons frameType src =>
      obtain ⟨⟨frame, left⟩, hfields, h⟩ := (bind_ok_iff (decodeFields frameType src) _ _).mp h
      by_cases hleft : left = []
      · subst hleft
        cases h
        exact ⟨rfl, decodeFields_layout frameType src f hfields⟩
      · simp [hleft, bind, Except.bind, throw, throwThe, MonadExceptOf.throw] at h
  · rintro ⟨rfl, h⟩
    exact decode_layout f b h

/-- The decoder accepts exactly the version 1 grammar: whatever the input, no read goes past its end,
a frame comes out exactly when the whole input is laid out as that frame, and every other input is an
error. -/
theorem decode_accepts_grammar (b : Bytes) :
    read b = .lift (decode b) ∧ (∀ f rest, decode b = .ok (f, rest) ↔ rest = [] ∧ f.Layout b) ∧
      ((∃ error, decode b = .error error) ↔ ∀ f : Frame, ¬ f.Layout b) := by
  refine ⟨read_eq_decode b, decode_ok_iff b, ?_⟩
  constructor
  · rintro ⟨error, he⟩ f hf
    rw [decode_layout f b hf] at he
    cases he
  · intro hno
    cases hd : decode b with
    | error error => exact ⟨error, rfl⟩
    | ok p => exact (hno p.1 ((decode_ok_iff b p.1 p.2).mp hd).2).elim

end Frame
end Muxtls
