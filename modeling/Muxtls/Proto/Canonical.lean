import Muxtls.Proto.Grammar

namespace Muxtls

namespace VarInt

/-- A width of `k` bytes holds every value below `2 ^ (8 * k - 2)`: two bits are the tag. -/
def Holds (k : Nat) (v : VarInt) : Prop := v.intoInner < 2 ^ (8 * k - 2)

theorem encodedLen_mem (v : VarInt) : v.encodedLen ∈ [1, 2, 4, 8] := by
  unfold encodedLen
  split_ifs <;> decide

theorem encodedLen_holds (v : VarInt) : v.Holds v.encodedLen := by
  have hmax := v.le_max
  unfold varIntMax at hmax
  unfold Holds encodedLen
  split_ifs <;> omega

theorem encodedLen_least (v : VarInt) (k : Nat) (hk : k ∈ [1, 2, 4, 8]) (h : v.Holds k) :
    v.encodedLen ≤ k := by
  unfold Holds at h
  unfold encodedLen
  simp only [List.mem_cons, List.not_mem_nil, or_false] at hk
  rcases hk with rfl | rfl | rfl | rfl <;> split_ifs <;> omega

/-- The tag is the binary logarithm of the width. -/
theorem tailLen_succ (first : UInt8) : tailLen first + 1 = 2 ^ (first.toNat >>> 6) := by
  rw [(first_fields first).1, tailLen]
  have hf : first.toNat / 64 < 4 := by have := first.toNat_lt; omega
  rcases hq : first.toNat / 64 with _ | _ | _ | _ | tag
  · rfl
  · rfl
  · rfl
  · rfl
  · omega

theorem width_mem (first : UInt8) : tailLen first + 1 ∈ [1, 2, 4, 8] := by
  unfold tailLen
  split <;> decide

/-- The width of a form gives its tag back. -/
theorem tag_of_tailLen {first first' : UInt8} (h : tailLen first = tailLen first') :
    first.toNat / 64 = first'.toNat / 64 := by
  have hp : 2 ^ (first.toNat >>> 6) = 2 ^ (first'.toNat >>> 6) := by
    rw [← tailLen_succ, ← tailLen_succ, h]
  have hs := Nat.pow_right_injective (le_refl 2) hp
  rwa [(first_fields first).1, (first_fields first').1] at hs

theorem encode_form (v : VarInt) : v.Form v.encode := by
  obtain ⟨first, tail, he, hl, hw⟩ := encode_tail v
  exact ⟨first, tail, he, hl, hw.symm⟩

theorem Form.length_le {v : VarInt} {bytes : Bytes} (h : v.Form bytes) : v.encode.length ≤ bytes.length := by
  obtain ⟨first, tail, rfl, hl, hv⟩ := h
  rw [encode_length, List.length_cons, hl]
  apply encodedLen_least _ _ (width_mem first)
  have ht := BigEndian.value_lt tail
  have hm : first.toNat % 64 * 256 ^ tail.length ≤ 63 * 256 ^ tail.length := Nat.mul_le_mul_right _ (by omega)
  have hp : 2 ^ (8 * (tail.length + 1) - 2) = 64 * 256 ^ tail.length := by
    rw [show 8 * (tail.length + 1) - 2 = 6 + 8 * tail.length by omega, pow_add, pow_mul]
    rfl
  rw [Holds, ← hl, hp, hv, wireValue]
  omega

/-- One width has one form of each value. -/
theorem Form.unique {v : VarInt} {bytes bytes' : Bytes} (h : v.Form bytes) (h' : v.Form bytes')
    (hlen : bytes.length = bytes'.length) : bytes = bytes' := by
  obtain ⟨first, tail, rfl, hl, hv⟩ := h
  obtain ⟨first', tail', rfl, hl', hv'⟩ := h'
  have htail : tail.length = tail'.length := Nat.succ.inj hlen
  have htag := tag_of_tailLen (hl.symm.trans (htail.trans hl'))
  rw [hv, wireValue, wireValue, htail] at hv'
  have hlt := htail ▸ BigEndian.value_lt tail
  have hlt' := BigEndian.value_lt tail'
  obtain ⟨hlow, hval⟩ := BigEndian.digits_unique hlt hlt' hv'
  have hfirst : first = first' := UInt8.toNat_inj.mp (by omega)
  rw [hfirst, BigEndian.value_injective htail hval]

/-- The codec: encoding and decoding are inverse before any suffix, the encoding has the least width
that holds the value, and decoding reads exactly the width the first byte announces, or reports the
end of the input; the range check at its end lets every value pass. -/
theorem codec_exact :
    (∀ (v : VarInt) (r : Bytes), decode (v.encode ++ r) = .ok (v, r)) ∧
      (∀ v : VarInt, v.encode.length = v.encodedLen ∧ v.encodedLen ∈ [1, 2, 4, 8] ∧ v.Holds v.encodedLen ∧
        ∀ k ∈ [1, 2, 4, 8], v.Holds k → v.encodedLen ≤ k) ∧
      (∀ v w : VarInt, v.intoInner ≤ w.intoInner → v.encodedLen ≤ w.encodedLen) ∧
      decode [] = .error .unexpectedEof ∧
      ∀ (first : UInt8) (src : Bytes),
        ((first :: src).length < 2 ^ (first.toNat >>> 6) ∧ decode (first :: src) = .error .unexpectedEof) ∨
          (2 ^ (first.toNat >>> 6) ≤ (first :: src).length ∧
            ∃ v, decode (first :: src) = .ok (v, (first :: src).drop (2 ^ (first.toNat >>> 6)))) := by
  refine ⟨decode_encode, fun v => ⟨encode_length v, encodedLen_mem v, encodedLen_holds v, encodedLen_least v⟩,
    fun v w => encodedLen_mono, rfl, fun first src => ?_⟩
  rw [← tailLen_succ, List.length_cons]
  rcases Nat.lt_or_ge src.length (tailLen first) with hlen | hlen
  · exact .inl ⟨by omega, decode_short first src hlen⟩
  · have htake : (src.take (tailLen first)).length = tailLen first := by
      rw [List.length_take]
      omega
    obtain ⟨v, -, hd⟩ := decode_tail first _ (src.drop (tailLen first)) htake
    rw [List.take_append_drop] at hd
    exact .inr ⟨by omega, v, by rw [List.drop_succ_cons, hd]⟩

end VarInt

/-- `bytes` is at most as long as `b`, and `b` itself when it is as long. -/
def Shortens (bytes b : Bytes) : Prop := bytes.length ≤ b.length ∧ (bytes.length = b.length → bytes = b)

namespace Shortens

theorem refl (b : Bytes) : Shortens b b := ⟨le_refl _, fun _ => rfl⟩

theorem append {bytes b bytes' b' : Bytes} (h : Shortens bytes b) (h' : Shortens bytes' b') :
    Shortens (bytes ++ bytes') (b ++ b') := by
  obtain ⟨hle, heq⟩ := h
  obtain ⟨hle', heq'⟩ := h'
  refine ⟨by simp only [List.length_append]; omega, fun hlen => ?_⟩
  simp only [List.length_append] at hlen
  rw [heq (by omega), heq' (by omega)]

end Shortens

theorem VarInt.Form.shortens {v : VarInt} {bytes : Bytes} (h : v.Form bytes) : Shortens v.encode bytes :=
  ⟨h.length_le, v.encode_form.unique h⟩

namespace Frame

theorem lenVarInt_eq {len : VarInt} {n : Nat} (h : len.intoInner = n) : lenVarInt n = .ok len := by
  rw [← h, lenVarInt, VarInt.fromU64_intoInner]
  rfl

/-- The encoder shortens every layout of a frame: field by field, it writes the shortest form. -/
theorem Layout.shortens {f : Frame} {b : Bytes} (h : f.Layout b) :
    ∃ bytes, f.encode [] = .ok bytes ∧ Shortens bytes b := by
  cases h with
  | stream streamId len fin payload idForm lenForm hid hlen h =>
    refine ⟨_, by simp only [encode, lenVarInt_eq h]; rfl, ?_⟩
    exact ((((Shortens.refl [0x00]).append hid.shortens).append (.refl _)).append hlen.shortens).append (.refl payload)
  | resetStream streamId code idForm codeForm hid hcode =>
    exact ⟨_, rfl, ((Shortens.refl [0x01]).append hid.shortens).append hcode.shortens⟩
  | ping => exact ⟨_, rfl, .refl [0x02]⟩
  | connectionClose code len reason codeForm lenForm hcode hlen h =>
    refine ⟨_, by simp only [encode, lenVarInt_eq h]; rfl, ?_⟩
    exact (((Shortens.refl [0x03]).append hcode.shortens).append hlen.shortens).append (.refl (asBytes reason))
  | openStream streamId idForm hid => exact ⟨_, rfl, (Shortens.refl [0x04]).append hid.shortens⟩
  | settings data streamData frameSize dataForm streamForm sizeForm hdata hstream hsize =>
    exact ⟨_, rfl,
      (((Shortens.refl [0x05]).append hdata.shortens).append hstream.shortens).append hsize.shortens⟩
  | maxData maximum maxForm hmax => exact ⟨_, rfl, (Shortens.refl [0x06]).append hmax.shortens⟩
  | maxStreamData streamId maximum idForm maxForm hid hmax =>
    exact ⟨_, rfl, ((Shortens.refl [0x07]).append hid.shortens).append hmax.shortens⟩
  | stopSending streamId idForm hid => exact ⟨_, rfl, (Shortens.refl [0x08]).append hid.shortens⟩

/-- `b` decodes to `f`, and no shorter input does. -/
def Minimal (f : Frame) (b : Bytes) : Prop :=
  decode b = .ok (f, []) ∧ ∀ c, decode c = .ok (f, []) → b.length ≤ c.length

/-- Whatever decodes to a frame is at least as long as the frame's encoding, and is that encoding if
it is as long: the encoding is the one shortest input for its frame. -/
theorem encode_unique_shortest (b rest : Bytes) (f : Frame) (h : decode b = .ok (f, rest)) :
    (∃ bytes, f.encode [] = .ok bytes ∧ decode bytes = .ok (f, []) ∧ bytes.length ≤ b.length ∧
      (bytes.length = b.length → bytes = b)) ∧ ∀ c c', f.Minimal c → f.Minimal c' → c = c' := by
  have hl := ((decode_ok_iff b f rest).mp h).2
  obtain ⟨bytes, he, hle, heq⟩ := hl.shortens
  have hd := f.decode_encode bytes he
  refine ⟨⟨bytes, he, hd, hle, heq⟩, ?_⟩
  have key (c : Bytes) (hc : f.Minimal c) : bytes = c := by
    obtain ⟨bytes', he', hle', heq'⟩ := ((decode_ok_iff c f []).mp hc.1).2.shortens
    obtain rfl : bytes = bytes' := by rw [he] at he'; exact Except.ok.inj he'
    exact heq' (le_antisymm hle' (hc.2 bytes hd))
  exact fun c c' hc hc' => (key c hc).symm.trans (key c' hc')

/-- An OPEN whose stream id takes four bytes where one is enough. -/
theorem encode_unique_shortest_open :
    (∃ bytes, (openStream ⟨5, by decide⟩).encode [] = .ok bytes ∧
      decode bytes = .ok (openStream ⟨5, by decide⟩, []) ∧
      bytes.length ≤ [0x04, 0x80, 0x00, 0x00, 0x05].length ∧
      (bytes.length = [0x04, 0x80, 0x00, 0x00, 0x05].length → bytes = [0x04, 0x80, 0x00, 0x00, 0x05])) ∧
      ∀ c c', (openStream ⟨5, by decide⟩).Minimal c → (openStream ⟨5, by decide⟩).Minimal c' → c = c' :=
  encode_unique_shortest [0x04, 0x80, 0x00, 0x00, 0x05] [] (openStream ⟨5, by decide⟩) (by decide)

end Frame
end Muxtls
