import Mathlib.Data.List.Basic
import Muxtls.Lib.BigEndian

namespace Muxtls

abbrev Bytes := List UInt8

/-- `VarInt::MAX`. -/
def varIntMax : Nat := 2 ^ 62 - 1

/-- QUIC-style variable-length integer. The constructor is private to `from_u64` in the source, so
every value is in range. -/
structure VarInt where
  intoInner : Nat
  le_max : intoInner ≤ varIntMax
deriving DecidableEq

inductive VarIntError where
  | valueTooLarge (value : Nat)
  | unexpectedEof
deriving DecidableEq, Repr

namespace VarInt

def fromU64 (v : Nat) : Except VarIntError VarInt :=
  if h : v > varIntMax then .error (.valueTooLarge v) else .ok ⟨v, Nat.le_of_not_lt h⟩

/-- `VarInt::from_u64(v).expect(..)` on validated limits and issued stream ids, which are in
range: the bound is never met. -/
def expect (v : Nat) : VarInt := ⟨min v varIntMax, Nat.min_le_right _ _⟩

/-- The number of bytes used by the canonical encoding. -/
def encodedLen (v : VarInt) : Nat :=
  if v.intoInner ≤ 0x3f then 1
  else if v.intoInner ≤ 0x3fff then 2
  else if v.intoInner ≤ 0x3fff_ffff then 4
  else 8

/-- The bytes `encode` appends; `put_u8`, `put_u16`, `put_u32` and `put_u64` write big-endian, after
the `as` cast to the width they take. -/
def encode (v : VarInt) : Bytes :=
  if v.intoInner ≤ 0x3f then BigEndian.bytes 1 (v.intoInner % 2 ^ 8)
  else if v.intoInner ≤ 0x3fff then BigEndian.bytes 2 (0x4000 ||| v.intoInner % 2 ^ 16)
  else if v.intoInner ≤ 0x3fff_ffff then BigEndian.bytes 4 (0x8000_0000 ||| v.intoInner % 2 ^ 32)
  else BigEndian.bytes 8 (0xc000_0000_0000_0000 ||| v.intoInner)

/-- Decodes one varint and returns the bytes left in the source buffer. -/
def decode : Bytes → Except VarIntError (VarInt × Bytes)
  | [] => .error .unexpectedEof
  | first :: src =>
    match first.toNat >>> 6, src with
    | 0, src => do
      let value ← fromU64 (first.toNat &&& 0x3f)
      return (value, src)
    | 1, b₁ :: src => do
      let value ← fromU64 ((first.toNat &&& 0x3f) <<< 8 ||| b₁.toNat)
      return (value, src)
    | 2, b₁ :: b₂ :: b₃ :: src => do
      let value ← fromU64 ((first.toNat &&& 0x3f) <<< 24 ||| b₁.toNat <<< 16 ||| b₂.toNat <<< 8 |||
        b₃.toNat)
      return (value, src)
    | _ + 3, b₁ :: b₂ :: b₃ :: b₄ :: b₅ :: b₆ :: b₇ :: src => do
      let value ← fromU64 ((first.toNat &&& 0x3f) <<< 56 ||| b₁.toNat <<< 48 ||| b₂.toNat <<< 40 |||
        b₃.toNat <<< 32 ||| b₄.toNat <<< 24 ||| b₅.toNat <<< 16 ||| b₆.toNat <<< 8 ||| b₇.toNat)
      return (value, src)
    | _, _ => .error .unexpectedEof

theorem ext_inner {v w : VarInt} (h : v.intoInner = w.intoInner) : v = w := by
  cases v; cases w; simpa using h

@[simp] theorem fromU64_intoInner (v : VarInt) : fromU64 v.intoInner = .ok v := by
  have h : ¬ v.intoInner > varIntMax := Nat.not_lt.mpr v.le_max
  simp [fromU64, h]

theorem fromU64_eq_ok (n : Nat) (h : n ≤ varIntMax) : fromU64 n = .ok ⟨n, h⟩ :=
  fromU64_intoInner ⟨n, h⟩

theorem expect_intoInner (n : Nat) (h : n ≤ varIntMax) : (expect n).intoInner = n := by
  simp [expect, h]

@[simp] theorem expect_inner (v : VarInt) : expect v.intoInner = v :=
  ext_inner (expect_intoInner v.intoInner v.le_max)

theorem fromU64_ok_iff (n : Nat) (v : VarInt) : fromU64 n = .ok v ↔ v.intoInner = n := by
  constructor
  · intro h
    unfold fromU64 at h
    split at h
    · cases h
    · cases h; rfl
  · rintro rfl
    exact fromU64_intoInner v

theorem encode_length (v : VarInt) : v.encode.length = v.encodedLen := by
  unfold encode encodedLen
  split_ifs <;> simp

theorem encodedLen_le (v : VarInt) : v.encodedLen ≤ 8 := by
  unfold encodedLen
  split_ifs <;> omega

theorem encodedLen_mono {v w : VarInt} (h : v.intoInner ≤ w.intoInner) :
    v.encodedLen ≤ w.encodedLen := by
  unfold encodedLen
  split_ifs <;> omega

/-- The tag bits and the value bits of the first byte. -/
theorem first_fields (first : UInt8) :
    first.toNat >>> 6 = first.toNat / 64 ∧ first.toNat &&& 0x3f = first.toNat % 64 := by
  refine ⟨by rw [Nat.shiftRight_eq_div_pow], ?_⟩
  exact Nat.and_two_pow_sub_one_eq_mod first.toNat 6

private theorem join_byte (a k : Nat) (b : UInt8) :
    a <<< (k + 8) ||| b.toNat <<< k = (a * 256 + b.toNat) <<< k := by
  have hb : b.toNat < 2 ^ 8 := b.toNat_lt
  rw [Nat.add_comm k 8, Nat.shiftLeft_add, ← Nat.shiftLeft_or_distrib, BigEndian.shift_or _ _ _ hb]
  rfl

private theorem join_last (a : Nat) (b : UInt8) : a <<< 8 ||| b.toNat = a * 256 + b.toNat :=
  BigEndian.shift_or a b.toNat 8 b.toNat_lt

private theorem seven_bytes {tail : Bytes} (h : tail.length = 7) :
    ∃ b₁ b₂ b₃ b₄ b₅ b₆ b₇, tail = [b₁, b₂, b₃, b₄, b₅, b₆, b₇] := by
  obtain ⟨b₁, b₂, b₃, h₁⟩ := List.length_eq_three.mp (show (tail.take 3).length = 3 by simp [h])
  obtain ⟨b₄, b₅, b₆, h₂⟩ := List.length_eq_three.mp (show ((tail.drop 3).take 3).length = 3 by simp [h])
  obtain ⟨b₇, h₃⟩ := List.length_eq_one_iff.mp (show ((tail.drop 3).drop 3).length = 1 by simp [h])
  refine ⟨b₁, b₂, b₃, b₄, b₅, b₆, b₇, ?_⟩
  rw [← List.take_append_drop 3 tail, ← List.take_append_drop 3 (tail.drop 3), h₁, h₂, h₃]
  rfl

/-- The value `decode` reads from a first byte and `k` following bytes. -/
def wireValue (first : UInt8) (tail : Bytes) : Nat :=
  first.toNat % 64 * 256 ^ tail.length + BigEndian.value tail

/-- The number of bytes after the first one that the tag bits announce. -/
def tailLen (first : UInt8) : Nat :=
  match first.toNat / 64 with
  | 0 => 0
  | 1 => 1
  | 2 => 3
  | _ => 7

theorem wireValue_le (first : UInt8) (tail : Bytes) (h : tail.length ≤ 7) :
    wireValue first tail ≤ varIntMax := by
  have hv := BigEndian.value_lt tail
  have hp : 256 ^ tail.length ≤ 256 ^ 7 := Nat.pow_le_pow_right (by decide) h
  have hm : first.toNat % 64 * 256 ^ tail.length ≤ 63 * 256 ^ tail.length :=
    Nat.mul_le_mul_right _ (by omega)
  unfold wireValue varIntMax
  omega

theorem tailLen_le (first : UInt8) : tailLen first ≤ 7 := by
  unfold tailLen
  split <;> omega

/-- On enough input, `decode` reads exactly the bytes the tag announces. -/
theorem decode_tail (first : UInt8) (tail src : Bytes) (h : tail.length = tailLen first) :
    ∃ v : VarInt, v.intoInner = wireValue first tail ∧
      decode (first :: (tail ++ src)) = .ok (v, src) := by
  have hle := wireValue_le first tail (h ▸ tailLen_le first)
  refine ⟨⟨wireValue first tail, hle⟩, rfl, ?_⟩
  obtain ⟨htag, hlow⟩ := first_fields first
  have hok := fromU64_eq_ok _ hle
  have hf : first.toNat / 64 < 4 := by have := first.toNat_lt; omega
  unfold tailLen at h
  unfold decode
  simp only [htag, hlow]
  rcases hq : first.toNat / 64 with _ | _ | _ | n
  · have ht : tail = [] := List.eq_nil_of_length_eq_zero (by simpa [hq] using h)
    subst ht
    have he : first.toNat % 64 = wireValue first [] := by simp [wireValue, BigEndian.value]
    simp only [List.nil_append]
    rw [he, hok]
    rfl
  · obtain ⟨b₁, rfl⟩ := List.length_eq_one_iff.mp (by simpa [hq] using h)
    have he : (first.toNat % 64) <<< 8 ||| b₁.toNat = wireValue first [b₁] := by
      rw [join_last]
      simp [wireValue, BigEndian.value]
    simp only [List.cons_append, List.nil_append, he, hok]
    rfl
  · obtain ⟨b₁, b₂, b₃, rfl⟩ := List.length_eq_three.mp (by simpa [hq] using h)
    have he : (first.toNat % 64) <<< 24 ||| b₁.toNat <<< 16 ||| b₂.toNat <<< 8 ||| b₃.toNat =
        wireValue first [b₁, b₂, b₃] := by
      rw [join_byte _ 16, join_byte _ 8, join_last]
      simp only [wireValue, BigEndian.value, List.length_cons, List.length_nil]
      omega
    simp only [List.cons_append, List.nil_append, he, hok]
    rfl
  · have h7 : tail.length = 7 := by simpa [hq] using h
    obtain ⟨b₁, b₂, b₃, b₄, b₅, b₆, b₇, rfl⟩ := seven_bytes h7
    have he : (first.toNat % 64) <<< 56 ||| b₁.toNat <<< 48 ||| b₂.toNat <<< 40 |||
        b₃.toNat <<< 32 ||| b₄.toNat <<< 24 ||| b₅.toNat <<< 16 ||| b₆.toNat <<< 8 ||| b₇.toNat =
        wireValue first [b₁, b₂, b₃, b₄, b₅, b₆, b₇] := by
      rw [join_byte _ 48, join_byte _ 40, join_byte _ 32, join_byte _ 24, join_byte _ 16,
        join_byte _ 8, join_last]
      simp only [wireValue, BigEndian.value, List.length_cons, List.length_nil]
      omega
    simp only [List.cons_append, List.nil_append, he, hok]
    rfl

/-- The encoder writes the tag and the value as one big-endian integer. -/
theorem encode_tail (v : VarInt) :
    ∃ first tail, v.encode = first :: tail ∧ tail.length = tailLen first ∧
      wireValue first tail = v.intoInner := by
  have hmax := v.le_max
  unfold varIntMax at hmax
  -- `w` is the tagged integer; its top byte carries the tag, the rest is the value.
  have key (t n w : Nat)
      (hn : t = 0 ∧ n = 0 ∨ t = 1 ∧ n = 1 ∨ t = 2 ∧ n = 3 ∨ t = 3 ∧ n = 7)
      (hw : w = t * 64 * 256 ^ n + v.intoInner) (hv : v.intoInner < 64 * 256 ^ n) :
      ∃ first tail, BigEndian.bytes (n + 1) w = first :: tail ∧ tail.length = tailLen first ∧
        wireValue first tail = v.intoInner := by
    have hval : BigEndian.value (BigEndian.bytes (n + 1) w) = w := by
      apply BigEndian.value_bytes
      rcases hn with ⟨rfl, rfl⟩ | ⟨rfl, rfl⟩ | ⟨rfl, rfl⟩ | ⟨rfl, rfl⟩ <;> omega
    have hlow := BigEndian.value_lt (BigEndian.bytes n w)
    rw [BigEndian.bytes, BigEndian.value] at hval
    rw [BigEndian.bytes_length] at hval hlow
    have htag : (UInt8.ofNat (w / 256 ^ n)).toNat / 64 = t := by
      rcases hn with ⟨rfl, rfl⟩ | ⟨rfl, rfl⟩ | ⟨rfl, rfl⟩ | ⟨rfl, rfl⟩ <;> omega
    refine ⟨_, _, rfl, ?_, ?_⟩
    · rw [BigEndian.bytes_length, tailLen, htag]
      rcases hn with ⟨rfl, rfl⟩ | ⟨rfl, rfl⟩ | ⟨rfl, rfl⟩ | ⟨rfl, rfl⟩ <;> rfl
    · rw [wireValue, BigEndian.bytes_length]
      have hsplit := Nat.div_add_mod (UInt8.ofNat (w / 256 ^ n)).toNat 64
      rw [htag] at hsplit
      rw [← hsplit, add_mul, mul_comm 64 t] at hval
      omega
  unfold encode
  split_ifs with h1 h2 h3
  · have hw : v.intoInner % 2 ^ 8 = 0 * 64 * 256 ^ 0 + v.intoInner := by omega
    exact key 0 0 _ (by decide) hw (by omega)
  · have hw : 0x4000 ||| v.intoInner % 2 ^ 16 = 1 * 64 * 256 ^ 1 + v.intoInner := by
      rw [Nat.mod_eq_of_lt (by omega)]
      exact BigEndian.shift_or 1 v.intoInner 14 (by omega)
    exact key 1 1 _ (by decide) hw (by omega)
  · have hw : 0x8000_0000 ||| v.intoInner % 2 ^ 32 = 2 * 64 * 256 ^ 3 + v.intoInner := by
      rw [Nat.mod_eq_of_lt (by omega)]
      exact BigEndian.shift_or 2 v.intoInner 30 (by omega)
    exact key 2 3 _ (by decide) hw (by omega)
  · have hw : 0xc000_0000_0000_0000 ||| v.intoInner = 3 * 64 * 256 ^ 7 + v.intoInner :=
      BigEndian.shift_or 3 v.intoInner 62 (by omega)
    exact key 3 7 _ (by decide) hw (by omega)

/-- Decoding an encoded value gives it back and leaves what follows it. -/
theorem decode_encode (v : VarInt) (src : Bytes) : decode (v.encode ++ src) = .ok (v, src) := by
  obtain ⟨first, tail, he, hl, hw⟩ := encode_tail v
  obtain ⟨w, hv, hd⟩ := decode_tail first tail src hl
  have hvw : w = v := ext_inner (hv.trans hw)
  rw [he, List.cons_append, hd, hvw]

end VarInt
end Muxtls
