import Mathlib.Data.List.Basic

namespace Utf8

/-- A byte that continues a character. -/
def IsContinuation (b : UInt8) : Prop := 0x80 ≤ b.toNat ∧ b.toNat < 0xc0

theorem isContinuation_ofNat (n : Nat) : IsContinuation (UInt8.ofNat (n % 0x40 + 0x80)) := by
  have hlt := Nat.mod_lt n (show 0 < 0x40 by decide)
  have hval : (UInt8.ofNat (n % 0x40 + 0x80)).toNat = n % 0x40 + 0x80 := by
    rw [UInt8.toNat_ofNat']
    omega
  unfold IsContinuation
  omega

/-- Behind its first byte a character has continuation bytes only. -/
theorem encodeChar_tail (c : Char) :
    ∃ b tail, String.utf8EncodeChar c = b :: tail ∧ ∀ x ∈ tail, IsContinuation x := by
  simp only [String.utf8EncodeChar]
  split_ifs
  · exact ⟨_, [], rfl, by simp⟩
  · refine ⟨_, _, rfl, ?_⟩
    simp only [List.mem_cons, List.not_mem_nil, or_false, forall_eq]
    exact isContinuation_ofNat _
  · refine ⟨_, _, rfl, ?_⟩
    simp only [List.mem_cons, List.not_mem_nil, or_false, forall_eq_or_imp, forall_eq]
    exact ⟨isContinuation_ofNat _, isContinuation_ofNat _⟩
  · refine ⟨_, _, rfl, ?_⟩
    simp only [List.mem_cons, List.not_mem_nil, or_false, forall_eq_or_imp, forall_eq]
    exact ⟨isContinuation_ofNat _, isContinuation_ofNat _, isContinuation_ofNat _⟩

/-- Text cut in front of a byte that continues no character is text. -/
theorem take_encode (chars : List Char) (i : Nat)
    (h : ∀ b, (chars.flatMap String.utf8EncodeChar)[i]? = some b → ¬ IsContinuation b) :
    ∃ kept : List Char, (chars.flatMap String.utf8EncodeChar).take i = kept.flatMap String.utf8EncodeChar := by
  induction chars generalizing i with
  | nil => exact ⟨[], by simp⟩
  | cons c chars ih =>
    obtain ⟨b, tail, hc, htail⟩ := encodeChar_tail c
    rw [List.flatMap_cons] at h ⊢
    by_cases hi : (String.utf8EncodeChar c).length ≤ i
    · -- the cut is behind this character
      obtain ⟨kept, hk⟩ := ih (i - (String.utf8EncodeChar c).length) (by
        intro x hx
        apply h x
        rw [List.getElem?_append_right hi]
        exact hx)
      refine ⟨c :: kept, ?_⟩
      rw [List.take_append, List.take_of_length_le hi, hk, List.flatMap_cons]
    · cases i with
      | zero => exact ⟨[], rfl⟩
      | succ i =>
        -- the cut is inside it, in front of one of its continuation bytes
        have hlt : i < tail.length := by
          rw [hc, List.length_cons] at hi
          omega
        have hget : (String.utf8EncodeChar c ++ chars.flatMap String.utf8EncodeChar)[i + 1]? = some tail[i] := by
          rw [hc, List.cons_append, List.getElem?_cons_succ,
            List.getElem?_append_left hlt, List.getElem?_eq_getElem hlt]
        exact absurd (htail _ (List.getElem_mem hlt)) (h _ hget)

end Utf8
