import Muxtls.Connection.Writer
import Muxtls.Lib.Utf8
import Muxtls.Proto.Grammar

namespace Muxtls

/-- The loop that shortens a close reason ends on a character boundary. -/
theorem charBoundaryBelow_boundary (reason : String) (index : Nat) :
    isCharBoundary reason (charBoundaryBelow reason index) = true := by
  induction index with
  | zero => rfl
  | succ index ih =>
    unfold charBoundaryBelow
    split_ifs with hb
    · exact hb
    · exact ih

theorem charBoundaryBelow_le (reason : String) (index : Nat) : charBoundaryBelow reason index ≤ index := by
  induction index with
  | zero => exact Nat.le_refl 0
  | succ index ih =>
    unfold charBoundaryBelow
    split_ifs
    · exact Nat.le_refl _
    · omega

theorem asBytes_eq (s : String) : asBytes s = s.toList.flatMap String.utf8EncodeChar := by
  rw [asBytes, ← String.utf8Encode_toList, List.utf8Encode]
  simp

/-- A reason cut at a character boundary is that many bytes of it. -/
theorem truncate_bytes (reason : String) (len : Nat) (h : isCharBoundary reason len = true) :
    asBytes (truncate reason len) = (asBytes reason).take len := by
  have hkept : ∃ kept : List Char, (asBytes reason).take len = kept.flatMap String.utf8EncodeChar := by
    cases len with
    | zero => exact ⟨[], rfl⟩
    | succ len =>
      rw [asBytes_eq]
      apply Utf8.take_encode
      intro b hb hcont
      rw [← asBytes_eq] at hb
      simp only [isCharBoundary, hb, Nat.add_one_ne_zero, beq_iff_eq, Bool.or_eq_true, false_or,
        decide_eq_true_eq] at h
      unfold Utf8.IsContinuation at hcont
      omega
  obtain ⟨kept, hk⟩ := hkept
  have hsome : fromUtf8 ((asBytes reason).take len) = some (String.ofList kept) := by
    rw [fromUtf8_eq_some, hk, asBytes_eq, String.toList_ofList]
  rw [truncate, hsome, Option.getD_some, ← (fromUtf8_eq_some _ _).mp hsome]

/-- `take_close_frame` keeps a prefix of the reason that is no longer than `maximum`. -/
theorem cut_reason (fitted : String) (maximum : Nat) (reason : String)
    (h : (if (asBytes fitted).length > maximum then truncate fitted (charBoundaryBelow fitted maximum) else fitted) =
      reason) : asBytes reason <+: asBytes fitted ∧ (asBytes reason).length ≤ maximum := by
  subst h
  split_ifs with hlong
  · rw [truncate_bytes _ _ (charBoundaryBelow_boundary _ _)]
    refine ⟨List.take_prefix _ _, ?_⟩
    rw [List.length_take]
    exact (Nat.min_le_left _ _).trans (charBoundaryBelow_le _ _)
  · exact ⟨List.prefix_refl _, Nat.le_of_not_gt hlong⟩

end Muxtls
