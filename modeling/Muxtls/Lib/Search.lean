import Mathlib.Order.Bounds.Defs

namespace Search

variable {accepts : Nat → Bool} {low high : Nat}

/-- Binary search for the last accepted number, with the middle rounded up. -/
def last (accepts : Nat → Bool) (low high : Nat) : Nat :=
  if low < high then
    let middle := low + (high - low + 1) / 2
    if accepts middle then last accepts middle high else last accepts low (middle - 1)
  else low
termination_by high - low

/-- If what is accepted is closed downwards and the low end is accepted, the search is exact. -/
theorem last_isGreatest (hdown : ∀ m n, m ≤ n → accepts n = true → accepts m = true) (hle : low ≤ high)
    (hlow : accepts low = true) : IsGreatest {n | n ≤ high ∧ accepts n = true} (last accepts low high) := by
  fun_induction last accepts low high with
  | case1 low high hlt middle hacc ih => exact ih (by omega) hacc
  | case2 low high hlt middle hacc ih =>
    obtain ⟨⟨hn, ha⟩, hub⟩ := ih (by omega) hlow
    -- the middle is refused, so nothing from it upwards is accepted
    have hlt (n : Nat) (ha : accepts n = true) : n < middle :=
      Nat.lt_of_not_le fun hge => hacc (hdown middle n hge ha)
    exact ⟨⟨by omega, ha⟩, fun n hn => hub ⟨Nat.le_sub_one_of_lt (hlt n hn.2), hn.2⟩⟩
  | case3 low high hge =>
    exact ⟨⟨hle, hlow⟩, fun n hn => Nat.le_trans hn.1 (Nat.le_of_not_lt hge)⟩

end Search
