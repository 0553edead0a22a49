import Mathlib.Algebra.BigOperators.Ring.Finset
import Mathlib.Algebra.Order.BigOperators.Group.Finset
import Mathlib.Data.List.Sigma

namespace RangeSum

variable {n m : ℕ} {f : ℕ → ℕ}

/-- One term of a finite sum changes. -/
theorem update (f : ℕ → ℕ) {i : ℕ} (hi : i < n) (x : ℕ) :
    (∑ j ∈ Finset.range n, Function.update f i x j) + f i = (∑ j ∈ Finset.range n, f j) + x := by
  have hmem : i ∈ Finset.range n := Finset.mem_range.mpr hi
  have hrest : ∑ j ∈ (Finset.range n).erase i, Function.update f i x j = ∑ j ∈ (Finset.range n).erase i, f j :=
    Finset.sum_congr rfl fun j hj => Function.update_of_ne (Finset.ne_of_mem_erase hj) _ _
  have hnew := Finset.add_sum_erase (Finset.range n) (Function.update f i x) hmem
  have hold := Finset.add_sum_erase (Finset.range n) f hmem
  rw [Function.update_self] at hnew
  omega

/-- Terms that vanish do not count. -/
theorem extend (h : n ≤ m) (hz : ∀ j, n ≤ j → f j = 0) :
    ∑ j ∈ Finset.range m, f j = ∑ j ∈ Finset.range n, f j := by
  refine (Finset.sum_subset (Finset.range_mono h) ?_).symm
  intro j _ hj
  exact hz j (Nat.le_of_not_lt fun hlt => hj (Finset.mem_range.mpr hlt))

/-- One term of a finite sum changes, and the others stay. -/
theorem change (f g : ℕ → ℕ) {i : ℕ} (hi : i < n) (h : ∀ j, j ≠ i → g j = f j) :
    (∑ j ∈ Finset.range n, g j) + f i = (∑ j ∈ Finset.range n, f j) + g i := by
  have hg : g = Function.update f i (g i) := by
    funext j
    by_cases hj : j = i
    · subst hj
      rw [Function.update_self]
    · rw [Function.update_of_ne hj, h j hj]
  have hsum := update f hi (g i)
  rwa [← hg] at hsum

/-- The entries of a map with bounded keys, added up key by key. -/
theorem keyed {β : Type*} (f : β → ℕ) (entries : List (Sigma fun _ : ℕ => β)) (hn : entries.NodupKeys)
    (hb : ∀ k ∈ entries.keys, k < n) :
    (entries.map fun entry => f entry.2).sum =
      ∑ j ∈ Finset.range n, ((entries.dlookup j).map f).getD 0 := by
  induction entries with
  | nil => simp
  | cons entry entries ih =>
    obtain ⟨k, v⟩ := entry
    obtain ⟨hk, hn⟩ := List.nodupKeys_cons.mp hn
    simp only [List.keys_cons, List.mem_cons, forall_eq_or_imp] at hb
    have hother : ∀ j, j ≠ k → ((List.dlookup j (⟨k, v⟩ :: entries)).map f).getD 0 =
        ((List.dlookup j entries).map f).getD 0 := by
      intro j hj
      rw [List.dlookup_cons_ne entries ⟨k, v⟩ hj]
    have hsum := change _ _ hb.1 hother
    rw [List.dlookup_cons_eq, List.dlookup_eq_none.mpr hk] at hsum
    simp only [Option.map_some, Option.getD_some, Option.map_none, Option.getD_none, Nat.add_zero] at hsum
    rw [List.map_cons, List.sum_cons, ih hn hb.2, hsum, Nat.add_comm]

theorem le_sum (f : ℕ → ℕ) {i : ℕ} (hi : i < n) : f i ≤ ∑ j ∈ Finset.range n, f j :=
  Finset.single_le_sum (fun _ _ => Nat.zero_le _) (Finset.mem_range.mpr hi)

/-- A finite sum of flags counts those that are set. -/
theorem card_filter (n : ℕ) (p : ℕ → Bool) :
    ((Finset.range n).filter fun j => p j).card = ∑ j ∈ Finset.range n, (p j).toNat := by
  rw [Finset.card_filter]
  refine Finset.sum_congr rfl fun j _ => ?_
  cases p j <;> rfl

/-- A list is no longer than its parts, if each of its elements is in one of them. -/
theorem length_le {α : Type*} (xs : List α) (p : α → Bool) (q : ℕ → α → Bool)
    (h : ∀ x ∈ xs, p x = true ∨ ∃ j < n, q j x = true) :
    xs.length ≤ xs.countP p + ∑ j ∈ Finset.range n, xs.countP (q j) := by
  induction xs with
  | nil => exact Nat.zero_le _
  | cons x xs ih =>
    have hrest := ih fun y hy => h y (List.mem_cons_of_mem x hy)
    simp only [List.countP_cons, Finset.sum_add_distrib, List.length_cons]
    have hone : 1 ≤ (if p x = true then 1 else 0) + ∑ j ∈ Finset.range n, (if q j x = true then 1 else 0) := by
      rcases h x List.mem_cons_self with hp | ⟨j, hj, hq⟩
      · rw [if_pos hp]
        exact Nat.le_add_right _ _
      · have hle := le_sum (fun j => if q j x = true then 1 else 0) hj
        simp only [hq, if_true] at hle
        omega
    omega

end RangeSum
