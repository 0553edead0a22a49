import Muxtls.Connection.Endpoint

namespace Muxtls

/-- The counters an endpoint issues and accepts stream ids with. -/
structure Ids where
  parity : Nat
  nextLocal : Nat
  nextRemote : Nat

namespace Ids

/-- The id was issued by this side or accepted from the peer. -/
def Opened (i : Ids) (id : Nat) : Prop :=
  id < if id % 2 = i.parity then i.nextLocal else i.nextRemote

instance (i : Ids) (id : Nat) : Decidable (i.Opened id) :=
  inferInstanceAs (Decidable (id < _))

def takeLocal (i : Ids) : Ids := { i with nextLocal := i.nextLocal + 2 }

def takeRemote (i : Ids) : Ids := { i with nextRemote := i.nextRemote + 2 }

/-- Each counter keeps its parity and passes the largest id by at most one step. -/
structure WF (i : Ids) : Prop where
  parity_le : i.parity ≤ 1
  local_parity : i.nextLocal % 2 = i.parity
  remote_parity : i.nextRemote % 2 = 1 - i.parity
  local_le : i.nextLocal ≤ varIntMax + 2
  remote_le : i.nextRemote ≤ varIntMax + 2

def start (isClient : Bool) : Ids where
  parity := if isClient then 0 else 1
  nextLocal := if isClient then 0 else 1
  nextRemote := if isClient then 1 else 0

theorem start_wf (isClient : Bool) : (start isClient).WF := by
  cases isClient
  · exact ⟨by decide, by decide, by decide, by decide, by decide⟩
  · exact ⟨by decide, by decide, by decide, by decide, by decide⟩

theorem not_opened_start (isClient : Bool) (id : Nat) : ¬ (start isClient).Opened id := by
  cases isClient <;> simp only [Opened, start] <;> split_ifs <;> omega

theorem WF.takeLocal {i : Ids} (hi : i.WF) (h : i.nextLocal ≤ varIntMax) : i.takeLocal.WF where
  parity_le := hi.parity_le
  local_parity := (Nat.add_mod_right _ _).trans hi.local_parity
  remote_parity := hi.remote_parity
  local_le := Nat.add_le_add_right h 2
  remote_le := hi.remote_le

theorem WF.takeRemote {i : Ids} (hi : i.WF) (h : i.nextRemote ≤ varIntMax) : i.takeRemote.WF where
  parity_le := hi.parity_le
  local_parity := hi.local_parity
  remote_parity := (Nat.add_mod_right _ _).trans hi.remote_parity
  local_le := hi.local_le
  remote_le := Nat.add_le_add_right h 2

theorem Opened.le {i : Ids} (hi : i.WF) {id : Nat} (h : i.Opened id) : id ≤ varIntMax := by
  obtain ⟨hp, hl, hr, hll, hrl⟩ := hi
  unfold Opened at h
  split_ifs at h with hid <;> omega

theorem opened_takeLocal {i : Ids} (hi : i.WF) (id : Nat) :
    i.takeLocal.Opened id ↔ i.Opened id ∨ id = i.nextLocal := by
  obtain ⟨hp, hl, hr, -, -⟩ := hi
  unfold Opened takeLocal
  simp only
  split_ifs with hid <;> omega

theorem opened_takeRemote {i : Ids} (hi : i.WF) (id : Nat) :
    i.takeRemote.Opened id ↔ i.Opened id ∨ id = i.nextRemote := by
  obtain ⟨hp, hl, hr, -, -⟩ := hi
  unfold Opened takeRemote
  simp only
  split_ifs with hid <;> omega

/-- A bound on the ids of opened streams. -/
def bound (i : Ids) : Nat := max i.nextLocal i.nextRemote

theorem Opened.lt_bound {i : Ids} {id : Nat} (h : i.Opened id) : id < i.bound := by
  unfold Opened at h
  unfold bound
  split_ifs at h <;> omega

theorem bound_takeLocal (i : Ids) : i.bound ≤ i.takeLocal.bound := by
  simp only [bound, takeLocal]
  omega

theorem bound_takeRemote (i : Ids) : i.bound ≤ i.takeRemote.bound := by
  simp only [bound, takeRemote]
  omega

theorem not_opened_nextLocal {i : Ids} (hi : i.WF) : ¬ i.Opened i.nextLocal := by
  have hl := hi.local_parity
  unfold Opened
  rw [if_pos hl]
  exact lt_irrefl _

theorem not_opened_nextRemote {i : Ids} (hi : i.WF) : ¬ i.Opened i.nextRemote := by
  have hr := hi.remote_parity
  have hp := hi.parity_le
  unfold Opened
  rw [if_neg (by omega)]
  exact lt_irrefl _

end Ids

def Shared.ids (s : Shared) : Ids := ⟨s.localParity, s.nextLocalStreamId, s.nextRemoteStreamId⟩

theorem Shared.unopened_eq_false (s : Shared) (id : Nat) : s.unopened id = false ↔ s.ids.Opened id := by
  unfold Shared.unopened Ids.Opened Shared.ids
  rw [decide_eq_false_iff_not, not_le]

end Muxtls
