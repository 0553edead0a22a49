import Mathlib.Tactic.Common

namespace Muxtls

/-- A tokio semaphore: the permits left in it and its closed flag. Permits that are out are held by
the values that own them. The laws of `tokio::sync::Semaphore` it stands for: an acquire takes all the
permits it asks for or none, and fails once the semaphore is closed; a permit that is dropped goes
back in full, also to a closed semaphore; `close` takes no permit away. The queue of waiting acquires
is left out: tokio serves it first in first out, here any acquire that finds its permits may go
first. -/
structure Semaphore where
  permits : Nat
  closed : Bool := false
deriving DecidableEq, Repr

namespace Semaphore

/-- `acquire` when it does not wait, and `try_acquire`: refused on a closed semaphore. -/
def tryAcquire (s : Semaphore) (n : Nat) : Option Semaphore :=
  if s.closed = false ∧ n ≤ s.permits then some { s with permits := s.permits - n } else none

def release (s : Semaphore) (n : Nat) : Semaphore := { s with permits := s.permits + n }

def close (s : Semaphore) : Semaphore := { s with closed := true }

theorem tryAcquire_eq_some (s s' : Semaphore) (n : Nat) (h : s.tryAcquire n = some s') :
    s.closed = false ∧ s'.closed = false ∧ s.permits = s'.permits + n := by
  unfold tryAcquire at h
  split_ifs at h with hc
  cases h
  exact ⟨hc.1, hc.1, by simp only; omega⟩

@[simp] theorem release_zero (s : Semaphore) : s.release 0 = s := rfl

@[simp] theorem release_permits (s : Semaphore) (n : Nat) : (s.release n).permits = s.permits + n := rfl

@[simp] theorem release_closed (s : Semaphore) (n : Nat) : (s.release n).closed = s.closed := rfl

end Semaphore

/-- `permit.as_mut().and_then(|permit| permit.split(count))` with the split part dropped: what the
permit keeps and what goes back to its semaphore. -/
def splitPermit (permit : Option Nat) (count : Nat) : Option Nat × Nat :=
  match permit with
  | none => (none, 0)
  | some p => if count ≤ p then (some (p - count), count) else (some p, 0)

end Muxtls
