import Muxtls.Connection.Log
import Muxtls.Schedule.Passive
import Muxtls.Schedule.Turn
import Muxtls.Sender.Reach

namespace Muxtls
namespace Shared

variable (s : Shared)

/-- The flags a connection is closed with, and that of its admission semaphore. -/
def flags : Bool × Bool × Bool × Bool := (s.closed, s.terminated, s.cleanupStarted, s.openStreams.closed)

theorem dataPass_flags (n : Nat) : (s.dataPass n).1.flags = s.flags := by
  induction n generalizing s with
  | zero => rfl
  | succ n ih =>
    unfold dataPass
    split
    · rfl
    · split
      · rfl
      · rfl
      · split_ifs
        · rfl
        · exact ih _

theorem dataTurn_flags : s.dataTurn.1.flags = s.flags := by
  have h := s.dataPass_flags s.queues.ready.length
  unfold dataTurn
  split
  · rename_i s' turn hp
    rw [hp] at h
    exact h
  · rename_i s' hp
    rw [hp] at h
    split_ifs
    · exact h
    · unfold closeTurn
      split <;> exact h
    · exact h

theorem nextFrame_flags (order : List Nat) : (s.nextFrame order).1.flags = s.flags := by
  unfold nextFrame
  split_ifs
  · unfold closeTurn
    split <;> rfl
  · split
    · rename_i s' f hc
      obtain ⟨inbox, control, rfl⟩ := s.controlPass_frame order (s', f) hc
      rfl
    · exact s.dataTurn_flags
  · exact s.dataTurn_flags

/-- What `initiate_close` leaves behind when it publishes a close. -/
structure Published (s s' : Shared) (errorCode : Nat) (fitted : String) : Prop where
  closed : s'.closed = true
  terminated : s'.terminated = s.terminated
  sealed : s'.openStreams.closed = true
  queues : ∃ code : ErrorCode, code.intoInner = errorCode ∧
    s'.queues = s.queues.publishClose code fitted (errorCode == 0)

theorem initiateClose_published {errorCode : Nat} {reason fitted : String} (hclosed : s.closed = false)
    (hfit : s.limits.fitCloseReason errorCode reason = .ok fitted) (hcode : errorCode ≤ 1) :
    s.Published (s.initiateClose errorCode reason).1 errorCode fitted := by
  obtain ⟨code, hok, hinner⟩ := fromU64_code errorCode hcode
  unfold initiateClose
  simp only [hfit, hok, hclosed, Bool.false_eq_true, if_false]
  exact ⟨rfl, rfl, rfl, code, hinner, rfl⟩

end Shared

namespace Endpoint

variable {l : Limits} {isClient : Bool} {e e' : Endpoint} {log evs : List Event}

theorem turn_flags {order : List Nat} (h : e.step (.nextFrame order) = some (e', evs)) :
    e'.shared.flags = e.shared.flags := by
  rw [(nextFrame_inv h).2.1]
  exact e.shared.nextFrame_flags order

/-- No step reopens a connection or its admission semaphore, or leaves it terminated and not closed. -/
theorem flags_of_step (a : Act) (h : e.step a = some (e', evs)) :
    (e.shared.Ended → e'.shared.Ended) ∧
      (e.shared.openStreams.closed = true → e'.shared.openStreams.closed = true) := by
  by_cases hn : ∃ order, a = .nextFrame order
  · obtain ⟨order, rfl⟩ := hn
    have hf := turn_flags h
    simp only [Shared.flags, Prod.mk.injEq] at hf
    obtain ⟨hc, ht, hs, ho⟩ := hf
    rw [ho]
    exact ⟨fun he => ⟨by rw [hc, ht]; exact he.1, by rw [ht, hs]; exact he.2⟩, fun he => he⟩
  · have hp := (passive_of_step a h fun order ho => hn ⟨order, ho⟩).1
    exact ⟨hp.ended, hp.sealed⟩

theorem reach_ended (h : (machine l isClient).Reach e log) : e.shared.Ended := by
  refine h.invariant (fun e _ => e.shared.Ended) ?_ ?_
  · intro e he
    rw [(connect_ok he).2]
    exact ⟨fun hc => hc, fun hc => hc⟩
  · rintro e tr evs e' - he ⟨a, ha⟩
    exact (flags_of_step a ha).1 he

/-- The admission semaphore of an open connection is open. -/
theorem reach_unsealed_open (h : (machine l isClient).Reach e log) :
    e.shared.openStreams.closed = true → e.shared.closed = true := by
  refine h.invariant (fun e _ => e.shared.openStreams.closed = true → e.shared.closed = true) ?_ ?_
  · intro e he
    rw [(connect_ok he).2]
    exact fun hs => hs
  · rintro e tr evs e' - hu ⟨a, ha⟩
    by_cases hn : ∃ order, a = .nextFrame order
    · obtain ⟨order, rfl⟩ := hn
      have hf := turn_flags ha
      simp only [Shared.flags, Prod.mk.injEq] at hf
      obtain ⟨hc, -, -, ho⟩ := hf
      rw [hc, ho]
      exact hu
    · exact (passive_of_step a ha fun order ho => hn ⟨order, ho⟩).1.unsealed hu

/-- A step that logs the publication of a close has published it. -/
theorem published_of_step (a : Act) (h : e.step a = some (e', evs)) {code : Nat} {reason fitted : String}
    (hm : .closing code reason fitted ∈ evs) : e.shared.Published e'.shared code fitted := by
  obtain ⟨hclosed, hfit, ⟨rfl, rfl | ⟨rfl, rfl⟩⟩ | ⟨rfl, task, ops, rfl, ht⟩⟩ := step_logs a h _ hm
  · have hp := e.shared.initiateClose_published hclosed hfit (Nat.zero_le 1)
    cases step_cases h with
    | closeRefused => cases hm
    | close _ s hc =>
      rw [Shared.initiateClose_of_close hc] at hp
      exact hp
  · cases step_cases h
    exact e.shared.initiateClose_published hclosed hfit (Nat.zero_le 1)
  · cases step_cases h with
    | work _ op ops' ht' =>
      cases ht.symm.trans ht'
      exact e.shared.initiateClose_published hclosed hfit (le_refl 1)

theorem reach_published (h : (machine l isClient).Reach e log) {code : Nat} {reason fitted : String}
    (hm : .closing code reason fitted ∈ log) : e.shared.closed = true ∧ e.shared.openStreams.closed = true := by
  refine h.invariant (fun e log => .closing code reason fitted ∈ log →
    e.shared.closed = true ∧ e.shared.openStreams.closed = true) ?_ ?_ hm
  · intro e _ hm
    cases hm
  · rintro e tr evs e' hr ih ⟨a, ha⟩ hm
    rcases List.mem_append.mp hm with hm | hm
    · obtain ⟨hc, ho⟩ := ih hm
      exact ⟨Sender.closed_step (reach_sendStep hr a ha) hc, (flags_of_step a ha).2 ho⟩
    · have hp := published_of_step a ha hm
      exact ⟨hp.closed, hp.sealed⟩

end Endpoint
end Muxtls
