import Muxtls.Connection.Core
import Muxtls.Stream.Poll

namespace Muxtls
namespace Shared

variable {l : Limits} {s s' : Shared} {id : Nat} {payload : Bytes} {fin : Bool} {evs : List Event}
  {result : Option (Except Error Unit)}

/-- Nothing can be enqueued for the stream any more. -/
def Dead (s : Shared) (id : Nat) : Prop := s.closed = true ∨ (s.send id).sendTerminal = true

/-- What `queue_stream_chunk` can do up to its next await. -/
inductive Queues (s : Shared) (id : Nat) (payload : Bytes) (fin : Bool) :
    Shared → List Event → Option (Except Error Unit) → Prop
  | failed (s' : Shared) (error : Error) (hdead : s.Dead id)
    (hold : ∀ w, (s.send id).pending = some w → w.stage ≠ .enqueued) (hp : (s'.send id).pending = none)
    (he : ∀ message, error ≠ .limitExceeded message) : Queues s id payload fin s' [] (some (.error error))
  | oversized (error : Error) (hp : (s.send id).pending = none) (h : s.checkChunk id payload fin = .error error) :
    Queues s id payload fin s [] (some (.error error))
  | empty (hp : (s.send id).pending = none) (h : payload = [] ∧ fin = false) :
    Queues s id payload fin s [] (some (.ok ()))
  | locked (hp : (s.send id).pending = none) :
    Queues s id payload fin (s.setPending id (some ⟨payload, fin, .locked⟩)) [] none
  | acquired (w : PendingWrite) (stage : WriteStage) (s' : Shared) (hw : (s.send id).pending = some w)
    (hold : w.stage ≠ .enqueued) (hst : stage ≠ .enqueued) (hp : (s'.send id).pending = some { w with stage }) :
    Queues s id payload fin s' [] none
  | enqueued (w : PendingWrite) (s' : Shared) (hw : (s.send id).pending = some w) (hst : w.stage ≠ .enqueued)
    (hlive : ¬ s.Dead id)
    (hp : (s'.send id).pending = if w.fin then some { w with stage := .enqueued } else none) :
    Queues s id payload fin s' [.queued id w.payload w.fin] (if w.fin then none else some (.ok ()))
  | finished (w : PendingWrite) (s' : Shared) (hw : (s.send id).pending = some w) (hst : w.stage = .enqueued)
    (hp : (s'.send id).pending = none) (ht : (s'.send id).sendTerminal = true) :
    Queues s id payload fin s' [] (some (.ok ()))

theorem pending_setPending (s : Shared) (id : Nat) (pending : Option PendingWrite) :
    ((s.setPending id pending).send id).pending = pending := by
  simp [setPending]

theorem pending_cancelWrite (s : Shared) (id : Nat) : ((s.cancelWrite id).send id).pending = none := by
  cases hw : (s.send id).pending with
  | none =>
    unfold cancelWrite
    rw [hw]
    exact hw
  | some w =>
    rw [cancelWrite_eq w hw]
    exact pending_setPending _ id none

theorem acquireStage_cases {w : PendingWrite} {stage : WriteStage} {sem : Semaphore} {n : Nat}
    {set : Semaphore → OutboundBudget} (h : s.acquireStage id w stage sem n set = some s') :
    sem.closed = true ∧ s' = s.cancelWrite id ∨ (s'.send id).pending = some { w with stage } := by
  unfold acquireStage at h
  split_ifs at h with hc
  · cases h
    exact .inl ⟨hc, rfl⟩
  · obtain ⟨sem', -, rfl⟩ := Option.map_eq_some_iff.mp h
    exact .inr (pending_setPending _ id _)

/-- A permit is refused only once the stream is dead. -/
theorem acquireWrite_cases (hu : s.Unsealed) {w : PendingWrite} (hw : (s.send id).pending = some w)
    (h : s.acquireWrite id = some s') :
    s.Dead id ∧ s' = s.cancelWrite id ∨
      ∃ stage, stage ≠ .enqueued ∧ (s'.send id).pending = some { w with stage } := by
  have hof : ∀ {stage : WriteStage} {sem : Semaphore}, stage ≠ .enqueued →
      (s.closed = false → sem.closed = true → (s.send id).sendTerminal = true) →
      (sem.closed = true ∧ s' = s.cancelWrite id ∨ (s'.send id).pending = some { w with stage }) →
      s.Dead id ∧ s' = s.cancelWrite id ∨
        ∃ stage, stage ≠ .enqueued ∧ (s'.send id).pending = some { w with stage } := by
    intro stage sem hst hsem hcases
    refine hcases.imp (fun ⟨hc, he⟩ => ⟨?_, he⟩) fun hp => ⟨stage, hst, hp⟩
    cases hclosed : s.closed with
    | true => exact .inl hclosed
    | false => exact .inr (hsem hclosed hc)
  have hshut : ∀ {b : Bool}, (s.closed = false → b = false) → s.closed = false → b = true →
      (s.send id).sendTerminal = true := by
    intro b hb hc ht
    rw [hb hc] at ht
    cases ht
  unfold acquireWrite at h
  rw [hw] at h
  obtain ⟨payload, fin, stage⟩ := w
  cases stage with
  | locked => exact hof (by simp) (hshut fun hc => ((hu hc).2.2 id).1) (acquireStage_cases h)
  | streamFrame =>
    simp only at h
    split_ifs at h
    · cases h
      exact .inr ⟨.streamBytes, by simp, pending_setPending _ id _⟩
    · exact hof (by simp) (fun hc => ((hu hc).2.2 id).2) (acquireStage_cases h)
  | streamBytes => exact hof (by simp) (hshut fun hc => (hu hc).2.1) (acquireStage_cases h)
  | frame =>
    simp only at h
    split_ifs at h
    · cases h
      exact .inr ⟨.connBytes, by simp, pending_setPending _ id _⟩
    · exact hof (by simp) (hshut fun hc => (hu hc).1) (acquireStage_cases h)
  | connBytes => cases h
  | enqueued => cases h

theorem startWrite_queues (hp : (s.send id).pending = none) {r : Except Error Unit}
    (h : s.startWrite id payload fin = some (s', r)) :
    s.Queues id payload fin s' [] (match r with
      | .error error => some (.error error)
      | .ok () => if (s'.send id).pending.isNone then some (.ok ()) else none) := by
  unfold startWrite at h
  split_ifs at h with hc hsome ht he
  · cases h
    exact .failed s _ (.inl hc) (by simp [hp]) hp (by simp)
  · cases h
    exact .failed s _ (.inr ht) (by simp [hp]) hp (by simp)
  · split at h
    · rename_i error hcheck
      cases h
      exact .oversized error hp hcheck
    · cases h
      simp only [hp, Option.isNone_none, if_true]
      exact .empty hp he
  · split at h
    · rename_i error hcheck
      cases h
      exact .oversized error hp hcheck
    · cases h
      simp only [pending_setPending, Option.isNone_some, Bool.false_eq_true, if_false]
      exact .locked hp

theorem enqueueWrite_queues (hcl : s.queues.closing = true → s.closed = true) {w : PendingWrite}
    (hw : (s.send id).pending = some w) (hst : w.stage = .connBytes) {r : Except Error PendingWrite}
    (h : s.enqueueWrite id = some (s', r)) :
    (∃ error, r = .error error ∧ s.Queues id payload fin s' [] (some (.error error))) ∨
      r = .ok w ∧
      s.Queues id payload fin s' [.queued id w.payload w.fin] (if w.fin then none else some (.ok ())) := by
  unfold enqueueWrite at h
  rw [hw] at h
  simp only [hst, ne_eq, not_true_eq_false, if_false] at h
  by_cases hc : s.closed = true
  · rw [if_pos hc] at h
    cases h
    exact .inl ⟨_, rfl, .failed _ _ (.inl hc) (by simp [hw, hst]) (pending_cancelWrite s id) (by simp)⟩
  · rw [if_neg hc] at h
    unfold enqueueData at h
    by_cases hq : ((s.setPending id none).queues.closing || ((s.setPending id none).send id).sendTerminal) = true
    · rw [if_pos hq] at h
      cases h
      have hdead : s.Dead id := by
        rcases Bool.or_eq_true_iff.mp hq with hq | hq
        · exact .inl (hcl hq)
        · exact .inr (by simpa [setPending] using hq)
      exact .inl ⟨_, rfl, .failed _ _ hdead (by simp [hw, hst]) (pending_setPending s id none) (by simp)⟩
    · rw [if_neg hq] at h
      have hlive : ¬ s.Dead id := by
        rintro (hclosed | ht)
        · exact hc hclosed
        · exact hq (Bool.or_eq_true_iff.mpr (.inr (by simpa [setPending] using ht)))
      cases h
      refine .inr ⟨rfl, .enqueued w _ hw (by simp [hst]) hlive ?_⟩
      split_ifs
      · exact pending_setPending _ id _
      · exact pending_setPending s id none

theorem queueTurn_cases (hu : s.Unsealed) (hcl : s.queues.closing = true → s.closed = true)
    (h : s.queueTurn id payload fin = some (s', evs, result)) : s.Queues id payload fin s' evs result := by
  unfold queueTurn at h
  cases hw : (s.send id).pending with
  | none =>
    rw [hw] at h
    simp only at h
    split at h
    · cases h
    · rename_i hs
      cases h
      exact startWrite_queues hw hs
    · rename_i hs
      cases h
      exact startWrite_queues hw hs
  | some w =>
    rw [hw] at h
    simp only at h
    split at h
    · rename_i hst
      split at h
      · cases h
      · rename_i hs
        cases h
        rcases enqueueWrite_queues hcl hw hst hs with ⟨error, he, hq⟩ | ⟨he, -⟩
        · cases he
          exact hq
        · cases he
      · rename_i hs
        cases h
        rcases enqueueWrite_queues hcl hw hst hs with ⟨error, he, -⟩ | ⟨he, hq⟩
        · cases he
        · cases he
          exact hq
    · rename_i hst
      obtain ⟨s₁, hs, heq⟩ := Option.map_eq_some_iff.mp h
      cases heq
      unfold finishWrite at hs
      split at hs
      · cases hs
        exact .finished w _ hw hst (by simp) (by simp)
      · cases hs
    · rename_i hne
      obtain ⟨s₁, hs, heq⟩ := Option.map_eq_some_iff.mp h
      cases heq
      rcases acquireWrite_cases hu hw hs with ⟨hdead, rfl⟩ | ⟨stage, hst, hp⟩
      · rw [pending_cancelWrite]
        exact .failed _ _ hdead (by simpa [hw] using hne) (pending_cancelWrite s id) (by simp)
      · rw [hp]
        exact .acquired w stage _ hw hne hst hp

end Shared

namespace Endpoint

variable {e : Endpoint} {s' : Shared} {id : Nat} {payload : Bytes} {fin : Bool} {evs : List Event}
  {result : Option (Except Error Unit)}

theorem setLife_self (s : Shared) (id : Nat) : s.setLife id (s.life id) = s := by
  simp [Shared.setLife]

theorem setLife_mode (s : Shared) (id mode : Nat) (hm : (s.life id).sendMode = mode) :
    s.setLife id { s.life id with sendMode := mode } = s := by
  subst hm
  exact setLife_self s id

/-- A turn of `queue_stream_chunk` is a step of the endpoint. -/
theorem step_queueTurn (hh : (e.shared.life id).sendHandles ≠ 0) (hm : (e.shared.life id).sendMode = 2)
    (h : e.shared.queueTurn id payload fin = some (s', evs, result)) :
    ∃ a, a.own = some id ∧ e.step a = some ({ e with shared := s' }, evs) := by
  have hwrite : ∀ {r : Except Error Unit}, e.shared.startWrite id payload fin = some (s', r) →
      e.step (.write 2 id payload fin) = some ({ e with shared := s' }, []) := by
    intro r hr
    have hsel : Shared.selectMode (e.shared.life id).sendMode 2 = .ok 2 := by
      rw [hm]
      rfl
    simp only [step, if_neg hh, hsel, setLife_mode _ _ _ hm, hr, Option.map_some]
  unfold Shared.queueTurn at h
  cases hw : (e.shared.send id).pending with
  | none =>
    rw [hw] at h
    simp only at h
    split at h
    · cases h
    · rename_i hs
      cases h
      exact ⟨_, rfl, hwrite hs⟩
    · rename_i hs
      cases h
      exact ⟨_, rfl, hwrite hs⟩
  | some w =>
    rw [hw] at h
    simp only at h
    split at h
    · split at h
      · cases h
      · rename_i hs
        cases h
        exact ⟨.enqueue id, rfl, by simp only [step, hs]⟩
      · rename_i hs
        cases h
        exact ⟨.enqueue id, rfl, by simp only [step, hs]⟩
    · obtain ⟨s₁, hs, heq⟩ := Option.map_eq_some_iff.mp h
      cases heq
      exact ⟨.finish id, rfl, by simp only [step, hs, Option.map_some]⟩
    · obtain ⟨s₁, hs, heq⟩ := Option.map_eq_some_iff.mp h
      cases heq
      exact ⟨.acquire id, rfl, by simp only [step, hs, Option.map_some]⟩

theorem queueTurn_core (h : e.shared.queueTurn id payload fin = some (s', evs, result)) :
    s'.core = e.shared.core := by
  unfold Shared.queueTurn at h
  split at h
  · split at h
    · cases h
    · rename_i hs
      cases h
      exact e.shared.startWrite_core id payload fin _ hs
    · rename_i hs
      cases h
      exact e.shared.startWrite_core id payload fin _ hs
  · split at h
    · split at h
      · cases h
      · rename_i hs
        cases h
        exact e.shared.enqueueWrite_core id _ hs
      · rename_i hs
        cases h
        exact e.shared.enqueueWrite_core id _ hs
    · obtain ⟨s₁, hs, heq⟩ := Option.map_eq_some_iff.mp h
      cases heq
      exact e.shared.finishWrite_core id _ hs
    · obtain ⟨s₁, hs, heq⟩ := Option.map_eq_some_iff.mp h
      cases heq
      exact e.shared.acquireWrite_core id _ hs

/-- Choosing the mode is the step of an empty write. -/
theorem step_selectMode (hh : (e.shared.life id).sendHandles ≠ 0)
    (hp : (e.shared.send id).pending = none) {mode : Nat}
    (hm : Shared.selectMode (e.shared.life id).sendMode 2 = .ok mode) :
    e.step (.write 2 id [] false) =
      some ({ e with shared := e.shared.setLife id { e.shared.life id with sendMode := mode } }, []) := by
  have hstart : ∀ s : Shared, (s.send id).pending = none → ∃ r, s.startWrite id [] false = some (s, r) := by
    intro s hs
    unfold Shared.startWrite
    rw [hs]
    split_ifs
    · exact ⟨_, rfl⟩
    · simp at *
    · exact ⟨_, rfl⟩
    · split <;> exact ⟨_, rfl⟩
    · simp at *
  obtain ⟨r, hr⟩ := hstart (e.shared.setLife id { e.shared.life id with sendMode := mode }) hp
  simp only [step, if_neg hh, hm, hr, Option.map_some]

end Endpoint
end Muxtls
