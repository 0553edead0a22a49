import Muxtls.Connection.Endpoint

namespace Muxtls
namespace Endpoint

variable {e e' : Endpoint} {evs : List Event}

/-- What has to be the case for a step to log an event. -/
def Logs (e : Endpoint) (a : Act) : Event → Prop
  | .emitted f => ∃ order, a = .nextFrame order ∧ (e.shared.nextFrame order).2 = .frame f
  | .sent f => a = .send ∧ e.hand = some f ∧ e.shared.terminated = false ∧
      ∃ bytes, f.encode [] = .ok bytes ∧ bytes.length ≤ e.shared.limits.maxFrameSize
  | .accepted f => ∃ bytes rest, a = .receive bytes ∧ Frame.decode bytes = .ok (f, rest)
  | .rejected _ => ∃ bytes, a = .receive bytes
  | .queued id _ _ => a = .enqueue id
  | .resetOk _ => (∃ id code, a = .reset id code) ∨ (∃ bytes, a = .receive bytes) ∨ ∃ task, a = .work task
  | .stopQueued id => ∃ task ops, a = .work task ∧ e.todo task = .stopSending id :: ops
  | .handed id _ => a = .readChunk id ∨ ∃ room, a = .pollRead id room
  | .ended id => a = .readChunk id ∨ ∃ room, a = .pollRead id room
  | .closing code reason fitted => e.shared.closed = false ∧
      e.shared.limits.fitCloseReason code reason = .ok fitted ∧
      (code = 0 ∧ (a = .close reason ∨ a = .lastHandleDropped ∧ reason = "last connection handle dropped") ∨
        code = 1 ∧ ∃ task ops, a = .work task ∧ e.todo task = .failClose reason :: ops)

theorem logs_read {id : Nat} {a : Act} (ha : a = .readChunk id ∨ ∃ room, a = .pollRead id room) (mode : Nat)
    (poll : Inbox → Inbox × Inbox.ReadOutcome) : ∀ x ∈ (e.read mode id poll).2, e.Logs a x := by
  unfold read
  split
  · simp
  · intro x hx
    simp only at hx
    unfold Shared.readEvents at hx
    split at hx
    · rw [List.mem_singleton.mp hx]
      exact ha
    · rw [List.mem_singleton.mp hx]
      exact ha
    · cases hx

theorem logs_receive {bytes : Bytes} (h : e.Receives bytes (e', evs)) : ∀ x ∈ evs, e.Logs (.receive bytes) x := by
  have hacc : ∀ f rest, Frame.decode bytes = .ok (f, rest) →
      ∀ x ∈ e.shared.acceptedEvents f, e.Logs (.receive bytes) x := by
    intro f rest hf x hx
    unfold Shared.acceptedEvents at hx
    split at hx
    · split_ifs at hx
      · rcases List.mem_cons.mp hx with rfl | hx
        · exact ⟨bytes, rest, rfl, hf⟩
        · rw [List.mem_singleton.mp hx]
          exact .inr (.inl ⟨bytes, rfl⟩)
      · rw [List.mem_singleton.mp hx]
        exact ⟨bytes, rest, rfl, hf⟩
    · rw [List.mem_singleton.mp hx]
      exact ⟨bytes, rest, rfl, hf⟩
  cases h with
  | dropped log ops hlog hops =>
    rcases hlog with rfl | ⟨error, rfl⟩
    · simp
    · intro x hx
      rw [List.mem_singleton.mp hx]
      exact ⟨bytes, rfl⟩
  | refused f rest s error reason hf =>
    intro x hx
    rw [List.mem_singleton.mp hx]
    exact ⟨bytes, rfl⟩
  | more f rest s todo hf hh => exact hacc f rest hf
  | stop f rest s hf hh => exact hacc f rest hf

theorem logs_closing (a : Act) (code : Nat) (reason : String)
    (hcode : code = 0 ∧
      (a = .close reason ∨ a = .lastHandleDropped ∧ reason = "last connection handle dropped") ∨
      code = 1 ∧ ∃ task ops, a = .work task ∧ e.todo task = .failClose reason :: ops) :
    ∀ x ∈ e.shared.closingEvents code reason, e.Logs a x := by
  intro x hx
  unfold Shared.closingEvents at hx
  split_ifs at hx with hc
  · cases hx
  · split at hx
    · rename_i hfit
      rw [List.mem_singleton.mp hx]
      exact ⟨Bool.eq_false_of_not_eq_true hc, hfit, hcode⟩
    · cases hx

theorem logs_reset {a : Act}
    (ha : (∃ id code, a = .reset id code) ∨ ∃ task, a = .work task) (id errorCode : Nat) :
    ∀ x ∈ e.shared.resetEvents id errorCode, e.Logs a x := by
  intro x hx
  unfold Shared.resetEvents at hx
  split at hx
  · rw [List.mem_singleton.mp hx]
    exact ha.imp_right .inr
  · cases hx

theorem logs_op {task : Task} {op : TaskOp} {ops : List TaskOp} (ht : e.todo task = op :: ops) :
    ∀ x ∈ e.shared.opEvents op, e.Logs (.work task) x := by
  cases op with
  | cleanSend id =>
    simp only [Shared.opEvents]
    split_ifs
    · exact logs_reset (.inr ⟨task, rfl⟩) id 0
    · simp
  | stopSending id =>
    simp only [Shared.opEvents]
    split_ifs
    · intro x hx
      rw [List.mem_singleton.mp hx]
      exact ⟨task, ops, rfl, ht⟩
    · simp
  | failClose reason => exact logs_closing _ 1 reason (.inr ⟨rfl, task, ops, rfl, ht⟩)
  | _ => simp [Shared.opEvents]

theorem step_logs (a : Act) (h : e.step a = some (e', evs)) : ∀ x ∈ evs, e.Logs a x := by
  have hone : ∀ y, e.Logs a y → ∀ x ∈ [y], e.Logs a x := by
    intro y hy x hx
    rwa [List.mem_singleton.mp hx]
  cases step_cases h with
  | enqueue => exact hone _ rfl
  | reset id errorCode => exact logs_reset (.inl ⟨id, errorCode, rfl⟩) id errorCode
  | readChunk id => exact logs_read (.inl rfl) 1 _
  | pollRead id room => exact logs_read (.inr ⟨room, rfl⟩) 2 _
  | close reason => exact logs_closing _ 0 reason (.inl ⟨rfl, .inl rfl⟩)
  | lastHandleDropped => exact logs_closing _ 0 _ (.inl ⟨rfl, .inr ⟨rfl, rfl⟩⟩)
  | frame order s f hw hp hn => exact hone _ ⟨order, rfl, by rw [hn]⟩
  | sent f bytes ht hf hb hlen => exact hone _ ⟨rfl, hf, ht, bytes, hb, hlen⟩
  | sentClose code reason bytes ht hf hb hlen => exact hone _ ⟨rfl, hf, ht, bytes, hb, hlen⟩
  | receive bytes e' evs hr ht hitem => exact logs_receive hitem
  | work task op ops ht => exact logs_op ht
  | _ => simp

/-- Only a `next_frame` turn emits a frame. -/
theorem emitted_of_step (a : Act) (h : e.step a = some (e', evs)) (ha : ∀ order, a ≠ .nextFrame order) :
    emitted evs = [] := by
  rw [emitted, List.filterMap_eq_nil_iff]
  intro x hx
  have hl := step_logs a h x hx
  cases x with
  | emitted f =>
    obtain ⟨order, rfl, -⟩ := hl
    exact absurd rfl (ha order)
  | _ => rfl

end Endpoint
end Muxtls
