import Muxtls.Ledger.Refine
import Muxtls.Schedule.Passive

namespace Muxtls

namespace Shared

variable (s : Shared)

theorem local_of_core {s s' : Shared} (h : s'.core = s.core) : s'.nextLocalStreamId = s.nextLocalStreamId :=
  congrArg (fun c : Core => c.ids.nextLocal) h

theorem markClosed_local : s.markClosed.nextLocalStreamId = s.nextLocalStreamId := by
  unfold markClosed
  simp only
  split_ifs <;> rfl

theorem initiateClose_local (errorCode : Nat) (reason : String) :
    (s.initiateClose errorCode reason).1.nextLocalStreamId = s.nextLocalStreamId := by
  rcases s.initiateClose_core errorCode reason with h | h
  · exact local_of_core h
  · exact congrArg (fun c : Core => c.ids.nextLocal) h

theorem close_local (reason : String) : (s.close reason).1.nextLocalStreamId = s.nextLocalStreamId := by
  unfold close
  split
  · rfl
  · exact s.initiateClose_local 0 reason

theorem onRemoteOpen_local (id : Nat) : (s.onRemoteOpen id).1.nextLocalStreamId = s.nextLocalStreamId := by
  unfold onRemoteOpen
  by_cases hpar : id % 2 = s.localParity
  · rw [if_pos hpar]
  rw [if_neg hpar]
  by_cases hid : id ≠ s.nextRemoteStreamId
  · rw [if_pos hid]
  · rw [if_neg hid]
    cases s.openStreams.tryAcquire 1 with
    | none => rfl
    | some openStreams =>
      simp only
      by_cases hs : id ∈ s.streams
      · rw [if_pos hs]
      · rw [if_neg hs]
        split_ifs <;> rfl

/-- No frame of the peer moves the counter of local streams. -/
theorem handleFrame_local (f : Frame) : (s.handleFrame f).1.nextLocalStreamId = s.nextLocalStreamId := by
  obtain ⟨streamId, -, hs, -⟩ | ⟨code, reason, -, hs, -⟩ | ⟨hs, -⟩ | ⟨id, -, -, hs⟩ :=
    Endpoint.handleFrame_holdings s (s.handleFrame f).1 f (s.handleFrame f).2 rfl
  · rw [hs]
    exact s.onRemoteOpen_local _
  · rw [hs]
    exact s.markClosed_local
  · exact congrArg (fun h : Holdings => h.ids.nextLocal) hs
  · exact congrArg (fun h : Holdings => h.ids.nextLocal) hs

theorem runOp_local (op : TaskOp) : (s.runOp op).1.nextLocalStreamId = s.nextLocalStreamId := by
  unfold runOp
  split
  · simp only
    split_ifs <;> rfl
  · split_ifs <;> rfl
  · simp only
    split_ifs <;> rfl
  · rename_i id
    split_ifs
    · simp only
      split_ifs
      · rfl
      · exact (local_of_core (resetStream_core _ _ _)).trans rfl
    · rfl
  · split_ifs <;> rfl
  · rename_i id
    have h := local_of_core (s.enqueueControl_core (.stopSending (.expect id)))
    split
    · rename_i s' he
      rw [he] at h
      exact h
    · rename_i s' he
      rw [he] at h
      simp only
      split_ifs
      · exact h
      · exact s'.markClosed_local.trans h
  · exact s.initiateClose_local 1 _
  · exact s.markClosed_local

end Shared

namespace Endpoint

variable {l : Limits} {isClient : Bool} {e e' : Endpoint} {log evs : List Event}

/-- Whether an `open_bi` call has its permit, and the id such a call takes. -/
def openState (e : Endpoint) : Bool × Nat := (e.opening, e.shared.nextLocalStreamId)

/-- No stream is opened without an `open_bi` call. -/
theorem openState_of_step (a : Act) (h : e.step a = some (e', evs)) (ha : a ≠ .openStart) (ho : e.opening = false) :
    e'.openState = e.openState := by
  have hcore : ∀ {s : Shared}, s.core = e.shared.core → (e.opening, s.nextLocalStreamId) = e.openState :=
    fun hc => Prod.ext rfl (Shared.local_of_core hc)
  have hread : ∀ mode id poll, (e.read mode id poll).1.openState = e.openState := by
    intro mode id poll
    unfold read
    split <;> rfl
  cases step_cases h with
  | openStart => exact absurd rfl ha
  | openFinish hopen => exact absurd (ho.symm.trans hopen) (by simp)
  | openCancel hopen => exact absurd (ho.symm.trans hopen) (by simp)
  | write mode id payload fin sendMode r hh hm hw =>
    exact Prod.ext rfl ((Shared.local_of_core (Shared.startWrite_core _ id payload fin r hw)).trans rfl)
  | acquire id s hw => exact hcore (e.shared.acquireWrite_core id s hw)
  | enqueue id s w hw => exact hcore (e.shared.enqueueWrite_core id _ hw)
  | enqueueFailed id s error hw => exact hcore (e.shared.enqueueWrite_core id _ hw)
  | finish id s hw => exact hcore (e.shared.finishWrite_core id s hw)
  | cancel id => exact hcore (e.shared.cancelWrite_core id)
  | reset id errorCode => exact hcore (e.shared.resetStream_core id errorCode)
  | readChunk id => exact hread 1 id _
  | pollRead id room => exact hread 2 id _
  | dropSend id =>
    have hc := hcore (e.shared.cancelWrite_core id)
    exact hc
  | close reason s hc =>
    have hl := e.shared.close_local reason
    rw [hc] at hl
    exact Prod.ext rfl hl
  | lastHandleDropped => exact Prod.ext rfl (e.shared.initiateClose_local 0 _)
  | keepalive s hc hp =>
    have hs := e.shared.enqueueControl_core .ping
    rw [hp] at hs
    exact hcore hs
  | keepaliveRefused s hc hp =>
    obtain rfl := Shared.enqueueControl_refused hp
    simp only [hc]
    exact Prod.ext rfl e.shared.markClosed_local
  | drainExpired => exact Prod.ext rfl e.shared.markClosed_local
  | frame order | frameEnd order | frameWait order =>
    have hs := congrArg Shared.nextLocalStreamId (nextFrame_inv h).2.1
    exact Prod.ext rfl (hs.trans (congrArg (fun h : Holdings => h.ids.nextLocal) (e.shared.nextFrame_holdings order)))
  | receive bytes e' evs hr ht hitem =>
    have hopening : e'.opening = e.opening := by cases hitem <;> rfl
    refine Prod.ext hopening ?_
    rcases hitem.shared_cases with hsame | ⟨f, rest, -, -, hframe⟩
    · exact congrArg Shared.nextLocalStreamId hsame
    · exact (congrArg Shared.nextLocalStreamId hframe).trans (e.shared.handleFrame_local f)
  | work task op ops ht => exact Prod.ext rfl (e.shared.runOp_local op)
  | _ => rfl

end Endpoint
end Muxtls
