import Muxtls.Connection.Notify
import Muxtls.Schedule.Flags
import Muxtls.Stream.Calls

namespace Muxtls

/-- Validated limits leave room for an empty reason at least. -/
theorem Limits.Valid.fit {l : Limits} (h : l.Valid) {errorCode : Nat} (hcode : errorCode ≤ 1) (reason : String) :
    ∃ fitted, l.fitCloseReason errorCode reason = .ok fitted := by
  obtain ⟨code, hok, hinner⟩ := Shared.fromU64_code errorCode hcode
  have hempty : l.validateCloseReason errorCode "" = .ok () := by
    have hlen : code.encodedLen = 1 := by
      have hin : code.code.intoInner = errorCode := hinner
      rw [ErrorCode.encodedLen, VarInt.encodedLen, if_pos (by omega)]
    have hroom : ¬ 1 + code.encodedLen + 1 + 0 > l.maxFrameSize := by
      have hmin : 25 ≤ l.maxFrameSize := h.frame.1
      omega
    unfold Limits.validateCloseReason
    rw [hok]
    exact if_neg hroom
  unfold Limits.fitCloseReason
  rw [hempty]
  split
  · exact ⟨_, rfl⟩
  · split <;> exact ⟨_, rfl⟩

namespace Sender

variable {l : Limits} {v v' : Sender} {evs : List Event}

/-- `mark_closed` has emptied the queues and the map. -/
structure Shut (v : Sender) : Prop where
  closed : v.closed = true
  closing : v.queues.closing = true
  graceful : v.queues.gracefulClose = false
  frame : v.queues.closeFrame = none
  control : v.queues.control = []
  chunks : ∀ id, v.queues.chunksOf id = []
  streams : v.streams = []

/-- They stay empty, since the reader takes nothing any more. -/
theorem Shut.step (h : v.Shut) (hs : SendStep l v evs v')
    (hlog : ∀ x ∈ evs, (∀ f, x ≠ .accepted f) ∧ ∀ error, x ≠ .rejected error) : v'.Shut := by
  have hcut : v.cut = true := by simp [cut, h.closing, h.graceful]
  cases hs with
  | quiet => exact h
  | halt => exact ⟨rfl, h.closing, h.graceful, h.frame, h.control, h.chunks, h.streams⟩
  | openLocal hid hclosed => exact absurd (hclosed.symm.trans h.closed) (by simp)
  | openRemote log hid hopen =>
    rcases hopen with rfl | ⟨error, rfl⟩
    · exact absurd rfl ((hlog _ (List.mem_singleton_self _)).1 _)
    · exact absurd rfl ((hlog _ (List.mem_singleton_self _)).2 error)
  | pend => exact ⟨h.closed, h.closing, h.graceful, h.frame, h.control, h.chunks, h.streams⟩
  | enqueue id w hw hstage hclosing => exact absurd (hclosing.symm.trans h.closing) (by simp)
  | finish => exact ⟨h.closed, h.closing, h.graceful, h.frame, h.control, h.chunks, h.streams⟩
  | reset id errorCode log hid hdisp hres hclosing => exact absurd (hclosing.symm.trans h.closing) (by simp)
  | resetAgain => exact h
  | stopRetired => exact h
  | ping hclosing => exact absurd (hclosing.symm.trans h.closing) (by simp)
  | stop id hid hclosing => exact absurd (hclosing.symm.trans h.closing) (by simp)
  | close code reason fitted hcode hclosed => exact absurd (hclosed.symm.trans h.closed) (by simp)
  | shutdown => exact ⟨rfl, rfl, rfl, rfl, rfl, fun _ => rfl, rfl⟩
  | pop f control hno => exact absurd (hno.symm.trans hcut) (by simp)
  | grant f hno => exact absurd (hno.symm.trans hcut) (by simp)
  | data id chunk rest skipped later hno => exact absurd (hno.symm.trans hcut) (by simp)
  | turn => exact ⟨h.closed, h.closing, h.graceful, h.frame, h.control, h.chunks, h.streams⟩
  | closeFrame f hclosing hdrain hf =>
    simp [WriterQueues.takeCloseFrame, h.frame] at hf
  | settings => exact ⟨h.closed, h.closing, h.graceful, h.frame, h.control, h.chunks, h.streams⟩
  | maxData => exact ⟨h.closed, h.closing, h.graceful, h.frame, h.control, h.chunks, h.streams⟩
  | maxStreamData => exact ⟨h.closed, h.closing, h.graceful, h.frame, h.control, h.chunks, h.streams⟩
  | lateCredit => exact h
  | retire id =>
    refine ⟨h.closed, h.closing, h.graceful, h.frame, h.control, h.chunks, ?_⟩
    simp [h.streams]

end Sender

theorem OutboundBudget.flags_releaseAll (b : OutboundBudget) (q : WriterQueues) : (b.releaseAll q).flags = b.flags := by
  unfold releaseAll
  induction q.byStream.entries generalizing b with
  | nil => rfl
  | cons entry entries ih => exact (ih _).trans (b.flags_releaseChunks entry.1 entry.2)

namespace Shared

variable {s s' : Shared} {signals : List Signal}

/-- The outbound semaphores of the connection are closed. -/
def cut (s : Shared) : Bool := s.budget.connBytes.closed && s.budget.frames.closed

/-- How far a connection is closed. -/
def ends (s : Shared) : Bool × Bool × Bool × Bool := (s.closed, s.terminated, s.cleanupStarted, s.cut)

/-- A step of the connection that sends `accept_bi` these notifications: it takes nothing of a close back, and it
closes no further without a notification of `close_notify`. -/
structure Announces (s s' : Shared) (signals : List Signal) : Prop where
  same : .waiters ∉ signals → s'.ends = s.ends
  closed : s.closed = true → s'.closed = true
  terminated : s.terminated = true → s'.terminated = true
  shut : s.cleanupStarted = true → s'.cleanupStarted = true
  cut : s.cut = true → s'.cut = true
  shuts : s'.cleanupStarted = true → s.cleanupStarted = true ∨ s'.sender.Shut ∧ s'.cut = true

theorem Announces.of_ends (h : s'.ends = s.ends) : s.Announces s' signals where
  same _ := h
  closed hc := (congrArg Prod.fst h).trans hc
  terminated ht := (congrArg (fun t => t.2.1) h).trans ht
  shut hs := (congrArg (fun t => t.2.2.1) h).trans hs
  cut hs := (congrArg (fun t => t.2.2.2) h).trans hs
  shuts hs := .inl ((congrArg (fun t => t.2.2.1) h).symm.trans hs)

/-- What else a step does before and after leaves the flags and the writer alone. -/
theorem Announces.congr {s₀ s₁ : Shared} (h : s.Announces s' signals)
    (h₀ : s.ends = s₀.ends) (h₁ : s₁.ends = s'.ends)
    (hv : s₁.sender = s'.sender) : s₀.Announces s₁ signals where
  same hs := h₁.trans ((h.same hs).trans h₀)
  closed hc := (congrArg Prod.fst h₁).trans (h.closed ((congrArg Prod.fst h₀).trans hc))
  terminated ht := (congrArg (fun t => t.2.1) h₁).trans (h.terminated ((congrArg (fun t => t.2.1) h₀).trans ht))
  shut hs := (congrArg (fun t => t.2.2.1) h₁).trans (h.shut ((congrArg (fun t => t.2.2.1) h₀).trans hs))
  cut hs := (congrArg (fun t => t.2.2.2) h₁).trans (h.cut ((congrArg (fun t => t.2.2.2) h₀).trans hs))
  shuts hs := by
    rw [hv, show s₁.cut = s'.cut from congrArg (fun t => t.2.2.2) h₁]
    exact (h.shuts ((congrArg (fun t => t.2.2.1) h₁).symm.trans hs)).imp_left
      (congrArg (fun t => t.2.2.1) h₀).symm.trans

theorem Announces.more (h : s.Announces s' signals) (more : List Signal) (hm : ∀ x ∈ signals, x ∈ more) :
    s.Announces s' more :=
  ⟨fun hs => h.same fun hw => hs (hm _ hw), h.closed, h.terminated, h.shut, h.cut, h.shuts⟩

variable (s)

theorem markClosed_cut (h : s.cleanupStarted = false) : s.markClosed.cut = true := by
  have hflags := OutboundBudget.flags_releaseAll
    { s.budget with connBytes := s.budget.connBytes.close, frames := s.budget.frames.close } s.queues
  simp only [OutboundBudget.flags, Prod.mk.injEq] at hflags
  unfold markClosed
  simp only [h, Bool.false_eq_true, if_false]
  exact Bool.and_eq_true_iff.mpr ⟨hflags.1, hflags.2.1⟩

theorem markClosed_ended :
    s.markClosed.closed = true ∧ s.markClosed.terminated = true ∧ s.markClosed.cleanupStarted = true := by
  unfold markClosed
  by_cases hc : s.cleanupStarted = true <;> simp [hc, shutdown]

theorem markClosed_announces : s.Announces s.markClosed (s.markClosedSignals .accept) := by
  have hwaiters : .waiters ∈ s.markClosedSignals .accept := by
    unfold markClosedSignals
    split_ifs <;> simp
  obtain ⟨hclosed, hterminated, hshut⟩ := s.markClosed_ended
  by_cases hstarted : s.cleanupStarted = true
  · have hcut : s.markClosed.cut = s.cut := by simp [markClosed, hstarted, cut]
    exact ⟨fun hw => absurd hwaiters hw, fun _ => hclosed, fun _ => hterminated, fun _ => hshut, hcut.trans,
      fun _ => .inl hstarted⟩
  · have hcut := s.markClosed_cut (Bool.eq_false_of_not_eq_true hstarted)
    have hempty : s.markClosed.sender.Shut := by
      unfold markClosed
      simp only [hstarted, Bool.false_eq_true, if_false]
      exact ⟨rfl, rfl, rfl, rfl, rfl, fun _ => rfl, rfl⟩
    exact ⟨fun hw => absurd hwaiters hw, fun _ => hclosed, fun _ => hterminated, fun _ => hshut, fun _ => hcut,
      fun _ => .inr ⟨hempty, hcut⟩⟩

theorem cancelWrite_ends (id : Nat) : (s.cancelWrite id).ends = s.ends := by
  unfold cancelWrite
  cases (s.send id).pending with
  | none => rfl
  | some w =>
    obtain ⟨payload, fin, stage⟩ := w
    cases stage <;> rfl

theorem startWrite_ends (id : Nat) (payload : Bytes) (fin : Bool) (r : Shared × Except Error Unit)
    (h : s.startWrite id payload fin = some r) : r.1.ends = s.ends := by
  unfold startWrite at h
  split_ifs at h
  · cases h; rfl
  · cases h; rfl
  · split at h <;> cases h <;> rfl
  · split at h <;> cases h <;> rfl

theorem acquireStage_ends (id : Nat) (w : PendingWrite) (stage : WriteStage) (sem : Semaphore) (n : Nat)
    (set : Semaphore → OutboundBudget) (s' : Shared) (h : s.acquireStage id w stage sem n set = some s')
    (hset : ∀ sem', sem'.closed = sem.closed → ({ s with budget := set sem' } : Shared).cut = s.cut) :
    s'.ends = s.ends := by
  unfold acquireStage at h
  split_ifs at h
  · cases h
    exact s.cancelWrite_ends id
  · obtain ⟨sem', hsem, rfl⟩ := Option.map_eq_some_iff.mp h
    obtain ⟨hold, hnew, -⟩ := sem.tryAcquire_eq_some sem' n hsem
    exact congrArg (fun c => (s.closed, s.terminated, s.cleanupStarted, c)) (hset sem' (hnew.trans hold.symm))

theorem acquireWrite_ends (id : Nat) (s' : Shared) (h : s.acquireWrite id = some s') : s'.ends = s.ends := by
  unfold acquireWrite at h
  cases hp : (s.send id).pending with
  | none =>
    rw [hp] at h
    cases h
  | some w =>
    rw [hp] at h
    obtain ⟨payload, fin, stage⟩ := w
    cases stage with
    | locked => exact s.acquireStage_ends id _ _ _ _ _ s' h fun _ _ => rfl
    | streamFrame =>
      simp only at h
      split_ifs at h
      · cases h
        rfl
      · exact s.acquireStage_ends id _ _ _ _ _ s' h fun _ _ => rfl
    | streamBytes =>
      exact s.acquireStage_ends id _ _ _ _ _ s' h fun _ hs => congrArg (s.budget.connBytes.closed && ·) hs
    | frame =>
      simp only at h
      split_ifs at h
      · cases h
        rfl
      · exact s.acquireStage_ends id _ _ _ _ _ s' h fun _ hs => congrArg (· && s.budget.frames.closed) hs
    | connBytes => cases h
    | enqueued => cases h

theorem enqueueWrite_ends (id : Nat) (r : Shared × Except Error PendingWrite) (h : s.enqueueWrite id = some r) :
    r.1.ends = s.ends := by
  unfold enqueueWrite at h
  cases hp : (s.send id).pending with
  | none =>
    rw [hp] at h
    cases h
  | some w =>
    rw [hp] at h
    simp only at h
    have hq : ((s.setPending id none).enqueueData id (heldChunk id w)).1.ends = s.ends := by
      unfold enqueueData
      split_ifs <;> rfl
    split_ifs at h
    · cases h
      exact s.cancelWrite_ends id
    · split at h <;> rename_i he <;> rw [he] at hq <;> cases h <;> exact hq
    · split at h <;> rename_i he <;> rw [he] at hq <;> cases h <;> exact hq

theorem finishWrite_ends (id : Nat) (s' : Shared) (h : s.finishWrite id = some s') : s'.ends = s.ends := by
  unfold finishWrite at h
  split at h
  · cases h
    rfl
  · cases h

theorem resetStream_ends (id errorCode : Nat) : (s.resetStream id errorCode).1.ends = s.ends := by
  unfold resetStream
  split_ifs
  · rfl
  · split <;> rfl
  · split <;> rfl
  · split <;> rfl

theorem enqueueControl_ends (f : Frame) : (s.enqueueControl f).1.ends = s.ends := by
  unfold enqueueControl
  split_ifs <;> rfl

theorem dispatch_ends (id : Nat) (chunk : OutboundChunk) (rest : List OutboundChunk) (ready : List Nat) :
    (s.dispatch id chunk rest ready).1.ends = s.ends := by
  unfold dispatch
  simp only
  split_ifs <;> rfl

theorem dataPass_ends (n : Nat) : (s.dataPass n).1.ends = s.ends := by
  induction n generalizing s with
  | zero => rfl
  | succ n ih =>
    unfold dataPass
    split
    · rfl
    · split
      · rfl
      · rfl
      · split_ifs
        · exact s.dispatch_ends _ _ _ _
        · exact ih _

theorem closeTurn_ends : s.closeTurn.1.ends = s.ends := by
  unfold closeTurn
  split <;> rfl

theorem dataTurn_ends : s.dataTurn.1.ends = s.ends := by
  have h := s.dataPass_ends s.queues.ready.length
  unfold dataTurn
  split
  · rename_i s' turn hp
    rw [hp] at h
    exact h
  · rename_i s' hp
    rw [hp] at h
    split_ifs
    · exact h
    · exact s'.closeTurn_ends.trans h
    · exact h

theorem nextFrame_ends (order : List Nat) : (s.nextFrame order).1.ends = s.ends := by
  unfold nextFrame
  split_ifs
  · exact s.closeTurn_ends
  · split
    · rename_i s' f hc
      obtain ⟨inbox, control, rfl⟩ := s.controlPass_frame order (s', f) hc
      rfl
    · exact s.dataTurn_ends
  · exact s.dataTurn_ends

theorem initiateClose_announces (errorCode : Nat) (reason : String) :
    s.Announces (s.initiateClose errorCode reason).1 (s.initiateCloseSignals errorCode reason .accept) := by
  unfold initiateClose initiateCloseSignals
  cases s.limits.fitCloseReason errorCode reason with
  | error error => exact .of_ends rfl
  | ok fitted =>
    cases ErrorCode.fromU64 errorCode with
    | error error => exact .of_ends rfl
    | ok code =>
      simp only
      by_cases hc : s.closed = true
      · rw [if_pos hc]
        exact .of_ends rfl
      · rw [if_neg hc, if_neg hc]
        exact ⟨fun hw => absurd (by simp) hw, fun _ => rfl, fun ht => ht, fun hs => hs, fun _ => rfl, .inl⟩

theorem initiateClose_closed (h : s.limits.Valid) {errorCode : Nat} (hcode : errorCode ≤ 1)
    (reason : String) : (s.initiateClose errorCode reason).1.closed = true := by
  by_cases hc : s.closed = true
  · exact (s.initiateClose_announces errorCode reason).closed hc
  · obtain ⟨fitted, hfit⟩ := h.fit hcode reason
    exact (s.initiateClose_published (Bool.eq_false_of_not_eq_true hc) hfit hcode).closed

theorem close_announces (reason : String) : s.Announces (s.close reason).1 (s.closeSignals reason .accept) := by
  unfold close closeSignals
  cases s.limits.validateCloseReason 0 reason with
  | error error => exact .of_ends rfl
  | ok u => exact s.initiateClose_announces 0 reason

theorem openBi_announces : s.Announces s.openBi.1 (s.openBiSignals .accept) := by
  unfold openBi openBiSignals
  by_cases hc : s.closed = true
  · rw [if_pos hc]
    exact .of_ends rfl
  rw [if_neg hc, if_neg hc]
  by_cases hfull : (s.queues.closing || decide (s.queues.control.length ≥ s.limits.maxControlFrames)) = true
  · rw [if_pos hfull, if_pos hfull]
    exact s.markClosed_announces.congr rfl rfl rfl
  · rw [if_neg hfull]
    split_ifs <;> exact .of_ends rfl

/-- A caller of `enqueue_control` that closes an open connection when it is refused. -/
theorem orClose_announces (f : Frame) (r : Bool) (s' : Shared) (h : s.enqueueControl f = (s', r)) :
    s.Announces (if r || s'.closed then s' else s'.markClosed) (s.orCloseSignals f .accept) := by
  have hends := s.enqueueControl_ends f
  rw [h] at hends
  unfold orCloseSignals
  rw [h]
  cases r with
  | true => exact .of_ends hends
  | false =>
    simp only [Bool.false_or]
    by_cases hc : s'.closed = true
    · rw [if_pos hc]
      exact .of_ends hends
    · rw [if_neg hc, if_neg hc]
      exact s'.markClosed_announces.congr hends rfl rfl

theorem onRemoteOpen_ends (id : Nat) : (s.onRemoteOpen id).1.ends = s.ends := by
  unfold onRemoteOpen
  by_cases hp : id % 2 = s.localParity
  · rw [if_pos hp]
  rw [if_neg hp]
  by_cases hn : id ≠ s.nextRemoteStreamId
  · rw [if_pos hn]
  rw [if_neg hn]
  cases s.openStreams.tryAcquire 1 with
  | none => rfl
  | some openStreams =>
    simp only
    split_ifs <;> rfl

theorem handleFrame_announces (f : Frame) : s.Announces (s.handleFrame f).1 (s.handleFrameSignals f .accept) := by
  unfold handleFrame handleFrameSignals
  by_cases hset : (!f.isSettings && !s.queues.peerSettings) = true
  · rw [if_pos hset]
    exact .of_ends rfl
  rw [if_neg hset, if_neg hset]
  cases f with
  | settings => simp only; split_ifs <;> exact .of_ends rfl
  | maxData => exact .of_ends rfl
  | maxStreamData => simp only; split_ifs <;> exact .of_ends rfl
  | stream streamId fin payload =>
    obtain ⟨inbox, hs⟩ := s.onRemoteStreamFrame_inbox streamId.intoInner payload fin
    refine .of_ends ?_
    simp only
    split <;> rename_i he <;> rw [he] at hs <;> exact (congrArg ends hs).trans rfl
  | resetStream streamId errorCode =>
    obtain ⟨inbox, hs⟩ := s.onRemoteReset_inbox streamId.intoInner errorCode.intoInner
    refine .of_ends ?_
    simp only
    split <;> rename_i he <;> rw [he] at hs <;> exact (congrArg ends hs).trans rfl
  | openStream streamId =>
    have h := s.onRemoteOpen_ends streamId.intoInner
    refine .of_ends ?_
    simp only
    split <;> rename_i he <;> rw [he] at h <;> exact h
  | stopSending streamId =>
    have h := s.resetStream_ends streamId.intoInner 0
    refine .of_ends ?_
    simp only
    split_ifs
    · split <;> rename_i he <;> rw [he] at h <;> exact h
    · rfl
    · rfl
  | ping => exact .of_ends rfl
  | connectionClose => exact s.markClosed_announces

theorem runOp_announces (op : TaskOp) : s.Announces (s.runOp op).1 (s.runOpSignals op .accept) := by
  cases op with
  | complete id => simp only [runOp]; split_ifs <;> exact .of_ends rfl
  | retire id => simp only [runOp]; split_ifs <;> exact .of_ends rfl
  | remove id => simp only [runOp]; split_ifs <;> exact .of_ends rfl
  | cleanSend id =>
    refine .of_ends ?_
    simp only [runOp]
    split_ifs
    · rfl
    · exact resetStream_ends _ id 0
    · rfl
  | cleanRecv id => simp only [runOp]; split_ifs <;> exact .of_ends rfl
  | stopSending id =>
    have h := s.orClose_announces (.stopSending (.expect id))
    simp only [runOp, runOpSignals]
    split
    · rename_i s' he
      exact h true s' he
    · rename_i s' he
      exact h false s' he
  | failClose reason => exact s.initiateClose_announces 1 reason
  | markClosed => exact s.markClosed_announces

end Shared

namespace Endpoint

variable {l : Limits} {isClient : Bool} {e e' : Endpoint} {log evs : List Event}

theorem announces_of_step (a : Act) (h : e.step a = some (e', evs)) :
    e.shared.Announces e'.shared (e.signals a .accept) := by
  have hread : ∀ mode id poll, (e.read mode id poll).1.shared.ends = e.shared.ends := by
    intro mode id poll
    unfold read
    split <;> rfl
  cases step_cases h with
  | openFinish => exact e.shared.openBi_announces
  | write mode id payload fin sendMode r hh hm hw =>
    have hends := Shared.startWrite_ends _ id payload fin r hw
    exact .of_ends hends
  | acquire id s hw => exact .of_ends (e.shared.acquireWrite_ends id s hw)
  | enqueue id s w hw => exact .of_ends (e.shared.enqueueWrite_ends id _ hw)
  | enqueueFailed id s error hw => exact .of_ends (e.shared.enqueueWrite_ends id _ hw)
  | finish id s hw => exact .of_ends (e.shared.finishWrite_ends id s hw)
  | cancel id => exact .of_ends (e.shared.cancelWrite_ends id)
  | reset id errorCode => exact .of_ends (e.shared.resetStream_ends id errorCode)
  | readChunk id => exact .of_ends (hread 1 id _)
  | pollRead id room => exact .of_ends (hread 2 id _)
  | dropSend id => exact .of_ends (e.shared.cancelWrite_ends id)
  | close reason s hc =>
    have hann := e.shared.close_announces reason
    rwa [hc] at hann
  | lastHandleDropped => exact e.shared.initiateClose_announces 0 _
  | abort => exact ⟨fun hw => absurd (by simp [signals]) hw,
      fun _ => rfl, fun _ => rfl, fun hs => hs, fun hc => hc, .inl⟩
  | keepalive s hc hp => exact e.shared.orClose_announces .ping true s hp
  | keepaliveRefused s hc hp => exact e.shared.orClose_announces .ping false s hp
  | drainExpired => exact e.shared.markClosed_announces
  | frame order | frameEnd order | frameWait order =>
    rw [(nextFrame_inv h).2.1]
    exact .of_ends (e.shared.nextFrame_ends order)
  | receive bytes e' evs hr ht hitem =>
    rcases hitem.shared_cases with hsame | ⟨f, rest, hlen, hf, hframe⟩
    · exact .of_ends (congrArg Shared.ends hsame)
    · rw [hframe, signals, receiveSignals, if_neg (Nat.not_lt.mpr hlen), hf]
      exact e.shared.handleFrame_announces f
  | work task op ops ht =>
    have hop := (e.shared.runOp_announces op).more (e.signals (.work task) .accept) fun x hx => by
      simp only [signals, ht]
      exact List.mem_append_left _ hx
    exact hop.congr rfl rfl rfl
  | _ => exact .of_ends rfl

/-- Once `mark_closed` has run, nothing is queued and no stream is registered any more. -/
theorem reach_shut (h : (machine l isClient).Reach e log) (hs : e.shared.cleanupStarted = true) :
    e.shared.sender.Shut := by
  refine h.invariant (fun e _ => e.shared.cleanupStarted = true → e.shared.sender.Shut) ?_ ?_ hs
  · intro e he hs
    rw [(connect_ok he).2] at hs
    cases hs
  · rintro e tr evs e' hr ih ⟨a, ha⟩ hs
    rcases (announces_of_step a ha).shuts hs with hold | hnew
    · have ht : e.shared.terminated = true := (reach_ended hr).2 hold
      have hreceive : ∀ bytes, a ≠ .receive bytes := by
        rintro bytes rfl
        simp [step, ht] at ha
      refine (ih hold).step (reach_sendStep hr a ha) fun x hx => ⟨?_, ?_⟩
      · rintro f rfl
        obtain ⟨bytes, rest, hb, -⟩ := step_logs a ha _ hx
        exact hreceive bytes hb
      · rintro error rfl
        obtain ⟨bytes, hb⟩ := step_logs a ha _ hx
        exact hreceive bytes hb
    · exact hnew.1

/-- Once `mark_closed` has run, no write waits for a permit of the connection any more. -/
theorem reach_cut (h : (machine l isClient).Reach e log) (hs : e.shared.cleanupStarted = true) :
    e.shared.cut = true := by
  refine h.invariant (fun e _ => e.shared.cleanupStarted = true → e.shared.cut = true) ?_ ?_ hs
  · intro e he hs
    rw [(connect_ok he).2] at hs
    cases hs
  · rintro e tr evs e' - ih ⟨a, ha⟩ hs
    have hstep := announces_of_step a ha
    exact (hstep.shuts hs).elim (fun hold => hstep.cut (ih hold)) And.right

end Endpoint
end Muxtls
