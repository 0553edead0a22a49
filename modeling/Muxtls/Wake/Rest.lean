import Muxtls.Schedule.Flags
import Muxtls.Wake.Windows

namespace Muxtls

theorem WriterQueues.eligible_congr (q : WriterQueues) {st st' : SendState} (c : OutboundChunk)
    (h : (st'.peerLimit, st'.sent) = (st.peerLimit, st.sent)) : q.eligible st' c = q.eligible st c := by
  simp only [Prod.mk.injEq] at h
  simp only [eligible, takeCount, streamCredit, h.1, h.2]

namespace Shared

variable {l : Limits} {s s' : Shared} {id : Nat}

/-- `next_frame` has nothing to return: no control frame, no credit update and no data that may be sent, and if the
connection is closing there is data left to drain. -/
structure AtRest (s : Shared) : Prop where
  cut : s.sender.cut = false
  turn : s.queues.controlTurn = true
  control : s.queues.control = []
  windows : s.inbox.Quiet s.queues.receiveWindows
  blocked : ∀ id ∈ s.queues.ready, s.Blocked id
  draining : s.queues.closing = true → s.queues.byStream.entries ≠ []

theorem updatePending_eq_false : s.updatePending = false ↔ s.inbox.Quiet s.queues.receiveWindows := by
  unfold updatePending
  rw [Bool.or_eq_false_iff, List.any_eq_false]
  constructor
  · rintro ⟨hconn, hstreams⟩
    exact ⟨hconn, fun id hid => Bool.eq_false_of_not_eq_true (hstreams id hid)⟩
  · rintro ⟨hconn, hstreams⟩
    exact ⟨hconn, fun id hid => ne_true_of_eq_false (hstreams id hid)⟩

theorem closeTurn_ne_wait (s : Shared) : s.closeTurn.2 ≠ .wait := by
  unfold closeTurn
  split <;> simp

/-- With nothing left to drain, a closing connection does not wait. -/
theorem nextFrame_drained (hq : s.queues.WF) (order : List Nat) (hc : s.queues.closing = true)
    (he : s.queues.byStream.entries = []) : (s.nextFrame order).2 ≠ .wait := by
  have hready : s.queues.ready = [] := by
    rw [List.eq_nil_iff_forall_not_mem]
    intro id hid
    exact (hq.ready_iff id).mp hid (WriterQueues.chunksOf_of_isEmpty (by rw [he]; rfl) id)
  have hdata : s.dataTurn.2 ≠ .wait := by
    unfold dataTurn
    rw [hready]
    simp only [List.length_nil, dataPass, hc, he]
    split_ifs
    · simp
    · exact s.closeTurn_ne_wait
    · rename_i hne
      exact absurd rfl hne
  unfold nextFrame
  split_ifs
  · exact s.closeTurn_ne_wait
  · split
    · simp
    · exact hdata
  · exact hdata

/-- A turn of `next_frame` waits exactly at rest, and changes nothing. -/
theorem nextFrame_wait_iff (hq : s.queues.WF) (order : List Nat) (horder : order.Perm s.queues.receiveWindows) :
    (s.nextFrame order).2 = .wait ↔ s.AtRest := by
  have hdrained := fun hc he => nextFrame_drained hq order hc he
  have hturns := s.nextFrame_turns hq order horder
  generalize s.nextFrame order = r at hturns hdrained
  constructor
  · intro hw
    cases hturns with
    | wait hcut ht hidle hblocked =>
      exact ⟨hcut, ht, hidle.1, updatePending_eq_false.mp hidle.2, hblocked, fun hc he => hdrained hc he rfl⟩
    | cut => exact absurd hw s.closeTurn_ne_wait
    | drained => exact absurd hw s.closeTurn_ne_wait
    | _ => cases hw
  · intro h
    cases hturns with
    | cut hcut => exact absurd hcut (by rw [h.cut]; simp)
    | pop f control hcut hc => exact absurd (h.control.symm.trans hc) (by simp)
    | grant s' f hcut hc ht hp => exact absurd hp (by rw [updatePending_eq_false.mpr h.windows]; simp)
    | data id chunk chunks before later hcut ht hready hskip hchunk hel =>
      have hblocked := h.blocked id (by rw [hready]; simp) chunk (by rw [hchunk]; rfl)
      exact absurd hel (by rw [hblocked]; simp)
    | again hcut ht => exact absurd ht (by rw [h.turn]; simp)
    | drained hcut ht hidle hclosing hempty => exact absurd hempty (h.draining hclosing)
    | wait => rfl

theorem nextFrame_wait_fst (hq : s.queues.WF) (order : List Nat) (horder : order.Perm s.queues.receiveWindows)
    (h : (s.nextFrame order).2 = .wait) : (s.nextFrame order).1 = s := by
  have hturns := s.nextFrame_turns hq order horder
  generalize s.nextFrame order = r at hturns h
  cases hturns with
  | wait => rfl
  | cut => exact absurd h s.closeTurn_ne_wait
  | drained => exact absurd h s.closeTurn_ne_wait
  | _ => cases h

/-- What the writer looks at, apart from the inbox. -/
def outlook (s : Shared) : WriterQueues × (Nat → Nat × Nat) × Bool :=
  (s.queues, fun id => ((s.send id).peerLimit, (s.send id).sent), s.cleanupStarted)

/-- A step that gives the writer nothing to do. -/
structure Hush (s s' : Shared) : Prop where
  rest : s.AtRest → s'.AtRest
  shut : s'.cleanupStarted = s.cleanupStarted

theorem Hush.refl (s : Shared) : s.Hush s := ⟨fun h => h, rfl⟩

theorem Hush.of_outlook (ho : s'.outlook = s.outlook)
    (hb : s.inbox.Quiet s.queues.receiveWindows → s'.inbox.Quiet s.queues.receiveWindows) : s.Hush s' := by
  simp only [outlook, Prod.mk.injEq] at ho
  obtain ⟨hq, hsend, hshut⟩ := ho
  refine ⟨fun h => ?_, hshut⟩
  refine ⟨?_, hq ▸ h.turn, hq ▸ h.control, ?_, ?_, ?_⟩
  · exact (congrArg (fun q : WriterQueues => q.closing && !q.gracefulClose) hq).trans h.cut
  · rw [hq]
    exact hb h.windows
  · intro id hid c hc
    rw [hq] at hid hc ⊢
    exact (s.queues.eligible_congr c (congrFun hsend id)).trans (h.blocked id hid c hc)
  · rw [hq]
    exact h.draining

/-- A step that leaves the inbox alone as well. -/
theorem Hush.same (ho : s'.outlook = s.outlook) (hb : s'.inbox = s.inbox) : s.Hush s' :=
  .of_outlook ho fun h => hb ▸ h

theorem setPending_outlook (s : Shared) (id : Nat) (pending : Option PendingWrite) :
    (s.setPending id pending).outlook = s.outlook := by
  unfold outlook
  refine congrArg (s.queues, ·, s.cleanupStarted) (funext fun j => ?_)
  by_cases hj : j = id
  · subst hj
    simp [setPending]
  · simp [setPending, hj]

theorem cancelWrite_hush (s : Shared) (id : Nat) : s.Hush (s.cancelWrite id) := by
  unfold cancelWrite
  split
  · exact .refl s
  · exact .same (setPending_outlook _ id none) rfl

theorem startWrite_hush (payload : Bytes) (fin : Bool) (r : Shared × Except Error Unit)
    (h : s.startWrite id payload fin = some r) : s.Hush r.1 := by
  unfold startWrite at h
  split_ifs at h
  · cases h
    exact .refl s
  · cases h
    exact .refl s
  · split at h <;> cases h <;> exact .refl s
  · split at h <;> cases h
    · exact .refl s
    · exact .same (setPending_outlook _ id _) rfl

theorem acquireStage_hush (w : PendingWrite) (stage : WriteStage) (sem : Semaphore) (n : Nat)
    (set : Semaphore → OutboundBudget) (h : s.acquireStage id w stage sem n set = some s') : s.Hush s' := by
  unfold acquireStage at h
  split_ifs at h
  · cases h
    exact s.cancelWrite_hush id
  · obtain ⟨sem', -, rfl⟩ := Option.map_eq_some_iff.mp h
    exact .same (setPending_outlook _ id _) rfl

theorem acquireWrite_hush (h : s.acquireWrite id = some s') : s.Hush s' := by
  unfold acquireWrite at h
  cases hp : (s.send id).pending with
  | none =>
    rw [hp] at h
    cases h
  | some w =>
    rw [hp] at h
    obtain ⟨payload, fin, stage⟩ := w
    cases stage with
    | locked => exact acquireStage_hush _ _ _ _ _ h
    | streamFrame =>
      simp only at h
      split_ifs at h
      · cases h
        exact .same (setPending_outlook _ id _) rfl
      · exact acquireStage_hush _ _ _ _ _ h
    | streamBytes => exact acquireStage_hush _ _ _ _ _ h
    | frame =>
      simp only at h
      split_ifs at h
      · cases h
        exact .same (setPending_outlook _ id _) rfl
      · exact acquireStage_hush _ _ _ _ _ h
    | connBytes => cases h
    | enqueued => cases h

theorem finishWrite_hush (h : s.finishWrite id = some s') : s.Hush s' := by
  unfold finishWrite at h
  split at h
  · cases h
    refine .same ?_ rfl
    refine congrArg (s.queues, ·, s.cleanupStarted) (funext fun j => ?_)
    by_cases hj : j = id
    · subst hj
      simp
    · simp [hj]
  · cases h

/-- A write that is not enqueued. -/
theorem enqueueWrite_hush {error : Error} (h : s.enqueueWrite id = some (s', .error error)) : s.Hush s' := by
  unfold enqueueWrite at h
  cases hp : (s.send id).pending with
  | none =>
    rw [hp] at h
    cases h
  | some w =>
    rw [hp] at h
    simp only at h
    split_ifs at h
    · cases h
      exact s.cancelWrite_hush id
    all_goals
      unfold enqueueData at h
      split_ifs at h <;> cases h
      exact .same (setPending_outlook s id none) rfl

theorem resetStream_hush (errorCode : Nat) (hs : s.resetSignals id errorCode .writer = []) :
    s.Hush (s.resetStream id errorCode).1 := by
  unfold resetSignals at hs
  unfold resetStream
  by_cases hc : s.closed = true
  · rw [if_pos hc]
    exact .refl s
  rw [if_neg hc] at hs ⊢
  cases hid : VarInt.fromU64 id with
  | error error => exact .refl s
  | ok streamId =>
    cases hcode : ErrorCode.fromU64 errorCode with
    | error error => exact .refl s
    | ok code =>
      rw [hid, hcode] at hs
      simp only at hs ⊢
      split_ifs at hs ⊢
      · exact .refl s
      · exact .refl s
      · simp at hs

theorem enqueueControl_hush (f : Frame) (hs : s.enqueueControlSignals f .writer = []) :
    s.Hush (s.enqueueControl f).1 := by
  unfold enqueueControlSignals at hs
  unfold enqueueControl
  split_ifs at hs ⊢
  · exact .refl s
  · exact .refl s
  · exact .refl s
  · simp at hs

theorem markClosed_hush (hs : s.markClosedSignals .writer = []) : s.Hush s.markClosed := by
  simp only [markClosedSignals] at hs
  split_ifs at hs with hc
  unfold markClosed
  simp only [hc, if_true]
  exact .same (by simp [outlook, hc]) rfl

theorem initiateClose_hush (errorCode : Nat) (reason : String)
    (hs : s.initiateCloseSignals errorCode reason .writer = []) : s.Hush (s.initiateClose errorCode reason).1 := by
  unfold initiateCloseSignals at hs
  unfold initiateClose
  cases hf : s.limits.fitCloseReason errorCode reason with
  | error error => exact .refl s
  | ok fitted =>
    cases hcode : ErrorCode.fromU64 errorCode with
    | error error => exact .refl s
    | ok code =>
      rw [hf, hcode] at hs
      simp only at hs ⊢
      by_cases hc : s.closed = true
      · rw [if_pos hc]
        exact .refl s
      · rw [if_neg hc] at hs
        simp [Waiter.only] at hs

theorem close_hush (reason : String) (hs : s.closeSignals reason .writer = []) : s.Hush (s.close reason).1 := by
  unfold closeSignals at hs
  unfold close
  cases hv : s.limits.validateCloseReason 0 reason with
  | error error => exact .refl s
  | ok u =>
    rw [hv] at hs
    exact initiateClose_hush 0 reason hs

/-- `enqueue_control`, or else `mark_closed`. -/
theorem orClose_hush (f : Frame) (hs : s.orCloseSignals f .writer = []) (r : Bool)
    (h : s.enqueueControl f = (s', r)) : s.Hush (if r || s'.closed then s' else s'.markClosed) := by
  unfold orCloseSignals at hs
  rw [h] at hs
  cases r with
  | true =>
    have hq := s.enqueueControl_hush f hs
    rw [h] at hq
    exact hq
  | false =>
    obtain rfl := enqueueControl_refused h
    simp only at hs
    cases hc : s'.closed with
    | true => exact .refl s'
    | false =>
      rw [hc] at hs
      exact markClosed_hush hs

theorem openBi_hush (hs : s.openBiSignals .writer = []) : s.Hush s.openBi.1 := by
  unfold openBiSignals at hs
  unfold openBi
  split_ifs at hs ⊢
  · exact .same rfl rfl
  · have hq := markClosed_hush hs
    exact ⟨fun h => ⟨(hq.rest h).cut, (hq.rest h).turn, (hq.rest h).control, (hq.rest h).windows,
      (hq.rest h).blocked, (hq.rest h).draining⟩, hq.shut⟩
  · simp at hs
  · exact .same rfl rfl

/-- A new stream has nothing queued and a window without an update. -/
theorem AtRest.create (hv : s.sender.WF l) (hid : ¬ s.ids.Opened id) (h : s.AtRest)
    (hq : s'.queues = { s.queues with receiveWindows := s.queues.receiveWindows ++ [id] })
    (hsend : s'.send = Function.update s.send id {}) (hinbox : s'.inbox = (s.createStream id).inbox) :
    s'.AtRest := by
  have hnone : s.queues.chunksOf id = [] := hv.chunks_fresh hid
  refine ⟨?_, ?_, ?_, ?_, ?_, ?_⟩
  · exact (congrArg (fun q : WriterQueues => q.closing && !q.gracefulClose) hq).trans h.cut
  · rw [hq]
    exact h.turn
  · rw [hq]
    exact h.control
  · rw [hq, hinbox]
    refine ⟨h.windows.conn, fun j hj => ?_⟩
    by_cases hji : j = id
    · subst hji
      simp [Inbox.pending, createStream, ReceiveWindow.new_needsUpdate]
    · have hmem : j ∈ s.queues.receiveWindows := by simpa [hji] using hj
      have hold := h.windows.streams j hmem
      simpa [Inbox.pending, createStream, hji] using hold
  · intro j hj c hc
    rw [hq] at hj hc ⊢
    have hji : j ≠ id := by
      rintro rfl
      exact (hv.queues.ready_iff j).mp hj hnone
    rw [hsend, Function.update_of_ne hji]
    exact h.blocked j hj c hc
  · rw [hq]
    exact h.draining

theorem onRemoteOpen_hush (id : Nat) (hv : s.sender.WF l) : s.Hush (s.onRemoteOpen id).1 := by
  unfold onRemoteOpen
  by_cases hp : id % 2 = s.localParity
  · rw [if_pos hp]
    exact .refl s
  rw [if_neg hp]
  by_cases hn : id ≠ s.nextRemoteStreamId
  · rw [if_pos hn]
    exact .refl s
  rw [if_neg hn]
  have hid : ¬ s.ids.Opened id := by
    rw [not_not.mp hn]
    exact Ids.not_opened_nextRemote hv.ids
  cases s.openStreams.tryAcquire 1 with
  | none => exact .refl s
  | some openStreams =>
    simp only
    split_ifs
    · exact .refl s
    · exact ⟨fun h => h.create hv hid rfl rfl rfl, rfl⟩
    · exact ⟨fun h => h.create hv hid rfl rfl rfl, rfl⟩

/-- The outcome of handling a frame without a signal: if it is accepted the writer has nothing to do. -/
structure Heard {α : Type} (s : Shared) (r : Shared × Except Error α) : Prop where
  shut : r.1.cleanupStarted = s.cleanupStarted
  rest : ∀ x, r.2 = .ok x → s.AtRest → r.1.AtRest

theorem Hush.heard {α : Type} {r : Shared × Except Error α} (h : s.Hush r.1) : s.Heard r :=
  ⟨h.shut, fun _ _ => h.rest⟩

theorem onRemoteStreamFrame_heard (id : Nat) (payload : Bytes) (fin : Bool)
    (hs : id ∈ s.streams → s.ensurePeerSendOpen id "stream frame" = .ok () →
      s.inbox.dataSignals s.limits id payload fin .writer = []) :
    s.Heard (s.onRemoteStreamFrame id payload fin) := by
  unfold onRemoteStreamFrame
  by_cases hid : id ∈ s.streams
  · rw [if_neg (not_not.mpr hid)]
    cases hopen : s.ensurePeerSendOpen id "stream frame" with
    | error error => exact (Hush.refl s).heard
    | ok u =>
      have hquiet := fun h : s.inbox.Quiet s.queues.receiveWindows => h.acceptData s.limits payload fin (hs hid hopen)
      simp only
      cases hacc : s.inbox.acceptData s.limits id payload fin with
      | mk inbox result =>
        rw [hacc] at hquiet
        cases result with
        | error error => exact ⟨rfl, fun _ hx => by cases hx⟩
        | ok u => exact Hush.heard (.of_outlook rfl fun h => hquiet h rfl)
  · rw [if_pos hid]
    exact (Hush.refl s).heard

theorem onRemoteReset_heard (id errorCode : Nat)
    (hs : id ∈ s.streams → s.ensurePeerSendOpen id "reset" = .ok () →
      s.inbox.markResetSignals id errorCode = []) :
    s.Heard (s.onRemoteReset id errorCode) := by
  unfold onRemoteReset
  by_cases hid : id ∈ s.streams
  · rw [if_neg (not_not.mpr hid)]
    cases hopen : s.ensurePeerSendOpen id "reset" with
    | error error => exact (Hush.refl s).heard
    | ok u => exact Hush.heard (.of_outlook rfl fun h => (h.markReset _ (hs hid hopen)).markRecvTerminal)
  · rw [if_pos hid]
    exact (Hush.refl s).heard

theorem handleFrame_heard (hv : s.sender.WF l) (f : Frame) (hs : s.handleFrameSignals f .writer = []) :
    s.Heard (s.handleFrame f) := by
  unfold handleFrameSignals at hs
  unfold handleFrame
  by_cases hfirst : (!f.isSettings && !s.queues.peerSettings) = true
  · rw [if_pos hfirst]
    exact (Hush.refl s).heard
  rw [if_neg hfirst] at hs ⊢
  cases f with
  | settings maxData maxStreamData maxFrameSize =>
    simp only at hs ⊢
    split_ifs at hs with hbad
    · rw [if_pos hbad]
      exact (Hush.refl s).heard
    · simp at hs
  | maxData maximum => simp at hs
  | maxStreamData streamId maximum =>
    simp only at hs ⊢
    split_ifs at hs with hno
    · rw [if_neg hno.1, if_pos hno.2]
      exact (Hush.refl s).heard
    · simp at hs
  | stream streamId fin payload =>
    have h := onRemoteStreamFrame_heard (s := s) streamId.intoInner payload fin fun hid hopen => by
      simpa [hid, hopen] using hs
    simp only
    split <;> rename_i he <;> rw [he] at h
    · exact ⟨h.shut, fun _ hx => by cases hx⟩
    · exact ⟨h.shut, fun _ _ => h.rest _ rfl⟩
  | resetStream streamId errorCode =>
    have h := onRemoteReset_heard (s := s) streamId.intoInner errorCode.intoInner fun hid hopen => by
      simpa [hid, hopen, Waiter.only] using hs
    simp only
    split <;> rename_i he <;> rw [he] at h
    · exact ⟨h.shut, fun _ hx => by cases hx⟩
    · exact ⟨h.shut, fun _ _ => h.rest _ rfl⟩
  | openStream streamId =>
    have h := onRemoteOpen_hush streamId.intoInner hv
    simp only
    split <;> rename_i he <;> rw [he] at h <;> exact Hush.heard h
  | stopSending streamId =>
    simp only at hs ⊢
    by_cases hid : streamId.intoInner ∈ s.streams
    · rw [if_pos hid] at hs ⊢
      have h := resetStream_hush 0 hs
      split <;> rename_i he <;> rw [he] at h <;> exact Hush.heard h
    · rw [if_neg hid]
      split_ifs <;> exact (Hush.refl s).heard
  | ping => exact (Hush.refl s).heard
  | connectionClose errorCode reason => exact (markClosed_hush hs).heard

/-- Handles and drop marks are nothing to the writer. -/
theorem Hush.of_life {life : Nat → StreamLife} (h : Hush { s with life } s') : s.Hush s' :=
  ⟨fun hr => h.rest ⟨hr.cut, hr.turn, hr.control, hr.windows, hr.blocked, hr.draining⟩, h.shut⟩

theorem runOp_hush (op : TaskOp) (hs : s.runOpSignals op .writer = []) :
    s.Hush (s.runOp op).1 := by
  cases op with
  | complete id => simp only [runOp]; split_ifs <;> exact .same rfl rfl
  | retire id => simp only [runOp]; split_ifs <;> exact .same rfl rfl
  | remove id =>
    simp only [runOp]
    split_ifs
    · refine ⟨fun h => ⟨h.cut, h.turn, h.control, ?_, h.blocked, h.draining⟩, rfl⟩
      exact ⟨h.windows.conn, fun j hj => h.windows.streams j (List.mem_of_mem_filter hj)⟩
    · exact .refl s
  | cleanSend id =>
    simp only [runOpSignals] at hs
    simp only [runOp]
    by_cases hd : (s.life id).sendDropped = true
    · rw [if_pos hd]
      by_cases ht : (s.send id).sendTerminal = true
      · simp only [ht, if_true]
        exact .same rfl rfl
      · simp only [ht, hd] at hs ⊢
        exact Hush.of_life (resetStream_hush (s := { s with life := _ }) 0 hs)
    · rw [if_neg hd]
      exact .refl s
  | cleanRecv id =>
    simp only [runOpSignals] at hs
    simp only [runOp]
    by_cases hd : (s.life id).recvDropped = true
    · rw [if_pos hd, Waiter.only_self] at hs
      rw [if_pos hd]
      exact .of_outlook rfl fun h => h.discardInbound hs
    · rw [if_neg hd]
      exact .refl s
  | stopSending id =>
    have h := fun r s' he => orClose_hush (.stopSending (.expect id)) hs r (he : s.enqueueControl _ = (s', r))
    simp only [runOp]
    split
    · rename_i s' he
      exact h true s' he
    · rename_i s' he
      exact h false s' he
  | failClose reason => exact initiateClose_hush 1 reason hs
  | markClosed => exact markClosed_hush hs

end Shared
end Muxtls
