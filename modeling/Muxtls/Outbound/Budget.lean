import Muxtls.Outbound.Charge
import Muxtls.Schedule.Passive
import Muxtls.Schedule.Turn
import Muxtls.Sender.Reach

namespace Muxtls
namespace Sender

/-- A send direction changes, but not its pending write. -/
theorem charge_setSend (v : Sender) (id : Nat) (st : SendState) (h : st.pending = (v.send id).pending) :
    (v.setSend id st).charge = v.charge := by
  funext j
  by_cases hj : j = id
  · subst hj
    simp [charge, setSend, h]
  · simp [charge, setSend, hj]

/-- The queued chunk takes over the permits of the write. -/
theorem charge_enqueue (v : Sender) (id : Nat) (w : PendingWrite) (hw : (v.send id).pending = some w)
    (hst : w.stage = .connBytes) (pending : Option PendingWrite) (hp : Charge.ofPending pending = {}) :
    ((v.setQueues (v.queues.pushChunk id (Shared.heldChunk id w))).setSend id { v.send id with pending }).charge =
      v.charge := by
  funext j
  simp only [charge, setSend, setQueues, WriterQueues.chunksOf_pushChunk]
  by_cases hj : j = id
  · subst hj
    rw [if_pos rfl, Function.update_self, hp, Charge.ofChunks_append, Charge.ofChunks_heldChunk j w hst, hw]
    rfl
  · rw [if_neg hj, Function.update_of_ne hj]

end Sender

namespace Shared

variable {l : Limits} {s s' : Shared} {id : Nat}

/-- The permits in the outbound budgets, and what is charged to the streams. -/
def outlay (s : Shared) : (Nat × Nat × (Nat → Nat × Nat)) × Ids × (Nat → Charge) :=
  (s.budget.permits, s.ids, s.sender.charge)

/-- Every outbound permit is in its budget or charged to a stream. -/
def Balanced (l : Limits) (s : Shared) : Prop := s.budget.Owes l s.ids s.sender.charge

theorem Balanced.congr (h : s.Balanced l) (ho : s'.outlay = s.outlay) : s'.Balanced l := by
  simp only [outlay, Prod.mk.injEq] at ho
  obtain ⟨hp, hi, hc⟩ := ho
  unfold Balanced
  rw [hi]
  exact OutboundBudget.Owes.congr h hp hc

theorem Balanced.settle (h : s.Balanced l) (hid : s.ids.Opened id) (hi : s'.ids = s.ids)
    (hs : s.budget.Settles s'.budget id (s.sender.charge id) (s'.sender.charge id))
    (hother : ∀ j, j ≠ id → s'.sender.charge j = s.sender.charge j) : s'.Balanced l := by
  unfold Balanced
  rw [hi]
  exact OutboundBudget.Owes.settle h hid hs hother

/-- A pending write changes its permits with the budgets. -/
theorem Balanced.pend (h : s.Balanced l) (hid : s.ids.Opened id) (b : OutboundBudget) (pending : Option PendingWrite)
    (hs : s.budget.Settles b id (.ofPending (s.send id).pending) (.ofPending pending)) :
    ({ s with budget := b }.setPending id pending).Balanced l := by
  refine h.settle hid rfl ?_ ?_
  · have hadd := hs.add (.ofChunks (s.queues.chunksOf id))
    simpa [Sender.charge, sender, setPending] using hadd
  · intro j hj
    simp [Sender.charge, sender, setPending, hj]

theorem cancelWrite_eq (w : PendingWrite) (hw : (s.send id).pending = some w) :
    s.cancelWrite id = { s with budget := s.budget.release id (.ofWrite w) }.setPending id none := by
  obtain ⟨payload, fin, stage⟩ := w
  unfold cancelWrite
  rw [hw]
  cases stage <;> cases payload <;> simp [heldChunk, OutboundBudget.release, Charge.ofWrite]

theorem cancelWrite_balanced (hv : s.sender.WF l) (h : s.Balanced l) (id : Nat) : (s.cancelWrite id).Balanced l := by
  cases hw : (s.send id).pending with
  | none =>
    unfold cancelWrite
    rw [hw]
    exact h
  | some w =>
    rw [cancelWrite_eq w hw]
    refine h.pend (hv.pending id w hw).1 _ none ?_
    rw [hw]
    exact OutboundBudget.settles_release s.budget id (.ofWrite w) {}

theorem startWrite_balanced (h : s.Balanced l) (hid : s.ids.Opened id) (payload : Bytes) (fin : Bool)
    (r : Shared × Except Error Unit) (hr : s.startWrite id payload fin = some r) : r.1.Balanced l := by
  unfold startWrite at hr
  by_cases hc : s.closed = true
  · rw [if_pos hc] at hr
    cases hr
    exact h
  rw [if_neg hc] at hr
  cases hp : (s.send id).pending with
  | some w =>
    rw [hp] at hr
    cases hr
  | none =>
    rw [hp] at hr
    simp only [Option.isSome_none, Bool.false_eq_true, if_false] at hr
    split_ifs at hr
    · cases hr
      exact h
    · split at hr
      · cases hr
        exact h
      · cases hr
        exact h
    · split at hr
      · cases hr
        exact h
      · cases hr
        refine h.pend hid s.budget _ ?_
        rw [hp]
        exact ⟨rfl, rfl, rfl, rfl, fun _ _ => ⟨rfl, rfl⟩⟩

theorem acquireStage_balanced (hv : s.sender.WF l) (h : s.Balanced l) (w : PendingWrite)
    (hw : (s.send id).pending = some w) (stage : WriteStage) (sem : Semaphore) (n : Nat)
    (set : Semaphore → OutboundBudget)
    (hset : ∀ sem', sem.permits = sem'.permits + n →
      s.budget.Settles (set sem') id (.ofWrite w) (.ofWrite { w with stage }))
    (hs : s.acquireStage id w stage sem n set = some s') : s'.Balanced l := by
  unfold acquireStage at hs
  split_ifs at hs
  · cases hs
    exact cancelWrite_balanced hv h id
  · obtain ⟨sem', hsem, rfl⟩ := Option.map_eq_some_iff.mp hs
    refine h.pend (hv.pending id w hw).1 _ _ ?_
    rw [hw]
    exact hset sem' (sem.tryAcquire_eq_some sem' n hsem).2.2

theorem acquireWrite_balanced (hv : s.sender.WF l) (h : s.Balanced l) (hs : s.acquireWrite id = some s') :
    s'.Balanced l := by
  unfold acquireWrite at hs
  cases hw : (s.send id).pending with
  | none =>
    rw [hw] at hs
    cases hs
  | some w =>
    rw [hw] at hs
    obtain ⟨payload, fin, stage⟩ := w
    have hskip : ∀ stage', payload = [] →
        Charge.ofWrite ⟨payload, fin, stage'⟩ = Charge.ofWrite ⟨payload, fin, stage⟩ →
        (s.setPending id (some ⟨payload, fin, stage'⟩)).Balanced l := by
      intro stage' _ heq
      refine h.pend (hv.pending id _ hw).1 s.budget _ ?_
      rw [hw]
      simp only [Charge.ofPending, heq]
      exact ⟨rfl, rfl, rfl, rfl, fun _ _ => ⟨rfl, rfl⟩⟩
    cases stage with
    | locked =>
      refine acquireStage_balanced hv h _ hw _ _ _ _ ?_ hs
      intro sem' hsem
      refine ⟨rfl, rfl, rfl, ?_, ?_⟩
      · simpa [Charge.ofWrite] using hsem.symm
      · intro j hj
        simp [hj]
    | streamFrame =>
      simp only at hs
      split_ifs at hs with hp
      · cases hs
        exact hskip _ hp (by simp [Charge.ofWrite, hp])
      · refine acquireStage_balanced hv h _ hw _ _ _ _ ?_ hs
        intro sem' hsem
        refine ⟨rfl, rfl, ?_, rfl, ?_⟩
        · simpa [Charge.ofWrite] using hsem.symm
        · intro j hj
          simp [hj]
    | streamBytes =>
      refine acquireStage_balanced hv h _ hw _ _ _ _ ?_ hs
      intro sem' hsem
      exact ⟨rfl, by simpa [Charge.ofWrite] using hsem.symm, rfl, rfl, fun _ _ => ⟨rfl, rfl⟩⟩
    | frame =>
      simp only at hs
      split_ifs at hs with hp
      · cases hs
        exact hskip _ hp (by simp [Charge.ofWrite, hp])
      · refine acquireStage_balanced hv h _ hw _ _ _ _ ?_ hs
        intro sem' hsem
        exact ⟨by simpa [Charge.ofWrite] using hsem.symm, rfl, rfl, rfl, fun _ _ => ⟨rfl, rfl⟩⟩
    | connBytes => cases hs
    | enqueued => cases hs

theorem enqueueWrite_balanced (hv : s.sender.WF l) (h : s.Balanced l) (r : Shared × Except Error PendingWrite)
    (hr : s.enqueueWrite id = some r) : r.1.Balanced l := by
  unfold enqueueWrite at hr
  cases hw : (s.send id).pending with
  | none =>
    rw [hw] at hr
    cases hr
  | some w =>
    rw [hw] at hr
    simp only at hr
    by_cases hst : w.stage = .connBytes
    · rw [if_neg (not_not.mpr hst)] at hr
      by_cases hc : s.closed = true
      · rw [if_pos hc] at hr
        cases hr
        exact cancelWrite_balanced hv h id
      · rw [if_neg hc, enqueueData] at hr
        by_cases hcl : ((s.setPending id none).queues.closing || ((s.setPending id none).send id).sendTerminal) = true
        · -- the chunk is dropped with its permits
          rw [if_pos hcl] at hr
          cases hr
          refine h.pend (hv.pending id w hw).1 (s.budget.release id (.ofChunks [heldChunk id w])) none ?_
          rw [hw, Charge.ofChunks_heldChunk id w hst]
          exact OutboundBudget.settles_release s.budget id (.ofWrite w) {}
        · rw [if_neg hcl] at hr
          have hcharge := s.sender.charge_enqueue id w hw hst
          have hof : ∀ pending, Charge.ofPending pending = {} → r.1.budget = s.budget → r.1.ids = s.ids →
              r.1.sender = (s.sender.setQueues (s.queues.pushChunk id (heldChunk id w))).setSend id
                { s.send id with pending } → r.1.Balanced l := by
            intro pending hp hb hi hs
            refine h.congr ?_
            rw [outlay, hb, hi, hs]
            exact congrArg (fun c => (s.budget.permits, s.ids, c)) (hcharge pending hp)
          cases hfin : w.fin with
          | true =>
            rw [hfin] at hr
            cases hr
            refine hof (some { w with stage := .enqueued }) rfl rfl rfl ?_
            simp [setPending, sender, Sender.setSend, Sender.setQueues, ids, hfin]
          | false =>
            rw [hfin] at hr
            cases hr
            exact hof none rfl rfl rfl rfl
    · rw [if_pos hst] at hr
      cases hr

theorem finishWrite_balanced (h : s.Balanced l) (hs : s.finishWrite id = some s') : s'.Balanced l := by
  unfold finishWrite at hs
  split at hs
  · rename_i payload fin hw
    cases hs
    refine h.congr ?_
    have hcharge : (s.sender.setSend id { s.send id with sendTerminal := true, pending := none }).charge =
        s.sender.charge := by
      funext j
      by_cases hj : j = id
      · subst hj
        simp [Sender.charge, Sender.setSend, sender, hw, Charge.ofPending, Charge.ofWrite]
      · simp [Sender.charge, Sender.setSend, hj]
    exact congrArg (fun c => (s.budget.permits, s.ids, c)) hcharge
  · cases hs

/-- The budgets of some streams are closed. -/
theorem permits_close (b : OutboundBudget) (p q : Nat → Prop) [DecidablePred p] [DecidablePred q] :
    ({ connBytes := b.connBytes.close
       frames := b.frames.close
       streamBytes := fun j => if p j then (b.streamBytes j).close else b.streamBytes j
       streamFrames := fun j => if q j then (b.streamFrames j).close else b.streamFrames j } : OutboundBudget).permits =
      b.permits := by
  refine congrArg (fun f => (b.connBytes.permits, b.frames.permits, f)) ?_
  funext j
  by_cases hp : p j <;> by_cases hq : q j <;> simp [hp, hq, Semaphore.close]

/-- Only opened streams have a queue. -/
theorem opened_of_lookup (hv : s.sender.WF l) (j : Nat) (h : s.queues.byStream.lookup j ≠ none) : s.ids.Opened j := by
  cases hl : s.queues.byStream.lookup j with
  | none => exact absurd hl h
  | some chunks =>
    cases chunks with
    | nil => exact absurd hl (hv.queues.nonempty j)
    | cons c cs =>
      have hc : c ∈ s.queues.chunksOf j := by
        rw [WriterQueues.chunksOf, hl]
        exact List.mem_cons_self
      exact (hv.chunks j c hc).1

/-- The queues are emptied, and the permits of their chunks go back. -/
theorem Balanced.releaseAll (hv : s.sender.WF l) (h : s.Balanced l) (hi : s'.ids = s.ids)
    (hp : s'.budget.permits = (s.budget.releaseAll s.queues).permits) (hsend : s'.send = s.send)
    (hq : ∀ j, s'.queues.chunksOf j = []) : s'.Balanced l := by
  have howes := OutboundBudget.Owes.releaseAll (b := s.budget) s.queues (fun j => .ofPending (s.send j).pending) h
    (opened_of_lookup hv)
  unfold Balanced
  rw [hi]
  refine howes.congr hp ?_
  funext j
  simp only [Sender.charge, sender, hq j, hsend]
  exact Charge.zero_add _

theorem releaseAll_close (b : OutboundBudget) (q : WriterQueues) :
    (({ b with connBytes := b.connBytes.close, frames := b.frames.close } : OutboundBudget).releaseAll q).permits =
      (b.releaseAll q).permits := by
  have h := OutboundBudget.foldl_release q.byStream.entries q.byStream.nodupKeys b
  have h' := OutboundBudget.foldl_release q.byStream.entries q.byStream.nodupKeys
    { b with connBytes := b.connBytes.close, frames := b.frames.close }
  unfold OutboundBudget.permits OutboundBudget.releaseAll
  rw [h.1, h.2.1, h'.1, h'.2.1]
  refine congrArg (Prod.mk _) (congrArg (Prod.mk _) ?_)
  funext j
  rw [(h.2.2 j).1, (h.2.2 j).2, (h'.2.2 j).1, (h'.2.2 j).2]

theorem markClosed_balanced (hv : s.sender.WF l) (h : s.Balanced l) : s.markClosed.Balanced l := by
  unfold markClosed
  simp only
  split_ifs
  · exact h
  · refine h.releaseAll hv rfl ?_ rfl fun _ => rfl
    rw [← releaseAll_close]
    refine Eq.trans ?_ (permits_close _ (· ∈ s.streams) (· ∈ s.streams))
    rfl

theorem initiateClose_balanced (hv : s.sender.WF l) (h : s.Balanced l) (errorCode : Nat) (reason : String) :
    (s.initiateClose errorCode reason).1.Balanced l := by
  unfold initiateClose
  split
  · exact h
  · split
    · exact h
    · by_cases hc : s.closed = true
      · rw [if_pos hc]
        exact h
      · rw [if_neg hc]
        by_cases hz : errorCode = 0
        · subst hz
          exact h.congr rfl
        · have hne : (errorCode == 0) = false := by simpa using hz
          simp only [if_neg hz, hne]
          exact h.releaseAll hv rfl rfl rfl fun _ => rfl

theorem close_balanced (hv : s.sender.WF l) (h : s.Balanced l) (reason : String) : (s.close reason).1.Balanced l := by
  unfold close
  split
  · exact h
  · exact initiateClose_balanced hv h 0 reason

theorem resetStream_balanced (h : s.Balanced l) (hid : s.ids.Opened id) (errorCode : Nat) :
    (s.resetStream id errorCode).1.Balanced l := by
  unfold resetStream
  by_cases hc : s.closed = true
  · rw [if_pos hc]
    exact h
  rw [if_neg hc]
  split
  · exact h
  · exact h
  · split_ifs
    · exact h
    · exact h
    · refine h.settle hid rfl ?_ ?_
      · have hs := OutboundBudget.settles_release s.budget id (.ofChunks (s.queues.chunksOf id))
          (.ofPending (s.send id).pending)
        have hclose : ∀ b : OutboundBudget, ({ b with
            streamBytes := Function.update b.streamBytes id (b.streamBytes id).close } : OutboundBudget).permits =
              b.permits := by
          intro b
          refine congrArg (fun f => (b.connBytes.permits, b.frames.permits, f)) ?_
          funext j
          by_cases hj : j = id
          · subst hj
            simp [Semaphore.close]
          · simp [hj]
        have hcharge : (Charge.ofChunks []).add (.ofPending (s.send id).pending) = .ofPending (s.send id).pending :=
          Charge.zero_add _
        rw [← hcharge] at hs
        simpa [Sender.charge, sender, WriterQueues.chunksOf_removeStream, OutboundBudget.releaseChunks_eq, hcharge]
          using hs.congr (hclose _)
      · intro j hj
        simp [Sender.charge, sender, hj, WriterQueues.chunksOf_removeStream]

/-- A stream with a new id enters the map, with full budgets of its own. -/
theorem Balanced.create (hv : s.sender.WF l) (h : s.Balanced l) (hl : s.limits = l) (hn : ¬ s.ids.Opened id)
    (hopen : ∀ j, s'.ids.Opened j ↔ s.ids.Opened j ∨ j = id) (hbound : s.ids.bound ≤ s'.ids.bound)
    (hb : s'.budget = (s.createStream id).budget) (hsend : s'.send = Function.update s.send id {})
    (hq : s'.queues.byStream = s.queues.byStream) : s'.Balanced l := by
  refine OutboundBudget.Owes.create h hn hopen hbound ?_ ?_ ?_ ?_ ?_
  · intro j
    by_cases hj : j = id
    · subst hj
      simp [Sender.charge, sender, WriterQueues.chunksOf, hq, hsend, show s.send j = {} from hv.fresh j hn]
    · simp [Sender.charge, sender, WriterQueues.chunksOf, hq, hsend, hj]
  · rw [hb]
    rfl
  · rw [hb]
    rfl
  · rw [hb, ← hl]
    rfl
  · rw [hb, ← hl]
    rfl

theorem openBi_balanced (hv : s.sender.WF l) (h : s.Balanced l) (hl : s.limits = l) : s.openBi.1.Balanced l := by
  unfold openBi
  split_ifs
  · exact h
  · exact (markClosed_balanced hv h).congr rfl
  · exact h.create hv hl (Ids.not_opened_nextLocal hv.ids) (Ids.opened_takeLocal hv.ids)
      (Ids.bound_takeLocal s.ids) rfl rfl rfl
  · exact h

theorem onRemoteOpen_balanced (hv : s.sender.WF l) (h : s.Balanced l) (hl : s.limits = l) (id : Nat) :
    (s.onRemoteOpen id).1.Balanced l := by
  unfold onRemoteOpen
  by_cases hp : id % 2 = s.localParity
  · rw [if_pos hp]
    exact h
  rw [if_neg hp]
  by_cases hn : id = s.nextRemoteStreamId
  · subst hn
    rw [if_neg (by simp)]
    cases s.openStreams.tryAcquire 1 with
    | none => exact h
    | some openStreams =>
      simp only
      split_ifs
      · exact h
      · exact h.create hv hl (Ids.not_opened_nextRemote hv.ids) (Ids.opened_takeRemote hv.ids)
          (Ids.bound_takeRemote s.ids) rfl rfl rfl
      · exact h.create hv hl (Ids.not_opened_nextRemote hv.ids) (Ids.opened_takeRemote hv.ids)
          (Ids.bound_takeRemote s.ids) rfl rfl rfl
  · rw [if_pos hn]
    exact h

/-- The head chunk of a stream is cut; its permits go back with its last byte. -/
theorem dispatch_balanced (hv : s.sender.WF l) (h : s.Balanced l) (chunk : OutboundChunk) (rest : List OutboundChunk)
    (ready : List Nat) (hc : s.queues.chunksOf id = chunk :: rest) :
    (s.dispatch id chunk rest ready).1.Balanced l := by
  have hid : s.ids.Opened id := (hv.chunks id chunk (by
    change chunk ∈ s.queues.chunksOf id
    rw [hc]
    exact List.mem_cons_self)).1
  have hother : ∀ chunks count (b : OutboundBudget) (st : SendState) j, j ≠ id →
      Sender.charge { s.sender with
        queues := s.queues.dispatch id ready chunks count
        send := Function.update s.send id st } j = s.sender.charge j := by
    intro chunks count b st j hj
    simp [Sender.charge, sender, WriterQueues.chunksOf_dispatch, hj]
  have hself : ∀ chunks count (st : SendState), st.pending = (s.send id).pending →
      Sender.charge { s.sender with
        queues := s.queues.dispatch id ready chunks count
        send := Function.update s.send id st } id =
          (Charge.ofChunks chunks).add (.ofPending (s.send id).pending) := by
    intro chunks count st hst
    simp [Sender.charge, WriterQueues.chunksOf_dispatch, hst]
  have hold : s.sender.charge id = (Charge.ofChunks (chunk :: rest)).add (.ofPending (s.send id).pending) := by
    rw [← hc]
    rfl
  unfold dispatch
  simp only
  cases hleft : (chunk.payload.drop (s.queues.takeCount (s.send id) chunk)).isEmpty with
  | true =>
    refine h.settle hid rfl ?_ (hother _ _ s.budget _)
    rw [hold, Charge.ofChunks_cons, Charge.add_assoc]
    refine Eq.mpr (congrArg _ (hself _ _ _ rfl)) ?_
    exact OutboundBudget.settles_release s.budget id (.ofChunks [chunk])
      ((Charge.ofChunks rest).add (.ofPending (s.send id).pending))
  | false =>
    refine h.settle hid rfl ?_ (hother _ _ s.budget _)
    rw [hold]
    refine Eq.mpr (congrArg _ (hself _ _ _ rfl)) ?_
    -- the permits keep their size while the payload shrinks
    exact ⟨rfl, rfl, rfl, rfl, fun _ _ => ⟨rfl, rfl⟩⟩

theorem takeCloseFrame_byStream (q : WriterQueues) : q.takeCloseFrame.1.byStream = q.byStream := by
  unfold WriterQueues.takeCloseFrame
  split <;> rfl

theorem closeTurn_balanced (h : s.Balanced l) : s.closeTurn.1.Balanced l := by
  have hq := takeCloseFrame_byStream s.queues
  have hof : ∀ q : WriterQueues, q.byStream = s.queues.byStream → ({ s with queues := q } : Shared).Balanced l := by
    intro q hq
    refine h.congr (congrArg (fun c => (s.budget.permits, s.ids, c)) ?_)
    funext j
    simp [Sender.charge, sender, WriterQueues.chunksOf, hq]
  unfold closeTurn
  split <;> rename_i he <;> rw [he] at hq <;> exact hof _ hq

theorem dataTurn_balanced (hv : s.sender.WF l) (h : s.Balanced l) : s.dataTurn.1.Balanced l := by
  have hself : s.withReady (s.queues.ready ++ []) = s := by
    simp [withReady]
  have hspec := dataPass_spec s hv.queues s.queues.ready [] rfl (by simp)
  rw [hself] at hspec
  unfold dataTurn
  rcases hspec with ⟨hnone, -⟩ | ⟨id, chunk, chunks, before, later, -, -, hc, -, hsome⟩
  · rw [hnone]
    simp only
    split_ifs
    · exact h
    · exact closeTurn_balanced h
    · exact h
  · rw [hsome]
    exact dispatch_balanced hv h chunk chunks _ hc

theorem nextFrame_balanced (hv : s.sender.WF l) (h : s.Balanced l) (order : List Nat) :
    (s.nextFrame order).1.Balanced l := by
  unfold nextFrame
  split_ifs
  · exact closeTurn_balanced h
  · split
    · rename_i s' f hc
      obtain ⟨inbox, control, rfl⟩ := s.controlPass_frame order (s', f) hc
      exact h
    · exact dataTurn_balanced hv h
  · exact dataTurn_balanced hv h

theorem enqueueControl_balanced (h : s.Balanced l) (f : Frame) : (s.enqueueControl f).1.Balanced l := by
  unfold enqueueControl
  split_ifs <;> exact h

theorem onRemoteStreamFrame_outlay (s : Shared) (id : Nat) (payload : Bytes) (fin : Bool) :
    (s.onRemoteStreamFrame id payload fin).1.outlay = s.outlay := by
  obtain ⟨inbox, hs⟩ := s.onRemoteStreamFrame_inbox id payload fin
  rw [hs]
  rfl

theorem onRemoteReset_outlay (s : Shared) (id errorCode : Nat) :
    (s.onRemoteReset id errorCode).1.outlay = s.outlay := by
  obtain ⟨inbox, hs⟩ := s.onRemoteReset_inbox id errorCode
  rw [hs]
  rfl

theorem handleFrame_balanced (hv : s.sender.WF l) (h : s.Balanced l) (hl : s.limits = l) (f : Frame) :
    (s.handleFrame f).1.Balanced l := by
  unfold handleFrame
  split_ifs
  · exact h
  cases f with
  | settings => simp only; split_ifs <;> exact h
  | maxData => exact h
  | maxStreamData streamId maximum =>
    simp only
    split_ifs
    · refine h.congr (congrArg (fun c => (s.budget.permits, s.ids, c)) ?_)
      exact s.sender.charge_setSend streamId.intoInner _ rfl
    · exact h
    · exact h
  | stream streamId fin payload =>
    have ho := s.onRemoteStreamFrame_outlay streamId.intoInner payload fin
    simp only
    split <;> rename_i he <;> rw [he] at ho <;> exact h.congr ho
  | resetStream streamId errorCode =>
    have ho := s.onRemoteReset_outlay streamId.intoInner errorCode.intoInner
    simp only
    split <;> rename_i he <;> rw [he] at ho <;> exact h.congr ho
  | openStream streamId =>
    have ho := onRemoteOpen_balanced hv h hl streamId.intoInner
    simp only
    split <;> rename_i he <;> rw [he] at ho <;> exact ho
  | stopSending streamId =>
    simp only
    split_ifs with hid
    · have hr := resetStream_balanced h (hv.opened _ hid) 0
      split <;> rename_i he <;> rw [he] at hr <;> exact hr
    · exact h
    · exact h
  | ping => exact h
  | connectionClose => exact markClosed_balanced hv h

theorem runOp_balanced (hv : s.sender.WF l) (h : s.Balanced l) (op : TaskOp)
    (hdrop : ∀ id, (s.life id).sendDropped = true → s.ids.Opened id) : (s.runOp op).1.Balanced l := by
  cases op with
  | cleanSend id =>
    simp only [runOp]
    split_ifs with hd
    · exact h
    · exact resetStream_balanced (s := s.setLife id { s.life id with sendDropped := false }) h (hdrop id hd) 0
    · exact h
  | stopSending id =>
    have hb := enqueueControl_balanced h (.stopSending (.expect id))
    simp only [runOp]
    split
    · rename_i he
      rw [he] at hb
      exact hb
    · rename_i s' he
      obtain rfl := enqueueControl_refused he
      simp only
      split_ifs
      · exact h
      · exact markClosed_balanced hv h
  | failClose reason => exact initiateClose_balanced hv h 1 reason
  | markClosed => exact markClosed_balanced hv h
  | complete id => simp only [runOp]; split_ifs <;> exact h
  | retire id => simp only [runOp]; split_ifs <;> exact h
  | remove id => simp only [runOp]; split_ifs <;> exact h
  | cleanRecv id => simp only [runOp]; split_ifs <;> exact h

end Shared
namespace Endpoint

variable {l : Limits} {isClient : Bool} {e e' : Endpoint} {log evs : List Event}

theorem receive_balanced (hv : e.shared.sender.WF l) (h : e.shared.Balanced l) (hl : e.shared.limits = l)
    {bytes : Bytes} (hitem : e.Receives bytes (e', evs)) : e'.shared.Balanced l := by
  rcases hitem.shared_cases with hsame | ⟨f, rest, -, -, hframe⟩
  · rwa [hsame]
  · rw [hframe]
    exact Shared.handleFrame_balanced hv h hl f

theorem read_balanced (h : e.shared.Balanced l) (mode id : Nat) (poll : Inbox → Inbox × Inbox.ReadOutcome) :
    (e.read mode id poll).1.shared.Balanced l := by
  unfold read
  split
  · exact h
  · exact h

theorem balanced_of_step (hv : e.shared.sender.WF l) (hk : e.ledger.Known) (hl : e.shared.limits = l)
    (h : e.shared.Balanced l) (a : Act) (ha : e.step a = some (e', evs)) : e'.shared.Balanced l := by
  cases step_cases ha with
  | openFinish => exact Shared.openBi_balanced hv h hl
  | write mode id payload fin sendMode r hh hm hw =>
    exact Shared.startWrite_balanced (s := e.shared.setLife id _) h (opened_of_handles hk id hh) payload fin r hw
  | acquire id s hw => exact Shared.acquireWrite_balanced hv h hw
  | enqueue id s w hw => exact Shared.enqueueWrite_balanced hv h _ hw
  | enqueueFailed id s error hw => exact Shared.enqueueWrite_balanced hv h _ hw
  | finish id s hw => exact Shared.finishWrite_balanced h hw
  | cancel id => exact Shared.cancelWrite_balanced hv h id
  | reset id errorCode hh => exact Shared.resetStream_balanced h (opened_of_handles hk id hh) errorCode
  | readChunk id => exact read_balanced h 1 id _
  | pollRead id room => exact read_balanced h 2 id _
  | dropSend id => exact (Shared.cancelWrite_balanced hv h id).congr rfl
  | close reason s hc =>
    have hb := Shared.close_balanced hv h reason
    rwa [hc] at hb
  | lastHandleDropped => exact Shared.initiateClose_balanced hv h 0 _
  | keepalive s hc hp =>
    have hb := Shared.enqueueControl_balanced h .ping
    rwa [hp] at hb
  | keepaliveRefused s hc hp =>
    obtain rfl := Shared.enqueueControl_refused hp
    simp only [hc]
    exact Shared.markClosed_balanced hv h
  | drainExpired => exact Shared.markClosed_balanced hv h
  | frame | frameEnd | frameWait =>
    rw [(nextFrame_inv ha).2.1]
    exact Shared.nextFrame_balanced hv h _
  | receive bytes e' evs hr ht hitem => exact receive_balanced hv h hl hitem
  | work task op ops ht =>
    refine Shared.runOp_balanced hv h op ?_
    intro id hd
    apply hk.opened_of_life
    intro he
    have hn : (e.shared.life id).sendDropped = false := congrArg StreamLife.sendDropped he
    rw [hd] at hn
    cases hn
  | _ => exact h

theorem reach_balanced (h : (machine l isClient).Reach e log) : e.shared.Balanced l := by
  refine h.invariant (fun e _ => e.shared.Balanced l) ?_ ?_
  · intro e he
    rw [(connect_ok he).2]
    have hn := Ids.not_opened_start isClient
    have hz : ∀ j, (Shared.new l isClient).sender.charge j = {} := fun _ => rfl
    exact
      { connBytes := by
          rw [Finset.sum_eq_zero fun j _ => congrArg Charge.connBytes (hz j)]
          rfl
        frames := by
          rw [Finset.sum_eq_zero fun j _ => congrArg Charge.frames (hz j)]
          rfl
        streamBytes := fun j hj => absurd hj (hn j)
        streamFrames := fun j hj => absurd hj (hn j)
        unheld := fun _ _ => rfl }
  · rintro e tr evs e' hr hb ⟨a, ha⟩
    have hr' := reach_ledger hr
    exact balanced_of_step (Sender.reach_wf (reach_sender hr))
      (Ledger.reach_known hr') (Ledger.reach_limits hr') hb a ha

end Endpoint
end Muxtls
