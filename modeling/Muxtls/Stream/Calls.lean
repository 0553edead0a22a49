import Muxtls.Outbound.Budget

namespace Muxtls

/-- The stream whose write call takes the step. A `dropSend` drops the call with the handle. -/
def Act.own : Act → Option Nat
  | .write _ id _ _ => some id
  | .acquire id => some id
  | .enqueue id => some id
  | .finish id => some id
  | .cancel id => some id
  | .dropSend id => some id
  | _ => none

namespace OutboundBudget

variable (b : OutboundBudget) (id : Nat)

/-- The closed flags of the outbound semaphores. -/
def flags : Bool × Bool × (Nat → Bool × Bool) :=
  (b.connBytes.closed, b.frames.closed, fun id => ((b.streamBytes id).closed, (b.streamFrames id).closed))

theorem flags_update {streamBytes streamFrames : Nat → Semaphore} {connBytes frames : Semaphore}
    (hc : connBytes.closed = b.connBytes.closed) (hf : frames.closed = b.frames.closed)
    (hb : ∀ j, (streamBytes j).closed = (b.streamBytes j).closed)
    (hs : ∀ j, (streamFrames j).closed = (b.streamFrames j).closed) :
    flags ⟨connBytes, frames, streamBytes, streamFrames⟩ = b.flags := by
  simp only [flags, hc, hf, hb, hs]

theorem closed_update {sems : Nat → Semaphore} {sem : Semaphore} (h : sem.closed = (sems id).closed) (j : Nat) :
    (Function.update sems id sem j).closed = (sems j).closed := by
  by_cases hj : j = id
  · subst hj
    rw [Function.update_self, h]
  · rw [Function.update_of_ne hj]

theorem flags_release (c : Charge) : (b.release id c).flags = b.flags :=
  b.flags_update rfl rfl (closed_update id rfl) (closed_update id rfl)

theorem flags_releaseChunks (chunks : List OutboundChunk) : (b.releaseChunks id chunks).flags = b.flags := by
  rw [releaseChunks_eq]
  exact b.flags_release id _

end OutboundBudget

namespace Shared

variable {l : Limits} {s s' s'' : Shared} {own : Option Nat} {id : Nat}

/-- The write call of each stream, and whether its send direction has ended. -/
def calls (s : Shared) : Nat → Option PendingWrite × Bool :=
  fun id => ((s.send id).pending, (s.send id).sendTerminal)

/-- The API mode of each send direction, and its handles. -/
def callers (s : Shared) : Nat → Nat × Nat := fun id => ((s.life id).sendMode, (s.life id).sendHandles)

/-- On an open connection no outbound semaphore is closed but the byte budget of a stream that has ended. -/
def Unsealed (s : Shared) : Prop :=
  s.closed = false → s.budget.connBytes.closed = false ∧ s.budget.frames.closed = false ∧
    ∀ id, (s.budget.streamFrames id).closed = false ∧
      ((s.budget.streamBytes id).closed = true → (s.send id).sendTerminal = true)

/-- What a step leaves of the write calls; `own` is the stream whose call takes it. -/
structure Passes (own : Option Nat) (s s' : Shared) : Prop where
  closed : s.closed = true → s'.closed = true
  terminal : ∀ id, s.ids.Opened id → (s.send id).sendTerminal = true → (s'.send id).sendTerminal = true
  pending : ∀ id, s.ids.Opened id → own ≠ some id → (s'.send id).pending = (s.send id).pending
  mode : ∀ id, s.ids.Opened id → own ≠ some id → (s'.life id).sendMode = (s.life id).sendMode
  handles : ∀ id, s.ids.Opened id → own ≠ some id →
    (s.life id).sendHandles ≠ 0 → (s'.life id).sendHandles ≠ 0
  unsealed : s.Unsealed → s'.Unsealed

theorem Passes.of_calls (hs : s'.calls = s.calls) (hl : s'.callers = s.callers)
    (hc : s.closed = true → s'.closed = true) (hu : s.Unsealed → s'.Unsealed) : s.Passes own s' where
  closed := hc
  terminal id _ h := (congrArg Prod.snd (congrFun hs id)).trans h
  pending id _ _ := congrArg Prod.fst (congrFun hs id)
  mode id _ _ := congrArg Prod.fst (congrFun hl id)
  handles id _ _ h := by
    rw [show (s'.life id).sendHandles = (s.life id).sendHandles from congrArg Prod.snd (congrFun hl id)]
    exact h
  unsealed := hu

theorem Unsealed.congr (h : s.Unsealed) (hc : s'.closed = s.closed) (hf : s'.budget.flags = s.budget.flags)
    (ht : ∀ id, (s.send id).sendTerminal = true → (s'.send id).sendTerminal = true) : s'.Unsealed := by
  intro ho
  simp only [OutboundBudget.flags, Prod.mk.injEq] at hf
  obtain ⟨hfc, hff, hfs⟩ := hf
  obtain ⟨hconn, hframes, hstream⟩ := h (hc ▸ ho)
  refine ⟨hfc.trans hconn, hff.trans hframes, fun id => ?_⟩
  obtain ⟨hb, hs⟩ := Prod.mk.inj (congrFun hfs id)
  exact ⟨hs.trans (hstream id).1, fun hcl => ht id ((hstream id).2 (hb.symm.trans hcl))⟩

theorem Passes.same (hs : s'.calls = s.calls) (hl : s'.callers = s.callers) (hc : s'.closed = s.closed)
    (hf : s'.budget.flags = s.budget.flags) : s.Passes own s' :=
  .of_calls hs hl (fun h => hc.trans h) fun hu => hu.congr hc hf fun id ht =>
    (congrArg Prod.snd (congrFun hs id)).trans ht

/-- The connection is closed. -/
theorem Passes.close (hs : s'.calls = s.calls) (hl : s'.callers = s.callers) (hc : s'.closed = true) :
    s.Passes own s' :=
  .of_calls hs hl (fun _ => hc) fun _ ho => absurd (hc.symm.trans ho) (by simp)

theorem Passes.trans (h : s.Passes own s') (h' : s'.Passes own s'')
    (ho : ∀ id, s.ids.Opened id → s'.ids.Opened id) :
    s.Passes own s'' where
  closed hc := h'.closed (h.closed hc)
  terminal id hid ht := h'.terminal id (ho id hid) (h.terminal id hid ht)
  pending id hid hn := (h'.pending id (ho id hid) hn).trans (h.pending id hid hn)
  mode id hid hn := (h'.mode id (ho id hid) hn).trans (h.mode id hid hn)
  handles id hid hn hh := h'.handles id (ho id hid) hn (h.handles id hid hn hh)
  unsealed hu := h'.unsealed (h.unsealed hu)

theorem callers_setLife (life : StreamLife) (hm : life.sendMode = (s.life id).sendMode)
    (hh : life.sendHandles = (s.life id).sendHandles) : (s.setLife id life).callers = s.callers := by
  funext j
  by_cases hj : j = id
  · subst hj
    simp [callers, setLife, hm, hh]
  · simp [callers, setLife, hj]

/-- A step of the stream's own call. -/
theorem Passes.pend {b : OutboundBudget} (pending : Option PendingWrite) (hf : b.flags = s.budget.flags) :
    s.Passes (some id) ({ s with budget := b }.setPending id pending) where
  closed h := h
  terminal j _ h := by
    by_cases hj : j = id
    · subst hj
      simpa [setPending] using h
    · simpa [setPending, hj] using h
  pending j _ hn := by
    have hj : j ≠ id := fun hj => hn (congrArg some hj.symm)
    simp [setPending, hj]
  mode _ _ _ := rfl
  handles _ _ _ h := h
  unsealed hu := hu.congr rfl hf fun j h => by
    by_cases hj : j = id
    · subst hj
      simpa [setPending] using h
    · simpa [setPending, hj] using h

theorem cancelWrite_passes (s : Shared) (id : Nat) : s.Passes (some id) (s.cancelWrite id) := by
  cases hw : (s.send id).pending with
  | none =>
    unfold cancelWrite
    rw [hw]
    exact .same rfl rfl rfl rfl
  | some w =>
    rw [cancelWrite_eq w hw]
    exact .pend none (s.budget.flags_release id _)

theorem startWrite_passes (payload : Bytes) (fin : Bool) (r : Shared × Except Error Unit)
    (h : s.startWrite id payload fin = some r) : s.Passes (some id) r.1 := by
  have hpend : ∀ pending, s.Passes (some id) (s.setPending id pending) := fun pending => .pend pending rfl
  unfold startWrite at h
  split_ifs at h
  · cases h
    exact .same rfl rfl rfl rfl
  · cases h
    exact .same rfl rfl rfl rfl
  · split at h <;> cases h <;> exact .same rfl rfl rfl rfl
  · split at h
    · cases h
      exact .same rfl rfl rfl rfl
    · cases h
      exact hpend _

theorem acquireStage_passes (w : PendingWrite) (stage : WriteStage) (sem : Semaphore) (n : Nat)
    (set : Semaphore → OutboundBudget)
    (hset : ∀ sem', sem'.closed = sem.closed → (set sem').flags = s.budget.flags)
    (h : s.acquireStage id w stage sem n set = some s') : s.Passes (some id) s' := by
  unfold acquireStage at h
  split_ifs at h
  · cases h
    exact s.cancelWrite_passes id
  · obtain ⟨sem', hsem, rfl⟩ := Option.map_eq_some_iff.mp h
    obtain ⟨hold, hnew, -⟩ := sem.tryAcquire_eq_some sem' n hsem
    exact .pend _ (hset sem' (hnew.trans hold.symm))

theorem acquireWrite_passes (h : s.acquireWrite id = some s') : s.Passes (some id) s' := by
  have hpend : ∀ pending, s.Passes (some id) (s.setPending id pending) := fun pending => .pend pending rfl
  unfold acquireWrite at h
  cases hw : (s.send id).pending with
  | none =>
    rw [hw] at h
    cases h
  | some w =>
    rw [hw] at h
    obtain ⟨payload, fin, stage⟩ := w
    cases stage with
    | locked =>
      exact acquireStage_passes _ _ _ _ _ (fun sem hs => s.budget.flags_update rfl rfl (fun _ => rfl)
        (OutboundBudget.closed_update id hs)) h
    | streamFrame =>
      simp only at h
      split_ifs at h
      · cases h
        exact hpend _
      · exact acquireStage_passes _ _ _ _ _ (fun sem hs => s.budget.flags_update rfl rfl
          (OutboundBudget.closed_update id hs) fun _ => rfl) h
    | streamBytes =>
      exact acquireStage_passes _ _ _ _ _ (fun sem hs => s.budget.flags_update rfl hs (fun _ => rfl) fun _ => rfl) h
    | frame =>
      simp only at h
      split_ifs at h
      · cases h
        exact hpend _
      · exact acquireStage_passes _ _ _ _ _
          (fun sem hs => s.budget.flags_update hs rfl (fun _ => rfl) fun _ => rfl) h
    | connBytes => cases h
    | enqueued => cases h

theorem enqueueWrite_passes (r : Shared × Except Error PendingWrite) (h : s.enqueueWrite id = some r) :
    s.Passes (some id) r.1 := by
  unfold enqueueWrite at h
  cases hw : (s.send id).pending with
  | none =>
    rw [hw] at h
    cases h
  | some w =>
    rw [hw] at h
    simp only at h
    split_ifs at h
    · cases h
      exact s.cancelWrite_passes id
    all_goals
      have hnone : s.Passes (some id) (s.setPending id none) := .pend none rfl
      unfold enqueueData at h
      split_ifs at h
      · cases h
        exact .pend none (s.budget.flags_releaseChunks id _)
      · cases h
        have hpush : s.Passes (some id)
            { s.setPending id none with queues := s.queues.pushChunk id (heldChunk id w) } :=
          ⟨hnone.1, hnone.2, hnone.3, hnone.4, hnone.5, hnone.6⟩
        first
          | exact hpush
          | exact hpush.trans (.pend (some { w with stage := .enqueued }) rfl) fun _ h => h

theorem finishWrite_passes (h : s.finishWrite id = some s') : s.Passes (some id) s' := by
  unfold finishWrite at h
  split at h
  · cases h
    have hset : ∀ j, (s.send j).sendTerminal = true →
        (Function.update s.send id { s.send id with sendTerminal := true, pending := none } j).sendTerminal = true := by
      intro j hj
      by_cases he : j = id
      · subst he
        simp
      · simpa [he] using hj
    exact
      { closed := fun h => h
        terminal := fun j _ => hset j
        pending := fun j _ hn => by
          have hj : j ≠ id := fun hj => hn (congrArg some hj.symm)
          simp [hj]
        mode := fun _ _ _ => rfl
        handles := fun _ _ _ h => h
        unsealed := fun hu => hu.congr rfl rfl hset }
  · cases h

theorem terminal_setSend (st : SendState) (ht : (s.send id).sendTerminal = true → st.sendTerminal = true) (j : Nat)
    (h : (s.send j).sendTerminal = true) : (Function.update s.send id st j).sendTerminal = true := by
  by_cases hj : j = id
  · subst hj
    rw [Function.update_self]
    exact ht h
  · rw [Function.update_of_ne hj]
    exact h

/-- A direction changes, but not its call, and it stays ended. -/
theorem Passes.setSend (st : SendState) (hs : s'.send = Function.update s.send id st)
    (hp : st.pending = (s.send id).pending) (ht : (s.send id).sendTerminal = true → st.sendTerminal = true)
    (hl : s'.callers = s.callers) (hc : s'.closed = s.closed) (hu : s.Unsealed → s'.Unsealed) : s.Passes own s' where
  closed h := hc.trans h
  terminal j _ h := by
    rw [hs]
    exact terminal_setSend st ht j h
  pending j _ _ := by
    rw [hs]
    by_cases hj : j = id
    · subst hj
      rw [Function.update_self, hp]
    · rw [Function.update_of_ne hj]
  mode j _ _ := congrArg Prod.fst (congrFun hl j)
  handles j _ _ h := by
    rw [show (s'.life j).sendHandles = (s.life j).sendHandles from congrArg Prod.snd (congrFun hl j)]
    exact h
  unsealed := hu

theorem Passes.setSend_flags (st : SendState) (hs : s'.send = Function.update s.send id st)
    (hp : st.pending = (s.send id).pending) (ht : st.sendTerminal = (s.send id).sendTerminal)
    (hl : s'.callers = s.callers) (hc : s'.closed = s.closed) (hf : s'.budget.flags = s.budget.flags) :
    s.Passes own s' :=
  .setSend st hs hp (fun h => ht.trans h) hl hc fun hu => hu.congr hc hf fun j h =>
    hs ▸ terminal_setSend st (fun h => ht.trans h) j h

theorem resetStream_passes (s : Shared) (id errorCode : Nat) : s.Passes own (s.resetStream id errorCode).1 := by
  unfold resetStream
  split_ifs
  · exact .same rfl rfl rfl rfl
  · split <;> exact .same rfl rfl rfl rfl
  · split <;> exact .same rfl rfl rfl rfl
  · split
    · exact .same rfl rfl rfl rfl
    · exact .same rfl rfl rfl rfl
    · refine .setSend { s.send id with resetQueued := true, sendTerminal := true } rfl rfl (fun _ => rfl) rfl rfl ?_
      intro hu ho
      obtain ⟨hconn, hframes, hstream⟩ := hu ho
      refine ⟨hconn, hframes, fun j => ?_⟩
      by_cases hj : j = id
      · subst hj
        simp [OutboundBudget.releaseChunks, (hstream j).1]
      · simpa [OutboundBudget.releaseChunks, hj] using hstream j

theorem markClosed_passes (s : Shared) : s.Passes own s.markClosed := by
  unfold markClosed
  simp only
  split_ifs <;> exact .close rfl rfl rfl

theorem initiateClose_passes (s : Shared) (errorCode : Nat) (reason : String) :
    s.Passes own (s.initiateClose errorCode reason).1 := by
  unfold initiateClose
  split
  · exact .same rfl rfl rfl rfl
  · split
    · exact .same rfl rfl rfl rfl
    · split_ifs <;> first | exact .same rfl rfl rfl rfl | exact .close rfl rfl rfl

theorem close_passes (s : Shared) (reason : String) : s.Passes own (s.close reason).1 := by
  unfold close
  split
  · exact .same rfl rfl rfl rfl
  · exact s.initiateClose_passes 0 reason

/-- A stream with a new id enters the map, with open budgets of its own. -/
theorem Passes.create (hn : ¬ s.ids.Opened id) (hs : s'.send = Function.update s.send id {})
    (hl : ∀ j, j ≠ id → s'.life j = s.life j) (hc : s'.closed = s.closed)
    (hb : s'.budget = (s.createStream id).budget) : s.Passes own s' := by
  have hne : ∀ j, s.ids.Opened j → j ≠ id := fun j hj he => hn (he ▸ hj)
  exact
    { closed := fun h => hc.trans h
      terminal := fun j hj h => by rw [hs, Function.update_of_ne (hne j hj)]; exact h
      pending := fun j hj _ => by rw [hs, Function.update_of_ne (hne j hj)]
      mode := fun j hj _ => by rw [hl j (hne j hj)]
      handles := fun j hj _ h => by rw [hl j (hne j hj)]; exact h
      unsealed := by
        intro hu ho
        obtain ⟨hconn, hframes, hstream⟩ := hu (hc ▸ ho)
        rw [hb, hs]
        refine ⟨hconn, hframes, fun j => ?_⟩
        by_cases hj : j = id
        · subst hj
          simp [createStream]
        · simpa [createStream, hj] using hstream j }

theorem openBi_passes (hi : s.ids.WF) : s.Passes own s.openBi.1 := by
  unfold openBi
  split_ifs
  · exact .same rfl rfl rfl rfl
  · have hm := @markClosed_passes own s
    exact ⟨hm.1, hm.2, hm.3, hm.4, hm.5, hm.6⟩
  · refine .create (Ids.not_opened_nextLocal hi) rfl (fun j hj => ?_) rfl rfl
    have hne : j ≠ s.nextLocalStreamId := hj
    simp [createStream, insertStream, hne]
  · exact .same rfl rfl rfl rfl

theorem onRemoteOpen_passes (hi : s.ids.WF) (id : Nat) : s.Passes own (s.onRemoteOpen id).1 := by
  unfold onRemoteOpen
  by_cases hp : id % 2 = s.localParity
  · rw [if_pos hp]
    exact .same rfl rfl rfl rfl
  rw [if_neg hp]
  by_cases hn : id = s.nextRemoteStreamId
  · subst hn
    have hlife : ∀ j, j ≠ s.nextRemoteStreamId → (s.createStream s.nextRemoteStreamId).life j = s.life j :=
      fun j hj => Function.update_of_ne hj _ _
    rw [if_neg (by simp)]
    cases s.openStreams.tryAcquire 1 with
    | none => exact .same rfl rfl rfl rfl
    | some openStreams =>
      simp only
      split_ifs
      · exact .same rfl rfl rfl rfl
      · exact .create (Ids.not_opened_nextRemote hi) rfl hlife rfl rfl
      · exact .create (Ids.not_opened_nextRemote hi) rfl hlife rfl rfl
  · rw [if_pos hn]
    exact .same rfl rfl rfl rfl

theorem enqueueControl_passes (s : Shared) (f : Frame) : s.Passes own (s.enqueueControl f).1 := by
  unfold enqueueControl
  split_ifs <;> exact .same rfl rfl rfl rfl

theorem dispatch_passes (s : Shared) (id : Nat) (chunk : OutboundChunk) (rest : List OutboundChunk) (ready : List Nat) :
    s.Passes own (s.dispatch id chunk rest ready).1 := by
  unfold dispatch
  simp only
  have hf : (if (chunk.payload.drop (s.queues.takeCount (s.send id) chunk)).isEmpty = true
      then s.budget.releaseChunks id [chunk] else s.budget).flags = s.budget.flags := by
    split_ifs
    · exact s.budget.flags_releaseChunks id _
    · rfl
  exact .setSend_flags _ rfl rfl rfl rfl rfl hf

theorem nextFrame_passes (hv : s.sender.WF l) (order : List Nat) : s.Passes own (s.nextFrame order).1 := by
  have hclose : s.Passes own s.closeTurn.1 := by
    unfold closeTurn
    split <;> exact .same rfl rfl rfl rfl
  have hdata : s.Passes own s.dataTurn.1 := by
    have hself : s.withReady (s.queues.ready ++ []) = s := by simp [withReady]
    have hspec := dataPass_spec s hv.queues s.queues.ready [] rfl (by simp)
    rw [hself] at hspec
    unfold dataTurn
    rcases hspec with ⟨hnone, -⟩ | ⟨id, chunk, chunks, before, later, -, -, hc, -, hsome⟩
    · rw [hnone]
      simp only
      split_ifs
      · exact .same rfl rfl rfl rfl
      · exact hclose
      · exact .same rfl rfl rfl rfl
    · rw [hsome]
      exact s.dispatch_passes id chunk chunks _
  unfold nextFrame
  split_ifs
  · exact hclose
  · split
    · rename_i s' f hc
      obtain ⟨inbox, control, rfl⟩ := s.controlPass_frame order (s', f) hc
      exact .same rfl rfl rfl rfl
    · exact hdata
  · exact hdata

theorem handleFrame_passes (hi : s.ids.WF) (f : Frame) : s.Passes own (s.handleFrame f).1 := by
  unfold handleFrame
  split_ifs
  · exact .same rfl rfl rfl rfl
  cases f with
  | settings => simp only; split_ifs <;> exact .same rfl rfl rfl rfl
  | maxData => exact .same rfl rfl rfl rfl
  | maxStreamData streamId maximum =>
    simp only
    split_ifs
    · exact .setSend_flags _ rfl rfl rfl rfl rfl rfl
    · exact .same rfl rfl rfl rfl
    · exact .same rfl rfl rfl rfl
  | stream streamId fin payload =>
    obtain ⟨inbox, hs⟩ := s.onRemoteStreamFrame_inbox streamId.intoInner payload fin
    simp only
    split <;> rename_i he <;> rw [he] at hs <;> cases hs <;> exact .same rfl rfl rfl rfl
  | resetStream streamId errorCode =>
    obtain ⟨inbox, hs⟩ := s.onRemoteReset_inbox streamId.intoInner errorCode.intoInner
    simp only
    split <;> rename_i he <;> rw [he] at hs <;> cases hs <;> exact .same rfl rfl rfl rfl
  | openStream streamId =>
    have ho := @onRemoteOpen_passes s own hi streamId.intoInner
    simp only
    split <;> rename_i he <;> rw [he] at ho <;> exact ho
  | stopSending streamId =>
    have hr := @resetStream_passes own s streamId.intoInner 0
    simp only
    split_ifs
    · split <;> rename_i he <;> rw [he] at hr <;> exact hr
    · exact .same rfl rfl rfl rfl
    · exact .same rfl rfl rfl rfl
  | ping => exact .same rfl rfl rfl rfl
  | connectionClose => exact s.markClosed_passes

theorem runOp_passes (s : Shared) (op : TaskOp) : s.Passes own (s.runOp op).1 := by
  have hlife : ∀ (id : Nat) (life : StreamLife), life.sendMode = (s.life id).sendMode →
      life.sendHandles = (s.life id).sendHandles → s.Passes own (s.setLife id life) :=
    fun id life hm hh => .same rfl (callers_setLife life hm hh) rfl rfl
  cases op with
  | complete id =>
    simp only [runOp]
    split_ifs
    · exact hlife id _ rfl rfl
    · exact .same rfl rfl rfl rfl
  | retire id =>
    simp only [runOp]
    split_ifs
    · exact .same rfl (callers_setLife _ rfl rfl) rfl rfl
    · exact .same rfl (callers_setLife _ rfl rfl) rfl rfl
    · exact .same rfl rfl rfl rfl
  | remove id => simp only [runOp]; split_ifs <;> exact .same rfl rfl rfl rfl
  | cleanSend id =>
    simp only [runOp]
    split_ifs
    · exact hlife id _ rfl rfl
    · have hdrop := hlife id { s.life id with sendDropped := false } rfl rfl
      exact hdrop.trans (resetStream_passes _ id 0) fun _ h => h
    · exact .same rfl rfl rfl rfl
  | cleanRecv id =>
    simp only [runOp]
    split_ifs
    · exact .same rfl (callers_setLife _ rfl rfl) rfl rfl
    · exact .same rfl (callers_setLife _ rfl rfl) rfl rfl
    · exact .same rfl rfl rfl rfl
  | stopSending id =>
    have hc := @enqueueControl_passes own s (.stopSending (.expect id))
    simp only [runOp]
    split
    · rename_i he
      rw [he] at hc
      exact hc
    · rename_i s' he
      obtain rfl := enqueueControl_refused he
      simp only
      split_ifs
      · exact .same rfl rfl rfl rfl
      · exact s'.markClosed_passes
  | failClose reason => exact s.initiateClose_passes 1 reason
  | markClosed => exact s.markClosed_passes

end Shared

namespace Endpoint

variable {l : Limits} {isClient : Bool} {e e' : Endpoint} {log evs : List Event}

theorem receive_passes {own : Option Nat} (hi : e.shared.ids.WF) {bytes : Bytes}
    (hitem : e.Receives bytes (e', evs)) : e.shared.Passes own e'.shared := by
  rcases hitem.shared_cases with hsame | ⟨f, rest, -, -, hframe⟩
  · rw [hsame]
    exact .same rfl rfl rfl rfl
  · rw [hframe]
    exact Shared.handleFrame_passes hi f

theorem read_passes {own : Option Nat} (mode id : Nat) (poll : Inbox → Inbox × Inbox.ReadOutcome) :
    e.shared.Passes own (e.read mode id poll).1.shared := by
  unfold read
  split
  · exact .same rfl rfl rfl rfl
  · exact .same rfl (Shared.callers_setLife _ rfl rfl) rfl rfl

theorem passes_of_step (hv : e.shared.sender.WF l) (a : Act) (ha : e.step a = some (e', evs)) :
    e.shared.Passes a.own e'.shared := by
  cases step_cases ha with
  | openFinish => exact Shared.openBi_passes hv.ids
  | accept id incoming =>
    exact
      { closed := fun h => h
        terminal := fun _ _ h => h
        pending := fun _ _ _ => rfl
        mode := fun j _ _ => by by_cases hj : j = id <;> simp [hj]
        handles := fun j _ _ h => by by_cases hj : j = id <;> simp [hj]; exact h
        unsealed := fun hu => hu }
  | write mode id payload fin sendMode r hh hm hw =>
    have hlife : e.shared.Passes (some id) (e.shared.setLife id { e.shared.life id with sendMode }) :=
      { closed := fun h => h
        terminal := fun _ _ h => h
        pending := fun _ _ _ => rfl
        mode := fun j _ hn => by
          have hj : j ≠ id := fun hj => hn (congrArg some hj.symm)
          simp [Shared.setLife, hj]
        handles := fun j _ hn h => by
          have hj : j ≠ id := fun hj => hn (congrArg some hj.symm)
          simpa [Shared.setLife, hj] using h
        unsealed := fun hu => hu }
    exact hlife.trans (Shared.startWrite_passes payload fin r hw) fun _ h => h
  | acquire id s hw => exact Shared.acquireWrite_passes hw
  | enqueue id s w hw => exact Shared.enqueueWrite_passes _ hw
  | enqueueFailed id s error hw => exact Shared.enqueueWrite_passes _ hw
  | finish id s hw => exact Shared.finishWrite_passes hw
  | cancel id => exact e.shared.cancelWrite_passes id
  | reset id errorCode => exact e.shared.resetStream_passes id errorCode
  | readChunk id => exact read_passes 1 id _
  | pollRead id room => exact read_passes 2 id _
  | dropSend id =>
    have hc := e.shared.cancelWrite_passes id
    exact
      { closed := hc.closed
        terminal := hc.terminal
        pending := hc.pending
        mode := fun j hj hn => by
          have hne : j ≠ id := fun hj => hn (congrArg some hj.symm)
          simpa [free, Shared.setLife, hne] using hc.mode j hj hn
        handles := fun j hj hn h => by
          have hne : j ≠ id := fun hj => hn (congrArg some hj.symm)
          simpa [free, Shared.setLife, hne] using hc.handles j hj hn h
        unsealed := hc.unsealed }
  | dropRecv id => exact .same rfl (Shared.callers_setLife _ rfl rfl) rfl rfl
  | close reason s hc =>
    have hp := @Shared.close_passes none e.shared reason
    rwa [hc] at hp
  | lastHandleDropped => exact e.shared.initiateClose_passes 0 _
  | abort => exact .close rfl rfl rfl
  | keepalive s hc hping =>
    have hp := @Shared.enqueueControl_passes none e.shared .ping
    rwa [hping] at hp
  | keepaliveRefused s hc hping =>
    obtain rfl := Shared.enqueueControl_refused hping
    simp only [hc]
    exact e.shared.markClosed_passes
  | drainExpired => exact e.shared.markClosed_passes
  | frame | frameEnd | frameWait =>
    rw [(nextFrame_inv ha).2.1]
    exact Shared.nextFrame_passes hv _
  | receive bytes e' evs hr ht hitem => exact receive_passes hv.ids hitem
  | work task op ops ht =>
    have hp := @Shared.runOp_passes none e.shared op
    exact ⟨hp.1, hp.2, hp.3, hp.4, hp.5, hp.6⟩
  | _ => exact .same rfl rfl rfl rfl

theorem reach_unsealed (h : (machine l isClient).Reach e log) : e.shared.Unsealed := by
  refine h.invariant (fun e _ => e.shared.Unsealed) ?_ ?_
  · intro e he _
    rw [(connect_ok he).2]
    exact ⟨rfl, rfl, fun _ => ⟨rfl, fun h => absurd h (by simp [Shared.new])⟩⟩
  · rintro e _ evs e' hr hu ⟨a, ha⟩
    exact (passes_of_step (Sender.reach_wf (reach_sender hr)) a ha).unsealed hu

end Endpoint
end Muxtls
