import Muxtls.Sender.Refine

namespace Muxtls
namespace Shared

variable (s : Shared)

/-- The bit `control_turn`, which only `next_frame` writes. -/
def turnBit : Bool := s.queues.controlTurn

/-- How far the connection is closed, and the close frame that waits to be sent. -/
def fate : Bool × Bool × Option Frame × Bool × Bool × Bool :=
  (s.closed, s.terminated, s.queues.closeFrame, s.queues.gracefulClose, s.queues.closing, s.cleanupStarted)

/-- A terminated connection is closed, and the cleanup starts on a terminated one. -/
def Ended : Prop := (s.terminated = true → s.closed = true) ∧ (s.cleanupStarted = true → s.terminated = true)

/-- A step outside the turns of `next_frame`; it does not reopen the admission semaphore. -/
structure OffTurn (s s' : Shared) : Prop where
  turn : s'.turnBit = s.turnBit
  ended : s.Ended → s'.Ended
  sealed : s.openStreams.closed = true → s'.openStreams.closed = true
  unsealed : (s.openStreams.closed = true → s.closed = true) → s'.openStreams.closed = true → s'.closed = true

/-- A step that also leaves the fate of a closed connection alone. -/
structure Passive (s s' : Shared) : Prop extends OffTurn s s' where
  fate : s.closed = true → s'.fate = s.fate

theorem Passive.same {s s' : Shared} (ht : s'.turnBit = s.turnBit) (hf : s'.fate = s.fate)
    (ho : s'.openStreams.closed = s.openStreams.closed) : s.Passive s' where
  sealed h := ho.trans h
  unsealed h hs := (congrArg Prod.fst hf).trans (h (ho.symm.trans hs))
  turn := ht
  fate _ := hf
  ended h := by
    unfold Shared.fate at hf
    simp only [Prod.mk.injEq] at hf
    exact ⟨by rw [hf.1, hf.2.1]; exact h.1, by rw [hf.2.1, hf.2.2.2.2.2]; exact h.2⟩

theorem OffTurn.trans {s s' s'' : Shared} (h : s.OffTurn s') (h' : s'.OffTurn s'') : s.OffTurn s'' :=
  ⟨h'.turn.trans h.turn, fun he => h'.ended (h.ended he), fun ho => h'.sealed (h.sealed ho),
    fun hu => h'.unsealed (h.unsealed hu)⟩

theorem Passive.of_life {s s' : Shared} {life : Nat → StreamLife} (h : Passive { s with life } s') : s.Passive s' :=
  ⟨⟨h.turn, h.ended, h.sealed, h.unsealed⟩, h.fate⟩

theorem cancelWrite_passive (id : Nat) : s.Passive (s.cancelWrite id) := by
  unfold cancelWrite
  cases (s.send id).pending <;> exact .same rfl rfl rfl

theorem startWrite_passive (id : Nat) (payload : Bytes) (fin : Bool) (r : Shared × Except Error Unit)
    (h : s.startWrite id payload fin = some r) : s.Passive r.1 := by
  unfold startWrite at h
  split_ifs at h
  · cases h
    exact .same rfl rfl rfl
  · cases h
    exact .same rfl rfl rfl
  · split at h <;> cases h <;> exact .same rfl rfl rfl
  · split at h <;> cases h <;> exact .same rfl rfl rfl

theorem acquireStage_passive (id : Nat) (w : PendingWrite) (stage : WriteStage) (sem : Semaphore) (n : Nat)
    (set : Semaphore → OutboundBudget) (s' : Shared) (h : s.acquireStage id w stage sem n set = some s') :
    s.Passive s' := by
  unfold acquireStage at h
  split_ifs at h
  · cases h
    exact s.cancelWrite_passive id
  · obtain ⟨sem', -, rfl⟩ := Option.map_eq_some_iff.mp h
    exact .same rfl rfl rfl

theorem acquireWrite_passive (id : Nat) (s' : Shared) (h : s.acquireWrite id = some s') :
    s.Passive s' := by
  unfold acquireWrite at h
  cases hp : (s.send id).pending with
  | none => rw [hp] at h; cases h
  | some w =>
    rw [hp] at h
    obtain ⟨payload, fin, stage⟩ := w
    cases stage with
    | locked => exact s.acquireStage_passive id _ _ _ _ _ s' h
    | streamFrame =>
      simp only at h
      split_ifs at h
      · cases h
        exact .same rfl rfl rfl
      · exact s.acquireStage_passive id _ _ _ _ _ s' h
    | streamBytes => exact s.acquireStage_passive id _ _ _ _ _ s' h
    | frame =>
      simp only at h
      split_ifs at h
      · cases h
        exact .same rfl rfl rfl
      · exact s.acquireStage_passive id _ _ _ _ _ s' h
    | connBytes => cases h
    | enqueued => cases h

theorem enqueueData_passive (id : Nat) (chunk : OutboundChunk) : s.Passive (s.enqueueData id chunk).1 := by
  unfold enqueueData
  split_ifs <;> exact .same rfl rfl rfl

theorem enqueueWrite_passive (id : Nat) (r : Shared × Except Error PendingWrite)
    (h : s.enqueueWrite id = some r) : s.Passive r.1 := by
  unfold enqueueWrite at h
  cases hp : (s.send id).pending with
  | none => rw [hp] at h; cases h
  | some w =>
    rw [hp] at h
    simp only at h
    have he : s.Passive ((s.setPending id none).enqueueData id (heldChunk id w)).1 := by
      have hq := (s.setPending id none).enqueueData_passive id (heldChunk id w)
      exact ⟨⟨hq.turn, hq.ended, hq.sealed, hq.unsealed⟩, hq.fate⟩
    split_ifs at h
    · cases h
      exact s.cancelWrite_passive id
    · split at h <;> rename_i hq <;> rw [hq] at he <;> cases h <;>
        exact ⟨⟨he.turn, he.ended, he.sealed, he.unsealed⟩, he.fate⟩
    · split at h <;> rename_i hq <;> rw [hq] at he <;> cases h <;>
        exact ⟨⟨he.turn, he.ended, he.sealed, he.unsealed⟩, he.fate⟩

theorem finishWrite_passive (id : Nat) (s' : Shared) (h : s.finishWrite id = some s') : s.Passive s' := by
  unfold finishWrite at h
  split at h
  · cases h
    exact .same rfl rfl rfl
  · cases h

theorem resetStream_passive (id errorCode : Nat) : s.Passive (s.resetStream id errorCode).1 := by
  unfold resetStream
  split_ifs
  · exact .same rfl rfl rfl
  · split <;> exact .same rfl rfl rfl
  · split <;> exact .same rfl rfl rfl
  · split <;> exact .same rfl rfl rfl

theorem enqueueControl_passive (f : Frame) : s.Passive (s.enqueueControl f).1 := by
  unfold enqueueControl
  split_ifs <;> exact .same rfl rfl rfl

theorem markClosed_offTurn : s.OffTurn s.markClosed := by
  unfold markClosed
  simp only
  split_ifs
  · exact ⟨rfl, fun _ => ⟨fun _ => rfl, fun _ => rfl⟩, fun ho => ho, fun _ _ => rfl⟩
  · exact ⟨rfl, fun _ => ⟨fun _ => rfl, fun _ => rfl⟩, fun _ => rfl, fun _ _ => rfl⟩

theorem initiateClose_passive (errorCode : Nat) (reason : String) :
    s.Passive (s.initiateClose errorCode reason).1 := by
  unfold initiateClose
  split
  · exact .same rfl rfl rfl
  · split
    · exact .same rfl rfl rfl
    · by_cases hc : s.closed = true
      · rw [if_pos hc]
        exact .same rfl rfl rfl
      · rw [if_neg hc]
        refine ⟨⟨?_, fun he => ⟨fun _ => rfl, he.2⟩, fun _ => rfl, fun _ _ => rfl⟩, fun h => absurd h hc⟩
        unfold turnBit WriterQueues.publishClose
        cases errorCode == 0 <;> rfl

theorem close_passive (reason : String) : s.Passive (s.close reason).1 := by
  unfold close
  split
  · exact .same rfl rfl rfl
  · exact s.initiateClose_passive 0 reason

theorem openBi_passive : s.Passive s.openBi.1 := by
  unfold openBi
  split_ifs with hc
  · exact .same rfl rfl rfl
  · exact ⟨{ s.markClosed_offTurn with }, fun h => absurd h hc⟩
  · exact .same rfl rfl rfl
  · exact .same rfl rfl rfl

theorem onRemoteOpen_passive (id : Nat) : s.Passive (s.onRemoteOpen id).1 := by
  unfold onRemoteOpen
  by_cases hp : id % 2 = s.localParity
  · rw [if_pos hp]
    exact .same rfl rfl rfl
  rw [if_neg hp]
  by_cases hn : id ≠ s.nextRemoteStreamId
  · rw [if_pos hn]
    exact .same rfl rfl rfl
  rw [if_neg hn]
  cases ho : s.openStreams.tryAcquire 1 with
  | none => exact .same rfl rfl rfl
  | some openStreams =>
    obtain ⟨hold, hnew, -⟩ := s.openStreams.tryAcquire_eq_some openStreams 1 ho
    simp only
    split_ifs
    · exact .same rfl rfl rfl
    · exact .same rfl rfl (hnew.trans hold.symm)
    · exact .same rfl rfl (hnew.trans hold.symm)

theorem onRemoteStreamFrame_passive (id : Nat) (payload : Bytes) (fin : Bool) :
    s.Passive (s.onRemoteStreamFrame id payload fin).1 := by
  obtain ⟨inbox, hs⟩ := s.onRemoteStreamFrame_inbox id payload fin
  rw [hs]
  exact .same rfl rfl rfl

theorem onRemoteReset_passive (id errorCode : Nat) : s.Passive (s.onRemoteReset id errorCode).1 := by
  obtain ⟨inbox, hs⟩ := s.onRemoteReset_inbox id errorCode
  rw [hs]
  exact .same rfl rfl rfl

theorem handleFrame_offTurn (f : Frame) : s.OffTurn (s.handleFrame f).1 := by
  have hof : ∀ {s'}, s.Passive s' → s.OffTurn s' := fun h => h.toOffTurn
  unfold handleFrame
  split_ifs
  · exact hof (.same rfl rfl rfl)
  cases f with
  | settings => simp only; split_ifs <;> exact hof (.same rfl rfl rfl)
  | maxData => exact hof (.same rfl rfl rfl)
  | maxStreamData => simp only; split_ifs <;> exact hof (.same rfl rfl rfl)
  | stream streamId fin payload =>
    have h := s.onRemoteStreamFrame_passive streamId.intoInner payload fin
    simp only
    split <;> rename_i he <;> rw [he] at h <;> exact hof h
  | resetStream streamId errorCode =>
    have h := s.onRemoteReset_passive streamId.intoInner errorCode.intoInner
    simp only
    split <;> rename_i he <;> rw [he] at h <;> exact hof h
  | openStream streamId =>
    have h := s.onRemoteOpen_passive streamId.intoInner
    simp only
    split <;> rename_i he <;> rw [he] at h <;> exact hof h
  | stopSending streamId =>
    have h := s.resetStream_passive streamId.intoInner 0
    simp only
    split_ifs
    · split <;> rename_i he <;> rw [he] at h <;> exact hof h
    · exact hof (.same rfl rfl rfl)
    · exact hof (.same rfl rfl rfl)
  | ping => exact hof (.same rfl rfl rfl)
  | connectionClose => exact s.markClosed_offTurn

/-- A task step other than `mark_closed`. -/
theorem runOp_passive (op : TaskOp) (hop : op ≠ .markClosed) : s.Passive (s.runOp op).1 := by
  cases op with
  | cleanSend id =>
    simp only [runOp]
    split_ifs
    · exact .same rfl rfl rfl
    · exact Passive.of_life (resetStream_passive _ id 0)
    · exact .same rfl rfl rfl
  | stopSending id =>
    have h := s.enqueueControl_passive (.stopSending (.expect id))
    simp only [runOp]
    split
    · rename_i he
      rw [he] at h
      exact h
    · rename_i s' he
      rw [he] at h
      simp only
      split_ifs with hc
      · exact h
      · refine ⟨h.toOffTurn.trans (markClosed_offTurn _), fun hs => ?_⟩
        have hclosed : s'.closed = s.closed := congrArg Prod.fst (h.fate hs)
        rw [hclosed] at hc
        exact absurd hs hc
  | failClose reason => exact s.initiateClose_passive 1 reason
  | markClosed => exact absurd rfl hop
  | complete id => simp only [runOp]; split_ifs <;> exact .same rfl rfl rfl
  | retire id => simp only [runOp]; split_ifs <;> exact .same rfl rfl rfl
  | remove id => simp only [runOp]; split_ifs <;> exact .same rfl rfl rfl
  | cleanRecv id => simp only [runOp]; split_ifs <;> exact .same rfl rfl rfl

end Shared

namespace Endpoint

variable {e e' : Endpoint} {evs : List Event}

theorem receive_offTurn {bytes : Bytes} (h : e.Receives bytes (e', evs)) : e.shared.OffTurn e'.shared := by
  rcases h.shared_cases with hsame | ⟨f, rest, -, -, hframe⟩
  · rw [hsame]
    exact ⟨rfl, fun h => h, fun h => h, fun h => h⟩
  · rw [hframe]
    exact e.shared.handleFrame_offTurn f

theorem read_passive (mode id : Nat) (poll : Inbox → Inbox × Inbox.ReadOutcome) :
    e.shared.Passive (e.read mode id poll).1.shared := by
  unfold read
  split <;> exact .same rfl rfl rfl

/-- The steps that end a closed connection: an abort, the drain timer, `mark_closed` by a task that has
left its loop, and what the peer may send. -/
def Ends (e : Endpoint) : Act → Prop
  | .abort => True
  | .drainExpired => True
  | .receive _ => True
  | .work task => ∃ ops, e.todo task = .markClosed :: ops
  | _ => False

/-- What every step other than a `next_frame` turn keeps, and what it keeps if it does not end the
connection. -/
theorem passive_of_step (a : Act) (h : e.step a = some (e', evs)) (ha : ∀ order, a ≠ .nextFrame order) :
    e.shared.OffTurn e'.shared ∧ (¬ e.Ends a → e.shared.Passive e'.shared) := by
  have hof : e.shared.Passive e'.shared →
      e.shared.OffTurn e'.shared ∧ (¬ e.Ends a → e.shared.Passive e'.shared) :=
    fun hp => ⟨hp.toOffTurn, fun _ => hp⟩
  have hend : e.shared.OffTurn e'.shared → e.Ends a →
      e.shared.OffTurn e'.shared ∧ (¬ e.Ends a → e.shared.Passive e'.shared) :=
    fun ht he => ⟨ht, fun hn => absurd he hn⟩
  cases step_cases h with
  | openStart openStreams ho hc hp =>
    obtain ⟨hold, hnew, -⟩ := e.shared.openStreams.tryAcquire_eq_some openStreams 1 hp
    exact hof (.same rfl rfl (hnew.trans hold.symm))
  | openFinish => exact hof (Shared.openBi_passive _)
  | write mode id payload fin sendMode r hh hm hw =>
    have hb := Shared.startWrite_passive _ id payload fin r hw
    exact hof ⟨⟨hb.turn, hb.ended, hb.sealed, hb.unsealed⟩, hb.fate⟩
  | acquire id s hw => exact hof (e.shared.acquireWrite_passive id s hw)
  | enqueue id s w hw => exact hof (e.shared.enqueueWrite_passive id _ hw)
  | enqueueFailed id s error hw => exact hof (e.shared.enqueueWrite_passive id _ hw)
  | finish id s hw => exact hof (e.shared.finishWrite_passive id s hw)
  | cancel id => exact hof (Shared.cancelWrite_passive _ id)
  | reset id errorCode => exact hof (Shared.resetStream_passive _ id errorCode)
  | readChunk id => exact hof (read_passive 1 id _)
  | pollRead id room => exact hof (read_passive 2 id _)
  | dropSend id =>
    have hc := e.shared.cancelWrite_passive id
    exact hof ⟨⟨hc.turn, hc.ended, hc.sealed, hc.unsealed⟩, hc.fate⟩
  | close reason s hc =>
    have hp := e.shared.close_passive reason
    rw [hc] at hp
    exact hof hp
  | lastHandleDropped => exact hof (Shared.initiateClose_passive _ 0 _)
  | abort => exact hend ⟨rfl, fun _ => ⟨fun _ => rfl, fun _ => rfl⟩, fun h => h, fun _ _ => rfl⟩ trivial
  | keepalive s hc hping =>
    have hp := e.shared.enqueueControl_passive .ping
    rw [hping] at hp
    exact hof hp
  | keepaliveRefused s hc hping =>
    obtain rfl := Shared.enqueueControl_refused hping
    refine hof ?_
    simp only [hc]
    exact ⟨Shared.markClosed_offTurn _, fun hs => absurd (hc.symm.trans hs) (by simp)⟩
  | drainExpired => exact hend (Shared.markClosed_offTurn _) trivial
  | frame order | frameEnd order | frameWait order => exact absurd rfl (ha order)
  | receive bytes e' evs hr ht hitem => exact hend (receive_offTurn hitem) trivial
  | work task op ops ht =>
    by_cases hop : op = .markClosed
    · subst hop
      exact hend (Shared.markClosed_offTurn _) ⟨ops, ht⟩
    · have hp := e.shared.runOp_passive op hop
      exact hof ⟨⟨hp.turn, hp.ended, hp.sealed, hp.unsealed⟩, hp.fate⟩
  | _ => exact hof (.same rfl rfl rfl)

end Endpoint
end Muxtls
