import Muxtls.Connection.Ids

namespace Muxtls

/-- The part of a connection that its writer does not own: everything except the queues, the send
directions and the outbound permits. -/
structure Core where
  limits : Limits
  ids : Ids
  streams : List Nat
  incoming : List Nat
  life : Nat → StreamLife
  inbox : Inbox
  permits : Nat
  closed : Bool
  shut : Bool

/-- MAX_DATA or MAX_STREAM_DATA. -/
def Frame.isCredit : Frame → Bool
  | .maxData _ => true
  | .maxStreamData _ _ => true
  | _ => false

namespace Shared

variable (s : Shared)

def core : Core where
  limits := s.limits
  ids := s.ids
  streams := s.streams
  incoming := s.incomingStreams
  life := s.life
  inbox := s.inbox
  permits := s.openStreams.permits
  closed := s.closed
  shut := s.cleanupStarted

@[simp] theorem cancelWrite_core (id : Nat) : (s.cancelWrite id).core = s.core := by
  unfold cancelWrite
  cases (s.send id).pending <;> rfl

theorem startWrite_core (id : Nat) (payload : Bytes) (fin : Bool) (r : Shared × Except Error Unit)
    (h : s.startWrite id payload fin = some r) : r.1.core = s.core := by
  unfold startWrite at h
  split_ifs at h
  · cases h; rfl
  · cases h; rfl
  · split at h <;> cases h <;> rfl
  · split at h <;> cases h <;> rfl

theorem acquireStage_core (id : Nat) (w : PendingWrite) (stage : WriteStage) (sem : Semaphore) (n : Nat)
    (set : Semaphore → OutboundBudget) (s' : Shared) (h : s.acquireStage id w stage sem n set = some s') :
    s'.core = s.core := by
  unfold acquireStage at h
  split_ifs at h
  · cases h
    exact s.cancelWrite_core id
  · obtain ⟨sem', -, rfl⟩ := Option.map_eq_some_iff.mp h
    rfl

theorem acquireWrite_core (id : Nat) (s' : Shared) (h : s.acquireWrite id = some s') :
    s'.core = s.core := by
  unfold acquireWrite at h
  cases hp : (s.send id).pending with
  | none => rw [hp] at h; cases h
  | some w =>
    rw [hp] at h
    obtain ⟨payload, fin, stage⟩ := w
    cases stage with
    | locked => exact s.acquireStage_core id _ _ _ _ _ s' h
    | streamFrame =>
      simp only at h
      split_ifs at h
      · cases h; rfl
      · exact s.acquireStage_core id _ _ _ _ _ s' h
    | streamBytes => exact s.acquireStage_core id _ _ _ _ _ s' h
    | frame =>
      simp only at h
      split_ifs at h
      · cases h; rfl
      · exact s.acquireStage_core id _ _ _ _ _ s' h
    | connBytes => cases h
    | enqueued => cases h

theorem enqueueData_core (id : Nat) (chunk : OutboundChunk) :
    (s.enqueueData id chunk).1.core = s.core := by
  unfold enqueueData
  split_ifs <;> rfl

theorem enqueueWrite_core (id : Nat) (r : Shared × Except Error PendingWrite)
    (h : s.enqueueWrite id = some r) : r.1.core = s.core := by
  unfold enqueueWrite at h
  cases hp : (s.send id).pending with
  | none => rw [hp] at h; cases h
  | some w =>
    rw [hp] at h
    simp only at h
    have he := (s.setPending id none).enqueueData_core id (heldChunk id w)
    split_ifs at h
    · cases h
      exact s.cancelWrite_core id
    · split at h <;> rename_i hq <;> rw [hq] at he <;> cases h <;> exact he
    · split at h <;> rename_i hq <;> rw [hq] at he <;> cases h <;> exact he

theorem finishWrite_core (id : Nat) (s' : Shared) (h : s.finishWrite id = some s') :
    s'.core = s.core := by
  unfold finishWrite at h
  split at h
  · cases h; rfl
  · cases h

theorem resetStream_core (id errorCode : Nat) :
    (s.resetStream id errorCode).1.core = s.core := by
  unfold resetStream
  split_ifs
  · rfl
  · split <;> rfl
  · split <;> rfl
  · split <;> rfl

theorem enqueueControl_core (f : Frame) : (s.enqueueControl f).1.core = s.core := by
  unfold enqueueControl
  split_ifs <;> rfl

theorem closeTurn_core : s.closeTurn.1.core = s.core := by
  unfold closeTurn
  split <;> rfl

theorem dataPass_core (n : Nat) : (s.dataPass n).1.core = s.core := by
  induction n generalizing s with
  | zero => rfl
  | succ n ih =>
    unfold dataPass
    split
    · rfl
    · split
      · rfl
      · rfl
      · split_ifs
        · rfl
        · exact ih _

theorem dataTurn_core : s.dataTurn.1.core = s.core := by
  have hp := s.dataPass_core s.queues.ready.length
  unfold dataTurn
  cases hd : s.dataPass s.queues.ready.length with
  | mk s' turn =>
    rw [hd] at hp
    cases turn with
    | some turn => exact hp
    | none =>
      simp only
      split_ifs
      · exact hp
      · exact s'.closeTurn_core.trans hp
      · exact hp

theorem initiateClose_core (errorCode : Nat) (reason : String) :
    (s.initiateClose errorCode reason).1.core = s.core ∨
      (s.initiateClose errorCode reason).1.core = { s.core with closed := true } := by
  unfold initiateClose
  cases s.limits.fitCloseReason errorCode reason with
  | error error => exact .inl rfl
  | ok reason =>
    cases ErrorCode.fromU64 errorCode with
    | error error => exact .inl rfl
    | ok code =>
      simp only
      by_cases hc : s.closed = true
      · rw [if_pos hc]
        exact .inl rfl
      · rw [if_neg hc]
        exact .inr rfl

theorem markClosed_core :
    s.markClosed.core = { s.core with closed := true } ∨
      s.markClosed.core =
        { s.core with
          closed := true
          shut := true
          streams := []
          inbox := s.streams.foldl Inbox.markConnectionClosed
            { s.inbox with inboundConnBytes := s.inbox.inboundConnBytes.close } } := by
  unfold markClosed
  simp only
  split_ifs
  · exact .inl rfl
  · exact .inr rfl

/-- An update of the connection window. -/
def grantConn : Shared :=
  { s with inbox := { s.inbox with receiveWindow := s.inbox.receiveWindow.update.1 } }

/-- An update of a stream window. -/
def grantStream (id : Nat) : Shared :=
  { s with
    inbox :=
      { s.inbox with
        recv := Function.update s.inbox.recv id
          { s.inbox.recv id with receiveWindow := (s.inbox.recv id).receiveWindow.update.1 } } }

theorem closeTurn_frame (f : Frame) (hclose : ∀ g, s.queues.closeFrame = some g → g.isCredit = false)
    (h : s.closeTurn.2 = .frame f) : f.isCredit = false := by
  unfold closeTurn WriterQueues.takeCloseFrame at h
  cases hc : s.queues.closeFrame with
  | none =>
    rw [hc] at h
    cases h
  | some g =>
    have hg := hclose g hc
    rw [hc] at h
    cases g <;> cases h <;> first | rfl | exact hg

theorem dataPass_frame (n : Nat) (f : Frame) (h : (s.dataPass n).2 = some (.frame f)) :
    f.isCredit = false := by
  induction n generalizing s with
  | zero => cases h
  | succ n ih =>
    unfold dataPass at h
    split at h
    · cases h
    · split at h
      · cases h
      · cases h
      · split_ifs at h
        · cases h
          rfl
        · exact ih _ h

theorem dataPass_closeFrame (n : Nat) : (s.dataPass n).1.queues.closeFrame = s.queues.closeFrame := by
  induction n generalizing s with
  | zero => rfl
  | succ n ih =>
    unfold dataPass
    split
    · rfl
    · split
      · rfl
      · rfl
      · split_ifs
        · rfl
        · exact ih _

theorem dataTurn_frame (f : Frame) (hclose : ∀ g, s.queues.closeFrame = some g → g.isCredit = false)
    (h : s.dataTurn.2 = .frame f) : f.isCredit = false := by
  have hp := s.dataPass_frame s.queues.ready.length
  have hc := s.dataPass_closeFrame s.queues.ready.length
  unfold dataTurn at h
  cases hd : s.dataPass s.queues.ready.length with
  | mk s' turn =>
    rw [hd] at h hp hc
    cases turn with
    | some turn =>
      simp only at h
      subst h
      exact hp f rfl
    | none =>
      simp only at h
      split_ifs at h
      exact s'.closeTurn_frame f (fun g hg => hclose g (hc ▸ hg)) h

/-- A control pass pops the control queue or sends a credit update. -/
theorem controlPass_core (order : List Nat) (s' : Shared) (f : Frame) (h : s.controlPass order = some (s', f)) :
    (s'.core = s.core ∧ f ∈ s.queues.control) ∨
      (∃ maximum, s.inbox.receiveWindow.update.2 = some maximum ∧ s'.core = s.grantConn.core ∧
        f = .maxData maximum) ∨
      ∃ id maximum, id ∈ order ∧ (s.inbox.recv id).recvTerminal = false ∧
        (s.inbox.recv id).recvDiscarded = false ∧ (s.inbox.recv id).receiveWindow.update.2 = some maximum ∧
        s'.core = (s.grantStream id).core ∧ f = .maxStreamData (.expect id) maximum := by
  unfold controlPass at h
  split at h
  · rename_i hc
    cases h
    exact .inl ⟨rfl, hc ▸ List.mem_cons_self⟩
  · split at h
    · rename_i w maximum hu
      cases h
      refine .inr (.inl ⟨maximum, by rw [hu], ?_, rfl⟩)
      simp only [grantConn, hu]
      rfl
    · obtain ⟨⟨s₁, f₁⟩, hf, he⟩ := Option.map_eq_some_iff.mp h
      obtain ⟨id, hid, hup⟩ := List.exists_of_findSome?_eq_some hf
      cases he
      unfold streamUpdate at hup
      simp only at hup
      split_ifs at hup with hm
      simp only [Bool.or_eq_true, not_or, Bool.not_eq_true] at hm
      split at hup
      · cases hup
      · rename_i w maximum hu
        cases hup
        refine .inr (.inr ⟨id, maximum, hid, hm.1, hm.2, by rw [hu], ?_, rfl⟩)
        simp only [grantStream, hu]
        rfl

/-- What a `next_frame` turn does to the rest of the connection: nothing, or one credit update. -/
theorem nextFrame_core (order : List Nat) :
    ((s.nextFrame order).1.core = s.core ∧
        ((∀ f ∈ s.queues.control, f.isCredit = false) →
          (∀ g, s.queues.closeFrame = some g → g.isCredit = false) →
          ∀ f, (s.nextFrame order).2 = .frame f → f.isCredit = false)) ∨
      (∃ maximum, s.inbox.receiveWindow.update.2 = some maximum ∧
        (s.nextFrame order).1.core = s.grantConn.core ∧ (s.nextFrame order).2 = .frame (.maxData maximum)) ∨
      ∃ id maximum, id ∈ order ∧ (s.inbox.recv id).recvTerminal = false ∧
        (s.inbox.recv id).recvDiscarded = false ∧ (s.inbox.recv id).receiveWindow.update.2 = some maximum ∧
        (s.nextFrame order).1.core = (s.grantStream id).core ∧
        (s.nextFrame order).2 = .frame (.maxStreamData (.expect id) maximum) := by
  have hdata := fun hclose f => s.dataTurn_frame f hclose
  unfold nextFrame
  split_ifs
  · exact .inl ⟨s.closeTurn_core, fun _ hclose f hf => s.closeTurn_frame f hclose hf⟩
  · cases hp : s.controlPass order with
    | none => exact .inl ⟨s.dataTurn_core, fun _ hclose f => hdata hclose f⟩
    | some r =>
      obtain ⟨s', f⟩ := r
      rcases s.controlPass_core order s' f hp with
        ⟨hc, hf⟩ | ⟨maximum, hu, hc, rfl⟩ | ⟨id, maximum, hid, ht, hd, hu, hc, rfl⟩
      · refine .inl ⟨hc, fun hcontrol _ g hg => ?_⟩
        cases hg
        exact hcontrol f hf
      · exact .inr (.inl ⟨maximum, hu, hc, rfl⟩)
      · exact .inr (.inr ⟨id, maximum, hid, ht, hd, hu, hc, rfl⟩)
  · exact .inl ⟨s.dataTurn_core, fun _ hclose f => hdata hclose f⟩

end Shared
end Muxtls
