import Muxtls.Schedule.Flags
import Muxtls.Sender.OpenFirst

namespace Muxtls
namespace Shared

variable (s : Shared)

/-- The same state with the marks of `initiate_close` taken back. -/
def reopened : Shared :=
  { s with
    closed := false
    queues := { s.queues with closeFrame := none, gracefulClose := false, closing := false }
    openStreams := { s.openStreams with closed := false }
    budget :=
      { s.budget with
        connBytes := { s.budget.connBytes with closed := false }
        frames := { s.budget.frames with closed := false } } }

/-- `handle_incoming_frame` returns `Ok(true)`. -/
def accepts (f : Frame) : Bool :=
  match (s.handleFrame f).2 with
  | .ok (.more _) => true
  | _ => false

/-- OPEN_STREAM, and STOP_SENDING for a stream in the map. -/
def disturbs : Frame → Bool
  | .openStream _ => true
  | .stopSending streamId => decide (streamId.intoInner ∈ s.streams)
  | _ => false

/-- What a graceful close still has to send: the queued data and controls, and the close frame. -/
def backlog : AList (fun _ : Nat => List OutboundChunk) × List Nat × List Frame × Option Frame :=
  (s.queues.byStream, s.queues.ready, s.queues.control, s.queues.closeFrame)

@[simp] theorem reopened_streams : s.reopened.streams = s.streams := rfl

@[simp] theorem reopened_peerSettings : s.reopened.queues.peerSettings = s.queues.peerSettings := rfl

@[simp] theorem reopened_unopened (id : Nat) : s.reopened.unopened id = s.unopened id := rfl

@[simp] theorem reopened_ensurePeerSendOpen (id : Nat) (frame : String) :
    s.reopened.ensurePeerSendOpen id frame = s.ensurePeerSendOpen id frame := rfl

theorem onRemoteStreamFrame_reopened (id : Nat) (payload : Bytes) (fin : Bool) :
    (s.reopened.onRemoteStreamFrame id payload fin).2 = (s.onRemoteStreamFrame id payload fin).2 := by
  unfold onRemoteStreamFrame
  rw [reopened_ensurePeerSendOpen]
  by_cases hid : id ∈ s.streams
  · simp only [reopened_streams, hid, not_true_eq_false, if_false]
    cases s.ensurePeerSendOpen id "stream frame" <;> rfl
  · simp only [reopened_streams, hid, not_false_eq_true, if_true]

theorem onRemoteReset_reopened (id errorCode : Nat) :
    (s.reopened.onRemoteReset id errorCode).2 = (s.onRemoteReset id errorCode).2 := by
  unfold onRemoteReset
  rw [reopened_ensurePeerSendOpen]
  by_cases hid : id ∈ s.streams
  · simp only [reopened_streams, hid, not_true_eq_false, if_false]
    cases s.ensurePeerSendOpen id "reset" <;> rfl
  · simp only [reopened_streams, hid, not_false_eq_true, if_true]

/-- Frames that do not disturb a closing connection are answered as on an open one. -/
theorem handleFrame_reopened (f : Frame) (hf : s.disturbs f = false) :
    (s.reopened.handleFrame f).2 = (s.handleFrame f).2 := by
  unfold handleFrame
  rw [reopened_peerSettings]
  by_cases hset : (!f.isSettings && !s.queues.peerSettings) = true
  · rw [if_pos hset, if_pos hset]
  rw [if_neg hset, if_neg hset]
  cases f with
  | settings maxData maxStreamData maxFrameSize =>
    simp only
    split <;> rfl
  | maxData maximum => rfl
  | maxStreamData streamId maximum =>
    simp only [reopened_streams, reopened_unopened]
    by_cases hid : streamId.intoInner ∈ s.streams
    · simp only [hid, if_true]
    · by_cases hun : s.unopened streamId.intoInner = true <;> simp [hid, hun]
  | stream streamId fin payload =>
    have h := s.onRemoteStreamFrame_reopened streamId.intoInner payload fin
    simp only
    split <;> rename_i hr <;> split <;> rename_i hs <;> rw [hr, hs] at h <;> cases h <;> rfl
  | resetStream streamId errorCode =>
    have h := s.onRemoteReset_reopened streamId.intoInner errorCode.intoInner
    simp only
    split <;> rename_i hr <;> split <;> rename_i hs <;> rw [hr, hs] at h <;> cases h <;> rfl
  | openStream streamId => cases hf
  | stopSending streamId =>
    have hmem : streamId.intoInner ∉ s.streams := of_decide_eq_false hf
    by_cases hun : s.unopened streamId.intoInner = true <;> simp [hmem, hun]
  | ping => rfl
  | connectionClose errorCode reason => rfl

/-- The two frames `disturbs` names are refused once the connection and its admission are closed. -/
theorem accepts_of_disturbs (hclosed : s.closed = true) (hsealed : s.openStreams.closed = true) (f : Frame)
    (hf : s.disturbs f = true) : s.accepts f = false := by
  unfold accepts handleFrame
  split_ifs
  · rfl
  cases f with
  | openStream streamId =>
    have hnone : s.openStreams.tryAcquire 1 = none := by simp [Semaphore.tryAcquire, hsealed]
    simp only
    unfold onRemoteOpen
    rw [hnone]
    split_ifs <;> rfl
  | stopSending streamId =>
    have hmem : streamId.intoInner ∈ s.streams := of_decide_eq_true hf
    unfold resetStream
    simp only [hmem, hclosed, if_true]
  | _ => cases hf

/-- An accepted frame other than CONNECTION_CLOSE that disturbs nothing leaves the backlog alone. -/
theorem handleFrame_backlog (f : Frame) (hf : s.disturbs f = false) (hacc : s.accepts f = true) :
    (s.handleFrame f).1.backlog = s.backlog := by
  revert hacc
  unfold accepts handleFrame
  split_ifs
  · intro hacc
    cases hacc
  intro hacc
  cases f with
  | settings maxData maxStreamData maxFrameSize =>
    simp only at hacc ⊢
    split_ifs <;> rfl
  | maxData maximum => rfl
  | maxStreamData streamId maximum =>
    simp only at hacc ⊢
    split_ifs <;> rfl
  | stream streamId fin payload =>
    obtain ⟨inbox, hs⟩ := s.onRemoteStreamFrame_inbox streamId.intoInner payload fin
    simp only
    split <;> rename_i hr <;> rw [hr] at hs <;> cases hs <;> rfl
  | resetStream streamId errorCode =>
    obtain ⟨inbox, hs⟩ := s.onRemoteReset_inbox streamId.intoInner errorCode.intoInner
    simp only
    split <;> rename_i hr <;> rw [hr] at hs <;> cases hs <;> rfl
  | openStream streamId => cases hf
  | stopSending streamId =>
    have hmem : streamId.intoInner ∉ s.streams := of_decide_eq_false hf
    simp only
    rw [if_neg hmem]
    split_ifs <;> rfl
  | ping => rfl
  | connectionClose errorCode reason => cases hacc

end Shared

namespace Endpoint

/-- A graceful close that is under way answers every frame other than CONNECTION_CLOSE that an open
connection would accept, and keeps what it has to send, exactly when the frame is neither OPEN_STREAM
nor STOP_SENDING for a stream in the map. -/
theorem drain_survives_traffic (l : Limits) (isClient : Bool) (e : Endpoint) (log : List Event)
    (h : (machine l isClient).Reach e log) (reason fitted : String) (hpub : .closing 0 reason fitted ∈ log)
    (f : Frame) (hopen : e.shared.reopened.accepts f = true) :
    (e.shared.accepts f = true ∧ (e.shared.handleFrame f).1.backlog = e.shared.backlog) ↔
      e.shared.disturbs f = false := by
  obtain ⟨hclosed, hsealed⟩ := reach_published h hpub
  constructor
  · rintro ⟨hacc, -⟩
    by_contra hd
    rw [e.shared.accepts_of_disturbs hclosed hsealed f (eq_true_of_ne_false hd)] at hacc
    cases hacc
  · intro hd
    have hacc : e.shared.accepts f = true := by
      unfold Shared.accepts at hopen ⊢
      rwa [e.shared.handleFrame_reopened f hd] at hopen
    exact ⟨hacc, e.shared.handleFrame_backlog f hd hacc⟩

/-- A client has written to stream 0 and closes: MAX_DATA arrives while its data, its controls and the close are
queued. -/
theorem drain_survives_credit :
    ∃ e log, (machine smallLimits true).Reach e log ∧ .closing 0 "done" "done" ∈ log ∧
      e.shared.queues.closeFrame.isSome = true ∧ (e.shared.queues.chunksOf 0).map (·.payload) = [[1, 2, 3]] ∧
      e.shared.queues.control.length = 2 ∧ e.shared.accepts (.maxData (.expect 9)) = true ∧
      (e.shared.handleFrame (.maxData (.expect 9))).1.backlog = e.shared.backlog := by
  have hrun : (Machine.runList step { shared := .new smallLimits true }
      [.receive (settingsFrame smallLimits).wire, .openStart, .openFinish, .write 1 0 [1, 2, 3] false, .acquire 0,
        .acquire 0, .acquire 0, .acquire 0, .enqueue 0, .close "done"]).map
        (fun r => (decide (.closing 0 "done" "done" ∈ r.2), r.1.shared.queues.closeFrame.isSome,
          (r.1.shared.queues.chunksOf 0).map (·.payload), r.1.shared.queues.control.length,
          r.1.shared.reopened.accepts (.maxData (.expect 9)))) = some (true, true, [[1, 2, 3]], 2, true) := by
    decide
  have h0 : connect smallLimits true = .ok { shared := .new smallLimits true } := rfl
  obtain ⟨e, log, hr, heq⟩ := Machine.runList_reach (connect smallLimits true = .ok ·) h0 _ _ hrun
  simp only [Prod.mk.injEq, decide_eq_true_eq] at heq
  obtain ⟨hpub, hframe, hdata, hcontrol, hopen⟩ := heq
  exact ⟨e, log, hr, hpub, hframe, hdata, hcontrol,
    (drain_survives_traffic smallLimits true e log hr "done" "done" hpub (.maxData (.expect 9)) hopen).mpr rfl⟩

/-- The peer opens its stream 1, and stops stream 0, after the close was queued and before its frame was
taken: an open connection accepts both frames, and the closing one refuses them. -/
theorem drain_cut_by_traffic :
    ∃ e log, (machine smallLimits true).Reach e log ∧ .closing 0 "done" "done" ∈ log ∧
      e.shared.queues.closeFrame.isSome = true ∧
      ∀ f ∈ [Frame.openStream (.expect 1), .stopSending (.expect 0)],
        e.shared.reopened.accepts f = true ∧ e.shared.accepts f = false := by
  have hrun : (Machine.runList step { shared := .new smallLimits true }
      [.receive (settingsFrame smallLimits).wire, .openStart, .openFinish, .close "done"]).map
        (fun r => (decide (.closing 0 "done" "done" ∈ r.2), r.1.shared.queues.closeFrame.isSome,
          [Frame.openStream (.expect 1), .stopSending (.expect 0)].all fun f =>
            r.1.shared.reopened.accepts f && !r.1.shared.accepts f)) = some (true, true, true) := by
    decide
  have h0 : connect smallLimits true = .ok { shared := .new smallLimits true } := rfl
  obtain ⟨e, log, hr, heq⟩ := Machine.runList_reach (connect smallLimits true = .ok ·) h0 _ _ hrun
  simp only [Prod.mk.injEq, decide_eq_true_eq, List.all_eq_true, Bool.and_eq_true, Bool.not_eq_true'] at heq
  obtain ⟨hpub, hframe, hall⟩ := heq
  exact ⟨e, log, hr, hpub, hframe, hall⟩

end Endpoint
end Muxtls
