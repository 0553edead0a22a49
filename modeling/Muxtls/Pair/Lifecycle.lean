import Muxtls.Ledger.Streams
import Muxtls.Pair.Open
import Muxtls.Receiver.Delivery
import Muxtls.Schedule.Flags
import Muxtls.Sender.Lifecycle

namespace Muxtls

namespace Shared

variable (s : Shared)

theorem resetStream_remote (id errorCode : Nat) :
    (s.resetStream id errorCode).1.nextRemoteStreamId = s.nextRemoteStreamId := by
  unfold resetStream
  split_ifs
  · rfl
  · split <;> rfl
  · split <;> rfl
  · split <;> rfl

theorem onRemoteOpen_remote (id : Nat) :
    (s.onRemoteOpen id).1.nextRemoteStreamId = s.nextRemoteStreamId ∨
      id = s.nextRemoteStreamId ∧ (s.onRemoteOpen id).1.nextRemoteStreamId = s.nextRemoteStreamId + 2 := by
  unfold onRemoteOpen
  by_cases hpar : id % 2 = s.localParity
  · exact .inl (by rw [if_pos hpar])
  rw [if_neg hpar]
  by_cases hid : id ≠ s.nextRemoteStreamId
  · exact .inl (by rw [if_pos hid])
  rw [if_neg hid]
  rw [not_not] at hid
  split
  · exact .inl rfl
  · by_cases hs : id ∈ s.streams
    · exact .inl (by rw [if_pos hs])
    rw [if_neg hs]
    refine .inr ⟨hid, ?_⟩
    rw [hid]
    simp only
    split_ifs <;> rfl

theorem markClosed_remote : s.markClosed.nextRemoteStreamId = s.nextRemoteStreamId := by
  unfold markClosed
  simp only
  split_ifs <;> rfl

/-- Only an OPEN_STREAM with the expected id moves the counter of peer streams. -/
theorem handleFrame_remote (f : Frame) :
    (s.handleFrame f).1.nextRemoteStreamId = s.nextRemoteStreamId ∨
      ∃ streamId : VarInt, f = .openStream streamId ∧ streamId.intoInner = s.nextRemoteStreamId ∧
        (s.handleFrame f).1.nextRemoteStreamId = s.nextRemoteStreamId + 2 := by
  unfold handleFrame
  split_ifs
  · exact .inl rfl
  cases f with
  | openStream streamId =>
    have h := s.onRemoteOpen_remote streamId.intoInner
    simp only
    split <;> rename_i he <;> rw [he] at h <;> rcases h with h | h <;>
      first | exact .inl h | exact .inr ⟨streamId, rfl, h⟩
  | stream streamId fin payload =>
    obtain ⟨inbox, h⟩ := s.onRemoteStreamFrame_inbox streamId.intoInner payload fin
    simp only
    split <;> rename_i he <;> rw [he] at h <;> exact .inl (congrArg nextRemoteStreamId h :)
  | resetStream streamId errorCode =>
    obtain ⟨inbox, h⟩ := s.onRemoteReset_inbox streamId.intoInner errorCode.intoInner
    simp only
    split <;> rename_i he <;> rw [he] at h <;> exact .inl (congrArg nextRemoteStreamId h :)
  | stopSending streamId =>
    have h := s.resetStream_remote streamId.intoInner 0
    simp only
    split_ifs
    · split <;> rename_i he <;> rw [he] at h <;> exact .inl h
    · exact .inl rfl
    · exact .inl rfl
  | connectionClose => exact .inl s.markClosed_remote
  | settings => simp only; split_ifs <;> exact .inl rfl
  | maxData => exact .inl rfl
  | maxStreamData => simp only; split_ifs <;> exact .inl rfl
  | ping => exact .inl rfl

end Shared

namespace Endpoint

variable {l : Limits} {isClient : Bool} {e e' : Endpoint} {log evs : List Event}

theorem remote_of_step (hr : (machine l isClient).Reach e log) (a : Act) (h : e.step a = some (e', evs)) :
    e'.shared.nextRemoteStreamId = e.shared.nextRemoteStreamId ∨
      ∃ bytes rest streamId, a = .receive bytes ∧ Frame.decode bytes = .ok (.openStream streamId, rest) ∧
        streamId.intoInner = e.shared.nextRemoteStreamId ∧
        e'.shared.nextRemoteStreamId = e.shared.nextRemoteStreamId + 2 := by
  by_cases ha : ∃ bytes, a = .receive bytes
  · obtain ⟨bytes, rfl⟩ := ha
    simp only [step] at h
    split_ifs at h
    have hcases := e.receive_cases bytes
    rw [Option.some.inj h] at hcases
    have hframe : ∀ f rest s r, Frame.decode bytes = .ok (f, rest) → e.shared.handleFrame f = (s, r) →
        s.nextRemoteStreamId = e.shared.nextRemoteStreamId ∨
          ∃ bytes' rest streamId, Act.receive bytes = .receive bytes' ∧
            Frame.decode bytes' = .ok (.openStream streamId, rest) ∧
            streamId.intoInner = e.shared.nextRemoteStreamId ∧
            s.nextRemoteStreamId = e.shared.nextRemoteStreamId + 2 := by
      intro f rest s r hdec hh
      have hremote := e.shared.handleFrame_remote f
      rw [hh] at hremote
      rcases hremote with hsame | ⟨streamId, rfl, hid, hnext⟩
      · exact .inl hsame
      · exact .inr ⟨bytes, rest, streamId, rfl, hdec, hid, hnext⟩
    generalize hpair : (e', evs) = r at hcases
    cases hcases with
    | dropped =>
      cases hpair
      exact .inl rfl
    | refused f rest s error reason hdec hh =>
      cases hpair
      exact hframe f rest s _ hdec hh
    | more f rest s todo hdec hh =>
      cases hpair
      exact hframe f rest s _ hdec hh
    | stop f rest s hdec hh =>
      cases hpair
      exact hframe f rest s _ hdec hh
  · left
    have hs := reach_sendStep hr a h
    have hlog := step_logs a h
    change e'.shared.sender.ids.nextRemote = e.shared.sender.ids.nextRemote
    generalize e'.shared.sender = v' at hs ⊢
    cases hs with
    | openRemote _ hid hev =>
      refine absurd ?_ ha
      rcases hev with rfl | ⟨error, rfl⟩
      · obtain ⟨bytes, rest, hbytes, -⟩ := hlog _ List.mem_cons_self
        exact ⟨bytes, hbytes⟩
      · exact hlog _ List.mem_cons_self
    | _ => rfl

end Endpoint

namespace Pair

variable {limits : Bool → Limits} {p : Pair} {log : List (Bool × Event)} {side : Bool}

/-- A side has opened every stream that its peer has accepted from it. -/
theorem remote_le_local (h : (machine limits).Reach p log) (side : Bool) :
    (p.ep side).shared.nextRemoteStreamId ≤ (p.ep (!side)).shared.nextLocalStreamId := by
  refine h.invariant
    (fun p _ => (p.ep side).shared.nextRemoteStreamId ≤ (p.ep (!side)).shared.nextLocalStreamId) ?_ ?_
  · intro p hp
    have hself := (Endpoint.connect_ok (connect_ok hp side).1).2
    have hother := (Endpoint.connect_ok (connect_ok hp (!side)).1).2
    rw [hself, hother]
    cases side <;> exact le_refl _
  · rintro p log evs p' hr ih ⟨m, hm⟩
    have hep := reach_endpoint hr
    have hgrow : ∀ a e evs, (p.ep (!side)).step a = some (e, evs) →
        (p.ep (!side)).shared.nextLocalStreamId ≤ e.shared.nextLocalStreamId := by
      intro a e evs he
      have hs := Sender.pushed_step (Endpoint.reach_sendStep (hep (!side)) a he)
      change (p.ep (!side)).shared.sender.ids.nextLocal ≤ e.shared.sender.ids.nextLocal
      omega
    obtain ⟨s, a, e, evs', -, he, hupd, hchan⟩ := (step_moves hm).ep
    rw [hupd]
    by_cases hs : s = side
    · subst hs
      rw [Function.update_self, Function.update_of_ne (by simp)]
      rcases Endpoint.remote_of_step (hep s) a he with hsame | ⟨bytes, left, streamId, rfl, hdec, hid, hnext⟩
      · rwa [hsame]
      · -- the peer has emitted the OPEN_STREAM, so its own counter is past the id
        obtain ⟨rest, hc⟩ := hchan bytes rfl
        have hle := next_decoded hr (Endpoint.receive_enabled he).1 hc hdec
        have hother := Endpoint.reach_sender (hep (!s))
        obtain ⟨hpar, hop⟩ := (Sender.reach_named hother).opens streamId (hle.subset (by simp))
        have hwf := (Sender.reach_wf hother).ids.local_parity
        have hlt : streamId.intoInner < if streamId.intoInner % 2 = _ then _ else _ := hop
        rw [if_pos hpar] at hlt
        change _ ≤ (p.ep (!s)).shared.sender.ids.nextLocal
        omega
    · obtain rfl : s = !side := by cases s <;> cases side <;> simp_all
      rw [Function.update_self, Function.update_of_ne (by simp)]
      exact ih.trans (hgrow a e evs' he)

/-- The two sides agree about the streams that were opened by the other one. -/
theorem opened_of_remote (h : (machine limits).Reach p log) {id : Nat}
    (hid : (p.ep side).shared.ids.Opened id) (hpar : id % 2 ≠ (p.ep side).shared.localParity) :
    (p.ep (!side)).shared.ids.Opened id := by
  have hle := remote_le_local h side
  have hp := Endpoint.reach_parity (reach_endpoint h side)
  have hp' := Endpoint.reach_parity (reach_endpoint h (!side))
  have hlt : id < (p.ep side).shared.nextRemoteStreamId := by
    have hid : id < if id % 2 = (p.ep side).shared.localParity then _ else _ := hid
    rwa [if_neg hpar] at hid
  have hpar' : id % 2 = (p.ep (!side)).shared.localParity := by
    rw [hp] at hpar
    rw [hp']
    cases side <;> simp at hpar ⊢ <;> omega
  change id < if id % 2 = (p.ep (!side)).shared.localParity then (p.ep (!side)).shared.nextLocalStreamId else _
  rw [if_pos hpar']
  omega

/-- The next frame in flight names a stream that its reader knows, unless it carries data. -/
theorem next_opened (h : (machine limits).Reach p log) (hd : (p.ep side).readerDone = false) {bytes : Bytes}
    {rest : List Bytes} (hc : p.chan side = bytes :: rest) {f : Frame} {left : Bytes}
    (hdec : Frame.decode bytes = .ok (f, left)) (hf : f.isData = false) (id : VarInt) (hn : f.names id = true) :
    (p.ep side).shared.ids.Opened id.intoInner := by
  have hle := next_decoded h hd hc hdec
  have hnamed := Sender.reach_named (Endpoint.reach_sender (reach_endpoint h (!side)))
  by_cases hpar : id.intoInner % 2 = (p.ep (!side)).shared.localParity
  · -- the peer has opened it, and its OPEN_STREAM came first
    obtain ⟨after, hsplit⟩ := hle.filter fun f => !f.isData
    rw [List.filter_append, List.filter_singleton, hf, List.append_assoc] at hsplit
    have hm := hnamed.first _ f after hsplit.symm id hpar hn
    exact Sender.reach_accepted_open (Endpoint.reach_sender (reach_endpoint h side)) (List.mem_filter.mp hm).1
  · have hop : (p.ep (!side)).shared.ids.Opened id.intoInner :=
      hnamed.opened f (hle.subset (by simp)) id hn
    have hself := opened_of_remote h hop hpar
    rwa [Bool.not_not] at hself

/-- The next frame of a direction in flight finds its stream in the map and the direction open. -/
theorem next_direction (h : (machine limits).Reach p log) (hd : (p.ep side).readerDone = false)
    (ht : (p.ep side).shared.terminated = false) {bytes : Bytes} {rest : List Bytes}
    (hc : p.chan side = bytes :: rest) {f : Frame} {left : Bytes} (hdec : Frame.decode bytes = .ok (f, left)) (id : Nat)
    (hf : f.sendsOn id = true) (hid : (p.ep side).shared.ids.Opened id) :
    id ∈ (p.ep side).shared.streams ∧ ((p.ep side).shared.inbox.recv id).recvTerminal = false := by
  have hr := reach_endpoint h side
  have hin := RecvSide.reach_inv (Receiver.reach_side (Endpoint.reach_receiver hr) id)
  have hout := SendDir.reach_inv (Sender.reach_direction (Endpoint.reach_sender (reach_endpoint h (!side))) id)
  have hle := (next_decoded h hd hc hdec).filter (Frame.sendsOn id)
  rw [List.filter_append, List.filter_singleton, hf] at hle
  have hopen : ((p.ep side).shared.inbox.recv id).recvTerminal = false := by
    by_contra hterm
    -- a frame that ended the direction was taken before, so nothing can follow
    obtain ⟨g, hg, hend⟩ := hin.terminal.mp (Bool.eq_true_of_not_eq_false hterm)
    rw [Receiver.tooks_inEvents] at hg
    have hword := hout.word
    rw [Sender.outs_dirEvents] at hword
    have heq := hword.eq_of_ends ((List.prefix_append _ _).trans hle) hg hend
    have hlen := hle.length_le
    rw [← heq] at hlen
    simp at hlen
  refine ⟨?_, hopen⟩
  by_contra hs
  rcases Ledger.reach_retired (Endpoint.reach_ledger hr) id hid hs with hshut | hterm
  · have hterm := (Endpoint.reach_ended hr).2 hshut
    rw [ht] at hterm
    cases hterm
  · have hterm : ((p.ep side).shared.inbox.recv id).recvTerminal = true := hterm
    rw [hopen] at hterm
    cases hterm

/-- The STREAM and RESET_STREAM frames of a stream are a word with at most one terminal frame, at its end;
after a successful `reset_stream` on an open connection the terminal frame was emitted or is a queued
RESET_STREAM, and there is one only. Between two such endpoints a STREAM or RESET_STREAM that is delivered
for an opened stream finds it in the map with its direction open, and MAX_STREAM_DATA and STOP_SENDING find
it opened. -/
theorem lifecycle_agreement (l : Limits) (isClient : Bool) (e : Endpoint) (elog : List Event)
    (he : (Endpoint.machine l isClient).Reach e elog) (limits : Bool → Limits) (p : Pair) (log : List (Bool × Event))
    (h : (machine limits).Reach p log) :
    (∀ id, Word ((emitted elog).filter (Frame.sendsOn id))) ∧
      (∀ id, .resetOk id ∈ elog → e.shared.closed = false →
        ((emitted elog).filter (Frame.sendsOn id)).countP Frame.ends +
          e.shared.queues.control.countP (Frame.isReset id) = 1) ∧
      ∀ side p' evs bytes rest f left, p.step (.deliver side) = some (p', evs) → p.chan side = bytes :: rest →
        Frame.decode bytes = .ok (f, left) →
        (∀ id, f.sendsOn id = true → (p.ep side).shared.ids.Opened id →
          id ∈ (p.ep side).shared.streams ∧ ∀ frame, (p.ep side).shared.ensurePeerSendOpen id frame = .ok ()) ∧
        ∀ streamId : VarInt, (f = .stopSending streamId ∨ ∃ maximum, f = .maxStreamData streamId maximum) →
          (p.ep side).shared.unopened streamId.intoInner = false := by
  have hr := Endpoint.reach_sender he
  refine ⟨?_, ?_, ?_⟩
  · intro id
    have hword := (SendDir.reach_inv (Sender.reach_direction hr id)).word
    rwa [Sender.outs_dirEvents] at hword
  · intro id hm ho
    exact Sender.reach_terminal_once hr hm ho
  · intro side p' evs bytes rest f left hstep hc hdec
    simp only [step, hc] at hstep
    obtain ⟨⟨e', evs'⟩, hrecv, -⟩ := Option.map_eq_some_iff.mp hstep
    obtain ⟨hd, ht⟩ := Endpoint.receive_enabled hrecv
    constructor
    · intro id hf hid
      obtain ⟨hs, hopen⟩ := next_direction h hd ht hc hdec id hf hid
      refine ⟨hs, fun frame => ?_⟩
      unfold Shared.ensurePeerSendOpen
      rw [hopen]
      rfl
    · intro streamId hf
      rw [Shared.unopened_eq_false]
      rcases hf with rfl | ⟨maximum, rfl⟩
      · exact next_opened h hd hc hdec rfl streamId (beq_self_eq_true streamId)
      · exact next_opened h hd hc hdec rfl streamId (beq_self_eq_true streamId)

/-- A stream is opened and reset at the client, and its RESET_STREAM reaches the server. -/
theorem lifecycle_agreement_reset :
    ∃ p log, (machine fun _ => Endpoint.smallLimits).Reach p log ∧ .resetOk 0 ∈ sideLog true log ∧
      ((emitted (sideLog true log)).filter (Frame.sendsOn 0)).countP Frame.ends +
        (p.ep true).shared.queues.control.countP (Frame.isReset 0) = 1 ∧
      (p.chan false).map (fun b => (Frame.decode b).toOption) =
      [some (.resetStream (.expect 0) ⟨.expect 7⟩, [])] ∧
      0 ∈ (p.ep false).shared.streams := by
  have hrun : ((connect fun _ => Endpoint.smallLimits).toOption.bind fun p₀ =>
      (Machine.runList step p₀
        [.act false (.nextFrame []), .act false .send, .deliver true, .act true .openStart, .act true .openFinish,
          .act true (.nextFrame [0]), .act true .send, .act true (.nextFrame [0]), .act true .send,
          .deliver false, .deliver false, .act true (.reset 0 7), .act true (.nextFrame [0]),
          .act true (.nextFrame [0]), .act true .send]).map fun r =>
        (decide (.resetOk 0 ∈ sideLog true r.2 ∧ (r.1.ep true).shared.closed = false ∧
            (r.1.ep false).shared.ids.Opened 0 ∧ (r.1.step (.deliver false)).isSome = true),
          (r.1.chan false).map (fun b => (Frame.decode b).toOption))) =
      some (true, [some (.resetStream (.expect 0) ⟨.expect 7⟩, [])]) := by
    decide
  obtain ⟨p₀, hconnect, hrun⟩ := Option.bind_eq_some_iff.mp hrun
  obtain ⟨⟨p, log⟩, hrun, heq⟩ := Option.map_eq_some_iff.mp hrun
  simp only [Prod.mk.injEq, decide_eq_true_eq] at heq
  obtain ⟨⟨hok, hclosed, hopen, hstep⟩, hchan⟩ := heq
  have h0 := ok_of_toOption hconnect
  have hr := Machine.Reach.of_run (connect (fun _ => Endpoint.smallLimits) = .ok ·) h0 _ hrun
  obtain ⟨bytes, hc, hdec⟩ := List.map_eq_singleton_iff.mp hchan
  obtain ⟨⟨p', evs⟩, hstep⟩ := Option.isSome_iff_exists.mp hstep
  obtain ⟨-, honce, hnext⟩ := lifecycle_agreement _ _ _ _ (reach_endpoint hr true) _ p log hr
  have hin := (hnext false p' evs bytes [] _ _ hstep hc (ok_of_toOption hdec)).1 0 rfl hopen
  exact ⟨p, log, hr, hok, honce 0 hok hclosed, hchan, hin.1⟩

end Pair
end Muxtls
