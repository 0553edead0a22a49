import Muxtls.Pair.Deadlock
import Muxtls.Receiver.Budget
import Muxtls.Sender.Control

namespace Muxtls

/-- A task puts STOP_SENDING on its list for a stream that its peer has not ended. -/
theorem Ledger.stop_of_op {v v' : Ledger} {evs : List Event} {op : TaskOp} {more : List TaskOp} {id : Nat}
    (h : OpStep v op evs v' more) (hm : .stopSending id ∈ more) : v.terminal id = false := by
  cases h with
  | cleanRecv j hd =>
    split_ifs at hm with hc
    · obtain rfl : id = j := by simpa using hm
      simp only [Bool.and_eq_true, Bool.not_eq_true'] at hc
      exact hc.1
    · simp at hm
  | _ => simp at hm

/-- With room in the control queue of an open connection, `open_bi` can fail only for want of an id. -/
theorem Shared.openBi_room (s : Shared) (hc : s.closed = false) (hclosing : s.queues.closing = false)
    (hroom : s.queues.control.length < s.limits.maxControlFrames) :
    s.openBi.1.closed = false ∧ s.openBi.2 ≠ .error .connectionClosed := by
  have hopen : ¬ s.closed = true := by simp [hc]
  have hfree : ¬ (s.queues.closing || decide (s.queues.control.length ≥ s.limits.maxControlFrames)) = true := by
    simp [hclosing, hroom]
  unfold openBi
  rw [if_neg hopen, if_neg hfree]
  split_ifs
  · exact ⟨hc, by simp⟩
  · exact ⟨hc, by simp⟩

namespace Endpoint

variable {l : Limits} {isClient : Bool} {e e' : Endpoint} {log evs : List Event} {id : Nat}

/-- A control frame of the stream is in the queue, or its STOP_SENDING is about to be. -/
def owes (e : Endpoint) (id : Nat) : Bool :=
  e.shared.queues.control.any (Frame.concerns id) || (e.todo .cleanup).any (· == .stopSending id)

/-- `try_retire_stream` would give back the slot of a stream that has control frames left to send. -/
def hasty (e : Endpoint) : Act → Bool
  | .work task =>
    match e.todo task with
    | .retire id :: _ =>
      decide (id ∈ e.shared.streams) && (e.shared.life id).sendComplete && (e.shared.inbox.recv id).recvTerminal &&
        e.owes id
    | _ => false
  | _ => false

/-- The runs in which a slot is given back after the control frames of its stream were sent. -/
def patientMachine (l : Limits) (isClient : Bool) : Machine Endpoint Event :=
  .ofStep (connect l isClient = .ok ·) (Machine.guardStep (fun e a => !e.hasty a) step)

theorem owes_iff : e.owes id = true ↔
    (∃ f ∈ e.shared.queues.control, f.concerns id = true) ∨ .stopSending id ∈ e.todo .cleanup := by
  simp [owes]

/-- Whoever owes a control frame is a stream that was opened. -/
theorem opened_of_owes (h : (machine l isClient).Reach e log) (ho : e.owes id = true) : e.shared.ids.Opened id := by
  rcases owes_iff.mp ho with ⟨f, hf, hc⟩ | hm
  · have hcontrol := (Sender.reach_wf (reach_sender h)).control f hf
    cases f with
    | openStream streamId =>
      obtain rfl : streamId.intoInner = id := by simpa using hc
      exact hcontrol.2
    | resetStream streamId =>
      obtain rfl : streamId.intoInner = id := by simpa using hc
      exact hcontrol
    | stopSending streamId =>
      obtain rfl : streamId.intoInner = id := by simpa using hc
      exact hcontrol
    | _ => cases hc
  · exact (Ledger.reach_known (reach_ledger h)).stops .cleanup id hm

/-- A stream whose terminal frame was not emitted has its permit. -/
theorem permit_of_unmarked (h : (machine l isClient).Reach e log) (ho : e.shared.ids.Opened id)
    (hm : (e.shared.sender.direction id).marked = false) : (e.ledger.life id).openPermit = true := by
  refine ((reach_slots h).held id ho).resolve_right fun hended => ?_
  rw [marked_of_complete h hended.1] at hm
  cases hm

/-- A stream that its peer has not ended has its permit. -/
theorem permit_of_unended (h : (machine l isClient).Reach e log) (ho : e.shared.ids.Opened id)
    (ht : e.ledger.terminal id = false) : (e.ledger.life id).openPermit = true :=
  ((reach_slots h).held id ho).resolve_right fun hended => absurd (ht.symm.trans hended.2) (by simp)

/-- What a step can add to the control frames that a stream owes. -/
theorem owes_of_step (hr : (machine l isClient).Reach e log) (a : Act) (h : e.step a = some (e', evs))
    (ho : e'.owes id = true) : e.owes id = true ∨ ¬ e.shared.ids.Opened id ∨
      (e.shared.sender.direction id).marked = false ∧ e.shared.ids.Opened id ∨ e'.ledger.terminal id = false := by
  have hv := Sender.reach_wf (reach_sender hr)
  rcases owes_iff.mp ho with ⟨f, hf, hc⟩ | hm
  · have hold : f ∈ e.shared.queues.control → e.owes id = true := fun hf => owes_iff.mpr (.inl ⟨f, hf, hc⟩)
    rcases Sender.control_cases (reach_sendStep hr a h) with hsub | ⟨g, hg, hp⟩
    · exact .inl (hold (hsub.subset hf))
    · change f ∈ e'.shared.sender.queues.control at hf
      rw [hg] at hf
      rcases List.mem_append.mp hf with hf | hf
      · exact .inl (hold hf)
      · rw [List.mem_singleton.mp hf] at hc
        cases hp with
        | opens hid =>
          obtain rfl : _ = id := by simpa [VarInt.expect_intoInner _ hid] using hc
          exact .inr (.inl (Ids.not_opened_nextLocal hv.ids))
        | reset j code hid hm =>
          obtain rfl : j = id := by simpa [VarInt.expect_intoInner _ (hid.le hv.ids)] using hc
          exact .inr (.inr (.inl ⟨hm, hid⟩))
        | ping hnew => cases hc
        | stop j hid hev =>
          obtain rfl : j = id := by simpa [VarInt.expect_intoInner _ (hid.le hv.ids)] using hc
          obtain ⟨task, ops, -, ht⟩ := step_logs a h (.stopQueued j) (by simp [hev])
          have hmem : .stopSending j ∈ e.todo task := ht ▸ List.mem_cons_self
          obtain rfl : task = .cleanup := (Ledger.reach_known (reach_ledger hr)).todo task _ hmem
          exact .inl (owes_iff.mpr (.inr hmem))
  · have hm : .stopSending id ∈ e'.ledger.todo .cleanup := hm
    rcases works_of_step hr h with hrest | ⟨task, op, ops, v, v', more, -, ht, -, -, htodo, hop, he⟩
    · rcases hrest.todo .cleanup with hsame | ⟨hstarts, -⟩
      · rw [hsame] at hm
        exact .inl (owes_iff.mpr (.inr hm))
      · exact absurd hm (hstarts.stop id)
    · rw [he] at hm
      rcases Ledger.mem_of_setTodo (htodo ▸ ht) (Ledger.opFrame hop).todo hm with hm | hm
      · exact .inl (owes_iff.mpr (.inr (htodo ▸ hm)))
      · refine .inr (.inr (.inr ?_))
        rw [he]
        exact (congrFun (Ledger.opFrame hop).terminal id).trans (Ledger.stop_of_op hop hm)

/-- In such a run a stream that owes a control frame has its permit. -/
theorem reach_backed (h : (patientMachine l isClient).Reach e log) :
    ∀ id, e.owes id = true → (e.ledger.life id).openPermit = true := by
  refine h.invariant (fun e _ => ∀ id, e.owes id = true → (e.ledger.life id).openPermit = true) ?_ ?_
  · intro e he id ho
    exact absurd (opened_of_owes (.init he) ho) (by rw [(connect_ok he).2]; exact Ids.not_opened_start isClient id)
  · rintro e log evs e' hg ih ⟨a, ha⟩ id ho
    obtain ⟨hok, ha⟩ := Machine.guardStep_eq_some.mp ha
    have hr := hg.of_guard
    have hr' := hr.step ⟨a, ha⟩
    have hopened := opened_of_owes hr' ho
    rcases owes_of_step hr a ha ho with howes | hnew | ⟨hm, hid⟩ | hterm
    · -- the slot of a stream that owes a frame is not given back
      by_contra hp
      obtain ⟨task, ops, rfl, ht, hs, hc, hterm⟩ := released_by_retire hr ha (opened_of_owes hr howes) (ih id howes)
        (Bool.eq_false_of_not_eq_true hp)
      simp [hasty, ht, hs, hc, hterm, howes] at hok
    · exact permit_of_opened hr ha hnew hopened
    · by_contra hp
      obtain ⟨-, -, -, -, -, hc, -⟩ := released_by_retire hr ha hid (permit_of_unmarked hr hid hm)
        (Bool.eq_false_of_not_eq_true hp)
      rw [marked_of_complete hr hc] at hm
      cases hm
    · exact permit_of_unended hr' hopened hterm

/-- The control queue holds what its streams have permits for. -/
theorem reach_sparse (h : (patientMachine l isClient).Reach e log) :
    Sparse (fun id => (e.ledger.life id).openPermit) e.shared.queues.control := by
  have hr := h.of_guard
  have hs := Sender.reach_scarce (reach_sender hr)
  -- a class of frames of one stream, of which there is one at most
  have hone : ∀ (p : Frame → Bool) id, (∀ f, p f = true → f.concerns id = true) →
      e.shared.queues.control.countP p ≤ 1 →
      e.shared.queues.control.countP p ≤ (e.ledger.life id).openPermit.toNat := by
    intro p id hp hle
    cases hpermit : (e.ledger.life id).openPermit with
    | true => exact hle
    | false =>
      refine le_of_eq (List.countP_eq_zero.mpr fun f hf hpf => ?_)
      have howes := reach_backed h id (owes_iff.mpr (.inl ⟨f, hf, hp f hpf⟩))
      exact absurd (hpermit.symm.trans howes) (by simp)
  refine ⟨hs.settings, hs.pings, fun id => hone _ id ?_ ?_, fun id => hone _ id ?_ ?_, fun id => hone _ id ?_ ?_⟩
  · intro f hf
    simp [Frame.concerns, hf]
  · exact Sender.reach_opens_once (reach_sender hr) id
  · intro f hf
    simp [Frame.concerns, hf]
  · exact (SendDir.reach_inv (Sender.reach_direction (reach_sender hr) id)).resets_le.trans (Bool.toNat_le _)
  · intro f hf
    simp [Frame.concerns, hf]
  · have honce := (Ledger.reach_stops (reach_ledger hr)).once id
    have hle := Bool.toNat_le (e.ledger.discarded id)
    have hstops := hs.stops id
    change e.shared.queues.control.countP (Frame.isStop id) ≤ _ at hstops
    omega

/-- Three slots for each permit that is out, and two. -/
theorem sparse_length (h : (machine l isClient).Reach e log) {frames : List Frame}
    (hs : Sparse (fun id => (e.ledger.life id).openPermit) frames) (hc : ∀ f ∈ frames, f.Control l e.shared.ids) :
    frames.length + 3 * e.opening.toNat ≤ 3 * l.maxOpenStreams + 2 := by
  have hlen := hs.length_le hc
  have hsum : e.ledger.permits + e.opening.toNat +
      ∑ j ∈ Finset.range e.shared.ids.bound, (e.ledger.life j).openPermit.toNat = l.maxOpenStreams :=
    Ledger.reach_permits (reach_ledger h)
  omega

/-- A frame that keeps the queue sparse has room in it. -/
theorem room_of_sparse (h : (patientMachine l isClient).Reach e log) (f : Frame) (hf : f.Control l e.shared.ids)
    (hs : Sparse (fun id => (e.ledger.life id).openPermit) (e.shared.queues.control ++ [f])) :
    e.shared.queues.control.length < e.shared.limits.maxControlFrames := by
  have hr := h.of_guard
  have hlimits : e.shared.limits = l := Ledger.reach_limits (reach_ledger hr)
  have hvalid := (reach_valid hr).controls.1
  have hlen := sparse_length hr hs fun g hg => by
    rcases List.mem_append.mp hg with hg | hg
    · exact (Sender.reach_wf (reach_sender hr)).control g hg
    · rw [List.mem_singleton.mp hg]
      exact hf
  rw [hlimits]
  simp only [List.length_append, List.length_singleton] at hlen
  omega

theorem room_for_open (h : (patientMachine l isClient).Reach e log) (ho : e.opening = true) :
    e.shared.queues.control.length < e.shared.limits.maxControlFrames := by
  have hr := h.of_guard
  have hlimits : e.shared.limits = l := Ledger.reach_limits (reach_ledger hr)
  have hvalid := (reach_valid hr).controls.1
  have hlen := sparse_length hr (reach_sparse h) (Sender.reach_wf (reach_sender hr)).control
  rw [ho, Bool.toNat_true] at hlen
  rw [hlimits]
  change e.shared.queues.control.length + _ ≤ _ at hlen
  omega

theorem room_for_reset (h : (patientMachine l isClient).Reach e log) (ho : e.shared.ids.Opened id)
    (hm : (e.shared.sender.direction id).marked = false) :
    e.shared.queues.control.length < e.shared.limits.maxControlFrames := by
  have hr := h.of_guard
  have hid : (VarInt.expect id).intoInner = id :=
    VarInt.expect_intoInner _ (ho.le (Sender.reach_wf (reach_sender hr)).ids)
  refine room_of_sparse h (.resetStream (.expect id) ⟨.expect 0⟩) ?_
    ((reach_sparse h).push _ rfl (by simp) (fun _ => rfl) ?_
    (fun j hj => by cases hj))
  · change e.shared.ids.Opened (VarInt.expect id).intoInner
    rwa [hid]
  · intro j hj
    obtain rfl : id = j := by simpa [Frame.isReset, hid] using hj
    refine ⟨permit_of_unmarked hr ho hm, ?_⟩
    have hle : e.shared.queues.control.countP (Frame.isReset id) ≤ (e.shared.sender.direction id).resetQueued.toNat :=
      (SendDir.reach_inv (Sender.reach_direction (reach_sender hr) id)).resets_le
    rw [(Bool.or_eq_false_iff.mp hm).2] at hle
    exact Nat.le_zero.mp hle

theorem room_for_stop (h : (patientMachine l isClient).Reach e log) (hm : .stopSending id ∈ e.todo .cleanup) :
    e.shared.queues.control.length < e.shared.limits.maxControlFrames := by
  have hr := h.of_guard
  have howes : e.owes id = true := owes_iff.mpr (.inr hm)
  have ho := opened_of_owes hr howes
  have hid : (VarInt.expect id).intoInner = id :=
    VarInt.expect_intoInner _ (ho.le (Sender.reach_wf (reach_sender hr)).ids)
  refine room_of_sparse h (.stopSending (.expect id)) ?_ ((reach_sparse h).push _ rfl (by simp) (fun _ => rfl)
    (fun j hj => by cases hj) ?_)
  · change e.shared.ids.Opened (VarInt.expect id).intoInner
    rwa [hid]
  · intro j hj
    obtain rfl : id = j := by simpa [Frame.isStop, hid] using hj
    refine ⟨reach_backed h id howes, ?_⟩
    -- it is queued once, and that is still to come
    have honce := (Ledger.reach_stops (reach_ledger hr)).once id
    have hpos : 0 < (e.ledger.todo .cleanup).count (.stopSending id) := List.count_pos_iff.mpr hm
    have hle := Bool.toNat_le (e.ledger.discarded id)
    have hstops : e.shared.queues.control.countP (Frame.isStop id) ≤ log.count (.stopQueued id) :=
      (Sender.reach_scarce (reach_sender hr)).stops id
    omega

theorem room_for_ping (h : (patientMachine l isClient).Reach e log) (hn : .ping ∉ e.shared.queues.control) :
    e.shared.queues.control.length < e.shared.limits.maxControlFrames :=
  room_of_sparse h .ping trivial ((reach_sparse h).push _ rfl (fun _ => hn) (fun _ => rfl) (fun _ hj => by cases hj)
    fun _ hj => by cases hj)

/-- The validated control capacity suffices. In a run in which a slot is given back after the control frames of
its stream were sent, the control queue never holds more than `3 * max_open_streams + 2` frames, and while the
connection is open none of the calls that queue a control frame finds the queue full. -/
theorem control_capacity_suffices (l : Limits) (isClient : Bool) (e : Endpoint) (log : List Event)
    (h : (patientMachine l isClient).Reach e log) :
    e.shared.queues.control.length ≤ 3 * l.maxOpenStreams + 2 ∧
      (e.shared.closed = false →
        (e.opening = true → e.shared.openBi.1.closed = false ∧ e.shared.openBi.2 ≠ .error .connectionClosed) ∧
        (∀ id errorCode, e.shared.ids.Opened id →
          (e.shared.resetStream id errorCode).2 ≠ .error .connectionClosed) ∧
        (∀ id, .stopSending id ∈ e.todo .cleanup →
          (e.shared.enqueueControl (.stopSending (.expect id))).2 = true) ∧
        (e.shared.enqueueControl .ping).2 = true) := by
  have hr := h.of_guard
  refine ⟨?_, fun hc => ?_⟩
  · have hlen := sparse_length hr (reach_sparse h) (Sender.reach_wf (reach_sender hr)).control
    change e.shared.queues.control.length + _ ≤ _ at hlen
    omega
  have hclosing : e.shared.queues.closing = false := (Sender.reach_wf (reach_sender hr)).not_closing hc
  refine ⟨fun ho => ?_, fun id errorCode hid => ?_, fun id hm => ?_, ?_⟩
  · exact e.shared.openBi_room hc hclosing (room_for_open h ho)
  · unfold Shared.resetStream
    rw [hc, hclosing]
    simp only [Bool.false_eq_true, if_false, Bool.false_or, decide_eq_true_eq]
    split
    · simp
    · simp
    · split_ifs with hmark hfull
      · simp
      · have hm : (e.shared.sender.direction id).marked = false := Bool.eq_false_of_not_eq_true hmark
        exact absurd hfull (Nat.not_le.mpr (room_for_reset h hid hm))
      · simp
  · have hroom := Nat.not_le.mpr (room_for_stop h hm)
    simp [Shared.enqueueControl, hclosing, hroom]
  · by_cases hn : .ping ∈ e.shared.queues.control
    · simp [Shared.enqueueControl, hclosing, hn]
    · have hroom := Nat.not_le.mpr (room_for_ping h hn)
      simp [Shared.enqueueControl, hclosing, hn, hroom]

/-- Stream 0 is open, its receive handle is dropped and STOP_SENDING is about to be queued, and another
`open_bi` call has its permit. -/
theorem control_capacity_suffices_dropped :
    ∃ e log, (patientMachine smallLimits true).Reach e log ∧
      e.opening = true ∧ .stopSending 0 ∈ e.todo .cleanup ∧
      e.shared.queues.control.length ≤ 8 ∧ e.shared.openBi.2 ≠ .error .connectionClosed ∧
      (e.shared.resetStream 0 7).2 ≠ .error .connectionClosed ∧
      (e.shared.enqueueControl (.stopSending (.expect 0))).2 = true ∧ (e.shared.enqueueControl .ping).2 = true := by
  have hrun : (Machine.runList (Machine.guardStep (fun e a => !e.hasty a) step) { shared := .new smallLimits true }
      [.openStart, .openFinish, .dropRecv 0, .cleanup [0], .work .cleanup, .work .cleanup, .openStart]).map (fun r =>
        (r.1.opening, decide (.stopSending 0 ∈ r.1.todo .cleanup ∧ r.1.shared.ids.Opened 0), r.1.shared.closed)) =
      some (true, true, false) := by
    decide
  have h0 : connect smallLimits true = .ok { shared := .new smallLimits true } := rfl
  obtain ⟨e, log, hr, heq⟩ := Machine.runList_reach (connect smallLimits true = .ok ·) h0 _ _ hrun
  simp only [Prod.mk.injEq, decide_eq_true_eq] at heq
  obtain ⟨hopening, ⟨hstop, hid⟩, hclosed⟩ := heq
  obtain ⟨hlen, hcalls⟩ := control_capacity_suffices smallLimits true e log hr
  obtain ⟨hopen, hreset, hstops, hping⟩ := hcalls hclosed
  exact ⟨e, log, hr, hopening, hstop, hlen, (hopen hopening).2, hreset 0 7 hid, hstops 0 hstop, hping⟩

end Endpoint

namespace Pair

/-- The writer of a side takes a frame, after `turns` turns, and sends it. -/
def writes (side : Bool) (order : List Nat) (turns : Nat) : List Move :=
  List.replicate turns (.act side (.nextFrame order)) ++ [.act side .send]

def works (side : Bool) (task : Task) (steps : Nat) : List Move := List.replicate steps (.act side (.work task))

/-- The client opens streams 0 and 2 and resets them, and its peer accepts both and resets them as well. The
client drops the two receive handles before the frames of its peer arrive, so that both STOP_SENDING frames are
queued when the streams are retired. Its writer takes no frame any more. Two new streams are opened, reset
and dropped. -/
def crowdedRun : List Move :=
  [.act true .openStart, .act true .openFinish, .act true .openStart, .act true .openFinish, .act true (.reset 0 0),
    .act true (.reset 2 0)] ++ writes true [0, 2] 1 ++ writes true [0, 2] 1 ++ writes true [0, 2] 1 ++
  writes true [0, 2] 2 ++ works true .writer 2 ++ writes true [0, 2] 2 ++ works true .writer 2 ++
  [.deliver false, .deliver false, .deliver false, .deliver false, .act false (.work .reader), .deliver false,
    .act false (.work .reader), .act false .accept, .act false .accept, .act false (.reset 0 0),
    .act false (.reset 2 0)] ++ writes false [0, 2] 1 ++ writes false [0, 2] 2 ++ works false .writer 3 ++
  writes false [2] 2 ++ works false .writer 3 ++
  [.act true (.dropRecv 0), .act true (.dropRecv 2), .act true (.cleanup [0, 2])] ++ works true .cleanup 8 ++
  [.deliver true, .deliver true] ++ works true .reader 2 ++ [.deliver true] ++ works true .reader 2 ++
  [.act true .openStart, .act true .openFinish, .act true .openStart, .act true .openFinish, .act true (.reset 4 0),
    .act true (.reset 6 0), .act true (.dropRecv 4), .act true (.dropRecv 6), .act true (.cleanup [4, 6])] ++
  works true .cleanup 8

/-- Both connections are open and the control queue of the client is full: two STOP_SENDING frames of retired
streams, and three frames for each of the two new ones. A PING is refused, and closes the connection. -/
theorem control_capacity_exceeded :
    ∃ p log p' evs, (machine fun _ => Endpoint.smallLimits).Reach p log ∧ (∀ side, (p.ep side).Live) ∧
      (p.ep true).shared.queues.control.length = 3 * Endpoint.smallLimits.maxOpenStreams + 2 ∧
      .ping ∉ (p.ep true).shared.queues.control ∧ ((p.ep true).shared.enqueueControl .ping).2 = false ∧
      p.step (.act true .keepalive) = some (p', evs) ∧ (p'.ep true).shared.closed = true := by
  have hrun : ((connect fun _ => Endpoint.smallLimits).toOption.bind fun p₀ =>
      (Machine.runList step p₀ crowdedRun).bind fun r => (r.1.step (.act true .keepalive)).map fun r' =>
        (decide (∀ side, (r.1.ep side).shared.closed = false ∧ (r.1.ep side).readerDone = false ∧
            (r.1.ep side).writerDone = false),
          decide ((r.1.ep true).shared.queues.control.length = 8 ∧ .ping ∉ (r.1.ep true).shared.queues.control ∧
            ((r.1.ep true).shared.enqueueControl .ping).2 = false),
          (r'.1.ep true).shared.closed)) = some (true, true, true) := by
    decide +kernel
  obtain ⟨p₀, hconnect, hrun⟩ := Option.bind_eq_some_iff.mp hrun
  obtain ⟨⟨p, log⟩, hrun, hlast⟩ := Option.bind_eq_some_iff.mp hrun
  obtain ⟨⟨p', evs⟩, hstep, heq⟩ := Option.map_eq_some_iff.mp hlast
  simp only [Prod.mk.injEq, decide_eq_true_eq] at heq
  obtain ⟨hopen, ⟨hlen, hping, hrefused⟩, hclosed⟩ := heq
  exact ⟨p, log, p', evs, .of_run (connect _ = .ok ·) (ok_of_toOption hconnect) _ hrun,
    fun side => ⟨(hopen side).1, (hopen side).2.1, (hopen side).2.2⟩, hlen, hping, hrefused, hstep, hclosed⟩

end Pair
end Muxtls
