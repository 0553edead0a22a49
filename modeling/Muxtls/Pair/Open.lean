import Muxtls.Pair.Frames
import Muxtls.Receiver.Windows
import Muxtls.Sender.Issue

namespace Muxtls
namespace Endpoint

variable {l : Limits} {isClient : Bool} {e e' : Endpoint} {log evs : List Event} {ids : List Nat}

/-- A step with the ids of the OPEN_STREAM frames it pushes onto the control queue. -/
def openStep (e : Endpoint) (a : Act) : Option (Endpoint × List Nat) :=
  (e.step a).map fun r => (r.1, pushedIds e.shared.queues.control r.1.shared.queues.control)

/-- The runs of one endpoint, logging the ids it opens streams with. -/
def openMachine (limits : Limits) (isClient : Bool) : Machine Endpoint Nat :=
  .ofStep (fun e => connect limits isClient = .ok e) openStep

/-- Even ids are the client's. -/
def parityOf (isClient : Bool) : Nat := if isClient then 0 else 1

/-- What an `open_bi` call may change. The permit of a call in progress counts as available. -/
def openView (e : Endpoint) : Nat × List Nat × List Nat × List Frame × Nat :=
  (e.shared.nextLocalStreamId, e.shared.streams, e.shared.queues.receiveWindows, e.shared.queues.control,
    e.shared.openStreams.permits + e.opening.toNat)

/-- A step of an `open_bi` call that ends without a stream: its start, its cancellation or its failure. -/
def Abandons (e : Endpoint) : Act → Prop
  | .openStart => True
  | .openCancel => True
  | .openFinish => ∃ error, e.shared.openBi.2 = .error error
  | _ => False

/-- On an open connection with room in the control queue `open_bi` fails for want of an id. -/
theorem openBi_exhausted (s : Shared) (h : varIntMax < s.nextLocalStreamId) (hopen : s.closed = false)
    (hclosing : s.queues.closing = false) (hroom : s.queues.control.length < s.limits.maxControlFrames) :
    s.openBi.2 = .error .streamIdExhausted := by
  have hid : ¬ s.nextLocalStreamId ≤ varIntMax := by omega
  have hfull : ¬ s.limits.maxControlFrames ≤ s.queues.control.length := by omega
  simp [Shared.openBi, hopen, hclosing, hfull, hid]

theorem markClosed_closed (s : Shared) : s.markClosed.closed = true := by
  unfold Shared.markClosed
  simp only
  split_ifs <;> rfl

/-- With a full control queue `open_bi` closes the connection, whether or not an id is left. -/
theorem openBi_full (s : Shared) (hopen : s.closed = false)
    (hfull : s.limits.maxControlFrames ≤ s.queues.control.length) :
    s.openBi.2 = .error .connectionClosed ∧ s.openBi.1.closed = true := by
  simp [Shared.openBi, hopen, hfull, markClosed_closed]

/-- `open_bi` without a stream gives its permit back and changes nothing else, or it closes the connection. -/
theorem openBi_failed (s : Shared) (error : Error) (h : s.openBi.2 = .error error) :
    s.openBi.1 = { s with openStreams := s.openStreams.release 1 } ∨
      s.closed = false ∧ s.openBi.1.closed = true := by
  unfold Shared.openBi at h ⊢
  split_ifs at h ⊢ with hc hf hid
  · exact .inl rfl
  · exact .inr ⟨Bool.eq_false_of_not_eq_true hc, markClosed_closed s⟩
  · exact .inl rfl

theorem openView_of_step (a : Act) (ha : e.Abandons a) (h : e.step a = some (e', evs)) :
    e'.openView = e.openView ∨ e.shared.closed = false ∧ e'.shared.closed = true := by
  cases step_cases h with
  | openStart sem ho hc hs =>
    have hp := (e.shared.openStreams.tryAcquire_eq_some sem 1 hs).2.2
    left
    simp [openView, hp, ho]
  | openCancel ho =>
    left
    simp [openView, ho]
  | openFinish ho =>
    obtain ⟨error, he⟩ := ha
    rcases openBi_failed e.shared error he with hs | hs
    · left
      simp [openView, hs, ho]
    · exact .inr hs
  | _ => exact ha.elim

/-- The ids an endpoint has opened streams with are the first ones of its parity. -/
theorem reach_pushed (h : (openMachine l isClient).Reach e ids) :
    (∃ log, (machine l isClient).Reach e log) ∧
      ∃ n, ids = issued (parityOf isClient) n ∧ e.shared.nextLocalStreamId = parityOf isClient + 2 * n ∧
        ∀ id ∈ ids, id ≤ varIntMax := by
  refine h.invariant (fun e ids => (∃ log, (machine l isClient).Reach e log) ∧
    ∃ n, ids = issued (parityOf isClient) n ∧ e.shared.nextLocalStreamId = parityOf isClient + 2 * n ∧
      ∀ id ∈ ids, id ≤ varIntMax) ?_ ?_
  · intro e he
    refine ⟨⟨[], .init he⟩, 0, rfl, ?_, by simp⟩
    rw [(connect_ok he).2]
    rfl
  · rintro e ids new e' - ⟨⟨log, hr⟩, n, rfl, hn, hle⟩ ⟨a, ha⟩
    obtain ⟨⟨e₁, evs⟩, hs, heq⟩ := Option.map_eq_some_iff.mp ha
    cases heq
    refine ⟨⟨log ++ evs, hr.step ⟨a, hs⟩⟩, ?_⟩
    rcases Sender.pushed_step (reach_sendStep hr a hs) with ⟨hnone, hnext⟩ | ⟨hone, hmax, hnext⟩
    · refine ⟨n, ?_, ?_, ?_⟩
      · change issued _ n ++ pushedIds e.shared.sender.queues.control e₁.shared.sender.queues.control = _
        rw [hnone, List.append_nil]
      · exact (show e₁.shared.nextLocalStreamId = e.shared.nextLocalStreamId from hnext).trans hn
      · intro id hid
        change id ∈ issued _ n ++ pushedIds e.shared.sender.queues.control e₁.shared.sender.queues.control at hid
        rw [hnone, List.append_nil] at hid
        exact hle id hid
    · have hmax : e.shared.nextLocalStreamId ≤ varIntMax := hmax
      have hone : pushedIds e.shared.queues.control e₁.shared.queues.control = [e.shared.nextLocalStreamId] := hone
      have hnext : e₁.shared.nextLocalStreamId = e.shared.nextLocalStreamId + 2 := hnext
      refine ⟨n + 1, ?_, ?_, ?_⟩
      · change issued _ n ++ pushedIds e.shared.queues.control e₁.shared.queues.control = _
        rw [hone, hn, issued_succ]
      · change e₁.shared.nextLocalStreamId = _
        omega
      · intro id hid
        change id ∈ issued _ n ++ pushedIds e.shared.queues.control e₁.shared.queues.control at hid
        rw [hone] at hid
        rcases List.mem_append.mp hid with hid | hid
        · exact hle id hid
        · rw [List.mem_singleton.mp hid]
          exact hmax

/-- A reader that runs has rejected nothing. -/
theorem reach_unrejected (h : (machine l isClient).Reach e log) (hd : e.readerDone = false) (error : Error) :
    .rejected error ∉ log := by
  intro hm
  have hdone : e.readerDone = true := (Receiver.reach_windows (reach_receiver h)).rejected error hm
  rw [hd] at hdone
  cases hdone

end Endpoint

namespace Pair

variable {limits : Bool → Limits} {p : Pair} {log : List (Bool × Event)} {side : Bool}

/-- The OPEN_STREAM a running reader receives next has the parity of the peer and the expected id. -/
theorem open_expected (h : (machine limits).Reach p log) (side : Bool) (bytes : Bytes) (rest : List Bytes)
    (streamId : VarInt) (left : Bytes) (hc : p.chan side = bytes :: rest)
    (hdec : Frame.decode bytes = .ok (.openStream streamId, left)) (hrun : (p.ep side).readerDone = false) :
    streamId.intoInner % 2 ≠ (p.ep side).shared.localParity ∧
      streamId.intoInner = (p.ep side).shared.nextRemoteStreamId := by
  have hother := reach_endpoint h (!side)
  have hself := reach_endpoint h side
  have hle := next_decoded h hrun hc hdec
  obtain ⟨n, hiss⟩ := Sender.reach_issued (Endpoint.reach_sender hother)
  have hids : openIds (accepted (sideLog side log)) ++ [streamId.intoInner] <+:
      issued (p.ep (!side)).shared.localParity n := by
    refine List.IsPrefix.trans ?_ hiss.opens_le
    have hmap := (hle.trans (List.prefix_append _ (p.ep (!side)).shared.sender.queues.control)).filterMap Frame.openId
    rw [List.filterMap_append] at hmap
    exact hmap
  have hid := eq_of_issued_le hids
  have hcount : (p.ep side).shared.nextRemoteStreamId =
      1 - (p.ep side).shared.localParity + 2 * (openIds (accepted (sideLog side log))).length :=
    Sender.reach_counted (Endpoint.reach_sender hself) (Endpoint.reach_unrejected hself hrun)
  have hp := Endpoint.reach_parity hself
  have hp' := Endpoint.reach_parity hother
  rw [hp'] at hid
  rw [hp] at hcount ⊢
  cases side <;> simp at hid hcount ⊢ <;> omega

end Pair

namespace Endpoint

/-- The ids of the pushed OPEN_STREAM frames are the first ones of the endpoint's parity, without a gap and
within the range of a stream id. An `open_bi` call that fails or is cancelled leaves the id counter, both
maps, the control queue and the number of permits as they were, unless it closes the connection. After the
last id `open_bi` fails for want of one, on an open connection with room in the control queue. A peer that
receives the frames in order expects each of them. -/
theorem stream_ids_gapless (l : Limits) (isClient : Bool) (e : Endpoint) (ids : List Nat)
    (h : (openMachine l isClient).Reach e ids) (limits : Bool → Limits) (p : Pair) (log : List (Bool × Event))
    (hp : (Pair.machine limits).Reach p log) :
    ids = issued (parityOf isClient) ids.length ∧ (∀ id ∈ ids, id ≤ varIntMax) ∧
      (∀ a e' evs, e.Abandons a → e.step a = some (e', evs) →
        e'.openView = e.openView ∨ e.shared.closed = false ∧ e'.shared.closed = true) ∧
      (∀ id ∈ ids, varIntMax < id + 2 → e.shared.closed = false → e.shared.queues.closing = false →
        e.shared.queues.control.length < e.shared.limits.maxControlFrames →
        e.shared.openBi.2 = .error .streamIdExhausted) ∧
      ∀ side bytes rest streamId left, p.chan side = bytes :: rest →
        Frame.decode bytes = .ok (.openStream streamId, left) → (p.ep side).readerDone = false →
        streamId.intoInner % 2 ≠ (p.ep side).shared.localParity ∧
          streamId.intoInner = (p.ep side).shared.nextRemoteStreamId := by
  obtain ⟨-, n, rfl, hnext, hle⟩ := reach_pushed h
  refine ⟨by rw [issued_length], hle, fun a e' evs ha hs => openView_of_step a ha hs, ?_, Pair.open_expected hp⟩
  intro id hid hmax
  apply openBi_exhausted
  simp only [issued, List.mem_map, List.mem_range] at hid
  obtain ⟨k, hk, rfl⟩ := hid
  omega

/-- A client opens two streams, with a cancelled call between them; at a server the OPEN_STREAM of the
first one is next. -/
theorem stream_ids_gapless_cancelled :
    ∃ e ids p log, (openMachine smallLimits true).Reach e ids ∧ ids = [0, 2] ∧
      (Pair.machine fun _ => smallLimits).Reach p log ∧ p.chan false = [(Frame.openStream (.expect 0)).wire] ∧
      ids = issued 0 2 ∧ (p.ep false).shared.nextRemoteStreamId = 0 := by
  have hrun : (Machine.runList openStep { shared := .new smallLimits true }
      [.openStart, .openFinish, .openStart, .openCancel, .openStart, .openFinish]).map (fun r => r.2) =
        some [0, 2] := by decide
  have h0 : connect smallLimits true = .ok { shared := .new smallLimits true } := rfl
  obtain ⟨e, ids, hr, hids⟩ := Machine.runList_reach (connect smallLimits true = .ok ·) h0 _ _ hrun
  have hpair : ((Pair.connect fun _ => smallLimits).toOption.bind fun p₀ =>
      (Machine.runList Pair.step p₀ [.act true .openStart, .act true .openFinish, .act true (.nextFrame [0]),
        .act true .send, .act true (.nextFrame [0]), .act true .send, .deliver false]).map fun r =>
          (r.1.chan false, (r.1.ep false).readerDone)) =
      some ([(Frame.openStream (.expect 0)).wire], false) := by decide
  obtain ⟨p₀, hconnect, hpair⟩ := Option.bind_eq_some_iff.mp hpair
  obtain ⟨⟨p, log⟩, hsteps, heq⟩ := Option.map_eq_some_iff.mp hpair
  simp only [Prod.mk.injEq] at heq
  have hp := Machine.Reach.of_run (Pair.connect (fun _ => smallLimits) = .ok ·) (Pair.ok_of_toOption hconnect) _
    hsteps
  obtain ⟨hseq, -, -, -, hopen⟩ := stream_ids_gapless smallLimits true e ids hr (fun _ => smallLimits) p log hp
  have hids : ids = [0, 2] := hids
  refine ⟨e, ids, p, log, hr, hids, hp, heq.1, by rw [hids]; rfl, ?_⟩
  have hnext := (hopen false _ [] (.expect 0) [] heq.1 (by decide) heq.2).2
  exact hnext.symm

/-- Room for four streams, and the least room for control frames that goes with it. -/
def fourStreams : Limits := { maxOpenStreams := 4, maxControlFrames := 14 }

/-- The ids from the `k`-th of the last seven on, `n` of them. -/
def lateIds (k n : Nat) : List Nat := (List.range n).map fun i => 2 ^ 62 - 14 + 2 * (k + i)

/-- A client that has used all its ids but the last seven, and is otherwise fresh. -/
def lateClient : Endpoint := { shared := { Shared.new fourStreams true with nextLocalStreamId := 2 ^ 62 - 14 } }

/-- The streams `ids` are opened and reset and their receivers dropped, and the cleanup worker queues a
STOP_SENDING for each. -/
def openAndDrop (ids : List Nat) : List Act :=
  ids.flatMap (fun _ => [.openStart, .openFinish]) ++ ids.map (.reset · 0) ++ ids.map .dropRecv ++ [.cleanup ids] ++
    List.replicate (4 * ids.length) (.work .cleanup)

/-- The writer sends their OPEN_STREAM and RESET_STREAM frames, but not yet a STOP_SENDING, and the peer's
resets retire the streams. A turn without data comes before each RESET_STREAM. -/
def sendAndRetire (ids : List Nat) : List Act :=
  ids.flatMap (fun _ => [.nextFrame ids, .send]) ++
    ids.flatMap (fun _ => [.nextFrame ids, .nextFrame ids, .send, .work .writer, .work .writer]) ++
      ids.flatMap fun id =>
        [.receive (Frame.resetStream (.expect id) ⟨.expect 0⟩).wire, .work .reader, .work .reader]

/-- Four streams are retired with their STOP_SENDING frames still queued, the last three ids are used, and a
PING fills the control queue. One permit is left, and a call of `open_bi` takes it. -/
def lateRun : List Act :=
  [.nextFrame [], .send, .receive (settingsFrame fourStreams).wire] ++ openAndDrop (lateIds 0 4) ++
    sendAndRetire (lateIds 0 4) ++ openAndDrop (lateIds 4 3) ++ [.keepalive, .openStart]

/-- No id is left and the connection is open, but `open_bi` looks at the control queue first: it closes the
connection and returns `ConnectionClosed`. -/
theorem exhausted_open_closes :
    ∃ e log, Machine.runList step lateClient lateRun = some (e, log) ∧ e.opening = true ∧
      varIntMax < e.shared.nextLocalStreamId ∧ e.shared.closed = false ∧ e.shared.queues.closing = false ∧
      e.shared.queues.control.length = fourStreams.maxControlFrames ∧
      e.shared.openBi.2 = .error .connectionClosed ∧ e.shared.openBi.1.closed = true := by
  have hrun : (Machine.runList step lateClient lateRun).map (fun r => (r.1.opening, r.1.shared.nextLocalStreamId,
      r.1.shared.closed, r.1.shared.queues.closing, r.1.shared.queues.control.length, r.1.shared.limits)) =
      some (true, 2 ^ 62, false, false, 14, fourStreams) := by decide +kernel
  obtain ⟨⟨e, log⟩, hsteps, heq⟩ := Option.map_eq_some_iff.mp hrun
  simp only [Prod.mk.injEq] at heq
  obtain ⟨hopening, hnext, hopen, hclosing, hfull, hlimits⟩ := heq
  have hclose := openBi_full e.shared hopen (by rw [hlimits, hfull]; decide)
  exact ⟨e, log, hsteps, hopening, by rw [hnext]; decide, hopen, hclosing, hfull, hclose⟩

end Endpoint
end Muxtls
