import Muxtls.Ledger.Unmap
import Muxtls.Pair.Credit
import Muxtls.Pair.Lifecycle
import Muxtls.Schedule.Fair

namespace Muxtls

/-- A connection that is open: nothing has begun to close it, and both its tasks run. -/
structure Endpoint.Live (e : Endpoint) : Prop where
  closed : e.shared.closed = false
  reader : e.readerDone = false
  writer : e.writerDone = false

/-- `next_frame` would not emit the head chunk of stream `id`: its data pass skips the stream, or a turn of
it gives no frame at all. -/
def Shared.Withholds (s : Shared) (id : Nat) : Prop :=
  s.Blocked id ∨ ∃ order, order.Perm s.queues.receiveWindows ∧ ∀ f, (s.nextFrame order).2 ≠ .frame f

/-- Two open endpoints with nothing under way: no frame is in flight or queued for control, the dropped
handles are dealt with, and no window has an update to send. -/
structure Pair.Quiescent (p : Pair) : Prop where
  live : ∀ side, (p.ep side).Live
  flight : ∀ side, p.chan side = [] ∧ (p.ep side).hand = none
  control : ∀ side, (p.ep side).shared.queues.control = []
  drops : ∀ side, (p.ep side).todo .cleanup = [] ∧
    ∀ id ∈ (p.ep side).shared.streams,
      ((p.ep side).shared.life id).sendDropped = false ∧ ((p.ep side).shared.life id).recvDropped = false
  conn : ∀ side, (p.ep side).shared.inbox.receiveWindow.update.2 = none
  streams : ∀ side, ∀ id ∈ (p.ep side).shared.queues.receiveWindows,
    ((p.ep side).shared.inbox.recv id).recvTerminal = false →
    ((p.ep side).shared.inbox.recv id).recvDiscarded = false →
    ((p.ep side).shared.inbox.recv id).receiveWindow.update.2 = none

namespace Endpoint

variable {l : Limits} {isClient : Bool} {e : Endpoint} {log : List Event} {id : Nat}

/-- With the control queue empty and no step of the worker left, a discarded direction has ended, or its
STOP_SENDING was emitted. -/
theorem stop_emitted (h : (machine l isClient).Reach e log) (hc : e.shared.closed = false)
    (hq : e.shared.queues.control = []) (ht : e.todo .cleanup = [])
    (hd : (e.shared.inbox.recv id).recvDiscarded = true) :
    (e.shared.inbox.recv id).recvTerminal = true ∨ .stopSending (.expect id) ∈ emitted log := by
  rcases (Ledger.reach_stops (reach_ledger h)).asked id hd with hterm | hclosed | hlog | hmem
  · exact .inl hterm
  · exact absurd (hc.symm.trans hclosed) (by simp)
  · rcases Sender.reach_stop_queued (reach_sender h) hlog with hclosed | hm | hm
    · exact absurd (hc.symm.trans hclosed) (by simp)
    · rw [show e.shared.sender.queues.control = [] from hq] at hm
      cases hm
    · exact .inr hm
  · rw [show e.ledger.todo .cleanup = [] from ht] at hmem
    cases hmem

/-- With nothing else to send, `next_frame` withholds only what its data pass skips. -/
theorem blocked_of_withholds (h : (machine l isClient).Reach e log) (hc : e.shared.closed = false)
    (hq : e.shared.queues.control = []) (hid : id ∈ e.shared.queues.ready) (hw : e.shared.Withholds id) :
    e.shared.Blocked id := by
  rcases hw with hb | ⟨order, horder, hnone⟩
  · exact hb
  · have hv := Sender.reach_wf (reach_sender h)
    have hopen : e.shared.queues.closing = false := hv.not_closing hc
    have hturns := e.shared.nextFrame_turns hv.queues order horder
    generalize e.shared.nextFrame order = r at hturns hnone
    cases hturns with
    | cut hcut => exact absurd hcut (by rw [Sender.cut_of_open _ hopen]; simp)
    | pop f control hcut hcons => exact absurd (hq.symm.trans hcons) (by simp)
    | grant s' f => exact absurd rfl (hnone f)
    | data => exact absurd rfl (hnone _)
    | again hcut ht hu hblocked => exact hblocked id hid
    | drained hcut ht hidle hclosing => exact absurd (hopen.symm.trans hclosing) (by simp)
    | wait hcut ht hidle hblocked => exact hblocked id hid

end Endpoint

namespace Pair

variable {limits : Bool → Limits} {p : Pair} {log : List (Bool × Event)} {side : Bool} {id : Nat}

/-- With nothing in flight, each side has accepted all that its peer has emitted. -/
theorem Quiescent.accepted_eq (hq : p.Quiescent) (h : (machine limits).Reach p log) (side : Bool) :
    accepted (sideLog side log) = emitted (sideLog (!side) log) := by
  obtain ⟨dealt, inflight, hc⟩ := reach_carries h side
  have hnone : inflight = [] := List.map_eq_nil_iff.mp (hc.chan.symm.trans (hq.flight side).1)
  have hsent :=
    (Ledger.reach_written (Endpoint.reach_ledger (reach_endpoint h (!side)))).sent_eq (hq.live (!side)).writer
  rw [show (p.ep (!side)).ledger.hand = none from (hq.flight (!side)).2] at hsent
  rw [hc.accepted_eq (hq.live side).reader, ← hsent, hc.sent, hnone]
  simp

/-- Both sides know the same streams. -/
theorem Quiescent.opened (hq : p.Quiescent) (h : (machine limits).Reach p log)
    (hid : (p.ep side).shared.ids.Opened id) : (p.ep (!side)).shared.ids.Opened id := by
  by_cases hpar : id % 2 = (p.ep side).shared.localParity
  · -- every OPEN_STREAM was emitted and accepted, so the two counters agree
    have hr := reach_endpoint h side
    have hr' := reach_endpoint h (!side)
    obtain ⟨n, hn⟩ := Sender.reach_issued (Endpoint.reach_sender hr)
    have hopen : (p.ep side).shared.queues.closing = false :=
      (Sender.reach_wf (Endpoint.reach_sender hr)).not_closing (hq.live side).closed
    have hopens := hn.opens_eq (Sender.cut_of_open _ hopen)
    rw [show (p.ep side).shared.sender.queues.control = [] from hq.control side, List.append_nil] at hopens
    have hcount :=
      Sender.reach_counted (Endpoint.reach_sender hr') (Endpoint.reach_unrejected hr' (hq.live (!side)).reader)
    rw [hq.accepted_eq h (!side), Bool.not_not, hopens, issued_length] at hcount
    have hp := Endpoint.reach_parity hr
    have hp' := Endpoint.reach_parity hr'
    have hnext : (p.ep side).shared.nextLocalStreamId = (p.ep side).shared.localParity + 2 * n := hn.next
    have hremote : (p.ep (!side)).shared.nextRemoteStreamId = 1 - (p.ep (!side)).shared.localParity + 2 * n := hcount
    have hlt : id < if id % 2 = (p.ep side).shared.localParity then (p.ep side).shared.nextLocalStreamId else _ := hid
    rw [if_pos hpar, hnext] at hlt
    have hne : id % 2 ≠ (p.ep (!side)).shared.localParity := by
      rw [hp]  at hpar
      rw [hp', hpar]
      cases side <;> simp
    change id < if id % 2 = (p.ep (!side)).shared.localParity then _ else (p.ep (!side)).shared.nextRemoteStreamId
    rw [if_neg hne, hremote]
    rw [hp] at hlt
    rw [hp']
    cases side <;> simp at hlt ⊢ <;> omega
  · exact opened_of_remote h hid hpar

/-- With nothing in flight, what a side has received on the connection is what its peer has sent, and the
limit its peer holds is the one it advertises. -/
theorem Quiescent.conn_agree (hq : p.Quiescent) (h : (machine limits).Reach p log) (side : Bool)
    (hp : (p.ep side).shared.queues.peerSettings = true) :
    (p.ep (!side)).shared.inbox.receiveWindow.received = (p.ep side).shared.queues.sent ∧
      (p.ep (!side)).shared.inbox.receiveWindow.advertised ≤ (p.ep side).shared.queues.peerLimit := by
  have hr := Endpoint.reach_sender (reach_endpoint h side)
  have hr' := reach_endpoint h (!side)
  have hw := Receiver.reach_windows (Endpoint.reach_receiver hr')
  have hacc := hq.accepted_eq h side
  constructor
  · have hrecv : (p.ep (!side)).shared.inbox.receiveWindow.received = _ :=
      hw.received (Endpoint.reach_unrejected hr' (hq.live (!side)).reader) none trivial
    have hsent : (p.ep side).shared.queues.sent = _ := (Sender.reach_spent hr).sent
    have hall : (accepted (sideLog (!side) log)).filter (Frame.carries none) = accepted (sideLog (!side) log) :=
      List.filter_eq_self.mpr fun _ _ => rfl
    rw [hrecv, hsent, hall, hq.accepted_eq h (!side), Bool.not_not]
  · have hadv : (p.ep (!side)).shared.inbox.receiveWindow.advertised = _ := hw.advertised none trivial
    rw [hadv, show (p.ep side).shared.queues.peerLimit = _ from (Sender.reach_granted hr).limit, ← hacc]
    have hall := (granted_le_iff Frame.connGrant (accepted (sideLog side log)) _).mp (le_refl _)
    refine max_le ?_ ((granted_le_iff _ _ _).mpr ?_)
    · obtain ⟨f, hf, hset⟩ := Sender.reach_greeted hr hp
      have hgrant := (settings_grants h (!side) f (hacc ▸ hf) hset).1
      exact hgrant.symm.le.trans (hall f hf)
    · intro f hf
      cases f with
      | maxData maximum => exact hall _ hf
      | _ => exact Nat.zero_le _

/-- The same for a stream that is in the map of the sender. -/
theorem Quiescent.stream_agree (hq : p.Quiescent) (h : (machine limits).Reach p log) (side : Bool)
    (hp : (p.ep side).shared.queues.peerSettings = true) (hid : (p.ep side).shared.ids.Opened id)
    (hm : id ∈ (p.ep side).shared.streams) :
    ((p.ep (!side)).shared.inbox.recv id).receiveWindow.received = ((p.ep side).shared.send id).sent ∧
      ((p.ep (!side)).shared.inbox.recv id).receiveWindow.advertised ≤
        max ((p.ep side).shared.send id).peerLimit (p.ep side).shared.queues.peerInitialStreamLimit := by
  have hr := Endpoint.reach_sender (reach_endpoint h side)
  have hr' := reach_endpoint h (!side)
  have hw := Receiver.reach_windows (Endpoint.reach_receiver hr')
  have hg := Sender.reach_granted hr
  have hacc := hq.accepted_eq h side
  have hopen := hq.opened h hid
  constructor
  · have hrecv : ((p.ep (!side)).shared.inbox.recv id).receiveWindow.received = _ :=
      hw.received (Endpoint.reach_unrejected hr' (hq.live (!side)).reader) (some id) hopen
    have hsent : ((p.ep side).shared.send id).sent = _ := (Sender.reach_spent hr).stream id
    rw [hrecv, hsent, hq.accepted_eq h (!side), Bool.not_not]
    rfl
  · have hadv : ((p.ep (!side)).shared.inbox.recv id).receiveWindow.advertised = _ := hw.advertised (some id) hopen
    have hlimit : ((p.ep side).shared.send id).peerLimit = _ := hg.stream_eq id hm
    have hinit : (p.ep side).shared.queues.peerInitialStreamLimit = _ := hg.initial
    rw [hadv, hlimit, hinit, ← hacc]
    refine max_le (le_max_of_le_right ?_) (le_max_left _ _)
    obtain ⟨f, hf, hset⟩ := Sender.reach_greeted hr hp
    have hgrant := (settings_grants h (!side) f (hacc ▸ hf) hset).2
    exact hgrant.symm.le.trans ((granted_le_iff Frame.initialGrant (accepted (sideLog side log)) _).mp (le_refl _) f hf)

/-- A stream with queued data is in the map of its sender, and its receiver still takes its data. -/
theorem Quiescent.flowing (hq : p.Quiescent) (h : (machine limits).Reach p log) (side : Bool)
    (hid : (p.ep side).shared.ids.Opened id) (hc : (p.ep side).shared.queues.chunksOf id ≠ []) :
    id ∈ (p.ep side).shared.streams ∧ id ∈ (p.ep (!side)).shared.queues.receiveWindows ∧
      ((p.ep (!side)).shared.inbox.recv id).recvTerminal = false ∧
      ((p.ep (!side)).shared.inbox.recv id).recvDiscarded = false := by
  have hr := reach_endpoint h side
  have hr' := reach_endpoint h (!side)
  have hrun : ((p.ep side).shared.sender.direction id).marked = false :=
    Bool.eq_false_of_not_eq_true fun hm => hc (Sender.chunks_of_marked (Endpoint.reach_sender hr) hm)
  -- its terminal frame was not emitted, so the peer has not accepted it
  have hunended : ∀ f ∈ emitted (sideLog side log), f.sendsOn id = true → f.ends = true → False := by
    intro f hf hon hend
    exact absurd (hrun.symm.trans (Sender.marked_of_emitted (Endpoint.reach_sender hr) hf hon hend)) (by simp)
  have hterm : ((p.ep (!side)).shared.inbox.recv id).recvTerminal = false := by
    by_contra hterm
    obtain ⟨f, hf, hon, hend⟩ := Endpoint.accepted_of_terminal hr' (Bool.eq_true_of_not_eq_false hterm)
    rw [hq.accepted_eq h (!side), Bool.not_not] at hf
    exact hunended f hf hon hend
  have hmap : id ∈ (p.ep side).shared.streams := by
    by_contra hm
    obtain ⟨-, ⟨f, hf, hon, hend⟩, -⟩ := Endpoint.ended_of_gone hr (hq.live side).closed hid hm
    exact hunended f (Endpoint.emitted_of_sent hr hf) hon hend
  refine ⟨hmap, ?_, hterm, ?_⟩
  · rw [show (p.ep (!side)).shared.queues.receiveWindows = _ from
      (Sender.reach_wf (Endpoint.reach_sender hr')).windows]
    by_contra hm
    have hgone := (Endpoint.ended_of_gone hr' (hq.live (!side)).closed (hq.opened h hid) hm).2.2
    exact absurd (hterm.symm.trans hgone) (by simp)
  · by_contra hdis
    rcases Endpoint.stop_emitted hr' (hq.live (!side)).closed (hq.control (!side)) (hq.drops (!side)).1
      (Bool.eq_true_of_not_eq_false hdis) with ht | hstop
    · exact absurd (hterm.symm.trans ht) (by simp)
    · -- the STOP_SENDING of the receiver was accepted, and it resets the stream
      rw [← hq.accepted_eq h side] at hstop
      have hstopped := Sender.reach_stopped (Endpoint.reach_sender hr) hstop
      rw [VarInt.expect_intoInner _ (hid.le (Sender.reach_wf (Endpoint.reach_sender hr)).ids)] at hstopped
      rcases hstopped with hmark | hgone
      · exact absurd (hrun.symm.trans hmark) (by simp)
      · exact hgone hmap

/-- There is no credit deadlock. Between two open endpoints with nothing under way, a stream whose data is
withheld from a peer that has sent its SETTINGS has run into a window of the receiver that is full of
unconsumed bytes, or at the lifetime limit. -/
theorem no_credit_deadlock (limits : Bool → Limits) (p : Pair) (log : List (Bool × Event))
    (h : (machine limits).Reach p log) (hq : p.Quiescent) (side : Bool)
    (hp : (p.ep side).shared.queues.peerSettings = true) (id : Nat) (hid : id ∈ (p.ep side).shared.queues.ready)
    (chunk : OutboundChunk) (rest : List OutboundChunk)
    (hc : (p.ep side).shared.queues.chunksOf id = chunk :: rest) (hpay : chunk.payload ≠ [])
    (hw : (p.ep side).shared.Withholds id) :
    let conn := (p.ep (!side)).shared.inbox.receiveWindow
    let stream := ((p.ep (!side)).shared.inbox.recv id).receiveWindow
    (conn.received - conn.consumed = conn.window ∨ conn.advertised = varIntMax) ∨
      (stream.received - stream.consumed = stream.window ∨ stream.advertised = varIntMax) := by
  have hr := reach_endpoint h side
  have hr' := reach_endpoint h (!side)
  have hv := Sender.reach_wf (Endpoint.reach_sender hr)
  have hspent := Sender.reach_spent (Endpoint.reach_sender hr)
  have hx : (p.ep (!side)).shared.inbox.Exact (limits (!side)) (p.ep (!side)).shared.ids :=
    Receiver.reach_exact (reach_valid h (!side)) (Endpoint.reach_receiver hr')
      (Endpoint.reach_unrejected hr' (hq.live (!side)).reader)
  have hblocked := Endpoint.blocked_of_withholds hr (hq.live side).closed (hq.control side) hid hw
  have hzero : (p.ep side).shared.queues.takeCount ((p.ep side).shared.send id) chunk = 0 := by
    have hel := hblocked chunk (by rw [hc]; rfl)
    unfold WriterQueues.eligible at hel
    simpa [hp, hpay] using hel
  have hopened : (p.ep side).shared.ids.Opened id := (hv.chunks id chunk (hc ▸ List.mem_cons_self)).1
  rcases (((p.ep side).shared.takeCount_eq_zero hv.queues _ chunk).mp hzero).resolve_left hpay with hstream | hconn
  · right
    obtain ⟨hmap, hwin, hterm, hdis⟩ := hq.flowing h side hopened (by rw [hc]; simp)
    obtain ⟨hrecv, hadv⟩ := hq.stream_agree h side hp hopened hmap
    have hle : _ ≤ _ := hspent.stream_le id
    refine ReceiveWindow.full_of_quiet _ (hx.owes.sound id) (hq.streams (!side) id hwin hterm hdis) ?_
    have hmax := (hx.owes.sound id).received_le
    unfold WriterQueues.streamCredit at hstream
    omega
  · left
    obtain ⟨hrecv, hadv⟩ := hq.conn_agree h side hp
    refine ReceiveWindow.full_of_quiet _ hx.owes.conn_sound (hq.conn (!side)) ?_
    have hmax := hx.owes.conn_sound.received_le
    unfold WriterQueues.connCredit at hconn
    omega

/-- Three bytes are written to a peer whose streams have room for two: one byte is withheld, and the two
others fill the window of the stream. -/
theorem no_credit_deadlock_full :
    ∃ p log, (machine fun _ => { Endpoint.smallLimits with maxInboundStreamBytes := 2 }).Reach p log ∧
      p.Quiescent ∧ (p.ep true).shared.Withholds 0 ∧
      let conn := (p.ep false).shared.inbox.receiveWindow
      let stream := ((p.ep false).shared.inbox.recv 0).receiveWindow
      (conn.received - conn.consumed = conn.window ∨ conn.advertised = varIntMax) ∨
        (stream.received - stream.consumed = stream.window ∨ stream.advertised = varIntMax) := by
  have hrun : ((connect fun _ => { Endpoint.smallLimits with maxInboundStreamBytes := 2 }).toOption.bind fun p₀ =>
      (Machine.runList step p₀
        ([.act false (.nextFrame []), .act false .send, .deliver true, .act true .openStart, .act true .openFinish,
          .act true (.nextFrame [0]), .act true .send, .act true (.nextFrame [0]), .act true .send,
          .deliver false, .deliver false] ++ (Endpoint.writeActs 0 [1, 2, 3]).map (.act true ·) ++
          [.act true (.nextFrame [0]), .act true .send, .deliver false])).map fun r =>
        (decide ((∀ side, (r.1.ep side).shared.closed = false ∧ (r.1.ep side).readerDone = false ∧
            (r.1.ep side).writerDone = false ∧ r.1.chan side = [] ∧ (r.1.ep side).hand = none ∧
            (r.1.ep side).shared.queues.control = [] ∧ (r.1.ep side).todo .cleanup = []) ∧
          (∀ side, ∀ id ∈ (r.1.ep side).shared.streams, ((r.1.ep side).shared.life id).sendDropped = false ∧
            ((r.1.ep side).shared.life id).recvDropped = false) ∧
          (∀ side, (r.1.ep side).shared.inbox.receiveWindow.update.2 = none) ∧
          ∀ side, ∀ id ∈ (r.1.ep side).shared.queues.receiveWindows,
            ((r.1.ep side).shared.inbox.recv id).receiveWindow.update.2 = none),
        (r.1.ep true).shared.queues.ready,
        ((r.1.ep true).shared.queues.chunksOf 0).map (·.payload), (r.1.ep true).shared.queues.peerSettings,
        ((r.1.ep true).shared.queues.chunksOf 0).head?.map
          ((r.1.ep true).shared.queues.eligible ((r.1.ep true).shared.send 0)))) =
      some (true, [0], [[3]], true, some false) := by
    decide +kernel
  obtain ⟨p₀, hconnect, hrun⟩ := Option.bind_eq_some_iff.mp hrun
  obtain ⟨p, log, hr, heq⟩ := Machine.runList_reach (connect _ = .ok ·) (ok_of_toOption hconnect) _ _ hrun
  simp only [Prod.mk.injEq, decide_eq_true_eq] at heq
  obtain ⟨⟨hlive, hdrops, hconn, hstream⟩, hready, hchunks, hp, hel⟩ := heq
  have hq : p.Quiescent :=
    { live := fun side => ⟨(hlive side).1, (hlive side).2.1, (hlive side).2.2.1⟩
      flight := fun side => ⟨(hlive side).2.2.2.1, (hlive side).2.2.2.2.1⟩
      control := fun side => (hlive side).2.2.2.2.2.1
      drops := fun side => ⟨(hlive side).2.2.2.2.2.2, hdrops side⟩
      conn := hconn
      streams := fun side id hid _ _ => hstream side id hid }
  have hw : (p.ep true).shared.Withholds 0 := by
    refine .inl fun c hc => ?_
    rw [Option.mem_def.mp hc] at hel
    exact Option.some.inj hel
  obtain ⟨chunk, hchunk, hpay⟩ := List.map_eq_singleton_iff.mp hchunks
  exact ⟨p, log, hr, hq, hw,
    no_credit_deadlock _ p log hr hq true hp 0 (by rw [hready]; simp) chunk [] hchunk (by rw [hpay]; simp) hw⟩

end Pair
end Muxtls
