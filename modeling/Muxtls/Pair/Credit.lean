import Muxtls.Pair.Open
import Muxtls.Sender.Credit

namespace Muxtls
namespace Pair

variable {limits : Bool → Limits} {p : Pair} {log : List (Bool × Event)} {side : Bool} {id : Nat}

/-- What a sender was granted, its peer has emitted. -/
theorem granted_le_emitted (h : (machine limits).Reach p log) (side : Bool) (grant : Frame → Nat) :
    granted grant (accepted (sideLog side log)) ≤ granted grant (emitted (sideLog (!side) log)) :=
  granted_mono grant (accepted_le_emitted h side)

/-- SETTINGS grants no more than the first limits. -/
theorem settings_grants (h : (machine limits).Reach p log) (side : Bool) (f : Frame)
    (hf : f ∈ emitted (sideLog side log)) (hs : f.isSettings = true) :
    f.connGrant = (limits side).maxInboundConnectionBytes ∧ f.initialGrant = (limits side).maxInboundStreamBytes := by
  have hi := Sender.reach_informed (Endpoint.reach_sender (reach_endpoint h side))
  have hv := reach_valid h side
  rw [hi.settings f hf hs]
  have hu : u32Max ≤ varIntMax := by decide
  exact ⟨VarInt.expect_intoInner _ (hv.inbound.2.2.trans hu),
    VarInt.expect_intoInner _ ((hv.inbound.2.1.trans hv.inbound.2.2).trans hu)⟩

/-- The connection limit a sender holds is at most the one its peer advertises. -/
theorem peerLimit_le (h : (machine limits).Reach p log) (side : Bool) :
    (p.ep side).shared.queues.peerLimit ≤ (p.ep (!side)).shared.inbox.receiveWindow.advertised := by
  have hg := Sender.reach_granted (Endpoint.reach_sender (reach_endpoint h side))
  have hw := Receiver.reach_windows (Endpoint.reach_receiver (reach_endpoint h (!side)))
  have hadv : (p.ep (!side)).shared.inbox.receiveWindow.advertised = _ := hw.advertised none trivial
  rw [show (p.ep side).shared.queues.peerLimit = _ from hg.limit, hadv]
  refine (granted_le_emitted h side _).trans ((granted_le_iff _ _ _).mpr ?_)
  intro f hf
  have hcredit := (granted_le_iff (Frame.creditOf none) _ _).mp (le_refl _) f hf
  cases f with
  | settings data streamData frameSize =>
    rw [(settings_grants h (!side) _ hf rfl).1]
    exact le_max_left _ _
  | maxData maximum => exact hcredit.trans (le_max_right _ _)
  | _ => exact Nat.zero_le _

/-- The stream limit a sender holds is at most the one its peer advertises. -/
theorem streamLimit_le (h : (machine limits).Reach p log) (side : Bool) (id : Nat) :
    ((p.ep side).shared.send id).peerLimit ≤ ((p.ep (!side)).shared.inbox.recv id).receiveWindow.advertised := by
  have hg := Sender.reach_granted (Endpoint.reach_sender (reach_endpoint h side))
  have hw := Receiver.reach_windows (Endpoint.reach_receiver (reach_endpoint h (!side)))
  refine (hg.stream_le id).trans ((granted_le_emitted h side _).trans ?_)
  by_cases hid : (p.ep (!side)).shared.ids.Opened id
  · have hadv : ((p.ep (!side)).shared.inbox.recv id).receiveWindow.advertised = _ := hw.advertised (some id) hid
    rw [hadv]
    exact le_max_right _ _
  · have hnone := (hw.unknown (some id) hid).1
    exact le_of_eq_of_le hnone (Nat.zero_le _)

theorem initialLimit_le (h : (machine limits).Reach p log) (side : Bool) (id : Nat)
    (hid : (p.ep (!side)).shared.ids.Opened id) :
    (p.ep side).shared.queues.peerInitialStreamLimit ≤
      ((p.ep (!side)).shared.inbox.recv id).receiveWindow.advertised := by
  have hg := Sender.reach_granted (Endpoint.reach_sender (reach_endpoint h side))
  have hw := Receiver.reach_windows (Endpoint.reach_receiver (reach_endpoint h (!side)))
  have hadv : ((p.ep (!side)).shared.inbox.recv id).receiveWindow.advertised = _ := hw.advertised (some id) hid
  rw [show (p.ep side).shared.queues.peerInitialStreamLimit = _ from hg.initial, hadv]
  refine (granted_le_emitted h side _).trans ((granted_le_iff _ _ _).mpr ?_)
  intro f hf
  cases f with
  | settings data streamData frameSize =>
    rw [(settings_grants h (!side) _ hf rfl).2]
    exact le_max_left _ _
  | _ => exact Nat.zero_le _

/-- The bytes of a stream frame that its reader takes next are within what the sender has spent. -/
theorem next_spent (h : (machine limits).Reach p log) (hd : (p.ep (!side)).readerDone = false) {bytes : Bytes}
    {rest : List Bytes} (hc : p.chan (!side) = bytes :: rest) {streamId : VarInt} {fin : Bool} {payload rest' : Bytes}
    (hdec : Frame.decode bytes = .ok (.stream streamId fin payload, rest')) :
    (frameBytes (accepted (sideLog (!side) log))).length + payload.length ≤ (p.ep side).shared.queues.sent ∧
      (frameBytes ((accepted (sideLog (!side) log)).filter (Frame.sendsOn streamId.intoInner))).length +
        payload.length ≤ ((p.ep side).shared.send streamId.intoInner).sent := by
  have hs := Sender.reach_spent (Endpoint.reach_sender (reach_endpoint h side))
  have hle := next_decoded h hd hc hdec
  rw [Bool.not_not] at hle
  have hsent : (p.ep side).shared.queues.sent = _ := hs.sent
  have hstream : ((p.ep side).shared.send streamId.intoInner).sent = _ := hs.stream streamId.intoInner
  rw [hsent, hstream]
  constructor
  · simpa [Frame.payload] using (frameBytes_mono hle).length_le
  · simpa [Frame.sendsOn, Frame.payload]
      using (frameBytes_mono (hle.filter (Frame.sendsOn streamId.intoInner))).length_le

/-- Both ends agree about credit. The connection total of a sender is what it has emitted, and both its
totals are within the limits it holds; those are at most what its peer advertises; so the next STREAM
frame that reaches a running reader is within both windows. -/
theorem credit_agreement (limits : Bool → Limits) (p : Pair) (log : List (Bool × Event))
    (h : (machine limits).Reach p log) (side : Bool) :
    let s := (p.ep side).shared
    let r := (p.ep (!side)).shared
    s.queues.sent = (frameBytes (emitted (sideLog side log))).length ∧ s.queues.sent ≤ s.queues.peerLimit ∧
      (∀ id, (s.send id).sent ≤ max (s.send id).peerLimit s.queues.peerInitialStreamLimit) ∧
      s.queues.peerLimit ≤ r.inbox.receiveWindow.advertised ∧
      (∀ id, (s.send id).peerLimit ≤ (r.inbox.recv id).receiveWindow.advertised) ∧
      (∀ id, r.ids.Opened id → s.queues.peerInitialStreamLimit ≤ (r.inbox.recv id).receiveWindow.advertised) ∧
      ∀ bytes rest streamId fin payload rest', p.chan (!side) = bytes :: rest →
        Frame.decode bytes = .ok (.stream streamId fin payload, rest') → (p.ep (!side)).readerDone = false →
        (∃ w, r.inbox.receiveWindow.receive payload.length = .ok w) ∧
        (r.ids.Opened streamId.intoInner →
          ∃ w, (r.inbox.recv streamId.intoInner).receiveWindow.receive payload.length = .ok w) := by
  have hs := Sender.reach_spent (Endpoint.reach_sender (reach_endpoint h side))
  have hr := Endpoint.reach_receiver (reach_endpoint h (!side))
  have hw := Receiver.reach_windows hr
  intro s r
  refine ⟨hs.sent, hs.sent_le, hs.stream_le, peerLimit_le h side, streamLimit_le h side,
    fun id hid => initialLimit_le h side id hid, ?_⟩
  intro bytes rest streamId fin payload rest' hc hdec hd
  have hrej := Endpoint.reach_unrejected (reach_endpoint h (!side)) hd
  have hx : r.inbox.Exact (limits (!side)) r.ids := Receiver.reach_exact (reach_valid h (!side)) hr hrej
  obtain ⟨hconn, hstream⟩ := next_spent h hd hc hdec
  constructor
  · have hrecv : r.inbox.receiveWindow.received = _ := hw.received hrej none trivial
    have hall : (accepted (sideLog (!side) log)).filter (Frame.carries none) = accepted (sideLog (!side) log) :=
      List.filter_eq_self.mpr fun _ _ => rfl
    rw [hall] at hrecv
    refine ⟨_, (ReceiveWindow.receive_ok_iff _ _ _ hx.owes.conn_sound).mpr ⟨?_, rfl⟩⟩
    have hsent : s.queues.sent ≤ s.queues.peerLimit := hs.sent_le
    have hle : s.queues.peerLimit ≤ r.inbox.receiveWindow.advertised := peerLimit_le h side
    rw [hrecv]
    exact hconn.trans (hsent.trans hle)
  · intro hid
    have hrecv : (r.inbox.recv streamId.intoInner).receiveWindow.received = _ :=
      hw.received hrej (some streamId.intoInner) hid
    refine ⟨_, (ReceiveWindow.receive_ok_iff _ _ _ (hx.owes.sound streamId.intoInner)).mpr ⟨?_, rfl⟩⟩
    have hle := max_le (streamLimit_le h side streamId.intoInner) (initialLimit_le h side streamId.intoInner hid)
    rw [hrecv]
    exact hstream.trans ((hs.stream_le streamId.intoInner).trans hle)

/-- Three bytes and a FIN are in flight: both windows of the server have room for them. -/
theorem credit_agreement_inflight :
    ∃ p log streamId w w', (machine fun _ => Endpoint.smallLimits).Reach p log ∧
      (p.chan false).map Frame.decode = [.ok (.stream streamId true [1, 2, 3], [])] ∧
      (p.ep false).shared.inbox.receiveWindow.receive 3 = .ok w ∧
      ((p.ep false).shared.inbox.recv streamId.intoInner).receiveWindow.receive 3 = .ok w' := by
  have hrun : ((connect fun _ => Endpoint.smallLimits).toOption.bind fun p₀ =>
      (Machine.runList step p₀
        [.act false (.nextFrame []), .act false .send, .deliver true, .act true .openStart, .act true .openFinish,
          .act true (.nextFrame [0]), .act true .send, .act true (.nextFrame [0]), .act true .send,
          .deliver false, .deliver false, .act true (.write 1 0 [1, 2, 3] true), .act true (.acquire 0),
          .act true (.acquire 0), .act true (.acquire 0), .act true (.acquire 0), .act true (.enqueue 0),
          .act true (.finish 0), .act true (.nextFrame [0]), .act true .send]).map fun r =>
        ((r.1.chan false).map fun b => (Frame.decode b).toOption,
          decide ((r.1.ep false).shared.ids.Opened 0), (r.1.ep false).readerDone)) =
      some ([some (.stream (.expect 0) true [1, 2, 3], [])], true, false) := by
    decide
  obtain ⟨p₀, hconnect, hrun⟩ := Option.bind_eq_some_iff.mp hrun
  obtain ⟨⟨p, log⟩, hrun, heq⟩ := Option.map_eq_some_iff.mp hrun
  simp only [Prod.mk.injEq, decide_eq_true_eq] at heq
  obtain ⟨hchan, hopen, hdone⟩ := heq
  have h0 := ok_of_toOption hconnect
  have hr := Machine.Reach.of_run (connect (fun _ => Endpoint.smallLimits) = .ok ·) h0 _ hrun
  obtain ⟨bytes, hc, hdec⟩ := List.map_eq_singleton_iff.mp hchan
  have hdec := ok_of_toOption hdec
  obtain ⟨-, -, -, -, -, -, hnext⟩ := credit_agreement _ p log hr true
  obtain ⟨⟨w, hw⟩, hstream⟩ := hnext bytes [] _ _ _ _ hc hdec hdone
  obtain ⟨w', hw'⟩ := hstream hopen
  exact ⟨p, log, .expect 0, w, w', hr, by rw [hc]; exact congrArg (· :: []) hdec, hw, hw'⟩

end Pair
end Muxtls
