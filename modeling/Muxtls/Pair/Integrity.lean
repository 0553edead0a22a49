import Muxtls.Pair.Channel
import Muxtls.Receiver.Delivery
import Muxtls.Receiver.Refine
import Muxtls.Sender.OpenFirst

namespace Muxtls

/-- The bytes that reads on stream `id` have returned, in order. -/
def handedOn (id : Nat) (log : List Event) : Bytes :=
  log.flatMap fun
    | .handed j data => if j = id then data else []
    | _ => []

/-- The payloads that `queue_stream_chunk` has enqueued on stream `id`, in order. -/
def queuedOn (id : Nat) (log : List Event) : Bytes :=
  log.flatMap fun
    | .queued j payload _ => if j = id then payload else []
    | _ => []

theorem handedBytes_inEvents (log : List Event) (id : Nat) :
    handedBytes (log.filterMap (inEvent id)) = handedOn id log := by
  induction log with
  | nil => rfl
  | cons e log ih =>
    rw [handedOn, List.flatMap_cons, ← handedOn, ← ih]
    cases e with
    | accepted f => cases hf : f.sendsOn id <;> simp [inEvent, hf, handedBytes]
    | handed j data => by_cases hj : j = id <;> simp [inEvent, hj, handedBytes]
    | ended j => by_cases hj : j = id <;> simp [inEvent, hj, handedBytes]
    | _ => rfl

theorem chunkBytes_dirEvents (log : List Event) (id : Nat) :
    chunkBytes (queuedChunks (log.filterMap (dirEvent id))) = queuedOn id log := by
  induction log with
  | nil => rfl
  | cons e log ih =>
    rw [queuedOn, List.flatMap_cons, ← queuedOn, ← ih]
    cases e with
    | queued j payload fin => by_cases hj : j = id <;> simp [dirEvent, hj, queuedChunks, chunkBytes]
    | emitted f => cases hf : f.sendsOn id <;> simp [dirEvent, hf, queuedChunks]
    | _ => rfl

theorem fin_of_queuedChunks (log : List Event) (id : Nat) (y : Bytes × Bool)
    (hy : y ∈ queuedChunks (log.filterMap (dirEvent id))) : .queued id y.1 y.2 ∈ log := by
  obtain ⟨d, hd, hyd⟩ := List.mem_filterMap.mp hy
  obtain ⟨e, he, hde⟩ := List.mem_filterMap.mp hd
  cases e with
  | queued j payload fin =>
    simp only [dirEvent] at hde
    split_ifs at hde with hj
    cases hde
    cases hyd
    exact hj ▸ he
  | emitted f =>
    simp only [dirEvent] at hde
    split_ifs at hde
    cases hde
    cases hyd
  | _ => cases hde

theorem ended_inEvents {log : List Event} {id : Nat} (h : .ended id ∈ log) : .ended ∈ log.filterMap (inEvent id) :=
  List.mem_filterMap.mpr ⟨_, h, by simp [inEvent]⟩

namespace Pair

variable {limits : Bool → Limits} {p : Pair} {log : List (Bool × Event)} {side : Bool} {id : Nat}

/-- The frames of a stream that a side has accepted are the first ones its peer has emitted. -/
theorem tooks_le_outs (h : (machine limits).Reach p log) (side : Bool) (id : Nat) :
    tooks ((sideLog side log).filterMap (inEvent id)) <+: outs ((sideLog (!side) log).filterMap (dirEvent id)) := by
  rw [Receiver.tooks_inEvents, Sender.outs_dirEvents]
  exact (accepted_le_emitted h side).filter _

/-- In each direction of each stream the bytes handed to the application are a prefix of the payloads
that the peer has enqueued, and the end of the stream is reported only after a FIN was enqueued that no
reset has replaced, when all of them have been handed over. -/
theorem byte_stream_integrity (limits : Bool → Limits) (p : Pair) (log : List (Bool × Event))
    (h : (machine limits).Reach p log) (side : Bool) (id : Nat) :
    handedOn id (sideLog side log) <+: queuedOn id (sideLog (!side) log) ∧
      (.ended id ∈ sideLog side log →
        (∃ payload, .queued id payload true ∈ sideLog (!side) log) ∧
        ((p.ep (!side)).shared.send id).resetQueued = false ∧
        handedOn id (sideLog side log) = queuedOn id (sideLog (!side) log)) := by
  have hside := Receiver.reach_side (Endpoint.reach_receiver (reach_endpoint h side)) id
  have hdir := Sender.reach_direction (Endpoint.reach_sender (reach_endpoint h (!side))) id
  have hin := RecvSide.reach_inv hside
  have hout := SendDir.reach_inv hdir
  have hle := tooks_le_outs h side id
  rw [← handedBytes_inEvents, ← chunkBytes_dirEvents]
  refine ⟨hin.handed_le.trans ((frameBytes_mono hle).trans hout.bytes_le), ?_⟩
  intro hend
  obtain ⟨hterm, hreset, hall⟩ := hin.ended (ended_inEvents hend)
  obtain ⟨streamId, payload, hfin⟩ := hin.fin_took hterm hreset
  have hdisp := SendDir.reach_fin hdir (hle.subset hfin)
  obtain ⟨hbytes, y, hy, hyfin⟩ := hout.bytes_done hdisp
  have hmem := fin_of_queuedChunks _ id y hy
  rw [hyfin] at hmem
  refine ⟨⟨y.1, hmem⟩, hout.exclusive hdisp, ?_⟩
  rw [hall, hbytes, hout.word.eq_of_ends hle hfin rfl]

/-- Three bytes and a FIN are written at once; the peer reads two bytes, one byte and the end. -/
theorem byte_stream_integrity_partial :
    ∃ p log, (machine fun _ => Endpoint.smallLimits).Reach p log ∧ .ended 0 ∈ sideLog false log ∧
      handedOn 0 (sideLog false log) = [1, 2, 3] ∧
      handedOn 0 (sideLog false log) = queuedOn 0 (sideLog true log) := by
  have hrun : ((connect fun _ => Endpoint.smallLimits).toOption.bind fun p₀ =>
      (Machine.runList step p₀
        [.act false (.nextFrame []), .act false .send, .deliver true, .act true .openStart, .act true .openFinish,
          .act true (.nextFrame [0]), .act true .send, .act true (.nextFrame [0]), .act true .send,
          .deliver false, .deliver false, .act true (.write 1 0 [1, 2, 3] true), .act true (.acquire 0),
          .act true (.acquire 0), .act true (.acquire 0), .act true (.acquire 0), .act true (.enqueue 0),
          .act true (.finish 0), .act true (.nextFrame [0]), .act true .send, .deliver false, .act false .accept,
          .act false (.pollRead 0 2), .act false (.pollRead 0 2), .act false (.pollRead 0 2)]).map fun r =>
        (decide (.ended 0 ∈ sideLog false r.2), handedOn 0 (sideLog false r.2))) = some (true, [1, 2, 3]) := by
    decide
  obtain ⟨p₀, hconnect, hrun⟩ := Option.bind_eq_some_iff.mp hrun
  obtain ⟨⟨p, log⟩, hrun, heq⟩ := Option.map_eq_some_iff.mp hrun
  simp only [Prod.mk.injEq, decide_eq_true_eq] at heq
  obtain ⟨hend, hbytes⟩ := heq
  have h0 := ok_of_toOption hconnect
  have hr := Machine.Reach.of_run (connect (fun _ => Endpoint.smallLimits) = .ok ·) h0 _ hrun
  obtain ⟨-, hall⟩ := byte_stream_integrity _ p log hr false 0
  exact ⟨p, log, hr, hend, hbytes, (hall hend).2.2⟩

end Pair
end Muxtls
