import Muxtls.Pair.Close
import Muxtls.Pair.Deadlock
import Muxtls.Wake.Calls
import Muxtls.Wake.Writer

namespace Muxtls

theorem ReceiveWindow.update_of_quiet {w : ReceiveWindow} (h : w.needsUpdate = false) : w.update.2 = none := by
  simp [update, h]

/-- A window that owes no update and whose bytes are all consumed has room. -/
theorem ReceiveWindow.room_of_quiet (w : ReceiveWindow) (hw : w.Sound) (hq : w.update.2 = none)
    (hc : w.consumed = w.received) (hwin : 0 < w.window) (hmax : w.advertised < varIntMax) :
    w.received < w.advertised := by
  by_contra hle
  have hle' := hw.received_le
  rcases w.full_of_quiet hw hq (by omega) with hf | hf
  · omega
  · omega

namespace Sender

variable {l : Limits} {isClient : Bool} {v v' : Sender} {log evs : List Event}

/-- Until the connection closes, SETTINGS wait in the control queue or were emitted. -/
theorem reach_announced (h : (machine l isClient).Reach v log) (hc : v.closed = false) :
    settingsFrame l ∈ v.queues.control ∨ settingsFrame l ∈ emitted log := by
  refine h.invariant (fun v log => v.closed = false →
    settingsFrame l ∈ v.queues.control ∨ settingsFrame l ∈ emitted log) ?_ ?_ hc
  · rintro v (rfl : v = _) _
    exact .inl List.mem_cons_self
  · intro v log evs v' _ ih hs hc
    rw [emitted_append]
    have hkeep :
        v.closed = false → (settingsFrame l ∈ v.queues.control → settingsFrame l ∈ v'.queues.control) →
        settingsFrame l ∈ v'.queues.control ∨ settingsFrame l ∈ emitted log ++ emitted evs := fun hv hsub =>
      (ih hv).imp hsub (List.mem_append_left _)
    cases hs with
    | halt => cases hc
    | shutdown => cases hc
    | close => cases hc
    | pop f control hcut hcontrol =>
      rcases ih hc with hm | hm
      · rw [hcontrol] at hm
        rcases List.mem_cons.mp hm with rfl | hm
        · exact .inr (List.mem_append_right _ List.mem_cons_self)
        · exact .inl hm
      · exact .inr (List.mem_append_left _ hm)
    | openLocal => exact hkeep hc fun hm => List.mem_append_left _ hm
    | reset => exact hkeep hc fun hm => List.mem_append_left _ hm
    | ping => exact hkeep hc fun hm => List.mem_append_left _ hm
    | stop => exact hkeep hc fun hm => List.mem_append_left _ hm
    | _ => exact hkeep hc fun hm => hm

theorem peerSettings_step (hs : SendStep l v evs v') (hp : v.queues.peerSettings = true) :
    v'.queues.peerSettings = true := by
  cases hs with
  | close code reason fitted =>
    simp only [WriterQueues.publishClose]
    split_ifs <;> exact hp
  | settings => rfl
  | _ => exact hp

theorem Quiet.not_settings {f : Frame} (h : (Event.accepted f).Quiet) : f.isSettings = false := by
  cases f <;> first | rfl | exact h.elim

theorem settings_step (hs : SendStep l v evs v') {f : Frame} (hf : f ∈ accepted evs) (hset : f.isSettings = true) :
    v'.queues.peerSettings = true := by
  have hquiet : ∀ {p : Prop}, (∀ e ∈ evs, e.Quiet) → p := by
    intro p hq
    obtain ⟨e, he, heq⟩ := List.mem_filterMap.mp hf
    cases e with
    | accepted g =>
      cases heq
      rw [Quiet.not_settings (hq _ he)] at hset
      cases hset
    | _ => cases heq
  have hone : ∀ {p : Prop} (g : Frame), accepted evs = [g] → g.isSettings = false → p := by
    intro p g hg hn
    rw [hg] at hf
    rw [List.mem_singleton.mp hf, hn] at hset
    cases hset
  have hnone : ∀ {p : Prop}, accepted evs = [] → p := by
    intro p hn
    rw [hn] at hf
    cases hf
  cases hs with
  | quiet _ hq => exact hquiet hq
  | halt _ hq => exact hquiet hq
  | shutdown _ hq => exact hquiet hq
  | openRemote _ _ hlog =>
    rcases hlog with rfl | ⟨error, rfl⟩
    · exact hone _ rfl rfl
    · exact hnone rfl
  | reset _ _ _ _ _ _ _ hlog =>
    rcases hlog with rfl | rfl
    · exact hnone rfl
    · exact hone _ rfl rfl
  | resetAgain _ _ _ hlog =>
    rcases hlog with rfl | rfl
    · exact hnone rfl
    · exact hone _ rfl rfl
  | stopRetired => exact hone _ rfl rfl
  | lateCredit => exact hone _ rfl rfl
  | settings => rfl
  | maxData maximum hp => exact hp
  | maxStreamData streamId maximum hp => exact hp
  | _ => exact hnone rfl

/-- A sender that has accepted SETTINGS knows them. -/
theorem reach_learned (h : (machine l isClient).Reach v log) {f : Frame} (hf : f ∈ accepted log)
    (hset : f.isSettings = true) : v.queues.peerSettings = true := by
  refine h.invariant (fun v log => (∃ f ∈ accepted log, f.isSettings = true) → v.queues.peerSettings = true) ?_ ?_
    ⟨f, hf, hset⟩
  · rintro v _ ⟨f, hf, -⟩
    cases hf
  · rintro v log evs v' _ ih hs ⟨f, hf, hset⟩
    rw [accepted_append] at hf
    rcases List.mem_append.mp hf with hf | hf
    · exact peerSettings_step hs (ih ⟨f, hf, hset⟩)
    · exact settings_step hs hf hset

end Sender

namespace Pair

variable {limits : Bool → Limits} {w : Watched Pair (Bool × Waiter)} {log : List (Bool × Event)}

/-- The wait loops of both endpoints. -/
def waitLoops : WaitLoops Pair Move (Bool × Waiter) where
  start i := Endpoint.waitLoops.start i.2
  looks
    | .act side a => (Endpoint.looks a).map (Prod.mk side)
    | .deliver _ => none
  found p
    | .act side a => (p.ep side).found a
    | .deliver _ => true
  idle i p := Endpoint.waitLoops.idle i.2 (p.ep i.1)
  signals p m i :=
    match m with
    | .act side a => if i.1 = side then (p.ep side).signals a i.2 else []
    | .deliver side =>
      match p.chan side with
      | [] => []
      | bytes :: _ => if i.1 = side then (p.ep side).signals (.receive bytes) i.2 else []
  dropped i := Endpoint.waitLoops.dropped i.2

/-- The runs of two endpoints in which a task that waits takes no step before it is woken. -/
def watched (limits : Bool → Limits) : Machine (Watched Pair (Bool × Waiter)) (Bool × Event) :=
  waitLoops.machine (fun p => connect limits = .ok p) step

theorem part (side : Bool) : waitLoops.Part Endpoint.waitLoops (fun p => p.ep side) (Prod.mk side) where
  start _ := rfl
  idle _ _ := rfl
  dropped _ := rfl
  names _ _ h := (Prod.mk.inj h).2

/-- Each endpoint of a watched pair follows its own watched runs. -/
theorem watched_endpoint (h : (watched limits).Reach w log) (side : Bool) :
    (Endpoint.watched (limits side) side).Reach (w.view (fun p => p.ep side) (Prod.mk side)) (sideLog side log) := by
  refine WaitLoops.reach_view (part side) (fun p hp => (connect_ok hp side).1) ?_ h
  intro p m p' evs hm
  cases m with
  | act s a =>
    simp only [step] at hm
    split_ifs at hm
    obtain ⟨⟨e, evs'⟩, he, heq⟩ := Option.map_eq_some_iff.mp hm
    cases heq
    by_cases hs : s = side
    · subst hs
      refine .inl ⟨a, ?_, rfl, rfl, fun i => if_pos rfl⟩
      simp only [after, Function.update_self]
      rw [he]
      exact congrArg (fun log => some (e, log)) (sideLog_self s evs').symm
    · refine .inr ⟨Function.update_of_ne (Ne.symm hs) _ _, sideLog_other hs evs', ?_, fun i => if_neg (Ne.symm hs)⟩
      intro i hi
      obtain ⟨j, -, hj⟩ := Option.map_eq_some_iff.mp hi
      exact hs (Prod.mk.inj hj).1
  | deliver s =>
    simp only [step] at hm
    cases hc : p.chan s with
    | nil =>
      rw [hc] at hm
      cases hm
    | cons bytes rest =>
      rw [hc] at hm
      obtain ⟨⟨e, evs'⟩, he, heq⟩ := Option.map_eq_some_iff.mp hm
      cases heq
      have hsig : ∀ i, waitLoops.signals p (.deliver s) (side, i) =
          if side = s then (p.ep s).signals (.receive bytes) i else [] := fun i => by simp only [waitLoops, hc]
      by_cases hs : s = side
      · subst hs
        refine .inl ⟨.receive bytes, ?_, rfl, rfl, fun i => (hsig i).trans (if_pos rfl)⟩
        simp only [after, Function.update_self]
        rw [he]
        exact congrArg (fun log => some (e, log)) (sideLog_self s evs').symm
      · refine .inr ⟨Function.update_of_ne (Ne.symm hs) _ _, sideLog_other hs evs', fun i => ?_, fun i => ?_⟩
        · intro hi
          cases hi
        · exact (hsig i).trans (if_neg (Ne.symm hs))

/-- Two open endpoints with nothing in flight whose writers and workers are all asleep. -/
structure Sleeps (w : Watched Pair (Bool × Waiter)) : Prop where
  live : ∀ side, (w.state.ep side).Live
  flight : ∀ side, w.state.chan side = []
  writers : ∀ side, (w.notify (side, .writer)).Asleep
  workers : ∀ side, (w.notify (side, .cleanup)).phase = .parked

theorem Sleeps.rests (hs : Sleeps w) (h : (watched limits).Reach w log) (side : Bool) :
    (w.state.ep side).writing = true ∧ (w.state.ep side).shared.AtRest := by
  have hrests := Endpoint.writerRests_of_asleep (watched_endpoint h side) (hs.writers side)
  refine ⟨hrests.writing, hrests.rest.resolve_right fun hc => ?_⟩
  exact absurd ((hs.live side).reader.symm.trans hc.reader) (by simp)

/-- When everyone sleeps, nothing is under way. -/
theorem Sleeps.quiescent (hs : Sleeps w) (h : (watched limits).Reach w log) : w.state.Quiescent where
  live := hs.live
  flight side := ⟨hs.flight side, (Endpoint.ofWriting (hs.rests h side).1).2.1⟩
  control side := (hs.rests h side).2.control
  drops side := by
    obtain ⟨hnil, hnot⟩ := Endpoint.clean_of_parked (watched_endpoint h side) (hs.workers side)
    refine ⟨hnil, fun id hid => ⟨?_, ?_⟩⟩
    · exact Bool.eq_false_of_not_eq_true fun hd => hnot (.cleanSend id) ⟨hid, hd⟩
    · exact Bool.eq_false_of_not_eq_true fun hd => hnot (.cleanRecv id) ⟨hid, hd⟩
  conn side := ReceiveWindow.update_of_quiet (hs.rests h side).2.windows.conn
  streams side id hid hterm hdis := by
    have hq := (hs.rests h side).2.windows.streams id hid
    unfold Inbox.pending at hq
    rw [hterm, hdis] at hq
    exact ReceiveWindow.update_of_quiet hq

/-- When everyone sleeps, the SETTINGS of both sides have arrived. -/
theorem Quiescent.greeted {p : Pair} (hq : p.Quiescent) (h : (machine limits).Reach p log) (side : Bool) :
    (p.ep side).shared.queues.peerSettings = true := by
  have hpeer := Endpoint.reach_sender (reach_endpoint h (!side))
  have hemitted := (Sender.reach_announced hpeer (hq.live (!side)).closed).resolve_left (by
    rw [show (p.ep (!side)).shared.sender.queues.control = [] from hq.control (!side)]
    exact List.not_mem_nil)
  rw [← hq.accepted_eq h side] at hemitted
  exact Sender.reach_learned (Endpoint.reach_sender (reach_endpoint h side)) hemitted rfl

/-- With nothing under way and everything read, the writer has nothing left that it could not send. -/
theorem Quiescent.empty {p : Pair} (hq : p.Quiescent) (h : (machine limits).Reach p log) (side : Bool)
    (hblocked : ∀ id ∈ (p.ep side).shared.queues.ready, (p.ep side).shared.Blocked id)
    (hread : ∀ id, (p.ep (!side)).shared.ids.Opened id → ((p.ep (!side)).shared.inbox.dir id).content = [])
    (hconn : (p.ep (!side)).shared.inbox.receiveWindow.advertised < varIntMax) (id : Nat)
    (hstream : ((p.ep (!side)).shared.inbox.recv id).receiveWindow.advertised < varIntMax) :
    (p.ep side).shared.queues.chunksOf id = [] := by
  by_contra hne
  obtain ⟨chunk, rest, hc⟩ := List.exists_cons_of_ne_nil hne
  have hr := reach_endpoint h side
  have hr' := reach_endpoint h (!side)
  have hv := Sender.reach_wf (Endpoint.reach_sender hr)
  have hl := reach_valid h (!side)
  have hx : (p.ep (!side)).shared.inbox.Exact (limits (!side)) (p.ep (!side)).shared.ids :=
    Receiver.reach_exact hl (Endpoint.reach_receiver hr') (Endpoint.reach_unrejected hr' (hq.live (!side)).reader)
  have hheld : ∀ j, (p.ep (!side)).shared.inbox.held j = 0 := by
    intro j
    by_cases hj : (p.ep (!side)).shared.ids.Opened j
    · rw [Inbox.held, hread j hj, List.length_nil]
    · exact hx.owes.unheld j hj
  have hp := hq.greeted h side
  have hopened : (p.ep side).shared.ids.Opened id := (hv.chunks id chunk (hc ▸ List.mem_cons_self)).1
  obtain ⟨hzero, hpay⟩ : (p.ep side).shared.queues.takeCount ((p.ep side).shared.send id) chunk = 0 ∧
      chunk.payload ≠ [] := by
    have hel := hblocked id ((hv.queues.ready_iff id).mpr hne) chunk (by rw [hc]; rfl)
    unfold WriterQueues.eligible at hel
    simpa [hp] using hel
  rcases (((p.ep side).shared.takeCount_eq_zero hv.queues _ chunk).mp hzero).resolve_left hpay with hcredit | hcredit
  · obtain ⟨hmap, hwin, hterm, hdis⟩ := hq.flowing h side hopened hne
    obtain ⟨hrecv, hadv⟩ := hq.stream_agree h side hp hopened hmap
    have hconsumed := hx.owes.held_eq id hdis
    rw [hheld id, Nat.add_zero] at hconsumed
    have hpos := hx.owes.window id (hq.opened h hopened) ▸ hl.inbound.1
    have hroom :=
      ReceiveWindow.room_of_quiet _ (hx.owes.sound id) (hq.streams (!side) id hwin hterm hdis) hconsumed hpos
      hstream
    unfold WriterQueues.streamCredit at hcredit
    omega
  · obtain ⟨hrecv, hadv⟩ := hq.conn_agree h side hp
    have hconsumed := hx.owes.conn_held
    rw [Finset.sum_eq_zero fun j _ => hheld j, Nat.add_zero] at hconsumed
    have hpos : 0 < (p.ep (!side)).shared.inbox.receiveWindow.window := by
      rw [hx.owes.conn_window]
      exact Nat.lt_of_lt_of_le hl.inbound.1 hl.inbound.2.1
    have hroom := ReceiveWindow.room_of_quiet _ hx.owes.conn_sound (hq.conn (!side)) hconsumed hpos hconn
    unfold WriterQueues.connCredit at hcredit
    omega

/-- With nothing in flight and nothing queued, a direction that was not reset has arrived as it was queued. -/
theorem Quiescent.items {p : Pair} (hq : p.Quiescent) (h : (machine limits).Reach p log) (side : Bool) {id : Nat}
    (hempty : (p.ep side).shared.queues.chunksOf id = [])
    (hreset : ((p.ep side).shared.send id).resetQueued = false) :
    Endpoint.acceptedItems id (sideLog (!side) log) = Endpoint.queuedItems id (sideLog side log) := by
  have hsender := Endpoint.reach_sender (reach_endpoint h side)
  have hcut : (p.ep side).shared.sender.cut = false :=
    Sender.cut_of_open _ ((Sender.reach_wf hsender).not_closing (hq.live side).closed)
  have hkeeps := SendDir.reach_keeps (Sender.reach_direction hsender id) hcut hreset
  have hchunks : ((p.ep side).shared.sender.direction id).chunks = [] := by
    simp [Sender.direction, Shared.sender, hempty]
  rw [hchunks, Sender.outs_dirEvents] at hkeeps
  have hacc := hq.accepted_eq h (!side)
  rw [Bool.not_not] at hacc
  rw [Endpoint.queuedItems, hkeeps, Endpoint.acceptedItems, hacc]
  simp [chunkItems]

/-- Nothing gets stuck between two open endpoints. When no frame is in flight and the writers and cleanup workers of
both sides are asleep, and the application at the other side has read whatever has arrived there, then nothing is
queued, and on each stream that was not reset and whose `RecvStream` is not dropped it has been handed every byte, as
long as neither window has come to the end of its range. -/
theorem sleeping_pair_delivered (limits : Bool → Limits)
    (w : Watched Pair (Bool × Waiter)) (log : List (Bool × Event))
    (h : (watched limits).Reach w log) (hs : Sleeps w) (side : Bool)
    (hread : ∀ id, (w.state.ep (!side)).shared.ids.Opened id →
      ((w.state.ep (!side)).shared.inbox.dir id).content = [])
    (hconn : (w.state.ep (!side)).shared.inbox.receiveWindow.advertised < varIntMax) (id : Nat)
    (hstream : ((w.state.ep (!side)).shared.inbox.recv id).receiveWindow.advertised < varIntMax) :
    (w.state.ep side).shared.queues.chunksOf id = [] ∧
      (((w.state.ep side).shared.send id).resetQueued = false →
        Endpoint.acceptedItems id (sideLog (!side) log) = Endpoint.queuedItems id (sideLog side log) ∧
        ((w.state.ep (!side)).receiver.holder id ≠ .gone →
          handedOn id (sideLog (!side) log) = queuedOn id (sideLog side log))) := by
  have hr := WaitLoops.reach_state h
  have hq := hs.quiescent h
  have hempty := hq.empty hr side (hs.rests h side).2.blocked hread hconn id hstream
  refine ⟨hempty, fun hreset => ?_⟩
  have hitems := hq.items hr side hempty hreset
  refine ⟨hitems, fun hheld => ?_⟩
  have hall := handed_of_items hr (!side) id (by rwa [Bool.not_not]) (by rwa [Bool.not_not]) hheld
  rw [Bool.not_not] at hall
  rw [← hall]
  by_cases hid : (w.state.ep (!side)).shared.ids.Opened id
  · rw [hread id hid, List.append_nil]
  · have hnew := ((Receiver.reach_wf (Endpoint.reach_receiver (reach_endpoint hr (!side)))).fresh id hid).1
    change _ = _ ++ ((w.state.ep (!side)).receiver.inbox.dir id).content
    rw [hnew]
    exact (List.append_nil _).symm

/-- Each side sends its SETTINGS, and the client opens stream 0. -/
def openZero : List Move :=
  [.act false (.nextFrame []), .act false .send, .deliver true, .act true .openStart, .act true .openFinish,
    .act true (.nextFrame [0]), .act true .send, .act true (.nextFrame [0]), .act true .send, .deliver false,
    .deliver false]

/-- The server accepts the stream and reads what has arrived, and the writers send what is queued. -/
def readZero : List Move :=
  [.act true (.nextFrame [0]), .act true .send, .deliver false, .act false .accept, .act false (.pollRead 0 8),
    .act true (.nextFrame [0]), .act false (.nextFrame [0]), .act false (.nextFrame [0])]

/-- The writers and the cleanup workers park. -/
def fallAsleep : List (WatchedAct Move (Bool × Waiter)) :=
  [.poll (true, .writer), .poll (false, .writer), .act (.act true (.nextFrame [0])),
    .act (.act false (.nextFrame [0])), .poll (true, .writer), .poll (false, .writer), .poll (true, .cleanup),
    .poll (false, .cleanup)]

/-- Three bytes are written, sent and read; then everyone goes to sleep. -/
theorem sleeping_pair_delivered_read :
    ∃ w log, (watched fun _ => Endpoint.smallLimits).Reach w log ∧ Sleeps w ∧
      queuedOn 0 (sideLog true log) = [1, 2, 3] ∧ handedOn 0 (sideLog false log) = queuedOn 0 (sideLog true log) := by
  have hrun : ((connect fun _ => Endpoint.smallLimits).toOption.bind fun p₀ =>
      (Machine.runList (waitLoops.step step) ⟨p₀, waitLoops.start⟩
        ((openZero ++ (Endpoint.writeActs 0 [1, 2, 3]).map (Move.act true) ++ readZero).map WatchedAct.act ++
          fallAsleep)).map fun r =>
        (decide (∀ side, (r.1.state.ep side).shared.closed = false ∧ (r.1.state.ep side).readerDone = false ∧
            (r.1.state.ep side).writerDone = false ∧ r.1.state.chan side = [] ∧
            (r.1.notify (side, .writer)).phase = .parked ∧ (r.1.notify (side, .cleanup)).phase = .parked),
          queuedOn 0 (sideLog true r.2),
          decide ((r.1.state.ep false).shared.localParity = 1 ∧ (r.1.state.ep false).shared.nextLocalStreamId = 1 ∧
            (r.1.state.ep false).shared.nextRemoteStreamId = 2 ∧
            ((r.1.state.ep false).shared.inbox.dir 0).content = []),
          decide ((r.1.state.ep false).shared.inbox.receiveWindow.advertised < varIntMax ∧
            ((r.1.state.ep false).shared.inbox.recv 0).receiveWindow.advertised < varIntMax),
          ((r.1.state.ep true).shared.send 0).resetQueued, (r.1.state.ep false).receiver.holder 0)) =
      some (true, [1, 2, 3], true, true, false, .held) := by decide +kernel
  obtain ⟨p₀, hconnect, hrun⟩ := Option.bind_eq_some_iff.mp hrun
  obtain ⟨w, log, hr, heq⟩ := Machine.runList_reach (fun w : Watched Pair (Bool × Waiter) =>
    connect (fun _ => Endpoint.smallLimits) = .ok w.state ∧ w.notify = waitLoops.start)
    ⟨ok_of_toOption hconnect, rfl⟩ _ _ hrun
  simp only [Prod.mk.injEq, decide_eq_true_eq] at heq
  obtain ⟨hsleep, hqueued, ⟨hparity, hlocal, hremote, hcontent⟩, ⟨hconn, hstream⟩, hreset, hheld⟩ := heq
  have hs : Sleeps w :=
    { live := fun side => ⟨(hsleep side).1, (hsleep side).2.1, (hsleep side).2.2.1⟩
      flight := fun side => (hsleep side).2.2.2.1
      writers := fun side => .inl (hsleep side).2.2.2.2.1
      workers := fun side => (hsleep side).2.2.2.2.2 }
  have hread :
      ∀ id, (w.state.ep false).shared.ids.Opened id → ((w.state.ep false).shared.inbox.dir id).content = [] := by
    intro id hid
    have hzero : id = 0 := by
      simp only [Ids.Opened, Shared.ids, hparity, hlocal, hremote] at hid
      split_ifs at hid <;> omega
    rw [hzero]
    exact hcontent
  have hall := sleeping_pair_delivered _ w log hr hs true hread hconn 0 hstream
  exact ⟨w, log, hr, hs, hqueued, (hall.2 hreset).2 (by rw [Bool.not_true, hheld]; simp)⟩

end Pair
end Muxtls
