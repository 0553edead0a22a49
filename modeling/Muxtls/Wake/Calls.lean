import Muxtls.Schedule.Passive
import Muxtls.Sender.OpenFirst
import Muxtls.Wake.Calm
import Muxtls.Wake.Tasks

namespace Muxtls
namespace Endpoint

variable {l : Limits} {isClient : Bool} {e e' : Endpoint} {log evs : List Event} {i : Waiter}

theorem free_calm (e : Endpoint) (id : Nat) : e.shared.Calm (e.free id).shared i := by
  unfold free remains
  split_ifs
  · refine .of_dir _ _ (Inbox.clearChunks_dir _ id) fun _ hw => ?_
    exact ⟨hw.reset, rfl, hw.fin, hw.terminal, hw.closed⟩
  · exact .of_core rfl

theorem freeAfter_calm (e : Endpoint) (op : TaskOp) : e.shared.Calm (e.freeAfter op).shared i := by
  unfold freeAfter
  cases op.stream with
  | none => exact .of_core rfl
  | some id => exact free_calm e id

theorem read_calm (mode id : Nat) (poll : Inbox → Inbox × Inbox.ReadOutcome)
    (hpoll : ∀ b : Inbox, ∃ d, (poll b).1.dir = Function.update b.dir id d) (hi : i ≠ .read id) :
    e.shared.Calm (e.read mode id poll).1.shared i := by
  unfold read
  cases Shared.selectMode (e.shared.life id).recvMode mode with
  | error error => exact .of_core rfl
  | ok recvMode =>
    have hlife := Shared.setLife_calm (i := i) e.shared id { e.shared.life id with recvMode }
      (fun _ h => h) (fun _ h => h)
    obtain ⟨d, hd⟩ := hpoll e.shared.inbox
    exact hlife.trans (.of_dir _ d hd fun h => absurd h hi)

/-- A step that is not the look of a call, or of the worker, and does not signal it gives it nothing to find. -/
theorem calm_of_step (a : Act) (h : e.step a = some (e', evs)) (ha : looks a ≠ some i) (hs : e.signals a i = []) :
    e.shared.Calm e'.shared i := by
  cases step_cases h with
  | openStart => exact ⟨fun _ _ hd => hd, fun _ hw => hw, fun _ _ hw => hw⟩
  | openFinish => exact Shared.openBi_calm hs
  | openCancel => exact ⟨fun _ _ hd => hd, fun _ hw => hw, fun _ _ hw => hw⟩
  | accept id incoming =>
    have hlife := Shared.setLife_calm (i := i) e.shared id
      { e.shared.life id with
        sendHandles := (e.shared.life id).sendHandles + 1
        recvHandles := (e.shared.life id).recvHandles + 1 }
      (fun _ h => h) (fun _ h => h)
    refine ⟨hlife.due, fun hi => absurd ?_ ha, hlife.read⟩
    subst hi
    rfl
  | write mode id payload fin sendMode r hh hm hw =>
    have hlife := Shared.setLife_calm (i := i) e.shared id { e.shared.life id with sendMode }
      (fun _ h => h) (fun _ h => h)
    exact hlife.trans (.of_core (Shared.startWrite_core _ id payload fin r hw))
  | acquire id s hw => exact .of_core (e.shared.acquireWrite_core id s hw)
  | enqueue id s w hw => exact .of_core (e.shared.enqueueWrite_core id _ hw)
  | enqueueFailed id s error hw => exact .of_core (e.shared.enqueueWrite_core id _ hw)
  | finish id s hw => exact .of_core (e.shared.finishWrite_core id s hw)
  | cancel id => exact .of_core (e.shared.cancelWrite_core id)
  | reset id errorCode => exact .of_core (e.shared.resetStream_core id errorCode)
  | readChunk id =>
    refine read_calm 1 id _ ?_ ?_
    · intro b
      obtain ⟨d, hd, -⟩ := b.readWhole_reads id
      exact ⟨d, hd⟩
    · rintro rfl
      exact ha rfl
  | pollRead id room =>
    by_cases hroom : room = 0
    · -- a poll without room changes the mode at most
      unfold read
      cases Shared.selectMode (e.shared.life id).recvMode 2 with
      | error error => exact .of_core rfl
      | ok recvMode =>
        simp only [Inbox.pollRead, if_pos hroom]
        exact Shared.setLife_calm e.shared id { e.shared.life id with recvMode } (fun _ h => h) (fun _ h => h)
    · refine read_calm 2 id _ ?_ ?_
      · intro b
        obtain ⟨d, hd, -⟩ := b.pollRead_reads id room
        exact ⟨d, hd⟩
      · rintro rfl
        exact ha (if_neg hroom)
  | dropSend id =>
    simp only [signals, List.append_eq_nil_iff] at hs
    refine Shared.Calm.trans ?_ (free_calm _ id)
    refine Shared.Calm.trans (.of_core (e.shared.cancelWrite_core id)) (Shared.setLife_calm _ id _ ?_ ?_)
    · rintro rfl hd
      have hlife : (e.shared.cancelWrite id).life = e.shared.life :=
        congrArg Core.life (e.shared.cancelWrite_core id)
      have hlast : (e.shared.life id).sendHandles ≠ 1 := by
        intro h1
        simp [h1] at hs
      rw [hlife]
      simpa [hlast] using hd
    · intro _ hd
      rwa [show (e.shared.cancelWrite id).life = e.shared.life from congrArg Core.life (e.shared.cancelWrite_core id)]
  | dropRecv id =>
    simp only [signals, List.append_eq_nil_iff] at hs
    refine Shared.Calm.trans ?_ (free_calm _ id)
    refine Shared.Calm.trans (.of_dir _ _ (e.shared.inbox.dropRemainder_dir id) ?_)
      (Shared.setLife_calm _ id _ (fun _ h => h) ?_)
    · exact fun _ hw => ⟨hw.reset, hw.chunks, hw.fin, hw.terminal, hw.closed⟩
    · rintro rfl hd
      have hlast : (e.shared.life id).recvHandles ≠ 1 := by
        intro h1
        simp [h1] at hs
      simpa [hlast] using hd
  | close reason s hc =>
    have hcalm := Shared.close_calm reason hs
    rwa [hc] at hcalm
  | lastHandleDropped => exact Shared.initiateClose_calm 0 _ hs
  | abort =>
    refine ⟨fun _ _ hd => hd, ?_, fun _ _ hw => hw⟩
    rintro rfl
    simp [signals] at hs
  | keepalive s hc hp => exact Shared.orClose_calm .ping hs true hp
  | keepaliveRefused s hc hp => exact Shared.orClose_calm .ping hs false hp
  | drainExpired => exact Shared.markClosed_calm hs
  | frame order | frameEnd order | frameWait order =>
    rw [(nextFrame_inv h).2.1]
    exact e.shared.nextFrame_calm order
  | receive bytes e' evs hr ht hitem =>
    rcases hitem.shared_cases with hsame | ⟨f, rest, hlen, hf, hframe⟩
    · exact .of_core (congrArg Shared.core hsame)
    · simp only [signals, receiveSignals, if_neg (Nat.not_lt.mpr hlen), hf] at hs
      rw [hframe]
      exact Shared.handleFrame_calm f hs
  | work task op ops ht =>
    simp only [signals, ht, List.append_eq_nil_iff] at hs
    have hop := Shared.runOp_calm op hs.1
    have hfree := freeAfter_calm (i := i)
      (({ e with shared := (e.shared.runOp op).1 } : Endpoint).setTodo task ((e.shared.runOp op).2 ++ ops)) op
    exact hop.trans hfree
  | _ => exact .of_core rfl

theorem looks_cleanup {a : Act} (h : looks a = some .cleanup) : ∃ order, a = .cleanup order := by
  cases a with
  | cleanup order => exact ⟨order, rfl⟩
  | pollRead id room =>
    simp only [looks] at h
    split_ifs at h
    cases h
  | _ => cases h

/-- The pass that the worker is making covers what it owes. -/
def Covered (e : Endpoint) : Prop := ∀ op, e.shared.Due op → op ∈ e.todo .cleanup

theorem covered_of_look {order : List Nat} (h : e.step (.cleanup order) = some (e', evs)) : e'.Covered := by
  cases step_cases h with
  | cleanup order ht hi hp =>
    intro op hd
    simp only [setTodo, Function.update_self, List.mem_flatMap]
    cases op with
    | cleanSend id => exact ⟨id, hp.mem_iff.mpr hd.1, by simp⟩
    | cleanRecv id => exact ⟨id, hp.mem_iff.mpr hd.1, by simp⟩
    | _ => exact hd.elim

theorem covered_of_step (a : Act) (h : e.step a = some (e', evs)) (ha : looks a ≠ some .cleanup)
    (hs : e.signals a .cleanup = []) (hc : e.Covered) : e'.Covered := by
  intro op hd
  have hmem := hc op ((calm_of_step a h ha hs).due rfl op hd)
  by_cases hof : ofTask a = some .cleanup
  · cases step_cases h with
    | cleanup order => exact absurd rfl ha
    | work task head ops ht =>
      cases hof
      rw [ht] at hmem
      have hop : op ∈ ops := by
        rcases List.mem_cons.mp hmem with rfl | hop
        · -- the look at a mark has taken it away
          refine absurd ?_ (e.shared.runOp_not_due op)
          cases op <;> exact hd
        · exact hop
      simp [freeAfter, setTodo, hop]
    | _ => cases hof
  · rw [todo_of_step a h .cleanup hof]
    exact hmem

theorem looks_read {a : Act} {id : Nat} (h : looks a = some (.read id)) :
    a = .readChunk id ∨ ∃ room, a = .pollRead id room := by
  cases a with
  | readChunk j =>
    cases h
    exact .inl rfl
  | pollRead j room =>
    simp only [looks] at h
    split_ifs at h
    cases h
    exact .inr ⟨room, rfl⟩
  | _ => cases h

theorem read_waits (mode id : Nat) (poll : Inbox → Inbox × Inbox.ReadOutcome)
    (hpoll : ∀ b : Inbox, (poll b).2 = .pending → ((poll b).1.dir id).Waits)
    (hf : e.readFound mode id (poll e.shared.inbox).2 = false) :
    ((e.read mode id poll).1.shared.inbox.dir id).Waits := by
  unfold readFound at hf
  unfold read
  cases hm : Shared.selectMode (e.shared.life id).recvMode mode with
  | error error =>
    rw [hm] at hf
    cases hf
  | ok recvMode =>
    rw [hm] at hf
    refine hpoll e.shared.inbox ?_
    split at hf
    · assumption
    · cases hf

/-- A parked worker has made its pass and owes nothing. -/
theorem clean_of_parked {w : Watched Endpoint Waiter} (h : (watched l isClient).Reach w log)
    (hs : (w.notify .cleanup).phase = .parked) :
    w.state.todo .cleanup = [] ∧ ∀ op, ¬ w.state.shared.Due op := by
  have hcovered : w.state.Covered := by
    refine WaitLoops.asleep_holds .cleanup Covered ?_ ?_ ?_ h (.inl hs)
    · intro e he _ op hd
      obtain ⟨-, rfl⟩ := connect_ok he
      cases op <;> first | exact hd.elim | exact absurd hd.1 List.not_mem_nil
    · intro e tr e' evs a _ ha _ hstep
      obtain ⟨order, rfl⟩ := looks_cleanup ha
      exact covered_of_look hstep
    · intro e tr e' evs a _ ha hsig hstep hc
      exact covered_of_step a hstep ha hsig hc
  have hidle : (w.state.todo .cleanup).isEmpty = true := by
    refine WaitLoops.parked_idle (L := waitLoops) .cleanup (by simp [waitLoops]) ?_ h hs
    intro e e' evs a ha hstep hidle
    have hnil : e.todo .cleanup = [] := List.isEmpty_iff.mp hidle
    have hof : ofTask a ≠ some .cleanup := by
      intro hof
      cases step_cases hstep with
      | cleanup order => exact ha rfl
      | work task op ops ht =>
        cases hof
        cases hnil.symm.trans ht
      | _ => cases hof
    exact List.isEmpty_iff.mpr ((todo_of_step a hstep .cleanup hof).trans hnil)
  have hnil := List.isEmpty_iff.mp hidle
  refine ⟨hnil, fun op hd => ?_⟩
  have hmem := hcovered op hd
  rw [hnil] at hmem
  cases hmem

/-- The cleanup worker misses no drop: while it is parked, no stream of the map carries the mark of a dropped
handle. -/
theorem cleanup_misses_no_drop (w : Watched Endpoint Waiter) (h : (watched l isClient).Reach w log)
    (hs : (w.notify .cleanup).phase = .parked) (id : Nat) (hid : id ∈ w.state.shared.streams) :
    (w.state.shared.life id).sendDropped = false ∧ (w.state.shared.life id).recvDropped = false := by
  obtain ⟨-, hnot⟩ := clean_of_parked h hs
  exact ⟨Bool.eq_false_of_not_eq_true fun hd => hnot (.cleanSend id) ⟨hid, hd⟩,
    Bool.eq_false_of_not_eq_true fun hd => hnot (.cleanRecv id) ⟨hid, hd⟩⟩

/-- The worker has seen to a dropped `SendStream` and waits again, with the stream still in the map. -/
theorem cleanup_misses_no_drop_send :
    ∃ w log, (watched smallLimits true).Reach w log ∧ (w.notify .cleanup).phase = .parked ∧
      w.state.shared.streams = [0] ∧ (w.state.shared.life 0).sendHandles = 0 ∧
      (w.state.shared.life 0).sendDropped = false := by
  have hrun : (Machine.runList (waitLoops.step step) ⟨{ shared := .new smallLimits true }, waitLoops.start⟩
      [.act .openStart, .act .openFinish, .act (.dropSend 0), .poll .cleanup, .act (.cleanup [0]),
        .act (.work .cleanup), .act (.work .cleanup), .act (.work .cleanup), .poll .cleanup]).map (fun r =>
        ((r.1.notify .cleanup).phase, r.1.state.shared.streams, (r.1.state.shared.life 0).sendHandles)) =
      some (.parked, [0], 0) := by decide +kernel
  obtain ⟨w, log, hreach, heq⟩ := Machine.runList_reach (fun w : Watched Endpoint Waiter =>
    connect smallLimits true = .ok w.state ∧ w.notify = waitLoops.start) ⟨rfl, rfl⟩ _ _ hrun
  simp only [Prod.mk.injEq] at heq
  obtain ⟨hphase, hstreams, hhandles⟩ := heq
  have h := cleanup_misses_no_drop w hreach hphase 0 (by rw [hstreams]; exact List.mem_singleton_self 0)
  exact ⟨w, log, hreach, hphase, hstreams, hhandles, h.1⟩

/-- `accept_bi` misses no stream and no close, if one call waits at a time: while it does, nothing is queued and the
connection is open. -/
theorem accept_misses_no_stream (w : Watched Endpoint Waiter) (h : (watched l isClient).Reach w log)
    (hs : (w.notify .accept).Asleep) : w.state.shared.incomingStreams = [] ∧ w.state.shared.closed = false := by
  refine WaitLoops.asleep_holds .accept
    (fun e => e.shared.incomingStreams = [] ∧ e.shared.closed = false) ?_ ?_ ?_ h hs
  · intro e _ hs
    simp [waitLoops, Notify.Asleep] at hs
  · intro e tr e' evs a _ ha hf hstep
    have ha' : a = .accept := by
      cases a with
      | accept => rfl
      | pollRead id room =>
        simp only [waitLoops, looks] at ha
        split_ifs at ha
        cases ha
      | _ => cases ha
    subst ha'
    cases hstep
    simp only [waitLoops, found] at hf
    unfold Shared.acceptBi at hf ⊢
    cases hc : e.shared.closed with
    | true => simp [hc] at hf
    | false =>
      cases hin : e.shared.incomingStreams with
      | nil => simp [hc, hin]
      | cons id incoming => simp [hc, hin] at hf
  · intro e tr e' evs a _ ha hsig hstep hw
    exact (calm_of_step a hstep ha hsig).accept rfl hw

/-- A call parks, is woken by the peer's stream and takes it; the next call parks again. -/
theorem accept_misses_no_stream_parked :
    ∃ w log, (watched smallLimits false).Reach w log ∧ (w.notify .accept).phase = .parked ∧
      w.state.shared.streams = [0] ∧ (w.state.shared.life 0).recvHandles = 1 ∧
      w.state.shared.incomingStreams = [] ∧ w.state.shared.closed = false := by
  have hrun : (Machine.runList (waitLoops.step step) ⟨{ shared := .new smallLimits false }, waitLoops.start⟩
      [.act (.receive (settingsFrame smallLimits).wire), .act .accept, .poll .accept,
        .act (.receive (Frame.openStream (.expect 0)).wire), .act .accept, .act .accept, .poll .accept]).map (fun r =>
        ((r.1.notify .accept).phase, r.1.state.shared.streams, (r.1.state.shared.life 0).recvHandles)) =
      some (.parked, [0], 1) := by decide +kernel
  obtain ⟨w, log, hreach, heq⟩ := Machine.runList_reach (fun w : Watched Endpoint Waiter =>
    connect smallLimits false = .ok w.state ∧ w.notify = waitLoops.start) ⟨rfl, rfl⟩ _ _ hrun
  simp only [Prod.mk.injEq] at heq
  obtain ⟨hphase, hstreams, hhandles⟩ := heq
  exact ⟨w, log, hreach, hphase, hstreams, hhandles, accept_misses_no_stream w hreach (.inl hphase)⟩

/-- A read that finds nothing leaves a direction that has nothing to report. -/
theorem waits_of_look {a : Act} {id : Nat} (ha : looks a = some (.read id)) (hf : e.found a = false)
    (hstep : e.step a = some (e', evs)) : (e'.shared.inbox.dir id).Waits := by
  rcases looks_read ha with rfl | ⟨room, rfl⟩
  · cases step_cases hstep
    exact read_waits 1 id _ (fun b => b.readWhole_pending id) hf
  · cases step_cases hstep
    exact read_waits 2 id _ (fun b => b.pollRead_pending id room) hf

/-- A read misses nothing, if one read of its stream waits at a time: while it does, the stream has no chunk, no end,
no reset and no close to report. -/
theorem read_misses_no_data (w : Watched Endpoint Waiter) (h : (watched l isClient).Reach w log) (id : Nat)
    (hs : (w.notify (.read id)).Asleep) : (w.state.shared.inbox.readChunk id).2 = .pending := by
  rw [Inbox.readChunk_pending_iff]
  refine WaitLoops.asleep_holds (.read id) (fun e => (e.shared.inbox.dir id).Waits) ?_ ?_ ?_ h hs
  · intro e _ hs
    simp [waitLoops, Notify.Asleep] at hs
  · intro e tr e' evs a _ ha hf hstep
    exact waits_of_look ha hf hstep
  · intro e tr e' evs a _ ha hsig hstep hw
    exact (calm_of_step a hstep ha hsig).read id rfl hw

/-- A read parks, is woken by three bytes and takes them; the next read parks again. -/
theorem read_misses_no_data_parked :
    ∃ w log, (watched smallLimits true).Reach w log ∧ (w.notify (.read 0)).phase = .parked ∧
      .handed 0 [1, 2, 3] ∈ log ∧ (w.state.shared.inbox.readChunk 0).2 = .pending := by
  have hrun : (Machine.runList (waitLoops.step step) ⟨{ shared := .new smallLimits true }, waitLoops.start⟩
      [.act (.receive (settingsFrame smallLimits).wire), .act .openStart, .act .openFinish, .act (.pollRead 0 4),
        .poll (.read 0), .act (.receive (Frame.stream (.expect 0) false [1, 2, 3]).wire), .act (.pollRead 0 4),
        .act (.pollRead 0 4), .poll (.read 0)]).map (fun r =>
        ((r.1.notify (.read 0)).phase, decide (.handed 0 [1, 2, 3] ∈ r.2))) =
          some (.parked, true) := by decide +kernel
  obtain ⟨w, log, hreach, heq⟩ := Machine.runList_reach (fun w : Watched Endpoint Waiter =>
    connect smallLimits true = .ok w.state ∧ w.notify = waitLoops.start) ⟨rfl, rfl⟩ _ _ hrun
  simp only [Prod.mk.injEq, decide_eq_true_eq] at heq
  exact ⟨w, log, hreach, heq.1, heq.2, read_misses_no_data w hreach 0 (.inl heq.1)⟩

end Endpoint
end Muxtls
