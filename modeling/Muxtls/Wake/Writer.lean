import Muxtls.Pair.Channel
import Muxtls.Schedule.Represent
import Muxtls.Wake.Rest
import Muxtls.Wake.Tasks

namespace Muxtls
namespace Endpoint

variable {l : Limits} {isClient : Bool} {e e' : Endpoint} {log evs : List Event}

theorem free_hush (id : Nat) (hs : e.freeSignals id .writer = []) : e.shared.Hush (e.free id).shared := by
  unfold freeSignals at hs
  refine .of_outlook rfl fun h => ?_
  simp only [free, remains]
  split_ifs at hs ⊢
  · rw [Waiter.only_self] at hs
    exact h.clearChunks hs
  · exact h

theorem read_hush (mode id : Nat) (poll : Inbox → Inbox × Inbox.ReadOutcome) (signals : Inbox → List Signal)
    (hpoll : ∀ windows b, signals b = [] → b.Quiet windows → (poll b).1.Quiet windows)
    (hs : e.readSignals mode id signals .writer = []) : e.shared.Hush (e.read mode id poll).1.shared := by
  unfold readSignals at hs
  unfold read
  cases hm : Shared.selectMode (e.shared.life id).recvMode mode with
  | error error => exact .refl _
  | ok recvMode =>
    rw [hm] at hs
    simp only [Waiter.only_self] at hs
    exact .of_outlook rfl fun h => hpoll _ _ hs h

/-- A step without a signal for the writer, other than an item of the transport or a turn of `next_frame`. -/
theorem hush_of_step (a : Act) (h : e.step a = some (e', evs)) (hturn : ∀ order, a ≠ .nextFrame order)
    (hreceive : ∀ bytes, a ≠ .receive bytes) (hs : e.signals a .writer = []) : e.shared.Hush e'.shared := by
  cases step_cases h with
  | frame order | frameEnd order | frameWait order => exact absurd rfl (hturn order)
  | receive bytes => exact absurd rfl (hreceive bytes)
  | openStart => exact .same rfl rfl
  | openFinish => exact Shared.openBi_hush hs
  | openCancel => exact .same rfl rfl
  | accept => exact .same rfl rfl
  | write mode id payload fin sendMode r hh hm hw =>
    exact Shared.Hush.of_life (Shared.startWrite_hush payload fin r hw)
  | acquire id s hw => exact Shared.acquireWrite_hush hw
  | enqueue id s w hw =>
    simp only [signals, Shared.enqueueSignals, hw] at hs
    simp at hs
  | enqueueFailed id s error hw => exact Shared.enqueueWrite_hush hw
  | finish id s hw => exact Shared.finishWrite_hush hw
  | cancel id => exact Shared.cancelWrite_hush _ id
  | reset id errorCode => exact Shared.resetStream_hush errorCode hs
  | readChunk id => exact read_hush 1 id _ _ (fun _ _ hs hq => hq.readWhole hs) hs
  | pollRead id room =>
    simp only [signals] at hs
    split_ifs at hs with hroom
    · refine read_hush 2 id _ (fun _ => []) ?_ ?_
      · intro windows b _ hq
        rw [Inbox.pollRead, if_pos hroom]
        exact hq
      · unfold readSignals
        cases Shared.selectMode (e.shared.life id).recvMode 2 with
        | error error => rfl
        | ok recvMode => exact Waiter.only_self _ _
    · refine read_hush 2 id _ _ ?_ hs
      intro windows b hb hq
      rw [Inbox.pollRead, if_neg hroom]
      exact hq.pollReadLoop room _ hb
  | dropSend id =>
    simp only [signals, List.append_eq_nil_iff] at hs
    have hc := e.shared.cancelWrite_hush id
    have hf := free_hush id hs.2
    refine ⟨fun hr => hf.rest ?_, hf.shut.trans hc.shut⟩
    obtain ⟨hcut, ht, hq, hw, hb, hd⟩ := hc.rest hr
    exact ⟨hcut, ht, hq, hw, hb, hd⟩
  | dropRecv id =>
    simp only [signals, List.append_eq_nil_iff, Waiter.only_self] at hs
    have hf := free_hush id hs.2
    refine ⟨fun hr => hf.rest ?_, hf.shut⟩
    exact ⟨hr.cut, hr.turn, hr.control, hr.windows.dropRemainder hs.1.2, hr.blocked, hr.draining⟩
  | close reason s hc =>
    have hq := Shared.close_hush reason hs
    rwa [hc] at hq
  | lastHandleDropped => exact Shared.initiateClose_hush 0 _ hs
  | abort => simp [signals, Waiter.only] at hs
  | keepalive s hc hp => exact Shared.orClose_hush .ping hs true hp
  | keepaliveRefused s hc hp => exact Shared.orClose_hush .ping hs false hp
  | drainExpired => exact Shared.markClosed_hush hs
  | work task op ops ht =>
    simp only [signals, ht, List.append_eq_nil_iff] at hs
    have hop := Shared.runOp_hush op hs.1
    unfold freeAfter
    cases hid : op.stream with
    | none => exact hop
    | some id =>
      rw [hid] at hs
      have hf := free_hush id hs.2
      exact ⟨fun hr => hf.rest (hop.rest hr), hf.shut.trans hop.shut⟩
  | _ => exact .refl _

/-- The reader has left its loop and will run `mark_closed`, which no task has begun yet. -/
structure ClosePending (e : Endpoint) : Prop where
  todo : .markClosed ∈ e.todo .reader
  reader : e.readerDone = true
  shut : e.shared.cleanupStarted = false

/-- The writer task is at its `next_frame` and has nothing to return from it, or the shutdown of its queues is still
to come. -/
structure WriterRests (e : Endpoint) : Prop where
  writing : e.writing = true
  rest : e.shared.AtRest ∨ e.ClosePending

/-- Only a turn of the writer ends its `next_frame`. -/
theorem writing_of_step (a : Act) (h : e.step a = some (e', evs)) (hturn : ∀ order, a ≠ .nextFrame order)
    (hw : e.writing = true) : e'.writing = true := by
  obtain ⟨hdone, hhand, htodo⟩ := ofWriting hw
  have hother : ofTask a ≠ some .writer := by
    intro ha
    cases step_cases h with
    | frame order | frameEnd order | frameWait order => exact hturn order rfl
    | sent f bytes ht hf => cases hhand.symm.trans hf
    | sentClose code reason bytes ht hf => cases hhand.symm.trans hf
    | unsent f ht hf => cases hhand.symm.trans hf
    | writerBreak f hf => cases hhand.symm.trans hf
    | work task op ops ht =>
      cases ha
      cases htodo.symm.trans ht
    | _ => cases ha
  obtain ⟨hhand', hdone'⟩ := hand_of_other a h hother
  simp [writing, hhand', hdone', todo_of_step a h .writer hother, hdone, hhand, htodo]

/-- The shutdown stays to come until it is signalled. -/
theorem closePending_of_step (a : Act) (h : e.step a = some (e', evs)) (hturn : ∀ order, a ≠ .nextFrame order)
    (hreceive : ∀ bytes, a ≠ .receive bytes) (hs : e.signals a .writer = []) (hc : e.ClosePending) :
    e'.ClosePending := by
  have hreader : e'.readerDone = true := by
    by_contra hd
    have hd' := readerDone_of_step a h (Bool.eq_false_of_not_eq_true hd)
    exact absurd (hd'.symm.trans hc.reader) (by simp)
  refine ⟨?_, hreader, (hush_of_step a h hturn hreceive hs).shut.trans hc.shut⟩
  have hbusy : e.reading = false := by
    have hne : e.todo .reader ≠ [] := List.ne_nil_of_mem hc.todo
    simp [reading, hne]
  by_cases ha : ofTask a = some .reader
  · cases step_cases h with
    | work task op ops ht =>
      cases ha
      simp only [signals, ht, List.append_eq_nil_iff] at hs
      have hmem := hc.todo
      rw [ht] at hmem
      rcases List.mem_cons.mp hmem with rfl | hmem
      · simp [Shared.runOpSignals, Shared.markClosedSignals, hc.shut] at hs
      · simp [setTodo, freeAfter, hmem]
    | receive bytes => exact absurd rfl (hreceive bytes)
    | readerBreak hr => exact absurd (hbusy.symm.trans hr) (by simp)
    | idleTimeout hr => exact absurd (hbusy.symm.trans hr) (by simp)
    | _ => cases ha
  · rw [todo_of_step a h .reader ha]
    exact hc.todo

/-- An item of the transport that signals nothing is accepted and leaves nothing to do, or the reader stops. -/
theorem receive_rests (hr : (machine l isClient).Reach e log) {bytes : Bytes}
    (h : e.step (.receive bytes) = some (e', evs)) (hs : e.signals (.receive bytes) .writer = [])
    (hrest : e.shared.AtRest) : e'.shared.AtRest ∨ e'.ClosePending := by
  have hv := Sender.reach_wf (reach_sender hr)
  cases step_cases h with
  | receive bytes e' evs hread ht hitem =>
    have hopen : e.shared.cleanupStarted = false := by
      by_contra hne
      exact absurd (ht.symm.trans ((reach_ended hr).2 (Bool.eq_true_of_not_eq_false hne))) (by simp)
    have hheard : ∀ f rest, Frame.decode bytes = .ok (f, rest) → bytes.length ≤ e.shared.limits.maxFrameSize →
        e.shared.Heard (e.shared.handleFrame f) := by
      intro f rest hf hlen
      simp only [signals, receiveSignals, if_neg (Nat.not_lt.mpr hlen), hf] at hs
      exact Shared.handleFrame_heard hv f hs
    cases hitem with
    | dropped => exact .inl hrest
    | refused f rest s error reason hf hh hlen =>
      have hshut := (hheard f rest hf hlen).shut
      rw [hh] at hshut
      exact .inr ⟨by simp [stopReader, setTodo], rfl, hshut.trans hopen⟩
    | more f rest s todo hf hh hlen =>
      have hok := (hheard f rest hf hlen).rest
      rw [hh] at hok
      exact .inl (hok _ rfl hrest)
    | stop f rest s hf hh hlen =>
      have hok := (hheard f rest hf hlen).rest
      rw [hh] at hok
      exact .inl (hok _ rfl hrest)

theorem looks_writer {a : Act} (h : looks a = some .writer) : ∃ order, a = .nextFrame order := by
  cases a with
  | nextFrame order => exact ⟨order, rfl⟩
  | pollRead id room =>
    simp only [looks] at h
    split_ifs at h
    cases h
  | _ => cases h

/-- A turn of `next_frame` that waits. -/
theorem writerRests_of_look (hr : (machine l isClient).Reach e log) {order : List Nat}
    (hf : e.found (.nextFrame order) = false) (h : e.step (.nextFrame order) = some (e', evs)) : e'.WriterRests := by
  have hq := reach_queues_wf hr
  have hwait : (e.shared.nextFrame order).2 = .wait := by simpa [found] using hf
  have hturn : ∀ s turn, e.writing = true → order.Perm e.shared.queues.receiveWindows →
      e.shared.nextFrame order = (s, turn) → turn = .wait ∧ s = e.shared := by
    intro s turn hw hp hn
    have hsame := Shared.nextFrame_wait_fst hq order hp hwait
    rw [hn] at hsame hwait
    exact ⟨hwait, hsame⟩
  cases step_cases h with
  | frame order s f hw hp hn => cases (hturn s _ hw hp hn).1
  | frameEnd order s turn hw hp hn ht => rcases ht with rfl | ⟨message, rfl⟩ <;> cases (hturn s _ hw hp hn).1
  | frameWait order s turn hw hp hn =>
    obtain rfl := (hturn s _ hw hp hn).2
    exact ⟨hw, .inl ((Shared.nextFrame_wait_iff hq order hp).mp hwait)⟩

theorem writerRests_of_step (hr : (machine l isClient).Reach e log) (a : Act) (h : e.step a = some (e', evs))
    (ha : looks a ≠ some .writer) (hs : e.signals a .writer = []) (hw : e.WriterRests) : e'.WriterRests := by
  have hturn : ∀ order, a ≠ .nextFrame order := by
    rintro order rfl
    exact ha rfl
  refine ⟨writing_of_step a h hturn hw.writing, ?_⟩
  by_cases hreceive : ∃ bytes, a = .receive bytes
  · obtain ⟨bytes, rfl⟩ := hreceive
    rcases hw.rest with hrest | hc
    · exact receive_rests hr h hs hrest
    · -- the reader takes no item any more
      have hne : e.todo .reader ≠ [] := List.ne_nil_of_mem hc.todo
      cases step_cases h with
      | receive _ _ _ hread => simp [reading, hne] at hread
  · have hother : ∀ bytes, a ≠ .receive bytes := fun bytes hb => hreceive ⟨bytes, hb⟩
    rcases hw.rest with hrest | hc
    · exact .inl ((hush_of_step a h hturn hother hs).rest hrest)
    · exact .inr (closePending_of_step a h hturn hother hs hc)

theorem writerRests_of_asleep {w : Watched Endpoint Waiter} (h : (watched l isClient).Reach w log)
    (hs : (w.notify .writer).Asleep) : w.state.WriterRests := by
  refine WaitLoops.asleep_holds .writer WriterRests ?_ ?_ ?_ h hs
  · intro e he hs
    simp [waitLoops, Notify.Asleep] at hs
  · intro e tr e' evs a hr ha hf hstep
    obtain ⟨order, rfl⟩ := looks_writer ha
    exact writerRests_of_look hr hf hstep
  · intro e tr e' evs a hr ha hsig hstep hw
    exact writerRests_of_step hr a hstep ha hsig hw

/-- The writer never sleeps over work: while it waits in `next_frame` and no notification is on its way, a turn would
return nothing, unless the reader has failed and is about to shut the queues down. -/
theorem writer_sleeps_at_rest (w : Watched Endpoint Waiter) (h : (watched l isClient).Reach w log)
    (hs : (w.notify .writer).Asleep) :
    w.state.writing = true ∧
      ((∀ order, order.Perm w.state.shared.queues.receiveWindows → (w.state.shared.nextFrame order).2 = .wait) ∨
        w.state.readerDone = true ∧ .markClosed ∈ w.state.todo .reader ∧
        w.state.shared.cleanupStarted = false) := by
  have hrests := writerRests_of_asleep h hs
  have hq := reach_queues_wf (WaitLoops.reach_state h)
  refine ⟨hrests.writing,
    hrests.rest.imp (fun hrest order horder => ?_) fun hc => ⟨hc.reader, hc.todo, hc.shut⟩⟩
  exact (Shared.nextFrame_wait_iff hq order horder).mpr hrest

/-- A byte is written to stream 0 before any credit is there, and the writer sends all that it may. -/
def writeUncredited : List Act :=
  [.openStart, .openFinish, .write 1 0 [1] false, .acquire 0, .acquire 0, .acquire 0, .acquire 0, .enqueue 0,
    .nextFrame [0], .send, .nextFrame [0], .send, .nextFrame [0], .nextFrame [0]]

/-- The writer starts to wait, looks once more and parks. -/
def writerParks : List (WatchedAct Act Waiter) := [.poll .writer, .act (.nextFrame [0]), .poll .writer]

/-- Data waits for the peer's SETTINGS. The writer finds the permit of the enqueue at its first poll, looks once more
and parks. -/
theorem writer_sleeps_at_rest_blocked :
    ∃ w log, (watched smallLimits true).Reach w log ∧ (w.notify .writer).phase = .parked ∧
      w.state.shared.queues.ready = [0] ∧ (w.state.shared.nextFrame [0]).2 = .wait := by
  have hrun : (Machine.runList (waitLoops.step step) ⟨{ shared := .new smallLimits true }, waitLoops.start⟩
      (writeUncredited.map WatchedAct.act ++ writerParks)).map (fun r =>
        ((r.1.notify .writer).phase, r.1.state.shared.queues.ready, r.1.state.shared.queues.receiveWindows,
          r.1.state.todo .reader)) = some (.parked, [0], [0], []) := by decide +kernel
  obtain ⟨w, log, hreach, heq⟩ := Machine.runList_reach (fun w : Watched Endpoint Waiter =>
    connect smallLimits true = .ok w.state ∧ w.notify = waitLoops.start) ⟨rfl, rfl⟩ _ _ hrun
  simp only [Prod.mk.injEq] at heq
  obtain ⟨hphase, hready, hwindows, htodo⟩ := heq
  have h := writer_sleeps_at_rest w hreach (.inl hphase)
  rw [htodo, hwindows] at h
  exact ⟨w, log, hreach, hphase, hready, (h.2.resolve_right (by simp)) [0] (List.Perm.refl _)⟩

end Endpoint
end Muxtls
