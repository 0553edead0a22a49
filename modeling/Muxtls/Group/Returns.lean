import Muxtls.Group.Reads

namespace Muxtls
namespace TaskGroup

variable {l : Limits} {isClient keepalive : Bool} {w : Watched TaskGroup GroupWaiter} {id : Nat}
  {P : WatchedAct GroupAct GroupWaiter → Prop} {x : Exec closeStep}

/-- An action of the group itself. -/
def CloseAct.inner : CloseAct → Option (WatchedAct GroupAct GroupWaiter)
  | .act b => some b
  | _ => none

theorem CloseAct.eq_act {c : CloseAct} {b : WatchedAct GroupAct GroupWaiter} (h : c.inner = some b) : c = .act b := by
  cases c with
  | act b' => exact congrArg CloseAct.act (Option.some.inj h)
  | _ => cases h

theorem closeStep_inner (w : Watched TaskGroup GroupWaiter) (c : CloseAct) (b : WatchedAct GroupAct GroupWaiter)
    (h : c.inner = some b) : closeStep w c = waitLoops.step step w b := by
  rw [CloseAct.eq_act h, closeStep]

/-- Weak fairness to actions of the group. -/
def FairTo (x : Exec closeStep) (P : WatchedAct GroupAct GroupWaiter → Prop) : Prop :=
  x.Fair fun c => ∃ b, c.inner = some b ∧ P b

/-- A run in which every member of the group gets its turn. A lock is taken to be free for whoever comes to it, so
nothing is said of runs in which a future that holds one, or has been handed one, is left without a poll. -/
structure Attended (l : Limits) (isClient keepalive : Bool) (x : Exec closeStep) : Prop where
  start : connect l isClient keepalive = .ok (x.state 0).state ∧ (x.state 0).notify = waitLoops.start
  fair : ∀ member, FairTo x fun b => owner b = some member

/-- Every call of `mark_closed` that starts the cleanup comes to its end. -/
def Completes (x : Exec closeStep) : Prop := ∀ n c, x.act n = some c → c.inner.isSome

/-- The run of the group in a run without a call that is left. -/
def Completes.group (hx : Completes x) : Exec (waitLoops.step step) := x.restrict closeStep_inner hx

theorem Completes.fair (hx : Completes x) (h : FairTo x P) : hx.group.Fair P :=
  Exec.restrict_fair closeStep_inner hx (fun b => ⟨.act b, rfl⟩) h

theorem Completes.act_eq (hx : Completes x) {n : ℕ} {b : WatchedAct GroupAct GroupWaiter}
    (h : hx.group.act n = some b) : x.act n = some (.act b) := by
  obtain ⟨c, hc, hb⟩ := Option.bind_eq_some_iff.mp h
  rw [hc, CloseAct.eq_act hb]

theorem Attended.scheduled (h : Attended l isClient keepalive x) (hx : Completes x) :
    Scheduled l isClient keepalive hx.group :=
  ⟨h.start, fun member => hx.fair (h.fair member)⟩

section Runs

/-- The turns of the members, but for those of `next_frame`. -/
def turns : List (WatchedAct GroupAct GroupWaiter) :=
  .act .keepalive :: .act .deadline :: .act .drain :: .act .join :: .poll (.inner .writer) :: .poll .keepalive ::
    .poll .deadline :: [Task.reader, .writer, .cleanup].flatMap fun task =>
      [.act (.act (.work task)), .act (.terminated task), .poll (.terminated task)]

theorem not_enabled (hw : w.state.endpoint.writerDone = true)
    (h : turns.all (fun b => (waitLoops.step step w b).isNone) = true) (member : Member) :
    ¬ Exec.Enabled (waitLoops.step step) (fun b => owner b = some member) w := by
  rintro ⟨b, hown, hb⟩
  have hnone : b ∉ turns := by
    intro hm
    have hn := List.all_eq_true.mp h b hm
    rw [Option.isNone_iff_eq_none] at hn
    rw [hn] at hb
    cases hb
  have htask (task : Task) :
      b ≠ .act (.act (.work task)) ∧ b ≠ .act (.terminated task) ∧ b ≠ .poll (.terminated task) := by
    refine ⟨?_, ?_, ?_⟩ <;>
    · rintro rfl
      exact hnone (by cases task <;> simp [turns])
  cases b with
  | act a =>
    cases a with
    | act c =>
      cases c with
      | nextFrame order =>
        have hwriting : w.state.endpoint.writing = false := by simp [Endpoint.writing, hw]
        have hstep : w.state.step (.act (.nextFrame order)) = none := by
          simp [step, ready, performs, Endpoint.step, hwriting]
        obtain ⟨⟨w', evs⟩, hr⟩ := Option.isSome_iff_exists.mp hb
        obtain ⟨-, -, hs, -⟩ := WaitLoops.act_cases hr
        rw [hstep] at hs
        cases hs
      | work task => exact (htask task).1 rfl
      | _ => cases hown
    | terminated task => exact (htask task).2.1 rfl
    | keepalive => exact hnone (by simp [turns])
    | deadline => exact hnone (by simp [turns])
    | drain => exact hnone (by simp [turns])
    | join => exact hnone (by simp [turns])
    | _ => cases hown
  | poll i =>
    cases i with
    | inner i =>
      cases i with
      | writer => exact hnone (by simp [turns])
      | _ => cases hown
    | terminated task => exact (htask task).2.2 rfl
    | keepalive => exact hnone (by simp [turns])
    | deadline => exact hnone (by simp [turns])
    | waitClosed => cases hown
  | drop i => cases hown

/-- A connection with small limits before its first step. -/
def fresh (keepalive : Bool) : Watched TaskGroup GroupWaiter :=
  ⟨{ endpoint := { shared := .new Endpoint.smallLimits true }, keepalive }, waitLoops.start⟩

/-- Where a finite run of such a connection ends. -/
def ending (keepalive : Bool) (acts : List CloseAct) : Watched TaskGroup GroupWaiter :=
  Exec.follow closeStep (fresh keepalive) acts

variable {acts : List CloseAct} (hrun : (Machine.runList closeStep (fresh keepalive) acts).isSome)

theorem fairTo_finite (hend : ¬ Exec.Enabled (waitLoops.step step) P (ending keepalive acts)) :
    FairTo (Exec.finite _ _ hrun) P :=
  Exec.finite_fair hrun fun hen => hend ((Exec.enabled_whole closeStep_inner fun b => ⟨.act b, rfl⟩).mp hen)

/-- A finite run that leaves no member a turn. -/
theorem attended_finite (hw : (ending keepalive acts).state.endpoint.writerDone = true)
    (hend : turns.all (fun b => (waitLoops.step step (ending keepalive acts) b).isNone) = true) :
    Attended Endpoint.smallLimits true keepalive (Exec.finite _ _ hrun) :=
  ⟨⟨rfl, rfl⟩, fun member => fairTo_finite hrun (not_enabled hw hend member)⟩

theorem completes_finite (hacts : acts.all (fun c => c.inner.isSome) = true) : Completes (Exec.finite _ _ hrun) := by
  intro n c hc
  exact List.all_eq_true.mp hacts c (List.mem_of_getElem? hc)

end Runs

/-- A connection with a waiting read is closed and its writer sends the close; the deadline comes to the lock of the
writer queues, and the tasks return before it gets it. -/
def leftDeadline : List CloseAct :=
  ([.act (.act .openStart), .act (.act .openFinish), .act (.act (.readChunk 0)), .poll (.inner (.read 0)),
    .act (.act (.close "bye")), .act (.act (.nextFrame [0])), .act (.act .send), .act (.act (.nextFrame [0])),
    .act (.act .send), .act (.act (.nextFrame [0])), .act (.act (.nextFrame [0])), .act (.act .send),
    .act .deadline] : List (WatchedAct GroupAct GroupWaiter)).map .act ++
  .dropDeadline .queues ::
  ([.act (.terminated .reader), .act (.act (.work .reader)), .act (.terminated .writer), .act (.terminated .cleanup),
    .act .join] : List (WatchedAct GroupAct GroupWaiter)).map .act

/-- The condition is needed: when the deadline is left in its `mark_closed`, the group is joined, but its stream stays
in the map and the read sleeps for ever. -/
theorem left_close_keeps_stream :
    ∃ x, Attended Endpoint.smallLimits true false x ∧ ∃ n, ∀ m, n ≤ m →
      (x.state m).state.joined = true ∧ (x.state m).state.endpoint.shared.streams = [0] ∧
        ((x.state m).notify (.inner (.read 0))).phase = .parked := by
  have hrun : (Machine.runList closeStep (fresh false) leftDeadline).isSome := by decide +kernel
  have hend : (ending false leftDeadline).state.joined = true ∧
      (ending false leftDeadline).state.endpoint.shared.streams = [0] ∧
      ((ending false leftDeadline).notify (.inner (.read 0))).phase = .parked := by decide +kernel
  refine ⟨_, attended_finite hrun (by decide +kernel) (by decide +kernel), leftDeadline.length, fun m hm => ?_⟩
  have hlast : (Exec.finite _ _ hrun).state m = ending false leftDeadline := by
    simp only [Exec.finite, List.take_of_length_le hm, ending]
  rw [hlast]
  exact hend

/-- A call of `wait_closed` on a closed connection returns, after the last join, unless its handle is dropped. -/
theorem wait_closed_returns (h : Attended l isClient keepalive x) (hx : Completes x)
    (hcall : FairTo x fun b => b = .act .waitClosed ∨ b = .poll .waitClosed) (n : ℕ)
    (hc : (x.state n).state.endpoint.shared.closed = true) :
    ∃ m, n ≤ m ∧ (x.state m).state.joined = true ∧
      (x.act m = some (.act (.act .waitClosed)) ∨ (x.state m).state.connectionHandles = 0) := by
  obtain ⟨m, hm, hjoined, hreturns⟩ := wait_returns (h.scheduled hx) (hx.fair hcall) n hc
  exact ⟨m, hm, hjoined, hreturns.imp_left hx.act_eq⟩

/-- A call waits while an aborted connection is joined, and its handle is dropped at the end. -/
def abortAndWait : List (WatchedAct GroupAct GroupWaiter) :=
  [.act (.act .abort), .act .waitClosed, .poll .waitClosed, .act (.terminated .reader), .act (.act (.work .reader)),
    .act .waitClosed, .act (.act (.nextFrame [])), .act (.terminated .writer), .act (.terminated .cleanup),
    .act .deadline, .act .join, .poll .waitClosed, .act .waitClosed, .act .dropHandle]

theorem wait_closed_returns_aborted :
    ∃ x, Attended Endpoint.smallLimits true false x ∧ Completes x ∧
      (x.state 1).state.endpoint.shared.closed = true ∧
      ∃ m, (x.state m).state.joined = true ∧
        (x.act m = some (.act (.act .waitClosed)) ∨ (x.state m).state.connectionHandles = 0) := by
  have hrun : (Machine.runList closeStep (fresh false) (abortAndWait.map .act)).isSome := by decide +kernel
  have hx := attended_finite hrun (by decide +kernel) (by decide +kernel)
  have hc := completes_finite hrun (by decide +kernel)
  have hcall : ¬ Exec.Enabled (waitLoops.step step) (fun b => b = .act .waitClosed ∨ b = .poll .waitClosed)
      (ending false (abortAndWait.map .act)) := by
    rintro ⟨b, rfl | rfl, hb⟩
    · exact absurd hb (by decide +kernel)
    · exact absurd hb (by decide +kernel)
  obtain ⟨m, -, hjoined, hreturns⟩ := wait_closed_returns hx hc (fairTo_finite hrun hcall) 1 rfl
  exact ⟨_, hx, hc, rfl, m, hjoined, hreturns⟩

/-- Every write of a closed connection returns: from some time on the stream has no pending write and all its permits
are back, whatever the write was waiting for when the connection was closed. -/
theorem pending_write_returns (h : Attended l isClient keepalive x) (hx : Completes x) (hcall : FairTo x (writes id))
    (n : ℕ) (hid : (x.state n).state.endpoint.shared.ids.Opened id)
    (hc : (x.state n).state.endpoint.shared.closed = true) :
    ∃ m, n ≤ m ∧ ∀ k, m ≤ k → ((x.state k).state.endpoint.shared.send id).pending = none ∧
      ((x.state k).state.endpoint.shared.budget.streamBytes id).permits = l.maxOutboundStreamBytes ∧
      ((x.state k).state.endpoint.shared.budget.streamFrames id).permits =
        l.maxQueuedOutboundFrames / l.maxOpenStreams :=
  write_returns (h.scheduled hx) (hx.fair hcall) n hid hc

/-- A write has its first permit when its connection is aborted; it goes on after the last join. -/
def abortWrite : List (WatchedAct GroupAct GroupWaiter) :=
  [.act (.act .openStart), .act (.act .openFinish), .act (.act (.write 1 0 [1] false)), .act (.act (.acquire 0)),
    .act (.act .abort), .act (.terminated .reader), .act (.act (.work .reader)), .act (.act (.nextFrame [])),
    .act (.terminated .writer), .act (.terminated .cleanup), .act .deadline, .act .join, .act (.act (.acquire 0))]

theorem pending_write_returns_aborted :
    ∃ x, Attended Endpoint.smallLimits true false x ∧ Completes x ∧
      ((x.state 5).state.endpoint.shared.send 0).pending = some ⟨[1], false, .streamFrame⟩ ∧
      ∃ m, 5 ≤ m ∧ ∀ k, m ≤ k → ((x.state k).state.endpoint.shared.send 0).pending = none := by
  have hrun : (Machine.runList closeStep (fresh false) (abortWrite.map .act)).isSome := by decide +kernel
  have hx := attended_finite hrun (by decide +kernel) (by decide +kernel)
  have hc := completes_finite hrun (by decide +kernel)
  have hcall : ¬ Exec.Enabled (waitLoops.step step) (writes 0) (ending false (abortWrite.map .act)) := by
    rintro ⟨b, ⟨c, rfl, rfl | rfl | rfl⟩, hb⟩
    · exact absurd hb (by decide +kernel)
    · exact absurd hb (by decide +kernel)
    · exact absurd hb (by decide +kernel)
  have hid : (ending false ((abortWrite.map .act).take 5)).state.endpoint.shared.ids.Opened 0 := by decide +kernel
  obtain ⟨m, hm, hreturns⟩ := pending_write_returns hx hc (fairTo_finite hrun hcall) 5 hid rfl
  exact ⟨_, hx, hc, rfl, m, hm, fun k hk => (hreturns k hk).1⟩

end TaskGroup
end Muxtls
