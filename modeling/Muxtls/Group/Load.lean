import Muxtls.Wake.Close
import Muxtls.Wake.Writer

namespace Muxtls

/-- The steps that come of a `TaskOp`, itself included. -/
def TaskOp.weight : TaskOp → Nat
  | .complete _ => 1
  | .retire _ => 2
  | .remove _ => 1
  | .cleanSend _ => 3
  | .cleanRecv _ => 4
  | .stopSending _ => 1
  | .failClose _ => 1
  | .markClosed => 1

def TaskOp.weights (ops : List TaskOp) : Nat := (ops.map TaskOp.weight).sum

theorem Shared.runOp_weight (s : Shared) (op : TaskOp) : TaskOp.weights (s.runOp op).2 < op.weight := by
  cases op with
  | stopSending id =>
    simp only [runOp]
    split <;> simp [TaskOp.weights, TaskOp.weight]
  | _ =>
    simp only [runOp]
    try split_ifs
    all_goals simp [TaskOp.weights, TaskOp.weight]

namespace Endpoint

variable {l : Limits} {isClient : Bool} {e e' : Endpoint} {log evs : List Event}

/-- The reader or the writer has left its loop. -/
def done (e : Endpoint) : Task → Bool
  | .reader => e.readerDone
  | .writer => e.writerDone
  | .cleanup => false

/-- The steps a task has left before it is at the end of its loop, and those that leave the loop. -/
def left (e : Endpoint) (task : Task) : Nat := TaskOp.weights (e.todo task) + if e.done task then 0 else 2

theorem readerDone_of_other (a : Act) (h : e.step a = some (e', evs)) (ha : ofTask a ≠ some .reader) :
    e'.readerDone = e.readerDone := by
  by_cases hof : ofTask a = none
  · exact congrArg (fun t => t.2.1) (tasks_of_step a h hof)
  · cases step_cases h with
    | receive => exact absurd rfl ha
    | readerBreak => exact absurd rfl ha
    | idleTimeout => exact absurd rfl ha
    | frame | frameEnd | frameWait | sent | sentClose | unsent | writerBreak | work | cleanup => rfl
    | _ => exact absurd rfl hof

theorem done_of_other (a : Act) (h : e.step a = some (e', evs)) (task : Task) (ha : ofTask a ≠ some task) :
    e'.done task = e.done task := by
  cases task with
  | reader => exact readerDone_of_other a h ha
  | writer => exact (hand_of_other a h ha).2
  | cleanup => rfl

theorem work_cases {task : Task} (h : e.step (.work task) = some (e', evs)) :
    ∃ op ops, e.todo task = op :: ops ∧ e'.todo task = (e.shared.runOp op).2 ++ ops ∧
      e'.shared.ends = (e.shared.runOp op).1.ends ∧ e'.done task = e.done task ∧ e'.hand = e.hand := by
  cases step_cases h with
  | work _ op ops ht =>
    refine ⟨op, ops, ht, Function.update_self _ _ _, rfl, ?_, rfl⟩
    cases task <;> rfl

/-- The writer has left its loop for its `mark_closed`. -/
structure WriterStops (e : Endpoint) : Prop where
  done : e.writerDone = true
  hand : e.hand = none
  todo : e.todo .writer = [.markClosed]

theorem stopWriter_stops (e : Endpoint) : e.stopWriter.WriterStops := ⟨rfl, rfl, by simp [stopWriter, setTodo]⟩

theorem turn_cases {order : List Nat} (h : e.step (.nextFrame order) = some (e', evs)) :
    e.writing = true ∧ (e'.WriterStops ∨ e'.writerDone = false) := by
  cases step_cases h with
  | frame _ s f hw => exact ⟨hw, .inr (ofWriting hw).1⟩
  | frameEnd _ s turn hw => exact ⟨hw, .inl (stopWriter_stops _)⟩
  | frameWait _ s turn hw => exact ⟨hw, .inr (ofWriting hw).1⟩

theorem send_cases (h : e.step .send = some (e', evs)) :
    e.hand.isSome = true ∧ e.shared.terminated = false ∧ e'.hand = none ∧
      (e'.WriterStops ∨ e'.writerDone = e.writerDone) := by
  cases step_cases h with
  | sent f bytes ht hf => exact ⟨by simp [hf], ht, rfl, .inr rfl⟩
  | sentClose code reason bytes ht hf => exact ⟨by simp [hf], ht, rfl, .inl (stopWriter_stops e)⟩
  | unsent f ht hf => exact ⟨by simp [hf], ht, rfl, .inl (stopWriter_stops e)⟩

/-- The writer has left its loop with nothing in its hand. -/
theorem reach_hand (h : (machine l isClient).Reach e log) : e.writerDone = true → e.hand = none := by
  refine h.invariant (fun e _ => e.writerDone = true → e.hand = none) ?_ ?_
  · intro e he
    rw [(connect_ok he).2]
    exact fun _ => rfl
  · rintro e tr evs e' - ih ⟨a, ha⟩ hdone
    by_cases hof : ofTask a = some .writer
    · cases a with
      | nextFrame order =>
        rcases (turn_cases ha).2 with hstop | hrun
        · exact hstop.hand
        · exact absurd (hrun.symm.trans hdone) (by simp)
      | send => exact (send_cases ha).2.2.1
      | writerBreak =>
        cases step_cases ha
        rfl
      | work task =>
        cases hof
        obtain ⟨op, ops, -, -, -, hd, hh⟩ := work_cases ha
        rw [hh]
        exact ih (hd.symm.trans hdone)
      | _ => cases hof
    · obtain ⟨hh, hd⟩ := hand_of_other a ha hof
      rw [hh]
      exact ih (hd.symm.trans hdone)

/-- A task that has left its loop has `mark_closed` behind it or before it. -/
theorem reach_stopped (h : (machine l isClient).Reach e log) (task : Task) (hd : e.done task = true) :
    e.shared.cleanupStarted = true ∨ .markClosed ∈ e.todo task := by
  refine h.invariant (fun e _ => e.done task = true → e.shared.cleanupStarted = true ∨
    .markClosed ∈ e.todo task) ?_ ?_ hd
  · intro e he hd
    rw [(connect_ok he).2] at hd
    cases task <;> cases hd
  · rintro e tr evs e' hr ih ⟨a, ha⟩ hd
    have hshut := (announces_of_step a ha).shut
    by_cases hof : ofTask a = some task
    · cases step_cases ha with
      | frame order s f hw =>
        cases hof
        exact absurd ((ofWriting hw).1.symm.trans hd) (by simp)
      | frameWait order s turn hw =>
        cases hof
        exact absurd ((ofWriting hw).1.symm.trans hd) (by simp)
      | sent f bytes ht hf =>
        cases hof
        rw [reach_hand hr hd] at hf
        cases hf
      | frameEnd | sentClose | unsent | writerBreak =>
        cases hof
        exact .inr (by simp [stopWriter, setTodo])
      | receive bytes _ _ hw _ hrec =>
        cases hof
        cases hrec with
        | more => exact absurd ((ofReading hw).1.symm.trans hd) (by simp)
        | _ => exact .inr (by simp [stopReader, setTodo])
      | readerBreak | idleTimeout =>
        cases hof
        exact .inr (by simp [stopReader, setTodo])
      | cleanup =>
        cases hof
        cases hd
      | work owner =>
        cases hof
        obtain ⟨op, ops, ht, ht', hends, hdone, -⟩ := work_cases ha
        rcases ih (hdone.symm.trans hd) with hold | hmem
        · exact .inl (hshut hold)
        · rw [ht] at hmem
          rcases List.mem_cons.mp hmem with rfl | hmem
          · left
            exact (congrArg (fun t => t.2.2.1) hends).trans e.shared.markClosed_ended.2.2
          · rw [ht']
            exact .inr (List.mem_append_right _ hmem)
      | _ => cases hof
    · rw [done_of_other a ha task hof] at hd
      rw [todo_of_step a ha task hof]
      exact (ih hd).imp_left hshut

/-- After the end of a connection the steps of other tasks leave a task what it has left. -/
theorem left_of_other (a : Act) (h : e.step a = some (e', evs)) (task : Task) (ha : ofTask a ≠ some task) :
    e'.left task = e.left task := by
  simp only [left, todo_of_step a h task ha, done_of_other a h task ha]

/-- Once `mark_closed` has run, `next_frame` returns at once. -/
theorem nextFrame_finished (hr : (machine l isClient).Reach e log) (hs : e.shared.cleanupStarted = true)
    (order : List Nat) : (e.shared.nextFrame order).2 = .finished := by
  have hshut := reach_shut hr hs
  have hclosing : e.shared.queues.closing = true := hshut.closing
  have hgraceful : e.shared.queues.gracefulClose = false := hshut.graceful
  have htake : e.shared.queues.takeCloseFrame = (e.shared.queues, none) := by
    have hframe : e.shared.queues.closeFrame = none := hshut.frame
    simp [WriterQueues.takeCloseFrame, hframe]
  simp [Shared.nextFrame, hclosing, hgraceful, Shared.closeTurn, htake]

theorem turn_stops (hr : (machine l isClient).Reach e log) (hs : e.shared.cleanupStarted = true) {order : List Nat}
    (h : e.step (.nextFrame order) = some (e', evs)) : e'.WriterStops := by
  have hnext := nextFrame_finished hr hs order
  cases step_cases h with
  | frame _ s f hw hp hn =>
    rw [hn] at hnext
    cases hnext
  | frameEnd => exact stopWriter_stops _
  | frameWait _ s turn hw hp hn ht =>
    rw [hn] at hnext
    rcases ht with rfl | rfl <;> cases hnext

/-- After the end of a connection each step of a task is one less. -/
theorem left_of_task (hr : (machine l isClient).Reach e log) (ht : e.shared.terminated = true) (a : Act)
    (h : e.step a = some (e', evs)) (task : Task) (ha : ofTask a = some task)
    (hs : task = .writer → e.shared.cleanupStarted = true) : e'.left task < e.left task := by
  have hwriter : e'.WriterStops → e.writerDone = false → e'.left .writer < e.left .writer := by
    intro hstop hrun
    simp [left, done, hstop.done, hstop.todo, hrun, TaskOp.weights, TaskOp.weight]
  have hreader : e.readerDone = false → (e.stopReader []).left .reader < e.left .reader := by
    intro hrun
    simp [left, done, stopReader, setTodo, hrun, TaskOp.weights, TaskOp.weight]
  have hopen : e.shared.terminated ≠ false := by simp [ht]
  cases step_cases h with
  | frame | frameEnd | frameWait =>
    cases ha
    exact hwriter (turn_stops hr (hs rfl) h) (ofWriting (turn_cases h).1).1
  | sent f bytes hterm => exact absurd hterm hopen
  | sentClose code reason bytes hterm => exact absurd hterm hopen
  | unsent f hterm => exact absurd hterm hopen
  | writerBreak f hf =>
    cases ha
    refine hwriter (stopWriter_stops e) ?_
    by_contra hdone
    rw [reach_hand hr (Bool.eq_true_of_not_eq_false hdone)] at hf
    cases hf
  | receive bytes _ _ _ hterm => exact absurd hterm hopen
  | idleTimeout _ hterm => exact absurd hterm hopen
  | readerBreak hreading =>
    cases ha
    exact hreader (ofReading hreading).1
  | cleanup order hterm => exact absurd hterm hopen
  | work owner =>
    cases ha
    obtain ⟨op, ops, htodo, htodo', -, hdone, -⟩ := work_cases h
    have hw := e.shared.runOp_weight op
    simp only [left, htodo, htodo', hdone, TaskOp.weights, List.map_append, List.sum_append, List.map_cons,
      List.sum_cons] at hw ⊢
    omega
  | _ => cases ha

end Endpoint
end Muxtls
