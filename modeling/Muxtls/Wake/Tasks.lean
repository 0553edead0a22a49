import Muxtls.Connection.Endpoint

namespace Muxtls
namespace Endpoint

variable {e e' : Endpoint} {evs : List Event}

/-- Where the connection tasks stand. -/
def tasks (e : Endpoint) : Option Frame × Bool × Bool × (Task → List TaskOp) :=
  (e.hand, e.readerDone, e.writerDone, e.todo)

/-- The steps of the reader, of the writer and of the cleanup worker. -/
def ofTask : Act → Option Task
  | .nextFrame _ => some .writer
  | .send => some .writer
  | .writerBreak => some .writer
  | .receive _ => some .reader
  | .readerBreak => some .reader
  | .idleTimeout => some .reader
  | .cleanup _ => some .cleanup
  | .work task => some task
  | _ => none

theorem read_tasks (mode id : Nat) (poll : Inbox → Inbox × Inbox.ReadOutcome) :
    (e.read mode id poll).1.tasks = e.tasks := by
  unfold read
  split <;> rfl

/-- A call or a timer moves no task. -/
theorem tasks_of_step (a : Act) (h : e.step a = some (e', evs)) (ha : ofTask a = none) : e'.tasks = e.tasks := by
  cases step_cases h with
  | readChunk id => exact read_tasks 1 id _
  | pollRead id room => exact read_tasks 2 id _
  | frame | frameEnd | frameWait | sent | sentClose | unsent | writerBreak => cases ha
  | receive | readerBreak | idleTimeout | cleanup | work => cases ha
  | _ => rfl

/-- A step of a task leaves the work of the other tasks alone. -/
theorem todo_of_step (a : Act) (h : e.step a = some (e', evs)) (task : Task) (ha : ofTask a ≠ some task) :
    e'.todo task = e.todo task := by
  cases hof : ofTask a with
  | none => exact congrFun (congrArg (fun t => t.2.2.2) (tasks_of_step a h hof)) task
  | some owner =>
    have hne : task ≠ owner := by
      rintro rfl
      exact ha hof
    cases step_cases h with
    | frame | frameWait => rfl
    | receive bytes e' evs hr ht hitem =>
      cases hof
      cases hitem <;> exact Function.update_of_ne hne _ _
    | _ => cases hof <;> exact Function.update_of_ne hne _ _

theorem hand_of_other (a : Act) (h : e.step a = some (e', evs)) (ha : ofTask a ≠ some .writer) :
    e'.hand = e.hand ∧ e'.writerDone = e.writerDone := by
  have hread : ∀ mode id poll,
      (e.read mode id poll).1.hand = e.hand ∧ (e.read mode id poll).1.writerDone = e.writerDone := by
    intro mode id poll
    have ht := e.read_tasks mode id poll
    exact ⟨congrArg (fun t => t.1) ht, congrArg (fun t => t.2.2.1) ht⟩
  cases step_cases h with
  | readChunk id => exact hread 1 id _
  | pollRead id room => exact hread 2 id _
  | receive bytes e' evs hr ht hitem => cases hitem <;> exact ⟨rfl, rfl⟩
  | frame | frameEnd | frameWait | sent | sentClose | unsent | writerBreak => exact absurd rfl ha
  | _ => exact ⟨rfl, rfl⟩

end Endpoint
end Muxtls
