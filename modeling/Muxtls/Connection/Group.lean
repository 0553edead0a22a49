import Muxtls.Connection.Notify

namespace Muxtls

/-- Where the deadline of the supervisor stands: in its loop, in its sleep of `drain_timeout`, or past it. -/
inductive Deadline where
  | watching
  | draining
  | expired
deriving DecidableEq

/-- A connection with its handles and the tasks `spawn_connection_tasks` starts. The flags `keepalive` and
`cleanupDone` say whether the keepalive task still runs and whether the cleanup worker has left its loop. -/
structure TaskGroup where
  endpoint : Endpoint
  connectionHandles : Nat := 1
  keepalive : Bool
  cleanupDone : Bool := false
  deadline : Deadline := .watching
  joined : Bool := false

/-- What can happen to a connection and its task group. -/
inductive GroupAct where
  /-- a call, a stream handle, or a step of the reader, the writer or the cleanup worker -/
  | act (a : Act)
  | clone
  | dropHandle
  /-- a task turns in `wait_terminated` -/
  | terminated (task : Task)
  /-- the `sink.close()` of the writer returns -/
  | sinkClosed
  /-- the ticker of the keepalive task ticks -/
  | tick
  /-- the keepalive task looks at `closed` -/
  | keepalive
  /-- the deadline turns in its loop -/
  | deadline
  /-- the `drain_timeout` is over -/
  | drain
  /-- the last task is joined -/
  | join
  /-- a call turns in `wait_closed` -/
  | waitClosed

namespace TaskGroup

/-- `Connection::new`; there is a keepalive task if there is an interval for it. -/
def connect (limits : Limits) (isClient keepalive : Bool) : Except Error TaskGroup :=
  (Endpoint.connect limits isClient).map fun endpoint => { endpoint, keepalive }

variable (g : TaskGroup)

/-- The writer has left its loop and closes the sink. -/
def closingSink : Bool := g.endpoint.writerDone && !(g.endpoint.todo .writer).isEmpty

/-- The task is at a `select!` with `wait_terminated`: the reader and the worker at the head of their loops, the writer
as it sends a frame and as it closes the sink. -/
def waiting : Task → Bool
  | .reader => g.endpoint.reading
  | .writer => g.endpoint.hand.isSome || g.closingSink
  | .cleanup => !g.cleanupDone && (g.endpoint.todo .cleanup).isEmpty

/-- Every task of the group has returned. -/
def exited : Bool :=
  g.endpoint.readerDone && (g.endpoint.todo .reader).isEmpty && g.endpoint.writerDone &&
    (g.endpoint.todo .writer).isEmpty && g.cleanupDone && !g.keepalive

/-- Whether an action is possible. The calls of a `Connection` need a handle, and what a timer, the supervisor or the
end of the sink does to the connection are actions of the group. -/
def ready : GroupAct → Bool
  | .act .openStart => g.connectionHandles ≠ 0
  | .act .accept => g.connectionHandles ≠ 0
  | .act (.close _) => g.connectionHandles ≠ 0
  | .act .abort => g.connectionHandles ≠ 0
  | .act .lastHandleDropped => false
  | .act .keepalive => false
  | .act .drainExpired => false
  | .act (.cleanup _) => !g.cleanupDone
  | .act (.work .writer) => !g.closingSink
  | .act _ => true
  | .clone => g.connectionHandles ≠ 0
  | .dropHandle => g.connectionHandles ≠ 0
  | .terminated task => g.waiting task
  | .sinkClosed => g.closingSink
  | .tick => g.keepalive
  | .keepalive => g.keepalive
  | .deadline => !g.joined && g.deadline = .watching
  | .drain => !g.joined && g.deadline = .draining
  | .join => !g.joined && g.exited
  | .waitClosed => g.connectionHandles ≠ 0

/-- What an action does to the connection. -/
def performs : GroupAct → Option Act
  | .act a => some a
  | .terminated task =>
    if g.endpoint.shared.terminated then
      match task with
      | .reader => some .readerBreak
      -- the `select!` of the send ends the loop, that of the close ends the task
      | .writer => if g.endpoint.hand.isSome then some .writerBreak else some (.work .writer)
      | .cleanup => none
    else none
  | .sinkClosed => some (.work .writer)
  | .tick => some .keepalive
  | .deadline =>
    if !g.endpoint.shared.closed && g.connectionHandles = 0 then some .lastHandleDropped else none
  | .drain => some .drainExpired
  | .join => some .drainExpired
  | _ => none

/-- What an action does to the handles and the tasks. -/
def moved : GroupAct → TaskGroup
  | .clone => { g with connectionHandles := g.connectionHandles + 1 }
  | .dropHandle => { g with connectionHandles := g.connectionHandles - 1 }
  | .terminated .cleanup => { g with cleanupDone := g.endpoint.shared.terminated }
  -- the task ends when its PING is refused
  | .tick => { g with keepalive := (g.endpoint.shared.enqueueControl .ping).2 }
  | .keepalive => { g with keepalive := !g.endpoint.shared.closed }
  | .deadline =>
    if g.endpoint.shared.closed || g.connectionHandles = 0 then { g with deadline := .draining } else g
  | .drain => { g with deadline := .expired }
  | .join => { g with joined := true }
  | _ => g

/-- A step of the group, or `none` when the action is not possible. -/
def step (g : TaskGroup) (a : GroupAct) : Option (TaskGroup × List Event) :=
  if g.ready a then
    match g.performs a with
    | none => some (g.moved a, [])
    | some b => (g.endpoint.step b).map fun r => ({ g.moved a with endpoint := r.1 }, r.2)
  else none

/-- The runs of one connection with its task group. -/
def machine (limits : Limits) (isClient keepalive : Bool) : Machine TaskGroup Event :=
  .ofStep (fun g => connect limits isClient keepalive = .ok g) step

end TaskGroup

/-- The loops that wait on a `Notify`. All but those of the connection itself wait on `close_notify`. -/
inductive GroupWaiter where
  | inner (i : Waiter)
  | terminated (task : Task)
  | keepalive
  | deadline
  | waitClosed
deriving DecidableEq

namespace TaskGroup

variable (g : TaskGroup)

/-- The notifications of the connection that an action sends. -/
def innerSignals (a : GroupAct) (i : Waiter) : List Signal :=
  match g.performs a with
  | none => []
  | some b => g.endpoint.signals b i

/-- The notifications of `close_notify` by the last drop of a handle and by the supervisor at its end. -/
def ownSignals : GroupAct → List Signal
  | .dropHandle => if g.connectionHandles = 1 then [.waiters] else []
  | .join => [.waiters]
  | _ => []

/-- The notifications of `close_notify`. A call of `accept_bi` waits on it and on `incoming_notify`, which is only
notified by `notify_one`. -/
def closeSignals (a : GroupAct) : List Signal :=
  (g.innerSignals a .accept).filter (fun s => s = .waiters) ++ g.ownSignals a

def signals (a : GroupAct) : GroupWaiter → List Signal
  | .inner .accept => g.innerSignals a .accept ++ g.ownSignals a
  | .inner i => g.innerSignals a i
  | _ => g.closeSignals a

def looks : GroupAct → Option GroupWaiter
  | .act a => (Endpoint.looks a).map .inner
  | .terminated task => some (.terminated task)
  | .keepalive => some .keepalive
  | .deadline => some .deadline
  | .waitClosed => some .waitClosed
  | _ => none

def found : GroupAct → Bool
  | .act a => g.endpoint.found a
  | .terminated _ => g.endpoint.shared.terminated
  | .keepalive => g.endpoint.shared.closed
  | .deadline => g.endpoint.shared.closed || g.connectionHandles = 0
  | .waitClosed => g.joined
  | _ => true

/-- The wait loops of a task group. A `select!` that ends another way drops its wait. -/
def waitLoops : WaitLoops TaskGroup GroupAct GroupWaiter where
  start
    | .inner i => Endpoint.waitLoops.start i
    | _ => {}
  looks := looks
  found := found
  idle
    | .inner i, g => Endpoint.waitLoops.idle i g.endpoint
    | .terminated task, g => g.waiting task
    | _, _ => true
  signals := signals
  dropped
    | .inner i => Endpoint.waitLoops.dropped i
    | .deadline => false
    | _ => true

/-- The runs of a task group in which a task that waits on a `Notify` takes no step before it is woken. -/
def watched (limits : Limits) (isClient keepalive : Bool) : Machine (Watched TaskGroup GroupWaiter) Event :=
  waitLoops.machine (fun g => connect limits isClient keepalive = .ok g) step

/-- The members of a task group. -/
inductive Member where
  | task (task : Task)
  | keepalive
  | supervisor
deriving DecidableEq

/-- The member that takes an action of its own accord; the others are up to the transport, the ticker and the
application. -/
def owner : WatchedAct GroupAct GroupWaiter → Option Member
  | .act (.act (.nextFrame _)) => some (.task .writer)
  | .act (.act (.work task)) => some (.task task)
  | .act (.terminated task) => some (.task task)
  | .act .keepalive => some .keepalive
  | .act .deadline => some .supervisor
  | .act .drain => some .supervisor
  | .act .join => some .supervisor
  | .poll (.inner .writer) => some (.task .writer)
  | .poll (.terminated task) => some (.task task)
  | .poll .keepalive => some .keepalive
  | .poll .deadline => some .supervisor
  | _ => none

end TaskGroup

/-- The awaits of `mark_closed`: the lock of the writer queues, that of the map, and those of the streams it has taken
out of the map, when it has marked some of them. -/
inductive CloseAwait where
  | queues
  | map
  | stream (marked : List Nat)
deriving DecidableEq

namespace Shared

variable (s : Shared)

/-- `mark_closed` before its first await. -/
def startCleanup : Shared :=
  { s with
    closed := true
    terminated := true
    cleanupStarted := true
    openStreams := s.openStreams.close
    budget := { s.budget with connBytes := s.budget.connBytes.close, frames := s.budget.frames.close }
    inbox := { s.inbox with inboundConnBytes := s.inbox.inboundConnBytes.close } }

/-- `mark_connection_closed`. -/
def markConnectionClosed (id : Nat) : Shared :=
  { s with
    budget :=
      { s.budget with
        streamBytes := Function.update s.budget.streamBytes id (s.budget.streamBytes id).close
        streamFrames := Function.update s.budget.streamFrames id (s.budget.streamFrames id).close }
    inbox := s.inbox.markConnectionClosed id }

/-- What a `mark_closed` that starts the cleanup has done when it comes to an await. -/
def cleanedUpTo : CloseAwait → Shared
  | .queues => s.startCleanup
  | .map => s.startCleanup.shutdown
  | .stream marked => marked.foldl markConnectionClosed { s.startCleanup.shutdown with streams := [] }

theorem foldl_markConnectionClosed (ids : List Nat) (s : Shared) :
    ids.foldl markConnectionClosed s =
      { s with
        budget :=
          { s.budget with
            streamBytes := fun id => if id ∈ ids then (s.budget.streamBytes id).close else s.budget.streamBytes id
            streamFrames := fun id =>
              if id ∈ ids then (s.budget.streamFrames id).close else s.budget.streamFrames id }
        inbox := ids.foldl Inbox.markConnectionClosed s.inbox } := by
  have hmark (f : Nat → Semaphore) (i : Nat) (ids : List Nat) :
      (fun id =>
        if id ∈ ids then (Function.update f i (f i).close id).close else Function.update f i (f i).close id) =
        fun id => if id ∈ i :: ids then (f id).close else f id := by
    funext id
    by_cases hi : id = i
    · subst hi
      simp [Semaphore.close]
    · simp [hi]
  induction ids generalizing s with
  | nil => simp
  | cons i ids ih =>
    rw [List.foldl_cons, ih]
    simp only [markConnectionClosed, hmark, List.foldl_cons]

/-- A call that is left at none of its awaits does what `markClosed` does in one step. -/
theorem markClosed_eq (h : s.cleanupStarted = false) : s.markClosed = s.cleanedUpTo (.stream s.streams) := by
  rw [cleanedUpTo, foldl_markConnectionClosed, markClosed, if_neg (by simp [h])]
  rfl

/-- `open_bi` has to close the connection. -/
def openCloses : Bool :=
  !s.closed && (s.queues.closing || s.queues.control.length ≥ s.limits.maxControlFrames)

end Shared

namespace TaskGroup

/-- The actions of a group in which a call of `mark_closed` may come to no end. Every later call finds
`cleanup_started` set and returns at once. -/
inductive CloseAct where
  | act (b : WatchedAct GroupAct GroupWaiter)
  /-- an `open_bi` is dropped inside its `mark_closed` -/
  | dropOpen (await : CloseAwait)
  /-- the deadline waits inside its `mark_closed` and is not polled again, since the last task returns before -/
  | dropDeadline (await : CloseAwait)

/-- The notifications of a call that is left. -/
def leftSignals : CloseAwait → GroupWaiter → List Signal
  | _, .inner .cleanup => []
  | .queues, .inner .writer => []
  | _, .inner .writer => [.waiters]
  | .stream marked, .inner (.read id) => if id ∈ marked then [.waiters] else []
  | _, .inner (.read _) => []
  | .queues, _ => [.waiters]
  | _, _ => [.waiters, .waiters]

/-- A group at whose endpoint a call of `mark_closed` was left. -/
def leave (w : Watched TaskGroup GroupWaiter) (g : TaskGroup) (await : CloseAwait) : Watched TaskGroup GroupWaiter :=
  ⟨g, fun i => (leftSignals await i).foldl Notify.signal (w.notify i)⟩

/-- A step of a group in which calls of `mark_closed` may be left at their awaits. -/
def closeStep (w : Watched TaskGroup GroupWaiter) : CloseAct → Option (Watched TaskGroup GroupWaiter × List Event)
  | .act b => waitLoops.step step w b
  | .dropOpen await =>
    let e := w.state.endpoint
    if e.opening && e.shared.openCloses then
      let s := e.shared.cleanedUpTo await
      let shared := { s with openStreams := s.openStreams.release 1 }
      some (leave w { w.state with endpoint := { e with shared, opening := false } } await, [])
    else none
  | .dropDeadline await =>
    let e := w.state.endpoint
    if !w.state.joined && w.state.deadline = .draining && !e.shared.cleanupStarted then
      let endpoint := { e with shared := e.shared.cleanedUpTo await }
      some (leave w { w.state with endpoint, deadline := .expired } await, [])
    else none

end TaskGroup
end Muxtls
