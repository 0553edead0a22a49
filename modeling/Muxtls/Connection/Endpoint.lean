import Muxtls.Connection.Shared
import Muxtls.Lib.Machine

namespace Muxtls

/-- The connection tasks that work through `TaskOp`s. -/
inductive Task where
  | reader
  | writer
  | cleanup
deriving DecidableEq

/-- Before which of its steps a task holds the state of a stream: the reader since it looked the stream up
for the frame it handles, the cleanup worker since its snapshot, and any task between the two halves of
`try_retire_stream`. The writer looks the stream up anew for its other steps. -/
def TaskOp.owns (task : Task) (id : Nat) (op : TaskOp) : Bool :=
  match op with
  | .remove j => j == id
  | op => task != .writer && op.stream == some id

/-- What a run logs. -/
inductive Event where
  /-- `next_frame` returned the frame -/
  | emitted (f : Frame)
  /-- the frame was handed to the transport -/
  | sent (f : Frame)
  /-- `handle_incoming_frame` returned `Ok` for the frame -/
  | accepted (f : Frame)
  | rejected (error : Error)
  /-- `queue_stream_chunk` enqueued the chunk -/
  | queued (id : Nat) (payload : Bytes) (fin : Bool)
  /-- `reset_stream` returned `Ok` -/
  | resetOk (id : Nat)
  /-- the cleanup worker queued STOP_SENDING -/
  | stopQueued (id : Nat)
  /-- a read returned the bytes -/
  | handed (id : Nat) (data : Bytes)
  /-- a read reported the end of the stream -/
  | ended (id : Nat)
  /-- `initiate_close` published a close; its reason was asked for and then fitted -/
  | closing (errorCode : Nat) (reason fitted : String)
deriving DecidableEq

/-- A connection with its tasks. `opening` is an `open_bi` call that holds `open_lock` and an
admission permit, and `hand` is the frame the writer task is sending. -/
structure Endpoint where
  shared : Shared
  opening : Bool := false
  hand : Option Frame := none
  readerDone : Bool := false
  writerDone : Bool := false
  todo : Task → List TaskOp := fun _ => []

/-- What can happen at an endpoint: a step of an application call, of a task, or of a timer. -/
inductive Act where
  | openStart
  | openFinish
  | openCancel
  | accept
  | write (mode id : Nat) (payload : Bytes) (fin : Bool)
  | acquire (id : Nat)
  | enqueue (id : Nat)
  | finish (id : Nat)
  | cancel (id : Nat)
  | reset (id errorCode : Nat)
  | readChunk (id : Nat)
  | pollRead (id room : Nat)
  | dropSend (id : Nat)
  | dropRecv (id : Nat)
  | close (reason : String)
  | lastHandleDropped
  | abort
  | keepalive
  | drainExpired
  | cleanup (order : List Nat)
  | nextFrame (order : List Nat)
  | send
  | writerBreak
  | receive (bytes : Bytes)
  | readerBreak
  | idleTimeout
  | work (task : Task)

namespace Shared

def setLife (s : Shared) (id : Nat) (life : StreamLife) : Shared :=
  { s with life := Function.update s.life id life }

/-- What a read returns is logged; a failed or pending one logs nothing. -/
def readEvents (id : Nat) : Inbox.ReadOutcome → List Event
  | .bytes data => [.handed id data]
  | .ended => [.ended id]
  | _ => []

/-- The log entry of an `initiate_close` call: it publishes nothing on a closed connection. -/
def closingEvents (s : Shared) (errorCode : Nat) (reason : String) : List Event :=
  if s.closed then []
  else
    match s.limits.fitCloseReason errorCode reason with
    | .ok fitted => [.closing errorCode reason fitted]
    | .error _ => []

def resetEvents (s : Shared) (id errorCode : Nat) : List Event :=
  match (s.resetStream id errorCode).2 with
  | .ok () => [.resetOk id]
  | .error _ => []

/-- The log of a `TaskOp`. -/
def opEvents (s : Shared) : TaskOp → List Event
  | .cleanSend id =>
    if (s.life id).sendDropped && !(s.send id).sendTerminal then s.resetEvents id 0 else []
  | .stopSending id =>
    if (s.enqueueControl (.stopSending (.expect id))).2 then [.stopQueued id] else []
  | .failClose reason => s.closingEvents 1 reason
  | _ => []

/-- The log of an accepted frame; STOP_SENDING for a stream in the map calls `reset_stream`. -/
def acceptedEvents (s : Shared) (f : Frame) : List Event :=
  match f with
  | .stopSending streamId =>
    if streamId.intoInner ∈ s.streams then [.accepted f, .resetOk streamId.intoInner] else [.accepted f]
  | f => [.accepted f]

end Shared

def Event.emittedFrame : Event → Option Frame
  | .emitted f => some f
  | _ => none

def Event.acceptedFrame : Event → Option Frame
  | .accepted f => some f
  | _ => none

/-- The frames `next_frame` returned, in order. -/
def emitted (log : List Event) : List Frame := log.filterMap Event.emittedFrame

/-- The frames `handle_incoming_frame` accepted, in order. -/
def accepted (log : List Event) : List Frame := log.filterMap Event.acceptedFrame

@[simp] theorem emitted_append (log log' : List Event) : emitted (log ++ log') = emitted log ++ emitted log' :=
  List.filterMap_append

@[simp] theorem accepted_append (log log' : List Event) :
    accepted (log ++ log') = accepted log ++ accepted log' :=
  List.filterMap_append

/-- The bytes a sent frame puts on the transport. -/
def Frame.wire (f : Frame) : Bytes :=
  match f.encode [] with
  | .ok bytes => bytes
  | .error _ => []

/-- What the writer task does after a terminal frame was sent. -/
def Frame.terminalOps : Frame → List TaskOp
  | .stream streamId true _ => [.complete streamId.intoInner, .retire streamId.intoInner]
  | .resetStream streamId _ => [.complete streamId.intoInner, .retire streamId.intoInner]
  | _ => []

namespace Endpoint

/-- `Connection::new`. -/
def connect (limits : Limits) (isClient : Bool) : Except Error Endpoint :=
  match limits.validate with
  | .error error => .error error
  | .ok () => .ok { shared := .new limits isClient }

theorem connect_ok {limits : Limits} {isClient : Bool} {e : Endpoint} (h : connect limits isClient = .ok e) :
    limits.validate = .ok () ∧ e = { shared := .new limits isClient } := by
  unfold connect at h
  split at h
  · cases h
  · cases h
    exact ⟨by assumption, rfl⟩

def setTodo (e : Endpoint) (task : Task) (ops : List TaskOp) : Endpoint :=
  { e with todo := Function.update e.todo task ops }

/-- The reader leaves its loop: after `ops` it runs `mark_closed`. -/
def stopReader (e : Endpoint) (ops : List TaskOp) : Endpoint :=
  { e with readerDone := true }.setTodo .reader (ops ++ [TaskOp.markClosed])

/-- The writer leaves its loop and runs `mark_closed`. -/
def stopWriter (e : Endpoint) : Endpoint :=
  { e with writerDone := true, hand := none }.setTodo .writer [.markClosed]

/-- The reader task is at its `select!`. -/
def reading (e : Endpoint) : Bool := !e.readerDone && (e.todo .reader).isEmpty

/-- The writer task is at its `next_frame`. -/
def writing (e : Endpoint) : Bool := !e.writerDone && e.hand.isNone && (e.todo .writer).isEmpty

theorem ofReading {e : Endpoint} (h : e.reading = true) : e.readerDone = false ∧ e.todo .reader = [] := by
  simpa [reading] using h

theorem ofWriting {e : Endpoint} (h : e.writing = true) :
    e.writerDone = false ∧ e.hand = none ∧ e.todo .writer = [] := by
  simpa [writing, and_assoc] using h

/-- What the reader does with one item of the transport; the codec refuses an oversized one. -/
def receive (e : Endpoint) (bytes : Bytes) : Endpoint × List Event :=
  if bytes.length > e.shared.limits.maxFrameSize then (e.stopReader [], [])
  else
    match e.shared.handleIncomingFrame bytes with
    | (s, .error error) =>
      ({ e with shared := s }.stopReader [.failClose ("protocol/runtime error: " ++ error.display)],
        [.rejected error])
    | (s, .ok handled) =>
      let events :=
        match Frame.decode bytes with
        | .ok (f, _) => e.shared.acceptedEvents f
        | .error _ => []
      match handled with
      | .more todo => ({ e with shared := s }.setTodo .reader todo, events)
      | .stop => ({ e with shared := s }.stopReader [], events)

/-- The ways `receive` can end: the item is no frame, or its frame is refused or accepted. -/
inductive Receives (e : Endpoint) (bytes : Bytes) : Endpoint × List Event → Prop
  | dropped (log : List Event) (ops : List TaskOp) (hlog : log = [] ∨ ∃ error, log = [.rejected error])
    (hops : ops = [] ∨ ∃ reason, ops = [.failClose reason])
    (h : bytes.length > e.shared.limits.maxFrameSize ∨ ∃ error, Frame.decode bytes = .error error) :
    Receives e bytes (e.stopReader ops, log)
  | refused (f : Frame) (rest : Bytes) (s : Shared) (error : Error) (reason : String)
    (hf : Frame.decode bytes = .ok (f, rest)) (h : e.shared.handleFrame f = (s, .error error))
    (hlen : bytes.length ≤ e.shared.limits.maxFrameSize) :
    Receives e bytes ({ e with shared := s }.stopReader [.failClose reason], [.rejected error])
  | more (f : Frame) (rest : Bytes) (s : Shared) (todo : List TaskOp)
    (hf : Frame.decode bytes = .ok (f, rest)) (h : e.shared.handleFrame f = (s, .ok (.more todo)))
    (hlen : bytes.length ≤ e.shared.limits.maxFrameSize) :
    Receives e bytes ({ e with shared := s }.setTodo .reader todo, e.shared.acceptedEvents f)
  | stop (f : Frame) (rest : Bytes) (s : Shared) (hf : Frame.decode bytes = .ok (f, rest))
    (h : e.shared.handleFrame f = (s, .ok .stop)) (hlen : bytes.length ≤ e.shared.limits.maxFrameSize) :
    Receives e bytes ({ e with shared := s }.stopReader [], e.shared.acceptedEvents f)

theorem receive_cases (e : Endpoint) (bytes : Bytes) : e.Receives bytes (e.receive bytes) := by
  unfold receive
  by_cases hlen : bytes.length > e.shared.limits.maxFrameSize
  · rw [if_pos hlen]
    exact .dropped [] [] (.inl rfl) (.inl rfl) (.inl hlen)
  rw [if_neg hlen]
  have hle := Nat.le_of_not_gt hlen
  unfold Shared.handleIncomingFrame
  cases hdec : Frame.decode bytes with
  | error error => exact .dropped _ _ (.inr ⟨_, rfl⟩) (.inr ⟨_, rfl⟩) (.inr ⟨error, hdec⟩)
  | ok p =>
    obtain ⟨f, rest⟩ := p
    simp only
    cases hh : e.shared.handleFrame f with
    | mk s r =>
      cases r with
      | error error => exact .refused f rest s error _ hdec hh hle
      | ok handled =>
        cases handled with
        | more todo => exact .more f rest s todo hdec hh hle
        | stop => exact .stop f rest s hdec hh hle

/-- The connection is left alone, or handles the frame. -/
theorem Receives.shared_cases {e e' : Endpoint} {bytes : Bytes} {evs : List Event} (h : e.Receives bytes (e', evs)) :
    e'.shared = e.shared ∨ ∃ f rest, bytes.length ≤ e.shared.limits.maxFrameSize ∧
      Frame.decode bytes = .ok (f, rest) ∧ e'.shared = (e.shared.handleFrame f).1 := by
  cases h with
  | dropped => exact .inl rfl
  | refused f rest s error reason hf hh hlen => exact .inr ⟨f, rest, hlen, hf, by rw [hh]; rfl⟩
  | more f rest s todo hf hh hlen => exact .inr ⟨f, rest, hlen, hf, by rw [hh]; rfl⟩
  | stop f rest s hf hh hlen => exact .inr ⟨f, rest, hlen, hf, by rw [hh]; rfl⟩

/-- What the writer does with the frame in its hand; the codec refuses an oversized one. -/
def transmit (e : Endpoint) (f : Frame) : Endpoint × List Event :=
  match f.encode [] with
  | .error _ => (e.stopWriter, [])
  | .ok bytes =>
    if bytes.length > e.shared.limits.maxFrameSize then (e.stopWriter, [])
    else
      match f with
      | .connectionClose _ _ => (e.stopWriter, [.sent f])
      | f => ({ e with hand := none }.setTodo .writer f.terminalOps, [.sent f])

/-- One `next_frame` turn of the writer task. -/
def takeFrame (e : Endpoint) (order : List Nat) : Endpoint × List Event :=
  match e.shared.nextFrame order with
  | (s, .frame f) => ({ e with shared := s, hand := some f }, [.emitted f])
  | (s, .finished) => ({ e with shared := s }.stopWriter, [])
  | (s, .panicked _) => ({ e with shared := s }.stopWriter, [])
  | (s, .again) => ({ e with shared := s }, [])
  | (s, .wait) => ({ e with shared := s }, [])

/-- A read through the API of mode `mode`. -/
def read (e : Endpoint) (mode id : Nat) (poll : Inbox → Inbox × Inbox.ReadOutcome) :
    Endpoint × List Event :=
  match Shared.selectMode (e.shared.life id).recvMode mode with
  | .error _ => (e, [])
  | .ok recvMode =>
    let s := e.shared.setLife id { e.shared.life id with recvMode }
    let (inbox, outcome) := poll s.inbox
    ({ e with shared := { s with inbox } }, Shared.readEvents id outcome)

/-- Nothing but a `RecvStream` can own the state of a stream: its `SendStream` is dropped, the map does
not hold it, and no task is working on it. -/
def unowned (e : Endpoint) (id : Nat) : Bool :=
  (e.shared.life id).sendHandles == 0 && decide (id ∉ e.shared.streams) &&
    [Task.reader, .writer, .cleanup].all fun task => (e.todo task).all fun op => !op.owns task id

/-- The `RecvStream` is dropped as well. -/
def orphaned (e : Endpoint) (id : Nat) : Bool :=
  ((e.shared.life id).recvDropped || (e.shared.inbox.recv id).recvDiscarded) && e.unowned id

/-- What the drop of a `StreamState` with its last owner leaves: the chunks nobody has read go with it. -/
def remains (e : Endpoint) (id : Nat) : Inbox :=
  if e.orphaned id then e.shared.inbox.clearChunks id else e.shared.inbox

def free (e : Endpoint) (id : Nat) : Endpoint := { e with shared := { e.shared with inbox := e.remains id } }

/-- A task may let go of the state with a step about the stream. -/
def freeAfter (e : Endpoint) (op : TaskOp) : Endpoint :=
  { e with
    shared :=
      { e.shared with
        inbox :=
          match op.stream with
          | some id => e.remains id
          | none => e.shared.inbox } }

/-- A step of the endpoint, or `none` when the action is not possible. -/
def step (e : Endpoint) : Act → Option (Endpoint × List Event)
  | .openStart =>
    if e.opening || e.shared.closed then none
    else (e.shared.openStreams.tryAcquire 1).map fun openStreams =>
      ({ e with shared := { e.shared with openStreams }, opening := true }, [])
  | .openFinish =>
    if e.opening then some ({ e with shared := e.shared.openBi.1, opening := false }, []) else none
  | .openCancel =>
    if e.opening then
      some ({ e with
              shared := { e.shared with openStreams := e.shared.openStreams.release 1 }
              opening := false }, [])
    else none
  | .accept => some ({ e with shared := e.shared.acceptBi.1 }, [])
  | .write mode id payload fin =>
    if (e.shared.life id).sendHandles = 0 then none
    else
      match Shared.selectMode (e.shared.life id).sendMode mode with
      | .error _ => some (e, [])
      | .ok sendMode =>
        ((e.shared.setLife id { e.shared.life id with sendMode }).startWrite id payload fin).map
          fun r => ({ e with shared := r.1 }, [])
  | .acquire id => (e.shared.acquireWrite id).map fun s => ({ e with shared := s }, [])
  | .enqueue id =>
    match e.shared.enqueueWrite id with
    | none => none
    | some (s, .ok w) => some ({ e with shared := s }, [.queued id w.payload w.fin])
    | some (s, .error _) => some ({ e with shared := s }, [])
  | .finish id => (e.shared.finishWrite id).map fun s => ({ e with shared := s }, [])
  | .cancel id =>
    if ((e.shared.send id).pending.map (·.stage)) = some .enqueued then none
    else some ({ e with shared := e.shared.cancelWrite id }, [])
  | .reset id errorCode =>
    if (e.shared.life id).sendHandles = 0 then none
    else some ({ e with shared := (e.shared.resetStream id errorCode).1 }, e.shared.resetEvents id errorCode)
  | .readChunk id =>
    if (e.shared.life id).recvHandles = 0 then none else some (e.read 1 id fun b => b.readWhole id)
  | .pollRead id room =>
    if (e.shared.life id).recvHandles = 0 then none else some (e.read 2 id fun b => b.pollRead id room)
  | .dropSend id =>
    let life := e.shared.life id
    if life.sendHandles = 0 ∨ ((e.shared.send id).pending.map (·.stage)) = some .enqueued then none
    else
      -- the futures a handle owns are dropped with it
      some ({ e with
              shared := (e.shared.cancelWrite id).setLife id
                { life with
                  sendHandles := life.sendHandles - 1
                  sendDropped := life.sendDropped || life.sendHandles == 1 } }.free id, [])
  | .dropRecv id =>
    let life := e.shared.life id
    if life.recvHandles = 0 then none
    else
      some ({ e with
              shared := { e.shared with inbox := e.shared.inbox.dropRemainder id }.setLife id
                { life with
                  recvHandles := life.recvHandles - 1
                  recvDropped := life.recvDropped || life.recvHandles == 1 } }.free id, [])
  | .close reason =>
    match e.shared.close reason with
    | (_, .error _) => some (e, [])
    | (s, .ok ()) => some ({ e with shared := s }, e.shared.closingEvents 0 reason)
  | .lastHandleDropped =>
    let reason := "last connection handle dropped"
    if e.shared.closed then none
    else some ({ e with shared := (e.shared.initiateClose 0 reason).1 }, e.shared.closingEvents 0 reason)
  | .abort => some ({ e with shared := e.shared.abort }, [])
  | .keepalive =>
    if e.shared.closed then none
    else
      match e.shared.enqueueControl .ping with
      | (s, true) => some ({ e with shared := s }, [])
      | (s, false) => some ({ e with shared := if s.closed then s else s.markClosed }, [])
  | .drainExpired =>
    if e.shared.closed then some ({ e with shared := e.shared.markClosed }, []) else none
  | .cleanup order =>
    if e.shared.terminated || !(e.todo .cleanup).isEmpty || !order.isPerm e.shared.streams then none
    else some (e.setTodo .cleanup (order.flatMap fun id => [.cleanSend id, .cleanRecv id]), [])
  | .nextFrame order =>
    if e.writing && order.isPerm e.shared.queues.receiveWindows then some (e.takeFrame order) else none
  | .send =>
    if e.shared.terminated then none else e.hand.map e.transmit
  | .writerBreak => e.hand.map fun _ => (e.stopWriter, [])
  | .receive bytes =>
    if e.reading && !e.shared.terminated then some (e.receive bytes) else none
  | .readerBreak => if e.reading then some (e.stopReader [], []) else none
  | .idleTimeout =>
    if e.reading && !e.shared.terminated then
      some (e.stopReader [.failClose "connection idle timeout elapsed"], [])
    else none
  | .work task =>
    match e.todo task with
    | [] => none
    | op :: ops =>
      let (s, more) := e.shared.runOp op
      some (({ e with shared := s }.setTodo task (more ++ ops)).freeAfter op, e.shared.opEvents op)

/-- What each action does where it is possible. -/
inductive Step (e : Endpoint) : Act → Endpoint → List Event → Prop
  | openStart (openStreams : Semaphore) (ho : e.opening = false) (hc : e.shared.closed = false)
    (h : e.shared.openStreams.tryAcquire 1 = some openStreams) :
    Step e .openStart { e with shared := { e.shared with openStreams }, opening := true } []
  | openFinish (ho : e.opening = true) :
    Step e .openFinish { e with shared := e.shared.openBi.1, opening := false } []
  | openCancel (ho : e.opening = true) :
    Step e .openCancel
      { e with shared := { e.shared with openStreams := e.shared.openStreams.release 1 }, opening := false } []
  | acceptNone : Step e .accept e []
  | accept (id : Nat) (incoming : List Nat) (hc : e.shared.closed = false)
    (hin : e.shared.incomingStreams = id :: incoming) :
    Step e .accept
      { e with
        shared := { e.shared with
          incomingStreams := incoming
          life := Function.update e.shared.life id
            { e.shared.life id with
              sendHandles := (e.shared.life id).sendHandles + 1
              recvHandles := (e.shared.life id).recvHandles + 1 } } } []
  | writeRefused (mode id : Nat) (payload : Bytes) (fin : Bool) (error : Error)
    (hh : (e.shared.life id).sendHandles ≠ 0)
    (hm : Shared.selectMode (e.shared.life id).sendMode mode = .error error) :
    Step e (.write mode id payload fin) e []
  | write (mode id : Nat) (payload : Bytes) (fin : Bool) (sendMode : Nat)
    (r : Shared × Except Error Unit)
    (hh : (e.shared.life id).sendHandles ≠ 0)
    (hm : Shared.selectMode (e.shared.life id).sendMode mode = .ok sendMode)
    (h : (e.shared.setLife id { e.shared.life id with sendMode }).startWrite id payload fin = some r) :
    Step e (.write mode id payload fin) { e with shared := r.1 } []
  | acquire (id : Nat) (s : Shared) (h : e.shared.acquireWrite id = some s) :
    Step e (.acquire id) { e with shared := s } []
  | enqueue (id : Nat) (s : Shared) (w : PendingWrite) (h : e.shared.enqueueWrite id = some (s, .ok w)) :
    Step e (.enqueue id) { e with shared := s } [.queued id w.payload w.fin]
  | enqueueFailed (id : Nat) (s : Shared) (error : Error) (h : e.shared.enqueueWrite id = some (s, .error error)) :
    Step e (.enqueue id) { e with shared := s } []
  | finish (id : Nat) (s : Shared) (h : e.shared.finishWrite id = some s) :
    Step e (.finish id) { e with shared := s } []
  | cancel (id : Nat) (hp : (e.shared.send id).pending.map (·.stage) ≠ some .enqueued) :
    Step e (.cancel id) { e with shared := e.shared.cancelWrite id } []
  | reset (id errorCode : Nat) (hh : (e.shared.life id).sendHandles ≠ 0) :
    Step e (.reset id errorCode) { e with shared := (e.shared.resetStream id errorCode).1 }
      (e.shared.resetEvents id errorCode)
  | readChunk (id : Nat) (hh : (e.shared.life id).recvHandles ≠ 0) :
    Step e (.readChunk id) (e.read 1 id fun b => b.readWhole id).1 (e.read 1 id fun b => b.readWhole id).2
  | pollRead (id room : Nat) (hh : (e.shared.life id).recvHandles ≠ 0) :
    Step e (.pollRead id room) (e.read 2 id fun b => b.pollRead id room).1 (e.read 2 id fun b => b.pollRead id room).2
  | dropSend (id : Nat) (hh : (e.shared.life id).sendHandles ≠ 0)
    (hp : (e.shared.send id).pending.map (·.stage) ≠ some .enqueued) :
    Step e (.dropSend id)
      ({ e with
          shared := (e.shared.cancelWrite id).setLife id
            { e.shared.life id with
              sendHandles := (e.shared.life id).sendHandles - 1
              sendDropped := (e.shared.life id).sendDropped || (e.shared.life id).sendHandles == 1 } }.free id) []
  | dropRecv (id : Nat) (hh : (e.shared.life id).recvHandles ≠ 0) :
    Step e (.dropRecv id)
      ({ e with
          shared := { e.shared with inbox := e.shared.inbox.dropRemainder id }.setLife id
            { e.shared.life id with
              recvHandles := (e.shared.life id).recvHandles - 1
              recvDropped := (e.shared.life id).recvDropped || (e.shared.life id).recvHandles == 1 } }.free id) []
  | closeRefused (reason : String) (s : Shared) (error : Error) (h : e.shared.close reason = (s, .error error)) :
    Step e (.close reason) e []
  | close (reason : String) (s : Shared) (h : e.shared.close reason = (s, .ok ())) :
    Step e (.close reason) { e with shared := s } (e.shared.closingEvents 0 reason)
  | lastHandleDropped (hc : e.shared.closed = false) :
    Step e .lastHandleDropped { e with shared := (e.shared.initiateClose 0 "last connection handle dropped").1 }
      (e.shared.closingEvents 0 "last connection handle dropped")
  | abort : Step e .abort { e with shared := e.shared.abort } []
  | keepalive (s : Shared) (hc : e.shared.closed = false) (h : e.shared.enqueueControl .ping = (s, true)) :
    Step e .keepalive { e with shared := s } []
  | keepaliveRefused (s : Shared) (hc : e.shared.closed = false) (h : e.shared.enqueueControl .ping = (s, false)) :
    Step e .keepalive { e with shared := if s.closed then s else s.markClosed } []
  | drainExpired (hc : e.shared.closed = true) : Step e .drainExpired { e with shared := e.shared.markClosed } []
  | cleanup (order : List Nat) (ht : e.shared.terminated = false) (hi : e.todo .cleanup = [])
    (hp : order.Perm e.shared.streams) :
    Step e (.cleanup order) (e.setTodo .cleanup (order.flatMap fun id => [.cleanSend id, .cleanRecv id])) []
  | frame (order : List Nat) (s : Shared) (f : Frame) (hw : e.writing = true)
    (hp : order.Perm e.shared.queues.receiveWindows) (h : e.shared.nextFrame order = (s, .frame f)) :
    Step e (.nextFrame order) { e with shared := s, hand := some f } [.emitted f]
  | frameEnd (order : List Nat) (s : Shared) (turn : Shared.Turn) (hw : e.writing = true)
    (hp : order.Perm e.shared.queues.receiveWindows) (h : e.shared.nextFrame order = (s, turn))
    (ht : turn = .finished ∨ ∃ message, turn = .panicked message) :
    Step e (.nextFrame order) { e with shared := s }.stopWriter []
  | frameWait (order : List Nat) (s : Shared) (turn : Shared.Turn) (hw : e.writing = true)
    (hp : order.Perm e.shared.queues.receiveWindows) (h : e.shared.nextFrame order = (s, turn))
    (ht : turn = .again ∨ turn = .wait) :
    Step e (.nextFrame order) { e with shared := s } []
  | sent (f : Frame) (bytes : Bytes) (ht : e.shared.terminated = false) (hf : e.hand = some f)
    (hb : f.encode [] = .ok bytes) (hlen : bytes.length ≤ e.shared.limits.maxFrameSize)
    (hn : ∀ code reason, f ≠ .connectionClose code reason) :
    Step e .send ({ e with hand := none }.setTodo .writer f.terminalOps) [.sent f]
  | sentClose (code : ErrorCode) (reason : String) (bytes : Bytes) (ht : e.shared.terminated = false)
    (hf : e.hand = some (.connectionClose code reason)) (hb : (Frame.connectionClose code reason).encode [] = .ok bytes)
    (hlen : bytes.length ≤ e.shared.limits.maxFrameSize) :
    Step e .send e.stopWriter [.sent (.connectionClose code reason)]
  | unsent (f : Frame) (ht : e.shared.terminated = false) (hf : e.hand = some f)
    (hb : ∀ bytes, f.encode [] = .ok bytes → e.shared.limits.maxFrameSize < bytes.length) :
    Step e .send e.stopWriter []
  | writerBreak (f : Frame) (hf : e.hand = some f) : Step e .writerBreak e.stopWriter []
  | receive (bytes : Bytes) (e' : Endpoint) (evs : List Event) (hr : e.reading = true)
    (ht : e.shared.terminated = false) (h : e.Receives bytes (e', evs)) : Step e (.receive bytes) e' evs
  | readerBreak (hr : e.reading = true) : Step e .readerBreak (e.stopReader []) []
  | idleTimeout (hr : e.reading = true) (ht : e.shared.terminated = false) :
    Step e .idleTimeout (e.stopReader [.failClose "connection idle timeout elapsed"]) []
  | work (task : Task) (op : TaskOp) (ops : List TaskOp) (h : e.todo task = op :: ops) :
    Step e (.work task)
      (({ e with shared := (e.shared.runOp op).1 }.setTodo task ((e.shared.runOp op).2 ++ ops)).freeAfter op)
      (e.shared.opEvents op)

theorem takeFrame_cases (e : Endpoint) (order : List Nat) (hw : e.writing = true)
    (hp : order.Perm e.shared.queues.receiveWindows) :
    e.Step (.nextFrame order) (e.takeFrame order).1 (e.takeFrame order).2 := by
  unfold takeFrame
  cases hn : e.shared.nextFrame order with
  | mk s turn =>
    cases turn with
    | frame f => exact .frame order s f hw hp hn
    | finished => exact .frameEnd order s _ hw hp hn (.inl rfl)
    | panicked message => exact .frameEnd order s _ hw hp hn (.inr ⟨message, rfl⟩)
    | again => exact .frameWait order s _ hw hp hn (.inl rfl)
    | wait => exact .frameWait order s _ hw hp hn (.inr rfl)

theorem transmit_cases (e : Endpoint) (f : Frame) (ht : e.shared.terminated = false) (hf : e.hand = some f) :
    e.Step .send (e.transmit f).1 (e.transmit f).2 := by
  unfold transmit
  cases hb : f.encode [] with
  | error error => exact .unsent f ht hf fun bytes h => by rw [hb] at h; cases h
  | ok bytes =>
    simp only
    by_cases hlen : bytes.length > e.shared.limits.maxFrameSize
    · rw [if_pos hlen]
      refine .unsent f ht hf fun bytes' h => ?_
      cases hb.symm.trans h
      exact hlen
    · rw [if_neg hlen]
      cases f with
      | connectionClose code reason => exact .sentClose code reason bytes ht hf hb (Nat.le_of_not_gt hlen)
      | _ => exact .sent _ bytes ht hf hb (Nat.le_of_not_gt hlen) nofun

theorem step_cases {a : Act} {e e' : Endpoint} {evs : List Event} (h : e.step a = some (e', evs)) :
    e.Step a e' evs := by
  cases a with
  | openStart =>
    simp only [step] at h
    split_ifs at h with hg
    rw [Bool.or_eq_true, not_or, Bool.not_eq_true, Bool.not_eq_true] at hg
    obtain ⟨openStreams, hp, hr⟩ := Option.map_eq_some_iff.mp h
    cases hr
    exact .openStart openStreams hg.1 hg.2 hp
  | openFinish =>
    simp only [step] at h
    split_ifs at h with ho
    cases h
    exact .openFinish ho
  | openCancel =>
    simp only [step] at h
    split_ifs at h with ho
    cases h
    exact .openCancel ho
  | accept =>
    simp only [step, Shared.acceptBi] at h
    split_ifs at h with hc
    · cases h
      exact .acceptNone
    · split at h
      · cases h
        exact .acceptNone
      · rename_i id incoming hin
        cases h
        exact .accept id incoming (Bool.eq_false_of_not_eq_true hc) hin
  | write mode id payload fin =>
    simp only [step] at h
    split_ifs at h with hh
    split at h
    · rename_i error hm
      cases h
      exact .writeRefused mode id payload fin error hh hm
    · rename_i sendMode hm
      obtain ⟨r, hw, hr⟩ := Option.map_eq_some_iff.mp h
      cases hr
      exact .write mode id payload fin sendMode r hh hm hw
  | acquire id =>
    obtain ⟨s, hw, hr⟩ := Option.map_eq_some_iff.mp h
    cases hr
    exact .acquire id s hw
  | enqueue id =>
    simp only [step] at h
    split at h
    · cases h
    · rename_i s w hw
      cases h
      exact .enqueue id s w hw
    · rename_i s error hw
      cases h
      exact .enqueueFailed id s error hw
  | finish id =>
    obtain ⟨s, hw, hr⟩ := Option.map_eq_some_iff.mp h
    cases hr
    exact .finish id s hw
  | cancel id =>
    simp only [step] at h
    split_ifs at h with hp
    cases h
    exact .cancel id hp
  | reset id errorCode =>
    simp only [step] at h
    split_ifs at h with hh
    cases h
    exact .reset id errorCode hh
  | readChunk id =>
    simp only [step] at h
    split_ifs at h with hh
    have hs : e.Step (.readChunk id) _ _ := .readChunk id hh
    rw [Option.some.inj h] at hs
    exact hs
  | pollRead id room =>
    simp only [step] at h
    split_ifs at h with hh
    have hs : e.Step (.pollRead id room) _ _ := .pollRead id room hh
    rw [Option.some.inj h] at hs
    exact hs
  | dropSend id =>
    simp only [step] at h
    split_ifs at h with hg
    cases h
    exact .dropSend id (fun hh => hg (.inl hh)) fun hp => hg (.inr hp)
  | dropRecv id =>
    simp only [step] at h
    split_ifs at h with hh
    cases h
    exact .dropRecv id hh
  | close reason =>
    simp only [step] at h
    split at h
    · rename_i s error hc
      cases h
      exact .closeRefused reason s error hc
    · rename_i s hc
      cases h
      exact .close reason s hc
  | lastHandleDropped =>
    simp only [step] at h
    split_ifs at h with hc
    cases h
    exact .lastHandleDropped (Bool.eq_false_of_not_eq_true hc)
  | abort =>
    cases h
    exact .abort
  | keepalive =>
    simp only [step] at h
    split_ifs at h with hc
    have hclosed := Bool.eq_false_of_not_eq_true hc
    split at h
    · rename_i s hp
      cases h
      exact .keepalive s hclosed hp
    · rename_i s hp
      cases h
      exact .keepaliveRefused s hclosed hp
  | drainExpired =>
    simp only [step] at h
    split_ifs at h with hc
    cases h
    exact .drainExpired hc
  | cleanup order =>
    simp only [step] at h
    split_ifs at h with hg
    simp only [Bool.or_eq_true, not_or, Bool.not_eq_true, Bool.not_eq_true', Bool.not_eq_false, List.isEmpty_iff,
      List.isPerm_iff] at hg
    cases h
    exact .cleanup order hg.1.1 hg.1.2 hg.2
  | nextFrame order =>
    simp only [step] at h
    split_ifs at h with hg
    rw [Bool.and_eq_true, List.isPerm_iff] at hg
    have hs := e.takeFrame_cases order hg.1 hg.2
    rw [Option.some.inj h] at hs
    exact hs
  | send =>
    simp only [step] at h
    split_ifs at h with ht
    obtain ⟨f, hf, hr⟩ := Option.map_eq_some_iff.mp h
    have hs := e.transmit_cases f (Bool.eq_false_of_not_eq_true ht) hf
    rw [hr] at hs
    exact hs
  | writerBreak =>
    obtain ⟨f, hf, hr⟩ := Option.map_eq_some_iff.mp h
    cases hr
    exact .writerBreak f hf
  | receive bytes =>
    simp only [step] at h
    split_ifs at h with hg
    rw [Bool.and_eq_true, Bool.not_eq_true'] at hg
    have hr := e.receive_cases bytes
    rw [Option.some.inj h] at hr
    exact .receive bytes e' evs hg.1 hg.2 hr
  | readerBreak =>
    simp only [step] at h
    split_ifs at h with hr
    cases h
    exact .readerBreak hr
  | idleTimeout =>
    simp only [step] at h
    split_ifs at h with hg
    rw [Bool.and_eq_true, Bool.not_eq_true'] at hg
    cases h
    exact .idleTimeout hg.1 hg.2
  | work task =>
    simp only [step] at h
    split at h
    · cases h
    · rename_i op ops ht
      cases h
      exact .work task op ops ht

/-- What a turn of the writer task does to the shared state. -/
theorem nextFrame_inv {e e' : Endpoint} {evs : List Event} {order : List Nat}
    (h : e.step (.nextFrame order) = some (e', evs)) :
    order.Perm e.shared.queues.receiveWindows ∧ e'.shared = (e.shared.nextFrame order).1 ∧
      evs = match (e.shared.nextFrame order).2 with
        | .frame f => [.emitted f]
        | _ => [] := by
  cases step_cases h with
  | frame _ s f _ hp hn => exact ⟨hp, by rw [hn], by rw [hn]⟩
  | frameEnd _ s turn _ hp hn ht =>
    refine ⟨hp, congrArg Prod.fst hn.symm, ?_⟩
    rcases ht with rfl | ⟨message, rfl⟩ <;> rw [hn]
  | frameWait _ s turn _ hp hn ht =>
    refine ⟨hp, congrArg Prod.fst hn.symm, ?_⟩
    rcases ht with rfl | rfl <;> rw [hn]

/-- The runs of one endpoint, whatever its peer sends. -/
def machine (limits : Limits) (isClient : Bool) : Machine Endpoint Event :=
  .ofStep (fun e => connect limits isClient = .ok e) step

end Endpoint
end Muxtls
