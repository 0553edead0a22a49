import Muxtls.Connection.Endpoint
import Muxtls.Lib.Notify

namespace Muxtls

/-- The loops of a connection that wait on a `Notify`: the writer task in `next_frame`, the cleanup worker, a call of
`accept_bi`, and the read of each stream. Both kinds of call are taken to be made one at a time: they share a `Notify`
that keeps one permit, and of two waiting calls one could sleep beside what the other's permit announced. -/
inductive Waiter where
  | writer
  | cleanup
  | accept
  | read (id : Nat)
deriving DecidableEq

namespace Waiter

/-- Signals for one of the loops. -/
def only (i : Waiter) (signals : List Signal) (j : Waiter) : List Signal := if j = i then signals else []

def none (_ : Waiter) : List Signal := []

@[simp] theorem only_self (i : Waiter) (signals : List Signal) : i.only signals i = signals := if_pos rfl

end Waiter

namespace Inbox

/-- `InboundChunk::consume` notifies the writer when one of the two windows asks for an update. -/
def consumeSignals (b : Inbox) (id count : Nat) : List Signal :=
  if (b.receiveWindow.consume count).2 || ((b.recv id).receiveWindow.consume count).2 then [.one] else []

/-- Chunks dropped one after the other. -/
def dropSignals (id : Nat) : Inbox → List InboundChunk → List Signal
  | _, [] => []
  | b, c :: chunks => b.consumeSignals id c.data.bytes.length ++ dropSignals id (b.dropChunk id c) chunks

def clearSignals (b : Inbox) (id : Nat) : List Signal := dropSignals id b (b.recv id).inbound.chunks

/-- `RecvStream::read_chunk`; the drop of the emptied chunk consumes nothing. -/
def readWholeSignals (b : Inbox) (id : Nat) : List Signal :=
  match b.readChunk id with
  | (b, .chunk c) => b.consumeSignals id c.data.bytes.length
  | _ => []

def pollReadSignals (id room : Nat) : Nat → Inbox → List Signal
  | 0, _ => []
  | turns + 1, b =>
    match (b.recvStreams id).readBuf with
    | some c =>
      let count := min c.data.bytes.length room
      if count = 0 then
        dropSignals id (b.setReadBuf id none) [c] ++
          pollReadSignals id room turns ((b.setReadBuf id none).dropChunk id c)
      else b.consumeSignals id count
    | none =>
      if (b.recvStreams id).eof then []
      else
        match b.readChunk id with
        | (b, .chunk c) => pollReadSignals id room turns (b.setReadBuf id (some c))
        | _ => []

/-- The remainder of a dropped `RecvStream`. -/
def remainderSignals (b : Inbox) (id : Nat) : List Signal :=
  match (b.recvStreams id).readBuf with
  | none => []
  | some c => dropSignals id (b.setReadBuf id none) [c]

def markResetSignals (b : Inbox) (id errorCode : Nat) : List Signal :=
  (b.setInbound id { (b.recv id).inbound with resetError := some errorCode }).clearSignals id

def discardSignals (b : Inbox) (id : Nat) : List Signal :=
  ({ b with recv := Function.update b.recv id { b.recv id with recvDiscarded := true } }).clearSignals id

/-- `push_inbound`: discarded bytes are credited at once, and an appended payload is for a reader. -/
def pushSignals (b : Inbox) (l : Limits) (id : Nat) (payload : Bytes) : Waiter → List Signal :=
  if (b.recv id).recvDiscarded then Waiter.only .writer [.one]
  else
    match (b.pushInbound l id payload).2 with
    | .ok () => Waiter.only (.read id) [.one]
    | .error _ => Waiter.none

/-- `on_remote_stream_frame` once both windows have counted the payload. -/
def dataSignals (b : Inbox) (l : Limits) (id : Nat) (payload : Bytes) (fin : Bool) (i : Waiter) : List Signal :=
  match b.receiveBoth id payload.length with
  | (_, .error _) => []
  | (b', .ok ()) =>
    (if b'.receiveWindow.needsUpdate || (b'.recv id).receiveWindow.needsUpdate then Waiter.only .writer [.one] i
      else []) ++
      (if payload.isEmpty then [] else b'.pushSignals l id payload i) ++
      match fin, (b.acceptData l id payload fin).2 with
      | true, .ok () => Waiter.only (.read id) [.waiters] i
      | _, _ => []

end Inbox

namespace Shared

variable (s : Shared)

/-- `mark_closed`: `close_notify` at once and again after the shutdown of the writer, and then every stream of the
map. -/
def markClosedSignals : Waiter → List Signal
  | .writer => if s.cleanupStarted then [] else [.waiters]
  | .accept => if s.cleanupStarted then [.waiters] else [.waiters, .waiters]
  | .read id => if s.cleanupStarted = false ∧ id ∈ s.streams then [.waiters] else []
  | .cleanup => []

def initiateCloseSignals (errorCode : Nat) (reason : String) : Waiter → List Signal :=
  match s.limits.fitCloseReason errorCode reason, ErrorCode.fromU64 errorCode with
  | .ok _, .ok _ =>
    if s.closed then Waiter.none
    else fun i => Waiter.only .accept [.waiters] i ++ Waiter.only .writer [.waiters] i
  | _, _ => Waiter.none

def closeSignals (reason : String) : Waiter → List Signal :=
  match s.limits.validateCloseReason 0 reason with
  | .error _ => Waiter.none
  | .ok () => s.initiateCloseSignals 0 reason

def openBiSignals : Waiter → List Signal :=
  if s.closed then Waiter.none
  else if s.queues.closing || s.queues.control.length ≥ s.limits.maxControlFrames then s.markClosedSignals
  else if s.nextLocalStreamId ≤ varIntMax then Waiter.only .writer [.one]
  else Waiter.none

/-- `enqueue_data` notifies for the chunk it takes. -/
def enqueueSignals (id : Nat) : Waiter → List Signal :=
  match s.enqueueWrite id with
  | some (_, .ok _) => Waiter.only .writer [.one]
  | _ => Waiter.none

def enqueueControlSignals (frame : Frame) : Waiter → List Signal :=
  if s.queues.closing then Waiter.none
  else if frame = .ping ∧ .ping ∈ s.queues.control then Waiter.none
  else if s.queues.control.length ≥ s.limits.maxControlFrames then Waiter.none
  else Waiter.only .writer [.one]

/-- `enqueue_control` by a caller that runs `mark_closed` on an open connection when it is refused. -/
def orCloseSignals (frame : Frame) : Waiter → List Signal :=
  match s.enqueueControl frame with
  | (_, true) => s.enqueueControlSignals frame
  | (s, false) => if s.closed then Waiter.none else s.markClosedSignals

def resetSignals (id errorCode : Nat) : Waiter → List Signal :=
  if s.closed then Waiter.none
  else
    match VarInt.fromU64 id, ErrorCode.fromU64 errorCode with
    | .ok _, .ok _ =>
      if (s.send id).sendDispatched || (s.send id).resetQueued then Waiter.none
      else if s.queues.closing || s.queues.control.length ≥ s.limits.maxControlFrames then Waiter.none
      else Waiter.only .writer [.one]
    | _, _ => Waiter.none

/-- `handle_incoming_frame`. -/
def handleFrameSignals (f : Frame) : Waiter → List Signal :=
  if !f.isSettings && !s.queues.peerSettings then Waiter.none
  else
    match f with
    | .settings _ _ maxFrameSize =>
      if s.queues.peerSettings || maxFrameSize.intoInner < minFrameSize || maxFrameSize.intoInner > u32Max then
        Waiter.none
      else Waiter.only .writer [.one]
    | .maxData _ => Waiter.only .writer [.one]
    | .maxStreamData streamId _ =>
      if streamId.intoInner ∉ s.streams ∧ s.unopened streamId.intoInner then Waiter.none
      else Waiter.only .writer [.one]
    | .stream streamId fin payload =>
      let id := streamId.intoInner
      if id ∉ s.streams then Waiter.none
      else
        match s.ensurePeerSendOpen id "stream frame" with
        | .error _ => Waiter.none
        | .ok () => s.inbox.dataSignals s.limits id payload fin
    | .resetStream streamId errorCode =>
      let id := streamId.intoInner
      if id ∉ s.streams then Waiter.none
      else
        match s.ensurePeerSendOpen id "reset" with
        | .error _ => Waiter.none
        | .ok () => fun i =>
          Waiter.only .writer (s.inbox.markResetSignals id errorCode.intoInner) i ++
            Waiter.only (.read id) [.waiters, .waiters] i
    | .openStream streamId =>
      match s.onRemoteOpen streamId.intoInner with
      | (_, .error _) => Waiter.none
      | (_, .ok ()) => Waiter.only .accept [.one]
    | .stopSending streamId =>
      if streamId.intoInner ∈ s.streams then s.resetSignals streamId.intoInner 0 else Waiter.none
    | .ping => Waiter.none
    | .connectionClose _ _ => s.markClosedSignals

def runOpSignals : TaskOp → Waiter → List Signal
  | .complete _ => Waiter.none
  | .retire _ => Waiter.none
  | .remove _ => Waiter.none
  | .cleanSend id =>
    if (s.life id).sendDropped && !(s.send id).sendTerminal then s.resetSignals id 0 else Waiter.none
  | .cleanRecv id =>
    if (s.life id).recvDropped then Waiter.only .writer (s.inbox.discardSignals id) else Waiter.none
  | .stopSending id => s.orCloseSignals (.stopSending (.expect id))
  | .failClose reason => s.initiateCloseSignals 1 reason
  | .markClosed => s.markClosedSignals

end Shared

namespace Endpoint

/-- The chunks that go with a `StreamState`. -/
def freeSignals (e : Endpoint) (id : Nat) : Waiter → List Signal :=
  if e.orphaned id then Waiter.only .writer (e.shared.inbox.clearSignals id) else Waiter.none

/-- One item of the transport. -/
def receiveSignals (e : Endpoint) (bytes : Bytes) : Waiter → List Signal :=
  if bytes.length > e.shared.limits.maxFrameSize then Waiter.none
  else
    match Frame.decode bytes with
    | .error _ => Waiter.none
    | .ok (f, _) => e.shared.handleFrameSignals f

def readSignals (e : Endpoint) (mode id : Nat) (signals : Inbox → List Signal) : Waiter → List Signal :=
  match Shared.selectMode (e.shared.life id).recvMode mode with
  | .error _ => Waiter.none
  | .ok _ => Waiter.only .writer (signals e.shared.inbox)

/-- The signals of an action. -/
def signals (e : Endpoint) : Act → Waiter → List Signal
  | .openFinish => e.shared.openBiSignals
  | .enqueue id => e.shared.enqueueSignals id
  | .reset id errorCode => e.shared.resetSignals id errorCode
  | .readChunk id => e.readSignals 1 id fun b => b.readWholeSignals id
  | .pollRead id room =>
    if room = 0 then Waiter.none
    else e.readSignals 2 id fun b => b.pollReadSignals id room (2 * (b.recv id).inbound.chunks.length + 3)
  | .dropSend id => fun i =>
    let life := e.shared.life id
    Waiter.only .cleanup (if life.sendHandles = 1 then [.one] else []) i ++
      { e with
        shared := (e.shared.cancelWrite id).setLife id
          { life with
            sendHandles := life.sendHandles - 1
            sendDropped := life.sendDropped || life.sendHandles == 1 } }.freeSignals id i
  | .dropRecv id => fun i =>
    let life := e.shared.life id
    Waiter.only .cleanup (if life.recvHandles = 1 then [.one] else []) i ++
      Waiter.only .writer (e.shared.inbox.remainderSignals id) i ++
      { e with
        shared := { e.shared with inbox := e.shared.inbox.dropRemainder id }.setLife id
          { life with
            recvHandles := life.recvHandles - 1
            recvDropped := life.recvDropped || life.recvHandles == 1 } }.freeSignals id i
  | .close reason => e.shared.closeSignals reason
  | .lastHandleDropped => e.shared.initiateCloseSignals 0 "last connection handle dropped"
  | .abort => fun i => Waiter.only .accept [.waiters] i ++ Waiter.only .writer [.waiters] i
  | .keepalive => e.shared.orCloseSignals .ping
  | .drainExpired => e.shared.markClosedSignals
  | .receive bytes => e.receiveSignals bytes
  | .work task =>
    match e.todo task with
    | [] => Waiter.none
    | op :: ops => fun i =>
      let (s, more) := e.shared.runOp op
      e.shared.runOpSignals op i ++
        match op.stream with
        | some id => ({ e with shared := s }.setTodo task (more ++ ops)).freeSignals id i
        | none => []
  | _ => Waiter.none

/-- The action by which a loop looks for something to do. -/
def looks : Act → Option Waiter
  | .nextFrame _ => some .writer
  | .cleanup _ => some .cleanup
  | .accept => some .accept
  | .readChunk id => some (.read id)
  | .pollRead id room => if room = 0 then none else some (.read id)
  | _ => none

def readFound (e : Endpoint) (mode id : Nat) (outcome : Inbox.ReadOutcome) : Bool :=
  match Shared.selectMode (e.shared.life id).recvMode mode, outcome with
  | .ok _, .pending => false
  | _, _ => true

/-- Whether a look finds something. The worker waits before each of its passes over the map. -/
def found (e : Endpoint) : Act → Bool
  | .nextFrame order => (e.shared.nextFrame order).2 ≠ .wait
  | .cleanup _ => false
  | .accept =>
    match e.shared.acceptBi.2 with
    | .ok none => false
    | _ => true
  | .readChunk id => e.readFound 1 id (e.shared.inbox.readWhole id).2
  | .pollRead id room => e.readFound 2 id (e.shared.inbox.pollRead id room).2
  | _ => true

/-- The wait loops of a connection, each with one task or call in it at a time. -/
def waitLoops : WaitLoops Endpoint Act Waiter where
  start
    | .cleanup => { phase := .armed false }
    | _ => {}
  looks := looks
  found := found
  idle
    | .cleanup, e => (e.todo .cleanup).isEmpty
    | _, _ => true
  signals := signals
  dropped
    | .accept => true
    | .read _ => true
    | _ => false

/-- The runs of one endpoint in which a task that waits on a `Notify` takes no step before it is woken. -/
def watched (limits : Limits) (isClient : Bool) : Machine (Watched Endpoint Waiter) Event :=
  waitLoops.machine (fun e => connect limits isClient = .ok e) step

end Endpoint
end Muxtls
