import Muxtls.Connection.Writer

namespace Muxtls

/-- Steps a connection task still has to take; between two of them other tasks may run. -/
inductive TaskOp where
  /-- the writer sets `send_complete` after a terminal frame was sent -/
  | complete (id : Nat)
  /-- `try_retire_stream` up to the release of the admission permit -/
  | retire (id : Nat)
  /-- the second half of `try_retire_stream` -/
  | remove (id : Nat)
  /-- the cleanup worker looks at `send_dropped` -/
  | cleanSend (id : Nat)
  /-- the cleanup worker looks at `recv_dropped` -/
  | cleanRecv (id : Nat)
  /-- `handle_last_recv_drop` queues STOP_SENDING -/
  | stopSending (id : Nat)
  /-- the reader publishes a diagnostic close -/
  | failClose (reason : String)
  | markClosed
deriving DecidableEq

/-- The stream a step is about. -/
def TaskOp.stream : TaskOp → Option Nat
  | .complete id => some id
  | .retire id => some id
  | .remove id => some id
  | .cleanSend id => some id
  | .cleanRecv id => some id
  | .stopSending id => some id
  | .failClose _ => none
  | .markClosed => none

def Frame.isSettings : Frame → Bool
  | .settings .. => true
  | _ => false

namespace Limits

/-- `validate_close_reason`. -/
def validateCloseReason (l : Limits) (errorCode : Nat) (reason : String) : Except Error Unit :=
  match ErrorCode.fromU64 errorCode with
  | .error error => .error (.wire error)
  | .ok errorCode =>
    match VarInt.fromU64 (asBytes reason).length with
    | .error _ => .error (.limitExceeded "close reason is too large")
    | .ok reasonLen =>
      let encodedLen := 1 + errorCode.encodedLen + reasonLen.encodedLen + (asBytes reason).length
      if encodedLen > l.maxFrameSize then
        .error (.limitExceeded
          s!"encoded close frame size {encodedLen} exceeds max frame size {l.maxFrameSize}")
      else .ok ()

/-- `fit_close_reason`. -/
def fitCloseReason (l : Limits) (errorCode : Nat) (reason : String) : Except Error String :=
  match l.validateCloseReason errorCode reason with
  | .ok () => .ok reason
  | .error _ =>
    match l.validateCloseReason errorCode "connection error" with
    | .ok () => .ok "connection error"
    | .error _ =>
      match l.validateCloseReason errorCode "" with
      | .ok () => .ok ""
      | .error error => .error error

end Limits

namespace Shared

/-- The map `streams` gains an entry; both callers know that the id is not in it. -/
def insertStream (s : Shared) (id : Nat) : Shared :=
  { s with
    streams := s.streams ++ [id]
    queues := { s.queues with receiveWindows := s.queues.receiveWindows ++ [id] } }

/-- `mark_closed` as one step: the call that starts the cleanup is taken to come to its end. -/
def markClosed (s : Shared) : Shared :=
  let s := { s with closed := true, terminated := true }
  if s.cleanupStarted then s
  else
    let s :=
      { s with
        cleanupStarted := true
        openStreams := s.openStreams.close
        budget := { s.budget with connBytes := s.budget.connBytes.close, frames := s.budget.frames.close }
        inbox := { s.inbox with inboundConnBytes := s.inbox.inboundConnBytes.close } }
    let s := s.shutdown
    { s with
      streams := []
      budget :=
        { s.budget with
          streamBytes := fun id => if id ∈ s.streams then (s.budget.streamBytes id).close else s.budget.streamBytes id
          streamFrames := fun id =>
            if id ∈ s.streams then (s.budget.streamFrames id).close else s.budget.streamFrames id }
      inbox := s.streams.foldl Inbox.markConnectionClosed s.inbox }

/-- `open_bi` once its admission permit is acquired. -/
def openBi (s : Shared) : Shared × Except Error Nat :=
  if s.closed then
    ({ s with openStreams := s.openStreams.release 1 }, .error .connectionClosed)
  else if s.queues.closing || s.queues.control.length ≥ s.limits.maxControlFrames then
    let s := s.markClosed
    ({ s with openStreams := s.openStreams.release 1 }, .error .connectionClosed)
  else if s.nextLocalStreamId ≤ varIntMax then
    -- `take_stream_id` succeeds: state, OPEN and both map entries are published together
    let id := s.nextLocalStreamId
    let s := { s with nextLocalStreamId := id + 2 }.createStream id
    let s := { s with queues := s.queues.pushControl (.openStream (.expect id)) }
    let s := s.insertStream id
    ({ s with life := Function.update s.life id { s.life id with sendHandles := 1, recvHandles := 1 } },
      .ok id)
  else ({ s with openStreams := s.openStreams.release 1 }, .error .streamIdExhausted)

/-- `accept_bi` when a stream is waiting. -/
def acceptBi (s : Shared) : Shared × Except Error (Option Nat) :=
  if s.closed then (s, .error .connectionClosed)
  else
    match s.incomingStreams with
    | [] => (s, .ok none)
    | id :: incoming =>
      ({ s with
         incomingStreams := incoming
         life := Function.update s.life id
           { s.life id with
             sendHandles := (s.life id).sendHandles + 1
             recvHandles := (s.life id).recvHandles + 1 } },
        .ok (some id))

/-- `select_mode`: the mode a direction has after a call asks for `requested`. -/
def selectMode (mode requested : Nat) : Except Error Nat :=
  if mode = 0 ∨ mode = requested then .ok requested
  else .error (.protocol "cannot mix chunk and AsyncRead/AsyncWrite APIs on a stream direction")

/-- The size checks of `queue_stream_chunk`. -/
def checkChunk (s : Shared) (id : Nat) (payload : Bytes) (fin : Bool) : Except Error Unit :=
  match VarInt.fromU64 id with
  | .error error => .error (.protocol error.display)
  | .ok streamId =>
    match (Frame.stream streamId fin payload).encodedLen with
    | .error error => .error (.wire error)
    | .ok encodedLen =>
      if encodedLen > s.limits.maxFrameSize then
        .error (.limitExceeded
          s!"encoded stream frame size {encodedLen} exceeds max frame size {s.limits.maxFrameSize}")
      else if payload.length > s.limits.maxOutboundStreamBytes then
        .error (.limitExceeded "chunk exceeds the outbound stream byte budget")
      else .ok ()

def setPending (s : Shared) (id : Nat) (pending : Option PendingWrite) : Shared :=
  { s with send := Function.update s.send id { s.send id with pending } }

/-- `queue_stream_chunk` from its call to the first permit; `none` while `send_lock` is taken. -/
def startWrite (s : Shared) (id : Nat) (payload : Bytes) (fin : Bool) :
    Option (Shared × Except Error Unit) :=
  if s.closed then some (s, .error .connectionClosed)
  else if (s.send id).pending.isSome then none
  else if (s.send id).sendTerminal then
    some (s, .error (.protocol "stream send side already closed"))
  else
    match s.checkChunk id payload fin with
    | .error error => some (s, .error error)
    | .ok () =>
      if payload = [] ∧ fin = false then some (s, .ok ())
      else some (s.setPending id (some ⟨payload, fin, .locked⟩), .ok ())

/-- The permits a pending write holds, as the chunk that would own them. -/
def heldChunk (id : Nat) (w : PendingWrite) : OutboundChunk where
  streamId := .expect id
  payload := w.payload
  fin := w.fin
  connPermit := if w.payload = [] then none else some (w.payload.length % 2 ^ 32)
  streamPermit := if w.payload = [] then none else some (w.payload.length % 2 ^ 32)

/-- A write that fails or is dropped gives back what it acquired. -/
def cancelWrite (s : Shared) (id : Nat) : Shared :=
  match (s.send id).pending with
  | none => s
  | some w =>
    let c := heldChunk id w
    let b := s.budget
    let n := c.streamPermit.getD 0
    let m := c.connPermit.getD 0
    let budget : OutboundBudget :=
      match w.stage with
      | .locked => b
      | .enqueued => b
      | .streamFrame =>
        { b with streamFrames := Function.update b.streamFrames id ((b.streamFrames id).release 1) }
      | .streamBytes =>
        { b with
          streamFrames := Function.update b.streamFrames id ((b.streamFrames id).release 1)
          streamBytes := Function.update b.streamBytes id ((b.streamBytes id).release n) }
      | .frame =>
        { b with
          streamFrames := Function.update b.streamFrames id ((b.streamFrames id).release 1)
          streamBytes := Function.update b.streamBytes id ((b.streamBytes id).release n)
          frames := b.frames.release 1 }
      | .connBytes =>
        { b with
          streamFrames := Function.update b.streamFrames id ((b.streamFrames id).release 1)
          streamBytes := Function.update b.streamBytes id ((b.streamBytes id).release n)
          frames := b.frames.release 1
          connBytes := b.connBytes.release m }
    { s with budget }.setPending id none

/-- One `acquire(..).await` of a pending write: a closed semaphore fails the write, and a short one
makes it wait. -/
def acquireStage (s : Shared) (id : Nat) (w : PendingWrite) (stage : WriteStage) (sem : Semaphore)
    (n : Nat) (set : Semaphore → OutboundBudget) : Option Shared :=
  if sem.closed then some (s.cancelWrite id)
  else (sem.tryAcquire n).map fun sem =>
    { s with budget := set sem }.setPending id (some { w with stage })

/-- The next permit of a pending write; an empty payload needs no byte permits. -/
def acquireWrite (s : Shared) (id : Nat) : Option Shared :=
  match (s.send id).pending with
  | none => none
  | some w =>
    let b := s.budget
    let len := w.payload.length % 2 ^ 32
    match w.stage with
    | .locked =>
      s.acquireStage id w .streamFrame (b.streamFrames id) 1 fun sem =>
        { b with streamFrames := Function.update b.streamFrames id sem }
    | .streamFrame =>
      if w.payload = [] then some (s.setPending id (some { w with stage := .streamBytes }))
      else
        s.acquireStage id w .streamBytes (b.streamBytes id) len fun sem =>
          { b with streamBytes := Function.update b.streamBytes id sem }
    | .streamBytes => s.acquireStage id w .frame b.frames 1 fun sem => { b with frames := sem }
    | .frame =>
      if w.payload = [] then some (s.setPending id (some { w with stage := .connBytes }))
      else s.acquireStage id w .connBytes b.connBytes len fun sem => { b with connBytes := sem }
    | .connBytes => none
    | .enqueued => none

/-- The enqueue of a pending write that holds all its permits. -/
def enqueueWrite (s : Shared) (id : Nat) : Option (Shared × Except Error PendingWrite) :=
  match (s.send id).pending with
  | none => none
  | some w =>
    if w.stage ≠ .connBytes then none
    else if s.closed then some (s.cancelWrite id, .error .connectionClosed)
    else
      match (s.setPending id none).enqueueData id (heldChunk id w) with
      | (s, false) => some (s, .error (.protocol "stream or connection closed before enqueue"))
      | (s, true) =>
        some (if w.fin then s.setPending id (some { w with stage := .enqueued }) else s, .ok w)

/-- `send_terminal.store(true)` after a FIN was enqueued; `send_lock` is released with it. -/
def finishWrite (s : Shared) (id : Nat) : Option Shared :=
  match (s.send id).pending with
  | some ⟨_, _, .enqueued⟩ =>
    some { s with send := Function.update s.send id { s.send id with sendTerminal := true, pending := none } }
  | _ => none

/-- `reset_stream`. -/
def resetStream (s : Shared) (id errorCode : Nat) : Shared × Except Error Unit :=
  if s.closed then (s, .error .connectionClosed)
  else
    match VarInt.fromU64 id, ErrorCode.fromU64 errorCode with
    | .error error, _ => (s, .error (.protocol error.display))
    | _, .error error => (s, .error (.wire error))
    | .ok streamId, .ok errorCode =>
      if (s.send id).sendDispatched || (s.send id).resetQueued then (s, .ok ())
      else if s.queues.closing || s.queues.control.length ≥ s.limits.maxControlFrames then
        (s, .error .connectionClosed)
      else
        let budget := s.budget.releaseChunks id (s.queues.chunksOf id)
        ({ s with
           send := Function.update s.send id { s.send id with resetQueued := true, sendTerminal := true }
           budget := { budget with
             streamBytes := Function.update budget.streamBytes id (budget.streamBytes id).close }
           queues := (s.queues.removeStream id).pushControl (.resetStream streamId errorCode) },
          .ok ())

/-- `initiate_close`. Code zero keeps the queues to drain them. -/
def initiateClose (s : Shared) (errorCode : Nat) (reason : String) : Shared × Except Error Unit :=
  match s.limits.fitCloseReason errorCode reason with
  | .error error => (s, .error error)
  | .ok reason =>
    match ErrorCode.fromU64 errorCode with
    | .error error => (s, .error (.wire error))
    | .ok code =>
      if s.closed then (s, .ok ())
      else
        let budget := if errorCode = 0 then s.budget else s.budget.releaseAll s.queues
        ({ s with
           closed := true
           queues := s.queues.publishClose code reason (errorCode == 0)
           openStreams := s.openStreams.close
           budget := { budget with connBytes := budget.connBytes.close, frames := budget.frames.close } },
          .ok ())

/-- `Connection::close`. -/
def close (s : Shared) (reason : String) : Shared × Except Error Unit :=
  match s.limits.validateCloseReason 0 reason with
  | .error error => (s, .error error)
  | .ok () => s.initiateClose 0 reason

theorem initiateClose_of_close {s s' : Shared} {reason : String} (h : s.close reason = (s', .ok ())) :
    s.initiateClose 0 reason = (s', .ok ()) := by
  unfold close at h
  split at h
  · cases h
  · exact h

/-- `Connection::abort`. -/
def abort (s : Shared) : Shared := { s with closed := true, terminated := true }

/-- `ensure_peer_send_open`. -/
def ensurePeerSendOpen (s : Shared) (id : Nat) (frame : String) : Except Error Unit :=
  if (s.inbox.recv id).recvTerminal then
    .error (.protocol s!"{frame} after peer send side closed for stream id {id}")
  else .ok ()

/-- `on_remote_stream_frame` up to its `try_retire_stream`. -/
def onRemoteStreamFrame (s : Shared) (id : Nat) (payload : Bytes) (fin : Bool) :
    Shared × Except Error (List TaskOp) :=
  if id ∉ s.streams then (s, .error (.protocol s!"data for unknown stream id {id}"))
  else
    match s.ensurePeerSendOpen id "stream frame" with
    | .error error => (s, .error error)
    | .ok () =>
      let (inbox, result) := s.inbox.acceptData s.limits id payload fin
      ({ s with inbox }, result.map fun () => if fin then [.retire id] else [])

theorem onRemoteStreamFrame_inbox (s : Shared) (id : Nat) (payload : Bytes) (fin : Bool) :
    ∃ inbox, (s.onRemoteStreamFrame id payload fin).1 = { s with inbox } := by
  unfold onRemoteStreamFrame
  split
  · exact ⟨s.inbox, rfl⟩
  · split
    · exact ⟨s.inbox, rfl⟩
    · exact ⟨_, rfl⟩

/-- `on_remote_reset` up to its `try_retire_stream`. -/
def onRemoteReset (s : Shared) (id errorCode : Nat) : Shared × Except Error (List TaskOp) :=
  if id ∉ s.streams then (s, .error (.protocol s!"reset for unknown stream id {id}"))
  else
    match s.ensurePeerSendOpen id "reset" with
    | .error error => (s, .error error)
    | .ok () =>
      ({ s with inbox := (s.inbox.markReset id errorCode).markRecvTerminal id }, .ok [.retire id])

theorem onRemoteReset_inbox (s : Shared) (id errorCode : Nat) :
    ∃ inbox, (s.onRemoteReset id errorCode).1 = { s with inbox } := by
  unfold onRemoteReset
  split
  · exact ⟨s.inbox, rfl⟩
  · split
    · exact ⟨s.inbox, rfl⟩
    · exact ⟨_, rfl⟩

/-- `on_remote_open`. The stream stays registered when the incoming queue is full. -/
def onRemoteOpen (s : Shared) (id : Nat) : Shared × Except Error Unit :=
  if id % 2 = s.localParity then
    (s, .error (.protocol s!"peer opened stream with invalid parity: {id}"))
  else if id ≠ s.nextRemoteStreamId then
    (s, .error (.protocol s!"expected peer stream id {s.nextRemoteStreamId}, received {id}"))
  else
    match s.openStreams.tryAcquire 1 with
    | none => (s, .error (.limitExceeded "max open streams reached"))
    | some openStreams =>
      if id ∈ s.streams then
        -- the new state is dropped, and its permit with it
        (s, .error (.protocol s!"peer reused active stream id {id}"))
      else
        let s := { s with openStreams }.createStream id
        let s := s.insertStream id
        let s := { s with nextRemoteStreamId := id + 2 }
        if s.incomingStreams.length ≥ s.limits.maxOpenStreams then
          (s, .error (.limitExceeded "incoming stream queue is full"))
        else ({ s with incomingStreams := s.incomingStreams ++ [id] }, .ok ())

/-- Whether an id that is not in the map was never issued. -/
def unopened (s : Shared) (id : Nat) : Bool :=
  id ≥ (if id % 2 = s.localParity then s.nextLocalStreamId else s.nextRemoteStreamId)

/-- What `handle_incoming_frame` returns in `Ok`: go on, with the task steps the frame leaves to
take, or stop reading. -/
inductive Handled where
  | more (todo : List TaskOp)
  | stop

/-- `handle_incoming_frame` after the frame is decoded. -/
def handleFrame (s : Shared) (f : Frame) : Shared × Except Error Handled :=
  if !f.isSettings && !s.queues.peerSettings then
    (s, .error (.protocol "SETTINGS must be the first frame"))
  else
    match f with
    | .settings maxData maxStreamData maxFrameSize =>
      if s.queues.peerSettings || maxFrameSize.intoInner < minFrameSize || maxFrameSize.intoInner > u32Max then
        (s, .error (.protocol "invalid or repeated SETTINGS"))
      else
        ({ s with
           queues :=
             { s.queues with
               peerSettings := true
               peerLimit := maxData.intoInner
               peerInitialStreamLimit := maxStreamData.intoInner
               peerMaxFrame := maxFrameSize.intoInner } },
          .ok (.more []))
    | .maxData maximum =>
      ({ s with queues := { s.queues with peerLimit := max s.queues.peerLimit maximum.intoInner } },
        .ok (.more []))
    | .maxStreamData streamId maximum =>
      let id := streamId.intoInner
      if id ∈ s.streams then
        ({ s with
           send := Function.update s.send id
             { s.send id with peerLimit := max (s.send id).peerLimit maximum.intoInner } },
          .ok (.more []))
      else if s.unopened id then (s, .error (.protocol "credit for unopened stream"))
      else (s, .ok (.more []))
    | .stream streamId fin payload =>
      match s.onRemoteStreamFrame streamId.intoInner payload fin with
      | (s, .error error) => (s, .error error)
      | (s, .ok todo) => (s, .ok (.more todo))
    | .resetStream streamId errorCode =>
      match s.onRemoteReset streamId.intoInner errorCode.intoInner with
      | (s, .error error) => (s, .error error)
      | (s, .ok todo) => (s, .ok (.more todo))
    | .openStream streamId =>
      match s.onRemoteOpen streamId.intoInner with
      | (s, .error error) => (s, .error error)
      | (s, .ok ()) => (s, .ok (.more []))
    | .stopSending streamId =>
      let id := streamId.intoInner
      if id ∈ s.streams then
        match s.resetStream id 0 with
        | (s, .error error) => (s, .error error)
        | (s, .ok ()) => (s, .ok (.more []))
      else if s.unopened id then (s, .error (.protocol "STOP_SENDING for unopened stream"))
      else (s, .ok (.more []))
    | .ping => (s, .ok (.more []))
    | .connectionClose _ _ => (s.markClosed, .ok .stop)

/-- `handle_incoming_frame`. -/
def handleIncomingFrame (s : Shared) (bytes : Bytes) : Shared × Except Error Handled :=
  match Frame.decode bytes with
  | .error error => (s, .error (.wire error))
  | .ok (f, _) => s.handleFrame f

/-- Runs one step of a task; the result is what the task has to do next, before its other work. -/
def runOp (s : Shared) : TaskOp → Shared × List TaskOp
  | .complete id =>
    (if id ∈ s.streams then
        { s with life := Function.update s.life id { s.life id with sendComplete := true } }
      else s, [])
  | .retire id =>
    if id ∈ s.streams ∧ (s.life id).sendComplete ∧ (s.inbox.recv id).recvTerminal then
      ({ s with
         openStreams := if (s.life id).openPermit then s.openStreams.release 1 else s.openStreams
         life := Function.update s.life id { s.life id with openPermit := false } }, [.remove id])
    else (s, [])
  | .remove id =>
    (if id ∈ s.streams ∧ (s.send id).sendTerminal ∧ (s.inbox.recv id).recvTerminal then
        { s with
          streams := s.streams.filter (· ≠ id)
          queues := { s.queues with receiveWindows := s.queues.receiveWindows.filter (· ≠ id) } }
      else s, [])
  | .cleanSend id =>
    if (s.life id).sendDropped then
      -- `handle_last_send_drop`
      let s := { s with life := Function.update s.life id { s.life id with sendDropped := false } }
      (if (s.send id).sendTerminal then s else (s.resetStream id 0).1, [.retire id])
    else (s, [])
  | .cleanRecv id =>
    if (s.life id).recvDropped then
      -- `handle_last_recv_drop`
      let s := { s with life := Function.update s.life id { s.life id with recvDropped := false } }
      let s := { s with inbox := s.inbox.discardInbound id }
      (s, if !(s.inbox.recv id).recvTerminal && !s.closed then [.stopSending id, .retire id] else [.retire id])
    else (s, [])
  | .stopSending id =>
    match s.enqueueControl (.stopSending (.expect id)) with
    | (s, true) => (s, [])
    | (s, false) => (if s.closed then s else s.markClosed, [])
  | .failClose reason => ((s.initiateClose 1 reason).1, [])
  | .markClosed => (s.markClosed, [])

end Shared
end Muxtls
