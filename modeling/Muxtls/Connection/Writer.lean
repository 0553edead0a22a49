import Muxtls.Connection.Inbound

namespace Muxtls

namespace OutboundBudget

/-- The permits of dropped chunks of one stream go back. -/
def releaseChunks (b : OutboundBudget) (id : Nat) (chunks : List OutboundChunk) : OutboundBudget where
  connBytes := b.connBytes.release (chunks.map fun c => c.connPermit.getD 0).sum
  frames := b.frames.release chunks.length
  streamBytes := Function.update b.streamBytes id
    ((b.streamBytes id).release (chunks.map fun c => c.streamPermit.getD 0).sum)
  streamFrames := Function.update b.streamFrames id ((b.streamFrames id).release chunks.length)

/-- The permits of every queued chunk go back. -/
def releaseAll (b : OutboundBudget) (q : WriterQueues) : OutboundBudget :=
  q.byStream.entries.foldl (fun b entry => b.releaseChunks entry.1 entry.2) b

end OutboundBudget

namespace WriterQueues

/-- The chunks queued for a stream; none when the map has no entry. -/
def chunksOf (q : WriterQueues) (id : Nat) : List OutboundChunk := (q.byStream.lookup id).getD []

/-- `entry(id).or_default().push_back(chunk)`, and the id becomes ready when its queue was empty. -/
def pushChunk (q : WriterQueues) (id : Nat) (chunk : OutboundChunk) : WriterQueues :=
  { q with
    byStream := q.byStream.insert id (q.chunksOf id ++ [chunk])
    ready := if q.chunksOf id = [] then q.ready ++ [id] else q.ready }

/-- `by_stream.remove(&id)` and `ready.retain(..)`. -/
def removeStream (q : WriterQueues) (id : Nat) : WriterQueues :=
  { q with byStream := q.byStream.erase id, ready := q.ready.filter (· ≠ id) }

def pushControl (q : WriterQueues) (f : Frame) : WriterQueues :=
  { q with control := q.control ++ [f] }

/-- Both queues emptied, as by an error close or a shutdown. -/
def clear (q : WriterQueues) : WriterQueues := { q with byStream := ∅, ready := [], control := [] }

/-- The queue part of `initiate_close`; an error close empties the queues first. -/
def publishClose (q : WriterQueues) (errorCode : ErrorCode) (reason : String) (graceful : Bool) :
    WriterQueues :=
  { if graceful then q else q.clear with
    closeFrame := some (.connectionClose errorCode reason), gracefulClose := graceful, closing := true }

/-- The queue part of `WriterState::shutdown`. -/
def shutdown (q : WriterQueues) : WriterQueues :=
  { q.clear with receiveWindows := [], closeFrame := none, gracefulClose := false, closing := true }

/-- SETTINGS and OPEN must precede dependent traffic. -/
def urgent (q : WriterQueues) : Bool :=
  match q.control.head? with
  | some (.settings ..) => true
  | some (.openStream _) => true
  | _ => false

def connCredit (q : WriterQueues) : Nat := q.peerLimit - q.sent

/-- The credit the peer has left for a stream. -/
def streamCredit (q : WriterQueues) (st : SendState) : Nat :=
  max st.peerLimit q.peerInitialStreamLimit - st.sent

/-- How much of a head chunk fits the two credits and the peer's frame limit. The header width is
that of the whole capacity. -/
def takeCount (q : WriterQueues) (st : SendState) (chunk : OutboundChunk) : Nat :=
  let capacity := q.peerMaxFrame - 2 - chunk.streamId.encodedLen
  let header := (VarInt.expect capacity).encodedLen
  min chunk.payload.length (min (min q.connCredit (q.streamCredit st)) (capacity - header))

/-- A head chunk the data pass does not skip. -/
def eligible (q : WriterQueues) (st : SendState) (chunk : OutboundChunk) : Bool :=
  q.peerSettings && !(q.takeCount st chunk == 0 && !chunk.payload.isEmpty)

/-- The queues after `count` bytes of a ready stream were taken and `chunks` are left of its queue. -/
def dispatch (q : WriterQueues) (id : Nat) (ready : List Nat) (chunks : List OutboundChunk)
    (count : Nat) : WriterQueues :=
  { q with
    byStream := if chunks = [] then q.byStream.erase id else q.byStream.insert id chunks
    ready := if chunks = [] then ready else ready ++ [id]
    sent := q.sent + count
    controlTurn := true }

end WriterQueues

/-- `str::is_char_boundary`: the byte at `index` is no continuation byte. -/
def isCharBoundary (s : String) (index : Nat) : Bool :=
  index == 0 ||
    match (asBytes s)[index]? with
    | none => index == (asBytes s).length
    | some b => b.toNat < 0x80 || 0xc0 ≤ b.toNat

/-- `while !reason.is_char_boundary(end) { end -= 1 }`. -/
def charBoundaryBelow (s : String) : Nat → Nat
  | 0 => 0
  | index + 1 => if isCharBoundary s (index + 1) then index + 1 else charBoundaryBelow s index

/-- `String::truncate` at a character boundary. -/
def truncate (s : String) (len : Nat) : String := (fromUtf8 ((asBytes s).take len)).getD s

/-- `take_close_frame`: the reason is cut to what the peer's frame limit leaves. -/
def WriterQueues.takeCloseFrame (q : WriterQueues) : WriterQueues × Option Frame :=
  match q.closeFrame with
  | none => (q, none)
  | some (.connectionClose errorCode reason) =>
    let maximum := q.peerMaxFrame - (1 + errorCode.encodedLen + 8)
    let reason :=
      if (asBytes reason).length > maximum then truncate reason (charBoundaryBelow reason maximum)
      else reason
    ({ q with closeFrame := none }, some (.connectionClose errorCode reason))
  | some frame => ({ q with closeFrame := none }, some frame)

/-- `sent.fetch_add(count)`, and `send_dispatched` with the FIN. -/
def SendState.dispatch (st : SendState) (count : Nat) (fin : Bool) : SendState :=
  { st with sent := (st.sent + count) % 2 ^ 64, sendDispatched := st.sendDispatched || fin }

namespace Shared

/-- `WriterState::enqueue_data`; a refused chunk is dropped. -/
def enqueueData (s : Shared) (id : Nat) (chunk : OutboundChunk) : Shared × Bool :=
  if s.queues.closing || (s.send id).sendTerminal then
    ({ s with budget := s.budget.releaseChunks id [chunk] }, false)
  else ({ s with queues := s.queues.pushChunk id chunk }, true)

/-- `WriterState::enqueue_control`. -/
def enqueueControl (s : Shared) (frame : Frame) : Shared × Bool :=
  if s.queues.closing then (s, false)
  else if frame = .ping ∧ .ping ∈ s.queues.control then (s, true)
  else if s.queues.control.length ≥ s.limits.maxControlFrames then (s, false)
  else ({ s with queues := s.queues.pushControl frame }, true)

theorem enqueueControl_refused {s s' : Shared} {f : Frame} (h : s.enqueueControl f = (s', false)) : s' = s := by
  unfold enqueueControl at h
  split_ifs at h <;> cases h <;> rfl

/-- `WriterState::shutdown`. -/
def shutdown (s : Shared) : Shared :=
  { s with budget := s.budget.releaseAll s.queues, queues := s.queues.shutdown }

/-- What one turn of the loop in `next_frame` comes to. -/
inductive Turn where
  | frame (f : Frame)
  | finished
  | again
  | wait
  | panicked (message : String)
deriving DecidableEq

/-- The head chunk of a ready stream is cut, counted and, once empty, taken off its queue. -/
def dispatch (s : Shared) (id : Nat) (chunk : OutboundChunk) (rest : List OutboundChunk)
    (ready : List Nat) : Shared × Frame :=
  let count := s.queues.takeCount (s.send id) chunk
  let left := chunk.payload.drop count
  let fin := chunk.fin && left.isEmpty
  let chunks := if left.isEmpty then rest else { chunk with payload := left } :: rest
  ({ s with
     send := Function.update s.send id ((s.send id).dispatch count fin)
     budget := if left.isEmpty then s.budget.releaseChunks id [chunk] else s.budget
     queues := s.queues.dispatch id ready chunks count },
   .stream chunk.streamId fin (chunk.payload.take count))

/-- `for _ in 0..ready.len()`: blocked streams rotate to the back until one can send. -/
def dataPass (s : Shared) : Nat → Shared × Option Turn
  | 0 => (s, none)
  | n + 1 =>
    match s.queues.ready with
    | [] => (s, some (.panicked "ready stream"))
    | id :: ready =>
      match s.queues.byStream.lookup id with
      | none => ({ s with queues := { s.queues with ready } }, some (.panicked "ready queue"))
      | some [] => ({ s with queues := { s.queues with ready } }, some (.panicked "nonempty queue"))
      | some (chunk :: rest) =>
        if s.queues.eligible (s.send id) chunk then
          let (s, f) := s.dispatch id chunk rest ready
          (s, some (.frame f))
        else dataPass { s with queues := { s.queues with ready := ready ++ [id] } } n

/-- A registered stream window that has an update to send. -/
def streamUpdate (s : Shared) (id : Nat) : Option (Shared × Frame) :=
  let r := s.inbox.recv id
  if r.recvTerminal || r.recvDiscarded then none
  else
    match r.receiveWindow.update with
    | (_, none) => none
    | (w, some maximum) =>
      some ({ s with
              inbox := { s.inbox with recv := Function.update s.inbox.recv id { r with receiveWindow := w } } },
        .maxStreamData (.expect id) maximum)

/-- The control part of a turn: the control queue, then the connection window, then the stream
windows in the map's iteration order. -/
def controlPass (s : Shared) (order : List Nat) : Option (Shared × Frame) :=
  match s.queues.control with
  | f :: control => some ({ s with queues := { s.queues with control, controlTurn := false } }, f)
  | [] =>
    match s.inbox.receiveWindow.update with
    | (w, some maximum) =>
      some ({ s with
              inbox := { s.inbox with receiveWindow := w }
              queues := { s.queues with controlTurn := false } }, .maxData maximum)
    | (_, none) =>
      (order.findSome? s.streamUpdate).map fun (s, f) =>
        ({ s with queues := { s.queues with controlTurn := false } }, f)

/-- `take_close_frame` as the result of `next_frame`. -/
def closeTurn (s : Shared) : Shared × Turn :=
  match s.queues.takeCloseFrame with
  | (queues, none) => ({ s with queues }, .finished)
  | (queues, some f) => ({ s with queues }, .frame f)

/-- The data part of a turn and what follows it when no stream can send. -/
def dataTurn (s : Shared) : Shared × Turn :=
  match s.dataPass s.queues.ready.length with
  | (s, some turn) => (s, turn)
  | (s, none) =>
    if !s.queues.controlTurn then
      ({ s with queues := { s.queues with controlTurn := true } }, .again)
    else if s.queues.closing && s.queues.byStream.entries.isEmpty then s.closeTurn
    else (s, .wait)

/-- One turn of the loop of `WriterState::next_frame`, from taking the queue lock to releasing it.
`order` is the iteration order of the map `receive_windows`. -/
def nextFrame (s : Shared) (order : List Nat) : Shared × Turn :=
  if s.queues.closing && !s.queues.gracefulClose then s.closeTurn
  else if s.queues.controlTurn || s.queues.urgent then
    match s.controlPass order with
    | some (s, f) => (s, .frame f)
    | none => s.dataTurn
  else s.dataTurn

end Shared
end Muxtls
