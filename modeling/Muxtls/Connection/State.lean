import Muxtls.Flow
import Muxtls.Semaphore
import Mathlib.Data.List.AList
import Mathlib.Logic.Function.Basic

namespace Muxtls

/-- Small peer frames share a bounded page; large frames keep the decoder's own bytes. -/
inductive ReceiveBuffer where
  | shared (data : Bytes)
  | page (data : Bytes) (capacity : Nat)
deriving DecidableEq

namespace ReceiveBuffer

def bytes : ReceiveBuffer → Bytes
  | shared data => data
  | page data _ => data

def advance (count : Nat) : ReceiveBuffer → ReceiveBuffer
  | shared data => shared (data.drop count)
  | page data capacity => page (data.drop count) (capacity - count)

@[simp] theorem advance_bytes (count : Nat) (b : ReceiveBuffer) :
    (b.advance count).bytes = b.bytes.drop count := by
  cases b <;> rfl

end ReceiveBuffer

/-- Received bytes with the permits they hold on the two inbound budgets. -/
structure InboundChunk where
  data : ReceiveBuffer
  connPermit : Option Nat
  streamPermit : Option Nat
deriving DecidableEq

structure InboundState where
  chunks : List InboundChunk := []
  resetError : Option Nat := none
  finReceived : Bool := false
  connectionClosed : Bool := false

/-- The receive direction of a `StreamState`. -/
structure RecvState where
  inbound : InboundState := {}
  receiveWindow : ReceiveWindow
  inboundStreamBytes : Semaphore
  recvTerminal : Bool := false
  recvDiscarded : Bool := false

/-- What a `RecvStream` handle owns: the remainder of a partial read and the end-of-stream mark. -/
structure RecvStream where
  readBuf : Option InboundChunk := none
  eof : Bool := false

/-- Where a `queue_stream_chunk` call stands while it holds `send_lock`: each stage has acquired one
more permit, and `enqueued` is a FIN in the queue whose `send_terminal` store is still to come. -/
inductive WriteStage where
  | locked
  | streamFrame
  | streamBytes
  | frame
  | connBytes
  | enqueued
deriving DecidableEq, Repr

structure PendingWrite where
  payload : Bytes
  fin : Bool
  stage : WriteStage
deriving DecidableEq

/-- The send direction of a `StreamState`; `pending` is the holder of `send_lock`. -/
structure SendState where
  peerLimit : Nat := 0
  sent : Nat := 0
  sendTerminal : Bool := false
  sendDispatched : Bool := false
  resetQueued : Bool := false
  pending : Option PendingWrite := none

/-- The rest of a `StreamState`: handles, drop marks, API modes and the admission permit. -/
structure StreamLife where
  sendComplete : Bool := false
  sendDropped : Bool := false
  recvDropped : Bool := false
  sendHandles : Nat := 0
  recvHandles : Nat := 0
  sendMode : Nat := 0
  recvMode : Nat := 0
  openPermit : Bool := false

/-- A queued chunk. The byte permits keep their size while `payload` shrinks; the two frame permits
are one each. -/
structure OutboundChunk where
  streamId : VarInt
  payload : Bytes
  fin : Bool
  connPermit : Option Nat
  streamPermit : Option Nat
deriving DecidableEq

/-- `WriterQueues`. The map `receive_windows` holds weak references to states that stay alive while
registered, so its keys say everything. -/
structure WriterQueues where
  byStream : AList (fun _ : Nat => List OutboundChunk) := ∅
  ready : List Nat := []
  control : List Frame := []
  closeFrame : Option Frame := none
  gracefulClose : Bool := false
  closing : Bool := false
  peerSettings : Bool := false
  peerMaxFrame : Nat := minFrameSize
  peerInitialStreamLimit : Nat := 0
  peerLimit : Nat := 0
  sent : Nat := 0
  controlTurn : Bool := true
  receiveWindows : List Nat := []

/-- The four outbound semaphores, two of them one for each stream. -/
structure OutboundBudget where
  connBytes : Semaphore
  frames : Semaphore
  streamBytes : Nat → Semaphore
  streamFrames : Nat → Semaphore

/-- The inbound side: the connection's window and byte budget, and every stream's receive direction
with its handle. -/
structure Inbox where
  receiveWindow : ReceiveWindow
  inboundConnBytes : Semaphore
  recv : Nat → RecvState
  recvStreams : Nat → RecvStream

/-- `ConnectionShared`. A stream id is never reused, so a `StreamState` is named by its id: the
heap of states is split by direction into `send`, `inbox.recv` and `life`, and the map `streams`
is the list of ids it holds. -/
structure Shared where
  limits : Limits
  localParity : Nat
  nextLocalStreamId : Nat
  nextRemoteStreamId : Nat
  streams : List Nat := []
  incomingStreams : List Nat := []
  queues : WriterQueues := {}
  send : Nat → SendState
  budget : OutboundBudget
  inbox : Inbox
  life : Nat → StreamLife
  openStreams : Semaphore
  closed : Bool := false
  terminated : Bool := false
  cleanupStarted : Bool := false

/-- The SETTINGS frame `Connection::new` queues. -/
def settingsFrame (l : Limits) : Frame :=
  .settings (.expect l.maxInboundConnectionBytes) (.expect l.maxInboundStreamBytes)
    (.expect l.maxFrameSize)

namespace Shared

/-- The state `Connection::new` builds once `limits.validate()` has passed. -/
def new (limits : Limits) (isClient : Bool) : Shared where
  limits := limits
  localParity := if isClient then 0 else 1
  nextLocalStreamId := if isClient then 0 else 1
  nextRemoteStreamId := if isClient then 1 else 0
  queues := { control := [settingsFrame limits] }
  send := fun _ => {}
  budget :=
    { connBytes := ⟨limits.maxOutboundConnectionBytes, false⟩
      frames := ⟨limits.maxQueuedOutboundFrames, false⟩
      streamBytes := fun _ => ⟨0, false⟩
      streamFrames := fun _ => ⟨0, false⟩ }
  inbox :=
    { receiveWindow := ReceiveWindow.new limits.maxInboundConnectionBytes
      inboundConnBytes := ⟨limits.maxInboundConnectionBytes, false⟩
      recv := fun _ => { receiveWindow := ReceiveWindow.new 0, inboundStreamBytes := ⟨0, false⟩ }
      recvStreams := fun _ => {} }
  life := fun _ => {}
  openStreams := ⟨limits.maxOpenStreams, false⟩

/-- `StreamState::new` for an id that takes over an admission permit. -/
def createStream (s : Shared) (id : Nat) : Shared :=
  { s with
    send := Function.update s.send id {}
    budget :=
      { s.budget with
        streamBytes := Function.update s.budget.streamBytes id ⟨s.limits.maxOutboundStreamBytes, false⟩
        streamFrames := Function.update s.budget.streamFrames id
          ⟨s.limits.maxQueuedOutboundFrames / s.limits.maxOpenStreams, false⟩ }
    inbox :=
      { s.inbox with
        recv := Function.update s.inbox.recv id
          { receiveWindow := ReceiveWindow.new s.limits.maxInboundStreamBytes
            inboundStreamBytes := ⟨s.limits.maxInboundStreamBytes, false⟩ }
        recvStreams := Function.update s.inbox.recvStreams id {} }
    life := Function.update s.life id { openPermit := true } }

end Shared
end Muxtls
