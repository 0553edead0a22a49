import Muxtls.Connection.Ids

namespace Muxtls

/-- The part of a connection that decides which frames its writer emits. -/
structure Sender where
  ids : Ids
  streams : List Nat
  closed : Bool
  queues : WriterQueues
  send : Nat → SendState

def Shared.sender (s : Shared) : Sender := ⟨s.ids, s.streams, s.closed, s.queues, s.send⟩

/-- A write that passed the size checks of `queue_stream_chunk`. -/
structure PendingWrite.Fits (l : Limits) (id : Nat) (w : PendingWrite) : Prop where
  frame : ∃ n, (Frame.stream (.expect id) w.fin w.payload).encodedLen = .ok n ∧ n ≤ l.maxFrameSize
  budget : w.payload.length ≤ l.maxOutboundStreamBytes
  nonempty : w.payload ≠ [] ∨ w.fin = true

/-- An event that says nothing about the sender. -/
def Event.Quiet : Event → Prop
  | .sent _ => True
  | .rejected _ => True
  | .handed _ _ => True
  | .ended _ => True
  | .accepted (.stream ..) => True
  | .accepted (.resetStream ..) => True
  | .accepted .ping => True
  | .accepted (.connectionClose ..) => True
  | _ => False

/-- The log of a `reset_stream` call that returns `Ok`, by the application or for STOP_SENDING. -/
def ResetLog (id : Nat) (log : List Event) : Prop :=
  log = [.resetOk id] ∨ log = [.accepted (.stopSending (.expect id)), .resetOk id]

/-- A credit frame for the connection or for a registered stream. -/
def Frame.Grants (streams : List Nat) : Frame → Prop
  | .maxData _ => True
  | .maxStreamData streamId _ => streamId.intoInner ∈ streams
  | _ => False

namespace Sender

/-- A new stream enters the map. -/
def create (v : Sender) (ids : Ids) (id : Nat) : Sender :=
  { v with
    ids := ids
    streams := v.streams ++ [id]
    queues := { v.queues with receiveWindows := v.queues.receiveWindows ++ [id] }
    send := Function.update v.send id {} }

def setSend (v : Sender) (id : Nat) (st : SendState) : Sender :=
  { v with send := Function.update v.send id st }

def setQueues (v : Sender) (q : WriterQueues) : Sender := { v with queues := q }

/-- The data pass takes from the head chunk of `id`; `ready` is the rotated rest of the ready list. -/
def dispatch (v : Sender) (id : Nat) (chunk : OutboundChunk) (rest : List OutboundChunk)
    (ready : List Nat) : Sender :=
  let count := v.queues.takeCount (v.send id) chunk
  let left := chunk.payload.drop count
  let chunks := if left.isEmpty then rest else { chunk with payload := left } :: rest
  (v.setQueues (v.queues.dispatch id ready chunks count)).setSend id
    ((v.send id).dispatch count (chunk.fin && left.isEmpty))

/-- The frame that the data pass makes of a head chunk. -/
def dataFrame (v : Sender) (id : Nat) (chunk : OutboundChunk) : Frame :=
  let count := v.queues.takeCount (v.send id) chunk
  .stream chunk.streamId (chunk.fin && (chunk.payload.drop count).isEmpty) (chunk.payload.take count)

/-- An error close or a shutdown has emptied the queues. -/
def cut (v : Sender) : Bool := v.queues.closing && !v.queues.gracefulClose

end Sender

/-- Everything a step of an endpoint can do to its sender. -/
inductive SendStep (l : Limits) : Sender → List Event → Sender → Prop
  | quiet (v : Sender) (log : List Event) (h : ∀ e ∈ log, e.Quiet) : SendStep l v log v
  | halt (v : Sender) (log : List Event) (h : ∀ e ∈ log, e.Quiet) :
    SendStep l v log { v with closed := true }
  | openLocal (v : Sender) (hid : v.ids.nextLocal ≤ varIntMax) (hclosed : v.closed = false)
    (hclosing : v.queues.closing = false) :
    SendStep l v [] ((v.setQueues (v.queues.pushControl (.openStream (.expect v.ids.nextLocal)))).create
      v.ids.takeLocal v.ids.nextLocal)
  | openRemote (v : Sender) (log : List Event) (hid : v.ids.nextRemote ≤ varIntMax)
    (hlog : log = [.accepted (.openStream (.expect v.ids.nextRemote))] ∨ ∃ error, log = [.rejected error]) :
    SendStep l v log (v.create v.ids.takeRemote v.ids.nextRemote)
  | pend (v : Sender) (id : Nat) (pending : Option PendingWrite) (hid : v.ids.Opened id)
    (hold : ∀ w, (v.send id).pending = some w → w.stage ≠ .enqueued)
    (hnew : ∀ w, pending = some w → w.Fits l id ∧ w.stage ≠ .enqueued) :
    SendStep l v [] (v.setSend id { v.send id with pending })
  | enqueue (v : Sender) (id : Nat) (w : PendingWrite) (hw : (v.send id).pending = some w)
    (hstage : w.stage ≠ .enqueued) (hclosing : v.queues.closing = false)
    (hterm : (v.send id).sendTerminal = false) :
    SendStep l v [.queued id w.payload w.fin]
      ((v.setQueues (v.queues.pushChunk id (Shared.heldChunk id w))).setSend id
        { v.send id with pending := if w.fin then some { w with stage := .enqueued } else none })
  | finish (v : Sender) (id : Nat) (w : PendingWrite) (hw : (v.send id).pending = some w)
    (hstage : w.stage = .enqueued) :
    SendStep l v [] (v.setSend id { v.send id with sendTerminal := true, pending := none })
  | reset (v : Sender) (id : Nat) (errorCode : ErrorCode) (log : List Event) (hid : v.ids.Opened id)
    (hdisp : (v.send id).sendDispatched = false) (hres : (v.send id).resetQueued = false)
    (hclosing : v.queues.closing = false) (hlog : ResetLog id log) :
    SendStep l v log
      ((v.setQueues ((v.queues.removeStream id).pushControl (.resetStream (.expect id) errorCode))).setSend
        id { v.send id with resetQueued := true, sendTerminal := true })
  | resetAgain (v : Sender) (id : Nat) (log : List Event)
    (h : (v.send id).sendDispatched = true ∨ (v.send id).resetQueued = true) (hlog : ResetLog id log) :
    SendStep l v log v
  | stopRetired (v : Sender) (id : Nat) (hid : v.ids.Opened id) (hs : id ∉ v.streams) :
    SendStep l v [.accepted (.stopSending (.expect id))] v
  | ping (v : Sender) (hclosing : v.queues.closing = false) (hnew : .ping ∉ v.queues.control) :
    SendStep l v [] (v.setQueues (v.queues.pushControl .ping))
  | stop (v : Sender) (id : Nat) (hid : v.ids.Opened id) (hclosing : v.queues.closing = false) :
    SendStep l v [.stopQueued id] (v.setQueues (v.queues.pushControl (.stopSending (.expect id))))
  | close (v : Sender) (code : ErrorCode) (reason fitted : String) (hcode : code.intoInner ≤ 1)
    (hclosed : v.closed = false) (hfit : l.fitCloseReason code.intoInner reason = .ok fitted) :
    SendStep l v [.closing code.intoInner reason fitted]
      { v with closed := true, queues := v.queues.publishClose code fitted (code.intoInner == 0) }
  | shutdown (v : Sender) (log : List Event) (h : ∀ e ∈ log, e.Quiet) :
    SendStep l v log { v with closed := true, streams := [], queues := v.queues.shutdown }
  | pop (v : Sender) (f : Frame) (control : List Frame) (hcut : v.cut = false)
    (hc : v.queues.control = f :: control) :
    SendStep l v [.emitted f] (v.setQueues { v.queues with control := control, controlTurn := false })
  | grant (v : Sender) (f : Frame) (hcut : v.cut = false) (hc : v.queues.control = [])
    (hf : f.Grants v.queues.receiveWindows) :
    SendStep l v [.emitted f] (v.setQueues { v.queues with controlTurn := false })
  | data (v : Sender) (id : Nat) (chunk : OutboundChunk) (rest : List OutboundChunk)
    (skipped later : List Nat) (hcut : v.cut = false)
    (hturn : v.queues.control = [] ∨ v.queues.controlTurn = false ∧ v.queues.urgent = false)
    (hready : v.queues.ready = skipped ++ id :: later)
    (hskip : ∀ j ∈ skipped, ∀ c ∈ (v.queues.chunksOf j).head?, v.queues.eligible (v.send j) c = false)
    (hchunk : v.queues.chunksOf id = chunk :: rest) (hel : v.queues.eligible (v.send id) chunk = true) :
    SendStep l v [.emitted (v.dataFrame id chunk)] (v.dispatch id chunk rest (later ++ skipped))
  | turn (v : Sender) : SendStep l v [] (v.setQueues { v.queues with controlTurn := true })
  | closeFrame (v : Sender) (f : Frame) (hclosing : v.queues.closing = true)
    (hdrain : v.cut = true ∨ v.queues.control = [] ∧ ∀ id, v.queues.chunksOf id = [])
    (hf : v.queues.takeCloseFrame.2 = some f) :
    SendStep l v [.emitted f] (v.setQueues { v.queues with closeFrame := none })
  | settings (v : Sender) (data streamData frameSize : VarInt) (hp : v.queues.peerSettings = false)
    (hmin : minFrameSize ≤ frameSize.intoInner) (hmax : frameSize.intoInner ≤ u32Max) :
    SendStep l v [.accepted (.settings data streamData frameSize)]
      (v.setQueues
        { v.queues with
          peerSettings := true
          peerLimit := data.intoInner
          peerInitialStreamLimit := streamData.intoInner
          peerMaxFrame := frameSize.intoInner })
  | maxData (v : Sender) (maximum : VarInt) (hp : v.queues.peerSettings = true) :
    SendStep l v [.accepted (.maxData maximum)]
      (v.setQueues { v.queues with peerLimit := max v.queues.peerLimit maximum.intoInner })
  | maxStreamData (v : Sender) (streamId maximum : VarInt) (hp : v.queues.peerSettings = true)
    (hs : streamId.intoInner ∈ v.streams) :
    SendStep l v [.accepted (.maxStreamData streamId maximum)]
      (v.setSend streamId.intoInner
        { v.send streamId.intoInner with
          peerLimit := max (v.send streamId.intoInner).peerLimit maximum.intoInner })
  | lateCredit (v : Sender) (streamId maximum : VarInt) (hid : v.ids.Opened streamId.intoInner)
    (hs : streamId.intoInner ∉ v.streams) :
    SendStep l v [.accepted (.maxStreamData streamId maximum)] v
  | retire (v : Sender) (id : Nat) :
    SendStep l v []
      { v with
        streams := v.streams.filter (· ≠ id)
        queues := { v.queues with receiveWindows := v.queues.receiveWindows.filter (· ≠ id) } }

/-- The sender of one side as a machine of its own. -/
def Sender.machine (l : Limits) (isClient : Bool) : Machine Sender Event where
  init v := v = (Shared.new l isClient).sender
  step := SendStep l

end Muxtls
