import Muxtls.Connection.Core
import Muxtls.Receiver.Read

namespace Muxtls

/-- Who holds the receive side of a stream: nobody yet, a `RecvStream`, or nobody any more. -/
inductive Holder where
  | waiting
  | held
  | gone
deriving DecidableEq

def StreamLife.holder (life : StreamLife) (discarded : Bool) : Holder :=
  if life.recvDropped || discarded then .gone
  else if life.recvHandles = 0 then .waiting
  else .held

/-- The part of a connection that takes frames in and hands bytes out. -/
structure Receiver where
  limits : Limits
  ids : Ids
  streams : List Nat
  inbox : Inbox
  holder : Nat → Holder
  mode : Nat → Nat
  shut : Bool
  done : Bool

def Core.receiver (c : Core) (done : Bool) : Receiver where
  limits := c.limits
  ids := c.ids
  streams := c.streams
  inbox := c.inbox
  holder id := (c.life id).holder (c.inbox.dir id).discarded
  mode id := (c.life id).recvMode
  shut := c.shut
  done := done

def Endpoint.receiver (e : Endpoint) : Receiver := e.shared.core.receiver e.readerDone

/-- An event that says nothing about the receiver. -/
def Event.Silent : Event → Prop
  | .emitted f => f.isCredit = false
  | .accepted (.stream ..) => False
  | .accepted (.resetStream ..) => False
  | .rejected _ => False
  | .handed _ _ => False
  | .ended _ => False
  | _ => True

/-- The inbox with the state of a new stream. -/
def Inbox.create (b : Inbox) (l : Limits) (id : Nat) : Inbox :=
  { b with
    recv := Function.update b.recv id
      { receiveWindow := ReceiveWindow.new l.maxInboundStreamBytes
        inboundStreamBytes := ⟨l.maxInboundStreamBytes, false⟩ }
    recvStreams := Function.update b.recvStreams id {} }

/-- The inbox after `mark_closed`. -/
def Inbox.shut (b : Inbox) (streams : List Nat) : Inbox :=
  streams.foldl markConnectionClosed { b with inboundConnBytes := b.inboundConnBytes.close }

theorem Inbox.shut_dir (b : Inbox) (streams : List Nat) (id : Nat) :
    ∃ closed, (b.shut streams).dir id =
      { b.dir id with inbound := { (b.dir id).inbound with connectionClosed := closed } } :=
  foldl_markConnectionClosed_dir { b with inboundConnBytes := b.inboundConnBytes.close } streams id

theorem Inbox.shut_dir_of_not_mem (b : Inbox) (streams : List Nat) (id : Nat) (h : id ∉ streams) :
    (b.shut streams).dir id = b.dir id :=
  foldl_markConnectionClosed_dir_of_not_mem { b with inboundConnBytes := b.inboundConnBytes.close } streams
    id h

theorem Inbox.create_dir (b : Inbox) (l : Limits) (id : Nat) :
    (b.create l id).dir = Function.update b.dir id ⟨{}, false, false, {}⟩ := by
  funext j
  by_cases hj : j = id
  · subst hj
    simp [create, dir]
  · simp [create, dir, Function.update_of_ne hj]

def Inbox.grantConn (b : Inbox) : Inbox := { b with receiveWindow := b.receiveWindow.update.1 }

def Inbox.grantStream (b : Inbox) (id : Nat) : Inbox :=
  { b with
    recv := Function.update b.recv id
      { b.recv id with receiveWindow := (b.recv id).receiveWindow.update.1 } }

theorem Inbox.grantStream_dir (b : Inbox) (id : Nat) : (b.grantStream id).dir = b.dir :=
  dir_setWindow b id _ _ _ rfl rfl

namespace Receiver

def create (v : Receiver) (ids : Ids) (id : Nat) (holder : Holder) : Receiver :=
  { v with
    ids := ids
    streams := v.streams ++ [id]
    inbox := v.inbox.create v.limits id
    holder := Function.update v.holder id holder
    mode := Function.update v.mode id 0 }

end Receiver

/-- Everything a step of an endpoint can do to its receiver. -/
inductive RecvStep : Receiver → List Event → Receiver → Prop
  | quiet (v : Receiver) (log : List Event) (done : Bool) (h : ∀ e ∈ log, e.Silent)
    (hd : v.done = true → done = true) : RecvStep v log { v with done := done }
  | reject (v : Receiver) (error : Error) : RecvStep v [.rejected error] { v with done := true }
  | shut (v : Receiver) (log : List Event) (done : Bool) (h : ∀ e ∈ log, e.Silent)
    (hd : v.done = true → done = true) :
    RecvStep v log { v with streams := [], inbox := v.inbox.shut v.streams, shut := true, done := done }
  | openLocal (v : Receiver) (hid : v.ids.nextLocal ≤ varIntMax) :
    RecvStep v [] (v.create v.ids.takeLocal v.ids.nextLocal .held)
  | openRemote (v : Receiver) (log : List Event) (done : Bool) (hid : v.ids.nextRemote ≤ varIntMax)
    (h : log = [.accepted (.openStream (.expect v.ids.nextRemote))] ∧ done = v.done ∨
      (∃ error, log = [.rejected error]) ∧ done = true) :
    RecvStep v log { v.create v.ids.takeRemote v.ids.nextRemote .waiting with done := done }
  | accept (v : Receiver) (id : Nat) (h : v.holder id = .waiting) (hid : v.ids.Opened id) :
    RecvStep v [] { v with holder := Function.update v.holder id .held }
  | drop (v : Receiver) (id : Nat) (h : v.holder id = .held) :
    RecvStep v []
      { v with inbox := v.inbox.dropRemainder id, holder := Function.update v.holder id .gone }
  | discard (v : Receiver) (id : Nat) (h : v.holder id = .gone) :
    RecvStep v [] { v with inbox := v.inbox.discardInbound id }
  | free (v : Receiver) (id : Nat) (h : v.holder id = .gone) :
    RecvStep v [] { v with inbox := v.inbox.clearChunks id }
  | readWhole (v : Receiver) (id : Nat) (h : v.holder id = .held) (hm : v.mode id ≠ 2) :
    RecvStep v (Shared.readEvents id (v.inbox.readWhole id).2)
      { v with inbox := (v.inbox.readWhole id).1, mode := Function.update v.mode id 1 }
  | pollRead (v : Receiver) (id room : Nat) (h : v.holder id = .held) :
    RecvStep v (Shared.readEvents id (v.inbox.pollRead id room).2)
      { v with inbox := (v.inbox.pollRead id room).1, mode := Function.update v.mode id 2 }
  | stream (v : Receiver) (streamId : VarInt) (fin : Bool) (payload : Bytes) (inbox : Inbox)
    (hd : v.done = false) (hs : streamId.intoInner ∈ v.streams)
    (ht : (v.inbox.dir streamId.intoInner).terminal = false)
    (h : v.inbox.acceptData v.limits streamId.intoInner payload fin = (inbox, .ok ())) :
    RecvStep v [.accepted (.stream streamId fin payload)] { v with inbox := inbox }
  | refuse (v : Receiver) (id : Nat) (fin : Bool) (payload : Bytes) (inbox : Inbox) (error : Error)
    (hs : id ∈ v.streams) (h : v.inbox.acceptData v.limits id payload fin = (inbox, .error error)) :
    RecvStep v [.rejected error] { v with inbox := inbox, done := true }
  | reset (v : Receiver) (streamId : VarInt) (errorCode : ErrorCode) (hd : v.done = false)
    (hs : streamId.intoInner ∈ v.streams) (ht : (v.inbox.dir streamId.intoInner).terminal = false) :
    RecvStep v [.accepted (.resetStream streamId errorCode)]
      { v with
        inbox := (v.inbox.markReset streamId.intoInner errorCode.intoInner).markRecvTerminal
          streamId.intoInner }
  | grantConn (v : Receiver) (maximum : VarInt) (h : v.inbox.receiveWindow.update.2 = some maximum) :
    RecvStep v [.emitted (.maxData maximum)] { v with inbox := v.inbox.grantConn }
  | grantStream (v : Receiver) (id : Nat) (maximum : VarInt) (hs : id ∈ v.streams)
    (ht : (v.inbox.dir id).terminal = false) (hd : (v.inbox.dir id).discarded = false)
    (h : (v.inbox.recv id).receiveWindow.update.2 = some maximum) :
    RecvStep v [.emitted (.maxStreamData (.expect id) maximum)] { v with inbox := v.inbox.grantStream id }
  | retire (v : Receiver) (id : Nat) (ht : (v.inbox.dir id).terminal = true) :
    RecvStep v [] { v with streams := v.streams.filter (· ≠ id) }

/-- The receiver of one side as a machine of its own. -/
def Receiver.machine (l : Limits) (isClient : Bool) : Machine Receiver Event where
  init v := v = Endpoint.receiver { shared := .new l isClient }
  step := RecvStep

end Muxtls
