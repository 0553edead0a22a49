import Muxtls.Connection.Core
import Muxtls.Receiver.Inbox

namespace Muxtls

/-- A life without its API modes. -/
def StreamLife.handles (life : StreamLife) : StreamLife := { life with sendMode := 0, recvMode := 0 }

/-- Who holds what on a connection: stream handles, admission permits and drop marks. -/
structure Holdings where
  limits : Limits
  ids : Ids
  streams : List Nat
  incoming : List Nat
  life : Nat → StreamLife
  terminal : Nat → Bool
  discarded : Nat → Bool
  permits : Nat
  closed : Bool
  shut : Bool

def Core.holdings (c : Core) : Holdings where
  limits := c.limits
  ids := c.ids
  streams := c.streams
  incoming := c.incoming
  life id := (c.life id).handles
  terminal id := (c.inbox.dir id).terminal
  discarded id := (c.inbox.dir id).discarded
  permits := c.permits
  closed := c.closed
  shut := c.shut

def Shared.holdings (s : Shared) : Holdings := s.core.holdings

/-- The holdings with what the tasks have in hand and still have to do. -/
structure Ledger extends Holdings where
  opening : Bool
  hand : Option Frame
  readerDone : Bool
  writerDone : Bool
  todo : Task → List TaskOp

def Endpoint.ledger (e : Endpoint) : Ledger :=
  ⟨e.shared.holdings, e.opening, e.hand, e.readerDone, e.writerDone, e.todo⟩

/-- An event that says nothing about the ledger. -/
def Event.Idle : Event → Prop
  | .emitted _ => False
  | .sent _ => False
  | .accepted _ => False
  | .stopQueued _ => False
  | _ => True

namespace Ledger

def setLife (v : Ledger) (id : Nat) (life : StreamLife) : Ledger :=
  { v with life := Function.update v.life id life }

def setTodo (v : Ledger) (task : Task) (ops : List TaskOp) : Ledger :=
  { v with todo := Function.update v.todo task ops }

/-- A stream with a new id takes over an admission permit. -/
def create (v : Ledger) (ids : Ids) (id : Nat) (life : StreamLife) : Ledger :=
  { v with
    ids := ids
    streams := v.streams ++ [id]
    life := Function.update v.life id life
    terminal := Function.update v.terminal id false
    discarded := Function.update v.discarded id false }

/-- When a task step leaves the ledger as it is. -/
def Skips (v : Ledger) : TaskOp → Prop
  | .complete id => id ∉ v.streams
  | .retire id => ¬ (id ∈ v.streams ∧ (v.life id).sendComplete = true ∧ v.terminal id = true)
  | .cleanRecv id => (v.life id).recvDropped = false
  | .stopSending _ => False
  | .markClosed => False
  | _ => True

end Ledger

/-- What a task step does to the ledger, and what the task has to do next. -/
inductive OpStep : Ledger → TaskOp → List Event → Ledger → List TaskOp → Prop
  | skip (v : Ledger) (op : TaskOp) (log : List Event) (h : v.Skips op) (hlog : ∀ e ∈ log, e.Idle) :
    OpStep v op log v []
  | markClosed (v : Ledger) (h : v.closed = true) : OpStep v .markClosed [] v []
  | complete (v : Ledger) (id : Nat) (hs : id ∈ v.streams) :
    OpStep v (.complete id) [] (v.setLife id { v.life id with sendComplete := true }) []
  | retire (v : Ledger) (id : Nat) (hs : id ∈ v.streams) (hc : (v.life id).sendComplete = true)
    (ht : v.terminal id = true) :
    OpStep v (.retire id) []
      { v.setLife id { v.life id with openPermit := false } with
        permits := v.permits + (v.life id).openPermit.toNat } [.remove id]
  | remove (v : Ledger) (id : Nat) (ht : v.terminal id = true) :
    OpStep v (.remove id) [] { v with streams := v.streams.filter (· ≠ id) } []
  | cleanSend (v : Ledger) (id : Nat) (log : List Event) (h : (v.life id).sendDropped = true)
    (hlog : ∀ e ∈ log, e.Idle) :
    OpStep v (.cleanSend id) log (v.setLife id { v.life id with sendDropped := false }) [.retire id]
  | cleanRecv (v : Ledger) (id : Nat) (h : (v.life id).recvDropped = true) :
    OpStep v (.cleanRecv id) []
      { v.setLife id { v.life id with recvDropped := false } with
        discarded := Function.update v.discarded id true }
      (if !v.terminal id && !v.closed then [.stopSending id, .retire id] else [.retire id])
  | stopQueued (v : Ledger) (id : Nat) : OpStep v (.stopSending id) [.stopQueued id] v []
  | stopFailed (v : Ledger) (id : Nat) (h : v.closed = true) : OpStep v (.stopSending id) [] v []

/-- What a step of an endpoint can do to its ledger. -/
inductive LedgerStep : Ledger → List Event → Ledger → Prop
  | quiet (v : Ledger) (log : List Event) (h : ∀ e ∈ log, e.Idle) : LedgerStep v log v
  | close (v : Ledger) : LedgerStep v [] { v with closed := true }
  | shut (v : Ledger) : LedgerStep v [] { v with closed := true, shut := true, streams := [] }
  | openStart (v : Ledger) (n : Nat) (hp : v.permits = n + 1) (ho : v.opening = false) :
    LedgerStep v [] { v with permits := n, opening := true }
  | openFail (v : Ledger) (ho : v.opening = true) :
    LedgerStep v [] { v with permits := v.permits + 1, opening := false }
  | openLocal (v : Ledger) (ho : v.opening = true) (hid : v.ids.nextLocal ≤ varIntMax) :
    LedgerStep v []
      { v.create v.ids.takeLocal v.ids.nextLocal { openPermit := true, sendHandles := 1, recvHandles := 1 } with
        opening := false }
  | openRemote (v : Ledger) (n : Nat) (incoming : List Nat) (hp : v.permits = n + 1)
    (hid : v.ids.nextRemote ≤ varIntMax)
    (hin : incoming = v.incoming ∨ incoming = v.incoming ++ [v.ids.nextRemote]) :
    LedgerStep v []
      { v.create v.ids.takeRemote v.ids.nextRemote { openPermit := true } with
        permits := n, incoming := incoming }
  | accept (v : Ledger) (id : Nat) (incoming : List Nat) (h : v.incoming = id :: incoming) :
    LedgerStep v []
      { v.setLife id
          { v.life id with
            sendHandles := (v.life id).sendHandles + 1
            recvHandles := (v.life id).recvHandles + 1 } with
        incoming := incoming }
  | dropSend (v : Ledger) (id : Nat) (h : (v.life id).sendHandles ≠ 0) :
    LedgerStep v []
      (v.setLife id
        { v.life id with
          sendHandles := (v.life id).sendHandles - 1
          sendDropped := (v.life id).sendDropped || (v.life id).sendHandles == 1 })
  | dropRecv (v : Ledger) (id : Nat) (h : (v.life id).recvHandles ≠ 0) :
    LedgerStep v []
      (v.setLife id
        { v.life id with
          recvHandles := (v.life id).recvHandles - 1
          recvDropped := (v.life id).recvDropped || (v.life id).recvHandles == 1 })
  | cleanup (v : Ledger) (order : List Nat) (h : v.todo .cleanup = []) :
    LedgerStep v [] (v.setTodo .cleanup (order.flatMap fun id => [.cleanSend id, .cleanRecv id]))
  | emit (v : Ledger) (f : Frame) (hd : v.writerDone = false) (hh : v.hand = none)
    (ht : v.todo .writer = []) : LedgerStep v [.emitted f] { v with hand := some f }
  | sent (v : Ledger) (f : Frame) (hh : v.hand = some f) :
    LedgerStep v [.sent f] ({ v with hand := none }.setTodo .writer f.terminalOps)
  | stopWriter (v : Ledger) (ht : v.hand ≠ none ∨ v.todo .writer = []) :
    LedgerStep v [] ({ v with writerDone := true, hand := none }.setTodo .writer [TaskOp.markClosed])
  | received (v : Ledger) (f : Frame) (hd : v.readerDone = false) (ht : v.todo .reader = []) :
    LedgerStep v [.accepted f] v
  | ended (v : Ledger) (f : Frame) (id : Nat) (hd : v.readerDone = false) (ht : v.todo .reader = [])
    (hs : id ∈ v.streams) :
    LedgerStep v [.accepted f]
      ({ v with terminal := Function.update v.terminal id true }.setTodo .reader [.retire id])
  | stopReader (v : Ledger) (ops : List TaskOp) (h : ops = [] ∨ ∃ reason, ops = [.failClose reason])
    (ht : v.todo .reader = []) :
    LedgerStep v [] ({ v with readerDone := true }.setTodo .reader (ops ++ [TaskOp.markClosed]))
  | work (v v' : Ledger) (task : Task) (op : TaskOp) (ops more : List TaskOp) (log : List Event)
    (h : v.todo task = op :: ops) (hop : OpStep v op log v' more) :
    LedgerStep v log (v'.setTodo task (more ++ ops))

/-- The ledger of one side as a machine of its own. -/
def Ledger.machine (l : Limits) (isClient : Bool) : Machine Ledger Event where
  init v := v = Endpoint.ledger { shared := .new l isClient }
  step := LedgerStep

end Muxtls
