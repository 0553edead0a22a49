import Muxtls.Stream.Calls

namespace Muxtls

/-- The kinds of `io::Error` that a `SendStream` reports. -/
inductive IoErrorKind where
  | brokenPipe
  | invalidInput
  | other
deriving DecidableEq

structure IoError where
  kind : IoErrorKind
  message : String
deriving DecidableEq

/-- `to_io_error`. -/
def Error.toIoError (err : Error) : IoError := ⟨.other, err.display⟩

/-- What a `SendStream` owns beside its stream. Both futures are `send_stream_chunk` calls: `writeFut`
is the chunk of the one that writes, and `shutdownFut` says whether there is one for the FIN. Once polled,
a future is the pending write of the stream, which has no other caller. -/
structure SendStream where
  writeFut : Option Bytes := none
  shutdownFut : Bool := false
  shutdownComplete : Bool := false
deriving DecidableEq

/-- The methods of `AsyncWrite`. -/
inductive PollCall where
  | write (buf : Bytes)
  | flush
  | shutdown
deriving DecidableEq

/-- Where a call stands; between two points other tasks may run. -/
inductive Point where
  | idle
  /-- `poll_write` has found the connection open -/
  | checking (buf : Bytes)
  /-- the future for the chunk or the FIN is polled, and `select!` looks at `send_terminal` -/
  | selecting (call : PollCall) (fin : Bool)
  /-- `queue_stream_chunk` runs -/
  | queueing (call : PollCall) (fin : Bool)
deriving DecidableEq

inductive StreamEvent where
  | endpoint (event : Event)
  /-- the future for the chunk or the FIN is ready -/
  | resolved (fin : Bool) (result : Except Error Unit)
  /-- a call returned `Pending` (`none`) or `Ready`; an `Ok` without a value is `0` -/
  | returned (call : PollCall) (result : Option (Except IoError Nat))

/-- `queue_stream_chunk` up to its next await; `none` while that await is not ready. -/
def Shared.queueTurn (s : Shared) (id : Nat) (payload : Bytes) (fin : Bool) :
    Option (Shared × List Event × Option (Except Error Unit)) :=
  match (s.send id).pending with
  | none =>
    match s.startWrite id payload fin with
    | none => none
    | some (s, .error error) => some (s, [], some (.error error))
    | some (s, .ok ()) => some (s, [], if (s.send id).pending.isNone then some (.ok ()) else none)
  | some w =>
    match w.stage with
    | .connBytes =>
      match s.enqueueWrite id with
      | none => none
      | some (s, .error error) => some (s, [], some (.error error))
      | some (s, .ok w) => some (s, [.queued id w.payload w.fin], if w.fin then none else some (.ok ()))
    | .enqueued => (s.finishWrite id).map fun s => (s, [], some (.ok ()))
    | _ =>
      (s.acquireWrite id).map fun s =>
        (s, [], if (s.send id).pending.isNone then some (.error .connectionClosed) else none)

/-- An endpoint with a `SendStream` for one of its streams, and the `AsyncWrite` call in progress. -/
structure AsyncWrite where
  endpoint : Endpoint
  stream : SendStream := {}
  point : Point := .idle

namespace AsyncWrite

def setStream (w : AsyncWrite) (stream : SendStream) : AsyncWrite := { w with stream }

def setShared (w : AsyncWrite) (shared : Shared) : AsyncWrite := { w with endpoint := { w.endpoint with shared } }

def goto (w : AsyncWrite) (point : Point) : AsyncWrite × List StreamEvent := ({ w with point }, [])

def ret (w : AsyncWrite) (call : PollCall) (result : Option (Except IoError Nat)) : AsyncWrite × List StreamEvent :=
  ({ w with point := .idle }, [.returned call result])

/-- `select_mode`, with which every method begins. -/
def selectMode (w : AsyncWrite) (id : Nat) (call : PollCall) (body : AsyncWrite → AsyncWrite × List StreamEvent) :
    AsyncWrite × List StreamEvent :=
  let life := w.endpoint.shared.life id
  match Shared.selectMode life.sendMode 2 with
  | .error error => w.ret call (some (.error error.toIoError))
  | .ok sendMode => body (w.setShared (w.endpoint.shared.setLife id { life with sendMode }))

/-- What each method does once no earlier chunk is in its way: `poll_write` accepts a slice of its own
buffer, `poll_flush` is done, and `poll_shutdown` polls the future for the FIN. -/
def flushed (w : AsyncWrite) (id : Nat) : PollCall → AsyncWrite × List StreamEvent
  | .write buf =>
    let maxPayload := w.endpoint.shared.maxStreamPayload id
    if maxPayload = 0 then
      w.ret (.write buf) (some (.error ⟨.invalidInput, "max frame size cannot encode stream data"⟩))
    else
      let chunk := buf.take maxPayload
      (w.setStream { w.stream with writeFut := some chunk }).ret (.write buf) (some (.ok chunk.length))
  | .flush => w.ret .flush (some (.ok 0))
  | .shutdown => (w.setStream { w.stream with shutdownFut := true }).goto (.selecting .shutdown true)

def pollWriteFut (w : AsyncWrite) (id : Nat) (call : PollCall) : AsyncWrite × List StreamEvent :=
  if w.stream.writeFut.isSome then w.goto (.selecting call false) else w.flushed id call

/-- `poll_flush`, by itself or for `poll_write`. -/
def pollFlush (w : AsyncWrite) (id : Nat) (call : PollCall) : AsyncWrite × List StreamEvent :=
  w.selectMode id call fun w => w.pollWriteFut id call

def brokenPipe : IoError := ⟨.brokenPipe, "stream already shut down"⟩

/-- `poll_write` up to its look at `closed`. -/
def pollWrite (w : AsyncWrite) (id : Nat) (buf : Bytes) : AsyncWrite × List StreamEvent :=
  w.selectMode id (.write buf) fun w =>
    if buf = [] then w.ret (.write buf) (some (.ok 0))
    else if w.endpoint.shared.closed then w.ret (.write buf) (some (.error brokenPipe))
    else w.goto (.checking buf)

/-- The rest of `poll_write`. -/
def checkWrite (w : AsyncWrite) (id : Nat) (buf : Bytes) : AsyncWrite × List StreamEvent :=
  if (w.endpoint.shared.send id).sendTerminal || w.stream.shutdownFut || w.stream.shutdownComplete then
    w.ret (.write buf) (some (.error brokenPipe))
  else w.pollFlush id (.write buf)

def pollShutdown (w : AsyncWrite) (id : Nat) : AsyncWrite × List StreamEvent :=
  w.selectMode id .shutdown fun w =>
    if w.stream.shutdownComplete then w.ret .shutdown (some (.ok 0)) else w.pollWriteFut id .shutdown

def enter (w : AsyncWrite) (id : Nat) : PollCall → AsyncWrite × List StreamEvent
  | .write buf => w.pollWrite id buf
  | .flush => w.pollFlush id .flush
  | .shutdown => w.pollShutdown id

/-- The polled future is ready. -/
def resolve (w : AsyncWrite) (id : Nat) (call : PollCall) (fin : Bool) (result : Except Error Unit) :
    AsyncWrite × List StreamEvent :=
  let (w, events) :=
    match fin, result with
    | false, .ok () => (w.setStream { w.stream with writeFut := none }).flushed id call
    | false, .error error => (w.setStream { w.stream with writeFut := none }).ret call (some (.error error.toIoError))
    | true, .ok () =>
      (w.setStream { w.stream with shutdownFut := false, shutdownComplete := true }).ret call (some (.ok 0))
    | true, .error error =>
      (w.setStream { w.stream with shutdownFut := false }).ret call (some (.error error.toIoError))
  (w, .resolved fin result :: events)

/-- The chunk of a future. -/
def chunk (w : AsyncWrite) (fin : Bool) : Bytes := if fin then [] else w.stream.writeFut.getD []

/-- What can happen: a step elsewhere in the endpoint, a call of a method, a step of the call in
progress, the branch of `select!` for `send_terminal`, or an await of the polled future that is not ready. -/
inductive Move where
  | other (a : Act)
  | call (call : PollCall)
  | turn
  | notice
  | pend

def turn (w : AsyncWrite) (id : Nat) : Option (AsyncWrite × List StreamEvent) :=
  match w.point with
  | .idle => none
  | .checking buf => some (w.checkWrite id buf)
  | .selecting call fin => some (w.goto (.queueing call fin))
  | .queueing call fin =>
    match w.endpoint.shared.queueTurn id (w.chunk fin) fin with
    | none => none
    | some (s, events, none) => some (w.setShared s, events.map .endpoint)
    | some (s, events, some result) =>
      let (w, more) := (w.setShared s).resolve id call fin result
      some (w, events.map .endpoint ++ more)

/-- The branch for `send_terminal` drops the other one. It is woken by a notification, so a poll may
still miss a store whose notification is to come. -/
def notice (w : AsyncWrite) (id : Nat) : Option (AsyncWrite × List StreamEvent) :=
  match w.point with
  | .selecting call fin =>
    if (w.endpoint.shared.send id).sendTerminal then
      some ((w.setShared (w.endpoint.shared.cancelWrite id)).resolve id call fin
        (.error (.protocol "stream send side closed")))
    else none
  | _ => none

def pend (w : AsyncWrite) (id : Nat) : Option (AsyncWrite × List StreamEvent) :=
  match w.point with
  | .queueing call _ =>
    -- there is no await between the enqueue of a FIN and the store that follows it
    if ((w.endpoint.shared.send id).pending.map (·.stage)) = some .enqueued then none else some (w.ret call none)
  | _ => none

def step (id : Nat) (w : AsyncWrite) : Move → Option (AsyncWrite × List StreamEvent)
  | .other a =>
    if a.own = some id then none
    else (w.endpoint.step a).map fun (endpoint, events) => ({ w with endpoint }, events.map .endpoint)
  | .call call => if w.point = .idle then some (w.enter id call) else none
  | .turn => w.turn id
  | .notice => w.notice id
  | .pend => w.pend id

/-- The runs of a new `SendStream` for stream `id`, from any state of the endpoint in which the stream has
a handle and no write call in progress. -/
def machine (l : Limits) (isClient : Bool) (id : Nat) : Machine AsyncWrite StreamEvent :=
  .ofStep (fun w => (∃ log, (Endpoint.machine l isClient).Reach w.endpoint log) ∧
    (w.endpoint.shared.life id).sendHandles ≠ 0 ∧ (w.endpoint.shared.send id).pending = none ∧
    w.stream = {} ∧ w.point = .idle) (step id)

/-- The slices `buf[..n]` of the calls that returned `Ready(Ok(n))`. -/
def slices (log : List StreamEvent) : List Bytes :=
  log.filterMap fun
    | .returned (.write buf) (some (.ok n)) => some (buf.take n)
    | _ => none

/-- The chunks enqueued for the stream, with their FIN marks. -/
def enqueued (id : Nat) (log : List StreamEvent) : List (Bytes × Bool) :=
  log.filterMap fun
    | .endpoint (.queued j payload fin) => if j = id then some (payload, fin) else none
    | _ => none

/-- No call has reported an error. -/
def Clean (log : List StreamEvent) : Prop := ∀ call error, .returned call (some (.error error)) ∉ log

end AsyncWrite
end Muxtls
