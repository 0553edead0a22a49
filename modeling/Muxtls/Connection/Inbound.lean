import Muxtls.Connection.State

namespace Muxtls
namespace Inbox

/-- Releases `count` bytes of a chunk: the two permits give that much back, then the two windows
count it as consumed. -/
def consume (b : Inbox) (id : Nat) (c : InboundChunk) (count : Nat) : Inbox × InboundChunk :=
  let (connPermit, connBack) := splitPermit c.connPermit count
  let (streamPermit, streamBack) := splitPermit c.streamPermit count
  let r := b.recv id
  ({ b with
     receiveWindow := (b.receiveWindow.consume count).1
     inboundConnBytes := b.inboundConnBytes.release connBack
     recv := Function.update b.recv id
       { r with
         receiveWindow := (r.receiveWindow.consume count).1
         inboundStreamBytes := r.inboundStreamBytes.release streamBack } },
   { c with connPermit, streamPermit })

/-- `Drop`: the bytes left are released, and then the permits with whatever they still hold. -/
def dropChunk (b : Inbox) (id : Nat) (c : InboundChunk) : Inbox :=
  let (b, c) := b.consume id c c.data.bytes.length
  let r := b.recv id
  { b with
    inboundConnBytes := b.inboundConnBytes.release (c.connPermit.getD 0)
    recv := Function.update b.recv id
      { r with inboundStreamBytes := r.inboundStreamBytes.release (c.streamPermit.getD 0) } }

/-- `InboundChunk::into_bytes`: the data is taken out before the emptied chunk is dropped. -/
def intoBytes (b : Inbox) (id : Nat) (c : InboundChunk) : Inbox × Bytes :=
  let (b, c) := b.consume id c c.data.bytes.length
  (b.dropChunk id { c with data := .shared [] }, c.data.bytes)

def setInbound (b : Inbox) (id : Nat) (inbound : InboundState) : Inbox :=
  { b with recv := Function.update b.recv id { b.recv id with inbound } }

/-- `inbound.chunks.clear()`. -/
def clearChunks (b : Inbox) (id : Nat) : Inbox :=
  ((b.recv id).inbound.chunks.foldl (fun b c => b.dropChunk id c) b).setInbound id
    { (b.recv id).inbound with chunks := [] }

def pageSize (l : Limits) : Nat := min l.maxInboundStreamBytes (16 * 1024)

/-- Where an accepted payload goes: onto the page at the tail when it fits there, else into a new
page when it is small, else it stays as it is. -/
def appendPayload (page : Nat) (payload : Bytes) (connPermit streamPermit : Option Nat)
    (chunks : List InboundChunk) : Except Error (List InboundChunk) :=
  match chunks.getLast? with
  | some ⟨.page data capacity, connTail, streamTail⟩ =>
    if data.length + payload.length ≤ page then
      match connTail, connPermit, streamTail, streamPermit with
      | some a, some b, some c, some d =>
        .ok (chunks.dropLast ++ [⟨.page (data ++ payload) capacity, some (a + b), some (c + d)⟩])
      | some _, none, _, _ => .error (.panicked "nonempty payload")
      | some _, some _, some _, none => .error (.panicked "nonempty payload")
      | _, _, _, _ => .error (.panicked "nonempty page")
    else .ok (chunks ++ [fresh])
  | _ => .ok (chunks ++ [fresh])
where
  fresh : InboundChunk :=
    ⟨if payload.length < (page + 1) / 2 then .page payload page else .shared payload, connPermit,
      streamPermit⟩

/-- `try_acquire_many_owned(payload_len as u32)`, skipped for an empty payload. -/
def acquirePermit (sem : Semaphore) (len : Nat) (message : String) :
    Except Error (Option Nat × Semaphore) :=
  if len = 0 then .ok (none, sem)
  else
    match sem.tryAcquire (len % 2 ^ 32) with
    | none => .error (.limitExceeded message)
    | some sem => .ok (some (len % 2 ^ 32), sem)

def pushInbound (b : Inbox) (l : Limits) (id : Nat) (payload : Bytes) : Inbox × Except Error Unit :=
  let r := b.recv id
  if r.recvDiscarded then
    ({ b with receiveWindow := (b.receiveWindow.consume payload.length).1 }, .ok ())
  else
    match acquirePermit b.inboundConnBytes payload.length
        "maximum buffered inbound connection bytes reached" with
    | .error error => (b, .error error)
    | .ok (connPermit, connBytes) =>
      match acquirePermit r.inboundStreamBytes payload.length
          "maximum buffered inbound stream bytes reached" with
      | .error error => (b, .error error)
      | .ok (streamPermit, streamBytes) =>
        if r.inbound.finReceived then
          (b, .error (.protocol "received stream data after FIN"))
        else
          match appendPayload (pageSize l) payload connPermit streamPermit r.inbound.chunks with
          | .error error => (b, .error error)
          | .ok chunks =>
            ({ b with
               inboundConnBytes := connBytes
               recv := Function.update b.recv id
                 { r with
                   inbound := { r.inbound with chunks }
                   inboundStreamBytes := streamBytes } }, .ok ())

def markReset (b : Inbox) (id errorCode : Nat) : Inbox :=
  (b.setInbound id { (b.recv id).inbound with resetError := some errorCode }).clearChunks id

def markRecvTerminal (b : Inbox) (id : Nat) : Inbox :=
  let r := b.recv id
  { b with
    recv := Function.update b.recv id
      { r with inbound := { r.inbound with finReceived := true }, recvTerminal := true } }

/-- The two `ReceiveWindow::receive` calls of `on_remote_stream_frame`; the first stays counted when
the second fails. -/
def receiveBoth (b : Inbox) (id len : Nat) : Inbox × Except Error Unit :=
  match b.receiveWindow.receive len with
  | .error error => (b, .error error)
  | .ok w =>
    let b := { b with receiveWindow := w }
    match (b.recv id).receiveWindow.receive len with
    | .error error => (b, .error error)
    | .ok w => ({ b with recv := Function.update b.recv id { b.recv id with receiveWindow := w } }, .ok ())

/-- The inbound part of `on_remote_stream_frame`. -/
def acceptData (b : Inbox) (l : Limits) (id : Nat) (payload : Bytes) (fin : Bool) :
    Inbox × Except Error Unit :=
  match b.receiveBoth id payload.length with
  | (b, .error error) => (b, .error error)
  | (b, .ok ()) =>
    match if payload.isEmpty then (b, .ok ()) else b.pushInbound l id payload with
    | (b, .error error) => (b, .error error)
    | (b, .ok ()) => (if fin then b.markRecvTerminal id else b, .ok ())

def markConnectionClosed (b : Inbox) (id : Nat) : Inbox :=
  let r := b.recv id
  { b with
    recv := Function.update b.recv id
      { r with
        inbound := { r.inbound with connectionClosed := true }
        inboundStreamBytes := r.inboundStreamBytes.close } }

def discardInbound (b : Inbox) (id : Nat) : Inbox :=
  ({ b with recv := Function.update b.recv id { b.recv id with recvDiscarded := true } }).clearChunks
    id

/-- What one poll of `StreamState::read_chunk` finds. -/
inductive ReadChunk where
  | chunk (c : InboundChunk)
  | ended
  | failed (error : Error)
  | pending

def readChunk (b : Inbox) (id : Nat) : Inbox × ReadChunk :=
  let r := b.recv id
  match r.inbound.resetError, r.inbound.chunks with
  | some errorCode, _ => (b, .failed (.streamReset errorCode))
  | none, c :: chunks => (b.setInbound id { r.inbound with chunks }, .chunk c)
  | none, [] =>
    if r.inbound.finReceived || r.recvTerminal then
      (b.setInbound id { r.inbound with finReceived := true }, .ended)
    else if r.inbound.connectionClosed then (b, .failed .connectionClosed)
    else (b, .pending)

def setReadBuf (b : Inbox) (id : Nat) (readBuf : Option InboundChunk) : Inbox :=
  { b with recvStreams := Function.update b.recvStreams id { b.recvStreams id with readBuf } }

/-- The outcome of a read by the application: bytes, end of stream, an error, or nothing yet. -/
inductive ReadOutcome where
  | bytes (data : Bytes)
  | ended
  | failed (error : Error)
  | pending

/-- `RecvStream::read_chunk`. -/
def readWhole (b : Inbox) (id : Nat) : Inbox × ReadOutcome :=
  match b.readChunk id with
  | (b, .chunk c) =>
    let (b, data) := b.intoBytes id c
    (b, .bytes data)
  | (b, .ended) => (b, .ended)
  | (b, .failed error) => (b, .failed error)
  | (b, .pending) => (b, .pending)

/-- The loop of `RecvStream::poll_read` with room for `room` bytes. A turn either returns, drops an
emptied remainder or takes a chunk off the queue, so `2 * chunks + 2` turns are enough. -/
def pollReadLoop (id room : Nat) : Nat → Inbox → Inbox × ReadOutcome
  | 0, b => (b, .pending)
  | turns + 1, b =>
    match (b.recvStreams id).readBuf with
    | some c =>
      let count := min c.data.bytes.length room
      if count = 0 then pollReadLoop id room turns ((b.setReadBuf id none).dropChunk id c)
      else
        let out := c.data.bytes.take count
        let (b, c) := b.consume id { c with data := c.data.advance count } count
        if c.data.bytes = [] then ((b.setReadBuf id none).dropChunk id c, .bytes out)
        else (b.setReadBuf id (some c), .bytes out)
    | none =>
      if (b.recvStreams id).eof then (b, .ended)
      else
        match b.readChunk id with
        | (b, .chunk c) => pollReadLoop id room turns (b.setReadBuf id (some c))
        | (b, .ended) =>
          ({ b with recvStreams := Function.update b.recvStreams id { b.recvStreams id with eof := true } },
            .ended)
        | (b, .failed error) => (b, .failed error)
        | (b, .pending) => (b, .pending)

/-- `RecvStream::poll_read`. -/
def pollRead (b : Inbox) (id room : Nat) : Inbox × ReadOutcome :=
  if room = 0 then (b, .bytes [])
  else pollReadLoop id room (2 * (b.recv id).inbound.chunks.length + 3) b

/-- The fields of a dropped `RecvStream`: its remainder goes with it. -/
def dropRemainder (b : Inbox) (id : Nat) : Inbox :=
  match (b.recvStreams id).readBuf with
  | none => b
  | some c => (b.setReadBuf id none).dropChunk id c

end Inbox
end Muxtls
