import Muxtls.Connection.Inbound

namespace Muxtls

/-- A receive direction without its window and its permits. -/
structure RecvDir where
  inbound : InboundState
  terminal : Bool
  discarded : Bool
  handle : RecvStream

/-- The direction after a payload was taken in as `chunks`. -/
def RecvDir.receive (d : RecvDir) (chunks : List InboundChunk) (fin : Bool) : RecvDir :=
  { d with
    inbound := { d.inbound with chunks, finReceived := d.inbound.finReceived || fin }
    terminal := d.terminal || fin }

namespace Inbox

def dir (b : Inbox) (id : Nat) : RecvDir :=
  ⟨(b.recv id).inbound, (b.recv id).recvTerminal, (b.recv id).recvDiscarded, b.recvStreams id⟩

variable (b : Inbox) (id : Nat)

/-- A new state at `id` shows there and nowhere else. -/
theorem dir_setRecv (b' : Inbox) (r : RecvState) (hr : b'.recv = Function.update b.recv id r)
    (hs : b'.recvStreams = b.recvStreams) :
    b'.dir = Function.update b.dir id ⟨r.inbound, r.recvTerminal, r.recvDiscarded, b.recvStreams id⟩ := by
  funext j
  by_cases hj : j = id
  · subst hj
    simp [dir, hr, hs]
  · simp [dir, hr, hs, Function.update_of_ne hj]

/-- A new handle at `id` shows there and nowhere else. -/
theorem dir_setHandle (b' : Inbox) (handle : RecvStream) (hr : b'.recv = b.recv)
    (hs : b'.recvStreams = Function.update b.recvStreams id handle) :
    b'.dir = Function.update b.dir id { b.dir id with handle } := by
  funext j
  by_cases hj : j = id
  · subst hj
    simp [dir, hr, hs]
  · simp [dir, hr, hs, Function.update_of_ne hj]

/-- Windows and permits do not show. -/
theorem dir_setWindow (b' : Inbox) (w : ReceiveWindow) (sem : Semaphore)
    (hr : b'.recv = Function.update b.recv id
      { b.recv id with receiveWindow := w, inboundStreamBytes := sem })
    (hs : b'.recvStreams = b.recvStreams) : b'.dir = b.dir := by
  rw [dir_setRecv b id b' _ hr hs]
  exact Function.update_eq_self id b.dir

@[simp] theorem consume_dir (c : InboundChunk) (count : Nat) : (b.consume id c count).1.dir = b.dir :=
  dir_setWindow b id _ _ _ rfl rfl

@[simp] theorem dropChunk_dir (c : InboundChunk) : (b.dropChunk id c).dir = b.dir := by
  have h : (b.dropChunk id c).dir = (b.consume id c c.data.bytes.length).1.dir :=
    dir_setWindow _ id _ _ _ rfl rfl
  rw [h, consume_dir]

@[simp] theorem intoBytes_dir (c : InboundChunk) : (b.intoBytes id c).1.dir = b.dir := by
  have h : (b.intoBytes id c).1.dir = (b.consume id c c.data.bytes.length).1.dir := dropChunk_dir _ _ _
  rw [h, consume_dir]

theorem setInbound_dir (inbound : InboundState) :
    (b.setInbound id inbound).dir = Function.update b.dir id { b.dir id with inbound } :=
  dir_setRecv b id (b.setInbound id inbound) _ rfl rfl

theorem foldl_dropChunk_dir (chunks : List InboundChunk) :
    (chunks.foldl (fun b c => b.dropChunk id c) b).dir = b.dir := by
  induction chunks generalizing b with
  | nil => rfl
  | cons c chunks ih => rw [List.foldl_cons, ih, dropChunk_dir]

theorem clearChunks_dir :
    (b.clearChunks id).dir =
      Function.update b.dir id { b.dir id with inbound := { (b.dir id).inbound with chunks := [] } } := by
  rw [clearChunks, setInbound_dir, foldl_dropChunk_dir]
  rfl

theorem markReset_dir (errorCode : Nat) :
    (b.markReset id errorCode).dir =
      Function.update b.dir id
        { b.dir id with inbound := { (b.dir id).inbound with chunks := [], resetError := some errorCode } } := by
  rw [markReset, clearChunks_dir, setInbound_dir, Function.update_idem, Function.update_self]
  rfl

theorem markRecvTerminal_dir :
    (b.markRecvTerminal id).dir =
      Function.update b.dir id
        { b.dir id with inbound := { (b.dir id).inbound with finReceived := true }, terminal := true } :=
  dir_setRecv b id (b.markRecvTerminal id) _ rfl rfl

theorem discardInbound_dir :
    (b.discardInbound id).dir =
      Function.update b.dir id
        { b.dir id with inbound := { (b.dir id).inbound with chunks := [] }, discarded := true } := by
  let marked : Inbox := { b with recv := Function.update b.recv id { b.recv id with recvDiscarded := true } }
  have hm : marked.dir = Function.update b.dir id { b.dir id with discarded := true } :=
    dir_setRecv b id marked _ rfl rfl
  change (marked.clearChunks id).dir = _
  rw [clearChunks_dir, hm, Function.update_idem, Function.update_self]

theorem markConnectionClosed_dir :
    (b.markConnectionClosed id).dir =
      Function.update b.dir id
        { b.dir id with inbound := { (b.dir id).inbound with connectionClosed := true } } :=
  dir_setRecv b id (b.markConnectionClosed id) _ rfl rfl

theorem foldl_markConnectionClosed_dir (ids : List Nat) (j : Nat) :
    ∃ closed, (ids.foldl markConnectionClosed b).dir j =
      { b.dir j with inbound := { (b.dir j).inbound with connectionClosed := closed } } := by
  induction ids generalizing b with
  | nil => exact ⟨_, rfl⟩
  | cons i ids ih =>
    obtain ⟨closed, h⟩ := ih (b.markConnectionClosed i)
    refine ⟨closed, ?_⟩
    rw [List.foldl_cons, h, markConnectionClosed_dir]
    by_cases hj : j = i
    · rw [hj, Function.update_self]
    · rw [Function.update_of_ne hj]

theorem foldl_markConnectionClosed_dir_of_not_mem (ids : List Nat) (j : Nat) (h : j ∉ ids) :
    (ids.foldl markConnectionClosed b).dir j = b.dir j := by
  induction ids generalizing b with
  | nil => rfl
  | cons i ids ih =>
    rw [List.mem_cons, not_or] at h
    rw [List.foldl_cons, ih _ h.2, markConnectionClosed_dir, Function.update_of_ne h.1]

theorem setReadBuf_dir (readBuf : Option InboundChunk) :
    (b.setReadBuf id readBuf).dir =
      Function.update b.dir id { b.dir id with handle := { (b.dir id).handle with readBuf } } :=
  dir_setHandle b id _ _ rfl rfl

theorem dropRemainder_dir :
    (b.dropRemainder id).dir =
      Function.update b.dir id { b.dir id with handle := { (b.dir id).handle with readBuf := none } } := by
  unfold dropRemainder
  cases hb : (b.recvStreams id).readBuf with
  | none =>
    have he : { b.dir id with handle := { (b.dir id).handle with readBuf := none } } = b.dir id := by
      simp only [dir, ← hb]
    simp only [he, Function.update_eq_self]
  | some c => simp only [dropChunk_dir, setReadBuf_dir]

/-- The bytes of chunks in order. -/
def bytesOf (chunks : List InboundChunk) : Bytes := chunks.flatMap fun c => c.data.bytes

@[simp] theorem bytesOf_nil : bytesOf [] = [] := rfl

@[simp] theorem bytesOf_cons (c : InboundChunk) (chunks : List InboundChunk) :
    bytesOf (c :: chunks) = c.data.bytes ++ bytesOf chunks :=
  List.flatMap_cons

@[simp] theorem bytesOf_append (chunks chunks' : List InboundChunk) :
    bytesOf (chunks ++ chunks') = bytesOf chunks ++ bytesOf chunks' :=
  List.flatMap_append

theorem fresh_bytes (page : Nat) (payload : Bytes) (connPermit streamPermit : Option Nat) :
    (appendPayload.fresh page payload connPermit streamPermit).data.bytes = payload := by
  unfold appendPayload.fresh
  split_ifs <;> rfl

/-- The payload fits on the page at the tail of the queue. -/
def fitsTail (page : Nat) (payload : Bytes) (chunks : List InboundChunk) : Bool :=
  match chunks.getLast? with
  | some ⟨.page data _, _, _⟩ => data.length + payload.length ≤ page
  | _ => false

/-- A payload becomes a chunk of its own, or it joins the page at the tail with its permits. -/
theorem appendPayload_cases (page : Nat) (payload : Bytes) (connPermit streamPermit : Option Nat)
    (chunks chunks' : List InboundChunk)
    (h : appendPayload page payload connPermit streamPermit chunks = .ok chunks') :
    chunks' = chunks ++ [appendPayload.fresh page payload connPermit streamPermit] ∧
        fitsTail page payload chunks = false ∨
      ∃ front data capacity conn stream conn' stream',
        chunks = front ++ [⟨.page data capacity, some conn, some stream⟩] ∧
        connPermit = some conn' ∧ streamPermit = some stream' ∧ data.length + payload.length ≤ page ∧
        chunks' = front ++ [⟨.page (data ++ payload) capacity, some (conn + conn'), some (stream + stream')⟩] := by
  unfold appendPayload at h
  split at h
  · rename_i data capacity conn stream hlast
    obtain ⟨front, rfl⟩ := List.getLast?_eq_some_iff.mp hlast
    split_ifs at h with hfit
    · split at h
      · cases h
        rw [List.dropLast_concat]
        exact .inr ⟨front, data, capacity, _, _, _, _, rfl, rfl, rfl, hfit, rfl⟩
      all_goals cases h
    · cases h
      exact .inl ⟨rfl, by rw [fitsTail, hlast]; exact decide_eq_false hfit⟩
  · next hno =>
    cases h
    refine .inl ⟨rfl, ?_⟩
    unfold fitsTail
    split
    · next hlast => exact (hno _ _ _ _ hlast).elim
    · rfl

theorem appendPayload_bytes (page : Nat) (payload : Bytes) (connPermit streamPermit : Option Nat)
    (chunks chunks' : List InboundChunk)
    (h : appendPayload page payload connPermit streamPermit chunks = .ok chunks') :
    bytesOf chunks' = bytesOf chunks ++ payload := by
  rcases appendPayload_cases page payload connPermit streamPermit chunks chunks' h with
    ⟨rfl, -⟩ | ⟨front, data, capacity, conn, stream, conn', stream', rfl, -, -, -, rfl⟩
  · simp [fresh_bytes]
  · simp [ReceiveBuffer.bytes]

/-- A payload with permits can be appended to a queue whose chunks have theirs: the expects hold. -/
theorem appendPayload_ok (page : Nat) (payload : Bytes) (conn stream : Nat) (chunks : List InboundChunk)
    (hp : ∀ c ∈ chunks, c.connPermit.isSome = true ∧ c.streamPermit.isSome = true) :
    ∃ chunks', appendPayload page payload (some conn) (some stream) chunks = .ok chunks' := by
  unfold appendPayload
  split
  · next data capacity connTail streamTail hlast =>
    obtain ⟨hc, hs⟩ := hp _ (List.mem_of_getLast? hlast)
    obtain ⟨a, rfl⟩ := Option.isSome_iff_exists.mp hc
    obtain ⟨b, rfl⟩ := Option.isSome_iff_exists.mp hs
    split_ifs
    · exact ⟨_, rfl⟩
    · exact ⟨_, rfl⟩
  · exact ⟨_, rfl⟩

/-- The two windows after a frame of `len` bytes was counted. -/
def counted (len : Nat) : Inbox :=
  { b with
    receiveWindow := { b.receiveWindow with received := b.receiveWindow.received + len }
    recv := Function.update b.recv id
      { b.recv id with
        receiveWindow :=
          { (b.recv id).receiveWindow with received := (b.recv id).receiveWindow.received + len } } }

theorem counted_dir (len : Nat) : (b.counted id len).dir = b.dir :=
  dir_setWindow b id _ _ _ rfl rfl

theorem receiveBoth_cases (len : Nat) :
    (b.receiveBoth id len = (b.counted id len, .ok ()) ∧
        b.receiveWindow.received + len ≤ b.receiveWindow.advertised ∧
        (b.recv id).receiveWindow.received + len ≤ (b.recv id).receiveWindow.advertised) ∨
      ∃ w error, w.advertised = b.receiveWindow.advertised ∧
        b.receiveBoth id len = ({ b with receiveWindow := w }, .error error) := by
  have hrec : ∀ w w' : ReceiveWindow, w.receive len = .ok w' →
      w.received + len ≤ w.advertised ∧ w' = { w with received := w.received + len } := by
    intro w w' h
    unfold ReceiveWindow.receive at h
    split_ifs at h with hc
    cases h
    exact ⟨hc.2, rfl⟩
  unfold receiveBoth
  cases hw : b.receiveWindow.receive len with
  | error error => exact .inr ⟨b.receiveWindow, error, rfl, rfl⟩
  | ok w =>
    simp only
    obtain ⟨hc, rfl⟩ := hrec _ _ hw
    cases hw' : (b.recv id).receiveWindow.receive len with
    | error error =>
      exact .inr ⟨{ b.receiveWindow with received := b.receiveWindow.received + len }, error, rfl, rfl⟩
    | ok w' =>
      obtain ⟨hs, rfl⟩ := hrec _ _ hw'
      exact .inl ⟨rfl, hc, hs⟩

/-- The inbox after `len` bytes were taken in as `chunks`. -/
def stored (chunks : List InboundChunk) (conn stream : Semaphore) : Inbox :=
  { b with
    inboundConnBytes := conn
    recv := Function.update b.recv id
      { b.recv id with
        inbound := { (b.recv id).inbound with chunks }
        inboundStreamBytes := stream } }

/-- What `push_inbound` does with a payload it takes: count it as consumed, or store it under two
permits. -/
theorem pushInbound_ok (l : Limits) (payload : Bytes) (b' : Inbox) (hne : payload ≠ [])
    (h : b.pushInbound l id payload = (b', .ok ())) :
    (b.recv id).recvDiscarded = true ∧
        b' = { b with receiveWindow := (b.receiveWindow.consume payload.length).1 } ∨
      (b.recv id).recvDiscarded = false ∧ (b.recv id).inbound.finReceived = false ∧
        ∃ conn stream chunks, b.inboundConnBytes.tryAcquire (payload.length % 2 ^ 32) = some conn ∧
          (b.recv id).inboundStreamBytes.tryAcquire (payload.length % 2 ^ 32) = some stream ∧
          appendPayload (pageSize l) payload (some (payload.length % 2 ^ 32))
            (some (payload.length % 2 ^ 32)) (b.recv id).inbound.chunks = .ok chunks ∧
          b' = b.stored id chunks conn stream := by
  have hlen : payload.length ≠ 0 := fun h0 => hne (List.length_eq_zero_iff.mp h0)
  unfold pushInbound at h
  cases hd : (b.recv id).recvDiscarded with
  | true =>
    simp only [hd, if_true, Prod.mk.injEq] at h
    exact .inl ⟨rfl, h.1.symm⟩
  | false =>
    have hd' : ¬ (b.recv id).recvDiscarded = true := by simp [hd]
    simp only [if_neg hd', acquirePermit, if_neg hlen] at h
    cases hc : b.inboundConnBytes.tryAcquire (payload.length % 2 ^ 32) with
    | none => rw [hc] at h; cases h
    | some conn =>
      cases hs : (b.recv id).inboundStreamBytes.tryAcquire (payload.length % 2 ^ 32) with
      | none => rw [hc, hs] at h; cases h
      | some stream =>
        rw [hc, hs] at h
        simp only at h
        cases hf : (b.recv id).inbound.finReceived with
        | true => rw [if_pos hf] at h; cases h
        | false =>
          rw [if_neg (by simp [hf])] at h
          cases hp : appendPayload (pageSize l) payload (some (payload.length % 2 ^ 32))
              (some (payload.length % 2 ^ 32)) (b.recv id).inbound.chunks with
          | error error => rw [hp] at h; cases h
          | ok chunks =>
            rw [hp] at h
            cases h
            exact .inr ⟨rfl, rfl, conn, stream, chunks, rfl, rfl, rfl, rfl⟩

theorem pushInbound_error (l : Limits) (payload : Bytes) (b' : Inbox) (error : Error)
    (h : b.pushInbound l id payload = (b', .error error)) : b' = b := by
  unfold pushInbound at h
  simp only at h
  split_ifs at h
  · cases h
  all_goals
    repeat' split at h
    all_goals first | (cases h; rfl) | cases h

/-- An accepted payload was counted by both windows, and then stored unless it is empty. -/
theorem acceptData_ok (l : Limits) (payload : Bytes) (fin : Bool) (b' : Inbox)
    (h : b.acceptData l id payload fin = (b', .ok ())) :
    b.receiveWindow.received + payload.length ≤ b.receiveWindow.advertised ∧
      (b.recv id).receiveWindow.received + payload.length ≤ (b.recv id).receiveWindow.advertised ∧
      ∃ b₁, (payload = [] ∧ b₁ = b.counted id payload.length ∨
          payload ≠ [] ∧ (b.counted id payload.length).pushInbound l id payload = (b₁, .ok ())) ∧
        b' = if fin then b₁.markRecvTerminal id else b₁ := by
  unfold acceptData at h
  rcases b.receiveBoth_cases id payload.length with ⟨hr, hc, hs⟩ | ⟨w, error, -, hr⟩
  · rw [hr] at h
    refine ⟨hc, hs, ?_⟩
    simp only at h
    by_cases he : payload = []
    · rw [if_pos (List.isEmpty_iff.mpr he)] at h
      cases h
      exact ⟨_, .inl ⟨he, rfl⟩, rfl⟩
    · rw [if_neg (fun hc => he (List.isEmpty_iff.mp hc))] at h
      cases hp : (b.counted id payload.length).pushInbound l id payload with
      | mk b₁ r =>
        rw [hp] at h
        cases r with
        | error error => cases h
        | ok u =>
          cases h
          exact ⟨b₁, .inr ⟨he, rfl⟩, rfl⟩
  · rw [hr] at h
    cases h

/-- A refused payload changes the windows only. -/
theorem acceptData_error (l : Limits) (payload : Bytes) (fin : Bool) (b' : Inbox) (error : Error)
    (h : b.acceptData l id payload fin = (b', .error error)) :
    (∃ w : ReceiveWindow, w.advertised = b.receiveWindow.advertised ∧ b' = { b with receiveWindow := w }) ∨
      b' = b.counted id payload.length := by
  unfold acceptData at h
  rcases b.receiveBoth_cases id payload.length with ⟨hr, -, -⟩ | ⟨w, error', hw, hr⟩
  · rw [hr] at h
    simp only at h
    by_cases he : payload = []
    · rw [if_pos (List.isEmpty_iff.mpr he)] at h
      cases h
    · rw [if_neg (fun hc => he (List.isEmpty_iff.mp hc))] at h
      cases hp : (b.counted id payload.length).pushInbound l id payload with
      | mk b₁ r =>
        rw [hp] at h
        cases r with
        | error error' =>
          cases h
          exact .inr (pushInbound_error _ id l payload _ _ hp)
        | ok u => cases h
  · rw [hr] at h
    cases h
    exact .inl ⟨w, hw, rfl⟩

theorem acceptData_error_dir (l : Limits) (payload : Bytes) (fin : Bool) (b' : Inbox) (error : Error)
    (h : b.acceptData l id payload fin = (b', .error error)) : b'.dir = b.dir := by
  rcases b.acceptData_error id l payload fin b' error h with ⟨w, -, rfl⟩ | rfl
  · rfl
  · exact counted_dir b id _

/-- The bytes of an accepted payload go to the end of the queue, or nowhere when the direction is
discarded. -/
theorem acceptData_dir (l : Limits) (payload : Bytes) (fin : Bool) (b' : Inbox)
    (h : b.acceptData l id payload fin = (b', .ok ())) :
    ∃ chunks, b'.dir = Function.update b.dir id ((b.dir id).receive chunks fin) ∧
      ((b.dir id).discarded = true ∧ chunks = (b.dir id).inbound.chunks ∨
        (b.dir id).discarded = false ∧
          bytesOf chunks = bytesOf (b.dir id).inbound.chunks ++ payload) := by
  obtain ⟨-, -, b₁, hb₁, rfl⟩ := b.acceptData_ok id l payload fin b' h
  have hlast : ∀ d : RecvDir, b₁.dir = Function.update b.dir id d →
      (if fin then b₁.markRecvTerminal id else b₁).dir =
        Function.update b.dir id (d.receive d.inbound.chunks fin) := by
    intro d hd
    cases fin with
    | false => simpa [RecvDir.receive] using hd
    | true => simp [markRecvTerminal_dir, hd, RecvDir.receive]
  rcases hb₁ with ⟨rfl, rfl⟩ | ⟨hne, hp⟩
  · refine ⟨_, hlast (b.dir id) ?_, ?_⟩
    · rw [counted_dir, Function.update_eq_self]
    · cases (b.dir id).discarded <;> simp
  · rcases pushInbound_ok _ id l payload b₁ hne hp with
      ⟨hd, rfl⟩ | ⟨hd, -, conn, stream, chunks, -, -, hap, rfl⟩
    · have hdir : (b.dir id).discarded = true := by
        simpa [counted, dir] using hd
      refine ⟨_, hlast (b.dir id) ?_, .inl ⟨hdir, rfl⟩⟩
      rw [Function.update_eq_self]
      exact counted_dir b id _
    · have hdir : (b.dir id).discarded = false := by
        simpa [counted, dir] using hd
      have hb := appendPayload_bytes _ _ _ _ _ _ hap
      refine ⟨chunks, ?_, .inr ⟨hdir, ?_⟩⟩
      · have hs := dir_setRecv (b.counted id payload.length) id
          ((b.counted id payload.length).stored id chunks conn stream) _ rfl rfl
        rw [counted_dir] at hs
        have hl := hlast _ hs
        simpa [counted, dir, RecvDir.receive] using hl
      · simpa [counted, dir] using hb

end Inbox
end Muxtls
