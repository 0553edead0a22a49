import Muxtls.Connection.Core
import Muxtls.Connection.Notify
import Muxtls.Receiver.Read

namespace Muxtls

/-- `StreamState::read_chunk` has to wait. -/
structure RecvDir.Waits (d : RecvDir) : Prop where
  reset : d.inbound.resetError = none
  chunks : d.inbound.chunks = []
  fin : d.inbound.finReceived = false
  terminal : d.terminal = false
  closed : d.inbound.connectionClosed = false

theorem Inbox.readChunk_pending_iff (b : Inbox) (id : Nat) :
    (b.readChunk id).2 = .pending ↔ (b.dir id).Waits := by
  unfold readChunk
  constructor
  · intro h
    simp only at h
    split at h
    · cases h
    · cases h
    · rename_i hr hc
      split_ifs at h with hf hcl
      rw [Bool.not_eq_true, Bool.or_eq_false_iff] at hf
      exact ⟨hr, hc, hf.1, hf.2, Bool.eq_false_of_not_eq_true hcl⟩
  · rintro ⟨hr, hc, hf, ht, hcl⟩
    simp only [dir] at hr hc hf ht hcl
    simp [hr, hc, hf, ht, hcl]

/-- What is left of a direction for the loop of `poll_read` to go through. -/
def RecvDir.turns (d : RecvDir) : Nat := 2 * d.inbound.chunks.length + d.handle.readBuf.elim 0 fun _ => 1

/-- The loop of `poll_read` has enough turns: it waits only where `read_chunk` does. -/
theorem Inbox.pollReadLoop_pending (b : Inbox) (id room turns : Nat) (hturns : (b.dir id).turns < turns)
    (h : (pollReadLoop id room turns b).2 = .pending) : ((pollReadLoop id room turns b).1.dir id).Waits := by
  induction turns generalizing b with
  | zero => exact absurd hturns (Nat.not_lt_zero _)
  | succ turns ih =>
    have hnext :
        ∀ b₁ : Inbox, (b₁.dir id).turns < (b.dir id).turns → (pollReadLoop id room turns b₁).2 = .pending →
        ((pollReadLoop id room turns b₁).1.dir id).Waits := fun b₁ hlt => ih b₁ (by omega)
    unfold pollReadLoop at h ⊢
    cases hbuf : (b.recvStreams id).readBuf with
    | some c =>
      rw [hbuf] at h
      simp only at h ⊢
      by_cases hcount : min c.data.bytes.length room = 0
      · rw [if_pos hcount] at h ⊢
        refine hnext _ ?_ h
        have hb : (b.dir id).handle.readBuf = some c := hbuf
        rw [dropChunk_dir, setReadBuf_dir, Function.update_self]
        simp [RecvDir.turns, hb]
      · rw [if_neg hcount] at h
        split_ifs at h
    | none =>
      rw [hbuf] at h
      simp only at h ⊢
      by_cases he : (b.recvStreams id).eof = true
      · rw [if_pos he] at h
        cases h
      · rw [if_neg he] at h ⊢
        rcases b.readChunk_cases id with ⟨c, chunks, -, hc, hx⟩ | ⟨-, -, -, hx⟩ | ⟨error, hx⟩ | hx
        · rw [hx] at h ⊢
          refine hnext _ ?_ h
          have hb : (b.dir id).handle.readBuf = none := hbuf
          rw [setReadBuf_dir, Function.update_self, setInbound_dir, Function.update_self]
          simp only [RecvDir.turns, hb, hc, Option.elim, List.length_cons]
          omega
        · rw [hx] at h
          cases h
        · rw [hx] at h
          cases h
        · rw [hx]
          exact (b.readChunk_pending_iff id).mp (by rw [hx])

theorem Inbox.pollRead_pending (b : Inbox) (id room : Nat) (h : (b.pollRead id room).2 = .pending) :
    ((b.pollRead id room).1.dir id).Waits := by
  unfold pollRead at h ⊢
  by_cases hroom : room = 0
  · rw [if_pos hroom] at h
    cases h
  · rw [if_neg hroom] at h ⊢
    refine b.pollReadLoop_pending id room _ ?_ h
    have hle : (b.dir id).handle.readBuf.elim 0 (fun _ => 1) ≤ 1 := by
      cases (b.dir id).handle.readBuf <;> simp
    change 2 * (b.recv id).inbound.chunks.length + _ < _
    omega

theorem Inbox.readWhole_pending (b : Inbox) (id : Nat) (h : (b.readWhole id).2 = .pending) :
    ((b.readWhole id).1.dir id).Waits := by
  unfold readWhole at h ⊢
  rcases b.readChunk_cases id with ⟨c, chunks, -, -, hx⟩ | ⟨-, -, -, hx⟩ | ⟨error, hx⟩ | hx
  · rw [hx] at h
    cases h
  · rw [hx] at h
    cases h
  · rw [hx] at h
    cases h
  · rw [hx]
    exact (b.readChunk_pending_iff id).mp (by rw [hx])

/-- An accepted payload that wakes no reader of its stream leaves the direction as it was. -/
theorem Inbox.acceptData_silent (b : Inbox) (l : Limits) {id : Nat} {payload : Bytes} {fin : Bool} {b' : Inbox}
    (h : b.acceptData l id payload fin = (b', .ok ())) (hs : b.dataSignals l id payload fin (.read id) = []) :
    b'.dir id = b.dir id := by
  obtain ⟨-, -, b₁, hb₁, hfin⟩ := b.acceptData_ok id l payload fin b' h
  have hboth : b.receiveBoth id payload.length = (b.counted id payload.length, .ok ()) := by
    rcases b.receiveBoth_cases id payload.length with ⟨hr, -, -⟩ | ⟨w, error, -, hr⟩
    · exact hr
    · rw [acceptData, hr] at h
      cases h
  unfold dataSignals at hs
  simp only [hboth, h] at hs
  cases fin with
  | true => simp at hs
  | false =>
    rw [if_neg Bool.false_ne_true] at hfin
    rw [hfin]
    rcases hb₁ with ⟨-, rfl⟩ | ⟨hne, hp⟩
    · exact congrFun (counted_dir b id _) id
    · have hempty : payload.isEmpty = false := by simpa using hne
      rcases pushInbound_ok _ id l payload b₁ hne hp with ⟨-, rfl⟩ | ⟨hd, -, -⟩
      · exact congrFun (counted_dir b id _) id
      · simp [pushSignals, hd, hp, hempty] at hs

namespace Shared

variable {s s' s'' : Shared} {i : Waiter} {id : Nat}

/-- What the cleanup worker owes: a stream of the map carries the mark of a dropped handle. -/
def Due (s : Shared) : TaskOp → Prop
  | .cleanSend id => id ∈ s.streams ∧ (s.life id).sendDropped = true
  | .cleanRecv id => id ∈ s.streams ∧ (s.life id).recvDropped = true
  | _ => False

theorem Due.mono (hstreams : s'.streams ⊆ s.streams)
    (hsend : ∀ id ∈ s'.streams, (s'.life id).sendDropped = true → (s.life id).sendDropped = true)
    (hrecv : ∀ id ∈ s'.streams, (s'.life id).recvDropped = true → (s.life id).recvDropped = true) (op : TaskOp)
    (h : s'.Due op) : s.Due op := by
  cases op with
  | cleanSend id => exact ⟨hstreams h.1, hsend id h.1 h.2⟩
  | cleanRecv id => exact ⟨hstreams h.1, hrecv id h.1 h.2⟩
  | _ => exact h.elim

/-- A step that gives a waiting call, or the cleanup worker, nothing new to find. -/
structure Calm (s s' : Shared) (i : Waiter) : Prop where
  due : i = .cleanup → ∀ op, s'.Due op → s.Due op
  accept : i = .accept → s.incomingStreams = [] ∧ s.closed = false → s'.incomingStreams = [] ∧ s'.closed = false
  read : ∀ id, i = .read id → (s.inbox.dir id).Waits → (s'.inbox.dir id).Waits

theorem Calm.trans (h : s.Calm s' i) (h' : s'.Calm s'' i) : s.Calm s'' i where
  due hi op hd := h.due hi op (h'.due hi op hd)
  accept hi hw := h'.accept hi (h.accept hi hw)
  read id hi hw := h'.read id hi (h.read id hi hw)

theorem Calm.of_core (h : s'.core = s.core) : s.Calm s' i := by
  have hstreams : s'.streams = s.streams := congrArg Core.streams h
  have hlife : s'.life = s.life := congrArg Core.life h
  have hin : s'.incomingStreams = s.incomingStreams := congrArg Core.incoming h
  have hc : s'.closed = s.closed := congrArg Core.closed h
  have hinbox : s'.inbox = s.inbox := congrArg Core.inbox h
  constructor
  · intro _
    apply Due.mono
    · rw [hstreams]
      exact fun _ hid => hid
    · rw [hlife]
      exact fun _ _ hd => hd
    · rw [hlife]
      exact fun _ _ hd => hd
  · rw [hin, hc]
    exact fun _ hw => hw
  · rw [hinbox]
    exact fun _ _ hw => hw

/-- A step that works on the receive directions only. -/
theorem Calm.of_inbox (inbox : Inbox)
    (hread : ∀ id, i = .read id → (s.inbox.dir id).Waits → (inbox.dir id).Waits) : s.Calm { s with inbox } i :=
  ⟨fun _ _ hd => hd, fun _ hw => hw, hread⟩

/-- A change of one receive direction. -/
theorem Calm.of_dir (inbox : Inbox) (d : RecvDir) (hdir : inbox.dir = Function.update s.inbox.dir id d)
    (hd : i = .read id → (s.inbox.dir id).Waits → d.Waits) : s.Calm { s with inbox } i := by
  apply Calm.of_inbox
  intro j hj hw
  rw [hdir]
  by_cases hji : j = id
  · subst hji
    rw [Function.update_self]
    exact hd hj hw
  · rw [Function.update_of_ne hji]
    exact hw

/-- New handles or modes of a stream. -/
theorem setLife_calm (s : Shared) (id : Nat) (life : StreamLife)
    (hsend : i = .cleanup → life.sendDropped = true → (s.life id).sendDropped = true)
    (hrecv : i = .cleanup → life.recvDropped = true → (s.life id).recvDropped = true) :
    s.Calm (s.setLife id life) i := by
  refine ⟨fun hi => Due.mono (fun _ hid => hid) ?_ ?_, fun _ hw => hw, fun _ _ hw => hw⟩ <;>
  · intro j _ hd
    by_cases hj : j = id
    · subst hj
      simp only [Shared.setLife, Function.update_self] at hd
      first | exact hsend hi hd | exact hrecv hi hd
    · simpa only [Shared.setLife, Function.update_of_ne hj] using hd

theorem markClosed_calm (hs : s.markClosedSignals i = []) : s.Calm s.markClosed i := by
  have hne : i ≠ .accept := by
    rintro rfl
    unfold markClosedSignals at hs
    split_ifs at hs
  by_cases hc : s.cleanupStarted = true
  · have he : s.markClosed = { s with closed := true, terminated := true } := by simp [markClosed, hc]
    rw [he]
    exact ⟨fun _ _ hd => hd, fun hi => absurd hi hne, fun _ _ hw => hw⟩
  · rw [Bool.not_eq_true] at hc
    have hstreams : s.markClosed.streams = [] := by simp [markClosed, hc]
    have hinbox : s.markClosed.inbox = s.streams.foldl Inbox.markConnectionClosed
        { s.inbox with inboundConnBytes := s.inbox.inboundConnBytes.close } := by
      simp [markClosed, hc, shutdown]
    refine ⟨fun _ op hd => ?_, fun hi => absurd hi hne, fun id hi hw => ?_⟩
    · cases op <;> first | exact hd.elim | (rw [Due, hstreams] at hd; exact absurd hd.1 List.not_mem_nil)
    · subst hi
      have hid : id ∉ s.streams := by
        intro hid
        simp [markClosedSignals, hc, hid] at hs
      rw [hinbox, Inbox.foldl_markConnectionClosed_dir_of_not_mem _ _ _ hid]
      exact hw

theorem initiateClose_calm (errorCode : Nat) (reason : String) (hs : s.initiateCloseSignals errorCode reason i = []) :
    s.Calm (s.initiateClose errorCode reason).1 i := by
  unfold initiateCloseSignals at hs
  unfold initiateClose
  cases hf : s.limits.fitCloseReason errorCode reason with
  | error error => exact .of_core rfl
  | ok fitted =>
    cases hcode : ErrorCode.fromU64 errorCode with
    | error error => exact .of_core rfl
    | ok code =>
      rw [hf, hcode] at hs
      simp only at hs ⊢
      by_cases hc : s.closed = true
      · rw [if_pos hc]
        exact .of_core rfl
      · rw [if_neg hc] at hs ⊢
        refine ⟨fun _ _ hd => hd, fun hi => ?_, fun _ _ hw => hw⟩
        subst hi
        simp at hs

theorem close_calm (reason : String) (hs : s.closeSignals reason i = []) : s.Calm (s.close reason).1 i := by
  unfold closeSignals at hs
  unfold close
  cases hv : s.limits.validateCloseReason 0 reason with
  | error error => exact .of_core rfl
  | ok u =>
    rw [hv] at hs
    exact initiateClose_calm 0 reason hs

theorem orClose_calm (f : Frame) (hs : s.orCloseSignals f i = []) (r : Bool) (h : s.enqueueControl f = (s', r)) :
    s.Calm (if r || s'.closed then s' else s'.markClosed) i := by
  have hcore := s.enqueueControl_core f
  rw [h] at hcore
  unfold orCloseSignals at hs
  rw [h] at hs
  cases r with
  | true => exact .of_core hcore
  | false =>
    simp only at hs
    cases hc : s'.closed with
    | true => exact .of_core hcore
    | false =>
      rw [hc] at hs
      exact (Calm.of_core hcore).trans (markClosed_calm hs)

/-- A new stream has no mark, and a read of it waits. -/
theorem createStream_calm (s : Shared) (id : Nat) : s.Calm ((s.createStream id).insertStream id) i := by
  have hlife : ∀ j, j ≠ id → ((s.createStream id).insertStream id).life j = s.life j := by
    intro j hj
    simp [createStream, insertStream, Function.update_of_ne hj]
  refine ⟨fun _ op hd => ?_, fun _ hw => hw, fun j _ hw => ?_⟩
  · have hmem : ∀ j, j ∈ ((s.createStream id).insertStream id).streams → j ≠ id → j ∈ s.streams := by
      intro j hj hne
      exact (List.mem_append.mp hj).resolve_right fun h => hne (List.mem_singleton.mp h)
    cases op with
    | cleanSend j =>
      have hne : j ≠ id := by
        rintro rfl
        simp [Due, createStream, insertStream] at hd
      exact ⟨hmem j hd.1 hne, hlife j hne ▸ hd.2⟩
    | cleanRecv j =>
      have hne : j ≠ id := by
        rintro rfl
        simp [Due, createStream, insertStream] at hd
      exact ⟨hmem j hd.1 hne, hlife j hne ▸ hd.2⟩
    | _ => exact hd.elim
  · change ((s.createStream id).inbox.dir j).Waits
    by_cases hj : j = id
    · subst hj
      constructor <;> simp [Inbox.dir, createStream]
    · have hd : (s.createStream id).inbox.dir j = s.inbox.dir j := by
        simp [Inbox.dir, createStream, Function.update_of_ne hj]
      rwa [hd]

theorem openBi_calm (hs : s.openBiSignals i = []) : s.Calm s.openBi.1 i := by
  unfold openBiSignals at hs
  unfold openBi
  split_ifs at hs ⊢
  · exact ⟨fun _ _ hd => hd, fun _ hw => hw, fun _ _ hw => hw⟩
  · have hm := markClosed_calm hs
    exact ⟨hm.due, hm.accept, hm.read⟩
  · have hnew := createStream_calm (i := i) { s with nextLocalStreamId := s.nextLocalStreamId + 2 } s.nextLocalStreamId
    have hall := hnew.trans (setLife_calm _ s.nextLocalStreamId
      { (Shared.life _ s.nextLocalStreamId) with sendHandles := 1, recvHandles := 1 } (fun _ h => h) (fun _ h => h))
    exact ⟨hall.due, hall.accept, hall.read⟩
  · exact ⟨fun _ _ hd => hd, fun _ hw => hw, fun _ _ hw => hw⟩

theorem nextFrame_calm (s : Shared) (order : List Nat) : s.Calm (s.nextFrame order).1 i := by
  rcases s.nextFrame_core order with ⟨hc, -⟩ | ⟨-, -, hc, -⟩ | ⟨id, -, -, -, -, -, hc, -⟩
  · exact .of_core hc
  · have hconn : s.Calm s.grantConn i := .of_inbox _ fun _ _ hw => hw
    exact hconn.trans (.of_core hc)
  · have hd := s.inbox.dir_setWindow id (s.grantStream id).inbox _ _ rfl rfl
    refine (Calm.of_inbox (s.grantStream id).inbox fun j _ hw => ?_).trans (.of_core hc)
    rwa [hd]

theorem onRemoteOpen_calm (hs : (match s.onRemoteOpen id with
      | (_, .error _) => Waiter.none
      | (_, .ok ()) => Waiter.only .accept [.one]) i = []) : s.Calm (s.onRemoteOpen id).1 i := by
  unfold onRemoteOpen at hs ⊢
  by_cases hpar : id % 2 = s.localParity
  · rw [if_pos hpar]
    exact .of_core rfl
  rw [if_neg hpar] at hs ⊢
  by_cases hnext : id ≠ s.nextRemoteStreamId
  · rw [if_pos hnext]
    exact .of_core rfl
  rw [if_neg hnext] at hs ⊢
  cases ha : s.openStreams.tryAcquire 1 with
  | none => exact .of_core rfl
  | some openStreams =>
    rw [ha] at hs
    simp only at hs ⊢
    by_cases hmem : id ∈ s.streams
    · rw [if_pos hmem]
      exact .of_core rfl
    rw [if_neg hmem] at hs ⊢
    have hnew := createStream_calm (i := i) { s with openStreams } id
    split_ifs at hs ⊢
    · exact ⟨hnew.due, hnew.accept, hnew.read⟩
    · refine ⟨hnew.due, fun hi => ?_, hnew.read⟩
      subst hi
      simp at hs

theorem onRemoteStreamFrame_calm (payload : Bytes) (fin : Bool)
    (hs : s.inbox.dataSignals s.limits id payload fin i = []) : s.Calm (s.onRemoteStreamFrame id payload fin).1 i := by
  unfold onRemoteStreamFrame
  by_cases hm : id ∉ s.streams
  · rw [if_pos hm]
    exact .of_core rfl
  · rw [if_neg hm]
    cases s.ensurePeerSendOpen id "stream frame" with
    | error error => exact .of_core rfl
    | ok u =>
      cases ha : s.inbox.acceptData s.limits id payload fin with
      | mk inbox r =>
        cases r with
        | error error =>
          have hdir := s.inbox.acceptData_error_dir id s.limits payload fin inbox error ha
          refine .of_inbox inbox fun j _ hw => ?_
          rwa [hdir]
        | ok u =>
          obtain ⟨chunks, hdir, -⟩ := s.inbox.acceptData_dir id s.limits payload fin inbox ha
          refine .of_dir inbox _ hdir fun hi hw => ?_
          subst hi
          have hsame := s.inbox.acceptData_silent s.limits ha hs
          rw [hdir, Function.update_self] at hsame
          rwa [hsame]

theorem onRemoteReset_calm (errorCode : Nat) (hid : i ≠ .read id) : s.Calm (s.onRemoteReset id errorCode).1 i := by
  unfold onRemoteReset
  by_cases hm : id ∉ s.streams
  · rw [if_pos hm]
    exact .of_core rfl
  · rw [if_neg hm]
    cases s.ensurePeerSendOpen id "reset" with
    | error error => exact .of_core rfl
    | ok u =>
      have hdir := (s.inbox.markReset id errorCode).markRecvTerminal_dir id
      rw [Inbox.markReset_dir, Function.update_idem] at hdir
      exact .of_dir _ _ hdir fun hi => absurd hi hid

theorem handleFrame_calm (f : Frame) (hs : s.handleFrameSignals f i = []) : s.Calm (s.handleFrame f).1 i := by
  unfold handleFrameSignals at hs
  unfold handleFrame
  by_cases hset : (!f.isSettings && !s.queues.peerSettings) = true
  · rw [if_pos hset]
    exact .of_core rfl
  rw [if_neg hset] at hs ⊢
  cases f with
  | settings maxData maxStreamData maxFrameSize =>
    simp only
    split_ifs
    · exact .of_core rfl
    · exact .of_core rfl
  | maxData maximum => exact .of_core rfl
  | maxStreamData streamId maximum =>
    simp only
    split_ifs
    · exact .of_core rfl
    · exact .of_core rfl
    · exact .of_core rfl
  | stream streamId fin payload =>
    simp only at hs ⊢
    have hcalm : s.Calm (s.onRemoteStreamFrame streamId.intoInner payload fin).1 i := by
      by_cases hm : streamId.intoInner ∉ s.streams
      · rw [onRemoteStreamFrame, if_pos hm]
        exact .of_core rfl
      · rw [if_neg hm] at hs
        cases he : s.ensurePeerSendOpen streamId.intoInner "stream frame" with
        | error error =>
          rw [onRemoteStreamFrame, if_neg hm, he]
          exact .of_core rfl
        | ok u =>
          rw [he] at hs
          exact onRemoteStreamFrame_calm payload fin hs
    cases ho : s.onRemoteStreamFrame streamId.intoInner payload fin with
    | mk s' r =>
      rw [ho] at hcalm
      cases r <;> exact hcalm
  | resetStream streamId errorCode =>
    simp only at hs ⊢
    have hcalm : s.Calm (s.onRemoteReset streamId.intoInner errorCode.intoInner).1 i := by
      by_cases hm : streamId.intoInner ∉ s.streams
      · rw [onRemoteReset, if_pos hm]
        exact .of_core rfl
      · rw [if_neg hm] at hs
        cases he : s.ensurePeerSendOpen streamId.intoInner "reset" with
        | error error =>
          rw [onRemoteReset, if_neg hm, he]
          exact .of_core rfl
        | ok u =>
          rw [he] at hs
          refine onRemoteReset_calm errorCode.intoInner ?_
          rintro rfl
          simp at hs
    cases ho : s.onRemoteReset streamId.intoInner errorCode.intoInner with
    | mk s' r =>
      rw [ho] at hcalm
      cases r <;> exact hcalm
  | openStream streamId =>
    have hcalm := onRemoteOpen_calm hs
    simp only
    cases ho : s.onRemoteOpen streamId.intoInner with
    | mk s' r =>
      rw [ho] at hcalm
      cases r <;> exact hcalm
  | stopSending streamId =>
    simp only
    have hcore := s.resetStream_core streamId.intoInner 0
    split_ifs
    · cases hr : s.resetStream streamId.intoInner 0 with
      | mk s' r =>
        rw [hr] at hcore
        cases r <;> exact .of_core hcore
    · exact .of_core rfl
    · exact .of_core rfl
  | ping => exact .of_core rfl
  | connectionClose errorCode reason => exact markClosed_calm hs

/-- A look at a dropped handle takes its mark away. -/
theorem runOp_not_due (s : Shared) (op : TaskOp) : ¬ (s.runOp op).1.Due op := by
  cases op with
  | cleanSend id =>
    rintro ⟨-, hd⟩
    have hlife : ∀ s : Shared, (s.resetStream id 0).1.life = s.life := fun s =>
      congrArg Core.life (s.resetStream_core id 0)
    simp only [runOp] at hd
    split_ifs at hd with hdrop hterm
    · simp at hd
    · simp [hlife] at hd
    · exact hdrop hd
  | cleanRecv id =>
    rintro ⟨-, hd⟩
    by_cases hdrop : (s.life id).recvDropped = true
    · rw [runOp, if_pos hdrop] at hd
      simp at hd
    · rw [runOp, if_neg hdrop] at hd
      exact hdrop hd
  | _ => exact fun h => h

theorem runOp_calm (op : TaskOp) (hs : s.runOpSignals op i = []) : s.Calm (s.runOp op).1 i := by
  cases op with
  | complete id =>
    simp only [runOp]
    split_ifs
    · exact setLife_calm s id _ (fun _ h => h) (fun _ h => h)
    · exact .of_core rfl
  | retire id =>
    simp only [runOp]
    split_ifs
    · have hlife := setLife_calm (i := i) s id { s.life id with openPermit := false } (fun _ h => h)
        (fun _ h => h)
      exact ⟨hlife.due, hlife.accept, hlife.read⟩
    · have hlife := setLife_calm (i := i) s id { s.life id with openPermit := false } (fun _ h => h)
        (fun _ h => h)
      exact ⟨hlife.due, hlife.accept, hlife.read⟩
    · exact .of_core rfl
  | remove id =>
    simp only [runOp]
    split_ifs
    · refine ⟨fun _ => Due.mono (List.filter_subset_self _) ?_ ?_, fun _ hw => hw, fun _ _ hw => hw⟩
      · exact fun _ _ h => h
      · exact fun _ _ h => h
    · exact .of_core rfl
  | cleanSend id =>
    simp only [runOp]
    have hlife := setLife_calm (i := i) s id { s.life id with sendDropped := false } (by simp)
      (fun _ h => h)
    split_ifs
    · exact hlife
    · exact hlife.trans (.of_core (resetStream_core _ id 0))
    · exact .of_core rfl
  | cleanRecv id =>
    have hlife := setLife_calm (i := i) s id { s.life id with recvDropped := false } (fun _ h => h)
      (by simp)
    rw [runOp]
    split
    · refine hlife.trans (.of_dir _ _ (Inbox.discardInbound_dir _ id) fun _ hw => ?_)
      exact ⟨hw.reset, rfl, hw.fin, hw.terminal, hw.closed⟩
    · exact .of_core rfl
  | stopSending id =>
    have hc := fun r s' he => orClose_calm _ hs r (he : s.enqueueControl _ = (s', r))
    simp only [runOp]
    cases he : s.enqueueControl (.stopSending (.expect id)) with
    | mk s' r =>
      cases r with
      | true => exact hc true s' he
      | false => exact hc false s' he
  | failClose reason => exact initiateClose_calm 1 reason hs
  | markClosed => exact markClosed_calm hs

end Shared

end Muxtls
