import Muxtls.Receiver.Step
import Muxtls.Sender.Reach

namespace Muxtls
namespace Core

variable (c : Core) (done : Bool)

/-- A change of one life shows in its holder and its mode. -/
theorem receiver_setLife (id : Nat) (life : StreamLife) :
    ({ c with life := Function.update c.life id life } : Core).receiver done =
      { c.receiver done with
        holder := Function.update (c.receiver done).holder id (life.holder (c.inbox.dir id).discarded)
        mode := Function.update (c.receiver done).mode id life.recvMode } := by
  have hh : (fun j => (Function.update c.life id life j).holder (c.inbox.dir j).discarded) =
      Function.update (c.receiver done).holder id (life.holder (c.inbox.dir id).discarded) := by
    funext j
    by_cases hj : j = id
    · subst hj
      simp
    · simp [hj, receiver]
  have hm : (fun j => (Function.update c.life id life j).recvMode) =
      Function.update (c.receiver done).mode id life.recvMode :=
    Function.comp_update StreamLife.recvMode c.life id life
  simp only [receiver] at hh hm ⊢
  rw [hh, hm]

/-- A change of a life that the receiver does not see. -/
theorem receiver_setLife_same (id : Nat) (life : StreamLife)
    (hd : life.recvDropped = (c.life id).recvDropped) (hh : life.recvHandles = (c.life id).recvHandles)
    (hm : life.recvMode = (c.life id).recvMode) :
    ({ c with life := Function.update c.life id life } : Core).receiver done = c.receiver done := by
  have hholder : life.holder (c.inbox.dir id).discarded = (c.receiver done).holder id := by
    simp only [StreamLife.holder, receiver, hd, hh]
  have hmode : life.recvMode = (c.receiver done).mode id := hm
  rw [receiver_setLife, hholder, hmode, Function.update_eq_self, Function.update_eq_self]

/-- A change of the inbox that keeps the discard marks. -/
theorem receiver_setInbox (b : Inbox) (h : ∀ id, (b.dir id).discarded = (c.inbox.dir id).discarded) :
    ({ c with inbox := b } : Core).receiver done = { c.receiver done with inbox := b } := by
  simp only [receiver, h]

/-- A change of one direction that keeps its discard mark. -/
theorem receiver_setInbox_at (b : Inbox) (id : Nat) (d : RecvDir)
    (hb : b.dir = Function.update c.inbox.dir id d) (hd : d.discarded = (c.inbox.dir id).discarded) :
    ({ c with inbox := b } : Core).receiver done = { c.receiver done with inbox := b } := by
  apply receiver_setInbox
  intro j
  rw [hb]
  by_cases hj : j = id
  · subst hj
    rw [Function.update_self, hd]
  · rw [Function.update_of_ne hj]

end Core

/-- The actions that may drop a stream's state. -/
def Act.frees : Act → Bool
  | .dropSend _ => true
  | .dropRecv _ => true
  | .work _ => true
  | _ => false

namespace Endpoint

variable {l : Limits} {isClient : Bool} {e e' : Endpoint} {log : List Event}

theorem receiver_of_core {s : Shared} (done : Bool) (h : s.core = e.shared.core) (log : List Event)
    (hlog : ∀ x ∈ log, x.Silent) (hd : e.readerDone = true → done = true) :
    RecvStep e.receiver log (s.core.receiver done) := by
  rw [h]
  exact .quiet e.receiver log done hlog hd

theorem receiver_close {s : Shared} (done : Bool)
    (h : s.core = e.shared.core ∨ s.core = { e.shared.core with closed := true }) (log : List Event)
    (hlog : ∀ x ∈ log, x.Silent) (hd : e.readerDone = true → done = true) :
    RecvStep e.receiver log (s.core.receiver done) := by
  rcases h with h | h
  · exact receiver_of_core done h log hlog hd
  · rw [h]
    exact .quiet e.receiver log done hlog hd

theorem receiver_markClosed (done : Bool) (log : List Event) (hlog : ∀ x ∈ log, x.Silent)
    (hd : e.readerDone = true → done = true) :
    RecvStep e.receiver log (e.shared.markClosed.core.receiver done) := by
  rcases e.shared.markClosed_core with h | h
  · exact receiver_close done (.inr h) log hlog hd
  · rw [h]
    have hdir : ∀ id, ((e.shared.inbox.shut e.shared.streams).dir id).discarded =
        (e.shared.inbox.dir id).discarded := by
      intro id
      obtain ⟨closed, hc⟩ := e.shared.inbox.shut_dir e.shared.streams id
      rw [hc]
    have hstep := RecvStep.shut e.receiver log done hlog hd
    have hr := Core.receiver_setInbox { e.shared.core with closed := true, shut := true, streams := [] } done
      (e.shared.inbox.shut e.shared.streams) hdir
    exact hr ▸ hstep

/-- A new stream takes over the receive side at its id. -/
theorem receiver_create (s : Shared) (done : Bool) (ids : Ids) (id : Nat) (life : StreamLife) (holder : Holder)
    (hl : life.holder false = holder) (hm : life.recvMode = 0) :
    ({ (s.createStream id).core with
        ids := ids
        streams := s.streams ++ [id]
        life := Function.update (s.createStream id).life id life } : Core).receiver done =
      (s.core.receiver done).create ids id holder := by
  have hdir := s.inbox.create_dir s.limits id
  have hholder : (fun j => (Function.update (s.createStream id).life id life j).holder
      ((s.inbox.create s.limits id).dir j).discarded) =
        Function.update (s.core.receiver done).holder id holder := by
    funext j
    rw [hdir]
    by_cases hj : j = id
    · subst hj
      simpa using hl
    · simp [hj, Core.receiver, Shared.core, Shared.createStream]
  have hmode : (fun j => (Function.update (s.createStream id).life id life j).recvMode) =
      Function.update (s.core.receiver done).mode id 0 := by
    funext j
    by_cases hj : j = id
    · subst hj
      simpa using hm
    · simp [hj, Core.receiver, Shared.core, Shared.createStream]
  simp only [Core.receiver, Receiver.create] at hholder hmode ⊢
  rw [← hholder, ← hmode]
  rfl

/-- `open_bi` after its permit. -/
theorem receiver_openBi : RecvStep e.receiver [] (e.shared.openBi.1.core.receiver e.readerDone) := by
  have hnone : ∀ x ∈ ([] : List Event), x.Silent := by simp
  unfold Shared.openBi
  by_cases hc : e.shared.closed = true
  · rw [if_pos hc]
    exact .quiet e.receiver [] e.readerDone hnone fun h => h
  rw [if_neg hc]
  by_cases hq : (e.shared.queues.closing || e.shared.queues.control.length ≥ e.shared.limits.maxControlFrames) = true
  · rw [if_pos hq]
    exact receiver_markClosed e.readerDone [] hnone fun h => h
  rw [if_neg hq]
  by_cases hid : e.shared.nextLocalStreamId ≤ varIntMax
  · rw [if_pos hid]
    let id := e.shared.nextLocalStreamId
    let s₁ := ({ e.shared with nextLocalStreamId := id + 2 } : Shared).createStream id
    have hs : s₁.life id = { openPermit := true } := Function.update_self ..
    have hstep : RecvStep e.receiver []
        (({ s₁.core with
            ids := e.shared.ids.takeLocal
            streams := e.shared.streams ++ [id]
            life := Function.update s₁.life id { s₁.life id with sendHandles := 1, recvHandles := 1 } } :
          Core).receiver e.readerDone) := by
      rw [hs]
      have hr := receiver_create { e.shared with nextLocalStreamId := id + 2 } e.readerDone
        e.shared.ids.takeLocal id { openPermit := true, sendHandles := 1, recvHandles := 1 } .held rfl rfl
      exact hr ▸ RecvStep.openLocal e.receiver hid
    exact hstep
  · rw [if_neg hid]
    exact .quiet e.receiver [] e.readerDone hnone fun h => h

/-- OPEN_STREAM; the stream stays when the incoming queue is full. -/
theorem receiver_onRemoteOpen (streamId : VarInt) :
    (∃ error, (e.shared.onRemoteOpen streamId.intoInner).2 = .error error ∧
        RecvStep e.receiver [.rejected error]
          ((e.shared.onRemoteOpen streamId.intoInner).1.core.receiver true)) ∨
      (e.shared.onRemoteOpen streamId.intoInner).2 = .ok () ∧
        RecvStep e.receiver [.accepted (.openStream streamId)]
          ((e.shared.onRemoteOpen streamId.intoInner).1.core.receiver e.readerDone) := by
  have hrej : ∀ error, RecvStep e.receiver [.rejected error] (e.shared.core.receiver true) :=
    fun error => .reject e.receiver error
  unfold Shared.onRemoteOpen
  by_cases hpar : streamId.intoInner % 2 = e.shared.localParity
  · rw [if_pos hpar]
    exact .inl ⟨_, rfl, hrej _⟩
  rw [if_neg hpar]
  by_cases hid : streamId.intoInner ≠ e.shared.nextRemoteStreamId
  · rw [if_pos hid]
    exact .inl ⟨_, rfl, hrej _⟩
  rw [if_neg hid]
  cases e.shared.openStreams.tryAcquire 1 with
  | none => exact .inl ⟨_, rfl, hrej _⟩
  | some openStreams =>
    simp only
    by_cases hmem : streamId.intoInner ∈ e.shared.streams
    · rw [if_pos hmem]
      exact .inl ⟨_, rfl, hrej _⟩
    rw [if_neg hmem]
    have hnext : streamId.intoInner = e.receiver.ids.nextRemote := not_not.mp hid
    have hle : e.receiver.ids.nextRemote ≤ varIntMax := hnext ▸ streamId.le_max
    have hexp : VarInt.expect e.receiver.ids.nextRemote = streamId := by
      rw [← hnext, VarInt.expect_inner]
    let s₁ := ({ e.shared with openStreams } : Shared).createStream streamId.intoInner
    have hlife : Function.update s₁.life streamId.intoInner { openPermit := true } = s₁.life :=
      Function.update_idem ..
    have hopen : ∀ log done incoming,
        log = [.accepted (.openStream streamId)] ∧ done = e.readerDone ∨
          (∃ error, log = [.rejected error]) ∧ done = true →
        RecvStep e.receiver log
          (({ s₁.core with
              ids := ⟨e.shared.localParity, e.shared.nextLocalStreamId, streamId.intoInner + 2⟩
              streams := e.shared.streams ++ [streamId.intoInner]
              incoming := incoming } : Core).receiver done) := by
      intro log done incoming h
      have hr := receiver_create { e.shared with openStreams } done
        ⟨e.shared.localParity, e.shared.nextLocalStreamId, streamId.intoInner + 2⟩ streamId.intoInner
        { openPermit := true } .waiting rfl rfl
      have hids : e.receiver.ids.takeRemote =
          ⟨e.shared.localParity, e.shared.nextLocalStreamId, streamId.intoInner + 2⟩ := by
        rw [hnext]
        rfl
      have hstep := RecvStep.openRemote e.receiver log done hle (hexp ▸ h)
      rw [hlife] at hr
      rw [← hnext, hids] at hstep
      exact (congrArg (RecvStep e.receiver log) hr).mpr hstep
    split_ifs
    · exact .inl ⟨_, rfl, hopen _ true _ (.inr ⟨⟨_, rfl⟩, rfl⟩)⟩
    · exact .inr ⟨rfl, hopen _ e.readerDone _ (.inl ⟨rfl, rfl⟩)⟩

theorem acceptedEvents_silent (s : Shared) (f : Frame) (hf : (Event.accepted f).Silent) :
    ∀ x ∈ s.acceptedEvents f, x.Silent := by
  rcases acceptedEvents_eq s f with he | ⟨id, he⟩
  · rw [he]
    simpa using hf
  · rw [he]
    simpa [Event.Silent] using hf

/-- An incoming frame: refused, accepted, or the CLOSE that ends the reader. -/
theorem receiver_handleFrame (hd : e.readerDone = false) (f : Frame) (s : Shared)
    (r : Except Error Shared.Handled) (h : e.shared.handleFrame f = (s, r)) :
    (∃ error, r = .error error ∧ RecvStep e.receiver [.rejected error] (s.core.receiver true)) ∨
      (∃ todo, r = .ok (.more todo) ∧
        RecvStep e.receiver (e.shared.acceptedEvents f) (s.core.receiver e.readerDone)) ∨
      r = .ok .stop ∧ RecvStep e.receiver (e.shared.acceptedEvents f) (s.core.receiver true) := by
  have hreject : ∀ error, (e.shared, Except.error error) = (s, r) →
      ∃ error, r = .error error ∧ RecvStep e.receiver [.rejected error] (s.core.receiver true) := by
    intro error he
    cases he
    exact ⟨error, rfl, .reject e.receiver error⟩
  have hquiet : ∀ s' : Shared, s'.core = e.shared.core → (Event.accepted f).Silent →
      RecvStep e.receiver (e.shared.acceptedEvents f) (s'.core.receiver e.readerDone) :=
    fun s' hs hf => receiver_of_core e.readerDone hs _ (acceptedEvents_silent e.shared f hf) fun h => h
  unfold Shared.handleFrame at h
  by_cases hfirst : (!f.isSettings && !e.shared.queues.peerSettings) = true
  · rw [if_pos hfirst] at h
    exact .inl (hreject _ h)
  rw [if_neg hfirst] at h
  cases f with
  | settings data streamData frameSize =>
    simp only at h
    split_ifs at h
    · exact .inl (hreject _ h)
    · cases h
      exact .inr (.inl ⟨_, rfl, hquiet _ rfl trivial⟩)
  | maxData maximum =>
    cases h
    exact .inr (.inl ⟨_, rfl, hquiet _ rfl trivial⟩)
  | maxStreamData streamId maximum =>
    simp only at h
    split_ifs at h
    · cases h
      exact .inr (.inl ⟨_, rfl, hquiet _ rfl trivial⟩)
    · exact .inl (hreject _ h)
    · cases h
      exact .inr (.inl ⟨_, rfl, hquiet _ rfl trivial⟩)
  | stream streamId fin payload =>
    simp only at h
    unfold Shared.onRemoteStreamFrame at h
    by_cases hs : streamId.intoInner ∉ e.shared.streams
    · rw [if_pos hs] at h
      exact .inl (hreject _ h)
    rw [if_neg hs] at h
    unfold Shared.ensurePeerSendOpen at h
    by_cases ht : (e.shared.inbox.recv streamId.intoInner).recvTerminal = true
    · rw [if_pos ht] at h
      exact .inl (hreject _ h)
    rw [if_neg ht] at h
    cases hacc : e.shared.inbox.acceptData e.shared.limits streamId.intoInner payload fin with
    | mk inbox result =>
      rw [hacc] at h
      cases result with
      | error error =>
        cases h
        have hdir := e.shared.inbox.acceptData_error_dir _ _ _ _ _ _ hacc
        have hr := e.shared.core.receiver_setInbox true inbox fun id => by rw [hdir]; rfl
        have hstep := RecvStep.refuse e.receiver streamId.intoInner fin payload inbox error (not_not.mp hs) hacc
        exact .inl ⟨error, rfl, (congrArg (RecvStep e.receiver _) hr).mpr hstep⟩
      | ok u =>
        cases h
        obtain ⟨chunks, hdir, -⟩ := e.shared.inbox.acceptData_dir _ _ _ _ _ hacc
        have hr := e.shared.core.receiver_setInbox_at e.readerDone inbox _ _ hdir rfl
        have hstep := RecvStep.stream e.receiver streamId fin payload inbox hd (not_not.mp hs)
          (Bool.eq_false_iff.mpr ht) hacc
        exact .inr (.inl ⟨_, rfl, (congrArg (RecvStep e.receiver _) hr).mpr hstep⟩)
  | resetStream streamId errorCode =>
    simp only at h
    unfold Shared.onRemoteReset at h
    by_cases hs : streamId.intoInner ∉ e.shared.streams
    · rw [if_pos hs] at h
      exact .inl (hreject _ h)
    rw [if_neg hs] at h
    unfold Shared.ensurePeerSendOpen at h
    by_cases ht : (e.shared.inbox.recv streamId.intoInner).recvTerminal = true
    · rw [if_pos ht] at h
      exact .inl (hreject _ h)
    rw [if_neg ht] at h
    cases h
    have hdir := (e.shared.inbox.markReset streamId.intoInner errorCode.intoInner).markRecvTerminal_dir
      streamId.intoInner
    rw [Inbox.markReset_dir, Function.update_idem, Function.update_self] at hdir
    have hr := e.shared.core.receiver_setInbox_at e.readerDone _ _ _ hdir rfl
    have hstep := RecvStep.reset e.receiver streamId errorCode hd (not_not.mp hs) (Bool.eq_false_iff.mpr ht)
    exact .inr (.inl ⟨_, rfl, (congrArg (RecvStep e.receiver _) hr).mpr hstep⟩)
  | openStream streamId =>
    simp only at h
    have hopen := e.receiver_onRemoteOpen streamId
    cases hr : e.shared.onRemoteOpen streamId.intoInner with
    | mk s₁ r₁ =>
      rw [hr] at h hopen
      rcases hopen with ⟨error, rfl, hstep⟩ | ⟨rfl, hstep⟩
      · cases h
        exact .inl ⟨error, rfl, hstep⟩
      · cases h
        exact .inr (.inl ⟨_, rfl, hstep⟩)
  | stopSending streamId =>
    simp only at h
    split_ifs at h
    · have hc := e.shared.resetStream_core streamId.intoInner 0
      cases hr : e.shared.resetStream streamId.intoInner 0 with
      | mk s₁ r₁ =>
        rw [hr] at h hc
        cases r₁ with
        | error error =>
          cases h
          exact .inl ⟨error, rfl, (congrArg (fun c => RecvStep _ _ (c.receiver true)) hc).mpr (.reject _ error)⟩
        | ok u =>
          cases h
          exact .inr (.inl ⟨_, rfl, hquiet _ hc trivial⟩)
    · exact .inl (hreject _ h)
    · cases h
      exact .inr (.inl ⟨_, rfl, hquiet _ rfl trivial⟩)
  | ping =>
    cases h
    exact .inr (.inl ⟨_, rfl, hquiet _ rfl trivial⟩)
  | connectionClose code reason =>
    cases h
    exact .inr (.inr ⟨rfl, receiver_markClosed true _ (acceptedEvents_silent e.shared _ trivial) fun _ => rfl⟩)

/-- One item of the transport. -/
theorem receiver_receive {bytes : Bytes} (hd : e.readerDone = false) (hitem : e.Receives bytes (e', log)) :
    RecvStep e.receiver log e'.receiver := by
  cases hitem with
  | dropped log ops hlog =>
    rcases hlog with rfl | ⟨error, rfl⟩
    · exact .quiet e.receiver [] true (by simp) fun _ => rfl
    · exact .reject e.receiver error
  | refused f rest s error reason _ hh =>
    rcases receiver_handleFrame hd f s _ hh with ⟨error', he, hstep⟩ | ⟨todo, he, -⟩ | ⟨he, -⟩
    · cases he
      exact hstep
    · cases he
    · cases he
  | more f rest s todo _ hh =>
    rcases receiver_handleFrame hd f s _ hh with ⟨error', he, -⟩ | ⟨todo', -, hstep⟩ | ⟨he, -⟩
    · cases he
    · exact hstep
    · cases he
  | stop f rest s _ hh =>
    rcases receiver_handleFrame hd f s _ hh with ⟨error', he, -⟩ | ⟨todo', he, -⟩ | ⟨-, hstep⟩
    · cases he
    · cases he
    · exact hstep

theorem closingEvents_silent (s : Shared) (errorCode : Nat) (reason : String) :
    ∀ x ∈ s.closingEvents errorCode reason, x.Silent := by
  unfold Shared.closingEvents
  split_ifs
  · simp
  · split
    · simp [Event.Silent]
    · simp

theorem resetEvents_silent (s : Shared) (id errorCode : Nat) :
    ∀ x ∈ s.resetEvents id errorCode, x.Silent := by
  unfold Shared.resetEvents
  split
  · simp [Event.Silent]
  · simp

/-- A task step. -/
theorem receiver_op (op : TaskOp) :
    RecvStep e.receiver (e.shared.opEvents op) ((e.shared.runOp op).1.core.receiver e.readerDone) := by
  have hquiet : ∀ log : List Event, (∀ x ∈ log, x.Silent) → RecvStep e.receiver log e.receiver :=
    fun log hlog => .quiet e.receiver log e.readerDone hlog fun h => h
  have hlife : ∀ id life, life.recvDropped = (e.shared.life id).recvDropped →
      life.recvHandles = (e.shared.life id).recvHandles → life.recvMode = (e.shared.life id).recvMode →
      ∀ permits, ({ e.shared.core with life := Function.update e.shared.life id life, permits := permits } :
        Core).receiver e.readerDone = e.receiver :=
    fun id life hd hh hm _ => e.shared.core.receiver_setLife_same e.readerDone id life hd hh hm
  cases op with
  | complete id =>
    simp only [Shared.runOp, Shared.opEvents]
    split_ifs
    · have hr := hlife id { e.shared.life id with sendComplete := true } rfl rfl rfl e.shared.openStreams.permits
      exact (congrArg (RecvStep e.receiver []) hr).mpr (hquiet [] (by simp))
    · exact hquiet [] (by simp)
  | retire id =>
    simp only [Shared.runOp, Shared.opEvents]
    by_cases hm : id ∈ e.shared.streams ∧ (e.shared.life id).sendComplete = true ∧
        (e.shared.inbox.recv id).recvTerminal = true
    · rw [if_pos hm]
      have hr := hlife id { e.shared.life id with openPermit := false } rfl rfl rfl
      exact (congrArg (RecvStep e.receiver []) (hr _)).mpr (hquiet [] (by simp))
    · rw [if_neg hm]
      exact hquiet [] (by simp)
  | remove id =>
    simp only [Shared.runOp, Shared.opEvents]
    split_ifs with hm
    · exact .retire e.receiver id hm.2.2
    · exact hquiet [] (by simp)
  | cleanSend id =>
    simp only [Shared.runOp, Shared.opEvents]
    by_cases hm : (e.shared.life id).sendDropped = true
    · rw [if_pos hm]
      let s₁ := e.shared.setLife id { e.shared.life id with sendDropped := false }
      have hr := hlife id { e.shared.life id with sendDropped := false } rfl rfl rfl e.shared.openStreams.permits
      have hc : (if (s₁.send id).sendTerminal then s₁ else (s₁.resetStream id 0).1).core = s₁.core := by
        split_ifs
        · rfl
        · exact s₁.resetStream_core id 0
      have hlog : ∀ x ∈ (if (e.shared.life id).sendDropped && !(e.shared.send id).sendTerminal
          then e.shared.resetEvents id 0 else []), x.Silent := by
        split_ifs
        · exact resetEvents_silent e.shared id 0
        · simp
      have hall := (congrArg (fun c => c.receiver e.readerDone) hc).trans hr
      exact (congrArg (RecvStep e.receiver _) hall).mpr (hquiet _ hlog)
    · rw [if_neg hm]
      exact hquiet _ (by simp [hm])
  | cleanRecv id =>
    simp only [Shared.runOp, Shared.opEvents]
    by_cases hm : (e.shared.life id).recvDropped = true
    · rw [if_pos hm]
      let s₁ := e.shared.setLife id { e.shared.life id with recvDropped := false }
      have hgone : e.receiver.holder id = .gone := by
        simp [receiver, Core.receiver, Shared.core, StreamLife.holder, hm]
      have hstep := RecvStep.discard e.receiver id hgone
      have hr : ({ s₁ with inbox := s₁.inbox.discardInbound id } : Shared).core.receiver e.readerDone =
          { e.receiver with inbox := e.receiver.inbox.discardInbound id } := by
        have hdir := e.shared.inbox.discardInbound_dir id
        have hholder : (fun j => (s₁.life j).holder ((e.shared.inbox.discardInbound id).dir j).discarded) =
            e.receiver.holder := by
          funext j
          rw [hdir]
          by_cases hj : j = id
          · subst hj
            rw [hgone, Function.update_self]
            simp [StreamLife.holder]
          · rw [Function.update_of_ne hj]
            simp only [s₁, Shared.setLife, Function.update_of_ne hj]
            rfl
        have hmode : (fun j => (s₁.life j).recvMode) = e.receiver.mode := by
          rw [show s₁.life = Function.update e.shared.life id _ from rfl]
          exact (Function.comp_update StreamLife.recvMode e.shared.life id _).trans (Function.update_eq_self ..)
        simp only [Core.receiver, Shared.core] at hholder hmode ⊢
        rw [← hholder, ← hmode]
        rfl
      exact (congrArg (RecvStep e.receiver _) hr).mpr hstep
    · rw [if_neg hm]
      exact hquiet [] (by simp)
  | stopSending id =>
    simp only [Shared.runOp, Shared.opEvents]
    have hc := e.shared.enqueueControl_core (.stopSending (.expect id))
    cases hq : e.shared.enqueueControl (.stopSending (.expect id)) with
    | mk s ok =>
      rw [hq] at hc
      cases ok with
      | true => exact receiver_of_core e.readerDone hc _ (by simp [Event.Silent]) fun h => h
      | false =>
        simp only
        obtain rfl := Shared.enqueueControl_refused hq
        rw [if_neg Bool.false_ne_true]
        split_ifs
        · exact hquiet [] (by simp)
        · exact receiver_markClosed e.readerDone [] (by simp) fun h => h
  | failClose reason =>
    exact receiver_close e.readerDone (e.shared.initiateClose_core 1 reason) _
      (closingEvents_silent e.shared 1 reason) fun h => h
  | markClosed => exact receiver_markClosed e.readerDone _ (by simp [Shared.opEvents]) fun h => h

/-- A receive side with a handle is neither waiting nor dropped. -/
theorem holder_held {id : Nat} (hsh : e.ledger.shares id ≤ 1) (h : (e.shared.life id).recvHandles ≠ 0) :
    (e.shared.life id).recvHandles = 1 ∧ e.receiver.holder id = .held := by
  have hs : (e.shared.life id).recvHandles + e.shared.incomingStreams.count id +
      (e.shared.life id).recvDropped.toNat + (e.shared.inbox.dir id).discarded.toNat ≤ 1 := hsh
  have hd : (e.shared.life id).recvDropped = false := by
    cases hx : (e.shared.life id).recvDropped
    · rfl
    · rw [hx, Bool.toNat_true] at hs
      omega
  have hg : (e.shared.inbox.dir id).discarded = false := by
    cases hx : (e.shared.inbox.dir id).discarded
    · rfl
    · rw [hx, Bool.toNat_true] at hs
      omega
  refine ⟨by omega, ?_⟩
  simp [receiver, Core.receiver, Shared.core, StreamLife.holder, hd, hg, h]

/-- A stream in the incoming queue has no other share. -/
theorem holder_waiting {id : Nat} (hsh : e.ledger.shares id ≤ 1) (h : id ∈ e.shared.incomingStreams) :
    (e.shared.life id).recvDropped = false ∧ (e.shared.inbox.dir id).discarded = false ∧
      e.receiver.holder id = .waiting := by
  have hs : (e.shared.life id).recvHandles + e.shared.incomingStreams.count id +
      (e.shared.life id).recvDropped.toNat + (e.shared.inbox.dir id).discarded.toNat ≤ 1 := hsh
  have hc := List.count_pos_iff.mpr h
  have hh : (e.shared.life id).recvHandles = 0 := by omega
  have hd : (e.shared.life id).recvDropped = false := Bool.toNat_eq_zero.mp (by omega)
  have hg : (e.shared.inbox.dir id).discarded = false := Bool.toNat_eq_zero.mp (by omega)
  refine ⟨hd, hg, ?_⟩
  simp [receiver, Core.receiver, Shared.core, StreamLife.holder, hd, hg, hh]

theorem selectMode_ok {mode requested recvMode : Nat} (h : Shared.selectMode mode requested = .ok recvMode) :
    recvMode = requested ∧ (mode = 0 ∨ mode = requested) := by
  unfold Shared.selectMode at h
  split_ifs at h with hm
  cases h
  exact ⟨rfl, hm⟩

/-- A read is a step when the receive side has a handle. -/
theorem receiver_read (mode id : Nat) (poll : Inbox → Inbox × Inbox.ReadOutcome)
    (hpoll : ∀ b, ∃ d : RecvDir, (poll b).1.dir = Function.update b.dir id d ∧
      d.discarded = (b.dir id).discarded)
    (hstep : (e.shared.life id).recvMode = 0 ∨ (e.shared.life id).recvMode = mode →
      RecvStep e.receiver (Shared.readEvents id (poll e.shared.inbox).2)
        { e.receiver with
          inbox := (poll e.shared.inbox).1
          mode := Function.update e.receiver.mode id mode }) :
    RecvStep e.receiver (e.read mode id poll).2 (e.read mode id poll).1.receiver := by
  unfold read
  cases hm : Shared.selectMode (e.shared.life id).recvMode mode with
  | error error => exact .quiet e.receiver [] e.readerDone (by simp) fun h => h
  | ok recvMode =>
    obtain ⟨rfl, hmode⟩ := selectMode_ok hm
    obtain ⟨d, hd, hdis⟩ := hpoll e.shared.inbox
    have hin := (e.shared.setLife id { e.shared.life id with recvMode }).core.receiver_setInbox_at e.readerDone
      (poll e.shared.inbox).1 id d hd hdis
    have hlife := e.shared.core.receiver_setLife e.readerDone id { e.shared.life id with recvMode }
    have hholder : ({ e.shared.life id with recvMode } : StreamLife).holder
        (e.shared.core.inbox.dir id).discarded = e.receiver.holder id := rfl
    have hr : ((e.shared.setLife id { e.shared.life id with recvMode }).core).receiver e.readerDone =
        { e.receiver with mode := Function.update e.receiver.mode id recvMode } := by
      refine hlife.trans ?_
      have hself := Function.update_eq_self id e.receiver.holder
      rw [← hholder] at hself
      simp only [receiver] at hself ⊢
      rw [hself]
    rw [hr] at hin
    exact (congrArg (RecvStep e.receiver _) hin).mpr (hstep hmode)

/-- A `SendStream` is dropped; the receiver does not see it. -/
theorem receiver_dropSend (id : Nat) :
    RecvStep e.receiver []
      (((e.shared.cancelWrite id).setLife id
        { e.shared.life id with
          sendHandles := (e.shared.life id).sendHandles - 1
          sendDropped := (e.shared.life id).sendDropped || (e.shared.life id).sendHandles == 1 }).core.receiver
        e.readerDone) := by
  let life := { e.shared.life id with
    sendHandles := (e.shared.life id).sendHandles - 1
    sendDropped := (e.shared.life id).sendDropped || (e.shared.life id).sendHandles == 1 }
  have hlife := e.shared.core.receiver_setLife_same e.readerDone id life rfl rfl rfl
  have hr : ((e.shared.cancelWrite id).setLife id life).core.receiver e.readerDone = e.receiver := by
    refine Eq.trans ?_ hlife
    rw [← e.shared.cancelWrite_core id]
    rfl
  rw [hr]
  exact .quiet e.receiver [] e.readerDone (by simp) fun h => h

/-- The `RecvStream` is dropped. -/
theorem receiver_dropRecv (hsh : ∀ id, e.ledger.shares id ≤ 1)
    (id : Nat) (hh : (e.shared.life id).recvHandles ≠ 0) :
    RecvStep e.receiver []
      ((({ e.shared with inbox := e.shared.inbox.dropRemainder id } : Shared).setLife id
        { e.shared.life id with
          recvHandles := (e.shared.life id).recvHandles - 1
          recvDropped := (e.shared.life id).recvDropped || (e.shared.life id).recvHandles == 1 }).core.receiver
        e.readerDone) := by
  obtain ⟨hone, hheld⟩ := holder_held (hsh id) hh
  let life := { e.shared.life id with
    recvHandles := (e.shared.life id).recvHandles - 1
    recvDropped := (e.shared.life id).recvDropped || (e.shared.life id).recvHandles == 1 }
  have hin := e.shared.core.receiver_setInbox_at e.readerDone (e.shared.inbox.dropRemainder id) id _
    (e.shared.inbox.dropRemainder_dir id) rfl
  have hr := ({ e.shared.core with inbox := e.shared.inbox.dropRemainder id } : Core).receiver_setLife
    e.readerDone id life
  have hgone : ∀ discarded, life.holder discarded = .gone := by
    intro discarded
    simp [life, StreamLife.holder, hone]
  have hmode : Function.update (e.shared.core.receiver e.readerDone).mode id life.recvMode =
      (e.shared.core.receiver e.readerDone).mode :=
    Function.update_eq_self id e.receiver.mode
  rw [hin, hgone, hmode] at hr
  exact (congrArg (RecvStep e.receiver []) hr).mpr (.drop e.receiver id hheld)

/-- A turn of `next_frame`, with its frame if it returns one. -/
theorem receiver_turn (hv : e.shared.sender.WF l) {order : List Nat} (hp : order.Perm e.shared.queues.receiveWindows)
    {s : Shared} {turn : Shared.Turn} (hn : e.shared.nextFrame order = (s, turn)) (log : List Event)
    (hlog : (∃ f, turn = .frame f ∧ log = [.emitted f]) ∨ (∀ f, turn ≠ .frame f) ∧ log = []) :
    RecvStep e.receiver log (s.core.receiver e.readerDone) := by
  have hwin : e.shared.queues.receiveWindows = e.shared.streams := hv.windows
  have hcontrol : ∀ f ∈ e.shared.queues.control, f.isCredit = false := by
    intro f hf
    have hc := hv.control f hf
    cases f <;> first | rfl | exact hc.elim
  have hclose : ∀ f, e.shared.queues.closeFrame = some f → f.isCredit = false := by
    intro f hf
    obtain ⟨code, fitted, rfl, -⟩ := hv.close f hf
    rfl
  have hone : ∀ f, turn = .frame f → log = [.emitted f] := by
    intro f hf
    rcases hlog with ⟨g, hg, rfl⟩ | ⟨hnone, -⟩
    · cases hf.symm.trans hg
      rfl
    · exact absurd hf (hnone f)
  have hcore := e.shared.nextFrame_core order
  rw [hn] at hcore
  rcases hcore with ⟨hc, hf⟩ | ⟨maximum, hu, hc, hf⟩ | ⟨id, maximum, hid, ht, hd, hu, hc, hf⟩
  · refine receiver_of_core e.readerDone hc log ?_ fun h => h
    rcases hlog with ⟨f, rfl, rfl⟩ | ⟨-, rfl⟩
    · intro x hx
      rw [List.mem_singleton.mp hx]
      exact hf hcontrol hclose f rfl
    · simp
  · rw [hone _ hf]
    have hr := congrArg (fun c => c.receiver e.readerDone) hc
    exact (congrArg (RecvStep e.receiver _) hr).mpr (.grantConn e.receiver maximum hu)
  · rw [hone _ hf]
    have hr := e.shared.core.receiver_setInbox e.readerDone (e.shared.inbox.grantStream id)
      fun j => by rw [Inbox.grantStream_dir]; rfl
    have hr' := (congrArg (fun c => c.receiver e.readerDone) hc).trans hr
    have hmem : id ∈ e.receiver.streams := by
      change id ∈ e.shared.streams
      rw [← hwin]
      exact hp.subset hid
    exact (congrArg (RecvStep e.receiver _) hr').mpr (.grantStream e.receiver id maximum hmem ht hd hu)

/-- Each other step of an endpoint is one step of its receiver. -/
theorem receiver_step (hv : e.shared.sender.WF l) (hk : e.ledger.Known) (hsh : ∀ id, e.ledger.shares id ≤ 1)
    (a : Act) (ha : a.frees = false) (h : e.step a = some (e', log)) : RecvStep e.receiver log e'.receiver := by
  have hnone : ∀ x ∈ ([] : List Event), x.Silent := by simp
  have hquiet : RecvStep e.receiver [] e.receiver := .quiet e.receiver [] e.readerDone hnone fun h => h
  have hsame : ∀ (s : Shared) log, s.core = e.shared.core → (∀ x ∈ log, x.Silent) →
      RecvStep e.receiver log (s.core.receiver e.readerDone) :=
    fun s log hs hlog => receiver_of_core e.readerDone hs log hlog fun h => h
  cases step_cases h with
  | openFinish => exact receiver_openBi
  | accept id incoming hc hin =>
    have hmem : id ∈ e.shared.incomingStreams := hin ▸ List.mem_cons_self
    obtain ⟨hd, hg, hw⟩ := holder_waiting (hsh id) hmem
    let life := { e.shared.life id with
      sendHandles := (e.shared.life id).sendHandles + 1
      recvHandles := (e.shared.life id).recvHandles + 1 }
    have hr := e.shared.core.receiver_setLife e.readerDone id life
    have hholder : life.holder (e.shared.core.inbox.dir id).discarded = .held := by
      simp [life, StreamLife.holder, hd, Shared.core, hg]
    have hmode : Function.update e.receiver.mode id life.recvMode = e.receiver.mode :=
      Function.update_eq_self id e.receiver.mode
    have hstep := RecvStep.accept e.receiver id hw (hk.incoming id hmem)
    rw [hholder, show Function.update (e.shared.core.receiver e.readerDone).mode id life.recvMode =
      (e.shared.core.receiver e.readerDone).mode from hmode] at hr
    exact (congrArg (RecvStep e.receiver []) hr).mpr hstep
  | write mode id payload fin sendMode r hh hm hw =>
    have hs := Shared.startWrite_core _ id payload fin r hw
    have hlife := e.shared.core.receiver_setLife_same e.readerDone id { e.shared.life id with sendMode }
      rfl rfl rfl
    have hall := (congrArg (fun c => c.receiver e.readerDone) hs).trans hlife
    exact (congrArg (RecvStep e.receiver []) hall).mpr hquiet
  | acquire id s hw => exact hsame s [] (e.shared.acquireWrite_core id s hw) hnone
  | enqueue id s w hw => exact hsame s _ (e.shared.enqueueWrite_core id _ hw) (by simp [Event.Silent])
  | enqueueFailed id s error hw => exact hsame s [] (e.shared.enqueueWrite_core id _ hw) hnone
  | finish id s hw => exact hsame s [] (e.shared.finishWrite_core id s hw) hnone
  | cancel id => exact hsame _ [] (e.shared.cancelWrite_core id) hnone
  | reset id errorCode =>
    exact hsame _ _ (e.shared.resetStream_core id errorCode) (resetEvents_silent e.shared id errorCode)
  | readChunk id hh =>
    have hheld := (holder_held (hsh id) hh).2
    refine receiver_read 1 id (fun b => b.readWhole id) ?_ ?_
    · intro b
      obtain ⟨d, hd, -, hdis, -⟩ := b.readWhole_reads id
      exact ⟨d, hd, hdis⟩
    · intro hm
      refine .readWhole e.receiver id hheld ?_
      change (e.shared.life id).recvMode ≠ 2
      omega
  | pollRead id room hh =>
    have hheld := (holder_held (hsh id) hh).2
    refine receiver_read 2 id (fun b => b.pollRead id room) ?_ ?_
    · intro b
      obtain ⟨d, hd, hr⟩ := b.pollRead_reads id room
      exact ⟨d, hd, hr.discarded⟩
    · exact fun _ => .pollRead e.receiver id room hheld
  | dropSend => cases ha
  | dropRecv => cases ha
  | close reason s hc =>
    have hi := e.shared.initiateClose_core 0 reason
    rw [Shared.initiateClose_of_close hc] at hi
    exact receiver_close e.readerDone hi _ (closingEvents_silent e.shared 0 reason) fun h => h
  | lastHandleDropped =>
    exact receiver_close e.readerDone (e.shared.initiateClose_core 0 _) _ (closingEvents_silent e.shared 0 _)
      fun h => h
  | abort => exact receiver_close (s := e.shared.abort) e.readerDone (.inr rfl) [] hnone fun h => h
  | keepalive s hc hp =>
    have hs := e.shared.enqueueControl_core .ping
    rw [hp] at hs
    exact hsame s [] hs hnone
  | keepaliveRefused s hc hp =>
    obtain rfl := Shared.enqueueControl_refused hp
    simp only [hc]
    exact receiver_markClosed e.readerDone [] hnone fun h => h
  | drainExpired => exact receiver_markClosed e.readerDone [] hnone fun h => h
  | frame order s f hw hp hn => exact receiver_turn hv hp hn _ (.inl ⟨f, rfl, rfl⟩)
  | frameEnd order s turn hw hp hn ht =>
    refine receiver_turn hv hp hn _ (.inr ⟨?_, rfl⟩)
    rintro f rfl
    rcases ht with ht | ⟨message, ht⟩ <;> cases ht
  | frameWait order s turn hw hp hn ht =>
    refine receiver_turn hv hp hn _ (.inr ⟨?_, rfl⟩)
    rintro f rfl
    rcases ht with ht | ht <;> cases ht
  | sent => exact hsame e.shared _ rfl (by simp [Event.Silent])
  | sentClose => exact hsame e.shared _ rfl (by simp [Event.Silent])
  | receive bytes e' log hr ht hitem =>
    simp only [reading, Bool.and_eq_true, Bool.not_eq_true'] at hr
    exact receiver_receive hr.1 hitem
  | readerBreak => exact .quiet e.receiver [] true hnone fun _ => rfl
  | idleTimeout => exact .quiet e.receiver [] true hnone fun _ => rfl
  | work => cases ha
  | _ => exact hquiet

/-- A state may be dropped after a step. -/
theorem receiver_free {e₁ : Endpoint} (h : RecvStep e.receiver log e₁.receiver) (id : Nat) :
    (Receiver.machine l isClient).Steps e.receiver log (e₁.free id).receiver := by
  have hone : (Receiver.machine l isClient).Steps e.receiver log e₁.receiver := .single h
  unfold free remains
  by_cases ho : e₁.orphaned id = true
  · rw [if_pos ho, ← List.append_nil log]
    have hgone : e₁.receiver.holder id = .gone := by
      simp only [orphaned, Bool.and_eq_true] at ho
      exact if_pos ho.1
    have hr := e₁.shared.core.receiver_setInbox_at e₁.readerDone (e₁.shared.inbox.clearChunks id) id _
      (e₁.shared.inbox.clearChunks_dir id) rfl
    exact hone.trans (.single ((congrArg (RecvStep e₁.receiver []) hr).mpr (.free e₁.receiver id hgone)))
  · rw [if_neg ho]
    exact hone

/-- Each step of an endpoint is a step of its receiver, and a state may be dropped after it. -/
theorem receiver_steps (hv : e.shared.sender.WF l) (hk : e.ledger.Known) (hsh : ∀ id, e.ledger.shares id ≤ 1)
    (a : Act) (h : e.step a = some (e', log)) :
    (Receiver.machine l isClient).Steps e.receiver log e'.receiver := by
  by_cases ha : a.frees = false
  · exact .single (receiver_step hv hk hsh a ha h)
  cases step_cases h with
  | dropSend id => exact receiver_free (receiver_dropSend id) id
  | dropRecv id hh => exact receiver_free (receiver_dropRecv hsh id hh) id
  | work task op ops ht =>
    unfold freeAfter
    cases op.stream with
    | none => exact .single (receiver_op op)
    | some id => exact receiver_free (receiver_op op) id
  | _ => exact absurd rfl ha

/-- The receiver of an endpoint follows its runs. -/
theorem reach_receiver (h : (machine l isClient).Reach e log) :
    (Receiver.machine l isClient).Reach e.receiver log := by
  refine h.refine receiver ?_ ?_
  · intro e he
    rw [(connect_ok he).2]
    rfl
  · rintro s tr evs s' hr - ⟨a, ha⟩
    have hr' := reach_ledger hr
    exact receiver_steps (Sender.reach_wf (reach_sender hr)) (Ledger.reach_known hr') (Ledger.reach_shares hr') a ha

end Endpoint
end Muxtls
