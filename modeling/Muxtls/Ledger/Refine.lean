import Muxtls.Ledger.Idle
import Muxtls.Receiver.Read

namespace Muxtls
namespace Shared

variable (s : Shared)

theorem holdings_congr {s' : Shared} (hlim : s'.limits = s.limits) (hids : s'.ids = s.ids) (hs : s'.streams = s.streams)
    (hin : s'.incomingStreams = s.incomingStreams) (hlife : ∀ id, (s'.life id).handles = (s.life id).handles)
    (ht : ∀ id, (s'.inbox.dir id).terminal = (s.inbox.dir id).terminal)
    (hd : ∀ id, (s'.inbox.dir id).discarded = (s.inbox.dir id).discarded)
    (hp : s'.openStreams.permits = s.openStreams.permits) (hc : s'.closed = s.closed)
    (hsh : s'.cleanupStarted = s.cleanupStarted) : s'.holdings = s.holdings := by
  simp only [holdings, Core.holdings, core, hlim, hids, hs, hin, hlife, ht, hd, hp, hc, hsh]

/-- The API modes are not part of the holdings. -/
theorem setLife_holdings (id : Nat) (life : StreamLife) (h : life.handles = (s.life id).handles) :
    (s.setLife id life).holdings = s.holdings := by
  refine s.holdings_congr rfl rfl rfl rfl ?_ (fun _ => rfl) (fun _ => rfl) rfl rfl rfl
  intro j
  by_cases hj : j = id
  · subst hj
    simpa [setLife] using h
  · simp [setLife, Function.update_of_ne hj]

theorem holdings_of_core {s s' : Shared} (h : s'.core = s.core) : s'.holdings = s.holdings :=
  congrArg Core.holdings h

/-- The windows are not part of the holdings. -/
theorem grantStream_holdings (id : Nat) : (s.grantStream id).holdings = s.holdings := by
  have hd := s.inbox.dir_setWindow id (s.grantStream id).inbox _ _ rfl rfl
  simp only [holdings, Core.holdings, core, hd]
  rfl

theorem nextFrame_holdings (order : List Nat) : (s.nextFrame order).1.holdings = s.holdings := by
  rcases s.nextFrame_core order with ⟨hc, -⟩ | ⟨-, -, hc, -⟩ | ⟨id, -, -, -, -, -, hc, -⟩
  · exact holdings_of_core hc
  · exact (holdings_of_core hc).trans rfl
  · exact (holdings_of_core hc).trans (s.grantStream_holdings id)

theorem markClosed_holdings :
    s.markClosed.holdings = { s.holdings with closed := true } ∨
      s.markClosed.holdings = { s.holdings with closed := true, shut := true, streams := [] } := by
  rcases s.markClosed_core with h | h
  · exact .inl (congrArg Core.holdings h)
  · right
    have hdir := fun id => Inbox.foldl_markConnectionClosed_dir
      { s.inbox with inboundConnBytes := s.inbox.inboundConnBytes.close } s.streams id
    have ht : ∀ id, ((s.streams.foldl Inbox.markConnectionClosed
        { s.inbox with inboundConnBytes := s.inbox.inboundConnBytes.close }).dir id).terminal =
          (s.inbox.dir id).terminal := by
      intro id
      obtain ⟨closed, h⟩ := hdir id
      rw [h]
      rfl
    have hd : ∀ id, ((s.streams.foldl Inbox.markConnectionClosed
        { s.inbox with inboundConnBytes := s.inbox.inboundConnBytes.close }).dir id).discarded =
          (s.inbox.dir id).discarded := by
      intro id
      obtain ⟨closed, h⟩ := hdir id
      rw [h]
      rfl
    refine (congrArg Core.holdings h).trans ?_
    simp only [holdings, Core.holdings, core, ht, hd]

theorem initiateClose_holdings (errorCode : Nat) (reason : String) :
    (s.initiateClose errorCode reason).1.holdings = s.holdings ∨
      (s.initiateClose errorCode reason).1.holdings = { s.holdings with closed := true } := by
  rcases s.initiateClose_core errorCode reason with h | h
  · exact .inl (congrArg Core.holdings h)
  · exact .inr (congrArg Core.holdings h)

theorem closingEvents_idle (errorCode : Nat) (reason : String) :
    ∀ e ∈ s.closingEvents errorCode reason, e.Idle := by
  intro e he
  unfold closingEvents at he
  split_ifs at he
  · cases he
  · split at he
    · rw [List.mem_singleton.mp he]
      trivial
    · cases he

theorem resetEvents_idle (id errorCode : Nat) : ∀ e ∈ s.resetEvents id errorCode, e.Idle := by
  intro e he
  unfold resetEvents at he
  split at he
  · rw [List.mem_singleton.mp he]
    trivial
  · cases he

theorem readEvents_idle (id : Nat) (outcome : Inbox.ReadOutcome) : ∀ e ∈ readEvents id outcome, e.Idle := by
  intro e he
  cases outcome with
  | bytes data => rw [List.mem_singleton.mp he]; trivial
  | ended => rw [List.mem_singleton.mp he]; trivial
  | failed error => cases he
  | pending => cases he

theorem handles_update (life : Nat → StreamLife) (id : Nat) (x : StreamLife) :
    (fun j => (Function.update life id x j).handles) = Function.update (fun j => (life j).handles) id x.handles :=
  Function.comp_update StreamLife.handles life id x

/-- A change of one receive direction. -/
theorem setInbox_holdings (inbox : Inbox) (id : Nat) (d : RecvDir)
    (h : inbox.dir = Function.update s.inbox.dir id d) :
    ({ s with inbox } : Shared).holdings =
      { s.holdings with
        terminal := Function.update s.holdings.terminal id d.terminal
        discarded := Function.update s.holdings.discarded id d.discarded } := by
  have ht : (fun j => (inbox.dir j).terminal) =
      Function.update (fun j => (s.inbox.dir j).terminal) id d.terminal := by
    rw [h]
    exact Function.comp_update RecvDir.terminal s.inbox.dir id d
  have hd : (fun j => (inbox.dir j).discarded) =
      Function.update (fun j => (s.inbox.dir j).discarded) id d.discarded := by
    rw [h]
    exact Function.comp_update RecvDir.discarded s.inbox.dir id d
  simp only [holdings, Core.holdings, core, ht, hd]
  rfl

/-- A change of one receive direction that keeps its marks. -/
theorem setInbox_same (inbox : Inbox) (id : Nat) (d : RecvDir)
    (h : inbox.dir = Function.update s.inbox.dir id d) (ht : d.terminal = (s.inbox.dir id).terminal)
    (hd : d.discarded = (s.inbox.dir id).discarded) : ({ s with inbox } : Shared).holdings = s.holdings := by
  rw [s.setInbox_holdings inbox id d h, ht, hd]
  have ht' := Function.update_eq_self id s.holdings.terminal
  have hd' := Function.update_eq_self id s.holdings.discarded
  simp only [holdings, Core.holdings, core] at ht' hd' ⊢
  rw [ht', hd']

/-- A receive direction that ends. -/
theorem setInbox_terminal (inbox : Inbox) (id : Nat) (d : RecvDir)
    (h : inbox.dir = Function.update s.inbox.dir id d) (ht : d.terminal = true)
    (hd : d.discarded = (s.inbox.dir id).discarded) :
    ({ s with inbox } : Shared).holdings =
      { s.holdings with terminal := Function.update s.holdings.terminal id true } := by
  have hkeep : Function.update s.holdings.discarded id (s.inbox.dir id).discarded = s.holdings.discarded :=
    Function.update_eq_self id s.holdings.discarded
  rw [s.setInbox_holdings inbox id d h, ht, hd, hkeep]

theorem discardInbound_holdings (id : Nat) :
    ({ s with inbox := s.inbox.discardInbound id } : Shared).holdings =
      { s.holdings with discarded := Function.update s.holdings.discarded id true } := by
  have hkeep : Function.update s.holdings.terminal id (s.inbox.dir id).terminal = s.holdings.terminal :=
    Function.update_eq_self id s.holdings.terminal
  rw [s.setInbox_holdings _ id _ (s.inbox.discardInbound_dir id), hkeep]

/-- `StreamState::new` as the ledger sees it. -/
theorem createStream_holdings (id : Nat) :
    (s.createStream id).holdings =
      { s.holdings with
        life := Function.update s.holdings.life id { openPermit := true }
        terminal := Function.update s.holdings.terminal id false
        discarded := Function.update s.holdings.discarded id false } := by
  have hdir : (s.createStream id).inbox.dir = Function.update s.inbox.dir id ⟨{}, false, false, {}⟩ := by
    funext j
    by_cases hj : j = id
    · subst hj
      simp [createStream, Inbox.dir]
    · simp [createStream, Inbox.dir, Function.update_of_ne hj]
  have hl : (fun j => ((s.createStream id).life j).handles) =
      Function.update (fun j => (s.life j).handles) id { openPermit := true } :=
    handles_update s.life id { openPermit := true }
  have hs := s.setInbox_holdings (s.createStream id).inbox id _ hdir
  simp only [holdings, Core.holdings, core, hl] at hs ⊢
  simp_all [createStream, ids]

theorem setLife_handles (id : Nat) (life : StreamLife) :
    (s.setLife id life).holdings =
      { s.holdings with life := Function.update s.holdings.life id life.handles } := by
  have h := handles_update s.life id life
  simp only [holdings, Core.holdings, core, setLife, h]
  rfl

/-- A frame that ends the receive direction leaves one task step, and other data leaves none. -/
theorem onRemoteStreamFrame_holdings (id : Nat) (payload : Bytes) (fin : Bool) :
    ((∃ error, (s.onRemoteStreamFrame id payload fin).2 = .error error) ∨
        (s.onRemoteStreamFrame id payload fin).2 = .ok [] ∧ fin = false) ∧
          (s.onRemoteStreamFrame id payload fin).1.holdings = s.holdings ∨
      (s.onRemoteStreamFrame id payload fin).2 = .ok [.retire id] ∧ fin = true ∧ id ∈ s.streams ∧
        (s.onRemoteStreamFrame id payload fin).1.holdings =
          { s.holdings with terminal := Function.update s.holdings.terminal id true } := by
  unfold onRemoteStreamFrame
  by_cases hm : id ∉ s.streams
  · rw [if_pos hm]
    exact .inl ⟨.inl ⟨_, rfl⟩, rfl⟩
  rw [if_neg hm]
  cases s.ensurePeerSendOpen id "stream frame" with
  | error error => exact .inl ⟨.inl ⟨_, rfl⟩, rfl⟩
  | ok u =>
    simp only
    cases ha : s.inbox.acceptData s.limits id payload fin with
    | mk inbox r =>
      cases r with
      | error error =>
        have hdir := s.inbox.acceptData_error_dir id s.limits payload fin inbox error ha
        rw [← Function.update_eq_self id s.inbox.dir] at hdir
        exact .inl ⟨.inl ⟨error, rfl⟩, s.setInbox_same inbox id _ hdir rfl rfl⟩
      | ok u =>
        obtain ⟨chunks, hdir, -⟩ := s.inbox.acceptData_dir id s.limits payload fin inbox ha
        cases fin with
        | false =>
          exact .inl ⟨.inr ⟨rfl, rfl⟩, s.setInbox_same inbox id _ hdir (Bool.or_false _) rfl⟩
        | true =>
          exact .inr ⟨rfl, rfl, not_not.mp hm, s.setInbox_terminal inbox id _ hdir (Bool.or_true _) rfl⟩

theorem onRemoteReset_holdings (id errorCode : Nat) :
    (∃ error, (s.onRemoteReset id errorCode).2 = .error error) ∧
        (s.onRemoteReset id errorCode).1.holdings = s.holdings ∨
      (s.onRemoteReset id errorCode).2 = .ok [.retire id] ∧ id ∈ s.streams ∧
        (s.onRemoteReset id errorCode).1.holdings =
          { s.holdings with terminal := Function.update s.holdings.terminal id true } := by
  unfold onRemoteReset
  by_cases hm : id ∉ s.streams
  · rw [if_pos hm]
    exact .inl ⟨⟨_, rfl⟩, rfl⟩
  rw [if_neg hm]
  cases s.ensurePeerSendOpen id "reset" with
  | error error => exact .inl ⟨⟨_, rfl⟩, rfl⟩
  | ok u =>
    refine .inr ⟨rfl, not_not.mp hm, ?_⟩
    have hdir : ((s.inbox.markReset id errorCode).markRecvTerminal id).dir =
        Function.update s.inbox.dir id
          { s.inbox.dir id with
            inbound :=
              { (s.inbox.dir id).inbound with chunks := [], resetError := some errorCode, finReceived := true }
            terminal := true } := by
      rw [Inbox.markRecvTerminal_dir, Inbox.markReset_dir, Function.update_idem, Function.update_self]
    exact s.setInbox_terminal _ id _ hdir rfl rfl

end Shared

namespace Endpoint

variable {l : Limits} {isClient : Bool} (e : Endpoint)

theorem ledger_same {s : Shared} (log : List Event) (hlog : ∀ a ∈ log, a.Idle)
    (h : s.holdings = e.shared.holdings) :
    (Ledger.idle l isClient).Steps e.ledger log { e with shared := s }.ledger := by
  have hv : { e with shared := s }.ledger = e.ledger := by
    simp only [ledger, h]
  rw [hv]
  exact .single (.quiet _ _ hlog)

theorem ledger_close {s : Shared} (log : List Event) (hlog : ∀ a ∈ log, a.Idle)
    (h : s.holdings = e.shared.holdings ∨ s.holdings = { e.shared.holdings with closed := true }) :
    (Ledger.idle l isClient).Steps e.ledger log { e with shared := s }.ledger := by
  rcases h with h | h
  · exact e.ledger_same log hlog h
  · have hv : { e with shared := s }.ledger = { e.ledger with closed := true } := by
      simp only [ledger, h]
    rw [hv, ← List.append_nil log]
    exact .cons (.quiet _ _ hlog) (.single (.close _))

theorem ledger_markClosed :
    (Ledger.idle l isClient).Steps e.ledger [] { e with shared := e.shared.markClosed }.ledger := by
  rcases e.shared.markClosed_holdings with h | h
  · exact e.ledger_close [] (by simp) (.inr h)
  · have hv : { e with shared := e.shared.markClosed }.ledger =
        { e.ledger with closed := true, shut := true, streams := [] } := by
      simp only [ledger, h]
    rw [hv]
    exact .single (.shut _)

theorem ledger_openBi (ho : e.opening = true) :
    (Ledger.idle l isClient).Steps e.ledger [] { e with shared := e.shared.openBi.1, opening := false }.ledger := by
  have hfail : ∀ s : Shared, (Ledger.idle l isClient).Steps e.ledger [] { e with shared := s }.ledger →
      (Ledger.idle l isClient).Steps e.ledger []
        { e with shared := { s with openStreams := s.openStreams.release 1 }, opening := false }.ledger :=
    fun s hs => hs.trans (.single (.openFail _ ho))
  unfold Shared.openBi
  by_cases hc : e.shared.closed = true
  · rw [if_pos hc]
    exact hfail e.shared (.refl _)
  rw [if_neg hc]
  by_cases hq : (e.shared.queues.closing || e.shared.queues.control.length ≥ e.shared.limits.maxControlFrames) = true
  · rw [if_pos hq]
    exact hfail _ e.ledger_markClosed
  rw [if_neg hq]
  by_cases hid : e.shared.nextLocalStreamId ≤ varIntMax
  · rw [if_pos hid]
    let id := e.shared.nextLocalStreamId
    let s₁ := { e.shared with nextLocalStreamId := id + 2 }.createStream id
    have hs₁ : s₁.life id = { openPermit := true } := Function.update_self ..
    have hlife := s₁.setLife_handles id { s₁.life id with sendHandles := 1, recvHandles := 1 }
    rw [hs₁, Shared.createStream_holdings, Function.update_idem] at hlife
    apply Machine.Steps.single
    have hstep : e.ledger.Idles []
        { e.ledger with
          toHoldings :=
            { (s₁.setLife id { s₁.life id with sendHandles := 1, recvHandles := 1 }).holdings with
              streams := e.shared.streams ++ [id] }
          opening := false } := by
      rw [hs₁, hlife]
      exact .openLocal e.ledger ho hid
    exact hstep
  · rw [if_neg hid]
    exact hfail e.shared (.refl _)

theorem ledger_onRemoteOpen (streamId : VarInt) :
    (Ledger.idle l isClient).Steps e.ledger []
      { e with shared := (e.shared.onRemoteOpen streamId.intoInner).1 }.ledger := by
  have hsame : (Ledger.idle l isClient).Steps e.ledger [] { e with shared := e.shared }.ledger := .refl _
  unfold Shared.onRemoteOpen
  by_cases hpar : streamId.intoInner % 2 = e.shared.localParity
  · rw [if_pos hpar]
    exact hsame
  rw [if_neg hpar]
  by_cases hid : streamId.intoInner ≠ e.shared.nextRemoteStreamId
  · rw [if_pos hid]
    exact hsame
  rw [if_neg hid]
  cases hacq : e.shared.openStreams.tryAcquire 1 with
  | none => exact hsame
  | some openStreams =>
    simp only
    by_cases hmem : streamId.intoInner ∈ e.shared.streams
    · rw [if_pos hmem]
      exact hsame
    rw [if_neg hmem]
    have hnext : streamId.intoInner = e.ledger.ids.nextRemote := not_not.mp hid
    have hle : e.ledger.ids.nextRemote ≤ varIntMax := hnext ▸ streamId.le_max
    obtain ⟨-, -, hp⟩ := Semaphore.tryAcquire_eq_some _ _ _ hacq
    have hcreate := ({ e.shared with openStreams } : Shared).createStream_holdings streamId.intoInner
    have hopen : ∀ incoming, incoming = e.ledger.incoming ∨ incoming = e.ledger.incoming ++ [streamId.intoInner] →
        e.ledger.Idles []
          { e.ledger with
            toHoldings :=
              { (({ e.shared with openStreams } : Shared).createStream streamId.intoInner).holdings with
                ids := ⟨e.shared.localParity, e.shared.nextLocalStreamId, streamId.intoInner + 2⟩
                streams := e.shared.streams ++ [streamId.intoInner]
                incoming := incoming } } := by
      intro incoming hin
      rw [hcreate]
      rw [hnext] at hin ⊢
      exact .openRemote e.ledger openStreams.permits incoming hp hle hin
    split_ifs
    · exact .single (hopen _ (.inl rfl))
    · exact .single (hopen _ (.inr rfl))

/-- Setting the empty list of a task that has none changes nothing. -/
theorem setTodo_same (task : Task) (h : e.todo task = []) : e.setTodo task [] = e := by
  have hu := Function.update_eq_self task e.todo
  rw [h] at hu
  simp only [setTodo, hu]

/-- What an incoming frame does to the holdings, apart from an OPEN_STREAM. -/
theorem handleFrame_holdings (s s' : Shared) (f : Frame) (r : Except Error Shared.Handled)
    (h : s.handleFrame f = (s', r)) :
    (∃ streamId, f = .openStream streamId ∧ s' = (s.onRemoteOpen streamId.intoInner).1 ∧
        ∀ todo, r = .ok (.more todo) → todo = []) ∨
      (∃ code reason, f = .connectionClose code reason ∧ s' = s.markClosed ∧ r = .ok .stop) ∨
      s'.holdings = s.holdings ∧ r ≠ .ok .stop ∧ (∀ todo, r = .ok (.more todo) → todo = []) ∨
      ∃ id, id ∈ s.streams ∧ r = .ok (.more [.retire id]) ∧
        s'.holdings = { s.holdings with terminal := Function.update s.holdings.terminal id true } := by
  have hsame : ∀ r', (s, r') = (s', r) → r' ≠ .ok .stop → (∀ todo, r' = .ok (.more todo) → todo = []) →
      s'.holdings = s.holdings ∧ r ≠ .ok .stop ∧ ∀ todo, r = .ok (.more todo) → todo = [] := by
    intro r' he hstop hmore
    cases he
    exact ⟨rfl, hstop, hmore⟩
  unfold Shared.handleFrame at h
  by_cases hfirst : (!f.isSettings && !s.queues.peerSettings) = true
  · rw [if_pos hfirst] at h
    exact .inr (.inr (.inl (hsame _ h (by simp) (by simp))))
  rw [if_neg hfirst] at h
  cases f with
  | settings data streamData frameSize =>
    simp only at h
    split_ifs at h <;> cases h <;> exact .inr (.inr (.inl ⟨rfl, by simp, by simp⟩))
  | maxData maximum =>
    cases h
    exact .inr (.inr (.inl ⟨rfl, by simp, by simp⟩))
  | maxStreamData streamId maximum =>
    simp only at h
    split_ifs at h <;> cases h <;> exact .inr (.inr (.inl ⟨rfl, by simp, by simp⟩))
  | stream streamId fin payload =>
    simp only at h
    cases hr : s.onRemoteStreamFrame streamId.intoInner payload fin with
    | mk s₁ r₁ =>
      have hcases := s.onRemoteStreamFrame_holdings streamId.intoInner payload fin
      rw [hr] at h hcases
      rcases hcases with ⟨⟨error, rfl⟩ | ⟨rfl, -⟩, hh⟩ | ⟨rfl, -, hm, hh⟩
      · cases h
        exact .inr (.inr (.inl ⟨hh, by simp, by simp⟩))
      · cases h
        exact .inr (.inr (.inl ⟨hh, by simp, by simp⟩))
      · cases h
        exact .inr (.inr (.inr ⟨_, hm, rfl, hh⟩))
  | resetStream streamId errorCode =>
    simp only at h
    cases hr : s.onRemoteReset streamId.intoInner errorCode.intoInner with
    | mk s₁ r₁ =>
      have hcases := s.onRemoteReset_holdings streamId.intoInner errorCode.intoInner
      rw [hr] at h hcases
      rcases hcases with ⟨⟨error, rfl⟩, hh⟩ | ⟨rfl, hm, hh⟩
      · cases h
        exact .inr (.inr (.inl ⟨hh, by simp, by simp⟩))
      · cases h
        exact .inr (.inr (.inr ⟨_, hm, rfl, hh⟩))
  | openStream streamId =>
    simp only at h
    cases hr : s.onRemoteOpen streamId.intoInner with
    | mk s₁ r₁ =>
      rw [hr] at h
      refine .inl ⟨streamId, rfl, ?_, ?_⟩
      · rw [hr]
        cases r₁ <;> cases h <;> rfl
      · cases r₁ <;> cases h <;> simp
  | stopSending streamId =>
    simp only at h
    split_ifs at h
    · have hh := Shared.holdings_of_core (s.resetStream_core streamId.intoInner 0)
      cases hr : s.resetStream streamId.intoInner 0 with
      | mk s₁ r₁ =>
        rw [hr] at h hh
        cases r₁ <;> cases h <;> exact .inr (.inr (.inl ⟨hh, by simp, by simp⟩))
    · exact .inr (.inr (.inl (hsame _ h (by simp) (by simp))))
    · exact .inr (.inr (.inl (hsame _ h (by simp) (by simp))))
  | ping => exact .inr (.inr (.inl (hsame _ h (by simp) (by simp))))
  | connectionClose code reason =>
    cases h
    exact .inr (.inl ⟨code, reason, rfl, rfl, rfl⟩)

theorem acceptedEvents_eq (s : Shared) (f : Frame) :
    s.acceptedEvents f = [.accepted f] ∨ ∃ id, s.acceptedEvents f = [.accepted f, .resetOk id] := by
  unfold Shared.acceptedEvents
  split
  · split_ifs
    · exact .inr ⟨_, rfl⟩
    · exact .inl rfl
  · exact .inl rfl

/-- One item of the transport. -/
theorem ledger_receive {bytes : Bytes} {e' : Endpoint} {log : List Event} (hr : e.reading = true)
    (hitem : e.Receives bytes (e', log)) : (Ledger.idle l isClient).Steps e.ledger log e'.ledger := by
  simp only [reading, Bool.and_eq_true, Bool.not_eq_true', List.isEmpty_iff] at hr
  obtain ⟨hd, ht⟩ := hr
  have hstop : ∀ (e' : Endpoint) (ops : List TaskOp), ops = [] ∨ (∃ reason, ops = [.failClose reason]) →
      e'.todo = e.todo → (Ledger.idle l isClient).Steps e'.ledger [] (e'.stopReader ops).ledger :=
    fun e' ops hops he => .single (.stopReader e'.ledger ops hops ((congrFun he .reader).trans ht))
  have hlog : ∀ f, (Ledger.idle l isClient).Steps e.ledger (e.shared.acceptedEvents f) e.ledger := by
    intro f
    have hrec := Machine.Steps.single (M := Ledger.idle l isClient) (.received e.ledger f hd ht)
    rcases acceptedEvents_eq e.shared f with he | ⟨id, he⟩
    · rw [he]
      exact hrec
    · rw [he]
      exact hrec.trans (.single (.quiet _ [.resetOk id] (by simp [Event.Idle])))
  have hmove : ∀ f s r, e.shared.handleFrame f = (s, r) → (∀ id, r ≠ .ok (.more [.retire id])) →
      (Ledger.idle l isClient).Steps e.ledger [] { e with shared := s }.ledger ∧
        ∀ todo, r = .ok (.more todo) → todo = [] := by
    intro f s r hh hne
    rcases handleFrame_holdings _ _ _ _ hh with
      ⟨streamId, -, hs, htodo⟩ | ⟨code, reason, -, hs, rfl⟩ | ⟨hs, -, htodo⟩ | ⟨id, -, hr, -⟩
    · exact ⟨hs ▸ e.ledger_onRemoteOpen streamId, htodo⟩
    · exact ⟨hs ▸ e.ledger_markClosed, by simp⟩
    · exact ⟨e.ledger_same [] (by simp) hs, htodo⟩
    · exact absurd hr (hne id)
  have hrej : ∀ error, (Ledger.idle l isClient).Steps e.ledger [.rejected error] e.ledger :=
    fun error => e.ledger_same [.rejected error] (by simp [Event.Idle]) rfl
  cases hitem with
  | dropped log ops hl hops =>
    rcases hl with rfl | ⟨error, rfl⟩
    · exact hstop e ops hops rfl
    · exact (hrej error).trans (hstop e ops hops rfl)
  | refused f rest s error reason _ hh =>
    have hst := (hmove f s _ hh (by simp)).1
    exact (hrej error).trans (hst.trans (hstop _ _ (.inr ⟨_, rfl⟩) rfl))
  | stop f rest s _ hh =>
    have hst := (hmove f s _ hh (by simp)).1
    have hall := (hlog f).trans (hst.trans (hstop { e with shared := s } [] (.inl rfl) rfl))
    rwa [List.append_nil, List.append_nil] at hall
  | more f rest s todo _ hh =>
    by_cases hret : ∃ id, todo = [.retire id]
    · obtain ⟨id, rfl⟩ := hret
      rcases handleFrame_holdings _ _ _ _ hh with
        ⟨_, _, _, htodo⟩ | ⟨_, _, _, _, hr⟩ | ⟨_, _, htodo⟩ | ⟨j, hm, hr, hs⟩
      · cases htodo _ rfl
      · cases hr
      · cases htodo _ rfl
      · cases hr
        have hend := Machine.Steps.single (M := Ledger.idle l isClient) (.ended e.ledger f id hd ht hm)
        have hv : ({ e with shared := s }.setTodo .reader [.retire id]).ledger =
            { e.ledger with terminal := Function.update e.ledger.terminal id true }.setTodo .reader
              [.retire id] := by
          simp only [ledger, setTodo, Ledger.setTodo, hs]
        rw [hv]
        rcases acceptedEvents_eq e.shared f with he | ⟨j, he⟩
        · rw [he]
          exact hend
        · rw [he]
          exact hend.trans (.single (.quiet _ [.resetOk j] (by simp [Event.Idle])))
    · obtain ⟨hst, htodo⟩ := hmove f s _ hh fun id hr => hret ⟨id, by cases hr; rfl⟩
      have hall := (hlog f).trans hst
      rw [List.append_nil] at hall
      rw [htodo todo rfl, setTodo_same { e with shared := s } .reader ht]
      exact hall

/-- A task step, without the change of its list. -/
theorem ledger_op (op : TaskOp) :
    ∃ v, (Ledger.idle l isClient).Steps e.ledger [] v ∧ v.todo = e.todo ∧
      OpStep v op (e.shared.opEvents op) { e with shared := (e.shared.runOp op).1 }.ledger
        (e.shared.runOp op).2 := by
  have hskip : ∀ (op : TaskOp) (log : List Event), e.ledger.Skips op → (∀ a ∈ log, a.Idle) →
      ∃ v, (Ledger.idle l isClient).Steps e.ledger [] v ∧ v.todo = e.todo ∧ OpStep v op log e.ledger [] :=
    fun op log h hlog => ⟨_, .refl _, rfl, .skip _ op log h hlog⟩
  have hlife :
      ∀ id life, { e with shared := e.shared.setLife id life }.ledger = e.ledger.setLife id life.handles := by
    intro id life
    have h := e.shared.setLife_handles id life
    simp only [ledger, h]
    rfl
  cases op with
  | complete id =>
    simp only [Shared.runOp, Shared.opEvents]
    split_ifs with hm
    · have hop := OpStep.complete e.ledger id hm
      have hl := hlife id { e.shared.life id with sendComplete := true }
      exact ⟨e.ledger, .refl _, rfl, hl ▸ hop⟩
    · exact hskip (.complete id) [] hm (by simp)
  | retire id =>
    simp only [Shared.runOp, Shared.opEvents]
    by_cases hm : id ∈ e.shared.streams ∧ (e.shared.life id).sendComplete = true ∧
        (e.shared.inbox.recv id).recvTerminal = true
    · rw [if_pos hm]
      have hop := OpStep.retire e.ledger id hm.1 hm.2.1 hm.2.2
      have hl := hlife id { e.shared.life id with openPermit := false }
      have hp : (if (e.shared.life id).openPermit then e.shared.openStreams.release 1
          else e.shared.openStreams).permits = e.ledger.permits + (e.ledger.life id).openPermit.toNat := by
        change _ = e.shared.openStreams.permits + (e.shared.life id).openPermit.toNat
        cases (e.shared.life id).openPermit <;> rfl
      have hop' : OpStep e.ledger (.retire id) []
          { { e with shared := e.shared.setLife id { e.shared.life id with openPermit := false } }.ledger with
            permits := (if (e.shared.life id).openPermit then e.shared.openStreams.release 1
              else e.shared.openStreams).permits } [.remove id] := by
        rw [hl, hp]
        exact hop
      exact ⟨e.ledger, .refl _, rfl, hop'⟩
    · rw [if_neg hm]
      exact hskip (.retire id) [] hm (by simp)
  | remove id =>
    simp only [Shared.runOp, Shared.opEvents]
    split_ifs with hm
    · exact ⟨e.ledger, .refl _, rfl, OpStep.remove e.ledger id hm.2.2⟩
    · exact hskip (.remove id) [] trivial (by simp)
  | cleanSend id =>
    simp only [Shared.runOp, Shared.opEvents]
    by_cases hm : (e.shared.life id).sendDropped = true
    · rw [if_pos hm]
      let s₁ := e.shared.setLife id { e.shared.life id with sendDropped := false }
      have hl : { e with shared := s₁ }.ledger = _ := hlife id { e.shared.life id with sendDropped := false }
      have hh : (if (s₁.send id).sendTerminal then s₁ else (s₁.resetStream id 0).1).holdings = s₁.holdings := by
        split_ifs
        · rfl
        · exact Shared.holdings_of_core (s₁.resetStream_core id 0)
      have hv : { e with shared := if (s₁.send id).sendTerminal then s₁ else (s₁.resetStream id 0).1 }.ledger =
          { e with shared := s₁ }.ledger := by
        simp only [ledger, hh]
      refine ⟨e.ledger, .refl _, rfl, ?_⟩
      have hop := OpStep.cleanSend e.ledger id
        (if (e.shared.life id).sendDropped && !(e.shared.send id).sendTerminal then e.shared.resetEvents id 0 else [])
        hm ?_
      · exact (hv.trans hl) ▸ hop
      · split_ifs
        · exact e.shared.resetEvents_idle id 0
        · simp
    · rw [if_neg hm]
      refine hskip (.cleanSend id) _ trivial ?_
      simp [hm]
  | cleanRecv id =>
    simp only [Shared.runOp, Shared.opEvents]
    by_cases hm : (e.shared.life id).recvDropped = true
    · rw [if_pos hm]
      let s₁ := e.shared.setLife id { e.shared.life id with recvDropped := false }
      have hl : { e with shared := s₁ }.ledger = _ := hlife id { e.shared.life id with recvDropped := false }
      have hop := OpStep.cleanRecv e.ledger id hm
      have hh := s₁.discardInbound_holdings id
      have hterm : ((s₁.inbox.discardInbound id).recv id).recvTerminal = e.ledger.terminal id := by
        have ht := congrArg RecvDir.terminal (congrFun (s₁.inbox.discardInbound_dir id) id)
        rw [Function.update_self] at ht
        exact ht
      have hv : { e with shared := { s₁ with inbox := s₁.inbox.discardInbound id } }.ledger =
          { { e with shared := s₁ }.ledger with
            discarded := Function.update e.ledger.discarded id true } := by
        simp only [ledger, hh]
        rfl
      refine ⟨e.ledger, .refl _, rfl, ?_⟩
      rw [← hterm] at hop
      rw [hl] at hv
      exact hv ▸ hop
    · rw [if_neg hm]
      exact hskip (.cleanRecv id) [] (Bool.eq_false_of_not_eq_true hm) (by simp)
  | stopSending id =>
    have hh := Shared.holdings_of_core (e.shared.enqueueControl_core (.stopSending (.expect id)))
    simp only [Shared.runOp, Shared.opEvents]
    cases hq : e.shared.enqueueControl (.stopSending (.expect id)) with
    | mk s ok =>
      rw [hq] at hh
      have hv : { e with shared := s }.ledger = e.ledger := by
        simp only [ledger, hh]
      cases ok with
      | true =>
        refine ⟨e.ledger, .refl _, rfl, ?_⟩
        have hop := OpStep.stopQueued e.ledger id
        nth_rewrite 2 [← hv] at hop
        exact hop
      | false =>
        have hc : ∃ s', (Ledger.idle l isClient).Steps e.ledger [] { e with shared := s' }.ledger ∧
            s'.closed = true ∧ (if s.closed then s else s.markClosed) = s' := by
          split_ifs with hcl
          · exact ⟨s, e.ledger_same [] (by simp) hh, hcl, rfl⟩
          · have hm : (Ledger.idle l isClient).Steps _ [] _ := { e with shared := s }.ledger_markClosed
            rw [hv] at hm
            refine ⟨s.markClosed, hm, ?_, rfl⟩
            rcases s.markClosed_holdings with h | h
            · exact congrArg Holdings.closed h
            · exact congrArg Holdings.closed h
        obtain ⟨s', hst, hcl, he⟩ := hc
        refine ⟨_, hst, rfl, ?_⟩
        simp only [he]
        exact .stopFailed _ id hcl
  | failClose reason =>
    have hs : (Ledger.idle l isClient).Steps e.ledger [] _ :=
      e.ledger_close [] (by simp) (e.shared.initiateClose_holdings 1 reason)
    exact ⟨_, hs, rfl, .skip _ (.failClose reason) _ trivial (e.shared.closingEvents_idle 1 reason)⟩
  | markClosed =>
    refine ⟨_, e.ledger_markClosed, rfl, .markClosed _ ?_⟩
    rcases e.shared.markClosed_holdings with h | h
    · exact congrArg Holdings.closed h
    · exact congrArg Holdings.closed h

theorem ledger_read (mode id : Nat) (poll : Inbox → Inbox × Inbox.ReadOutcome)
    (hpoll : ∀ b, ∃ d : RecvDir, (poll b).1.dir = Function.update b.dir id d ∧
      d.terminal = (b.dir id).terminal ∧ d.discarded = (b.dir id).discarded) :
    (Ledger.idle l isClient).Steps e.ledger (e.read mode id poll).2 (e.read mode id poll).1.ledger := by
  unfold read
  cases Shared.selectMode (e.shared.life id).recvMode mode with
  | error error => exact .refl _
  | ok recvMode =>
    simp only
    let s := e.shared.setLife id { e.shared.life id with recvMode }
    obtain ⟨d, hd, ht, hdis⟩ := hpoll s.inbox
    have hs := s.setInbox_same (poll s.inbox).1 id d hd ht hdis
    exact e.ledger_same _ (Shared.readEvents_idle id _)
      (hs.trans (e.shared.setLife_holdings id { e.shared.life id with recvMode } rfl))

/-- The drop of a stream's state does not show in the ledger. -/
theorem free_ledger (id : Nat) : (e.free id).ledger = e.ledger := by
  have hs : ({ e.shared with inbox := e.remains id } : Shared).holdings = e.shared.holdings := by
    unfold remains
    split_ifs
    · exact e.shared.setInbox_same _ id _ (e.shared.inbox.clearChunks_dir id) rfl rfl
    · rfl
  simp only [ledger, free, hs]

theorem freeAfter_ledger (op : TaskOp) : (e.freeAfter op).ledger = e.ledger := by
  unfold freeAfter
  cases op.stream with
  | none => rfl
  | some id => exact e.free_ledger id

/-- Every step of an endpoint in which no task works is a run of its ledger of the same kind. -/
theorem ledger_idle (a : Act) (e' : Endpoint) (log : List Event) (ha : ∀ task, a ≠ .work task)
    (h : e.step a = some (e', log)) : (Ledger.idle l isClient).Steps e.ledger log e'.ledger := by
  have hnone : ∀ x ∈ ([] : List Event), x.Idle := by simp
  have hturn : ∀ order s turn, e.shared.nextFrame order = (s, turn) →
      (Ledger.idle l isClient).Steps e.ledger [] { e with shared := s }.ledger := by
    intro order s turn hn
    have hh := e.shared.nextFrame_holdings order
    rw [hn] at hh
    exact e.ledger_same [] hnone hh
  have hstop : ∀ f, e.hand = some f → (Ledger.idle l isClient).Steps e.ledger [] e.stopWriter.ledger :=
    fun f hf => .single (.stopWriter _ (.inl (by simp [ledger, hf])))
  have hsent : ∀ f, e.hand = some f → (Ledger.idle l isClient).Steps e.ledger [.sent f]
      ({ e with hand := none }.setTodo .writer f.terminalOps).ledger := fun f hf => .single (.sent e.ledger f hf)
  cases step_cases h with
  | openStart openStreams ho hc hacq =>
    obtain ⟨-, -, hp⟩ := Semaphore.tryAcquire_eq_some _ _ _ hacq
    exact .single (.openStart e.ledger openStreams.permits hp ho)
  | openFinish ho => exact e.ledger_openBi ho
  | openCancel ho => exact .single (.openFail e.ledger ho)
  | accept id incoming hc hin =>
    have hl := e.shared.setLife_handles id
      { e.shared.life id with
        sendHandles := (e.shared.life id).sendHandles + 1
        recvHandles := (e.shared.life id).recvHandles + 1 }
    have hstep : e.ledger.Idles []
        { e.ledger with
          toHoldings :=
            { (e.shared.setLife id
                { e.shared.life id with
                  sendHandles := (e.shared.life id).sendHandles + 1
                  recvHandles := (e.shared.life id).recvHandles + 1 }).holdings with
              incoming := incoming } } := by
      rw [hl]
      exact .accept e.ledger id incoming hin
    exact .single hstep
  | write mode id payload fin sendMode r hh hm hw =>
    have hs := Shared.holdings_of_core (Shared.startWrite_core _ id payload fin r hw)
    exact e.ledger_same [] hnone (hs.trans (e.shared.setLife_holdings id { e.shared.life id with sendMode } rfl))
  | acquire id s hw => exact e.ledger_same [] hnone (Shared.holdings_of_core (e.shared.acquireWrite_core id s hw))
  | enqueue id s w hw =>
    exact e.ledger_same _ (by simp [Event.Idle]) (Shared.holdings_of_core (e.shared.enqueueWrite_core id _ hw))
  | enqueueFailed id s error hw =>
    exact e.ledger_same _ hnone (Shared.holdings_of_core (e.shared.enqueueWrite_core id _ hw))
  | finish id s hw => exact e.ledger_same [] hnone (Shared.holdings_of_core (e.shared.finishWrite_core id s hw))
  | cancel id => exact e.ledger_same [] hnone (Shared.holdings_of_core (e.shared.cancelWrite_core id))
  | reset id errorCode =>
    exact e.ledger_same _ (e.shared.resetEvents_idle id errorCode)
      (Shared.holdings_of_core (e.shared.resetStream_core id errorCode))
  | readChunk id =>
    refine e.ledger_read 1 id _ fun b => ?_
    obtain ⟨d, hd, ht, hdis, -⟩ := b.readWhole_reads id
    exact ⟨d, hd, ht, hdis⟩
  | pollRead id room =>
    refine e.ledger_read 2 id _ fun b => ?_
    obtain ⟨d, hd, hr⟩ := b.pollRead_reads id room
    exact ⟨d, hd, hr.terminal, hr.discarded⟩
  | dropSend id hh =>
    have hl := (e.shared.cancelWrite id).setLife_handles id
      { e.shared.life id with
        sendHandles := (e.shared.life id).sendHandles - 1
        sendDropped := (e.shared.life id).sendDropped || (e.shared.life id).sendHandles == 1 }
    rw [Shared.holdings_of_core (e.shared.cancelWrite_core id)] at hl
    have hstep := Ledger.Idles.dropSend e.ledger id hh
    refine .single ?_
    rw [free_ledger]
    simp only [ledger, hl]
    exact hstep
  | dropRecv id hh =>
    have hsame := e.shared.setInbox_same (e.shared.inbox.dropRemainder id) id _
      (e.shared.inbox.dropRemainder_dir id) rfl rfl
    have hl := ({ e.shared with inbox := e.shared.inbox.dropRemainder id } : Shared).setLife_handles id
      { e.shared.life id with
        recvHandles := (e.shared.life id).recvHandles - 1
        recvDropped := (e.shared.life id).recvDropped || (e.shared.life id).recvHandles == 1 }
    rw [hsame] at hl
    have hstep := Ledger.Idles.dropRecv e.ledger id hh
    refine .single ?_
    rw [free_ledger]
    simp only [ledger, hl]
    exact hstep
  | close reason s hc =>
    have hi := e.shared.initiateClose_holdings 0 reason
    rw [Shared.initiateClose_of_close hc] at hi
    exact e.ledger_close _ (e.shared.closingEvents_idle 0 reason) hi
  | lastHandleDropped =>
    exact e.ledger_close _ (e.shared.closingEvents_idle 0 _) (e.shared.initiateClose_holdings 0 _)
  | abort => exact e.ledger_close [] hnone (.inr rfl)
  | keepalive s hc hp =>
    have hh := Shared.holdings_of_core (e.shared.enqueueControl_core .ping)
    rw [hp] at hh
    exact e.ledger_same [] hnone hh
  | keepaliveRefused s hc hp =>
    obtain rfl := Shared.enqueueControl_refused hp
    simp only [hc]
    exact e.ledger_markClosed
  | drainExpired => exact e.ledger_markClosed
  | cleanup order ht hi hp => exact .single (.cleanup e.ledger order hi)
  | frame order s f hw hp hn =>
    obtain ⟨hd, hh, htodo⟩ := ofWriting hw
    exact (hturn order s _ hn).trans (.single (.emit _ f hd hh htodo))
  | frameEnd order s turn hw hp hn =>
    exact (hturn order s _ hn).trans (.single (.stopWriter _ (.inr (ofWriting hw).2.2)))
  | frameWait order s turn hw hp hn => exact hturn order s _ hn
  | sent f bytes ht hf => exact hsent f hf
  | sentClose code reason bytes ht hf =>
    have hall := (hsent _ hf).trans
      (.single (.stopWriter _ (.inr (by simp [ledger, setTodo, Frame.terminalOps]))))
    simp only [ledger, setTodo, Ledger.setTodo, Function.update_idem] at hall
    exact hall
  | unsent f ht hf => exact hstop f hf
  | writerBreak f hf => exact hstop f hf
  | receive bytes e' log hr ht hitem => exact e.ledger_receive hr hitem
  | readerBreak hr => exact .single (.stopReader _ [] (.inl rfl) (ofReading hr).2)
  | idleTimeout hr => exact .single (.stopReader _ _ (.inr ⟨_, rfl⟩) (ofReading hr).2)
  | work task => exact absurd rfl (ha task)
  | _ => exact .refl _

/-- A step of a task: the ledger rests, and then the task does the first of its steps. -/
theorem ledger_work (task : Task) (e' : Endpoint) (log : List Event) (h : e.step (.work task) = some (e', log)) :
    ∃ op ops v v' more, e.todo task = op :: ops ∧
      (Ledger.idle l isClient).Steps e.ledger [] v ∧ v.todo = e.todo ∧
      OpStep v op log v' more ∧ e'.ledger = v'.setTodo task (more ++ ops) := by
  cases step_cases h with
  | work task op ops ht =>
    obtain ⟨v, hs, htodo, hop⟩ := Endpoint.ledger_op (l := l) e op
    refine ⟨op, ops, v, _, _, ht, hs, htodo, hop, ?_⟩
    rw [freeAfter_ledger]
    rfl

/-- Every step of an endpoint is a run of its ledger. -/
theorem ledger_step (a : Act) (e' : Endpoint) (log : List Event) (h : e.step a = some (e', log)) :
    (Ledger.machine l isClient).Steps e.ledger log e'.ledger := by
  by_cases ha : ∃ task, a = .work task
  · obtain ⟨task, rfl⟩ := ha
    obtain ⟨op, ops, v, v', more, ht, hs, htodo, hop, he⟩ := @ledger_work l isClient e task e' log h
    rw [he]
    exact (hs.mono fun _ _ _ => Ledger.Idles.step).trans (.single (.work v v' task op ops more log (htodo ▸ ht) hop))
  · have hs : (Ledger.idle l isClient).Steps e.ledger log e'.ledger :=
      e.ledger_idle a e' log (fun task hw => ha ⟨task, hw⟩) h
    exact hs.mono fun _ _ _ => Ledger.Idles.step

/-- The ledger of an endpoint follows its runs. -/
theorem reach_ledger {e : Endpoint} {log : List Event} (h : (machine l isClient).Reach e log) :
    (Ledger.machine l isClient).Reach e.ledger log := by
  refine h.refine ledger ?_ ?_
  · intro e he
    rw [(connect_ok he).2]
    rfl
  · rintro s tr evs s' - - ⟨a, ha⟩
    exact s.ledger_step a s' evs ha

end Endpoint
end Muxtls
