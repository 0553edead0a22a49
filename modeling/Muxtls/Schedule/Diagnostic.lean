import Muxtls.Schedule.First
import Muxtls.Schedule.Flags
import Muxtls.Sender.Fit
import Muxtls.Receiver.Budget
import Muxtls.Pair.Channel

namespace Muxtls

/-- The frame is the CONNECTION_CLOSE with code one of the published reason, which the peer's frame
limit may have cut. -/
def Frame.Reports (fitted : String) (f : Frame) : Prop :=
  ∃ code reason, f = .connectionClose code reason ∧ code.intoInner = 1 ∧ asBytes reason <+: asBytes fitted

namespace Sender

/-- Whatever was emitted fits the endpoint's own frame limit. -/
theorem reach_fits {l : Limits} {isClient : Bool} {v : Sender} {log : List Event}
    (hl : minFrameSize ≤ l.maxFrameSize) (h : (machine l isClient).Reach v log) :
    ∀ f ∈ emitted log, f.Fits l.maxFrameSize := by
  refine h.invariant (fun _ log => ∀ f ∈ emitted log, f.Fits l.maxFrameSize) ?_ ?_
  · intro v _ f hf
    cases hf
  · intro v tr evs v' hr ih hs f hf
    rw [emitted_append] at hf
    rcases List.mem_append.mp hf with hf | hf
    · exact ih f hf
    · exact (emitted_fits (reach_wf hr) hl hs hf).1

end Sender

namespace Ledger

variable {l : Limits} {isClient : Bool} {v v' : Ledger} {log evs : List Event}

/-- Only a reader that has left its loop has an error close to publish. -/
def Failing (v : Ledger) : Prop := ∀ task reason, .failClose reason ∈ v.todo task → v.readerDone = true

/-- One task gets a new list that names no error close of its own. -/
theorem Failing.setTodo (h : v.Failing) (task : Task) (ops : List TaskOp)
    (hops : ∀ reason, .failClose reason ∈ ops → .failClose reason ∈ v.todo task) :
    (v.setTodo task ops).Failing := by
  intro t reason hm
  by_cases ht : t = task
  · subst ht
    simp only [Ledger.setTodo, Function.update_self] at hm
    exact h t reason (hops reason hm)
  · simp only [Ledger.setTodo, Function.update_of_ne ht] at hm
    exact h t reason hm

theorem failing_step (h : v.Failing) (hs : LedgerStep v evs v') : v'.Failing := by
  cases hs with
  | sent f hh =>
    refine Failing.setTodo (v := { v with hand := none }) h .writer _ ?_
    intro reason hm
    cases f with
    | stream streamId fin payload => cases fin <;> simp [Frame.terminalOps] at hm
    | resetStream => simp [Frame.terminalOps] at hm
    | _ => cases hm
  | stopWriter =>
    refine Failing.setTodo (v := { v with writerDone := true, hand := none }) h .writer _ ?_
    intro reason hm
    simp at hm
  | cleanup order ht =>
    refine h.setTodo .cleanup _ ?_
    intro reason hm
    simp at hm
  | ended f id hd ht hid =>
    refine Failing.setTodo (v := { v with terminal := Function.update v.terminal id true }) h .reader _ ?_
    intro reason hm
    simp at hm
  | stopReader => exact fun _ _ _ => rfl
  | work v₁ task op ops more _ ht hop =>
    have hf := opFrame hop
    have hold : v₁.Failing := by
      intro t reason hm
      rw [hf.todo] at hm
      exact hf.readerDone.trans (h t reason hm)
    refine hold.setTodo task _ ?_
    intro reason hm
    rw [hf.todo, ht]
    rcases List.mem_append.mp hm with hm | hm
    · cases hop with
      | cleanRecv id hd => split_ifs at hm <;> simp at hm
      | _ => simp at hm
    · exact List.mem_cons_of_mem _ hm
  | _ => exact h

theorem reach_failing (h : (machine l isClient).Reach v log) : v.Failing := by
  refine h.invariant (fun v _ => v.Failing) ?_ fun _ _ _ _ _ hf hs => failing_step hf hs
  intro v (hi : v = _) task reason hm
  subst hi
  cases hm

end Ledger

namespace Endpoint

variable {l : Limits} {isClient : Bool} {e e' : Endpoint} {log evs : List Event}

/-- Only the writer's own steps change the frame in its hand. -/
theorem hand_of_step (a : Act) (h : e.step a = some (e', evs)) (hn : ∀ order, a ≠ .nextFrame order)
    (hs : a ≠ .send) (hb : a ≠ .writerBreak) : e'.hand = e.hand := by
  have hread : ∀ mode id poll, (e.read mode id poll).1.hand = e.hand := by
    intro mode id poll
    unfold read
    split <;> rfl
  cases step_cases h with
  | frame order | frameEnd order | frameWait order => exact absurd rfl (hn order)
  | sent => exact absurd rfl hs
  | sentClose => exact absurd rfl hs
  | unsent => exact absurd rfl hs
  | writerBreak => exact absurd rfl hb
  | readChunk id => exact hread 1 id _
  | pollRead id room => exact hread 2 id _
  | receive bytes e' evs hr ht hitem => cases hitem <;> rfl
  | _ => rfl

/-- What the writer task has yet to do since the reader published an error close: the `next_frame` call
after it, and the `send` of that call's frame. -/
inductive Owed where
  | nothing
  | frame
  | send
deriving DecidableEq

/-- The published close still waits: to be taken by the `next_frame` call that is owed, or in the writer's
hand with its `send` owed. -/
structure Holds (e : Endpoint) (owed : Owed) (fitted : String) : Prop where
  reader : e.readerDone = true
  closed : e.shared.closed = true
  alive : e.shared.terminated = false
  waits : owed = .send ∧ (∃ f, e.hand = some f ∧ f.Reports fitted) ∨
    owed = .frame ∧ e.shared.sender.cut = true ∧
    ∃ code, code.intoInner = 1 ∧ e.shared.queues.closeFrame = some (.connectionClose code fitted)

/-- The published close was handed to the transport. -/
def Delivered (fitted : String) (log : List Event) : Prop := ∃ f, f.Reports fitted ∧ .sent f ∈ log

section
variable {owed : Owed} {fitted : String}

/-- The close is published: by the reader, which is done. -/
theorem holds_of_closing (hf : e.ledger.Failing) (he : e.shared.Ended) (a : Act) (h : e.step a = some (e', evs))
    {reason : String} (hm : .closing 1 reason fitted ∈ evs) :
    e'.Holds .frame fitted ∧ e.shared.closed = false ∧
      ∃ task ops, a = .work task ∧ e.todo task = .failClose reason :: ops := by
  obtain ⟨hclosed, -, ⟨hcode, -⟩ | ⟨-, task, ops, rfl, ht⟩⟩ := step_logs a h _ hm
  · cases hcode
  have hdone : e.readerDone = true := hf task reason (by
    change TaskOp.failClose reason ∈ e.todo task
    rw [ht]
    exact List.mem_cons_self)
  have halive : e.shared.terminated = false := by
    by_contra hterm
    rw [he.1 (Bool.eq_true_of_not_eq_false hterm)] at hclosed
    cases hclosed
  have hp := published_of_step _ h hm
  obtain ⟨code, hcode, hq⟩ := hp.queues
  cases step_cases h with
  | work _ op ops' ht' =>
    refine ⟨⟨hdone, hp.closed, hp.terminated.trans halive, .inr ⟨rfl, ?_, code, hcode, ?_⟩⟩,
      hclosed, task, ops, rfl, ht⟩
    · unfold Sender.cut Shared.sender
      rw [hq]
      rfl
    · rw [hq]
      rfl

/-- The writer's turn takes the waiting close. -/
theorem Holds.nextFrame (hv : e.shared.sender.WF l) (hh : e.Holds owed fitted) (order : List Nat)
    (h : e.step (.nextFrame order) = some (e', evs)) : owed = .frame ∧ e'.Holds .send fitted := by
  have hbusy : ∀ f, e.writing = true → e.hand ≠ some f := by
    intro f hw hf
    simp [writing, hf] at hw
  have hturn : e.shared.sender.cut = true → e.shared.nextFrame order = e.shared.closeTurn := fun hcut => if_pos hcut
  -- the turn is the one that takes the close frame, and it takes the one that waits
  have htake : ∀ s turn, e.writing = true → e.shared.nextFrame order = (s, turn) →
      owed = .frame ∧ s.closed = true ∧ s.terminated = false ∧ ∃ f, turn = .frame f ∧ f.Reports fitted := by
    intro s turn hw hn
    rcases hh.waits with ⟨-, f, hf, -⟩ | ⟨rfl, hcut, code, hcode, hframe⟩
    · exact absurd hf (hbusy f hw)
    rw [hturn hcut, Shared.closeTurn] at hn
    cases hx : e.shared.queues.takeCloseFrame with
    | mk q r =>
      cases r with
      | none =>
        unfold WriterQueues.takeCloseFrame at hx
        rw [hframe] at hx
        cases hx
      | some f =>
        obtain ⟨-, -, code', fitted', reason, hc, rfl, hle⟩ :=
          Sender.takeCloseFrame_fits hv (f := f) (by rw [show e.shared.sender.queues = e.shared.queues from rfl, hx])
        have hc' : some (Frame.connectionClose code fitted) = some (.connectionClose code' fitted') :=
          hframe.symm.trans hc
        cases hc'
        rw [hx] at hn
        cases hn
        exact ⟨rfl, hh.closed, hh.alive, _, rfl, code, reason, rfl, hcode, hle⟩
  cases step_cases h with
  | frame order s f hw hp hn =>
    obtain ⟨howed, hclosed, halive, g, hg, hrep⟩ := htake s _ hw hn
    cases hg
    exact ⟨howed, hh.reader, hclosed, halive, .inl ⟨rfl, f, rfl, hrep⟩⟩
  | frameEnd order s turn hw hp hn ht =>
    obtain ⟨-, -, -, g, rfl, -⟩ := htake s _ hw hn
    rcases ht with ht | ⟨message, ht⟩ <;> cases ht
  | frameWait order s turn hw hp hn ht =>
    obtain ⟨-, -, -, g, rfl, -⟩ := htake s _ hw hn
    rcases ht with ht | ht <;> cases ht

/-- The writer sends what it has in hand: the waiting close, or a frame before it. -/
theorem Holds.send (hh : e.Holds owed fitted) (hl : e.shared.limits = l)
    (hfit : ∀ f, e.hand = some f → f.Fits l.maxFrameSize) (h : e.step .send = some (e', evs)) :
    Delivered fitted evs ∨ owed = .frame ∧ e'.Holds .frame fitted := by
  rcases hh.waits with ⟨-, g, hg, hrep⟩ | ⟨rfl, hcut, hframe⟩
  · left
    have hsent : ∀ f, e.hand = some f → f = g := fun f hf => Option.some.inj (hf.symm.trans hg)
    cases step_cases h with
    | sent f bytes ht hf => exact ⟨f, hsent f hf ▸ hrep, List.mem_cons_self⟩
    | sentClose code reason bytes ht hf => exact ⟨_, hsent _ hf ▸ hrep, List.mem_cons_self⟩
    | unsent f ht hf hb =>
      obtain ⟨bytes, henc, hle⟩ := (hfit f hf).encode
      exact absurd (hb bytes henc) (Nat.not_lt.mpr (hl ▸ hle))
  · right
    cases step_cases h <;> exact ⟨rfl, hh.reader, hh.closed, hh.alive, .inr ⟨rfl, hcut, hframe⟩⟩

/-- A step that is none of the writer's and does not end the connection leaves the close waiting. -/
theorem Holds.other (hh : e.Holds owed fitted) (a : Act) (h : e.step a = some (e', evs))
    (hn : ∀ order, a ≠ .nextFrame order) (hs : a ≠ .send) (hb : a ≠ .writerBreak) (hends : ¬ e.Ends a) :
    e'.Holds owed fitted := by
  have hpass := (passive_of_step a h hn).2 hends
  have hfate := hpass.fate hh.closed
  have hhand := hand_of_step a h hn hs hb
  have hcut : e'.shared.sender.cut = e.shared.sender.cut := by
    unfold Sender.cut
    rw [show e'.shared.sender.queues.closing = e.shared.sender.queues.closing from congrArg (·.2.2.2.2.1) hfate,
      show e'.shared.sender.queues.gracefulClose = e.shared.sender.queues.gracefulClose from
        congrArg (·.2.2.2.1) hfate]
  exact
    { reader := by
        by_contra hd
        have hrun := readerDone_of_step a h (Bool.eq_false_of_not_eq_true hd)
        rw [hh.reader] at hrun
        cases hrun
      closed := (congrArg (·.1) hfate).trans hh.closed
      alive := (congrArg (·.2.1) hfate).trans hh.alive
      waits := by
        rw [hhand, hcut, show e'.shared.queues.closeFrame = e.shared.queues.closeFrame from congrArg (·.2.2.1) hfate]
        exact hh.waits }

/-- Some call of the writer is owed while the close waits. -/
theorem Holds.owes (hh : e.Holds owed fitted) : owed ≠ .nothing := by
  rcases hh.waits with ⟨rfl, -⟩ | ⟨rfl, -⟩ <;> exact nofun

end

/-- An endpoint with what its writer task owes. -/
structure Paced where
  ep : Endpoint
  owed : Owed := .nothing

namespace Paced

variable {p p' : Paced} {fitted : String}

/-- `initiate_close` on an open connection makes the writer owe both calls. -/
def next (p : Paced) : Act → Owed
  | .work task =>
    match p.ep.todo task with
    | .failClose _ :: _ => if p.ep.shared.closed then p.owed else .frame
    | _ => p.owed
  | .nextFrame _ => if p.owed = .frame then .send else p.owed
  | .send => if p.owed = .send then .nothing else p.owed
  | _ => p.owed

def step (p : Paced) (a : Act) : Option (Paced × List Event) :=
  (p.ep.step a).map fun r => (⟨r.1, p.next a⟩, r.2)

/-- The schedules in which the writer gets its turn: no task runs `mark_closed` while the writer owes a call.
There is no abort, no expired drain deadline and no failed transport write. -/
def inTurn (p : Paced) : Act → Bool
  | .abort => false
  | .drainExpired => false
  | .writerBreak => false
  | .work task =>
    match p.ep.todo task with
    | .markClosed :: _ => p.owed == .nothing
    | _ => true
  | _ => true

/-- The runs on such schedules. -/
def machine (limits : Limits) (isClient : Bool) : Machine Paced Event :=
  .ofStep (fun p => connect limits isClient = .ok p.ep ∧ p.owed = .nothing) (Machine.guardStep inTurn step)

theorem step_eq_some {a : Act} (h : p.step a = some (p', evs)) :
    p.ep.step a = some (p'.ep, evs) ∧ p'.owed = p.next a := by
  obtain ⟨⟨e, log⟩, hs, heq⟩ := Option.map_eq_some_iff.mp h
  cases heq
  exact ⟨hs, rfl⟩

theorem reach_endpoint (h : (machine l isClient).Reach p log) : (Endpoint.machine l isClient).Reach p.ep log := by
  refine h.refine Paced.ep ?_ ?_
  · intro p hp
    exact hp.1
  · rintro p tr evs p' - - ⟨a, ha⟩
    exact .single ⟨a, (step_eq_some (Machine.guardStep_eq_some.mp ha).2).1⟩

/-- On a closed connection a step that is none of the writer's leaves what the writer owes. -/
theorem next_eq (a : Act) (hc : p.ep.shared.closed = true) (hn : ∀ order, a ≠ .nextFrame order) (hs : a ≠ .send) :
    p.next a = p.owed := by
  cases a with
  | nextFrame order => exact absurd rfl (hn order)
  | send => exact absurd rfl hs
  | work task =>
    simp only [next, hc, if_true]
    split <;> rfl
  | _ => rfl

/-- In turn, nothing ends the connection while a call of the writer is owed. -/
theorem not_ends (a : Act) (hok : p.inTurn a = true) (hdone : p.ep.readerDone = true) (howed : p.owed ≠ .nothing)
    (h : p.ep.step a = some (e', evs)) : ¬ p.ep.Ends a := by
  cases a with
  | abort => cases hok
  | drainExpired => cases hok
  | receive bytes =>
    cases step_cases h with
    | receive _ _ _ hread => simp [reading, hdone] at hread
  | work task =>
    rintro ⟨ops, ht⟩
    simp only [inTurn, ht, beq_iff_eq] at hok
    exact howed hok
  | _ => exact fun h => h

/-- Each step in turn hands the waiting close to the transport or leaves it waiting. -/
theorem holds_step (hr : (Endpoint.machine l isClient).Reach p.ep log) (hh : p.ep.Holds p.owed fitted)
    (hfit : ∀ f, p.ep.hand = some f → f.Fits l.maxFrameSize) (a : Act) (hok : p.inTurn a = true)
    (h : p.step a = some (p', evs)) : Delivered fitted evs ∨ p'.ep.Holds p'.owed fitted := by
  obtain ⟨h, howed⟩ := step_eq_some h
  rw [howed]
  by_cases hn : ∃ order, a = .nextFrame order
  · obtain ⟨order, rfl⟩ := hn
    obtain ⟨hframe, hh⟩ := hh.nextFrame (Sender.reach_wf (reach_sender hr)) order h
    right
    simpa [next, hframe] using hh
  by_cases hs : a = .send
  · subst hs
    rcases hh.send (Ledger.reach_limits (reach_ledger hr)) hfit h with hd | ⟨hframe, hh⟩
    · exact .inl hd
    · right
      simpa [next, hframe] using hh
  have hn : ∀ order, a ≠ .nextFrame order := fun order ho => hn ⟨order, ho⟩
  have hb : a ≠ .writerBreak := by
    rintro rfl
    cases hok
  right
  rw [next_eq a hh.closed hn hs]
  exact hh.other a h hn hs hb (not_ends a hok hh.reader hh.owes h)

/-- A published close was handed to the transport or waits for a call the writer owes. -/
theorem reach_holds (h : (machine l isClient).Reach p log) {reason : String} (hpub : .closing 1 reason fitted ∈ log) :
    Delivered fitted log ∨ p.ep.Holds p.owed fitted := by
  refine h.invariant (fun p log => .closing 1 reason fitted ∈ log →
    Delivered fitted log ∨ p.ep.Holds p.owed fitted) ?_ ?_ hpub
  · intro p _ hm
    cases hm
  · rintro p tr evs p' hr ih ⟨a, ha⟩ hm
    obtain ⟨hok, ha⟩ := Machine.guardStep_eq_some.mp ha
    have hr := reach_endpoint hr
    rcases List.mem_append.mp hm with hm | hm
    · rcases ih hm with ⟨f, hrep, hsent⟩ | hh
      · exact .inl ⟨f, hrep, List.mem_append_left _ hsent⟩
      · have hfit : ∀ f, p.ep.hand = some f → f.Fits l.maxFrameSize := by
          intro f hf
          have hle := (Ledger.reach_written (reach_ledger hr)).sent_le
          rw [show p.ep.ledger.hand = some f from hf] at hle
          have hmem : f ∈ emitted tr := hle.subset (List.mem_append_right _ List.mem_cons_self)
          exact Sender.reach_fits (reach_valid hr).frame.1 (reach_sender hr) f hmem
        rcases holds_step hr hh hfit a hok ha with ⟨f, hrep, hsent⟩ | hh
        · exact .inl ⟨f, hrep, List.mem_append_right _ hsent⟩
        · exact .inr hh
    · obtain ⟨ha, howed⟩ := step_eq_some ha
      obtain ⟨hh, hopen, task, ops, rfl, ht⟩ :=
        holds_of_closing (Ledger.reach_failing (reach_ledger hr)) (reach_ended hr) a ha hm
      right
      rw [howed]
      simpa [next, ht, hopen] using hh

end Paced

/-- In every run in which, once the reader has published an error close, the writer completes a `next_frame`
call and its `send` before a task runs `mark_closed`, a connection that terminates has handed the close to
the transport. -/
theorem diagnostic_close_delivered (l : Limits) (isClient : Bool) (p : Paced) (log : List Event)
    (h : (Paced.machine l isClient).Reach p log) (reason fitted : String)
    (hpub : .closing 1 reason fitted ∈ log) (hterm : p.ep.shared.terminated = true) : Delivered fitted log := by
  rcases Paced.reach_holds h hpub with hd | hh
  · exact hd
  · rw [hh.alive] at hterm
    cases hterm

/-- The reason the reader gives when the peer's bytes start with an unknown frame type. -/
def unknownType : String := "protocol/runtime error: wire protocol error: unknown frame type: 0xff"

/-- The writer has taken SETTINGS when the peer's first bytes turn out to be no frame. It sends SETTINGS, and
then the close before the reader goes on. -/
theorem diagnostic_close_delivered_first :
    ∃ p log, (Paced.machine smallLimits true).Reach p log ∧ .closing 1 unknownType unknownType ∈ log ∧
      p.ep.shared.terminated = true ∧ Delivered unknownType log := by
  have hrun : (Machine.runList (Machine.guardStep Paced.inTurn Paced.step)
      ⟨{ shared := .new smallLimits true }, .nothing⟩
      [.nextFrame [], .receive [255], .work .reader, .send, .nextFrame [], .send, .work .reader]).map (fun r =>
        (r.1.ep.shared.terminated, decide (.closing 1 unknownType unknownType ∈ r.2))) = some (true, true) := by
    decide
  obtain ⟨p, log, hr, heq⟩ := Machine.runList_reach
    (fun p : Paced => connect smallLimits true = .ok p.ep ∧ p.owed = .nothing) ⟨rfl, rfl⟩ _ _ hrun
  simp only [Prod.mk.injEq, decide_eq_true_eq] at heq
  obtain ⟨hterm, hpub⟩ := heq
  exact ⟨p, log, hr, hpub, hterm,
    diagnostic_close_delivered smallLimits true p log hr unknownType unknownType hpub hterm⟩

/-- The reader publishes the close and runs `mark_closed` before the writer's turn: the frame is thrown
away, and nothing was sent. -/
theorem diagnostic_close_lost :
    ∃ e log, (machine smallLimits true).Reach e log ∧ .closing 1 unknownType unknownType ∈ log ∧
      e.shared.terminated = true ∧ e.shared.queues.closeFrame = none ∧ sentFrames log = [] := by
  have hrun : (Machine.runList step { shared := .new smallLimits true }
      [.receive [255], .work .reader, .work .reader]).map
        (fun r => (r.1.shared.terminated, decide (.closing 1 unknownType unknownType ∈ r.2),
          r.1.shared.queues.closeFrame, sentFrames r.2)) = some (true, true, none, []) := by
    decide
  have h0 : connect smallLimits true = .ok { shared := .new smallLimits true } := rfl
  obtain ⟨e, log, hr, heq⟩ := Machine.runList_reach (connect smallLimits true = .ok ·) h0 _ _ hrun
  simp only [Prod.mk.injEq, decide_eq_true_eq] at heq
  obtain ⟨hterm, hpub, hframe, hsent⟩ := heq
  exact ⟨e, log, hr, hpub, hterm, hframe, hsent⟩

end Endpoint
end Muxtls
