import Muxtls.Schedule.Represent

namespace Muxtls

/-- The stream of a STREAM frame. -/
def Frame.streamOf : Frame → Option Nat
  | .stream streamId _ _ => some streamId.intoInner
  | _ => none

namespace Shared

/-- A ready stream is eligible when the peer's SETTINGS have arrived and its head payload is empty or
has both credits. -/
def isEligible (s : Shared) (id : Nat) : Bool :=
  decide (id ∈ s.queues.ready) && s.queues.peerSettings &&
    match s.queues.chunksOf id with
    | [] => false
    | chunk :: _ =>
      chunk.payload.isEmpty || decide (0 < s.queues.streamCredit (s.send id)) && decide (0 < s.queues.connCredit)

/-- The peer's frame limit leaves room for a byte behind every header. -/
theorem takeCount_eq_zero (s : Shared) (hq : s.queues.WF) (st : SendState) (chunk : OutboundChunk) :
    s.queues.takeCount st chunk = 0 ↔
      chunk.payload = [] ∨ s.queues.streamCredit st = 0 ∨ s.queues.connCredit = 0 := by
  have h8 := chunk.streamId.encodedLen_le
  have hhead := (VarInt.expect (s.queues.peerMaxFrame - 2 - chunk.streamId.encodedLen)).encodedLen_le
  have hmin := hq.frame_min
  unfold minFrameSize at hmin
  rw [← List.length_eq_zero_iff]
  unfold WriterQueues.takeCount
  simp only
  omega

theorem isEligible_iff (s : Shared) (hq : s.queues.WF) (id : Nat) :
    s.isEligible id = true ↔ id ∈ s.queues.ready ∧ ¬ s.Blocked id := by
  unfold isEligible Blocked
  have hready := hq.ready_iff id
  cases hc : s.queues.chunksOf id with
  | nil => simp [hready, hc]
  | cons chunk chunks =>
    have hz := s.takeCount_eq_zero hq (s.send id) chunk
    cases hp : s.queues.peerSettings with
    | false => simp [WriterQueues.eligible, hp]
    | true =>
      have hel : s.queues.eligible (s.send id) chunk = false ↔
          chunk.payload ≠ [] ∧ (s.queues.streamCredit (s.send id) = 0 ∨ s.queues.connCredit = 0) := by
        unfold WriterQueues.eligible
        rw [hp]
        simp only [Bool.true_and, Bool.not_eq_false', Bool.and_eq_true, beq_iff_eq, hz, Bool.not_eq_true',
          List.isEmpty_eq_false_iff, ne_eq]
        exact ⟨fun h => ⟨h.2, h.1.resolve_left h.2⟩, fun h => ⟨.inr h.2, h.1⟩⟩
      simp only [Bool.and_true, Bool.and_eq_true, decide_eq_true_eq, Bool.or_eq_true, List.isEmpty_iff,
        List.head?_cons, Option.mem_def, Option.some.injEq, forall_eq', hel, Nat.pos_iff_ne_zero, ne_eq, not_and,
        not_or]
      refine and_congr_right fun _ => ?_
      by_cases hpay : chunk.payload = [] <;> simp [hpay]

/-- A data turn serves a stream that stands before every other eligible one. -/
theorem served_first (s : Shared) {id j : Nat} {before later : List Nat}
    (hready : s.queues.ready = before ++ id :: later) (hskip : ∀ j ∈ before, s.Blocked j)
    (hj : j ∈ s.queues.ready) (hn : ¬ s.Blocked j) : j = id ∨ j ∈ later := by
  rw [hready] at hj
  rcases List.mem_append.mp hj with hb | hb
  · exact absurd (hskip j hb) hn
  · exact List.mem_cons.mp hb

end Shared

/-- `b` is in the list, and `a` does not stand before it. -/
def Ahead (ready : List Nat) (b a : Nat) : Prop := ∃ before later, ready = before ++ b :: later ∧ a ∉ before

namespace Ahead

variable {ready : List Nat} {a b id : Nat}

theorem of_not_mem (hb : b ∈ ready) (ha : a ∉ ready) : Ahead ready b a := by
  obtain ⟨before, later, rfl⟩ := List.append_of_mem hb
  exact ⟨before, later, rfl, fun hm => ha (List.mem_append_left _ hm)⟩

theorem append (h : Ahead ready b a) (more : List Nat) : Ahead (ready ++ more) b a := by
  obtain ⟨before, later, rfl, ha⟩ := h
  exact ⟨before, later ++ more, by simp, ha⟩

theorem filter (h : Ahead ready b a) (hid : id ≠ b) : Ahead (ready.filter (· ≠ id)) b a := by
  obtain ⟨before, later, rfl, ha⟩ := h
  refine ⟨before.filter (· ≠ id), later.filter (· ≠ id), ?_, fun hm => ha (List.mem_filter.mp hm).1⟩
  rw [List.filter_append, List.filter_cons, if_pos (by simpa using hid.symm)]

/-- In a list without repetitions there is only one place to look for `a`. -/
theorem not_before {before later : List Nat} (h : Ahead ready b a) (hn : ready.Nodup)
    (hready : ready = before ++ b :: later) : a ∉ before := by
  obtain ⟨xs, ys, hxs, ha⟩ := h
  rw [hready] at hn hxs
  obtain ⟨-, hbs, hdis⟩ := List.nodup_append.mp hn
  have hleft : b ∉ before := fun hm => hdis b hm b List.mem_cons_self rfl
  obtain ⟨hx, -, -⟩ := (List.append_cons_inj_of_notMem hleft (List.nodup_cons.mp hbs).1).mp hxs
  rwa [hx]

/-- What stands behind a served stream keeps its order, and the served stream is not `a`. -/
theorem behind {before later : List Nat} (h : Ahead ready b a) (hn : ready.Nodup)
    (hready : ready = before ++ id :: later) (hb : b ∈ later) : Ahead later b a ∧ id ≠ a := by
  obtain ⟨us, vs, rfl⟩ := List.append_of_mem hb
  have hsplit : ready = (before ++ id :: us) ++ b :: vs := by simp [hready]
  have hno := h.not_before hn hsplit
  simp only [List.mem_append, List.mem_cons, not_or] at hno
  exact ⟨⟨us, vs, rfl, hno.2.2⟩, Ne.symm hno.2.1⟩

end Ahead

namespace Sender

variable {l : Limits} {v v' : Sender} {log : List Event} {a b : Nat}

/-- Stream `b` is served before `a` the next time both can be, or its queue is gone for good. -/
def Waiting (v : Sender) (b a : Nat) : Prop :=
  Ahead v.queues.ready b a ∨
    b ∉ v.queues.ready ∧ ((v.send b).sendTerminal = true ∨ v.queues.closing = true)

theorem Waiting.keep (h : v.Waiting b a) (hready : v'.queues.ready = v.queues.ready)
    (hterm : (v.send b).sendTerminal = true → (v'.send b).sendTerminal = true)
    (hclosing : v.queues.closing = true → v'.queues.closing = true) : v'.Waiting b a := by
  unfold Waiting
  rw [hready]
  exact h.imp_right fun h => ⟨h.1, h.2.imp hterm hclosing⟩

/-- An update of one send direction that does not reopen it. -/
theorem Waiting.setSend (h : v.Waiting b a) (id : Nat) (st : SendState)
    (hst : (v.send id).sendTerminal = true → st.sendTerminal = true) : (v.setSend id st).Waiting b a := by
  refine h.keep rfl ?_ fun hc => hc
  intro ht
  by_cases hb : b = id
  · subst hb
    simpa only [Sender.setSend, Function.update_self] using hst ht
  · simpa only [Sender.setSend, Function.update_of_ne hb] using ht

theorem Waiting.create (h : v.Waiting b a) {id : Nat} (ids : Ids) (hid : b ≠ id) : (v.create ids id).Waiting b a := by
  refine h.keep rfl ?_ fun hc => hc
  intro ht
  simpa only [Sender.create, Function.update_of_ne hid] using ht

/-- What the application and the other tasks do keeps the order of two streams in the ready list. -/
theorem waiting_step (hv : v.WF l) (hb : v.ids.Opened b) (h : v.Waiting b a) (hs : SendStep l v log v')
    (hlog : emitted log = []) : v'.Waiting b a := by
  cases hs with
  | quiet => exact h
  | halt => exact h.keep rfl id id
  | openLocal hid hclosed hclosing =>
    have hne : b ≠ v.ids.nextLocal := fun he => Ids.not_opened_nextLocal hv.ids (he ▸ hb)
    refine Waiting.create ?_ _ hne
    exact h.keep rfl id id
  | openRemote _ hid hl =>
    have hne : b ≠ v.ids.nextRemote := fun he => Ids.not_opened_nextRemote hv.ids (he ▸ hb)
    exact h.create _ hne
  | pend j pending hid hold hnew => exact h.setSend j _ id
  | enqueue j w hw hstage hclosing hterm =>
    refine Waiting.setSend ?_ j _ id
    rcases h with h | ⟨hno, hend⟩
    · refine .inl ?_
      simp only [Sender.setQueues, WriterQueues.pushChunk]
      split_ifs
      · exact h.append [j]
      · exact h
    · have hj : b ≠ j := by
        rintro rfl
        rcases hend with he | he
        · rw [hterm] at he
          cases he
        · rw [hclosing] at he
          cases he
      refine .inr ⟨?_, hend⟩
      simp only [Sender.setQueues, WriterQueues.pushChunk]
      split_ifs
      · simpa [hj] using hno
      · exact hno
  | finish j w hw hstage => exact h.setSend j _ fun _ => rfl
  | reset j errorCode _ hid hdisp hres hclosing hl =>
    by_cases hj : b = j
    · subst hj
      refine .inr ⟨?_, .inl ?_⟩
      · simp [Sender.setSend, Sender.setQueues, WriterQueues.pushControl, WriterQueues.removeStream]
      · simp [Sender.setSend]
    · refine Waiting.setSend ?_ j _ fun _ => rfl
      rcases h with h | ⟨hno, hend⟩
      · exact .inl (h.filter (Ne.symm hj))
      · exact .inr ⟨fun hm => hno (List.mem_filter.mp hm).1, hend⟩
  | resetAgain => exact h
  | stopRetired => exact h
  | ping hclosing _ => exact h.keep rfl id id
  | stop j hid hclosing => exact h.keep rfl id id
  | close code reason fitted hcode hclosed hfit =>
    cases hg : code.intoInner == 0
    · exact .inr ⟨List.not_mem_nil, .inr rfl⟩
    · exact h.keep rfl id fun _ => rfl
  | shutdown => exact .inr ⟨List.not_mem_nil, .inr rfl⟩
  | pop => cases hlog
  | grant => cases hlog
  | data => cases hlog
  | turn => exact h.keep rfl id id
  | closeFrame => cases hlog
  | settings => exact h.keep rfl id id
  | maxData => exact h.keep rfl id id
  | maxStreamData streamId maximum hp hm => exact h.setSend _ _ id
  | lateCredit => exact h
  | retire => exact h.keep rfl id id

end Sender

namespace Shared

variable {l : Limits} {s : Shared} {r : Shared × Turn}

theorem dispatch_streamOf (hv : s.sender.WF l) {id : Nat} {chunk : OutboundChunk} {chunks : List OutboundChunk}
    (ready : List Nat) (hchunk : s.queues.chunksOf id = chunk :: chunks) :
    (s.dispatch id chunk chunks ready).2.streamOf = some id := by
  obtain ⟨ho, hfit⟩ :=
    hv.chunks id chunk (show chunk ∈ s.queues.chunksOf id by rw [hchunk]; exact List.mem_cons_self)
  simp only [dispatch, Frame.streamOf, hfit.streamId, VarInt.expect_intoInner id (ho.le hv.ids)]

theorem closeTurn_streamOf (hv : s.sender.WF l) (f : Frame) (hf : s.closeTurn.2 = .frame f) :
    ∃ code reason, f = .connectionClose code reason := by
  refine (Sender.closeFrame_inv hv f ?_).2
  unfold closeTurn at hf
  split at hf <;> rename_i ht
  · cases hf
  · cases hf
    exact congrArg Prod.snd ht

theorem control_streamOf (hv : s.sender.WF l) (f : Frame) (hf : f ∈ s.queues.control) :
    f.streamOf = none ∧ ∀ code reason, f ≠ .connectionClose code reason := by
  have hc := hv.control f hf
  cases f <;> first | exact hc.elim | exact ⟨rfl, by simp⟩

theorem credit_streamOf (f : Frame) (hf : f.isCredit = true) :
    f.streamOf = none ∧ ∀ code reason, f ≠ .connectionClose code reason := by
  cases f <;> first | (cases hf; done) | exact ⟨rfl, by simp⟩

theorem closeTurn_sender (s : Shared) :
    s.closeTurn.1.sender = s.sender.setQueues { s.queues with closeFrame := none } := by
  have hq : s.queues.takeCloseFrame.1 = { s.queues with closeFrame := none } := by
    unfold WriterQueues.takeCloseFrame
    split
    · rename_i hc
      rw [← hc]
    · rfl
    · rfl
  unfold closeTurn
  rw [← hq]
  split <;> rename_i ht <;> rw [ht] <;> rfl

theorem dispatch_ready (s : Shared) (id : Nat) (chunk : OutboundChunk) (chunks : List OutboundChunk)
    (ready : List Nat) :
    (s.dispatch id chunk chunks ready).1.queues.ready = ready ∨
      (s.dispatch id chunk chunks ready).1.queues.ready = ready ++ [id] :=
  ite_eq_or_eq _ _ _

/-- A STREAM frame comes from the data part of a turn. -/
theorem turn_stream (hv : s.sender.WF l) (h : s.Turns r) {f : Frame} (hf : r.2 = .frame f) {a : Nat}
    (ha : f.streamOf = some a) :
    (s.queues.controlTurn = false ∨ s.controlIdle) ∧ ∃ chunk chunks before later,
      s.queues.ready = before ++ a :: later ∧ r.1 = (s.dispatch a chunk chunks (later ++ before)).1 := by
  have hclose : s.closeTurn.2 ≠ .frame f := by
    intro hc
    obtain ⟨code, reason, rfl⟩ := closeTurn_streamOf hv f hc
    cases ha
  cases h with
  | cut => exact absurd hf hclose
  | pop g control _ hc =>
    cases hf
    rw [(control_streamOf hv f (hc ▸ List.mem_cons_self)).1] at ha
    cases ha
  | grant s' g _ _ _ _ hg hs' =>
    cases hf
    rw [(credit_streamOf f hg).1] at ha
    cases ha
  | data id chunk chunks before later hcut ht hready hskip hchunk hid =>
    cases hf
    rw [dispatch_streamOf hv (later ++ before) hchunk] at ha
    cases ha
    exact ⟨ht.imp And.left And.right, chunk, chunks, before, later, hready, rfl⟩
  | again => cases hf
  | drained => exact absurd hf hclose
  | wait => cases hf

/-- A frame of the control queue and a credit update leave the turn to the data. -/
theorem turn_control (hv : s.sender.WF l) (h : s.Turns r) {f : Frame} (hf : r.2 = .frame f)
    (ha : f.streamOf = none) (hclose : ∀ code reason, f ≠ .connectionClose code reason) : r.1.turnBit = false := by
  have hno : s.closeTurn.2 ≠ .frame f := by
    intro hc
    obtain ⟨code, reason, rfl⟩ := closeTurn_streamOf hv f hc
    exact hclose code reason rfl
  cases h with
  | cut => exact absurd hf hno
  | pop g control _ hc => rfl
  | grant s' g _ _ _ _ hg hs' =>
    have hq : s'.queues = { s.queues with controlTurn := false } := congrArg Sender.queues hs'
    simp only [turnBit, hq]
  | data id chunk chunks before later hcut ht hready hskip hchunk hid =>
    cases hf
    rw [dispatch_streamOf hv (later ++ before) hchunk] at ha
    cases ha
  | again => cases hf
  | drained => exact absurd hf hno
  | wait => cases hf

/-- The data part serves a stream whenever it is its turn and one is eligible. -/
theorem turn_serves (hv : s.sender.WF l) (h : s.Turns r) (ht : s.turnBit = false) (hu : s.queues.urgent = false)
    (hcut : s.sender.cut = false) {b : Nat} (hel : s.isEligible b = true) :
    ∃ f id, r.2 = .frame f ∧ f.streamOf = some id := by
  obtain ⟨hb, hn⟩ := (s.isEligible_iff hv.queues b).mp hel
  have hf : ∀ {p : Prop}, s.queues.controlTurn = true → p := by
    intro p hc
    rw [show s.queues.controlTurn = false from ht] at hc
    cases hc
  cases h with
  | cut hc =>
    rw [hcut] at hc
    cases hc
  | pop g control _ hc hor =>
    rcases hor with hc | hc
    · exact hf hc
    · rw [hu] at hc
      cases hc
  | grant s' g _ _ hc => exact hf hc
  | data id chunk chunks before later _ _ hready hskip hchunk hid =>
    exact ⟨_, id, rfl, dispatch_streamOf hv (later ++ before) hchunk⟩
  | again _ _ _ hblocked => exact absurd (hblocked b hb) hn
  | drained _ hc => exact hf hc
  | wait _ hc => exact hf hc

/-- A turn that returns no frame does not take the turn from the control queue. -/
theorem turn_silent (h : s.Turns r) (ht : s.turnBit = true) (hf : ∀ f, r.2 ≠ .frame f) : r.1.turnBit = true := by
  have hclose : s.closeTurn.1.turnBit = true := by
    have hq : s.closeTurn.1.queues = { s.queues with closeFrame := none } :=
      congrArg Sender.queues s.closeTurn_sender
    rw [turnBit, hq]
    exact ht
  cases h with
  | cut => exact hclose
  | pop f => exact absurd rfl (hf f)
  | grant s' f => exact absurd rfl (hf f)
  | data => exact absurd rfl (hf _)
  | again => rfl
  | drained => exact hclose
  | wait => exact ht

/-- A turn of `next_frame` waits only when there is nothing to send. -/
theorem turn_wait (hq : s.queues.WF) (h : s.Turns r) (hw : r.2 = .wait) :
    s.queues.control = [] ∧ s.updatePending = false ∧ ∀ id, s.isEligible id = false := by
  have hclose : s.closeTurn.2 ≠ .wait := by
    unfold closeTurn
    split <;> simp
  cases h with
  | cut => exact absurd hw hclose
  | pop => cases hw
  | grant => cases hw
  | data => cases hw
  | again => cases hw
  | drained => exact absurd hw hclose
  | wait _ _ hidle hblocked =>
    refine ⟨hidle.1, hidle.2, fun id => ?_⟩
    rw [← Bool.not_eq_true, s.isEligible_iff hq]
    exact fun h => h.2 (hblocked id h.1)

/-- A turn at which `b` is eligible serves it, or keeps it ahead of `a` and does not serve `a`. -/
theorem turn_waiting (hv : s.sender.WF l) {a b : Nat} (h : s.Turns r) (hel : s.isEligible b = true)
    (hw : s.sender.Waiting b a) :
    (∃ f, r.2 = .frame f ∧ f.streamOf = some b) ∨
      r.1.sender.Waiting b a ∧ ∀ f, r.2 = .frame f → f.streamOf ≠ some a := by
  obtain ⟨hb, hn⟩ := (s.isEligible_iff hv.queues b).mp hel
  have hclose : s.closeTurn.1.sender.Waiting b a ∧ ∀ f, s.closeTurn.2 = .frame f → f.streamOf ≠ some a := by
    refine ⟨?_, ?_⟩
    · rw [closeTurn_sender]
      exact hw.keep rfl id id
    · intro f hf
      obtain ⟨code, reason, rfl⟩ := closeTurn_streamOf hv f hf
      simp [Frame.streamOf]
  cases h with
  | cut => exact .inr hclose
  | pop g control _ hc =>
    refine .inr ⟨hw.keep rfl id id, ?_⟩
    intro f hf
    cases hf
    rw [(control_streamOf hv g (hc ▸ List.mem_cons_self)).1]
    simp
  | grant s' g _ _ _ _ hg hs' =>
    refine .inr ⟨?_, ?_⟩
    · rw [hs']
      exact hw.keep rfl id id
    · intro f hf
      cases hf
      rw [(credit_streamOf g hg).1]
      simp
  | data id chunk chunks before later hcut ht hready hskip hchunk hid =>
    have hof := dispatch_streamOf hv (later ++ before) hchunk
    rcases s.served_first hready hskip hb hn with rfl | hlater
    · exact .inl ⟨_, rfl, hof⟩
    have hahead : Ahead s.queues.ready b a := hw.resolve_right fun h => h.1 hb
    obtain ⟨hrest, hne⟩ := hahead.behind hv.queues.ready_nodup hready hlater
    refine .inr ⟨.inl ?_, ?_⟩
    · change Ahead (s.dispatch id chunk chunks (later ++ before)).1.queues.ready b a
      rcases s.dispatch_ready id chunk chunks (later ++ before) with hd | hd
      · rw [hd]
        exact hrest.append before
      · rw [hd]
        exact (hrest.append before).append [id]
    · intro f hf
      cases hf
      rw [hof]
      simpa using hne
  | again => exact .inr ⟨hw.keep rfl id id, by simp⟩
  | drained => exact .inr hclose
  | wait => exact .inr ⟨hw, by simp⟩

end Shared

namespace Endpoint

variable {l : Limits} {isClient : Bool} {e e' e₁ e₂ : Endpoint} {log evs : List Event} {a b : Nat}

/-- The runs in which stream `b` is eligible at every turn of `next_frame`. -/
def eligibleMachine (limits : Limits) (isClient : Bool) (b : Nat) : Machine Endpoint Event :=
  .ofStep (fun e => connect limits isClient = .ok e)
    (Machine.guardStep (fun e act => !act.isTurn || e.shared.isEligible b) step)

theorem waiting_of_step (hr : (machine l isClient).Reach e log) (hb : e.shared.ids.Opened b)
    (hw : e.shared.sender.Waiting b a) (act : Act) (h : e.step act = some (e', evs))
    (hel : act.isTurn = true → e.shared.isEligible b = true) :
    (∃ f ∈ emitted evs, f.streamOf = some b) ∨ e'.shared.sender.Waiting b a := by
  have hv := Sender.reach_wf (reach_sender hr)
  by_cases ht : ∃ order, act = .nextFrame order
  · obtain ⟨order, rfl⟩ := ht
    obtain ⟨horder, he, hevs⟩ := nextFrame_inv h
    have hturns := e.shared.nextFrame_turns hv.queues order horder
    rcases Shared.turn_waiting hv hturns (hel rfl) hw with ⟨f, hf, hs⟩ | ⟨hw', -⟩
    · rw [hf] at hevs
      refine .inl ⟨f, ?_, hs⟩
      rw [hevs]
      exact List.mem_singleton_self f
    · rw [he]
      exact .inr hw'
  · have hnone := emitted_of_step act h fun order ho => ht ⟨order, ho⟩
    have hs := reach_sendStep hr act h
    exact .inr (Sender.waiting_step hv hb hw hs hnone)

/-- Once `b` waits ahead of `a`, no frame of `a` goes out before one of `b` while `b` stays eligible. -/
theorem eligible_served (hr : (machine l isClient).Reach e log) (hb : e.shared.ids.Opened b)
    (hw : e.shared.sender.Waiting b a) (h : (eligibleMachine l isClient b).Steps e evs e') :
    (∃ f ∈ emitted evs, f.streamOf = some b) ∨ e'.shared.ids.Opened b ∧ e'.shared.sender.Waiting b a := by
  refine h.invariant (N := machine l isClient) Machine.guardStep_sub hr
    (fun e' evs => (∃ f ∈ emitted evs, f.streamOf = some b) ∨
      e'.shared.ids.Opened b ∧ e'.shared.sender.Waiting b a) (.inr ⟨hb, hw⟩) ?_
  rintro e₁ tr evs e₂ hr₁ (⟨f, hf, hs⟩ | ⟨hb, hw⟩) ⟨act, hact⟩
  · refine .inl ⟨f, ?_, hs⟩
    rw [emitted_append]
    exact List.mem_append_left _ hf
  obtain ⟨hok, hact⟩ := Machine.guardStep_eq_some.mp hact
  have hel : act.isTurn = true → e₁.shared.isEligible b = true := by
    intro ht
    simpa [ht] using hok
  rcases waiting_of_step hr₁ hb hw act hact hel with ⟨f, hf, hs⟩ | hw'
  · refine .inl ⟨f, ?_, hs⟩
    rw [emitted_append]
    exact List.mem_append_right _ hf
  · have hv := Sender.reach_wf (reach_sender hr₁)
    have hs := reach_sendStep hr₁ act hact
    exact .inr ⟨(Sender.ids_step hv hs).2 b hb, hw'⟩

/-- What a turn that returned a frame was. -/
theorem emits_turns (hr : (machine l isClient).Reach e log) {order : List Nat} {f : Frame}
    (h : e.step (.nextFrame order) = some (e₁, [.emitted f])) :
    ∃ r, e.shared.Turns r ∧ r.2 = .frame f ∧ e₁.shared = r.1 := by
  obtain ⟨horder, he, hevs⟩ := nextFrame_inv h
  refine ⟨_, e.shared.nextFrame_turns (reach_queues_wf hr) order horder, ?_, he⟩
  cases ht : (e.shared.nextFrame order).2 with
  | frame g =>
    rw [ht] at hevs
    cases hevs
    rfl
  | _ =>
    rw [ht] at hevs
    cases hevs

/-- A stream that is ready while `a` is served stands before `a` afterwards. -/
theorem served_waiting (hr : (machine l isClient).Reach e log) {order : List Nat} {f : Frame}
    (h : e.step (.nextFrame order) = some (e₁, [.emitted f])) (ha : f.streamOf = some a) (hne : a ≠ b)
    (hb : b ∈ e.shared.queues.ready) : e₁.shared.ids.Opened b ∧ e₁.shared.sender.Waiting b a := by
  have hv := Sender.reach_wf (reach_sender hr)
  have hs := reach_sendStep hr _ h
  obtain ⟨c, hc⟩ := List.exists_mem_of_ne_nil _ ((hv.queues.ready_iff b).mp hb)
  refine ⟨(Sender.ids_step hv hs).2 b (hv.chunks b c hc).1, .inl ?_⟩
  obtain ⟨r, hturns, hf, he⟩ := emits_turns hr h
  obtain ⟨-, chunk, chunks, before, later, hready, hd⟩ := Shared.turn_stream hv hturns hf ha
  have hn := hv.queues.ready_nodup
  simp only [Shared.sender] at hn
  rw [hready] at hn hb
  have hrest : Ahead (later ++ before) b a := by
    refine .of_not_mem ?_ ?_
    · simp only [List.mem_append, List.mem_cons, hne.symm, false_or] at hb ⊢
      exact hb.symm
    · rw [List.nodup_middle, List.nodup_cons] at hn
      simpa only [List.mem_append, or_comm] using hn.1
  rw [he, hd]
  change Ahead (e.shared.dispatch a chunk chunks (later ++ before)).1.queues.ready b a
  rcases e.shared.dispatch_ready a chunk chunks (later ++ before) with hq | hq
  · rw [hq]
    exact hrest
  · rw [hq]
    exact hrest.append [a]

/-- While no frame is returned the control queue keeps its turn. -/
theorem silent_turnBit (hr : (machine l isClient).Reach e log) (ht : e.shared.turnBit = true)
    (h : (machine l isClient).Steps e evs e') (hevs : emitted evs = []) : e'.shared.turnBit = true := by
  have hi : emitted evs = [] → e'.shared.turnBit = true := by
    refine h.invariant (N := machine l isClient) (fun _ _ _ h => h) hr
      (fun e' evs => emitted evs = [] → e'.shared.turnBit = true) (fun _ => ht) ?_
    rintro e₁ tr evs e₂ hr₁ hbit ⟨act, hact⟩ hnone
    rw [emitted_append, List.append_eq_nil_iff] at hnone
    by_cases hn : ∃ order, act = .nextFrame order
    · obtain ⟨order, rfl⟩ := hn
      obtain ⟨horder, he, hevs⟩ := nextFrame_inv hact
      rw [he]
      refine Shared.turn_silent (e₁.shared.nextFrame_turns (reach_queues_wf hr₁) order horder) (hbit hnone.1) ?_
      intro f hf
      rw [hf] at hevs
      rw [hevs] at hnone
      cases hnone.2
    · rw [(passive_of_step act hact fun order ho => hn ⟨order, ho⟩).1.turn]
      exact hbit hnone.1
  exact hi hevs

/-- Scheduling of `next_frame`: streams take turns, data alternates with control, and it waits only
when there is nothing to send. -/
theorem next_frame_fair (l : Limits) (isClient : Bool) (e : Endpoint) (log : List Event)
    (h : (machine l isClient).Reach e log) (order : List Nat) :
    (∀ a b e₁ f evs e₂ order' e₃ f', a ≠ b → b ∈ e.shared.queues.ready →
      e.step (.nextFrame order) = some (e₁, [.emitted f]) → f.streamOf = some a →
      (eligibleMachine l isClient b).Steps e₁ evs e₂ → e₂.shared.isEligible b = true →
      e₂.step (.nextFrame order') = some (e₃, [.emitted f']) → f'.streamOf = some a →
      ∃ g ∈ emitted evs, g.streamOf = some b) ∧
    (∀ e₁ f evs e₂ order' e₃ evs', e.step (.nextFrame order) = some (e₁, [.emitted f]) →
      f.streamOf = none →
      (∀ code reason, f ≠ .connectionClose code reason) → (othersMachine l isClient).Steps e₁ evs e₂ →
      (∃ id, e₂.shared.isEligible id = true) →
      e₂.shared.queues.urgent = false → e₂.shared.sender.cut = false →
      e₂.step (.nextFrame order') = some (e₃, evs') →
      ∃ f' id, evs' = [.emitted f'] ∧ f'.streamOf = some id) ∧
    (∀ e₁ f a evs e₂ order' e₃ f', e.step (.nextFrame order) = some (e₁, [.emitted f]) →
      f.streamOf = some a →
      (machine l isClient).Steps e₁ evs e₂ → emitted evs = [] →
      e₂.shared.queues.control ≠ [] ∨ e₂.shared.updatePending = true →
      e₂.step (.nextFrame order') = some (e₃, [.emitted f']) → f'.streamOf = none) ∧
    (∀ e₁ evs, e.step (.nextFrame order) = some (e₁, evs) → (e.shared.nextFrame order).2 = .wait →
      e.shared.queues.control = [] ∧ e.shared.updatePending = false ∧ ∀ id, e.shared.isEligible id = false) := by
  have hv := Sender.reach_wf (reach_sender h)
  refine ⟨?_, ?_, ?_, ?_⟩
  · intro a b e₁ f evs e₂ order' e₃ f' hne hb hturn ha hsteps hel hturn' ha'
    have hr₁ := h.step ⟨_, hturn⟩
    obtain ⟨ho, hw⟩ := served_waiting h hturn ha hne hb
    rcases eligible_served hr₁ ho hw hsteps with hserved | ⟨-, hw'⟩
    · exact hserved
    have hr₂ := hr₁.steps (hsteps.mono Machine.guardStep_sub)
    obtain ⟨r, hturns, hf, -⟩ := emits_turns hr₂ hturn'
    rcases Shared.turn_waiting (Sender.reach_wf (reach_sender hr₂)) hturns hel hw' with ⟨g, hg, hs⟩ | ⟨-, hno⟩
    · rw [hf] at hg
      cases hg
      rw [ha'] at hs
      exact absurd (Option.some.inj hs) hne
    · exact absurd ha' (hno f' hf)
  · rintro e₁ f evs e₂ order' e₃ evs' hturn hf hclose hsteps ⟨b, hel⟩ hu hcut hturn'
    have hr₁ := h.step ⟨_, hturn⟩
    have hr₂ := hr₁.steps (hsteps.mono Machine.guardStep_sub)
    obtain ⟨r, hturns, hr, he⟩ := emits_turns h hturn
    have hbit : e₂.shared.turnBit = false := by
      rw [others_turnBit hr₁ hsteps, he]
      exact Shared.turn_control hv hturns hr hf hclose
    obtain ⟨horder, -, hevs⟩ := nextFrame_inv hturn'
    have hv₂ := Sender.reach_wf (reach_sender hr₂)
    obtain ⟨f', id, hf', hs⟩ := Shared.turn_serves hv₂ (e₂.shared.nextFrame_turns hv₂.queues order' horder)
      hbit hu hcut hel
    rw [hf'] at hevs
    exact ⟨f', id, hevs, hs⟩
  · intro e₁ f a evs e₂ order' e₃ f' hturn ha hsteps hnone hmore hturn'
    have hr₁ := h.step ⟨_, hturn⟩
    have hr₂ := hr₁.steps hsteps
    obtain ⟨r, hturns, hf, he⟩ := emits_turns h hturn
    obtain ⟨-, chunk, chunks, before, later, -, hd⟩ := Shared.turn_stream hv hturns hf ha
    have hbit : e₂.shared.turnBit = true := by
      refine silent_turnBit hr₁ ?_ hsteps hnone
      rw [he, hd]
      rfl
    obtain ⟨r', hturns', hf', -⟩ := emits_turns hr₂ hturn'
    cases hs : f'.streamOf with
    | none => rfl
    | some id =>
      obtain ⟨hidle, -⟩ := Shared.turn_stream (Sender.reach_wf (reach_sender hr₂)) hturns' hf' hs
      rcases hidle with hno | ⟨hcontrol, hupdate⟩
      · rw [show e₂.shared.queues.controlTurn = true from hbit] at hno
        cases hno
      · rcases hmore with hm | hm
        · exact absurd hcontrol hm
        · rw [hupdate] at hm
          cases hm
  · intro e₁ evs hturn hwait
    obtain ⟨horder, -, -⟩ := nextFrame_inv hturn
    exact Shared.turn_wait hv.queues (e.shared.nextFrame_turns hv.queues order horder) hwait

/-- A write of one chunk with all its permits. -/
def writeActs (id : Nat) (payload : Bytes) : List Act :=
  [.write 1 id payload false, .acquire id, .acquire id, .acquire id, .acquire id, .enqueue id]

/-- Two streams with thirty bytes each, and a peer that takes frames of at most 25 bytes. -/
theorem next_frame_fair_two_streams :
    ∃ e log e₁ f evs e₂, (machine smallLimits true).Reach e log ∧
      e.step (.nextFrame [0, 2]) = some (e₁, [.emitted f]) ∧ f.streamOf = some 0 ∧
      (eligibleMachine smallLimits true 2).Steps e₁ evs e₂ ∧ ∃ g ∈ emitted evs, g.streamOf = some 2 := by
  have hrun : ((Machine.runList step { shared := .new smallLimits true }
      ([.openStart, .openFinish, .openStart, .openFinish,
        .receive (Frame.settings (.expect 1000) (.expect 1000) (.expect 25)).wire, .nextFrame [0, 2], .send,
        .nextFrame [0, 2], .send, .nextFrame [0, 2], .send] ++ writeActs 0 (List.replicate 30 1) ++
        writeActs 2 (List.replicate 30 2))).bind fun r =>
      (r.1.step (.nextFrame [0, 2])).bind fun r₁ =>
      (Machine.runList (Machine.guardStep (fun e act => !act.isTurn || e.shared.isEligible 2) step) r₁.1
        [.send, .nextFrame [0, 2], .send]).bind fun r₂ =>
      (r₂.1.step (.nextFrame [0, 2])).map fun r₃ =>
        (r.1.shared.queues.ready, r₁.2, r₂.1.shared.isEligible 2, r₃.2)) =
      some ([0, 2], [.emitted (.stream (.expect 0) false (List.replicate 21 1))], true,
        [.emitted (.stream (.expect 0) false (List.replicate 9 1))]) := by decide
  obtain ⟨⟨e, log⟩, hpre, hrun⟩ := Option.bind_eq_some_iff.mp hrun
  obtain ⟨⟨e₁, evs₁⟩, hturn, hrun⟩ := Option.bind_eq_some_iff.mp hrun
  obtain ⟨⟨e₂, evs⟩, hmid, hrun⟩ := Option.bind_eq_some_iff.mp hrun
  obtain ⟨⟨e₃, evs₃⟩, hturn', heq⟩ := Option.map_eq_some_iff.mp hrun
  simp only [Prod.mk.injEq] at heq
  obtain ⟨hready, rfl, hel, rfl⟩ := heq
  have h0 : connect smallLimits true = .ok { shared := .new smallLimits true } := rfl
  have hr := Machine.Reach.of_run (connect smallLimits true = .ok ·) h0 _ hpre
  have hsteps := Machine.runList_steps (connect smallLimits true = .ok ·) _ _ hmid
  refine ⟨e, log, e₁, _, evs, e₂, hr, hturn, rfl, hsteps, ?_⟩
  exact (next_frame_fair smallLimits true e log hr [0, 2]).1 0 2 e₁ _ evs e₂ [0, 2] e₃ _ (by decide)
    (by rw [hready]; decide) hturn rfl hsteps hel hturn' rfl

/-- After OPEN_STREAM a turn finds no eligible stream and gives the turn back to the control queue;
then data and a PING are queued, and the PING goes first. -/
theorem control_follows_control :
    ∃ e log e₁ f evs e₂ e₃ f', (machine smallLimits true).Reach e log ∧
      e.step (.nextFrame [0]) = some (e₁, [.emitted f]) ∧ f.streamOf = none ∧
      (∀ code reason, f ≠ .connectionClose code reason) ∧ (machine smallLimits true).Steps e₁ evs e₂ ∧
      emitted evs = [] ∧ e₂.shared.isEligible 0 = true ∧ e₂.shared.queues.urgent = false ∧
      e₂.shared.sender.cut = false ∧
      e₂.step (.nextFrame [0]) = some (e₃, [.emitted f']) ∧ f'.streamOf = none := by
  have hrun : ((Machine.runList step { shared := .new smallLimits true }
      [.openStart, .openFinish, .receive (settingsFrame smallLimits).wire, .nextFrame [0], .send]).bind fun r =>
      (r.1.step (.nextFrame [0])).bind fun r₁ =>
      (Machine.runList step r₁.1 ([.send, .nextFrame [0]] ++ writeActs 0 [1] ++ [.keepalive])).bind fun r₂ =>
      (r₂.1.step (.nextFrame [0])).map fun r₃ =>
        (r₁.2, emitted r₂.2,
          [r₂.1.shared.isEligible 0, r₂.1.shared.queues.urgent, r₂.1.shared.sender.cut], r₃.2)) =
      some ([.emitted (.openStream (.expect 0))], [], [true, false, false], [.emitted .ping]) := by decide
  obtain ⟨⟨e, log⟩, hpre, hrun⟩ := Option.bind_eq_some_iff.mp hrun
  obtain ⟨⟨e₁, evs₁⟩, hturn, hrun⟩ := Option.bind_eq_some_iff.mp hrun
  obtain ⟨⟨e₂, evs⟩, hmid, hrun⟩ := Option.bind_eq_some_iff.mp hrun
  obtain ⟨⟨e₃, evs₃⟩, hturn', heq⟩ := Option.map_eq_some_iff.mp hrun
  simp only [Prod.mk.injEq, List.cons.injEq, and_true] at heq
  obtain ⟨rfl, hnone, ⟨hel, hu, hcut⟩, rfl⟩ := heq
  have h0 : connect smallLimits true = .ok { shared := .new smallLimits true } := rfl
  have hr := Machine.Reach.of_run (connect smallLimits true = .ok ·) h0 _ hpre
  exact ⟨e, log, e₁, _, evs, e₂, e₃, _, hr, hturn, rfl,
    by simp, Machine.runList_steps _ step _ hmid, hnone, hel, hu,
    hcut, hturn', rfl⟩

end Endpoint
end Muxtls
