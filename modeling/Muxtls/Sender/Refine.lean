import Muxtls.Sender.Order
import Muxtls.Connection.Payload

namespace Muxtls
namespace Shared

variable {l : Limits} {s : Shared}

theorem markClosed_sender (s : Shared) (log : List Event) (h : ∀ e ∈ log, e.Quiet) :
    SendStep l s.sender log s.markClosed.sender := by
  by_cases hc : s.cleanupStarted
  · have he : s.markClosed.sender = { s.sender with closed := true } := by
      simp [markClosed, hc, sender, ids]
    rw [he]
    exact .halt _ log h
  · have he : s.markClosed.sender =
        { s.sender with closed := true, streams := [], queues := s.queues.shutdown } := by
      simp [markClosed, hc, sender, ids, shutdown]
    rw [he]
    exact .shutdown _ log h

theorem cancelWrite_sender (s : Shared) (id : Nat) :
    (s.cancelWrite id).sender = s.sender.setSend id { s.send id with pending := none } := by
  unfold cancelWrite
  cases hp : (s.send id).pending with
  | none =>
    have he : ({ s.send id with pending := none } : SendState) = s.send id := by
      rw [← hp]
    simp [sender, Sender.setSend, he]
  | some w => rfl

/-- A write that goes back or gives up changes only its own record. -/
theorem cancelWrite_step (hv : s.sender.WF l) (id : Nat)
    (hold : ∀ w, (s.send id).pending = some w → w.stage ≠ .enqueued) :
    SendStep l s.sender [] (s.cancelWrite id).sender := by
  rw [cancelWrite_sender]
  cases hp : (s.send id).pending with
  | none =>
    have he : ({ s.send id with pending := none } : SendState) = s.send id := by
      rw [← hp]
    have hs : s.sender.setSend id (s.send id) = s.sender := by
      simp [Sender.setSend, sender]
    rw [he, hs]
    exact .quiet _ [] (by simp)
  | some w =>
    exact .pend s.sender id none (hv.pending id w hp).1 hold (by intro w hw; cases hw)

theorem checkChunk_ok (id : Nat) (payload : Bytes) (fin : Bool) (h : s.checkChunk id payload fin = .ok ()) :
    (∃ n, (Frame.stream (.expect id) fin payload).encodedLen = .ok n ∧ n ≤ s.limits.maxFrameSize) ∧
      payload.length ≤ s.limits.maxOutboundStreamBytes := by
  cases hid : VarInt.fromU64 id with
  | error error => simp [checkChunk, hid] at h
  | ok streamId =>
    obtain rfl := (VarInt.fromU64_ok_iff id streamId).mp hid
    rw [VarInt.expect_inner]
    exact (s.checkChunk_ok_iff streamId payload fin).mp h

theorem startWrite_step (hl : s.limits = l) (id : Nat) (payload : Bytes) (fin : Bool)
    (r : Shared × Except Error Unit) (hid : s.ids.Opened id) (h : s.startWrite id payload fin = some r) :
    SendStep l s.sender [] r.1.sender := by
  have hquiet : SendStep l s.sender [] s.sender := .quiet _ [] (by simp)
  unfold startWrite at h
  by_cases hc : s.closed = true
  · rw [if_pos hc] at h
    cases h
    exact hquiet
  rw [if_neg hc] at h
  by_cases hp : (s.send id).pending.isSome = true
  · rw [if_pos hp] at h
    cases h
  rw [if_neg hp] at h
  by_cases ht : (s.send id).sendTerminal = true
  · rw [if_pos ht] at h
    cases h
    exact hquiet
  rw [if_neg ht] at h
  cases hchk : s.checkChunk id payload fin with
  | error error =>
    rw [hchk] at h
    cases h
    exact hquiet
  | ok _ =>
    rw [hchk] at h
    simp only at h
    obtain ⟨hframe, hbud⟩ := checkChunk_ok id payload fin hchk
    rw [hl] at hframe hbud
    split_ifs at h with he
    · cases h
      exact hquiet
    · cases h
      refine .pend s.sender id _ hid ?_ ?_
      · intro w hw
        have hw : (s.send id).pending = some w := hw
        rw [hw] at hp
        simp at hp
      · intro w hw
        cases hw
        refine ⟨⟨hframe, hbud, ?_⟩, by simp⟩
        simpa [or_iff_not_imp_left] using he

theorem acquireStage_step (hv : s.sender.WF l) (id : Nat) (w : PendingWrite) (stage : WriteStage)
    (sem : Semaphore) (n : Nat) (set : Semaphore → OutboundBudget) (s' : Shared)
    (hw : (s.send id).pending = some w) (hold : w.stage ≠ .enqueued) (hnew : stage ≠ .enqueued)
    (h : s.acquireStage id w stage sem n set = some s') : SendStep l s.sender [] s'.sender := by
  obtain ⟨ho, hf⟩ := hv.pending id w hw
  have hold' : ∀ w, (s.send id).pending = some w → w.stage ≠ .enqueued := by
    intro w' hw'
    rw [hw] at hw'
    cases hw'
    exact hold
  unfold acquireStage at h
  split_ifs at h with hc
  · cases h
    exact cancelWrite_step hv id hold'
  · obtain ⟨sem', -, rfl⟩ := Option.map_eq_some_iff.mp h
    refine .pend s.sender id _ ho hold' ?_
    intro w' hw'
    cases hw'
    exact ⟨⟨hf.frame, hf.budget, hf.nonempty⟩, hnew⟩

theorem acquireWrite_step (hv : s.sender.WF l) (id : Nat) (s' : Shared) (h : s.acquireWrite id = some s') :
    SendStep l s.sender [] s'.sender := by
  unfold acquireWrite at h
  cases hw : (s.send id).pending with
  | none => rw [hw] at h; cases h
  | some w =>
    rw [hw] at h
    obtain ⟨ho, hf⟩ := hv.pending id w hw
    -- an empty payload passes over the byte permits
    have hskip : ∀ stage, w.stage ≠ .enqueued → stage ≠ .enqueued →
        SendStep l s.sender [] (s.setPending id (some { w with stage })).sender := by
      intro stage hold hnew
      refine .pend s.sender id _ ho ?_ ?_
      · intro w' hw'
        rw [show (s.send id).pending = some w' from hw'] at hw
        cases hw
        exact hold
      · intro w' hw'
        cases hw'
        exact ⟨⟨hf.frame, hf.budget, hf.nonempty⟩, hnew⟩
    cases hs : w.stage with
    | locked =>
      simp only [hs] at h
      exact acquireStage_step hv id w _ _ _ _ s' hw (by simp [hs]) (by simp) h
    | streamFrame =>
      simp only [hs] at h
      split_ifs at h
      · cases h
        exact hskip _ (by simp [hs]) (by simp)
      · exact acquireStage_step hv id w _ _ _ _ s' hw (by simp [hs]) (by simp) h
    | streamBytes =>
      simp only [hs] at h
      exact acquireStage_step hv id w _ _ _ _ s' hw (by simp [hs]) (by simp) h
    | frame =>
      simp only [hs] at h
      split_ifs at h
      · cases h
        exact hskip _ (by simp [hs]) (by simp)
      · exact acquireStage_step hv id w _ _ _ _ s' hw (by simp [hs]) (by simp) h
    | connBytes => simp only [hs] at h; cases h
    | enqueued => simp only [hs] at h; cases h

theorem enqueueWrite_step (hv : s.sender.WF l) (id : Nat) (r : Shared × Except Error PendingWrite)
    (h : s.enqueueWrite id = some r) :
    (∃ w, r.2 = .ok w ∧ SendStep l s.sender [.queued id w.payload w.fin] r.1.sender) ∨
      ∃ error, r.2 = .error error ∧ SendStep l s.sender [] r.1.sender := by
  unfold enqueueWrite at h
  cases hw : (s.send id).pending with
  | none => rw [hw] at h; cases h
  | some w =>
    rw [hw] at h
    simp only at h
    by_cases hst : w.stage = .connBytes
    · have hne : w.stage ≠ .enqueued := by simp [hst]
      have hold : ∀ w, (s.send id).pending = some w → w.stage ≠ .enqueued := by
        intro w' hw'
        rw [hw] at hw'
        cases hw'
        exact hne
      rw [if_neg (not_not.mpr hst)] at h
      by_cases hc : s.closed = true
      · rw [if_pos hc] at h
        cases h
        exact .inr ⟨_, rfl, cancelWrite_step hv id hold⟩
      · rw [if_neg hc] at h
        have hcond : ((s.setPending id none).queues.closing || ((s.setPending id none).send id).sendTerminal) =
            (s.queues.closing || (s.send id).sendTerminal) := by
          simp [setPending]
        rw [enqueueData, hcond] at h
        cases hcl : (s.queues.closing || (s.send id).sendTerminal) with
        | true =>
          rw [hcl, if_pos rfl] at h
          cases h
          refine .inr ⟨_, rfl, ?_⟩
          exact .pend s.sender id none (hv.pending id w hw).1 hold (by intro w hw; cases hw)
        | false =>
          rw [hcl, if_neg (by simp)] at h
          obtain ⟨hclosing, hterm⟩ := Bool.or_eq_false_iff.mp hcl
          have hstep := SendStep.enqueue (l := l) s.sender id w hw hne hclosing hterm
          cases h
          refine .inl ⟨w, rfl, ?_⟩
          convert hstep using 1
          cases w.fin <;> simp [setPending, sender, Sender.setSend, Sender.setQueues, ids]
    · rw [if_pos hst] at h
      cases h

theorem finishWrite_step (id : Nat) (s' : Shared) (h : s.finishWrite id = some s') :
    SendStep l s.sender [] s'.sender := by
  unfold finishWrite at h
  cases hw : (s.send id).pending with
  | none => rw [hw] at h; cases h
  | some w =>
    rw [hw] at h
    obtain ⟨payload, fin, stage⟩ := w
    cases stage with
    | enqueued =>
      cases h
      exact .finish s.sender id _ hw rfl
    | _ => cases h

/-- `reset_stream` fails and changes nothing, or it returns `Ok`; then the stream was already ended,
or the reset takes effect. -/
theorem resetStream_step (hv : s.sender.WF l) (id errorCode : Nat) (hid : s.ids.Opened id) :
    (∃ error, s.resetStream id errorCode = (s, .error error)) ∨
      (s.resetStream id errorCode).2 = .ok () ∧
        ∀ log, ResetLog id log → SendStep l s.sender log (s.resetStream id errorCode).1.sender := by
  unfold resetStream
  by_cases hc : s.closed = true
  · rw [if_pos hc]
    exact .inl ⟨_, rfl⟩
  rw [if_neg hc, VarInt.fromU64_eq_ok id (hid.le hv.ids)]
  cases hcode : ErrorCode.fromU64 errorCode with
  | error error => exact .inl ⟨_, rfl⟩
  | ok code =>
    simp only
    by_cases hd : ((s.send id).sendDispatched || (s.send id).resetQueued) = true
    · rw [if_pos hd]
      have hor : (s.send id).sendDispatched = true ∨ (s.send id).resetQueued = true := by simpa using hd
      exact .inr ⟨rfl, fun log hlog => .resetAgain s.sender id log hor hlog⟩
    rw [if_neg hd]
    by_cases hf : (s.queues.closing || decide (s.queues.control.length ≥ s.limits.maxControlFrames)) = true
    · rw [if_pos hf]
      exact .inl ⟨_, rfl⟩
    rw [if_neg hf]
    refine .inr ⟨rfl, fun log hlog => ?_⟩
    obtain ⟨hdisp, hres⟩ : (s.send id).sendDispatched = false ∧ (s.send id).resetQueued = false := by
      simpa using hd
    have hclosing : s.queues.closing = false := by
      simp only [Bool.or_eq_true, not_or, Bool.not_eq_true] at hf
      exact hf.1
    have he : VarInt.expect id = ⟨id, hid.le hv.ids⟩ :=
      VarInt.ext_inner (VarInt.expect_intoInner _ (hid.le hv.ids))
    have hstep := SendStep.reset (l := l) s.sender id code log hid hdisp hres hclosing hlog
    rw [he] at hstep
    exact hstep

theorem enqueueControl_ping (s : Shared) : SendStep l s.sender [] (s.enqueueControl .ping).1.sender := by
  have hquiet : SendStep l s.sender [] s.sender := .quiet _ [] (by simp)
  unfold enqueueControl
  split_ifs with hc hp hf
  · exact hquiet
  · exact hquiet
  · exact hquiet
  · exact .ping s.sender (Bool.eq_false_of_not_eq_true hc) fun hm => hp ⟨rfl, hm⟩

theorem enqueueControl_stop (s : Shared) (id : Nat) (hid : s.ids.Opened id) :
    s.enqueueControl (.stopSending (.expect id)) = (s, false) ∨
      (s.enqueueControl (.stopSending (.expect id))).2 = true ∧
        SendStep l s.sender [.stopQueued id] (s.enqueueControl (.stopSending (.expect id))).1.sender := by
  unfold enqueueControl
  split_ifs with hc hp hf
  · exact .inl rfl
  · cases hp.1
  · exact .inl rfl
  · exact .inr ⟨rfl, .stop s.sender id hid (Bool.eq_false_of_not_eq_true hc)⟩

theorem fromU64_code (n : Nat) (h : n ≤ 1) : ∃ code, ErrorCode.fromU64 n = .ok code ∧ code.intoInner = n := by
  have hn : n ≤ varIntMax := h.trans (by decide)
  exact ⟨⟨⟨n, hn⟩⟩, by rw [ErrorCode.fromU64, VarInt.fromU64_eq_ok n hn], rfl⟩

theorem initiateClose_step (hl : s.limits = l) (errorCode : Nat) (reason : String) (hcode : errorCode ≤ 1) :
    SendStep l s.sender (s.closingEvents errorCode reason) (s.initiateClose errorCode reason).1.sender := by
  have hquiet : SendStep l s.sender [] s.sender := .quiet _ [] (by simp)
  obtain ⟨code, hok, hinner⟩ := fromU64_code errorCode hcode
  unfold initiateClose closingEvents
  cases hfit : s.limits.fitCloseReason errorCode reason with
  | error error =>
    cases s.closed <;> exact hquiet
  | ok fitted =>
    simp only [hok]
    cases hc : s.closed with
    | true => exact hquiet
    | false =>
      rw [hl, ← hinner] at hfit
      have hstep := SendStep.close (l := l) s.sender code reason fitted (hinner ▸ hcode) hc hfit
      rw [hinner] at hstep
      exact hstep

theorem close_step (hl : s.limits = l) (reason : String) (s' : Shared) (h : s.close reason = (s', .ok ())) :
    SendStep l s.sender (s.closingEvents 0 reason) s'.sender := by
  have hs := initiateClose_step hl 0 reason (by decide)
  rw [initiateClose_of_close h] at hs
  exact hs

theorem openBi_step (s : Shared) : SendStep l s.sender [] s.openBi.1.sender := by
  unfold openBi
  by_cases hc : s.closed = true
  · rw [if_pos hc]
    exact .quiet _ [] (by simp)
  rw [if_neg hc]
  by_cases hf : (s.queues.closing || decide (s.queues.control.length ≥ s.limits.maxControlFrames)) = true
  · rw [if_pos hf]
    exact s.markClosed_sender [] (by simp)
  rw [if_neg hf]
  have hclosing : s.queues.closing = false := by
    simp only [Bool.or_eq_true, not_or, Bool.not_eq_true] at hf
    exact hf.1
  split_ifs with hid
  · exact .openLocal s.sender hid (Bool.eq_false_of_not_eq_true hc) hclosing
  · exact .quiet _ [] (by simp)

/-- The head chunk of a stream, if it has one, is skipped by the data pass. -/
def Blocked (s : Shared) (j : Nat) : Prop :=
  ∀ c ∈ (s.queues.chunksOf j).head?, s.queues.eligible (s.send j) c = false

def withReady (s : Shared) (ready : List Nat) : Shared := { s with queues := { s.queues with ready } }

/-- One turn of the data pass with a stream at the front of the ready list. -/
theorem dataPass_cons (s : Shared) (id n : Nat) (ready : List Nat) (chunk : OutboundChunk)
    (chunks : List OutboundChunk) (hl : s.queues.byStream.lookup id = some (chunk :: chunks)) :
    (s.withReady (id :: ready)).dataPass (n + 1) =
      if s.queues.eligible (s.send id) chunk then
        ((s.dispatch id chunk chunks ready).1, some (.frame (s.dispatch id chunk chunks ready).2))
      else (s.withReady (ready ++ [id])).dataPass n := by
  simp only [dataPass, withReady, hl]
  rfl

/-- The data pass over the part `rest` of the ready list, after `skipped` went to the back. -/
theorem dataPass_spec (s : Shared) (hq : s.queues.WF) (rest skipped : List Nat)
    (hready : s.queues.ready = skipped ++ rest) (hskip : ∀ j ∈ skipped, s.Blocked j) :
    ((s.withReady (rest ++ skipped)).dataPass rest.length = (s, none) ∧
        ∀ j ∈ s.queues.ready, s.Blocked j) ∨
      ∃ id chunk chunks before later, s.queues.ready = before ++ id :: later ∧
        (∀ j ∈ before, s.Blocked j) ∧ s.queues.chunksOf id = chunk :: chunks ∧
        s.queues.eligible (s.send id) chunk = true ∧
        (s.withReady (rest ++ skipped)).dataPass rest.length =
          ((s.dispatch id chunk chunks (later ++ before)).1,
            some (.frame (s.dispatch id chunk chunks (later ++ before)).2)) := by
  induction rest generalizing skipped with
  | nil =>
    have hr : skipped = s.queues.ready := by rw [hready, List.append_nil]
    refine .inl ⟨?_, hr ▸ hskip⟩
    simp only [withReady, List.nil_append, List.length_nil, dataPass, hr]
  | cons id rest ih =>
    have hmem : id ∈ s.queues.ready := by rw [hready]; simp
    cases hc : s.queues.chunksOf id with
    | nil => exact absurd hc ((hq.ready_iff id).mp hmem)
    | cons chunk chunks =>
      have hstep := dataPass_cons s id rest.length (rest ++ skipped) chunk chunks
        (WriterQueues.lookup_of_chunksOf hc)
      rw [List.cons_append, List.length_cons, hstep]
      cases hel : s.queues.eligible (s.send id) chunk with
      | true => exact .inr ⟨id, chunk, chunks, skipped, rest, hready, hskip, hc, hel, rfl⟩
      | false =>
        have hskip' : ∀ j ∈ skipped ++ [id], s.Blocked j := by
          intro j hj
          rcases List.mem_append.mp hj with hj | hj
          · exact hskip j hj
          · rw [List.mem_singleton.mp hj]
            intro c hcm
            rw [hc] at hcm
            cases hcm
            exact hel
        have hi := ih (skipped ++ [id]) (by rw [hready]; simp) hskip'
        rw [← List.append_assoc] at hi
        simpa only [Bool.false_eq_true, if_false] using hi

theorem closeTurn_step (s : Shared) (hclosing : s.queues.closing = true)
    (hdrain : s.sender.cut = true ∨ s.queues.control = [] ∧ ∀ id, s.queues.chunksOf id = []) :
    (s.closeTurn.2 = .finished ∧ SendStep l s.sender [] s.closeTurn.1.sender) ∨
      ∃ f, s.closeTurn.2 = .frame f ∧ SendStep l s.sender [.emitted f] s.closeTurn.1.sender := by
  unfold closeTurn
  cases hf : s.queues.closeFrame with
  | none =>
    have ht : s.queues.takeCloseFrame = (s.queues, none) := by simp [WriterQueues.takeCloseFrame, hf]
    rw [ht]
    exact .inl ⟨rfl, .quiet _ [] (by simp)⟩
  | some g =>
    obtain ⟨f, ht⟩ : ∃ f, s.queues.takeCloseFrame = ({ s.queues with closeFrame := none }, some f) := by
      unfold WriterQueues.takeCloseFrame
      rw [hf]
      cases g <;> exact ⟨_, rfl⟩
    have hsome : s.sender.queues.takeCloseFrame.2 = some f := congrArg Prod.snd ht
    rw [ht]
    exact .inr ⟨f, rfl, .closeFrame s.sender f hclosing hdrain hsome⟩

/-- The data part of a turn: a data frame, the end of the drain, or no change but the turn bit. -/
theorem dataTurn_step (s : Shared) (hq : s.queues.WF) (hcut : s.sender.cut = false)
    (hturn : s.queues.control = [] ∨ s.queues.controlTurn = false ∧ s.queues.urgent = false) :
    (∃ f, s.dataTurn.2 = .frame f ∧ SendStep l s.sender [.emitted f] s.dataTurn.1.sender) ∨
      (∀ f, s.dataTurn.2 ≠ .frame f) ∧ (∀ m, s.dataTurn.2 ≠ .panicked m) ∧
        SendStep l s.sender [] s.dataTurn.1.sender := by
  have hself : s.withReady (s.queues.ready ++ []) = s := by
    simp [withReady]
  unfold dataTurn
  have hspec := dataPass_spec s hq s.queues.ready [] rfl (by simp)
  rw [hself] at hspec
  rcases hspec with ⟨hnone, hblocked⟩ | ⟨id, chunk, chunks, before, later, hready, hskip, hc, hel, hsome⟩
  · rw [hnone]
    simp only
    cases ht : s.queues.controlTurn with
    | false =>
      simp only [Bool.not_false, if_true]
      exact .inr ⟨by simp, by simp, .turn s.sender⟩
    | true =>
      simp only [Bool.not_true, Bool.false_eq_true, if_false]
      have hctl : s.queues.control = [] := by
        rcases hturn with h | ⟨h, -⟩
        · exact h
        · rw [ht] at h
          cases h
      by_cases hcl : (s.queues.closing && s.queues.byStream.entries.isEmpty) = true
      · rw [if_pos hcl]
        obtain ⟨hclosing, hempty⟩ := Bool.and_eq_true_iff.mp hcl
        rcases s.closeTurn_step hclosing
          (.inr ⟨hctl, WriterQueues.chunksOf_of_isEmpty hempty⟩) with ⟨he, hs⟩ | ⟨f, he, hs⟩
        · exact .inr ⟨by simp [he], by simp [he], hs⟩
        · exact .inl ⟨f, he, hs⟩
      · rw [if_neg hcl]
        exact .inr ⟨by simp, by simp, .quiet _ [] (by simp)⟩
  · rw [hsome]
    exact .inl ⟨_, rfl, .data s.sender id chunk chunks before later hcut hturn hready hskip hc hel⟩

theorem streamUpdate_sender (s s' : Shared) (id : Nat) (f : Frame) (h : s.streamUpdate id = some (s', f)) :
    s'.sender = s.sender ∧ ∃ maximum, f = .maxStreamData (.expect id) maximum := by
  unfold streamUpdate at h
  simp only at h
  split_ifs at h
  cases hu : (s.inbox.recv id).receiveWindow.update with
  | mk w o =>
    rw [hu] at h
    cases o with
    | none => cases h
    | some maximum =>
      cases h
      exact ⟨rfl, maximum, rfl⟩

theorem controlPass_step (s : Shared) (hv : s.sender.WF l) (order : List Nat)
    (horder : ∀ id ∈ order, id ∈ s.queues.receiveWindows) (hcut : s.sender.cut = false) :
    (s.controlPass order = none ∧ s.queues.control = []) ∨
      ∃ s' f, s.controlPass order = some (s', f) ∧ SendStep l s.sender [.emitted f] s'.sender := by
  unfold controlPass
  cases hc : s.queues.control with
  | cons f control => exact .inr ⟨_, f, rfl, .pop s.sender f control hcut hc⟩
  | nil =>
    simp only
    cases hu : s.inbox.receiveWindow.update with
    | mk w o =>
      cases o with
      | some maximum => exact .inr ⟨_, _, rfl, .grant s.sender _ hcut hc trivial⟩
      | none =>
        cases hfs : order.findSome? s.streamUpdate with
        | none => exact .inl ⟨rfl, trivial⟩
        | some r =>
          obtain ⟨s', f⟩ := r
          obtain ⟨id, hid, hs⟩ := List.exists_of_findSome?_eq_some hfs
          obtain ⟨hsend, maximum, rfl⟩ := streamUpdate_sender s s' id f hs
          have hm := horder id hid
          have hop : s.ids.Opened id := hv.opened id (hv.windows ▸ hm)
          have hg : (Frame.maxStreamData (.expect id) maximum).Grants s.queues.receiveWindows := by
            rw [Frame.Grants, VarInt.expect_intoInner _ (hop.le hv.ids)]
            exact hm
          refine .inr ⟨_, _, rfl, ?_⟩
          have hstep := SendStep.grant (l := l) s.sender _ hcut hc hg
          rw [← hsend] at hstep ⊢
          exact hstep

/-- A turn of `next_frame` is a step of the sender, and it does not panic. -/
theorem nextFrame_step (s : Shared) (hv : s.sender.WF l) (order : List Nat)
    (horder : ∀ id ∈ order, id ∈ s.queues.receiveWindows) :
    (∃ f, (s.nextFrame order).2 = .frame f ∧ SendStep l s.sender [.emitted f] (s.nextFrame order).1.sender) ∨
      (∀ f, (s.nextFrame order).2 ≠ .frame f) ∧ (∀ m, (s.nextFrame order).2 ≠ .panicked m) ∧
        SendStep l s.sender [] (s.nextFrame order).1.sender := by
  unfold nextFrame
  by_cases hcl : (s.queues.closing && !s.queues.gracefulClose) = true
  · rw [if_pos hcl]
    rcases s.closeTurn_step (l := l) (Bool.and_eq_true_iff.mp hcl).1 (.inl hcl) with ⟨he, hs⟩ | ⟨f, he, hs⟩
    · exact .inr ⟨by simp [he], by simp [he], hs⟩
    · exact .inl ⟨f, he, hs⟩
  rw [if_neg hcl]
  have hcut : s.sender.cut = false := Bool.eq_false_of_not_eq_true hcl
  by_cases ht : (s.queues.controlTurn || s.queues.urgent) = true
  · rw [if_pos ht]
    rcases s.controlPass_step hv order horder hcut with ⟨hn, hc⟩ | ⟨s', f, hs, hstep⟩
    · rw [hn]
      exact s.dataTurn_step hv.queues hcut (.inl hc)
    · rw [hs]
      exact .inl ⟨f, rfl, hstep⟩
  · rw [if_neg ht]
    obtain ⟨h1, h2⟩ := Bool.or_eq_false_iff.mp (Bool.eq_false_of_not_eq_true ht)
    exact s.dataTurn_step hv.queues hcut (.inr ⟨h1, h2⟩)

theorem onRemoteStreamFrame_sender (s : Shared) (id : Nat) (payload : Bytes) (fin : Bool) :
    (s.onRemoteStreamFrame id payload fin).1.sender = s.sender := by
  obtain ⟨inbox, hs⟩ := s.onRemoteStreamFrame_inbox id payload fin
  rw [hs]
  rfl

theorem onRemoteReset_sender (s : Shared) (id errorCode : Nat) :
    (s.onRemoteReset id errorCode).1.sender = s.sender := by
  obtain ⟨inbox, hs⟩ := s.onRemoteReset_inbox id errorCode
  rw [hs]
  rfl

theorem onRemoteOpen_step (s : Shared) (streamId : VarInt) :
    (∃ error, (s.onRemoteOpen streamId.intoInner).2 = .error error ∧
        SendStep l s.sender [.rejected error] (s.onRemoteOpen streamId.intoInner).1.sender) ∨
      (s.onRemoteOpen streamId.intoInner).2 = .ok () ∧
        SendStep l s.sender [.accepted (.openStream streamId)]
          (s.onRemoteOpen streamId.intoInner).1.sender := by
  have hquiet : ∀ error, SendStep l s.sender [.rejected error] s.sender := fun error =>
    .quiet _ _ (by simp [Event.Quiet])
  unfold onRemoteOpen
  by_cases hpar : streamId.intoInner % 2 = s.localParity
  · rw [if_pos hpar]
    exact .inl ⟨_, rfl, hquiet _⟩
  rw [if_neg hpar]
  by_cases hid : streamId.intoInner ≠ s.nextRemoteStreamId
  · rw [if_pos hid]
    exact .inl ⟨_, rfl, hquiet _⟩
  rw [if_neg hid]
  have hnext : streamId.intoInner = s.sender.ids.nextRemote := not_not.mp hid
  have hle : s.sender.ids.nextRemote ≤ varIntMax := hnext ▸ streamId.le_max
  have hopen := fun log => SendStep.openRemote (l := l) s.sender log hle
  rw [← hnext, VarInt.expect_inner] at hopen
  cases s.openStreams.tryAcquire 1 with
  | none => exact .inl ⟨_, rfl, hquiet _⟩
  | some openStreams =>
    simp only
    by_cases hmem : streamId.intoInner ∈ s.streams
    · rw [if_pos hmem]
      exact .inl ⟨_, rfl, hquiet _⟩
    rw [if_neg hmem]
    have htake : s.sender.ids.takeRemote = ⟨s.localParity, s.nextLocalStreamId, streamId.intoInner + 2⟩ := by
      rw [hnext]; rfl
    rw [htake] at hopen
    split_ifs with hfull
    · exact .inl ⟨_, rfl, hopen _ (.inr ⟨_, rfl⟩)⟩
    · exact .inr ⟨rfl, hopen _ (.inl rfl)⟩

/-- An incoming frame is a step of the sender, accepted or not. -/
theorem handleFrame_step (s : Shared) (hv : s.sender.WF l) (f : Frame) :
    (∃ error, (s.handleFrame f).2 = .error error ∧
        SendStep l s.sender [.rejected error] (s.handleFrame f).1.sender) ∨
      ∃ handled, (s.handleFrame f).2 = .ok handled ∧
        SendStep l s.sender (s.acceptedEvents f) (s.handleFrame f).1.sender := by
  have hreject : ∀ error, SendStep l s.sender [.rejected error] s.sender := fun error =>
    .quiet _ _ (by simp [Event.Quiet])
  unfold handleFrame
  by_cases hfirst : (!f.isSettings && !s.queues.peerSettings) = true
  · rw [if_pos hfirst]
    exact .inl ⟨_, rfl, hreject _⟩
  rw [if_neg hfirst]
  have hpeer : f.isSettings = false → s.queues.peerSettings = true := by
    intro hf
    simpa [hf] using hfirst
  cases f with
  | settings data streamData frameSize =>
    simp only
    split_ifs with hbad
    · exact .inl ⟨_, rfl, hreject _⟩
    · simp only [Bool.or_eq_true, decide_eq_true_eq, not_or, Bool.not_eq_true, not_lt] at hbad
      exact .inr ⟨_, rfl, .settings s.sender data streamData frameSize hbad.1.1 hbad.1.2 hbad.2⟩
  | maxData maximum => exact .inr ⟨_, rfl, .maxData s.sender maximum (hpeer rfl)⟩
  | maxStreamData streamId maximum =>
    simp only
    split_ifs with hm hu
    · exact .inr ⟨_, rfl, .maxStreamData s.sender streamId maximum (hpeer rfl) hm⟩
    · exact .inl ⟨_, rfl, hreject _⟩
    · have ho : s.ids.Opened streamId.intoInner :=
        (s.unopened_eq_false _).mp (Bool.eq_false_of_not_eq_true hu)
      exact .inr ⟨_, rfl, .lateCredit s.sender streamId maximum ho hm⟩
  | stream streamId fin payload =>
    have hs := s.onRemoteStreamFrame_sender streamId.intoInner payload fin
    simp only
    cases hr : s.onRemoteStreamFrame streamId.intoInner payload fin with
    | mk s' r =>
      rw [hr] at hs
      cases r with
      | error error => exact .inl ⟨_, rfl, by rw [hs]; exact hreject _⟩
      | ok todo => exact .inr ⟨_, rfl, by rw [hs]; exact .quiet _ _ (by simp [acceptedEvents, Event.Quiet])⟩
  | resetStream streamId errorCode =>
    have hs := s.onRemoteReset_sender streamId.intoInner errorCode.intoInner
    simp only
    cases hr : s.onRemoteReset streamId.intoInner errorCode.intoInner with
    | mk s' r =>
      rw [hr] at hs
      cases r with
      | error error => exact .inl ⟨_, rfl, by rw [hs]; exact hreject _⟩
      | ok todo => exact .inr ⟨_, rfl, by rw [hs]; exact .quiet _ _ (by simp [acceptedEvents, Event.Quiet])⟩
  | openStream streamId =>
    have hs := s.onRemoteOpen_step (l := l) streamId
    simp only
    cases hr : s.onRemoteOpen streamId.intoInner with
    | mk s' r =>
      rw [hr] at hs
      rcases hs with ⟨error, rfl, hstep⟩ | ⟨rfl, hstep⟩
      · exact .inl ⟨_, rfl, hstep⟩
      · exact .inr ⟨_, rfl, hstep⟩
  | stopSending streamId =>
    simp only
    split_ifs with hm hu
    · have hid := hv.opened _ hm
      rcases resetStream_step hv streamId.intoInner 0 hid with ⟨error, he⟩ | ⟨hok, hstep⟩
      · rw [he]
        exact .inl ⟨_, rfl, hreject _⟩
      · cases hr : s.resetStream streamId.intoInner 0 with
        | mk s' r =>
          rw [hr] at hok hstep
          simp only at hok
          subst hok
          refine .inr ⟨_, rfl, hstep _ (.inr ?_)⟩
          rw [VarInt.expect_inner]
          exact if_pos hm
    · exact .inl ⟨_, rfl, hreject _⟩
    · have ho : s.ids.Opened streamId.intoInner :=
        (s.unopened_eq_false _).mp (Bool.eq_false_of_not_eq_true hu)
      refine .inr ⟨_, rfl, ?_⟩
      have hstep := SendStep.stopRetired (l := l) s.sender streamId.intoInner ho hm
      rw [VarInt.expect_inner] at hstep
      rw [show s.acceptedEvents (.stopSending streamId) = [.accepted (.stopSending streamId)] from if_neg hm]
      exact hstep
  | ping => exact .inr ⟨_, rfl, .quiet _ _ (by simp [acceptedEvents, Event.Quiet])⟩
  | connectionClose errorCode reason =>
    exact .inr ⟨_, rfl, s.markClosed_sender _ (by simp [acceptedEvents, Event.Quiet])⟩

end Shared
end Muxtls
