import Muxtls.Connection.Core
import Muxtls.Sender.Refine

namespace Muxtls
namespace Shared

variable (s : Shared)

/-- A stream window that is registered and still takes data has an update to send. -/
def streamPending (id : Nat) : Bool :=
  !(s.inbox.recv id).recvTerminal && !(s.inbox.recv id).recvDiscarded &&
    (s.inbox.recv id).receiveWindow.needsUpdate

/-- A credit update is pending: of the connection window or of a registered stream window. -/
def updatePending : Bool :=
  s.inbox.receiveWindow.needsUpdate || s.queues.receiveWindows.any s.streamPending

/-- The control part of a turn has nothing to send. -/
def controlIdle : Prop := s.queues.control = [] ∧ s.updatePending = false

/-- Everything one turn of `next_frame` can come to. -/
inductive Turns : Shared × Turn → Prop
  | cut (hcut : s.sender.cut = true) : Turns s.closeTurn
  | pop (f : Frame) (control : List Frame) (hcut : s.sender.cut = false) (hc : s.queues.control = f :: control)
    (ht : s.queues.controlTurn = true ∨ s.queues.urgent = true) :
    Turns ({ s with queues := { s.queues with control, controlTurn := false } }, .frame f)
  | grant (s' : Shared) (f : Frame) (hcut : s.sender.cut = false) (hc : s.queues.control = [])
    (ht : s.queues.controlTurn = true) (hp : s.updatePending = true) (hf : f.isCredit = true)
    (hs : s'.sender = s.sender.setQueues { s.queues with controlTurn := false }) : Turns (s', .frame f)
  | data (id : Nat) (chunk : OutboundChunk) (chunks : List OutboundChunk) (before later : List Nat)
    (hcut : s.sender.cut = false)
    (ht : s.queues.controlTurn = false ∧ s.queues.urgent = false ∨ s.queues.controlTurn = true ∧ s.controlIdle)
    (hready : s.queues.ready = before ++ id :: later) (hskip : ∀ j ∈ before, s.Blocked j)
    (hchunk : s.queues.chunksOf id = chunk :: chunks) (hel : s.queues.eligible (s.send id) chunk = true) :
    Turns ((s.dispatch id chunk chunks (later ++ before)).1,
      .frame (s.dispatch id chunk chunks (later ++ before)).2)
  | again (hcut : s.sender.cut = false) (ht : s.queues.controlTurn = false) (hu : s.queues.urgent = false)
    (hblocked : ∀ j ∈ s.queues.ready, s.Blocked j) :
    Turns ({ s with queues := { s.queues with controlTurn := true } }, .again)
  | drained (hcut : s.sender.cut = false) (ht : s.queues.controlTurn = true) (hidle : s.controlIdle)
    (hclosing : s.queues.closing = true) (hempty : s.queues.byStream.entries = []) : Turns s.closeTurn
  | wait (hcut : s.sender.cut = false) (ht : s.queues.controlTurn = true) (hidle : s.controlIdle)
    (hblocked : ∀ j ∈ s.queues.ready, s.Blocked j) : Turns (s, .wait)

theorem streamUpdate_eq_none (id : Nat) : s.streamUpdate id = none ↔ s.streamPending id = false := by
  unfold streamUpdate streamPending
  rcases (s.inbox.recv id).receiveWindow.update_cases with ⟨hn, hu⟩ | ⟨hn, -, maximum, -, hu⟩ <;>
    cases ht : (s.inbox.recv id).recvTerminal <;> cases hd : (s.inbox.recv id).recvDiscarded <;>
      simp [hn, hu, ht, hd]

/-- The control pass writes to the inbox, the control queue and the turn bit only. -/
theorem controlPass_frame (order : List Nat) (r : Shared × Frame) (h : s.controlPass order = some r) :
    ∃ inbox control, r.1 = { s with inbox, queues := { s.queues with control, controlTurn := false } } := by
  unfold controlPass at h
  split at h
  · cases h
    exact ⟨_, _, rfl⟩
  · split at h
    · cases h
      exact ⟨_, _, rfl⟩
    · obtain ⟨⟨s', f⟩, hs, rfl⟩ := Option.map_eq_some_iff.mp h
      obtain ⟨id, -, hu⟩ := List.exists_of_findSome?_eq_some hs
      unfold streamUpdate at hu
      simp only at hu
      split_ifs at hu
      split at hu
      · cases hu
      · cases hu
        exact ⟨_, _, rfl⟩

/-- The control pass sends a queued frame, or a credit update if there is one, or nothing. -/
theorem controlPass_turns (order : List Nat) (horder : order.Perm s.queues.receiveWindows) :
    (s.controlPass order = none ∧ s.controlIdle) ∨
      (∃ f control, s.queues.control = f :: control ∧
        s.controlPass order = some ({ s with queues := { s.queues with control, controlTurn := false } }, f)) ∨
      ∃ s' f, s.controlPass order = some (s', f) ∧ s.queues.control = [] ∧ s.updatePending = true ∧
        f.isCredit = true ∧ s'.sender = s.sender.setQueues { s.queues with controlTurn := false } := by
  unfold controlPass controlIdle updatePending
  cases hc : s.queues.control with
  | cons f control => exact .inr (.inl ⟨f, control, rfl, rfl⟩)
  | nil =>
    have hany : s.queues.receiveWindows.any s.streamPending = order.any s.streamPending := by
      rw [Bool.eq_iff_iff, List.any_eq_true, List.any_eq_true]
      simp only [horder.mem_iff]
    rw [hany]
    rcases s.inbox.receiveWindow.update_cases with ⟨hn, hu⟩ | ⟨hn, -, maximum, -, hu⟩
    · rw [hu, hn]
      cases hf : order.findSome? s.streamUpdate with
      | none =>
        refine .inl ⟨rfl, rfl, ?_⟩
        rw [List.findSome?_eq_none_iff] at hf
        simpa [← streamUpdate_eq_none] using hf
      | some r =>
        obtain ⟨s', f⟩ := r
        obtain ⟨id, hid, hs⟩ := List.exists_of_findSome?_eq_some hf
        obtain ⟨hsend, maximum, rfl⟩ := streamUpdate_sender s s' id f hs
        have hpend : s.streamPending id = true := by
          by_contra hno
          rw [Bool.not_eq_true, ← streamUpdate_eq_none, hs] at hno
          cases hno
        have hq : s'.queues = s.queues := congrArg Sender.queues hsend
        refine .inr (.inr ⟨_, _, rfl, rfl, ?_, rfl, ?_⟩)
        · simpa using ⟨id, hid, hpend⟩
        · rw [← hsend, ← hq]
          rfl
    · rw [hu, hn]
      exact .inr (.inr ⟨_, _, rfl, rfl, rfl, rfl, rfl⟩)

/-- The data part of a turn. -/
theorem dataTurn_turns (hq : s.queues.WF) (hcut : s.sender.cut = false)
    (ht : s.queues.controlTurn = false ∧ s.queues.urgent = false ∨ s.queues.controlTurn = true ∧ s.controlIdle) :
    s.Turns s.dataTurn := by
  have hself : s.withReady (s.queues.ready ++ []) = s := by
    simp [withReady]
  have hspec := dataPass_spec s hq s.queues.ready [] rfl (by simp)
  rw [hself] at hspec
  unfold dataTurn
  rcases hspec with ⟨hnone, hblocked⟩ | ⟨id, chunk, chunks, before, later, hready, hskip, hc, hel, hsome⟩
  · rw [hnone]
    simp only
    rcases ht with ⟨ht, hu⟩ | ⟨ht, hidle⟩
    · rw [ht]
      exact .again hcut ht hu hblocked
    · rw [ht]
      simp only [Bool.not_true, Bool.false_eq_true, if_false]
      by_cases hcl : (s.queues.closing && s.queues.byStream.entries.isEmpty) = true
      · rw [if_pos hcl]
        obtain ⟨hclosing, hempty⟩ := Bool.and_eq_true_iff.mp hcl
        exact .drained hcut ht hidle hclosing (List.isEmpty_iff.mp hempty)
      · rw [if_neg hcl]
        exact .wait hcut ht hidle hblocked
  · rw [hsome]
    exact .data id chunk chunks before later hcut ht hready hskip hc hel

theorem nextFrame_turns (hq : s.queues.WF) (order : List Nat) (horder : order.Perm s.queues.receiveWindows) :
    s.Turns (s.nextFrame order) := by
  unfold nextFrame
  by_cases hcl : (s.queues.closing && !s.queues.gracefulClose) = true
  · rw [if_pos hcl]
    exact .cut hcl
  rw [if_neg hcl]
  have hcut : s.sender.cut = false := Bool.eq_false_of_not_eq_true hcl
  by_cases ht : (s.queues.controlTurn || s.queues.urgent) = true
  · rw [if_pos ht]
    have hor := Bool.or_eq_true_iff.mp ht
    -- an urgent frame stands in the control queue, so an empty one means it is the control turn
    have hturn : s.queues.control = [] → s.queues.controlTurn = true := by
      intro hc
      rcases hor with h | h
      · exact h
      · simp [WriterQueues.urgent, hc] at h
    rcases s.controlPass_turns order horder with
      ⟨hn, hidle⟩ | ⟨f, control, hc, hp⟩ | ⟨s', f, hp, hc, hpend, hf, hs⟩
    · rw [hn]
      exact s.dataTurn_turns hq hcut (.inr ⟨hturn hidle.1, hidle⟩)
    · rw [hp]
      exact .pop f control hcut hc hor
    · rw [hp]
      exact .grant s' f hcut hc (hturn hc) hpend hf hs
  · rw [if_neg ht]
    exact s.dataTurn_turns hq hcut (.inl (Bool.or_eq_false_iff.mp (Bool.eq_false_of_not_eq_true ht)))

end Shared
end Muxtls
