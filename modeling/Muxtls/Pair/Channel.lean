import Muxtls.Pair.System
import Muxtls.Connection.Log
import Muxtls.Ledger.Tasks

namespace Muxtls
namespace Pair

variable {limits : Bool → Limits} {p p' : Pair} {log evs : List (Bool × Event)}

def sideEvent (side : Bool) (x : Bool × Event) : Option Event := if x.1 = side then some x.2 else none

/-- What one endpoint of the pair has logged. -/
def sideLog (side : Bool) (log : List (Bool × Event)) : List Event := log.filterMap (sideEvent side)

theorem sideLog_append (side : Bool) (log log' : List (Bool × Event)) :
    sideLog side (log ++ log') = sideLog side log ++ sideLog side log' :=
  List.filterMap_append

theorem sideLog_self (side : Bool) (evs : List Event) : sideLog side (evs.map (side, ·)) = evs := by
  simp [sideLog, sideEvent, List.filterMap_map, Function.comp_def]

theorem sideLog_other {side other : Bool} (h : other ≠ side) (evs : List Event) :
    sideLog side (evs.map (other, ·)) = [] := by
  simp [sideLog, sideEvent, List.filterMap_map, Function.comp_def, h]

/-- The two kinds of moves. -/
inductive Moves (p : Pair) : List (Bool × Event) → Pair → Prop
  | act (side : Bool) (a : Act) (e : Endpoint) (evs : List Event) (ha : a.isLocal = true)
    (h : (p.ep side).step a = some (e, evs)) : Moves p (evs.map (side, ·)) (p.after side e evs)
  | deliver (side : Bool) (bytes : Bytes) (rest : List Bytes) (e : Endpoint) (evs : List Event)
    (hc : p.chan side = bytes :: rest) (h : (p.ep side).step (.receive bytes) = some (e, evs)) :
    Moves p (evs.map (side, ·)) ({ p with chan := Function.update p.chan side rest }.after side e evs)

theorem step_moves {m : Move} (h : p.step m = some (p', evs)) : p.Moves evs p' := by
  cases m with
  | act side a =>
    simp only [step] at h
    split_ifs at h with ha
    obtain ⟨⟨e, evs'⟩, he, heq⟩ := Option.map_eq_some_iff.mp h
    cases heq
    exact .act side a e evs' ha he
  | deliver side =>
    simp only [step] at h
    cases hc : p.chan side with
    | nil =>
      rw [hc] at h
      cases h
    | cons bytes rest =>
      rw [hc] at h
      obtain ⟨⟨e, evs'⟩, he, heq⟩ := Option.map_eq_some_iff.mp h
      cases heq
      exact .deliver side bytes rest e evs' hc he

/-- Every move is a step of one endpoint. -/
theorem Moves.ep (h : p.Moves evs p') :
    ∃ side a e evs', evs = evs'.map (side, ·) ∧ (p.ep side).step a = some (e, evs') ∧
      p'.ep = Function.update p.ep side e ∧ ∀ bytes, a = .receive bytes →
      ∃ rest, p.chan side = bytes :: rest := by
  cases h with
  | act side a e evs' ha h =>
    refine ⟨side, a, e, evs', rfl, h, rfl, ?_⟩
    rintro bytes rfl
    cases ha
  | deliver side bytes rest e evs' hc h =>
    refine ⟨side, .receive bytes, e, evs', rfl, h, rfl, ?_⟩
    intro bytes' hb
    cases hb
    exact ⟨rest, hc⟩

theorem connect_ok (h : connect limits = .ok p) (side : Bool) :
    Endpoint.connect (limits side) side = .ok (p.ep side) ∧ p.chan side = [] := by
  unfold connect at h
  split at h
  · rename_i client server hc hs
    cases h
    cases side
    · exact ⟨hs, rfl⟩
    · exact ⟨hc, rfl⟩
  · cases h
  · cases h

theorem ok_of_toOption {ε α : Type*} {r : Except ε α} {x : α} (h : r.toOption = some x) : r = .ok x := by
  cases r with
  | error error => cases h
  | ok y =>
    cases h
    rfl

/-- Each endpoint of the pair follows its own runs. -/
theorem reach_endpoint (h : (machine limits).Reach p log) (side : Bool) :
    (Endpoint.machine (limits side) side).Reach (p.ep side) (sideLog side log) := by
  refine h.simulate (N := Endpoint.machine (limits side) side) (fun p => p.ep side) (sideEvent side) ?_ ?_
  · intro p hp
    exact (connect_ok hp side).1
  · rintro p tr evs p' - - ⟨m, hm⟩
    obtain ⟨s, a, e, evs', rfl, he, hep, -⟩ := (step_moves hm).ep
    change (Endpoint.machine (limits side) side).Steps (p.ep side) (sideLog side _) (p'.ep side)
    by_cases hs : s = side
    · subst hs
      rw [sideLog_self, hep, Function.update_self]
      exact .single ⟨a, he⟩
    · rw [sideLog_other hs, hep, Function.update_of_ne (Ne.symm hs)]
      exact .refl _

end Pair

namespace Endpoint

variable {l : Limits} {isClient : Bool} {e e' : Endpoint} {log evs : List Event}

/-- A frame that was handed to the transport can be decoded at the other end. -/
def Sendable (f : Frame) : Prop := f.encode [] = .ok f.wire

theorem sendable_of_step (a : Act) (h : e.step a = some (e', evs)) : ∀ f ∈ sentFrames evs, Sendable f := by
  intro f hf
  obtain ⟨x, hx, hs⟩ := List.mem_filterMap.mp hf
  cases x with
  | sent g =>
    cases hs
    obtain ⟨-, -, -, bytes, hb, -⟩ := step_logs a h _ hx
    unfold Sendable Frame.wire
    rw [hb]
  | _ => cases hs

theorem wire_of_sent (evs : List Event) : evs.filterMap Event.wire = (sentFrames evs).map Frame.wire := by
  rw [sentFrames, List.map_filterMap]
  congr 1
  funext x
  cases x <;> rfl

/-- Only a received item makes a frame accepted. -/
theorem accepted_of_step (a : Act) (h : e.step a = some (e', evs)) (ha : ∀ bytes, a ≠ .receive bytes) :
    accepted evs = [] := by
  rw [accepted, List.filterMap_eq_nil_iff]
  intro x hx
  have hl := step_logs a h x hx
  cases x with
  | accepted f =>
    obtain ⟨bytes, rest, rfl, -⟩ := hl
    exact absurd rfl (ha bytes)
  | _ => rfl

/-- A reader that has left its loop does not come back. -/
theorem readerDone_of_step (a : Act) (h : e.step a = some (e', evs)) (hd : e'.readerDone = false) :
    e.readerDone = false := by
  have hs : (Ledger.machine e.shared.limits true).Steps e.ledger evs e'.ledger := e.ledger_step a e' evs h
  exact Ledger.readerDone_steps hs hd

/-- The reader takes an item only while it runs. -/
theorem receive_enabled {bytes : Bytes} (h : e.step (.receive bytes) = some (e', evs)) :
    e.readerDone = false ∧ e.shared.terminated = false := by
  simp only [step] at h
  split_ifs at h with hr
  simp only [reading, Bool.and_eq_true, Bool.not_eq_true'] at hr
  exact ⟨hr.1.1, hr.2⟩

/-- What the reader does with the bytes of a frame: it accepts the frame, or stops. -/
theorem receive_wire {f : Frame} (hf : Sendable f) (h : e.step (.receive f.wire) = some (e', evs)) :
    e.readerDone = false ∧ sentFrames evs = [] ∧
      (accepted evs = [f] ∨ accepted evs = [] ∧ e'.readerDone = true) := by
  obtain ⟨hread, -⟩ := receive_enabled h
  simp only [step] at h
  split_ifs at h with hr
  have hacc : ∀ g, accepted (e.shared.acceptedEvents g) = [g] ∧ sentFrames (e.shared.acceptedEvents g) = [] := by
    intro g
    unfold Shared.acceptedEvents
    split
    · split_ifs <;> exact ⟨rfl, rfl⟩
    · exact ⟨rfl, rfl⟩
  have hdec := f.decode_encode f.wire hf
  have hcases := e.receive_cases f.wire
  rw [Option.some.inj h] at hcases
  refine ⟨hread, ?_⟩
  generalize hpair : (e', evs) = r at hcases
  cases hcases with
  | dropped log ops hlog hops hlen =>
    cases hpair
    rcases hlog with rfl | ⟨error, rfl⟩ <;> exact ⟨rfl, .inr ⟨rfl, rfl⟩⟩
  | refused g rest s error reason hg =>
    cases hpair
    exact ⟨rfl, .inr ⟨rfl, rfl⟩⟩
  | more g rest s todo hg =>
    rw [hdec] at hg
    cases hg
    cases hpair
    exact ⟨(hacc f).2, .inl (hacc f).1⟩
  | stop g rest s hg =>
    rw [hdec] at hg
    cases hg
    cases hpair
    exact ⟨(hacc f).2, .inl (hacc f).1⟩

end Endpoint

namespace Pair

variable {limits : Bool → Limits} {p p' : Pair} {log evs : List (Bool × Event)} {side : Bool}

/-- What was sent to a side is what its reader has dealt with, followed by what is in flight. A reader
that runs has accepted all it has dealt with. -/
structure Carries (p : Pair) (log : List (Bool × Event)) (side : Bool) (dealt inflight : List Frame) : Prop where
  sent : sentFrames (sideLog (!side) log) = dealt ++ inflight
  chan : p.chan side = inflight.map Frame.wire
  sendable : ∀ f ∈ inflight, Endpoint.Sendable f
  accepted_le : accepted (sideLog side log) <+: dealt
  accepted_eq : (p.ep side).readerDone = false → accepted (sideLog side log) = dealt

/-- A local step of the receiving endpoint. -/
theorem Carries.recvAct {dealt inflight : List Frame} (h : p.Carries log side dealt inflight) (a : Act) (e : Endpoint)
    (evs : List Event) (ha : a.isLocal = true) (he : (p.ep side).step a = some (e, evs)) :
    (p.after side e evs).Carries (log ++ evs.map (side, ·)) side dealt inflight := by
  have hother : ∀ bytes, a ≠ .receive bytes := by
    rintro bytes rfl
    cases ha
  have hacc := Endpoint.accepted_of_step a he hother
  have hlog : accepted (sideLog side (log ++ evs.map (side, ·))) = accepted (sideLog side log) := by
    rw [sideLog_append, sideLog_self, accepted_append, hacc, List.append_nil]
  exact
    { sent := by
        rw [sideLog_append, sideLog_other (by simp), List.append_nil]
        exact h.sent
      chan := by
        rw [← h.chan]
        exact Function.update_of_ne (by simp) _ _
      sendable := h.sendable
      accepted_le := hlog ▸ h.accepted_le
      accepted_eq := by
        intro hd
        rw [hlog]
        refine h.accepted_eq (Endpoint.readerDone_of_step a he ?_)
        simpa only [after, Function.update_self] using hd }

/-- Any step of the sending endpoint. -/
theorem Carries.sendAct {dealt inflight : List Frame} (h : p.Carries log side dealt inflight) (a : Act) (e : Endpoint)
    (evs : List Event) (chan : Bool → List Bytes) (hchan : chan side = p.chan side)
    (he : (p.ep (!side)).step a = some (e, evs)) :
    ({ p with chan := chan }.after (!side) e evs).Carries (log ++ evs.map (!side, ·)) side dealt
      (inflight ++ sentFrames evs) where
  sent := by
    rw [sideLog_append, sideLog_self, sentFrames_append, h.sent, List.append_assoc]
  chan := by
    simp only [after, Bool.not_not, Function.update_self]
    rw [hchan, h.chan, Endpoint.wire_of_sent, List.map_append]
  sendable := by
    intro f hf
    rcases List.mem_append.mp hf with hf | hf
    · exact h.sendable f hf
    · exact Endpoint.sendable_of_step a he f hf
  accepted_le := by
    rw [sideLog_append, sideLog_other (by simp), List.append_nil]
    exact h.accepted_le
  accepted_eq := by
    intro hd
    rw [sideLog_append, sideLog_other (by simp), List.append_nil]
    refine h.accepted_eq ?_
    simpa [after] using hd

/-- The oldest frame in flight is delivered. -/
theorem Carries.deliver {dealt inflight : List Frame} (h : p.Carries log side dealt inflight) (bytes : Bytes)
    (rest : List Bytes) (e : Endpoint) (evs : List Event) (hc : p.chan side = bytes :: rest)
    (he : (p.ep side).step (.receive bytes) = some (e, evs)) :
    ∃ f inflight', inflight = f :: inflight' ∧
      ({ p with chan := Function.update p.chan side rest }.after side e evs).Carries (log ++ evs.map (side, ·)) side
        (dealt ++ [f]) inflight' := by
  have hchan := h.chan
  rw [hc] at hchan
  cases inflight with
  | nil => cases hchan
  | cons f inflight =>
    obtain ⟨rfl, rfl⟩ := List.cons.inj hchan
    refine ⟨f, inflight, rfl, ?_⟩
    obtain ⟨hrun, -, hacc⟩ := Endpoint.receive_wire (h.sendable f List.mem_cons_self) he
    have heq := h.accepted_eq hrun
    have hlog : accepted (sideLog side (log ++ evs.map (side, ·))) = dealt ++ accepted evs := by
      rw [sideLog_append, sideLog_self, accepted_append, heq]
    exact
      { sent := by
          rw [sideLog_append, sideLog_other (by simp), List.append_nil,
            h.sent, List.append_assoc, List.singleton_append]
        chan := by simp [after]
        sendable := fun g hg => h.sendable g (List.mem_cons_of_mem _ hg)
        accepted_le := by
          rw [hlog]
          rcases hacc with hacc | ⟨hacc, -⟩
          · simp [hacc]
          · simp [hacc]
        accepted_eq := by
          intro hd
          rw [hlog]
          rcases hacc with hacc | ⟨-, hdone⟩
          · rw [hacc]
          · simp only [after, Function.update_self] at hd
            rw [hdone] at hd
            cases hd }

theorem reach_carries (h : (machine limits).Reach p log) (side : Bool) :
    ∃ dealt inflight, p.Carries log side dealt inflight := by
  refine h.invariant (fun p log => ∃ dealt inflight, p.Carries log side dealt inflight) ?_ ?_
  · intro p hp
    refine ⟨[], [], ⟨rfl, (connect_ok hp side).2, by simp, List.prefix_refl _, fun _ => rfl⟩⟩
  · rintro p tr evs p' - ⟨dealt, inflight, hc⟩ ⟨m, hm⟩
    cases step_moves hm with
    | act s a e evs' ha he =>
      by_cases hs : s = side
      · subst hs
        exact ⟨dealt, inflight, hc.recvAct a e evs' ha he⟩
      · obtain rfl : s = !side := by cases s <;> cases side <;> simp_all
        exact ⟨dealt, _, hc.sendAct a e evs' p.chan rfl he⟩
    | deliver s bytes rest e evs' hch he =>
      by_cases hs : s = side
      · subst hs
        obtain ⟨f, inflight', -, hd⟩ := hc.deliver bytes rest e evs' hch he
        exact ⟨_, _, hd⟩
      · obtain rfl : s = !side := by cases s <;> cases side <;> simp_all
        refine ⟨dealt, _, hc.sendAct _ e evs' _ ?_ he⟩
        exact Function.update_of_ne (by simp) _ _

/-- What a side has accepted is what the other side has emitted first, in order. -/
theorem accepted_le_emitted (h : (machine limits).Reach p log) (side : Bool) :
    accepted (sideLog side log) <+: emitted (sideLog (!side) log) := by
  obtain ⟨dealt, inflight, hc⟩ := reach_carries h side
  have hsent : accepted (sideLog side log) <+: sentFrames (sideLog (!side) log) := by
    rw [hc.sent]
    exact hc.accepted_le.trans (List.prefix_append _ _)
  have hw := (Ledger.reach_written (Endpoint.reach_ledger (reach_endpoint h (!side)))).sent_le
  exact hsent.trans ((List.prefix_append _ _).trans hw)

/-- The oldest item in flight to a running reader is the frame its peer emitted next. -/
theorem next_emitted (h : (machine limits).Reach p log) (hd : (p.ep side).readerDone = false) {bytes : Bytes}
    {rest : List Bytes} (hc : p.chan side = bytes :: rest) :
    ∃ f, bytes = f.wire ∧ Endpoint.Sendable f ∧
      accepted (sideLog side log) ++ [f] <+: emitted (sideLog (!side) log) := by
  obtain ⟨dealt, inflight, hcar⟩ := reach_carries h side
  have hchan := hcar.chan
  rw [hc] at hchan
  cases inflight with
  | nil => cases hchan
  | cons f inflight =>
    refine ⟨f, (List.cons.inj hchan).1, hcar.sendable f List.mem_cons_self, ?_⟩
    have hsent : accepted (sideLog side log) ++ [f] <+: sentFrames (sideLog (!side) log) := by
      rw [hcar.sent, hcar.accepted_eq hd]
      exact ⟨inflight, by simp⟩
    have hw := (Ledger.reach_written (Endpoint.reach_ledger (reach_endpoint h (!side)))).sent_le
    exact hsent.trans ((List.prefix_append _ _).trans hw)

theorem next_decoded (h : (machine limits).Reach p log) (hd : (p.ep side).readerDone = false) {bytes : Bytes}
    {rest : List Bytes} (hc : p.chan side = bytes :: rest) {f : Frame} {left : Bytes}
    (hdec : Frame.decode bytes = .ok (f, left)) :
    accepted (sideLog side log) ++ [f] <+: emitted (sideLog (!side) log) := by
  obtain ⟨g, rfl, hsend, hle⟩ := next_emitted h hd hc
  rw [g.decode_encode g.wire hsend] at hdec
  cases hdec
  exact hle

end Pair
end Muxtls
