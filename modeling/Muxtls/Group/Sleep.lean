import Muxtls.Connection.Group
import Muxtls.Group.Load

namespace Muxtls
namespace TaskGroup

variable {l : Limits} {isClient keepalive : Bool} {g g' : TaskGroup} {a : GroupAct} {log evs : List Event}
  {w : Watched TaskGroup GroupWaiter}

theorem moved_endpoint (g : TaskGroup) (a : GroupAct) : (g.moved a).endpoint = g.endpoint := by
  cases a with
  | terminated task => cases task <;> rfl
  | deadline =>
    simp only [moved]
    split_ifs <;> rfl
  | _ => rfl

/-- Only the writer itself takes its turns. -/
theorem performs_turn {order : List Nat} (h : g.performs a = some (.nextFrame order)) :
    a = .act (.nextFrame order) := by
  cases a with
  | act b =>
    cases h
    rfl
  | terminated task =>
    simp only [performs] at h
    split_ifs at h <;> cases task <;> cases h
  | deadline =>
    simp only [performs] at h
    split_ifs at h
    cases h
  | _ => cases h

theorem connect_ok (h : connect l isClient keepalive = .ok g) :
    Endpoint.connect l isClient = .ok g.endpoint ∧ g = { endpoint := g.endpoint, keepalive := keepalive } := by
  unfold connect at h
  cases hc : Endpoint.connect l isClient with
  | error error =>
    rw [hc] at h
    cases h
  | ok e =>
    rw [hc] at h
    cases h
    exact ⟨rfl, rfl⟩

/-- A step does to the handles and the tasks what its action says, and takes the step of the connection that the action
performs. -/
theorem step_cases (h : g.step a = some (g', evs)) :
    g.ready a = true ∧
      (g.performs a = none ∧ g' = g.moved a ∧ evs = [] ∨
        ∃ b e, g.performs a = some b ∧ g.endpoint.step b = some (e, evs) ∧
        g' = { g.moved a with endpoint := e }) := by
  unfold step at h
  split_ifs at h with hready
  refine ⟨hready, ?_⟩
  cases hp : g.performs a with
  | none =>
    rw [hp] at h
    cases h
    exact .inl ⟨rfl, rfl, rfl⟩
  | some b =>
    rw [hp] at h
    obtain ⟨⟨e, evs'⟩, hs, hr⟩ := Option.map_eq_some_iff.mp h
    cases hr
    exact .inr ⟨b, e, rfl, hs, rfl⟩

/-- What a step does to the connection. -/
theorem endpoint_of_step (h : g.step a = some (g', evs)) :
    g.performs a = none ∧ g'.endpoint = g.endpoint ∧ evs = [] ∨
      ∃ b, g.performs a = some b ∧ g.endpoint.step b = some (g'.endpoint, evs) := by
  rcases (step_cases h).2 with ⟨hp, rfl, hevs⟩ | ⟨b, e, hp, hs, rfl⟩
  · exact .inl ⟨hp, g.moved_endpoint a, hevs⟩
  · exact .inr ⟨b, hp, hs⟩

theorem reach_endpoint (h : (machine l isClient keepalive).Reach g log) :
    (Endpoint.machine l isClient).Reach g.endpoint log := by
  refine h.refine (N := Endpoint.machine l isClient) TaskGroup.endpoint ?_ ?_
  · intro g hg
    exact (connect_ok hg).1
  · rintro g tr evs g' - - ⟨a, ha⟩
    rcases endpoint_of_step ha with ⟨-, hsame, rfl⟩ | ⟨b, -, hs⟩
    · rw [hsame]
      exact .refl _
    · exact .single ⟨b, hs⟩

/-- How the connection is closed by a step, given its notifications of `close_notify`. -/
theorem announces_of_step (h : g.step a = some (g', evs)) :
    g.endpoint.shared.Announces g'.endpoint.shared (g.closeSignals a) := by
  rcases endpoint_of_step h with ⟨-, hsame, -⟩ | ⟨b, hp, hs⟩
  · exact .of_ends (by rw [hsame])
  · have hb := Endpoint.announces_of_step b hs
    have hsignals : .waiters ∈ g.endpoint.signals b .accept → .waiters ∈ g.closeSignals a := by
      intro hw
      refine List.mem_append_left _ (List.mem_filter.mpr ⟨?_, by simp⟩)
      simpa only [innerSignals, hp] using hw
    exact ⟨fun hw => hb.same fun hm => hw (hsignals hm), hb.closed, hb.terminated, hb.shut, hb.cut,
      hb.shuts⟩

theorem ends_of_quiet (h : g.step a = some (g', evs)) (hs : g.closeSignals a = []) :
    g'.endpoint.shared.ends = g.endpoint.shared.ends :=
  (announces_of_step h).same (by simp [hs])

/-- A task that sleeps in `wait_terminated` has missed nothing. -/
theorem not_terminated_of_asleep (h : (watched l isClient keepalive).Reach w log) (task : Task)
    (hs : (w.notify (.terminated task)).Asleep) : w.state.endpoint.shared.terminated = false := by
  refine WaitLoops.asleep_holds (.terminated task) (fun g => g.endpoint.shared.terminated = false) ?_ ?_ ?_ h hs
  · intro g hg hs
    simp [waitLoops, Notify.Asleep] at hs
  · intro g tr g' evs a _ ha hf hstep
    have hown : a = .terminated task := by
      cases a <;> simp [waitLoops, looks] at ha
      rw [ha]
    subst hown
    have hf : g.endpoint.shared.terminated = false := hf
    rcases endpoint_of_step hstep with ⟨-, hsame, -⟩ | ⟨b, hp, -⟩
    · rw [hsame]
      exact hf
    · simp [performs, hf] at hp
  · intro g tr g' evs a _ _ hquiet hstep hp
    exact (congrArg (fun t => t.2.1) (ends_of_quiet hstep hquiet)).trans hp

/-- Nor has the keepalive task. -/
theorem not_closed_of_asleep (h : (watched l isClient keepalive).Reach w log) (hs : (w.notify .keepalive).Asleep) :
    w.state.endpoint.shared.closed = false := by
  refine WaitLoops.asleep_holds .keepalive (fun g => g.endpoint.shared.closed = false) ?_ ?_ ?_ h hs
  · intro g hg hs
    simp [waitLoops, Notify.Asleep] at hs
  · intro g tr g' evs a _ ha hf hstep
    have hown : a = .keepalive := by cases a <;> simp [waitLoops, looks] at ha ⊢
    subst hown
    rcases endpoint_of_step hstep with ⟨-, hsame, -⟩ | ⟨b, hp, -⟩
    · rw [hsame]
      exact hf
    · cases hp
  · intro g tr g' evs a _ _ hquiet hstep hp
    exact (congrArg Prod.fst (ends_of_quiet hstep hquiet)).trans hp

/-- The deadline sleeps over neither a close nor the drop of the last handle. -/
theorem not_due_of_asleep (h : (watched l isClient keepalive).Reach w log) (hs : (w.notify .deadline).Asleep) :
    w.state.endpoint.shared.closed = false ∧ w.state.connectionHandles ≠ 0 := by
  refine WaitLoops.asleep_holds .deadline (fun g => g.endpoint.shared.closed = false ∧ g.connectionHandles ≠ 0)
    ?_ ?_ ?_ h hs
  · intro g hg hs
    simp [waitLoops, Notify.Asleep] at hs
  · intro g tr g' evs a _ ha hf hstep
    have hown : a = .deadline := by cases a <;> simp [waitLoops, looks] at ha ⊢
    subst hown
    have hf : g.endpoint.shared.closed = false ∧ g.connectionHandles ≠ 0 := by simpa [waitLoops, found] using hf
    rcases (step_cases hstep).2 with ⟨-, rfl, -⟩ | ⟨b, e, hp, -, -⟩
    · simp [moved, hf]
    · simp [performs, hf] at hp
  · intro g tr g' evs a _ _ hquiet hstep hp
    refine ⟨(congrArg Prod.fst (ends_of_quiet hstep hquiet)).trans hp.1, ?_⟩
    have hown : g.ownSignals a = [] := (List.append_eq_nil_iff.mp hquiet).2
    have hhandles : (g.moved a).connectionHandles ≠ 0 := by
      have hp := hp.2
      cases a with
      | clone => simp [moved]
      | dropHandle =>
        have hne : g.connectionHandles ≠ 1 := by
          intro h1
          simp [ownSignals, h1] at hown
        simp only [moved]
        omega
      | terminated task => cases task <;> exact hp
      | deadline =>
        simp only [moved]
        split_ifs <;> exact hp
      | _ => exact hp
    rcases (step_cases hstep).2 with ⟨-, rfl, -⟩ | ⟨b, e, -, -, rfl⟩ <;> exact hhandles

/-- A call of `wait_closed` sleeps only while a task is left. -/
theorem not_joined_of_asleep (h : (watched l isClient keepalive).Reach w log) (hs : (w.notify .waitClosed).Asleep) :
    w.state.joined = false := by
  refine WaitLoops.asleep_holds .waitClosed (fun g => g.joined = false) ?_ ?_ ?_ h hs
  · intro g hg hs
    simp [waitLoops, Notify.Asleep] at hs
  · intro g tr g' evs a _ ha hf hstep
    have hown : a = .waitClosed := by cases a <;> simp [waitLoops, looks] at ha ⊢
    subst hown
    rcases (step_cases hstep).2 with ⟨-, rfl, -⟩ | ⟨b, e, hp, -, -⟩
    · exact hf
    · cases hp
  · intro g tr g' evs a _ _ hquiet hstep hp
    have hown : g.ownSignals a = [] := (List.append_eq_nil_iff.mp hquiet).2
    have hjoined : (g.moved a).joined = false := by
      cases a with
      | join => simp [ownSignals] at hown
      | terminated task => cases task <;> exact hp
      | deadline =>
        simp only [moved]
        split_ifs <;> exact hp
      | _ => exact hp
    rcases (step_cases hstep).2 with ⟨-, rfl, -⟩ | ⟨b, e, -, -, rfl⟩ <;> exact hjoined

/-- The writer does not sleep once `mark_closed` has run. -/
theorem not_shut_of_asleep (h : (watched l isClient keepalive).Reach w log) (hs : (w.notify (.inner .writer)).Asleep) :
    w.state.endpoint.shared.cleanupStarted = false := by
  have hrests : w.state.endpoint.WriterRests := by
    refine WaitLoops.asleep_holds (.inner .writer) (fun g => g.endpoint.WriterRests) ?_ ?_ ?_ h hs
    · intro g hg hs
      simp [waitLoops, Endpoint.waitLoops, Notify.Asleep] at hs
    · intro g tr g' evs a hr ha hf hstep
      have hown : ∃ order, a = .act (.nextFrame order) := by
        cases a with
        | act a =>
          simp only [waitLoops, looks, Option.map_eq_some_iff] at ha
          obtain ⟨i, hi, hw⟩ := ha
          cases hw
          obtain ⟨order, rfl⟩ := Endpoint.looks_writer hi
          exact ⟨order, rfl⟩
        | _ => simp [waitLoops, looks] at ha
      obtain ⟨order, rfl⟩ := hown
      rcases endpoint_of_step hstep with ⟨hp, -, -⟩ | ⟨b, hp, hb⟩
      · cases hp
      · cases hp
        exact Endpoint.writerRests_of_look (reach_endpoint hr) hf hb
    · intro g tr g' evs a hr ha hquiet hstep hw
      rcases endpoint_of_step hstep with ⟨-, hsame, -⟩ | ⟨b, hp, hb⟩
      · rw [hsame]
        exact hw
      · have hquiet : g.endpoint.signals b .writer = [] := by
          simpa only [waitLoops, signals, innerSignals, hp] using hquiet
        refine Endpoint.writerRests_of_step (reach_endpoint hr) b hb ?_ hquiet hw
        intro hlook
        obtain ⟨order, rfl⟩ := Endpoint.looks_writer hlook
        exact ha (by rw [performs_turn hp]; rfl)
  have hr := reach_endpoint (WaitLoops.reach_state h)
  by_contra hne
  have hshut := Endpoint.reach_shut hr (Bool.eq_true_of_not_eq_false hne)
  rcases hrests.rest with hrest | hpending
  · have hcut := hrest.cut
    simp [Sender.cut, hshut.closing, hshut.graceful] at hcut
  · exact hne hpending.shut

end TaskGroup
end Muxtls
