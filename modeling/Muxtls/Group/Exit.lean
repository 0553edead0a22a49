import Muxtls.Group.Sleep
import Muxtls.Lib.Fair
import Muxtls.Receiver.Budget
import Muxtls.Sender.OpenFirst

namespace Muxtls
namespace TaskGroup

variable {l : Limits} {isClient keepalive : Bool} {g g' : TaskGroup} {a : GroupAct} {log evs : List Event}
  {w w' : Watched TaskGroup GroupWaiter} {b : WatchedAct GroupAct GroupWaiter} {x : Exec (waitLoops.step step)}

/-- A run in which every member of the group gets its turn. -/
structure Scheduled (l : Limits) (isClient keepalive : Bool) (x : Exec (waitLoops.step step)) : Prop where
  start : connect l isClient keepalive = .ok (x.state 0).state ∧ (x.state 0).notify = waitLoops.start
  fair : ∀ member, x.Fair fun b => owner b = some member

theorem Scheduled.reach (h : Scheduled l isClient keepalive x) (n : ℕ) :
    ∃ log, (watched l isClient keepalive).Reach (x.state n) log := x.reach h.start n

/-- What no step of the group takes back stays. -/
theorem stays (x : Exec (waitLoops.step step)) (Q : TaskGroup → Prop)
    (hstep : ∀ g a g' evs, step g a = some (g', evs) → Q g → Q g')
    {n m : ℕ} (hle : n ≤ m) (h : Q (x.state n).state) :
    Q (x.state m).state := by
  refine x.stays (fun w => Q w.state) hle ?_ h
  intro k b evs _ hb hq
  rcases WaitLoops.state_of_step hb with ⟨a, -, ha⟩ | hsame
  · exact hstep _ a _ evs ha hq
  · rwa [hsame]

theorem terminated_stays (x : Exec (waitLoops.step step)) {n m : ℕ} (hle : n ≤ m)
    (ht : (x.state n).state.endpoint.shared.terminated = true) : (x.state m).state.endpoint.shared.terminated = true :=
  stays x (fun g => g.endpoint.shared.terminated = true) (fun _ _ _ _ ha => (announces_of_step ha).terminated) hle ht

theorem shut_stays (x : Exec (waitLoops.step step)) {n m : ℕ} (hle : n ≤ m)
    (hs : (x.state n).state.endpoint.shared.cleanupStarted = true) :
    (x.state m).state.endpoint.shared.cleanupStarted = true :=
  stays x (fun g => g.endpoint.shared.cleanupStarted = true) (fun _ _ _ _ ha => (announces_of_step ha).shut) hle hs

theorem closed_stays (x : Exec (waitLoops.step step)) {n m : ℕ} (hle : n ≤ m)
    (hc : (x.state n).state.endpoint.shared.closed = true) : (x.state m).state.endpoint.shared.closed = true :=
  stays x (fun g => g.endpoint.shared.closed = true) (fun _ _ _ _ ha => (announces_of_step ha).closed) hle hc

/-- The task has returned. -/
def gone (g : TaskGroup) : Task → Bool
  | .cleanup => g.cleanupDone
  | task => g.endpoint.done task && (g.endpoint.todo task).isEmpty

/-- What a task has left, with the polls before its looks. -/
def rank (task : Task) (w : Watched TaskGroup GroupWaiter) : ℕ :=
  w.state.endpoint.left task + (w.notify (.terminated task)).delay +
    if task = .writer then (w.notify (.inner .writer)).delay else 0

/-- A turn of a task of a terminated connection is a step of that task, or the exit of the cleanup worker. -/
theorem owner_performs (ht : g.endpoint.shared.terminated = true) {task : Task}
    (h : owner (.act a) = some (.task task)) :
    (∃ c, g.performs a = some c ∧ Endpoint.ofTask c = some task) ∨
      a = .terminated .cleanup ∧ task = .cleanup := by
  cases a with
  | act c =>
    refine .inl ⟨c, rfl, ?_⟩
    cases c <;> simp [owner] at h
    · simp [Endpoint.ofTask, h]
    · simp [Endpoint.ofTask, h]
  | terminated owner =>
    cases h
    cases task with
    | reader => exact .inl ⟨.readerBreak, by simp [performs, ht], rfl⟩
    | writer =>
      by_cases hh : g.endpoint.hand.isSome = true
      · exact .inl ⟨.writerBreak, by simp [performs, ht, hh], rfl⟩
      · exact .inl ⟨.work .writer, by simp [performs, ht, hh], rfl⟩
    | cleanup => exact .inr ⟨rfl, rfl⟩
  | _ => cases h

theorem terminated_found (ht : w.state.endpoint.shared.terminated = true) (task : Task) (a : GroupAct)
    (hl : waitLoops.looks a = some (.terminated task)) : waitLoops.found w.state a = true := by
  cases a <;> simp [waitLoops, looks] at hl
  exact ht

theorem writer_found (hr : (watched l isClient keepalive).Reach w log)
    (hs : w.state.endpoint.shared.cleanupStarted = true) (a : GroupAct)
    (hl : waitLoops.looks a = some (.inner .writer)) : waitLoops.found w.state a = true := by
  cases a with
  | act c =>
    simp only [waitLoops, looks, Option.map_eq_some_iff] at hl
    obtain ⟨i, hi, hw⟩ := hl
    cases hw
    obtain ⟨order, rfl⟩ := Endpoint.looks_writer hi
    have hnext := Endpoint.nextFrame_finished (reach_endpoint (WaitLoops.reach_state hr)) hs order
    simp [waitLoops, found, Endpoint.found, hnext]
  | _ => simp [waitLoops, looks] at hl

/-- Each turn of a task takes one off what it has left, and no other step adds to it. -/
theorem rank_of_step (hr : (watched l isClient keepalive).Reach w log) {task : Task}
    (ht : w.state.endpoint.shared.terminated = true)
    (hs : task = .writer → w.state.endpoint.shared.cleanupStarted = true)
    (h : waitLoops.step step w b = some (w', evs)) :
    w'.state.gone task = true ∨
      rank task w' ≤ rank task w ∧ (owner b = some (.task task) → rank task w' < rank task w) := by
  have hdelay := WaitLoops.delay_of_step h (.terminated task) fun a _ => terminated_found ht task a
  have hwriter : (if task = .writer then (w'.notify (.inner .writer)).delay else 0) ≤
      if task = .writer then (w.notify (.inner .writer)).delay else 0 := by
    split_ifs with hw
    · exact WaitLoops.delay_of_step h (.inner .writer) fun a _ => writer_found hr (hs hw) a
    · exact Nat.le_refl 0
  have hbase := reach_endpoint (WaitLoops.reach_state hr)
  unfold rank
  cases b with
  | act a =>
    obtain ⟨-, -, hstep, -⟩ := WaitLoops.act_cases h
    rcases endpoint_of_step hstep with ⟨hp, hsame, -⟩ | ⟨c, hp, hc⟩
    · rw [hsame]
      by_cases hexit : a = .terminated .cleanup ∧ task = .cleanup
      · obtain ⟨rfl, rfl⟩ := hexit
        left
        rcases (step_cases hstep).2 with ⟨-, hg, -⟩ | ⟨d, e, hd, -, -⟩
        · rw [hg]
          exact ht
        · rw [hp] at hd
          cases hd
      · refine .inr ⟨by omega, fun hown => ?_⟩
        rcases owner_performs (g := w.state) ht hown with ⟨c, hc, -⟩ | hex
        · rw [hp] at hc
          cases hc
        · exact absurd hex hexit
    · right
      by_cases hof : Endpoint.ofTask c = some task
      · have hleft := Endpoint.left_of_task hbase ht c hc task hof hs
        exact ⟨by omega, fun _ => by omega⟩
      · rw [Endpoint.left_of_other c hc task hof]
        refine ⟨by omega, fun hown => ?_⟩
        rcases owner_performs (g := w.state) ht hown with ⟨d, hd, hof'⟩ | ⟨rfl, rfl⟩
        · rw [hp] at hd
          cases hd
          exact absurd hof' hof
        · simp [performs] at hp
  | poll i =>
    rcases WaitLoops.state_of_step h with ⟨a, ha, -⟩ | hsame
    · cases ha
    · rw [hsame]
      refine .inr ⟨by omega, fun hown => ?_⟩
      cases i with
      | inner i =>
        cases i <;> simp [owner] at hown
        subst hown
        have hpoll := WaitLoops.delay_of_poll h fun hasleep =>
          absurd ((not_shut_of_asleep hr hasleep).symm.trans (hs rfl)) (by simp)
        simp only [if_true]
        omega
      | terminated task' =>
        cases hown
        have hpoll := WaitLoops.delay_of_poll h fun hasleep =>
          absurd ((not_terminated_of_asleep hr task hasleep).symm.trans ht) (by simp)
        omega
      | _ => cases hown
  | drop i =>
    rcases WaitLoops.state_of_step h with ⟨a, ha, -⟩ | hsame
    · cases ha
    · rw [hsame]
      exact .inr ⟨by omega, fun hown => by cases hown⟩

/-- A task of a terminated connection that has not returned can take its next turn. -/
theorem turn_enabled (hr : (watched l isClient keepalive).Reach w log) {task : Task}
    (ht : w.state.endpoint.shared.terminated = true)
    (hs : task = .writer → w.state.endpoint.shared.cleanupStarted = true) (hg : ¬ w.state.gone task = true) :
    Exec.Enabled (waitLoops.step step) (fun b => owner b = some (.task task)) w := by
  have hwork : w.state.endpoint.todo task ≠ [] → w.state.ready (.act (.work task)) = true →
      Exec.Enabled (waitLoops.step step) (fun b => owner b = some (.task task)) w := by
    intro hne hready
    refine ⟨.act (.act (.work task)), rfl, ?_⟩
    cases htodo : w.state.endpoint.todo task with
    | nil => exact absurd htodo hne
    | cons op ops =>
      simp [WaitLoops.step, WaitLoops.arm, waitLoops, looks, Endpoint.looks, step, hready, performs, Endpoint.step,
        htodo]
  have hlook : w.state.waiting task = true → (w.state.step (.terminated task)).isSome →
      Exec.Enabled (waitLoops.step step) (fun b => owner b = some (.task task)) w := by
    intro hwait hstep
    have hawake : ¬ (w.notify (.terminated task)).Asleep := fun hasleep =>
      absurd ((not_terminated_of_asleep hr task hasleep).symm.trans ht) (by simp)
    rcases WaitLoops.turn_possible (L := waitLoops) (a := .terminated task) hawake hwait rfl hstep with hp | hp
    · exact ⟨_, rfl, hp⟩
    · exact ⟨_, rfl, hp⟩
  cases task with
  | reader =>
    by_cases htodo : w.state.endpoint.todo .reader = []
    · have hrun : w.state.endpoint.readerDone = false := by simpa [gone, Endpoint.done, htodo] using hg
      have hreading : w.state.endpoint.reading = true := by simp [Endpoint.reading, hrun, htodo]
      exact hlook hreading (by simp [step, ready, waiting, performs, ht, hreading, Endpoint.step])
    · exact hwork htodo rfl
  | cleanup =>
    by_cases htodo : w.state.endpoint.todo .cleanup = []
    · have hrun : w.state.cleanupDone = false := by simpa [gone] using hg
      have hwait : w.state.waiting .cleanup = true := by simp [waiting, hrun, htodo]
      exact hlook hwait (by simp [step, ready, hwait, performs])
    · exact hwork htodo rfl
  | writer =>
    have hbase := reach_endpoint (WaitLoops.reach_state hr)
    by_cases hdone : w.state.endpoint.writerDone = true
    · -- the loop is left and the sink is being closed
      have htodo : w.state.endpoint.todo .writer ≠ [] := by simpa [gone, Endpoint.done, hdone] using hg
      have hhand := Endpoint.reach_hand hbase hdone
      have hwait : w.state.waiting .writer = true := by simp [waiting, closingSink, hdone, htodo]
      refine hlook hwait ?_
      cases hops : w.state.endpoint.todo .writer with
      | nil => exact absurd hops htodo
      | cons op ops => simp [step, ready, hwait, performs, ht, hhand, Endpoint.step, hops]
    have hrun : w.state.endpoint.writerDone = false := Bool.eq_false_of_not_eq_true hdone
    cases hhand : w.state.endpoint.hand with
    | some f =>
      have hwait : w.state.waiting .writer = true := by simp [waiting, hhand]
      exact hlook hwait (by simp [step, ready, hwait, performs, ht, hhand, Endpoint.step])
    | none =>
      by_cases htodo : w.state.endpoint.todo .writer = []
      · have hwriting : w.state.endpoint.writing = true := by simp [Endpoint.writing, hrun, hhand, htodo]
        have hawake : ¬ (w.notify (.inner .writer)).Asleep := fun hasleep =>
          absurd ((not_shut_of_asleep hr hasleep).symm.trans (hs rfl)) (by simp)
        have hstep : (w.state.step (.act (.nextFrame w.state.endpoint.shared.queues.receiveWindows))).isSome := by
          simp [step, ready, performs, Endpoint.step, hwriting, List.isPerm_iff.mpr (List.Perm.refl _)]
        rcases WaitLoops.turn_possible (L := waitLoops) hawake rfl rfl hstep with hp | hp
        · exact ⟨_, rfl, hp⟩
        · exact ⟨_, rfl, hp⟩
      · exact hwork htodo (by simp [ready, closingSink, hrun])

/-- Every task returns after the end of its connection, the writer once its queues are shut down. -/
theorem task_returns (h : Scheduled l isClient keepalive x) (task : Task) (n : ℕ)
    (ht : (x.state n).state.endpoint.shared.terminated = true)
    (hs : task = .writer → (x.state n).state.endpoint.shared.cleanupStarted = true) :
    ∃ m, n ≤ m ∧ (x.state m).state.gone task = true := by
  have hterm : ∀ m, n ≤ m → (x.state m).state.endpoint.shared.terminated = true :=
    fun m hm => terminated_stays x hm ht
  have hshut : ∀ m, n ≤ m → task = .writer → (x.state m).state.endpoint.shared.cleanupStarted = true :=
    fun m hm hw => shut_stays x hm (hs hw)
  refine x.eventually (h.fair (.task task)) (fun w => w.state.gone task = true) (rank task) n ?_ ?_
  · intro m hm hg
    obtain ⟨log, hr⟩ := h.reach m
    exact turn_enabled hr (hterm m hm) (hshut m hm) hg
  · intro m b evs hm _ hb
    obtain ⟨log, hr⟩ := h.reach m
    exact rank_of_step hr (hterm m hm) (hshut m hm) hb

/-- A task that has returned after the end of its connection stays away. -/
theorem gone_of_step (hr : (machine l isClient keepalive).Reach g log) {task : Task}
    (ht : g.endpoint.shared.terminated = true) (hs : task = .writer → g.endpoint.shared.cleanupStarted = true)
    (h : g.step a = some (g', evs)) (hg : g.gone task = true) : g'.gone task = true := by
  by_cases hcl : task = .cleanup
  · subst hcl
    have hmoved : (g.moved a).cleanupDone = true := by
      have hg : g.cleanupDone = true := hg
      cases a with
      | terminated owner => cases owner <;> first | exact hg | exact ht
      | deadline =>
        simp only [moved]
        split_ifs <;> exact hg
      | _ => exact hg
    rcases (step_cases h).2 with ⟨-, rfl, -⟩ | ⟨b, e, -, -, rfl⟩ <;> exact hmoved
  · have hown : ∀ g : TaskGroup, g.gone task = (g.endpoint.done task && (g.endpoint.todo task).isEmpty) := by
      intro g
      cases task <;> first | rfl | exact absurd rfl hcl
    rw [hown] at hg ⊢
    rcases endpoint_of_step h with ⟨-, hsame, -⟩ | ⟨c, -, hc⟩
    · rwa [hsame]
    · by_cases hof : Endpoint.ofTask c = some task
      · -- it has no step left
        have hleft := Endpoint.left_of_task (reach_endpoint hr) ht c hc task hof hs
        rw [Bool.and_eq_true, List.isEmpty_iff] at hg
        simp [Endpoint.left, hg.1, hg.2, TaskOp.weights] at hleft
      · rwa [Endpoint.todo_of_step c hc task hof, Endpoint.done_of_other c hc task hof]

theorem gone_stays (h : Scheduled l isClient keepalive x) {task : Task} {n m : ℕ} (hle : n ≤ m)
    (ht : (x.state n).state.endpoint.shared.terminated = true)
    (hs : task = .writer → (x.state n).state.endpoint.shared.cleanupStarted = true)
    (hg : (x.state n).state.gone task = true) : (x.state m).state.gone task = true := by
  refine x.stays (fun w => w.state.gone task = true) hle ?_ hg
  intro k b evs hk hb hq
  obtain ⟨log, hr⟩ := h.reach k
  rcases WaitLoops.state_of_step hb with ⟨a, -, ha⟩ | hsame
  · exact gone_of_step (WaitLoops.reach_state hr) (terminated_stays x hk ht) (fun hw => shut_stays x hk (hs hw)) ha hq
  · rwa [hsame]

/-- The keepalive task returns after a close. -/
theorem keepalive_returns (h : Scheduled l isClient keepalive x) (n : ℕ)
    (hc : (x.state n).state.endpoint.shared.closed = true) :
    ∃ m, n ≤ m ∧ (x.state m).state.keepalive = false := by
  have hclosed : ∀ m, n ≤ m → (x.state m).state.endpoint.shared.closed = true := fun m hm => closed_stays x hm hc
  have hawake : ∀ m, n ≤ m → ¬ ((x.state m).notify .keepalive).Asleep := by
    intro m hm hasleep
    obtain ⟨log, hr⟩ := h.reach m
    exact absurd ((not_closed_of_asleep hr hasleep).symm.trans (hclosed m hm)) (by simp)
  refine x.eventually (h.fair .keepalive) (fun w => w.state.keepalive = false) (fun w => (w.notify .keepalive).delay) n
    ?_ ?_
  · intro m hm hk
    have hk : (x.state m).state.keepalive = true := Bool.eq_true_of_not_eq_false hk
    have hstep : ((x.state m).state.step .keepalive).isSome := by simp [step, ready, hk, performs]
    rcases WaitLoops.turn_possible (L := waitLoops) (hawake m hm) rfl rfl hstep with hp | hp
    · exact ⟨_, rfl, hp⟩
    · exact ⟨_, rfl, hp⟩
  · intro m b evs hm _ hb
    have hdelay := WaitLoops.delay_of_step hb .keepalive fun a _ hl => by
      cases a <;> simp [waitLoops, looks] at hl
      exact hclosed m hm
    cases b with
    | act a =>
      by_cases ha : a = .keepalive
      · subst ha
        left
        obtain ⟨-, -, hstep, -⟩ := WaitLoops.act_cases hb
        rcases (step_cases hstep).2 with ⟨-, hg, -⟩ | ⟨c, e, hp, -, -⟩
        · rw [hg]
          simp [moved, hclosed m hm]
        · cases hp
      · refine .inr ⟨hdelay, fun hown => ?_⟩
        cases a with
        | keepalive => exact absurd rfl ha
        | act c => cases c <;> cases hown
        | _ => cases hown
    | poll i =>
      refine .inr ⟨hdelay, fun hown => ?_⟩
      cases i with
      | keepalive => exact WaitLoops.delay_of_poll hb (hawake m hm)
      | inner i => cases i <;> cases hown
      | _ => cases hown
    | drop i => exact .inr ⟨hdelay, fun hown => by cases hown⟩

/-- There is a reason for the deadline to leave its loop. -/
def Due (g : TaskGroup) : Prop := g.endpoint.shared.closed = true ∨ g.connectionHandles = 0

theorem deadline_of_step (h : g.step a = some (g', evs)) :
    g'.deadline = g.deadline ∧ (a = .deadline → ¬ g.Due) ∧ a ≠ .drain ∨
      a = .deadline ∧ g.Due ∧ g.deadline = .watching ∧ g'.deadline = .draining ∨
      a = .drain ∧ g.deadline = .draining ∧ g'.deadline = .expired := by
  have hfield : g'.deadline = (g.moved a).deadline := by
    rcases (step_cases h).2 with ⟨-, rfl, -⟩ | ⟨b, e, -, -, rfl⟩ <;> rfl
  have hready := (step_cases h).1
  rw [hfield]
  cases a with
  | terminated task => cases task <;> exact .inl ⟨rfl, GroupAct.noConfusion, GroupAct.noConfusion⟩
  | deadline =>
    by_cases hdue : (g.endpoint.shared.closed || decide (g.connectionHandles = 0)) = true
    · refine .inr (.inl ⟨rfl, by simpa [Due] using hdue, ?_, by rw [moved, if_pos hdue]⟩)
      simp only [ready, Bool.and_eq_true, decide_eq_true_eq] at hready
      exact hready.2
    · exact .inl ⟨by rw [moved, if_neg hdue], fun _ => by simpa [Due] using hdue, GroupAct.noConfusion⟩
  | drain =>
    simp only [ready, Bool.and_eq_true, decide_eq_true_eq] at hready
    exact .inr (.inr ⟨rfl, hready.2, rfl⟩)
  | _ => exact .inl ⟨rfl, GroupAct.noConfusion, GroupAct.noConfusion⟩

theorem joined_of_step (h : g.step a = some (g', evs)) : g'.joined = g.joined ∨ a = .join := by
  have hfield : g'.joined = (g.moved a).joined := by
    rcases (step_cases h).2 with ⟨-, rfl, -⟩ | ⟨b, e, -, -, rfl⟩ <;> rfl
  rw [hfield]
  cases a with
  | terminated task => cases task <;> exact .inl rfl
  | deadline =>
    left
    simp only [moved]
    split_ifs <;> rfl
  | join => exact .inr rfl
  | _ => exact .inl rfl

/-- The drain timeout and the last join end the connection. -/
theorem terminated_of_step (h : g.step a = some (g', evs)) (ha : a = .drain ∨ a = .join) :
    g'.endpoint.shared.terminated = true := by
  have hp : g.performs a = some .drainExpired := by rcases ha with rfl | rfl <;> rfl
  rcases endpoint_of_step h with ⟨hn, -, -⟩ | ⟨c, hc, hs⟩
  · rw [hp] at hn
    cases hn
  · rw [hp] at hc
    cases hc
    generalize g'.endpoint = e at hs ⊢
    cases Endpoint.step_cases hs
    exact g.endpoint.shared.markClosed_ended.2.1

/-- The deadline closes a connection whose last handle is dropped. -/
theorem closed_of_deadline (hr : (machine l isClient keepalive).Reach g log) (h : g.step .deadline = some (g', evs))
    (hdue : g.Due) : g'.endpoint.shared.closed = true := by
  by_cases hc : g.endpoint.shared.closed = true
  · exact (announces_of_step h).closed hc
  · have hbase := reach_endpoint hr
    have hvalid : g.endpoint.shared.limits.Valid := by
      have hlimits : g.endpoint.shared.limits = l := Ledger.reach_limits (Endpoint.reach_ledger hbase)
      rw [hlimits]
      exact Endpoint.reach_valid hbase
    have hp : g.performs .deadline = some .lastHandleDropped := by simpa [performs, hc, Due] using hdue
    rcases endpoint_of_step h with ⟨hn, -, -⟩ | ⟨c, hc', hs⟩
    · rw [hp] at hn
      cases hn
    · rw [hp] at hc'
      cases hc'
      generalize g'.endpoint = e at hs ⊢
      cases Endpoint.step_cases hs
      exact Shared.initiateClose_closed _ hvalid (Nat.zero_le 1) _

/-- The deadline leaves its loop for a close and ends after the end of the connection, as the last join does. -/
structure Sound (g : TaskGroup) : Prop where
  deadline : g.deadline ≠ .watching → g.endpoint.shared.closed = true
  expired : g.deadline = .expired → g.endpoint.shared.terminated = true
  joined : g.joined = true → g.endpoint.shared.terminated = true

theorem reach_sound (h : (machine l isClient keepalive).Reach g log) : g.Sound := by
  refine h.invariant (fun g _ => g.Sound) ?_ ?_
  · intro g hg
    obtain ⟨-, hnew⟩ := connect_ok hg
    rw [hnew]
    exact ⟨fun hd => absurd rfl hd, Deadline.noConfusion, Bool.noConfusion⟩
  · rintro g tr evs g' hr ih ⟨a, ha⟩
    have hann := announces_of_step ha
    have hjoined : g'.joined = true → g'.endpoint.shared.terminated = true := by
      intro hj
      rcases joined_of_step ha with hsame | hjoin
      · exact hann.terminated (ih.joined (hsame.symm.trans hj))
      · exact terminated_of_step ha (.inr hjoin)
    rcases deadline_of_step ha with ⟨hsame, -, -⟩ | ⟨rfl, hdue, -, hd⟩ | ⟨hdrain, hold, -⟩
    · refine ⟨fun hd => hann.closed (ih.deadline ?_),
        fun hd => hann.terminated (ih.expired (hsame.symm.trans hd)), hjoined⟩
      rwa [← hsame]
    · exact ⟨fun _ => closed_of_deadline hr ha hdue, fun he => Deadline.noConfusion (hd.symm.trans he), hjoined⟩
    · have hterm := terminated_of_step ha (.inl hdrain)
      refine ⟨fun _ => hann.closed (ih.deadline ?_), fun _ => hterm, hjoined⟩
      rw [hold]
      exact Deadline.noConfusion

theorem due_of_step (h : g.step a = some (g', evs)) (hd : g.Due) : g'.Due := by
  refine hd.imp (announces_of_step h).closed fun hzero => ?_
  have hready := (step_cases h).1
  have hmoved : (g.moved a).connectionHandles = 0 := by
    cases a with
    | clone => simp [ready, hzero] at hready
    | dropHandle => simp [ready, hzero] at hready
    | terminated task => cases task <;> exact hzero
    | deadline =>
      simp only [moved]
      split_ifs <;> exact hzero
    | _ => exact hzero
  rcases (step_cases h).2 with ⟨-, rfl, -⟩ | ⟨b, e, -, -, rfl⟩ <;> exact hmoved

/-- The turns the deadline has left. -/
def Deadline.left : Deadline → ℕ
  | .watching => 2
  | .draining => 1
  | .expired => 0

def deadlineRank (w : Watched TaskGroup GroupWaiter) : ℕ :=
  Deadline.left w.state.deadline + (w.notify .deadline).delay

theorem deadlineRank_of_step (hr : (watched l isClient keepalive).Reach w log) (hd : w.state.Due)
    (h : waitLoops.step step w b = some (w', evs)) :
    b = .act .join ∨
      deadlineRank w' ≤ deadlineRank w ∧ (owner b = some .supervisor → deadlineRank w' < deadlineRank w) := by
  have hdelay := WaitLoops.delay_of_step h .deadline fun a _ hl => by
    cases a <;> simp [waitLoops, looks] at hl
    simpa [waitLoops, found, Due] using hd
  unfold deadlineRank
  cases b with
  | act a =>
    obtain ⟨-, -, hstep, -⟩ := WaitLoops.act_cases h
    by_cases hjoin : a = .join
    · exact .inl (by rw [hjoin])
    · right
      rcases deadline_of_step hstep with ⟨hsame, hlook, hdrain⟩ | ⟨-, -, hold, hnew⟩ | ⟨-, hold, hnew⟩
      · rw [hsame]
        refine ⟨by omega, fun hown => ?_⟩
        cases a with
        | act c => cases c <;> cases hown
        | deadline => exact absurd hd (hlook rfl)
        | drain => exact absurd rfl hdrain
        | join => exact absurd rfl hjoin
        | _ => cases hown
      · rw [hold, hnew]
        simp only [Deadline.left]
        omega
      · rw [hold, hnew]
        simp only [Deadline.left]
        omega
  | poll i =>
    rcases WaitLoops.state_of_step h with ⟨a, ha, -⟩ | hsame
    · cases ha
    · rw [hsame]
      refine .inr ⟨by omega, fun hown => ?_⟩
      cases i with
      | deadline =>
        have hpoll := WaitLoops.delay_of_poll h fun hasleep =>
          hd.elim (fun hc => absurd ((not_due_of_asleep hr hasleep).1.symm.trans hc) (by simp))
            (not_due_of_asleep hr hasleep).2
        omega
      | inner i => cases i <;> cases hown
      | _ => cases hown
  | drop i =>
    rcases WaitLoops.state_of_step h with ⟨a, ha, -⟩ | hsame
    · cases ha
    · rw [hsame]
      exact .inr ⟨by omega, fun hown => by cases hown⟩

/-- The deadline ends a connection that is closed or without handles. -/
theorem deadline_ends (h : Scheduled l isClient keepalive x) (n : ℕ) (hd : (x.state n).state.Due) :
    ∃ m, n ≤ m ∧ (x.state m).state.endpoint.shared.terminated = true := by
  have hdue : ∀ m, n ≤ m → (x.state m).state.Due := fun m hm =>
    stays x Due (fun _ _ _ _ ha => due_of_step ha) hm hd
  refine x.eventually (h.fair .supervisor) (fun w => w.state.endpoint.shared.terminated = true) deadlineRank n ?_ ?_
  · intro m hm ht
    obtain ⟨log, hr⟩ := h.reach m
    have hsound := reach_sound (WaitLoops.reach_state hr)
    have hjoined : (x.state m).state.joined = false := Bool.eq_false_of_not_eq_true fun hj => ht (hsound.joined hj)
    cases hdl : (x.state m).state.deadline with
    | watching =>
      have hawake : ¬ ((x.state m).notify .deadline).Asleep := fun hasleep =>
        (hdue m hm).elim (fun hc => absurd ((not_due_of_asleep hr hasleep).1.symm.trans hc) (by simp))
          (not_due_of_asleep hr hasleep).2
      have hstep : ((x.state m).state.step .deadline).isSome := by
        by_cases hc : (x.state m).state.endpoint.shared.closed = true
        · simp [step, ready, hjoined, hdl, performs, hc]
        · have hzero := (hdue m hm).resolve_left hc
          simp [step, ready, hjoined, hdl, performs, hc, hzero, Endpoint.step]
      rcases WaitLoops.turn_possible (L := waitLoops) hawake rfl rfl hstep with hp | hp
      · exact ⟨_, rfl, hp⟩
      · exact ⟨_, rfl, hp⟩
    | draining =>
      have hclosed := hsound.deadline (by rw [hdl]; exact Deadline.noConfusion)
      refine ⟨.act .drain, rfl, ?_⟩
      simp [WaitLoops.step, WaitLoops.arm, waitLoops, looks,
        step, ready, hjoined, hdl, performs, Endpoint.step, hclosed]
    | expired => exact absurd (hsound.expired hdl) ht
  · intro m b evs hm _ hb
    obtain ⟨log, hr⟩ := h.reach m
    rcases deadlineRank_of_step hr (hdue m hm) hb with rfl | hrank
    · obtain ⟨-, -, hstep, -⟩ := WaitLoops.act_cases hb
      exact .inl (terminated_of_step hstep (.inr rfl))
    · exact .inr hrank

theorem exited_iff (g : TaskGroup) : g.exited = true ↔ (∀ task, g.gone task = true) ∧ g.keepalive = false := by
  constructor
  · intro h
    simp only [exited, Bool.and_eq_true, Bool.not_eq_true'] at h
    obtain ⟨⟨⟨⟨⟨hr, hr'⟩, hw⟩, hw'⟩, hc⟩, hk⟩ := h
    refine ⟨fun task => ?_, hk⟩
    cases task with
    | reader => simp only [gone, Endpoint.done, hr, hr', Bool.and_self]
    | writer => simp only [gone, Endpoint.done, hw, hw', Bool.and_self]
    | cleanup => exact hc
  · rintro ⟨h, hk⟩
    have hr := h .reader
    have hw := h .writer
    have hc : g.cleanupDone = true := h .cleanup
    simp only [gone, Endpoint.done, Bool.and_eq_true] at hr hw
    simp [exited, hr, hw, hc, hk]

/-- The supervisor joins a group whose tasks have all returned. -/
theorem group_joins (h : Scheduled l isClient keepalive x) (n : ℕ)
    (hex : ∀ m, n ≤ m → (x.state m).state.exited = true)
    (hc : ∀ m, n ≤ m → (x.state m).state.endpoint.shared.closed = true) :
    ∃ m, n ≤ m ∧ (x.state m).state.joined = true := by
  refine x.eventually (h.fair .supervisor) (fun w => w.state.joined = true) deadlineRank n ?_ ?_
  · intro m hm hj
    refine ⟨.act .join, rfl, ?_⟩
    simp [WaitLoops.step, WaitLoops.arm, waitLoops, looks, step, ready, hj, hex m hm, performs, Endpoint.step, hc m hm]
  · intro m b evs hm _ hb
    obtain ⟨log, hr⟩ := h.reach m
    rcases deadlineRank_of_step hr (.inl (hc m hm)) hb with rfl | hrank
    · obtain ⟨-, -, hstep, -⟩ := WaitLoops.act_cases hb
      left
      rcases (step_cases hstep).2 with ⟨-, hg, -⟩ | ⟨c, e, -, -, hg⟩ <;> rw [hg] <;> rfl
    · exact .inr hrank

theorem keepalive_stays (x : Exec (waitLoops.step step)) {n m : ℕ} (hle : n ≤ m)
    (hk : (x.state n).state.keepalive = false) : (x.state m).state.keepalive = false := by
  refine stays x (fun g => g.keepalive = false) ?_ hle hk
  intro g a g' evs ha hk
  have hready := (step_cases ha).1
  have hmoved : (g.moved a).keepalive = false := by
    cases a with
    | tick => exact absurd (hready.symm.trans hk) (by simp)
    | keepalive => exact absurd (hready.symm.trans hk) (by simp)
    | terminated task => cases task <;> exact hk
    | deadline =>
      simp only [moved]
      split_ifs <;> exact hk
    | _ => exact hk
  rcases (step_cases ha).2 with ⟨-, rfl, -⟩ | ⟨b, e, -, -, rfl⟩ <;> exact hmoved

/-- All tasks of a terminated connection return. -/
theorem group_exits (h : Scheduled l isClient keepalive x) (n : ℕ)
    (ht : (x.state n).state.endpoint.shared.terminated = true) :
    ∃ m, n ≤ m ∧ (x.state m).state.endpoint.shared.cleanupStarted = true ∧
      ∀ k, m ≤ k → (x.state k).state.exited = true := by
  obtain ⟨r, hnr, hreader⟩ := task_returns h .reader n ht fun hw => by cases hw
  have htr := terminated_stays x hnr ht
  -- the reader returns with the queues of the writer shut down
  have hshut : (x.state r).state.endpoint.shared.cleanupStarted = true := by
    obtain ⟨log, hr⟩ := h.reach r
    simp only [gone, Endpoint.done, Bool.and_eq_true, List.isEmpty_iff] at hreader
    rcases Endpoint.reach_stopped (reach_endpoint (WaitLoops.reach_state hr)) .reader hreader.1 with hs | hmem
    · exact hs
    · rw [hreader.2] at hmem
      cases hmem
  obtain ⟨q, hrq, hwriter⟩ := task_returns h .writer r htr fun _ => hshut
  obtain ⟨c, hrc, hcleanup⟩ := task_returns h .cleanup r htr fun hw => by cases hw
  have hclosed : (x.state r).state.endpoint.shared.closed = true := by
    obtain ⟨log, hr⟩ := h.reach r
    exact (Endpoint.reach_ended (reach_endpoint (WaitLoops.reach_state hr))).1 htr
  obtain ⟨k, hrk, hkeepalive⟩ := keepalive_returns h r hclosed
  refine ⟨max q (max c k), by omega, shut_stays x (by omega) hshut,
    fun m hm => (exited_iff _).mpr ⟨fun task => ?_, ?_⟩⟩
  · cases task with
    | reader => exact gone_stays h (by omega : r ≤ m) htr (fun hw => by cases hw) hreader
    | writer =>
      exact gone_stays h (by omega : q ≤ m) (terminated_stays x hrq htr) (fun _ => shut_stays x hrq hshut) hwriter
    | cleanup => exact gone_stays h (by omega : c ≤ m) (terminated_stays x hrc htr) (fun hw => by cases hw) hcleanup
  · exact keepalive_stays x (by omega) hkeepalive

theorem eventually_joined (h : Scheduled l isClient keepalive x) (n : ℕ) (hd : (x.state n).state.Due) :
    ∃ m, n ≤ m ∧ (x.state m).state.joined = true ∧ (x.state m).state.exited = true ∧
      (x.state m).state.endpoint.shared.cleanupStarted = true := by
  obtain ⟨t, hnt, ht⟩ := deadline_ends h n hd
  obtain ⟨q, htq, hshut, hexited⟩ := group_exits h t ht
  have hclosed : ∀ k, q ≤ k → (x.state k).state.endpoint.shared.closed = true := by
    intro k hk
    obtain ⟨log, hr⟩ := h.reach k
    exact (Endpoint.reach_ended (reach_endpoint (WaitLoops.reach_state hr))).1 (terminated_stays x (htq.trans hk) ht)
  obtain ⟨m, hqm, hjoined⟩ := group_joins h q hexited hclosed
  exact ⟨m, by omega, hjoined, hexited m hqm, shut_stays x hqm hshut⟩

theorem joined_stays (x : Exec (waitLoops.step step)) {n m : ℕ}
    (hle : n ≤ m) (hj : (x.state n).state.joined = true) :
    (x.state m).state.joined = true := by
  refine stays x (fun g => g.joined = true) ?_ hle hj
  intro g a g' evs ha hj
  rcases joined_of_step ha with hsame | rfl
  · exact hsame.trans hj
  · have hready := (step_cases ha).1
    simp [ready, hj] at hready

/-- A call of `wait_closed` on a closed connection returns, after the last join, unless its handle is dropped. -/
theorem wait_returns (h : Scheduled l isClient keepalive x)
    (hcall : x.Fair fun b => b = .act .waitClosed ∨ b = .poll .waitClosed) (n : ℕ)
    (hc : (x.state n).state.endpoint.shared.closed = true) :
    ∃ m, n ≤ m ∧ (x.state m).state.joined = true ∧
      (x.act m = some (.act .waitClosed) ∨ (x.state m).state.connectionHandles = 0) := by
  obtain ⟨j, hnj, hjoined, -⟩ := eventually_joined h n (.inl hc)
  have hjoin : ∀ m, j ≤ m → (x.state m).state.joined = true := fun m hm => joined_stays x hm hjoined
  have hawake : ∀ m, j ≤ m → ¬ ((x.state m).notify .waitClosed).Asleep := by
    intro m hm hasleep
    obtain ⟨log, hr⟩ := h.reach m
    exact absurd ((not_joined_of_asleep hr hasleep).symm.trans (hjoin m hm)) (by simp)
  by_contra hnever
  have hhandle : ∀ m, j ≤ m → (x.state m).state.connectionHandles ≠ 0 := fun m hm hzero =>
    hnever ⟨m, hnj.trans hm, hjoin m hm, .inr hzero⟩
  obtain ⟨m, hm, hlook⟩ := WaitLoops.eventually_looks (L := waitLoops) (a := .waitClosed) rfl hcall j hawake
    (fun _ _ => rfl)
    (fun m hm => by simp [step, ready, hhandle m hm, performs])
    (fun m hm c hl => by
      cases c <;> simp [waitLoops, looks] at hl
      exact hjoin m hm)
  exact hnever ⟨m, hnj.trans hm, hjoin m hm, .inl hlook⟩

end TaskGroup
end Muxtls
