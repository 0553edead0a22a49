import Muxtls.Lib.Machine
import Mathlib.Logic.Function.Basic

/-- `notify_one` wakes the waiter or leaves a permit; `notify_waiters` wakes whoever has a `notified()`. -/
inductive Signal where
  | one
  | waiters
deriving DecidableEq

/-- Where a task stands in `loop { let notified = notify.notified(); look; notified.await }`. -/
inductive Phase where
  /-- it is about to look, or busy with what it has found -/
  | awake
  /-- it has looked and not yet polled; `hit` is a `notify_waiters` since its `notified()` -/
  | armed (hit : Bool)
  | parked
deriving DecidableEq

/-- A tokio `Notify` with the one task that waits on it. The laws it stands for: `notify_one` wakes the waiter or stores
a permit, and stores no more than one; `notify_waiters` wakes each `notified()` made before it, polled or not, and
stores nothing; the first poll of a `notified()` takes a stored permit. In which order several waiters are woken is
left out. -/
structure Notify where
  permit : Bool := false
  phase : Phase := .awake
deriving DecidableEq

namespace Notify

def signal (n : Notify) : Signal → Notify
  | .one =>
    match n.phase with
    | .parked => { n with phase := .awake }
    | _ => { n with permit := true }
  | .waiters =>
    match n.phase with
    | .awake => n
    | .armed _ => { n with phase := .armed true }
    | .parked => { n with phase := .awake }

/-- The first poll of a `notified()`: a permit is taken, else a `notify_waiters` counts, else it waits. -/
def poll (n : Notify) (hit : Bool) : Notify :=
  if n.permit then ⟨false, .awake⟩
  else if hit then { n with phase := .awake }
  else { n with phase := .parked }

/-- The task will not look again before the next signal. -/
def Asleep (n : Notify) : Prop := n.phase = .parked ∨ n.phase = .armed false ∧ n.permit = false

theorem signal_not_asleep (n : Notify) (s : Signal) : ¬ (n.signal s).Asleep := by
  obtain ⟨permit, phase⟩ := n
  cases s <;> cases phase <;> simp [signal, Asleep]

theorem signals_not_asleep (n : Notify) (signals : List Signal) (h : signals ≠ []) :
    ¬ (signals.foldl signal n).Asleep := by
  rcases List.eq_nil_or_concat signals with rfl | ⟨before, s, rfl⟩
  · exact absurd rfl h
  · rw [List.concat_eq_append, List.foldl_append]
    exact signal_not_asleep _ s

theorem asleep_of_poll {n : Notify} {hit : Bool} (hp : n.phase = .armed hit) (h : (n.poll hit).Asleep) :
    n.Asleep := by
  unfold poll at h
  split_ifs at h with hpermit hhit
  · simp [Asleep] at h
  · simp [Asleep] at h
  · rw [Bool.not_eq_true] at hpermit hhit
    exact .inr ⟨hhit ▸ hp, hpermit⟩

end Notify

/-- Tasks and calls that wait in such loops while a system takes its steps: where each one starts, which actions are
its look, whether a look finds something, when it is done, what each action signals, and which waits may be dropped. -/
structure WaitLoops (σ α ι : Type*) where
  start : ι → Notify
  looks : α → Option ι
  found : σ → α → Bool
  idle : ι → σ → Bool
  signals : σ → α → ι → List Signal
  dropped : ι → Bool

/-- A system with its waiting tasks. -/
structure Watched (σ ι : Type*) where
  state : σ
  notify : ι → Notify

/-- What one part of a system and its tasks see of it. -/
def Watched.view {σ τ ι κ : Type*} (f : σ → τ) (g : κ → ι) (w : Watched σ ι) : Watched τ κ :=
  ⟨f w.state, w.notify ∘ g⟩

/-- A step of the system, the first poll of a wait, or the drop of a call that was waiting. -/
inductive WatchedAct (α ι : Type*) where
  | act (a : α)
  | poll (i : ι)
  | drop (i : ι)

namespace WaitLoops

variable {σ α ι ε : Type*} [DecidableEq ι] (L : WaitLoops σ α ι)

/-- A look needs its task awake, and leaves it awake only if it finds something. -/
def arm (w : Watched σ ι) (a : α) : Option (ι → Notify) :=
  match L.looks a with
  | none => some w.notify
  | some i =>
    if (w.notify i).phase ≠ .awake then none
    else if L.found w.state a then some w.notify
    else some (Function.update w.notify i { w.notify i with phase := .armed false })

def step (step : σ → α → Option (σ × List ε)) (w : Watched σ ι) :
    WatchedAct α ι → Option (Watched σ ι × List ε)
  | .act a =>
    match L.arm w a, step w.state a with
    | some notify, some (s, events) =>
      some (⟨s, fun i => (L.signals w.state a i).foldl Notify.signal (notify i)⟩, events)
    | _, _ => none
  | .poll i =>
    match (w.notify i).phase with
    | .armed hit =>
      if L.idle i w.state then
        some ({ w with notify := Function.update w.notify i ((w.notify i).poll hit) }, [])
      else none
    | _ => none
  | .drop i =>
    if L.dropped i then
      some ({ w with notify := Function.update w.notify i { w.notify i with phase := .awake } }, [])
    else none

/-- The runs of a system and its waiting tasks. -/
def machine (init : σ → Prop) (step : σ → α → Option (σ × List ε)) : Machine (Watched σ ι) ε :=
  .ofStep (fun w => init w.state ∧ w.notify = L.start) (L.step step)

variable {L} {init : σ → Prop} {step : σ → α → Option (σ × List ε)}
  {w w' : Watched σ ι} {log evs : List ε} {a : α}

theorem arm_other {notify : ι → Notify} {i : ι} (h : L.arm w a = some notify) (hi : L.looks a ≠ some i) :
    notify i = w.notify i := by
  unfold arm at h
  split at h
  · cases h
    rfl
  · rename_i j hj
    split_ifs at h
    · cases h
      rfl
    · cases h
      refine Function.update_of_ne ?_ _ _
      rintro rfl
      exact hi hj

/-- A look that finds something leaves its task awake. -/
theorem arm_found {notify : ι → Notify} {i : ι} (h : L.arm w a = some notify) (hi : L.looks a = some i)
    (hf : L.found w.state a = true) : (notify i).phase = .awake := by
  unfold arm at h
  rw [hi] at h
  simp only [hf, if_true] at h
  split_ifs at h with hawake
  cases h
  exact not_not.mp hawake

/-- A look leaves its task awake or armed. -/
theorem arm_look {notify : ι → Notify} {i : ι} (h : L.arm w a = some notify) (hi : L.looks a = some i) :
    (notify i).phase ≠ .parked := by
  unfold arm at h
  rw [hi] at h
  simp only at h
  split_ifs at h with hawake hf
  · cases h
    rw [not_not.mp hawake]
    exact Phase.noConfusion
  · cases h
    simp

/-- A step of a watched system is one of the system with its signals, or it puts no task to sleep that was not about
to park with its work done. -/
theorem step_cases {b : WatchedAct α ι} (h : L.step step w b = some (w', evs)) :
    (∃ a notify, L.arm w a = some notify ∧ step w.state a = some (w'.state, evs) ∧
      ∀ i, w'.notify i = (L.signals w.state a i).foldl Notify.signal (notify i)) ∨
    w'.state = w.state ∧ evs = [] ∧ ∀ i, ((w'.notify i).Asleep → (w.notify i).Asleep) ∧
      ((w'.notify i).phase = .parked → (w.notify i).phase = .parked ∨ L.idle i w.state = true) := by
  cases b with
  | act a =>
    simp only [WaitLoops.step] at h
    cases harm : L.arm w a with
    | none =>
      rw [harm] at h
      cases h
    | some notify =>
      cases hs : step w.state a with
      | none =>
        rw [harm, hs] at h
        cases h
      | some r =>
        rw [harm, hs] at h
        cases h
        exact .inl ⟨a, notify, harm, hs, fun _ => rfl⟩
  | poll j =>
    simp only [WaitLoops.step] at h
    cases hp : (w.notify j).phase with
    | armed hit =>
      rw [hp] at h
      simp only at h
      split_ifs at h with hidle
      cases h
      refine .inr ⟨rfl, rfl, fun i => ?_⟩
      by_cases hij : i = j
      · subst hij
        simp only [Function.update_self]
        exact ⟨Notify.asleep_of_poll hp, fun _ => .inr hidle⟩
      · simp only [Function.update_of_ne hij]
        exact ⟨fun hs => hs, .inl⟩
    | _ =>
      rw [hp] at h
      cases h
  | drop j =>
    simp only [WaitLoops.step] at h
    split_ifs at h
    cases h
    refine .inr ⟨rfl, rfl, fun i => ?_⟩
    by_cases hij : i = j
    · subst hij
      simp [Notify.Asleep]
    · simp only [Function.update_of_ne hij]
      exact ⟨fun hs => hs, .inl⟩

/-- The system of a watched run takes the same steps. -/
theorem reach_state (h : (L.machine init step).Reach w log) : (Machine.ofStep init step).Reach w.state log := by
  refine Machine.Reach.refine (N := .ofStep init step) Watched.state ?_ ?_ h
  · intro w hw
    exact hw.1
  · rintro w tr evs w' - - ⟨b, hb⟩
    rcases step_cases hb with ⟨a, -, -, hs, -⟩ | ⟨hs, rfl, -⟩
    · exact .single ⟨a, hs⟩
    · rw [hs]
      exact .refl _

/-- The rule against lost wakeups: if a look that finds nothing establishes `P`, and no other step breaks it without
a signal, then `P` holds whenever the task is asleep. -/
theorem asleep_holds (i : ι) (P : σ → Prop) (hstart : ∀ s, init s → (L.start i).Asleep → P s)
    (hlook : ∀ s tr s' evs a, (Machine.ofStep init step).Reach s tr → L.looks a = some i → L.found s a = false →
      step s a = some (s', evs) → P s')
    (hkeep : ∀ s tr s' evs a, (Machine.ofStep init step).Reach s tr →
      L.looks a ≠ some i → L.signals s a i = [] →
      step s a = some (s', evs) → P s → P s')
    (h : (L.machine init step).Reach w log) (hs : (w.notify i).Asleep) : P w.state := by
  refine h.invariant (fun w _ => (w.notify i).Asleep → P w.state) ?_ ?_ hs
  · rintro w ⟨hi, hn⟩ hs
    rw [hn] at hs
    exact hstart _ hi hs
  · rintro w tr evs w' hr ih ⟨b, hb⟩ hs'
    have hbase := reach_state hr
    rcases step_cases hb with ⟨a, notify, harm, hstep, hn⟩ | ⟨hstate, -, hrest⟩
    · rw [hn i] at hs'
      have hquiet : L.signals w.state a i = [] := by
        by_contra hne
        exact Notify.signals_not_asleep _ _ hne hs'
      rw [hquiet, List.foldl_nil] at hs'
      by_cases hi : L.looks a = some i
      · cases hf : L.found w.state a with
        | true => simp [Notify.Asleep, arm_found harm hi hf] at hs'
        | false => exact hlook _ _ _ _ a hbase hi hf hstep
      · rw [arm_other harm hi] at hs'
        exact hkeep _ _ _ _ a hbase hi hquiet hstep (ih hs')
    · rw [hstate]
      exact ih ((hrest i).1 hs')

/-- A task parks with its work done, and so it stays as long as no other step gives it new work. -/
theorem parked_idle (i : ι) (hstart : (L.start i).phase ≠ .parked)
    (hkeep : ∀ s s' evs a, L.looks a ≠ some i →
      step s a = some (s', evs) → L.idle i s = true → L.idle i s' = true)
    (h : (L.machine init step).Reach w log) (hs : (w.notify i).phase = .parked) : L.idle i w.state = true := by
  refine h.invariant (fun w _ => (w.notify i).phase = .parked → L.idle i w.state = true) ?_ ?_ hs
  · rintro w ⟨-, hn⟩ hs
    rw [hn] at hs
    exact absurd hs hstart
  · rintro w tr evs w' - ih ⟨b, hb⟩ hs'
    rcases step_cases hb with ⟨a, notify, harm, hstep, hn⟩ | ⟨hstate, -, hrest⟩
    · rw [hn i] at hs'
      have hquiet : L.signals w.state a i = [] := by
        by_contra hne
        exact Notify.signals_not_asleep _ _ hne (.inl hs')
      rw [hquiet, List.foldl_nil] at hs'
      by_cases hi : L.looks a = some i
      · exact absurd hs' (arm_look harm hi)
      · rw [arm_other harm hi] at hs'
        exact hkeep _ _ _ a hi hstep (ih hs')
    · rw [hstate]
      rcases (hrest i).2 hs' with hparked | hidle
      · exact ih hparked
      · exact hidle

section View

variable {τ β κ δ : Type*} [DecidableEq κ] {L' : WaitLoops τ β κ} {init' : τ → Prop}
  {step' : τ → β → Option (τ × List δ)} {f : σ → τ} {g : κ → ι} {k : ε → Option δ}

variable (L L' f g) in
/-- The loops of a part are those of the system that it sees under the names `g`. -/
structure Part : Prop where
  start : ∀ i, L.start (g i) = L'.start i
  idle : ∀ i s, L.idle (g i) s = L'.idle i (f s)
  dropped : ∀ i, L.dropped (g i) = L'.dropped i
  names : Function.Injective g

variable (L L' f g) in
/-- An action of the system is the action `b` of the part. -/
structure Does (s : σ) (a : α) (b : β) : Prop where
  looks : L.looks a = (L'.looks b).map g
  found : L.found s a = L'.found (f s) b
  signals : ∀ i, L.signals s a (g i) = L'.signals (f s) b i

variable (L g) in
/-- An action of the system is no action of the part. -/
structure Apart (s : σ) (a : α) : Prop where
  looks : ∀ i, L.looks a ≠ some (g i)
  signals : ∀ i, L.signals s a (g i) = []

theorem Does.arm {b : β} {notify : ι → Notify} (hp : L.Part L' f g) (h : L.Does L' f g w.state a b)
    (ha : L.arm w a = some notify) : L'.arm (w.view f g) b = some (notify ∘ g) := by
  unfold WaitLoops.arm at ha ⊢
  rw [h.looks, h.found] at ha
  cases hb : L'.looks b with
  | none =>
    rw [hb] at ha
    cases ha
    rfl
  | some i =>
    rw [hb] at ha
    simp only [Option.map_some] at ha
    simp only
    by_cases hawake : (w.notify (g i)).phase ≠ .awake
    · rw [if_pos hawake] at ha
      cases ha
    have hawake' : ¬ ((w.view f g).notify i).phase ≠ .awake := hawake
    rw [if_neg hawake] at ha
    rw [if_neg hawake']
    by_cases hf : L'.found (f w.state) b = true
    · have hf' : L'.found (w.view f g).state b = true := hf
      rw [if_pos hf] at ha
      rw [if_pos hf']
      cases ha
      rfl
    · have hf' : ¬ L'.found (w.view f g).state b = true := hf
      rw [if_neg hf] at ha
      rw [if_neg hf']
      cases ha
      exact congrArg some (Function.update_comp_eq_of_injective _ hp.names i _).symm

/-- What a part sees of a change of one of its tasks. -/
theorem view_update (hp : L.Part L' f g) (w : Watched σ ι) (j : κ) (n : Notify) :
    Watched.view f g { w with notify := Function.update w.notify (g j) n } =
      { w.view f g with notify := Function.update (w.view f g).notify j n } :=
  congrArg (Watched.mk (f w.state)) (Function.update_comp_eq_of_injective _ hp.names j n)

omit [DecidableEq κ] in
theorem view_other (w : Watched σ ι) {j : ι} (hj : ∀ i, g i ≠ j) (n : Notify) :
    Watched.view f g { w with notify := Function.update w.notify j n } = w.view f g :=
  congrArg (Watched.mk (f w.state)) (Function.update_comp_eq_of_forall_ne _ n hj)

/-- A part of a watched system follows its own watched runs. -/
theorem reach_view (hp : L.Part L' f g) (hinit : ∀ s, init s → init' (f s))
    (hstep : ∀ s a s' evs, step s a = some (s', evs) →
      (∃ b, step' (f s) b = some (f s', evs.filterMap k) ∧ L.Does L' f g s a b) ∨
        f s' = f s ∧ evs.filterMap k = [] ∧ L.Apart g s a)
    (h : (L.machine init step).Reach w log) :
    (L'.machine init' step').Reach (w.view f g) (log.filterMap k) := by
  refine h.simulate (N := L'.machine init' step') (Watched.view f g) k ?_ ?_
  · rintro w ⟨hi, hn⟩
    refine ⟨hinit _ hi, funext fun i => ?_⟩
    rw [← hp.start, ← hn]
    rfl
  · rintro w tr evs w' - - ⟨c, hc⟩
    cases c with
    | act a =>
      simp only [WaitLoops.step] at hc
      cases harm : L.arm w a with
      | none =>
        rw [harm] at hc
        cases hc
      | some notify =>
        cases hs : step w.state a with
        | none =>
          rw [harm, hs] at hc
          cases hc
        | some r =>
          obtain ⟨s', evs'⟩ := r
          rw [harm, hs] at hc
          cases hc
          rcases hstep _ _ _ _ hs with ⟨b, hb, hdoes⟩ | ⟨hsame, hevs, hapart⟩
          · refine .single ⟨.act b, ?_⟩
            simp only [WaitLoops.step]
            rw [hdoes.arm hp harm, show (w.view f g).state = f w.state from rfl, hb]
            simp only [← hdoes.signals]
            rfl
          · rw [hevs]
            have hview : Watched.view f g ⟨s', fun i => (L.signals w.state a i).foldl Notify.signal (notify i)⟩ =
                w.view f g := by
              refine Watched.mk.injEq _ _ _ _ ▸ ⟨hsame, funext fun i => ?_⟩
              simp only [Function.comp_apply, hapart.signals, List.foldl_nil, arm_other harm (hapart.looks i)]
            rw [hview]
            exact .refl _
    | poll j =>
      simp only [WaitLoops.step] at hc
      cases hphase : (w.notify j).phase with
      | armed hit =>
        rw [hphase] at hc
        simp only at hc
        split_ifs at hc with hidle
        cases hc
        by_cases hj : ∃ i, g i = j
        · obtain ⟨i, rfl⟩ := hj
          refine .single ⟨.poll i, ?_⟩
          have hphase' : ((w.view f g).notify i).phase = .armed hit := hphase
          have hidle' : L'.idle i (w.view f g).state = true := (hp.idle i w.state).symm.trans hidle
          simp only [WaitLoops.step, hphase']
          rw [if_pos hidle', view_update hp]
          rfl
        · rw [view_other w (not_exists.mp hj)]
          exact .refl _
      | _ =>
        rw [hphase] at hc
        cases hc
    | drop j =>
      simp only [WaitLoops.step] at hc
      split_ifs at hc with hdrop
      cases hc
      by_cases hj : ∃ i, g i = j
      · obtain ⟨i, rfl⟩ := hj
        refine .single ⟨.drop i, ?_⟩
        simp only [WaitLoops.step]
        rw [if_pos ((hp.dropped i).symm.trans hdrop), view_update hp]
        rfl
      · rw [view_other w (not_exists.mp hj)]
        exact .refl _

end View

end WaitLoops
