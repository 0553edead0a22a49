import Mathlib.Data.List.Basic

/-- A machine whose steps log events: the initial states, and the steps with what each one logs. -/
structure Machine (σ ε : Type*) where
  init : σ → Prop
  step : σ → List ε → σ → Prop

namespace Machine

variable {σ τ ε δ α : Type*} {M : Machine σ ε} {N : Machine τ δ} {s s' s'' : σ} {tr evs evs' : List ε}

/-- `M.Reach s tr`: some run from an initial state ends in `s` and has logged `tr`. -/
inductive Reach (M : Machine σ ε) : σ → List ε → Prop
  | init {s : σ} (h : M.init s) : Reach M s []
  | step {s s' : σ} {tr evs : List ε} (h : Reach M s tr) (hs : M.step s evs s') :
    Reach M s' (tr ++ evs)

/-- Finitely many steps in a row. -/
inductive Steps (M : Machine σ ε) : σ → List ε → σ → Prop
  | refl (s : σ) : Steps M s [] s
  | cons {s s' s'' : σ} {evs evs' : List ε} (h : M.step s evs s') (hs : Steps M s' evs' s'') :
    Steps M s (evs ++ evs') s''

theorem Steps.single (h : M.step s evs s') : M.Steps s evs s' := by
  have hs := Steps.cons h (.refl s')
  rwa [List.append_nil] at hs

theorem Steps.trans (h : M.Steps s evs s') (h' : M.Steps s' evs' s'') :
    M.Steps s (evs ++ evs') s'' := by
  induction h with
  | refl s => exact h'
  | cons hstep _ ih =>
    rw [List.append_assoc]
    exact .cons hstep (ih h')

theorem Reach.steps (h : M.Reach s tr) (hs : M.Steps s evs s') : M.Reach s' (tr ++ evs) := by
  induction hs generalizing tr with
  | refl s => rwa [List.append_nil]
  | cons hstep _ ih =>
    rw [← List.append_assoc]
    exact ih (h.step hstep)

/-- The invariant rule: what holds initially and is kept by the steps of reachable states holds in
every reachable state. -/
theorem Reach.invariant (I : σ → List ε → Prop) (h0 : ∀ s, M.init s → I s [])
    (hstep : ∀ s tr evs s', M.Reach s tr → I s tr → M.step s evs s' → I s' (tr ++ evs))
    (h : M.Reach s tr) : I s tr := by
  induction h with
  | init hi => exact h0 _ hi
  | step hr hs ih => exact hstep _ _ _ _ hr ih hs

/-- The invariant rule for steps after a reachable state; they may be those of a machine with fewer
steps. -/
theorem Steps.invariant {N : Machine σ ε} {tr₀ : List ε} (hsub : ∀ s evs s', M.step s evs s' → N.step s evs s')
    (hr : N.Reach s tr₀) (I : σ → List ε → Prop) (h0 : I s [])
    (hstep : ∀ s₁ tr evs s₂, N.Reach s₁ (tr₀ ++ tr) →
      I s₁ tr → M.step s₁ evs s₂ → I s₂ (tr ++ evs))
    (h : M.Steps s evs s') : I s' evs := by
  have key : ∀ tr, N.Reach s (tr₀ ++ tr) → I s tr → I s' (tr ++ evs) := by
    clear hr h0
    induction h with
    | refl s =>
      intro tr _ hi
      rwa [List.append_nil]
    | cons hs _ ih =>
      intro tr hr hi
      rw [← List.append_assoc]
      apply ih
      · rw [← List.append_assoc]
        exact hr.step (hsub _ _ _ hs)
      · exact hstep _ _ _ _ hr hi hs
  exact key [] (by rwa [List.append_nil]) h0

/-- What each step keeps, a run of steps keeps. -/
theorem Steps.keeps (P : σ → Prop) (hstep : ∀ s evs s', M.step s evs s' → P s → P s') (h : M.Steps s evs s')
    (hp : P s) : P s' := by
  induction h with
  | refl s => exact hp
  | cons hs _ ih => exact ih (hstep _ _ _ hs hp)

theorem Steps.mono {N : Machine σ ε} (hsub : ∀ s evs s', M.step s evs s' → N.step s evs s')
    (h : M.Steps s evs s') : N.Steps s evs s' := by
  induction h with
  | refl s => exact .refl s
  | cons hs _ ih => exact .cons (hsub _ _ _ hs) ih

/-- The simulation rule: if `N` can answer each step of `M` along `f`, with the events `g` keeps,
then it reaches the image of whatever `M` reaches. -/
theorem Reach.simulate (f : σ → τ) (g : ε → Option δ) (h0 : ∀ s, M.init s → N.init (f s))
    (hstep : ∀ s tr evs s', M.Reach s tr → N.Reach (f s) (tr.filterMap g) → M.step s evs s' →
      N.Steps (f s) (evs.filterMap g) (f s'))
    (h : M.Reach s tr) : N.Reach (f s) (tr.filterMap g) := by
  induction h with
  | init hi => exact .init (h0 _ hi)
  | step hr hs ih =>
    rw [List.filterMap_append]
    exact ih.steps (hstep _ _ _ _ hr ih hs)

/-- The simulation rule for machines that log the same events. -/
theorem Reach.refine {N : Machine τ ε} (f : σ → τ) (h0 : ∀ s, M.init s → N.init (f s))
    (hstep : ∀ s tr evs s', M.Reach s tr → N.Reach (f s) tr → M.step s evs s' →
      N.Steps (f s) evs (f s'))
    (h : M.Reach s tr) : N.Reach (f s) tr := by
  induction h with
  | init hi => exact .init (h0 _ hi)
  | step hr hs ih => exact ih.steps (hstep _ _ _ _ hr ih hs)

/-- The machine of an executable step function. -/
def ofStep (init : σ → Prop) (step : σ → α → Option (σ × List ε)) : Machine σ ε where
  init := init
  step s evs s' := ∃ a, step s a = some (s', evs)

/-- The actions of a list one after the other, each of which must be possible. -/
def runList (step : σ → α → Option (σ × List ε)) (s : σ) : List α → Option (σ × List ε)
  | [] => some (s, [])
  | a :: actions =>
    match step s a with
    | none => none
    | some (s', evs) => (runList step s' actions).map fun (s'', evs') => (s'', evs ++ evs')

theorem runList_steps (init : σ → Prop) (step : σ → α → Option (σ × List ε)) (actions : List α)
    (h : runList step s actions = some (s', evs)) : (ofStep init step).Steps s evs s' := by
  induction actions generalizing s evs with
  | nil =>
    cases h
    exact .refl _
  | cons a actions ih =>
    simp only [runList] at h
    cases hs : step s a with
    | none => rw [hs] at h; cases h
    | some r =>
      rw [hs] at h
      obtain ⟨⟨t, evs'⟩, ht, heq⟩ := Option.map_eq_some_iff.mp h
      cases heq
      exact .cons ⟨a, hs⟩ (ih ht)

theorem Reach.of_run (init : σ → Prop)
    {step : σ → α → Option (σ × List ε)} (h0 : init s) (actions : List α)
    (h : runList step s actions = some (s', tr)) : (ofStep init step).Reach s' tr :=
  (Reach.init (M := ofStep init step) h0).steps (runList_steps init step actions h)

theorem runList_reach (init : σ → Prop)
    {step : σ → α → Option (σ × List ε)} (h0 : init s) (actions : List α)
    {β : Type*} (g : σ × List ε → β) {x : β} (h : (runList step s actions).map g = some x) :
    ∃ s' tr, (ofStep init step).Reach s' tr ∧ g (s', tr) = x := by
  obtain ⟨⟨s', tr⟩, hr, hx⟩ := Option.map_eq_some_iff.mp h
  exact ⟨s', tr, .of_run init h0 actions hr, hx⟩

/-- A step function restricted to the actions that `ok` allows in the state before them. -/
def guardStep (ok : σ → α → Bool) (step : σ → α → Option (σ × List ε)) (s : σ) (a : α) :
    Option (σ × List ε) :=
  if ok s a then step s a else none

theorem guardStep_eq_some {ok : σ → α → Bool} {step : σ → α → Option (σ × List ε)} {a : α}
    {r : σ × List ε} : guardStep ok step s a = some r ↔ ok s a = true ∧ step s a = some r := by
  unfold guardStep
  split_ifs with h <;> simp [h]

theorem guardStep_sub {init init' : σ → Prop} {ok : σ → α → Bool} {step : σ → α → Option (σ × List ε)}
    (s : σ) (evs : List ε) (s' : σ) (h : (ofStep init (guardStep ok step)).step s evs s') :
    (ofStep init' step).step s evs s' := by
  obtain ⟨a, ha⟩ := h
  exact ⟨a, (guardStep_eq_some.mp ha).2⟩

/-- A run of the restricted machine is a run of the machine. -/
theorem Reach.of_guard {init : σ → Prop} {ok : σ → α → Bool} {step : σ → α → Option (σ × List ε)}
    (h : (ofStep init (guardStep ok step)).Reach s tr) : (ofStep init step).Reach s tr := by
  induction h with
  | init hi => exact .init hi
  | step _ hs ih => exact ih.step (guardStep_sub _ _ _ hs)

end Machine
