import Muxtls.Lib.Notify

/-- An infinite run of a step function. At a moment without an action nothing happens. -/
structure Exec {σ α ε : Type*} (step : σ → α → Option (σ × List ε)) where
  state : ℕ → σ
  act : ℕ → Option α
  rest : ∀ n, act n = none → state (n + 1) = state n
  next : ∀ n a, act n = some a → ∃ evs, step (state n) a = some (state (n + 1), evs)

namespace Exec

variable {σ α ε : Type*} {step : σ → α → Option (σ × List ε)}

/-- One of the actions `P` is possible. -/
def Enabled (step : σ → α → Option (σ × List ε)) (P : α → Prop) (s : σ) : Prop :=
  ∃ a, P a ∧ (step s a).isSome

/-- Weak fairness: while one of the actions `P` stays possible, one of them is taken some time. -/
def Fair (x : Exec step) (P : α → Prop) : Prop :=
  ∀ n, (∀ m, n ≤ m → Enabled step P (x.state m)) → ∃ m a, n ≤ m ∧ x.act m = some a ∧ P a

variable (x : Exec step)

theorem reach {init : σ → Prop} (h : init (x.state 0)) (n : ℕ) :
    ∃ log, (Machine.ofStep init step).Reach (x.state n) log := by
  induction n with
  | zero => exact ⟨[], .init h⟩
  | succ n ih =>
    obtain ⟨log, hr⟩ := ih
    cases ha : x.act n with
    | none =>
      rw [x.rest n ha]
      exact ⟨log, hr⟩
    | some a =>
      obtain ⟨evs, hs⟩ := x.next n a ha
      exact ⟨log ++ evs, hr.step ⟨a, hs⟩⟩

/-- What the steps of a run keep from a moment on stays. -/
theorem stays (Q : σ → Prop) {n m : ℕ} (hle : n ≤ m)
    (hstep : ∀ k a evs, n ≤ k → step (x.state k) a = some (x.state (k + 1), evs) →
      Q (x.state k) → Q (x.state (k + 1)))
    (h : Q (x.state n)) : Q (x.state m) := by
  induction hle with
  | refl => exact h
  | step hk ih =>
    rename_i k
    cases ha : x.act k with
    | none =>
      rw [x.rest k ha]
      exact ih
    | some a =>
      obtain ⟨evs, hs⟩ := x.next k a ha
      exact hstep k a evs hk hs ih

/-- The response rule: if the fair actions `P` stay possible until `Q` holds, each of them lowers the rank and no other
action raises it, then `Q` holds some time. -/
theorem eventually {P : α → Prop} (hfair : x.Fair P) (Q : σ → Prop) (rank : σ → ℕ) (n : ℕ)
    (hen : ∀ m, n ≤ m → ¬ Q (x.state m) → Enabled step P (x.state m))
    (hrank : ∀ m a evs, n ≤ m → ¬ Q (x.state m) → step (x.state m) a = some (x.state (m + 1), evs) →
      Q (x.state (m + 1)) ∨ rank (x.state (m + 1)) ≤ rank (x.state m) ∧
        (P a → rank (x.state (m + 1)) < rank (x.state m))) :
    ∃ m, n ≤ m ∧ Q (x.state m) := by
  by_contra hnever
  have hnot : ∀ m, n ≤ m → ¬ Q (x.state m) := fun m hm hq => hnever ⟨m, hm, hq⟩
  have hdown : ∀ m a evs, n ≤ m → step (x.state m) a = some (x.state (m + 1), evs) →
      rank (x.state (m + 1)) ≤ rank (x.state m) ∧ (P a → rank (x.state (m + 1)) < rank (x.state m)) :=
    fun m a evs hm hs => (hrank m a evs hm (hnot m hm) hs).resolve_left (hnot (m + 1) (Nat.le_succ_of_le hm))
  -- a fair action comes after every moment, so the rank would fall forever
  have hfall : ∀ bound m, n ≤ m → rank (x.state m) ≠ bound := by
    intro bound
    induction bound using Nat.strongRecOn with
    | ind bound ih =>
      intro m hm hbound
      obtain ⟨k, a, hk, ha, hp⟩ := hfair m fun k hk =>
        hen k (Nat.le_trans hm hk) (hnot k (Nat.le_trans hm hk))
      obtain ⟨evs, hs⟩ := x.next k a ha
      have hnk : n ≤ k := Nat.le_trans hm hk
      have hle : rank (x.state k) ≤ bound :=
        x.stays (fun s => rank s ≤ bound) hk
          (fun j b evs hj hs hq => Nat.le_trans (hdown j b evs (Nat.le_trans hm hj) hs).1 hq) (Nat.le_of_eq hbound)
      exact ih _ (Nat.lt_of_lt_of_le ((hdown k a evs hnk hs).2 hp) hle) (k + 1) (Nat.le_succ_of_le hnk) rfl
  exact hfall _ n (Nat.le_refl n) rfl

section Restrict

variable {β : Type*} {whole : σ → β → Option (σ × List ε)} {pick : β → Option α}

/-- A run of a system in which only the actions of a part of it are taken, as a run of the part. -/
def restrict (x : Exec whole) (hstep : ∀ s b a, pick b = some a → whole s b = step s a)
    (hall : ∀ n b, x.act n = some b → (pick b).isSome) : Exec step where
  state := x.state
  act n := (x.act n).bind pick
  rest n hn := by
    refine x.rest n ?_
    cases hb : x.act n with
    | none => rfl
    | some b =>
      rw [hb] at hn
      have hsome := hall n b hb
      rw [show pick b = none from hn] at hsome
      cases hsome
  next n a ha := by
    obtain ⟨b, hb, hp⟩ := Option.bind_eq_some_iff.mp ha
    obtain ⟨evs, hs⟩ := x.next n b hb
    exact ⟨evs, (hstep _ b a hp).symm.trans hs⟩

theorem enabled_whole (hstep : ∀ s b a, pick b = some a → whole s b = step s a)
    (hpick : ∀ a, ∃ b, pick b = some a)
    {P : α → Prop} {s : σ} : Enabled whole (fun b => ∃ a, pick b = some a ∧ P a) s ↔ Enabled step P s := by
  constructor
  · rintro ⟨b, ⟨a, hb, ha⟩, hs⟩
    rw [hstep s b a hb] at hs
    exact ⟨a, ha, hs⟩
  · rintro ⟨a, ha, hs⟩
    obtain ⟨b, hb⟩ := hpick a
    rw [← hstep s b a hb] at hs
    exact ⟨b, ⟨a, hb, ha⟩, hs⟩

theorem restrict_fair {x : Exec whole} (hstep : ∀ s b a, pick b = some a → whole s b = step s a)
    (hall : ∀ n b, x.act n = some b → (pick b).isSome) (hpick : ∀ a, ∃ b, pick b = some a) {P : α → Prop}
    (h : x.Fair fun b => ∃ a, pick b = some a ∧ P a) : (x.restrict hstep hall).Fair P := by
  intro n hen
  obtain ⟨m, b, hm, hb, a, hp, ha⟩ := h n fun m hm => (enabled_whole hstep hpick).mpr (hen m hm)
  refine ⟨m, a, hm, ?_, ha⟩
  change (x.act m).bind pick = some a
  rw [hb]
  exact hp

end Restrict

section Finite

variable (step) in
/-- Where a list of actions leads; it stops before one that is not possible. -/
def follow (s : σ) : List α → σ
  | [] => s
  | a :: acts =>
    match step s a with
    | none => s
    | some (s', _) => follow s' acts

/-- A finite run, after which nothing happens. -/
def finite (s : σ) (acts : List α) (h : (Machine.runList step s acts).isSome) : Exec step where
  state n := follow step s (acts.take n)
  act n := acts[n]?
  rest n hn := by
    have hle : acts.length ≤ n := List.getElem?_eq_none_iff.mp hn
    rw [List.take_of_length_le hle, List.take_of_length_le (Nat.le_succ_of_le hle)]
  next n a ha := by
    induction acts generalizing s n with
    | nil => cases ha
    | cons b acts ih =>
      cases hb : step s b with
      | none =>
        rw [Machine.runList, hb] at h
        cases h
      | some r =>
        obtain ⟨s', evs⟩ := r
        rw [Machine.runList, hb] at h
        simp only [Option.isSome_map] at h
        cases n with
        | zero =>
          cases ha
          refine ⟨evs, ?_⟩
          simp only [List.take_succ_cons, List.take_zero, follow, hb]
        | succ n =>
          obtain ⟨evs', hn⟩ := ih s' h n ha
          refine ⟨evs', ?_⟩
          simp only [List.take_succ_cons, follow, hb]
          exact hn

theorem finite_fair {s : σ} {acts : List α} (h : (Machine.runList step s acts).isSome) {P : α → Prop}
    (hend : ¬ Enabled step P (follow step s acts)) : (finite s acts h).Fair P := by
  intro n hen
  have hlast := hen (max n acts.length) (Nat.le_max_left _ _)
  simp only [finite, List.take_of_length_le (Nat.le_max_right n acts.length)] at hlast
  exact absurd hlast hend

end Finite

end Exec

namespace Notify

/-- The polls a task still needs before its next look, unless it sleeps. -/
def delay (n : Notify) : ℕ :=
  match n.phase with
  | .awake => 0
  | _ => 1

theorem delay_signals (n : Notify) (signals : List Signal) : (signals.foldl signal n).delay ≤ n.delay := by
  induction signals generalizing n with
  | nil => exact Nat.le_refl _
  | cons s signals ih =>
    refine Nat.le_trans (ih (n.signal s)) ?_
    obtain ⟨permit, phase⟩ := n
    cases s <;> cases phase <;> simp [signal, delay]

end Notify

namespace WaitLoops

variable {σ α ι ε : Type*} [DecidableEq ι] {L : WaitLoops σ α ι} {step : σ → α → Option (σ × List ε)}
  {w w' : Watched σ ι} {evs : List ε} {i : ι} {a : α}

theorem act_cases (h : L.step step w (.act a) = some (w', evs)) :
    ∃ notify, L.arm w a = some notify ∧ step w.state a = some (w'.state, evs) ∧
      ∀ i, w'.notify i = (L.signals w.state a i).foldl Notify.signal (notify i) := by
  simp only [WaitLoops.step] at h
  cases harm : L.arm w a with
  | none =>
    rw [harm] at h
    cases h
  | some notify =>
    cases hs : step w.state a with
    | none =>
      rw [harm, hs] at h
      cases h
    | some r =>
      rw [harm, hs] at h
      cases h
      exact ⟨notify, rfl, rfl, fun _ => rfl⟩

/-- The system of a watched step takes the step or stays as it is. -/
theorem state_of_step {b : WatchedAct α ι} (h : L.step step w b = some (w', evs)) :
    (∃ a, b = .act a ∧ step w.state a = some (w'.state, evs)) ∨ w'.state = w.state := by
  cases b with
  | act a =>
    obtain ⟨-, -, hs, -⟩ := act_cases h
    exact .inl ⟨a, rfl, hs⟩
  | poll j =>
    simp only [WaitLoops.step] at h
    cases hp : (w.notify j).phase with
    | armed hit =>
      rw [hp] at h
      simp only at h
      split_ifs at h
      cases h
      exact .inr rfl
    | _ =>
      rw [hp] at h
      cases h
  | drop j =>
    simp only [WaitLoops.step] at h
    split_ifs at h
    cases h
    exact .inr rfl

/-- Only a look that finds nothing delays a task. -/
theorem delay_of_step {b : WatchedAct α ι} (h : L.step step w b = some (w', evs)) (i : ι)
    (hfind : ∀ a, b = .act a → L.looks a = some i → L.found w.state a = true) :
    (w'.notify i).delay ≤ (w.notify i).delay := by
  cases b with
  | act a =>
    obtain ⟨notify, harm, -, hn⟩ := act_cases h
    rw [hn i]
    refine Nat.le_trans (Notify.delay_signals _ _) ?_
    by_cases hi : L.looks a = some i
    · rw [Notify.delay, arm_found harm hi (hfind a rfl hi)]
      exact Nat.zero_le _
    · exact Nat.le_of_eq (congrArg Notify.delay (arm_other harm hi))
  | poll j =>
    simp only [WaitLoops.step] at h
    cases hp : (w.notify j).phase with
    | armed hit =>
      rw [hp] at h
      simp only at h
      split_ifs at h
      cases h
      by_cases hij : i = j
      · subst hij
        simp only [Function.update_self, Notify.delay, hp]
        split <;> omega
      · simp only [Function.update_of_ne hij]
        exact Nat.le_refl _
    | _ =>
      rw [hp] at h
      cases h
  | drop j =>
    simp only [WaitLoops.step] at h
    split_ifs at h
    cases h
    by_cases hij : i = j
    · subst hij
      simp [Notify.delay]
    · simp only [Function.update_of_ne hij]
      exact Nat.le_refl _

/-- The poll of a task that does not sleep wakes it. -/
theorem delay_of_poll (h : L.step step w (.poll i) = some (w', evs)) (hs : ¬ (w.notify i).Asleep) :
    (w'.notify i).delay < (w.notify i).delay := by
  simp only [WaitLoops.step] at h
  cases hp : (w.notify i).phase with
  | armed hit =>
    rw [hp] at h
    simp only at h
    split_ifs at h
    cases h
    have hwake : ((w.notify i).poll hit).phase = .awake := by
      unfold Notify.poll
      by_cases hpermit : (w.notify i).permit = true
      · rw [if_pos hpermit]
      · rw [if_neg hpermit]
        cases hit with
        | true => simp
        | false => exact absurd (.inr ⟨hp, Bool.eq_false_iff.mpr hpermit⟩) hs
    simp [Notify.delay, hwake, hp]
  | _ =>
    rw [hp] at h
    cases h

/-- A task that does not sleep can take its next turn: its look, or the poll before it. -/
theorem turn_possible (hs : ¬ (w.notify i).Asleep) (hidle : L.idle i w.state = true) (ha : L.looks a = some i)
    (hstep : (step w.state a).isSome) : (L.step step w (.act a)).isSome ∨ (L.step step w (.poll i)).isSome := by
  cases hp : (w.notify i).phase with
  | awake =>
    left
    obtain ⟨r, hr⟩ := Option.isSome_iff_exists.mp hstep
    have harm : (L.arm w a).isSome := by
      unfold arm
      rw [ha]
      simp only [hp, ne_eq, not_true_eq_false, if_false]
      split_ifs <;> rfl
    obtain ⟨notify, hn⟩ := Option.isSome_iff_exists.mp harm
    simp [WaitLoops.step, hn, hr]
  | armed hit =>
    right
    simp [WaitLoops.step, hp, hidle]
  | parked => exact absurd (.inl hp) hs

/-- A fair task looks again, if from some time on it does not sleep, its look is possible and each of its looks finds
something. -/
theorem eventually_looks {x : Exec (L.step step)} (ha : L.looks a = some i)
    (hfair : x.Fair fun b => b = .act a ∨ b = .poll i) (n : ℕ)
    (hawake : ∀ m, n ≤ m → ¬ ((x.state m).notify i).Asleep)
    (hidle : ∀ m, n ≤ m → L.idle i (x.state m).state = true)
    (hstep : ∀ m, n ≤ m → (step (x.state m).state a).isSome)
    (hfound : ∀ m, n ≤ m → ∀ c, L.looks c = some i → L.found (x.state m).state c = true) :
    ∃ m, n ≤ m ∧ x.act m = some (.act a) := by
  have hturn : ∀ m, n ≤ m → Exec.Enabled (L.step step) (fun b => b = .act a ∨ b = .poll i) (x.state m) := by
    intro m hm
    rcases turn_possible (hawake m hm) (hidle m hm) ha (hstep m hm) with hp | hp
    · exact ⟨_, .inl rfl, hp⟩
    · exact ⟨_, .inr rfl, hp⟩
  have hdelay : ∀ m b evs, n ≤ m → L.step step (x.state m) b = some (x.state (m + 1), evs) →
      ((x.state (m + 1)).notify i).delay ≤ ((x.state m).notify i).delay := by
    intro m b evs hm hb
    exact delay_of_step hb i fun c _ hc => hfound m hm c hc
  -- a first turn of the task wakes it, a second one is its look
  obtain ⟨k, b, hk, hb, hfirst⟩ := hfair n hturn
  obtain ⟨evs, hs⟩ := x.next k b hb
  rcases hfirst with rfl | rfl
  · exact ⟨k, hk, hb⟩
  have hzero : ((x.state (k + 1)).notify i).delay ≤ 0 := by
    have hpoll := delay_of_poll hs (hawake k hk)
    have hle : ((x.state k).notify i).delay ≤ 1 := by
      unfold Notify.delay
      split <;> omega
    omega
  obtain ⟨r, c, hr, hc, hsecond⟩ := hfair (k + 1) fun m hm => hturn m (by omega)
  obtain ⟨evs', hs'⟩ := x.next r c hc
  rcases hsecond with rfl | rfl
  · exact ⟨r, by omega, hc⟩
  have hlow : ((x.state r).notify i).delay ≤ 0 :=
    x.stays (fun w => (w.notify i).delay ≤ 0) hr
      (fun m b evs hm hs hq => Nat.le_trans (hdelay m b evs (by omega) hs) hq) hzero
  have hpoll := delay_of_poll hs' (hawake r (by omega))
  omega

end WaitLoops
