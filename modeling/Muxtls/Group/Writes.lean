import Muxtls.Group.Exit
import Muxtls.Outbound.Progress

namespace Muxtls
namespace Shared

variable {s s' : Shared} {id : Nat}

/-- The awaits that the write call of the stream has before it. -/
def writeLeft (s : Shared) (id : Nat) : Nat := (s.send id).pending.elim 0 fun w => 6 - w.stage.rank

theorem writeLeft_eq_zero : s.writeLeft id = 0 ↔ (s.send id).pending = none := by
  cases hp : (s.send id).pending with
  | none => simp [writeLeft, hp]
  | some w =>
    have hle := w.stage.rank_le
    simp only [writeLeft, hp, Option.elim, reduceCtorEq, iff_false]
    omega

theorem writeLeft_setPending (s : Shared) (id : Nat) (pending : Option PendingWrite) :
    (s.setPending id pending).writeLeft id = pending.elim 0 fun w => 6 - w.stage.rank := by
  simp [writeLeft, setPending]

theorem cancelWrite_left (s : Shared) (id : Nat) : (s.cancelWrite id).writeLeft id = 0 := by
  cases hp : (s.send id).pending with
  | none => simp [cancelWrite, writeLeft, hp]
  | some w =>
    rw [cancelWrite_eq w hp]
    exact writeLeft_setPending _ id none

/-- The next permit of a write brings it one await further, and a closed semaphore ends it. -/
theorem acquireStage_left {w : PendingWrite} (hp : (s.send id).pending = some w) (stage : WriteStage)
    (hstage : w.stage.rank < stage.rank) (sem : Semaphore) (n : Nat) (set : Semaphore → OutboundBudget)
    (h : s.acquireStage id w stage sem n set = some s') : s'.writeLeft id < s.writeLeft id := by
  have hle := stage.rank_le
  have hleft : s.writeLeft id = 6 - w.stage.rank := by simp [writeLeft, hp]
  unfold acquireStage at h
  split_ifs at h
  · cases h
    rw [cancelWrite_left]
    omega
  · obtain ⟨sem', -, rfl⟩ := Option.map_eq_some_iff.mp h
    rw [writeLeft_setPending, hleft]
    change 6 - stage.rank < 6 - w.stage.rank
    omega

theorem acquireWrite_left (h : s.acquireWrite id = some s') : s'.writeLeft id < s.writeLeft id := by
  unfold acquireWrite at h
  cases hp : (s.send id).pending with
  | none =>
    rw [hp] at h
    cases h
  | some w =>
    rw [hp] at h
    obtain ⟨payload, fin, stage⟩ := w
    -- an empty payload passes the awaits of the byte permits
    have hskip : ∀ next : WriteStage, stage.rank < next.rank →
        (s.setPending id (some ⟨payload, fin, next⟩)).writeLeft id < s.writeLeft id := by
      intro next hnext
      have hle := next.rank_le
      rw [writeLeft_setPending]
      simp only [writeLeft, hp, Option.elim]
      omega
    cases stage with
    | locked => exact acquireStage_left hp _ (by simp [WriteStage.rank]) _ _ _ h
    | streamFrame =>
      simp only at h
      split_ifs at h
      · cases h
        exact hskip .streamBytes (by decide)
      · exact acquireStage_left hp _ (by simp [WriteStage.rank]) _ _ _ h
    | streamBytes => exact acquireStage_left hp _ (by simp [WriteStage.rank]) _ _ _ h
    | frame =>
      simp only at h
      split_ifs at h
      · cases h
        exact hskip .connBytes (by decide)
      · exact acquireStage_left hp _ (by simp [WriteStage.rank]) _ _ _ h
    | connBytes => cases h
    | enqueued => cases h

/-- On a closed connection the enqueue of a write fails. -/
theorem enqueueWrite_left (hc : s.closed = true) (r : Shared × Except Error PendingWrite)
    (h : s.enqueueWrite id = some r) : r.1.writeLeft id < s.writeLeft id := by
  unfold enqueueWrite at h
  cases hp : (s.send id).pending with
  | none =>
    rw [hp] at h
    cases h
  | some w =>
    rw [hp] at h
    simp only [hc, if_true] at h
    split_ifs at h
    cases h
    have hle := w.stage.rank_le
    rw [cancelWrite_left]
    simp only [writeLeft, hp, Option.elim]
    omega

theorem finishWrite_left (h : s.finishWrite id = some s') : s'.writeLeft id < s.writeLeft id := by
  unfold finishWrite at h
  split at h
  · rename_i hp
    cases h
    simp [writeLeft, hp, WriteStage.rank]
  · cases h

/-- On a closed connection no write starts. -/
theorem startWrite_closed (payload : Bytes) (fin : Bool) (r : Shared × Except Error Unit)
    (h : s.startWrite id payload fin = some r) (hc : s.closed = true) : r.1 = s := by
  unfold startWrite at h
  rw [if_pos hc] at h
  cases h
  rfl

end Shared

namespace Endpoint

variable {l : Limits} {isClient : Bool} {e e' : Endpoint} {log evs : List Event} {id : Nat}

/-- The write call of the stream takes a step. -/
def writes (id : Nat) (a : Act) : Prop := a = .acquire id ∨ a = .enqueue id ∨ a = .finish id

/-- A step on a closed connection leaves a write no more awaits than it had, and fewer if it is one of the write. -/
theorem writeLeft_of_step (hr : (machine l isClient).Reach e log) (hc : e.shared.closed = true)
    (hid : e.shared.ids.Opened id) (a : Act) (h : e.step a = some (e', evs)) :
    e'.shared.writeLeft id ≤ e.shared.writeLeft id ∧
      (writes id a → e'.shared.writeLeft id < e.shared.writeLeft id) := by
  by_cases hown : a.own = some id
  · cases step_cases h with
    | writeRefused =>
      refine ⟨le_rfl, fun hw => ?_⟩
      rcases hw with hw | hw | hw <;> cases hw
    | write mode j payload fin sendMode r hh hm hw =>
      cases hown
      refine ⟨?_, fun hw => by rcases hw with hw | hw | hw <;> cases hw⟩
      have hsame := Shared.startWrite_closed payload fin r hw hc
      simp only [hsame]
      exact le_rfl
    | acquire j s hs =>
      cases hown
      have hlt := Shared.acquireWrite_left hs
      exact ⟨hlt.le, fun _ => hlt⟩
    | enqueue j s w hs =>
      cases hown
      have hlt := Shared.enqueueWrite_left hc _ hs
      exact ⟨hlt.le, fun _ => hlt⟩
    | enqueueFailed j s error hs =>
      cases hown
      have hlt := Shared.enqueueWrite_left hc _ hs
      exact ⟨hlt.le, fun _ => hlt⟩
    | finish j s hs =>
      cases hown
      have hlt := Shared.finishWrite_left hs
      exact ⟨hlt.le, fun _ => hlt⟩
    | cancel j =>
      cases hown
      refine ⟨?_, fun hw => by rcases hw with hw | hw | hw <;> cases hw⟩
      simp [Shared.cancelWrite_left]
    | dropSend j =>
      cases hown
      refine ⟨?_, fun hw => by rcases hw with hw | hw | hw <;> cases hw⟩
      exact (e.shared.cancelWrite_left id).trans_le (Nat.zero_le _)
    | _ => cases hown
  · have hpending := (passes_of_step (Sender.reach_wf (reach_sender hr)) a h).pending id hid hown
    refine ⟨(congrArg (fun p => p.elim 0 fun w => 6 - w.stage.rank) hpending).le, fun hw => absurd ?_ hown⟩
    rcases hw with rfl | rfl | rfl <;> rfl

/-- Once `mark_closed` has run, a pending write waits for nothing: the semaphores of the connection are closed, and the
permits of the stream are back. -/
theorem canWrite_of_shut (h : (machine l isClient).Reach e log) (hs : e.shared.cleanupStarted = true)
    {w : PendingWrite} (hw : (e.shared.send id).pending = some w) : e.canWrite id = true := by
  obtain ⟨hconn, hframes⟩ := Bool.and_eq_true_iff.mp (reach_cut h hs)
  exact canWrite_of_connection h ((reach_shut h hs).chunks id) hw (fun _ => .inl hframes) fun _ => .inl hconn

end Endpoint

namespace TaskGroup

variable {l : Limits} {isClient keepalive : Bool} {g g' : TaskGroup} {a : GroupAct} {log evs : List Event}
  {x : Exec (waitLoops.step step)} {id : Nat}

theorem opened_stays (h : Scheduled l isClient keepalive x) {n m : ℕ} (hle : n ≤ m)
    (hid : (x.state n).state.endpoint.shared.ids.Opened id) : (x.state m).state.endpoint.shared.ids.Opened id := by
  refine x.stays (fun w => w.state.endpoint.shared.ids.Opened id) hle ?_ hid
  intro k b evs _ hb hq
  obtain ⟨log, hr⟩ := h.reach k
  have hbase := reach_endpoint (WaitLoops.reach_state hr)
  rcases WaitLoops.state_of_step hb with ⟨a, -, ha⟩ | hsame
  · rcases endpoint_of_step ha with ⟨-, hsame, -⟩ | ⟨c, -, hc⟩
    · rwa [hsame]
    · have hv := Sender.reach_wf (Endpoint.reach_sender hbase)
      exact (Sender.ids_step hv (Endpoint.reach_sendStep hbase c hc)).2 id hq
  · rwa [hsame]

/-- The write call of the stream takes a step. -/
def writes (id : Nat) (b : WatchedAct GroupAct GroupWaiter) : Prop := ∃ c, b = .act (.act c) ∧ Endpoint.writes id c

/-- A write that can go on has an action. -/
theorem writes_enabled {w : Watched TaskGroup GroupWaiter} (h : w.state.endpoint.canWrite id = true) :
    Exec.Enabled (waitLoops.step step) (writes id) w := by
  have hturn : ∀ c, Endpoint.writes id c → Endpoint.looks c = none → w.state.ready (.act c) = true →
      (w.state.endpoint.step c).isSome = true → Exec.Enabled (waitLoops.step step) (writes id) w := by
    intro c hc hlook hready hs
    refine ⟨.act (.act c), ⟨c, rfl, hc⟩, ?_⟩
    obtain ⟨r, hr⟩ := Option.isSome_iff_exists.mp hs
    have harm : waitLoops.arm w (.act c) = some w.notify := by
      simp [WaitLoops.arm, waitLoops, looks, hlook]
    simp [WaitLoops.step, harm, step, hready, performs, hr]
  simp only [Endpoint.canWrite, Bool.or_eq_true] at h
  rcases h with (h | h) | h
  · exact hturn _ (.inl rfl) rfl rfl h
  · exact hturn _ (.inr (.inl rfl)) rfl rfl h
  · exact hturn _ (.inr (.inr rfl)) rfl rfl h

theorem writeLeft_of_step {w w' : Watched TaskGroup GroupWaiter} {b : WatchedAct GroupAct GroupWaiter}
    (hr : (watched l isClient keepalive).Reach w log) (hc : w.state.endpoint.shared.closed = true)
    (hid : w.state.endpoint.shared.ids.Opened id) (h : waitLoops.step step w b = some (w', evs)) :
    w'.state.endpoint.shared.writeLeft id ≤ w.state.endpoint.shared.writeLeft id ∧
      (writes id b → w'.state.endpoint.shared.writeLeft id < w.state.endpoint.shared.writeLeft id) := by
  have hbase := reach_endpoint (WaitLoops.reach_state hr)
  cases b with
  | act a =>
    obtain ⟨-, -, ha, -⟩ := WaitLoops.act_cases h
    rcases endpoint_of_step ha with ⟨hp, hsame, -⟩ | ⟨c, hp, hs⟩
    · rw [hsame]
      refine ⟨le_rfl, ?_⟩
      rintro ⟨c, hb, -⟩
      cases hb
      cases hp
    · have hleft := Endpoint.writeLeft_of_step hbase hc hid c hs
      refine ⟨hleft.1, ?_⟩
      rintro ⟨c', hb, hw⟩
      cases hb
      cases hp
      exact hleft.2 hw
  | _ =>
    rcases WaitLoops.state_of_step h with ⟨a, hb, -⟩ | hsame
    · cases hb
    · rw [hsame]
      refine ⟨le_rfl, ?_⟩
      rintro ⟨c, hb, -⟩
      cases hb

/-- Every write of a closed connection returns: from some time on the stream has no pending write and all its permits
are back, whatever the write was waiting for when the connection was closed. -/
theorem write_returns (h : Scheduled l isClient keepalive x) (hcall : x.Fair (writes id)) (n : ℕ)
    (hid : (x.state n).state.endpoint.shared.ids.Opened id)
    (hc : (x.state n).state.endpoint.shared.closed = true) :
    ∃ m, n ≤ m ∧ ∀ k, m ≤ k → ((x.state k).state.endpoint.shared.send id).pending = none ∧
      ((x.state k).state.endpoint.shared.budget.streamBytes id).permits = l.maxOutboundStreamBytes ∧
      ((x.state k).state.endpoint.shared.budget.streamFrames id).permits =
        l.maxQueuedOutboundFrames / l.maxOpenStreams := by
  obtain ⟨j, hj, -, -, hshut⟩ := eventually_joined h n (.inl hc)
  have hclosed : ∀ m, j ≤ m → (x.state m).state.endpoint.shared.closed = true := fun m hm =>
    closed_stays x (hj.trans hm) hc
  have hopened : ∀ m, j ≤ m → (x.state m).state.endpoint.shared.ids.Opened id := fun m hm =>
    opened_stays h (hj.trans hm) hid
  have hdown : ∀ m b evs, j ≤ m → waitLoops.step step (x.state m) b = some (x.state (m + 1), evs) →
      (x.state (m + 1)).state.endpoint.shared.writeLeft id ≤ (x.state m).state.endpoint.shared.writeLeft id ∧
        (writes id b → (x.state (m + 1)).state.endpoint.shared.writeLeft id <
          (x.state m).state.endpoint.shared.writeLeft id) := by
    intro m b evs hm hb
    obtain ⟨log, hr⟩ := h.reach m
    exact writeLeft_of_step hr (hclosed m hm) (hopened m hm) hb
  -- once `mark_closed` has run, the write can always go on, and each of its steps leaves it fewer awaits
  obtain ⟨m, hm, hnone⟩ := x.eventually hcall (fun w => w.state.endpoint.shared.writeLeft id = 0)
    (fun w => w.state.endpoint.shared.writeLeft id) j
    (fun m hm hpending => by
      obtain ⟨log, hr⟩ := h.reach m
      obtain ⟨w, hw⟩ := Option.ne_none_iff_exists'.mp fun hp => hpending (Shared.writeLeft_eq_zero.mpr hp)
      exact writes_enabled (Endpoint.canWrite_of_shut (reach_endpoint (WaitLoops.reach_state hr))
        (shut_stays x hm hshut) hw))
    fun m b evs hm _ hb => .inr (hdown m b evs hm hb)
  refine ⟨m, hj.trans hm, fun k hk => ?_⟩
  have hstays : (x.state k).state.endpoint.shared.writeLeft id = 0 :=
    x.stays (fun w => w.state.endpoint.shared.writeLeft id = 0) hk
      (fun i b evs hi hb hq => Nat.le_zero.mp ((hdown i b evs (hm.trans hi) hb).1.trans_eq hq)) hnone
  have hpending := Shared.writeLeft_eq_zero.mp hstays
  obtain ⟨log, hr⟩ := h.reach k
  have hbase := reach_endpoint (WaitLoops.reach_state hr)
  have hempty := (Endpoint.reach_shut hbase (shut_stays x (hm.trans hk) hshut)).chunks id
  obtain ⟨hbytes, hframes⟩ := (Endpoint.reach_balanced hbase).stream_left (hopened k (hm.trans hk)) hempty
  rw [hpending] at hbytes hframes
  exact ⟨hpending, hbytes, hframes⟩

end TaskGroup
end Muxtls
