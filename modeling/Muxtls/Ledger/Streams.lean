import Muxtls.Ledger.Tasks
import Muxtls.Lib.RangeSum

namespace Muxtls
namespace Ledger

variable {l : Limits} {isClient : Bool} {v v' : Ledger} {log evs : List Event} {id : Nat}

/-- A stream leaves the map after its peer has ended it, or with the whole map. -/
def Retired (v : Ledger) : Prop :=
  ∀ id, v.ids.Opened id → id ∉ v.streams → v.shut = true ∨ v.terminal id = true

theorem Retired.create (h : v.Retired) {ids : Ids} {id : Nat} (life : StreamLife)
    (ho : ∀ j, ids.Opened j ↔ v.ids.Opened j ∨ j = id) : (v.create ids id life).Retired := by
  intro j hj hm
  have hne : j ≠ id := fun he => hm (List.mem_append_right _ (List.mem_singleton.mpr he))
  have hold := h j (((ho j).mp hj).resolve_right hne) fun hs => hm (List.mem_append_left _ hs)
  simpa [Ledger.create, hne] using hold

theorem retired_op (h : v.Retired) {op : TaskOp} {more : List TaskOp} (hop : OpStep v op evs v' more) :
    v'.Retired := by
  cases hop with
  | remove id ht =>
    intro j hj hm
    by_cases he : j = id
    · subst he
      exact .inr ht
    · refine h j hj fun hs => hm (List.mem_filter.mpr ⟨hs, ?_⟩)
      simpa using he
  | _ => exact h

theorem retired_step (hk : v.Known) (h : v.Retired) (hs : LedgerStep v evs v') : v'.Retired := by
  cases hs with
  | shut => exact fun _ _ _ => .inl rfl
  | openLocal ho hid => exact h.create _ fun j => Ids.opened_takeLocal hk.ids j
  | openRemote n incoming hp hid hin => exact h.create { openPermit := true } fun j => Ids.opened_takeRemote hk.ids j
  | ended f id hd ht hm =>
    intro j hj hjm
    refine (h j hj hjm).imp_right fun htj => ?_
    by_cases he : j = id
    · simp [Ledger.setTodo, he]
    · simpa [Ledger.setTodo, he] using htj
  | work v₁ task op ops more _ ht hop =>
    have hr : v₁.Retired := retired_op h hop
    exact hr
  | _ => exact h

theorem reach_retired (h : (machine l isClient).Reach v log) : v.Retired := by
  refine h.invariant (fun v _ => v.Retired) ?_ fun _ _ _ _ hr hv hs => retired_step (reach_known hr) hv hs
  intro v (hi : v = _) id hid
  subst hi
  exact absurd hid (Ids.not_opened_start isClient id)

/-- STOP_SENDING is queued at most once for a stream, by the worker that discards its direction; it
is not queued for a direction that has ended, or on a closed connection. -/
structure Stops (v : Ledger) (log : List Event) : Prop where
  once : ∀ id, (v.todo .cleanup).count (.stopSending id) + log.count (.stopQueued id) ≤ (v.discarded id).toNat
  asked : ∀ id, v.discarded id = true → v.terminal id = true ∨ v.closed = true ∨
    .stopQueued id ∈ log ∨ .stopSending id ∈ v.todo .cleanup

theorem count_stopQueued_idle (h : ∀ e ∈ evs, e.Idle) (id : Nat) : evs.count (.stopQueued id) = 0 :=
  List.count_eq_zero.mpr fun hm => h _ hm

/-- A step that concerns neither discarded streams nor the worker's list. -/
theorem Stops.keep (h : v.Stops log) (hev : ∀ id, evs.count (.stopQueued id) = 0)
    (hd : ∀ id, v'.discarded id = v.discarded id)
    (ht : ∀ id, v'.terminal id = true ∨ v.terminal id = false ∨ v.discarded id = false)
    (hc : v.closed = true → v'.closed = true)
    (htodo : ∀ id, (v'.todo .cleanup).count (.stopSending id) = (v.todo .cleanup).count (.stopSending id)) :
    v'.Stops (log ++ evs) := by
  refine ⟨?_, ?_⟩
  · intro id
    rw [List.count_append, hev id, Nat.add_zero, htodo id, hd id]
    exact h.once id
  · intro id hx
    rw [hd id] at hx
    rcases h.asked id hx with hterm | hclosed | hlog | hmem
    · rcases ht id with ht | ht | ht
      · exact .inl ht
      · rw [hterm] at ht
        cases ht
      · rw [hx] at ht
        cases ht
    · exact .inr (.inl (hc hclosed))
    · exact .inr (.inr (.inl (List.mem_append_left _ hlog)))
    · refine .inr (.inr (.inr ?_))
      rw [← List.count_pos_iff, htodo id, List.count_pos_iff]
      exact hmem

theorem Stops.same (h : v.Stops log) (hev : ∀ id, evs.count (.stopQueued id) = 0) (hd : v'.discarded = v.discarded)
    (ht : v'.terminal = v.terminal) (hc : v.closed = true → v'.closed = true)
    (htodo : v'.todo .cleanup = v.todo .cleanup) : v'.Stops (log ++ evs) := by
  refine h.keep hev (fun id => by rw [hd]) (fun id => ?_) hc fun id => by rw [htodo]
  cases hx : v.terminal id
  · exact .inr (.inl rfl)
  · exact .inl (by rw [ht, hx])

theorem Stops.create (hk : v.Known) (h : v.Stops log) (hev : ∀ id, evs.count (.stopQueued id) = 0) (ids : Ids)
    {id : Nat} (life : StreamLife) (hn : ¬ v.ids.Opened id) : (v.create ids id life).Stops (log ++ evs) := by
  obtain ⟨ht, hd⟩ := hk.marks id hn
  have hdis : (v.create ids id life).discarded = v.discarded := Function.update_eq_self_iff.mpr hd.symm
  have hterm : (v.create ids id life).terminal = v.terminal := Function.update_eq_self_iff.mpr ht.symm
  exact h.same hev hdis hterm (fun hc => hc) rfl

/-- The worker discards a direction: it had no STOP_SENDING queued before. -/
theorem Stops.discard (h : v.Stops log) (hsh : v.shares id ≤ 1) {ops : List TaskOp}
    (ht : v.todo .cleanup = .cleanRecv id :: ops) (hd : (v.life id).recvDropped = true) :
    Stops
      ({ v.setLife id { v.life id with recvDropped := false } with
        discarded := Function.update v.discarded id true }.setTodo .cleanup
        ((if !v.terminal id && !v.closed then [TaskOp.stopSending id, .retire id] else [.retire id]) ++ ops))
      log := by
  have hnew : v.discarded id = false := by
    unfold shares at hsh
    rw [hd, Bool.toNat_true] at hsh
    exact Bool.toNat_eq_zero.mp (by omega)
  have hcount : ∀ j, ops.count (.stopSending j) = (v.todo .cleanup).count (.stopSending j) := by
    intro j
    rw [ht, List.count_cons_of_ne (by simp)]
  have hzero := h.once id
  rw [hnew, Bool.toNat_false] at hzero
  refine ⟨?_, ?_⟩
  · intro j
    simp only [setTodo, Function.update_self, List.count_append, hcount]
    by_cases hj : j = id
    · subst hj
      simp only [Function.update_self, Bool.toNat_true]
      split_ifs
      · simp only [List.count_cons_self, List.count_cons_of_ne (show TaskOp.retire j ≠ .stopSending j by simp),
          List.count_nil]
        omega
      · simp only [List.count_cons_of_ne (show TaskOp.retire j ≠ .stopSending j by simp), List.count_nil]
        omega
    · have hold := h.once j
      have hnone : (if !v.terminal id && !v.closed then [TaskOp.stopSending id, .retire id]
          else [.retire id]).count (.stopSending j) = 0 := by
        rw [List.count_eq_zero]
        split_ifs <;> simp [hj]
      rw [hnone, Function.update_of_ne hj]
      omega
  · intro j hx
    by_cases hj : j = id
    · subst hj
      simp only [setTodo, Function.update_self]
      cases hterm : v.terminal j with
      | true => exact .inl hterm
      | false =>
        cases hclosed : v.closed with
        | true => exact .inr (.inl hclosed)
        | false => exact .inr (.inr (.inr (by simp)))
    · simp only [setTodo, Function.update_of_ne hj] at hx
      rcases h.asked j hx with hterm | hclosed | hlog | hmem
      · exact .inl hterm
      · exact .inr (.inl hclosed)
      · exact .inr (.inr (.inl hlog))
      · refine .inr (.inr (.inr ?_))
        simp only [setTodo, Function.update_self]
        refine List.mem_append_right _ ?_
        rw [ht] at hmem
        exact (List.mem_cons.mp hmem).resolve_left (by simp)

theorem Stops.queued (h : v.Stops log) {ops : List TaskOp} (ht : v.todo .cleanup = .stopSending id :: ops) :
    (v.setTodo .cleanup ops).Stops (log ++ [.stopQueued id]) := by
  refine ⟨?_, ?_⟩
  · intro j
    have hold := h.once j
    rw [ht] at hold
    simp only [setTodo, Function.update_self, List.count_append]
    by_cases hj : j = id
    · subst hj
      simp only [List.count_cons_self, List.count_nil] at hold ⊢
      omega
    · have hne : TaskOp.stopSending id ≠ .stopSending j := by simpa using Ne.symm hj
      have hne' : Event.stopQueued id ≠ .stopQueued j := by simpa using Ne.symm hj
      simp only [List.count_cons_of_ne hne, List.count_cons_of_ne hne', List.count_nil] at hold ⊢
      exact hold
  · intro j hx
    rcases h.asked j hx with hterm | hclosed | hlog | hmem
    · exact .inl hterm
    · exact .inr (.inl hclosed)
    · exact .inr (.inr (.inl (List.mem_append_left _ hlog)))
    · rw [ht] at hmem
      rcases List.mem_cons.mp hmem with he | hmem
      · cases he
        exact .inr (.inr (.inl (List.mem_append_right _ List.mem_cons_self)))
      · refine .inr (.inr (.inr ?_))
        simpa [setTodo] using hmem

theorem Stops.failed (h : v.Stops log) {ops : List TaskOp} (ht : v.todo .cleanup = .stopSending id :: ops)
    (hc : v.closed = true) : (v.setTodo .cleanup ops).Stops log := by
  refine ⟨?_, fun _ _ => .inr (.inl hc)⟩
  intro j
  have hold := h.once j
  rw [ht] at hold
  simp only [setTodo, Function.update_self]
  have hle := List.count_le_count_cons (a := TaskOp.stopSending j) (b := .stopSending id) (l := ops)
  omega

theorem stops_work (hk : v.Known) (hsh : ∀ id, v.shares id ≤ 1) (h : v.Stops log) {task : Task} {op : TaskOp}
    {ops more : List TaskOp} (ht : v.todo task = op :: ops) (hop : OpStep v op evs v' more) :
    (v'.setTodo task (more ++ ops)).Stops (log ++ evs) := by
  have hf := opFrame hop
  have hof : op.Of task := hk.todo task op (ht ▸ List.mem_cons_self)
  -- the list of the worker changes by steps other than STOP_SENDING, or it does not change
  have hother : (∀ id, evs.count (.stopQueued id) = 0) → v'.discarded = v.discarded →
      (∀ id, op ≠ .stopSending id) → (∀ id, .stopSending id ∉ more) →
      (v'.setTodo task (more ++ ops)).Stops (log ++ evs) := by
    intro hev hd hne hmore
    refine h.keep hev (fun id => congrFun hd id) (fun id => ?_) (fun hc => hf.closed.trans hc) fun id => ?_
    · cases hx : v.terminal id
      · exact .inr (.inl rfl)
      · exact .inl ((congrFun hf.terminal id).trans hx)
    · by_cases he : Task.cleanup = task
      · subst he
        simp only [setTodo, Function.update_self]
        rw [ht, List.count_append, List.count_cons_of_ne (hne id), List.count_eq_zero.mpr (hmore id), Nat.zero_add]
      · simp only [setTodo, Function.update_of_ne he, hf.todo]
  cases hop with
  | skip _ _ hskip hlog =>
    refine hother (count_stopQueued_idle hlog) rfl ?_ (by simp)
    rintro id rfl
    exact hskip
  | markClosed hc => exact hother (by simp) rfl (by simp) (by simp)
  | complete id hm => exact hother (by simp) rfl (by simp) (by simp)
  | retire id hm hc hterm => exact hother (by simp) rfl (by simp) (by simp)
  | remove id hterm => exact hother (by simp) rfl (by simp) (by simp)
  | cleanSend id _ hd hlog => exact hother (count_stopQueued_idle hlog) rfl (by simp) (by simp)
  | cleanRecv id hd =>
    have hc : task = .cleanup := hof
    subst hc
    rw [List.append_nil]
    exact h.discard (hsh id) ht hd
  | stopQueued id =>
    have hc : task = .cleanup := hof
    subst hc
    exact h.queued ht
  | stopFailed id hclosed =>
    have hc : task = .cleanup := hof
    subst hc
    rw [List.append_nil]
    exact h.failed ht hclosed

theorem stops_step (hk : v.Known) (hsh : ∀ id, v.shares id ≤ 1) (h : v.Stops log) (hs : LedgerStep v evs v') :
    v'.Stops (log ++ evs) := by
  have hnil : ∀ id, ([] : List Event).count (.stopQueued id) = 0 := by simp
  cases hs with
  | quiet _ hlog => exact h.same (count_stopQueued_idle hlog) rfl rfl (fun hc => hc) rfl
  | close => exact h.same hnil rfl rfl (fun _ => rfl) rfl
  | shut => exact h.same hnil rfl rfl (fun _ => rfl) rfl
  | openLocal ho hid =>
    have hc := h.create hk hnil v.ids.takeLocal { openPermit := true, sendHandles := 1, recvHandles := 1 }
      (Ids.not_opened_nextLocal hk.ids)
    exact { hc with }
  | openRemote n incoming hp hid hin =>
    have hc := h.create hk hnil v.ids.takeRemote { openPermit := true } (Ids.not_opened_nextRemote hk.ids)
    exact { hc with }
  | cleanup order ht =>
    have hcount :
        ∀ id, (order.flatMap fun id => [TaskOp.cleanSend id, .cleanRecv id]).count (.stopSending id) = 0 := by
      intro id
      rw [List.count_eq_zero]
      intro hm
      obtain ⟨j, -, hj⟩ := List.mem_flatMap.mp hm
      simp at hj
    refine h.keep hnil (fun _ => rfl) (fun id => ?_) (fun hc => hc) fun id => ?_
    · cases hx : v.terminal id
      · exact .inr (.inl rfl)
      · exact .inl hx
    · simp only [setTodo, Function.update_self]
      rw [hcount id, ht, List.count_nil]
  | emit f hd hh ht => exact h.same (by simp) rfl rfl (fun hc => hc) rfl
  | sent f hh => exact h.same (by simp) rfl rfl (fun hc => hc) rfl
  | stopWriter => exact h.same hnil rfl rfl (fun hc => hc) rfl
  | received f hd ht => exact h.same (by simp) rfl rfl (fun hc => hc) rfl
  | ended f id hd ht hm =>
    refine h.keep (by simp) (fun _ => rfl) (fun j => ?_) (fun hc => hc) fun j => rfl
    by_cases hj : j = id
    · exact .inl (by simp [setTodo, hj])
    · cases hx : v.terminal j
      · exact .inr (.inl rfl)
      · exact .inl (by simpa [setTodo, hj] using hx)
  | stopReader ops hops _ => exact h.same hnil rfl rfl (fun hc => hc) rfl
  | work v₁ task op ops more _ ht hop => exact stops_work hk hsh h ht hop
  | _ => exact h.same hnil rfl rfl (fun hc => hc) rfl

theorem reach_stops (h : (machine l isClient).Reach v log) : v.Stops log := by
  refine h.invariant Stops ?_ fun _ _ _ _ hr hv hs => stops_step (reach_known hr) (reach_shares hr) hv hs
  intro v (hi : v = _)
  subst hi
  refine ⟨fun _ => le_refl _, ?_⟩
  intro id hd
  cases hd

/-- The admission permits: in the semaphore, with an `open_bi` call, or with a stream. -/
def Permits (l : Limits) (v : Ledger) : Prop :=
  v.permits + v.opening.toNat + ∑ id ∈ Finset.range v.ids.bound, (v.life id).openPermit.toNat = l.maxOpenStreams

theorem openPermit_setLife (id : Nat) (life : StreamLife) (hl : life.openPermit = (v.life id).openPermit) (j : Nat) :
    ((v.setLife id life).life j).openPermit = (v.life j).openPermit := by
  by_cases hj : j = id
  · subst hj
    simp only [setLife, Function.update_self, hl]
  · simp only [setLife, Function.update_of_ne hj]

theorem Permits.keep (h : v.Permits l) (hp : v'.permits = v.permits) (ho : v'.opening = v.opening)
    (hi : v'.ids = v.ids) (hl : ∀ j, (v'.life j).openPermit = (v.life j).openPermit) : v'.Permits l := by
  unfold Permits at h ⊢
  simp only [hp, ho, hi, hl]
  exact h

/-- A stream gives its permit back, if it still has it. -/
theorem Permits.release (h : v.Permits l) (hid : v.ids.Opened id) :
    Permits l
      { v.setLife id { v.life id with openPermit := false } with
        permits := v.permits + (v.life id).openPermit.toNat } := by
  have hu := RangeSum.update (fun j => (v.life j).openPermit.toNat) hid.lt_bound 0
  have hf : (fun j => ((v.setLife id { v.life id with openPermit := false }).life j).openPermit.toNat) =
      Function.update (fun j => (v.life j).openPermit.toNat) id 0 :=
    Function.comp_update (fun life : StreamLife => life.openPermit.toNat) v.life id _
  rw [← hf] at hu
  unfold Permits at h ⊢
  simp only at h hu ⊢
  have hids : (v.setLife id { v.life id with openPermit := false }).ids = v.ids := rfl
  have hop : (v.setLife id { v.life id with openPermit := false }).opening = v.opening := rfl
  rw [hids, hop]
  omega

/-- A new stream has a permit. -/
theorem Permits.create_sum (hk : v.Known) {ids : Ids} {id : Nat} (life : StreamLife) (hlife : life.openPermit = true)
    (hle : v.ids.bound ≤ ids.bound) (hid : ids.Opened id) (hn : ¬ v.ids.Opened id) :
    ∑ j ∈ Finset.range ids.bound, ((v.create ids id life).life j).openPermit.toNat =
      ∑ j ∈ Finset.range v.ids.bound, (v.life j).openPermit.toNat + 1 := by
  have hu := RangeSum.update (fun j => (v.life j).openPermit.toNat) hid.lt_bound 1
  have hx : ∑ j ∈ Finset.range ids.bound, (v.life j).openPermit.toNat =
      ∑ j ∈ Finset.range v.ids.bound, (v.life j).openPermit.toNat := by
    refine RangeSum.extend hle fun j hj => ?_
    rw [hk.life j fun hop => absurd hop.lt_bound (Nat.not_lt.mpr hj)]
    rfl
  have hf : (fun j => ((v.create ids id life).life j).openPermit.toNat) =
      Function.update (fun j => (v.life j).openPermit.toNat) id 1 := by
    refine (Function.comp_update (fun life : StreamLife => life.openPermit.toNat) v.life id life).trans ?_
    simp only [hlife, Bool.toNat_true]
    rfl
  have hz : (v.life id).openPermit.toNat = 0 := by
    rw [hk.life id hn]
    rfl
  rw [← hf] at hu
  simp only at hu
  omega

theorem permits_step (hk : v.Known) (h : v.Permits l) (hs : LedgerStep v evs v') : v'.Permits l := by
  cases hs with
  | openStart n hp ho =>
    unfold Permits at h ⊢
    rw [ho, hp, Bool.toNat_false] at h
    simp only [Bool.toNat_true]
    omega
  | openFail ho =>
    unfold Permits at h ⊢
    rw [ho, Bool.toNat_true] at h
    simp only [Bool.toNat_false]
    omega
  | openLocal ho hid =>
    have hopen := (Ids.opened_takeLocal hk.ids v.ids.nextLocal).mpr (.inr rfl)
    have hsum := Permits.create_sum hk { openPermit := true, sendHandles := 1, recvHandles := 1 } rfl
      (Ids.bound_takeLocal v.ids) hopen (Ids.not_opened_nextLocal hk.ids)
    unfold Permits at h ⊢
    rw [ho, Bool.toNat_true] at h
    refine Eq.trans (congrArg (v.permits + 0 + ·) hsum) ?_
    omega
  | openRemote n incoming hp hid hin =>
    have hopen := (Ids.opened_takeRemote hk.ids v.ids.nextRemote).mpr (.inr rfl)
    have hsum := Permits.create_sum hk { openPermit := true } rfl
      (Ids.bound_takeRemote v.ids) hopen (Ids.not_opened_nextRemote hk.ids)
    unfold Permits at h ⊢
    rw [hp] at h
    refine Eq.trans (congrArg (n + v.opening.toNat + ·) hsum) ?_
    omega
  | accept id incoming hin => exact h.keep rfl rfl rfl (openPermit_setLife id _ rfl)
  | dropSend id hh => exact h.keep rfl rfl rfl (openPermit_setLife id _ rfl)
  | dropRecv id hh => exact h.keep rfl rfl rfl (openPermit_setLife id _ rfl)
  | work v₁ task op ops more _ ht hop =>
    cases hop with
    | complete id hm => exact h.keep rfl rfl rfl (openPermit_setLife id _ rfl)
    | retire id hm hc hterm => exact h.release (hk.streams id hm)
    | cleanSend id _ hd hlog => exact h.keep rfl rfl rfl (openPermit_setLife id _ rfl)
    | cleanRecv id hd => exact h.keep rfl rfl rfl (openPermit_setLife id _ rfl)
    | _ => exact h.keep rfl rfl rfl fun _ => rfl
  | _ => exact h.keep rfl rfl rfl fun _ => rfl

/-- No admission permit is lost or made. -/
theorem reach_permits (h : (machine l isClient).Reach v log) : v.Permits l := by
  refine h.invariant (fun v _ => v.Permits l) ?_ fun _ _ _ _ hr hv hs => permits_step (reach_known hr) hv hs
  intro v (hi : v = _)
  subst hi
  have hz : ∑ id ∈ Finset.range (Ids.start isClient).bound,
      ((Endpoint.ledger { shared := .new l isClient }).life id).openPermit.toNat = 0 :=
    Finset.sum_eq_zero fun _ _ => rfl
  exact congrArg (l.maxOpenStreams + 0 + ·) hz

end Ledger
end Muxtls
