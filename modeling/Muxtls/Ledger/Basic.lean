import Muxtls.Ledger.Refine
import Muxtls.Sender.Basic

namespace Muxtls

/-- The task that may have the step in its list. -/
def TaskOp.Of (task : Task) : TaskOp → Prop
  | .complete _ => task = .writer
  | .cleanSend _ => task = .cleanup
  | .cleanRecv _ => task = .cleanup
  | .stopSending _ => task = .cleanup
  | _ => True

namespace Ledger

variable {l : Limits} {isClient : Bool} {v v' : Ledger} {log evs : List Event}

/-- A stream that was never opened has left no trace. -/
structure Known (v : Ledger) : Prop where
  ids : v.ids.WF
  streams : ∀ id ∈ v.streams, v.ids.Opened id
  incoming : ∀ id ∈ v.incoming, v.ids.Opened id
  life : ∀ id, ¬ v.ids.Opened id → v.life id = {}
  marks : ∀ id, ¬ v.ids.Opened id → v.terminal id = false ∧ v.discarded id = false
  todo : ∀ task, ∀ op ∈ v.todo task, op.Of task
  stops : ∀ task id, .stopSending id ∈ v.todo task → v.ids.Opened id

section Known

variable (h : v.Known)
include h

theorem Known.opened_of_life {id : Nat} (hl : v.life id ≠ {}) : v.ids.Opened id := by
  by_contra hn
  exact hl (h.life id hn)

theorem Known.setLife {id : Nat} (life : StreamLife) (hid : v.ids.Opened id) : (v.setLife id life).Known :=
  { h with
    life := by
      intro j hj
      have hne : j ≠ id := fun he => hj (he ▸ hid)
      simp only [Ledger.setLife, Function.update_of_ne hne]
      exact h.life j hj }

theorem Known.setTodo (task : Task) (ops : List TaskOp) (hops : ∀ op ∈ ops, op.Of task)
    (hstops : ∀ id, .stopSending id ∈ ops → v.ids.Opened id) : (v.setTodo task ops).Known :=
  { h with
    todo := by
      intro t op hop
      by_cases ht : t = task
      · subst ht
        simp only [Ledger.setTodo, Function.update_self] at hop
        exact hops op hop
      · simp only [Ledger.setTodo, Function.update_of_ne ht] at hop
        exact h.todo t op hop
    stops := by
      intro t id hop
      by_cases ht : t = task
      · subst ht
        simp only [Ledger.setTodo, Function.update_self] at hop
        exact hstops id hop
      · simp only [Ledger.setTodo, Function.update_of_ne ht] at hop
        exact h.stops t id hop }

theorem Known.create {ids : Ids} {id : Nat} (life : StreamLife) (hi : ids.WF) (hle : v.ids.Le ids)
    (hid : ids.Opened id) : (v.create ids id life).Known where
  ids := hi
  streams := by
    intro j hj
    rcases List.mem_append.mp hj with hj | hj
    · exact hle.2 j (h.streams j hj)
    · rw [List.mem_singleton.mp hj]
      exact hid
  incoming := fun j hj => hle.2 j (h.incoming j hj)
  life := by
    intro j hj
    have hne : j ≠ id := fun he => hj (he ▸ hid)
    simp only [Ledger.create, Function.update_of_ne hne]
    exact h.life j fun ho => hj (hle.2 j ho)
  marks := by
    intro j hj
    have hne : j ≠ id := fun he => hj (he ▸ hid)
    simp only [Ledger.create, Function.update_of_ne hne]
    exact h.marks j fun ho => hj (hle.2 j ho)
  todo := h.todo
  stops := fun task j hj => hle.2 j (h.stops task j hj)

theorem Known.mark {id : Nat} (terminal discarded : Nat → Bool) (hid : v.ids.Opened id)
    (ht : ∀ j, j ≠ id → terminal j = v.terminal j) (hd : ∀ j, j ≠ id → discarded j = v.discarded j) :
    ({ v with terminal := terminal, discarded := discarded } : Ledger).Known :=
  { h with
    marks := by
      intro j hj
      have hne : j ≠ id := fun he => hj (he ▸ hid)
      simp only [ht j hne, hd j hne]
      exact h.marks j hj }

theorem Known.op {op : TaskOp} {more : List TaskOp} (task : Task) (hop : op.Of task)
    (hstop : ∀ id, op = .stopSending id → v.ids.Opened id) (hs : OpStep v op evs v' more) :
    v'.Known ∧ v'.todo = v.todo ∧ v'.ids = v.ids ∧ (∀ op ∈ more, op.Of task) ∧
      ∀ id, .stopSending id ∈ more → v.ids.Opened id := by
  cases hs with
  | skip => exact ⟨h, rfl, rfl, by simp, by simp⟩
  | markClosed hc => exact ⟨h, rfl, rfl, by simp, by simp⟩
  | complete id hid =>
    exact ⟨h.setLife _ (h.streams id hid), rfl, rfl, by simp, by simp⟩
  | retire id hid hc ht =>
    have hk := h.setLife { v.life id with openPermit := false } (h.streams id hid)
    exact ⟨{ hk with }, rfl, rfl, by simp [TaskOp.Of], by simp⟩
  | remove id ht =>
    exact ⟨{ h with streams := fun j hj => h.streams j (List.mem_of_mem_filter hj) }, rfl, rfl, by simp, by simp⟩
  | cleanSend id _ hd hlog =>
    have ho : v.ids.Opened id := h.opened_of_life fun he => by rw [he] at hd; cases hd
    exact ⟨h.setLife _ ho, rfl, rfl, by simp [TaskOp.Of], by simp⟩
  | cleanRecv id hd =>
    have ho : v.ids.Opened id := h.opened_of_life fun he => by rw [he] at hd; cases hd
    have hk := (h.setLife { v.life id with recvDropped := false } ho).mark v.terminal
      (Function.update v.discarded id true) ho (fun _ _ => rfl) fun j hj => Function.update_of_ne hj _ _
    have hc : task = .cleanup := hop
    refine ⟨hk, rfl, rfl, ?_, ?_⟩
    · split_ifs <;> simp [TaskOp.Of, hc]
    · intro j hj
      split_ifs at hj
      · simp only [List.mem_cons, TaskOp.stopSending.injEq, reduceCtorEq, List.not_mem_nil, or_self,
          or_false] at hj
        exact hj ▸ ho
      · simp at hj
  | stopQueued id => exact ⟨h, rfl, rfl, by simp, by simp⟩
  | stopFailed id hc => exact ⟨h, rfl, rfl, by simp, by simp⟩

theorem Known.step (hs : LedgerStep v evs v') : v'.Known := by
  cases hs with
  | quiet => exact h
  | close => exact { h with }
  | shut => exact { h with streams := by simp }
  | openStart => exact { h with }
  | openFail => exact { h with }
  | openLocal ho hid =>
    have hopen := (Ids.opened_takeLocal h.ids v.ids.nextLocal).mpr (.inr rfl)
    exact { h.create _ (h.ids.takeLocal hid) (Ids.le_takeLocal h.ids) hopen with }
  | openRemote n incoming hp hid hin =>
    have hopen := (Ids.opened_takeRemote h.ids v.ids.nextRemote).mpr (.inr rfl)
    have hle := Ids.le_takeRemote h.ids
    refine { h.create _ (h.ids.takeRemote hid) hle hopen with incoming := ?_ }
    intro j hj
    rcases hin with rfl | rfl
    · exact hle.2 j (h.incoming j hj)
    · rcases List.mem_append.mp hj with hj | hj
      · exact hle.2 j (h.incoming j hj)
      · rw [List.mem_singleton.mp hj]
        exact hopen
  | accept id incoming hin =>
    have ho := h.incoming id (hin ▸ List.mem_cons_self)
    exact { h.setLife _ ho with incoming := fun j hj => h.incoming j (hin ▸ List.mem_cons_of_mem id hj) }
  | dropSend id hh => exact h.setLife _ (h.opened_of_life fun he => hh (by rw [he]))
  | dropRecv id hh => exact h.setLife _ (h.opened_of_life fun he => hh (by rw [he]))
  | cleanup order ht =>
    apply h.setTodo
    · intro op hop
      obtain ⟨id, -, hop⟩ := List.mem_flatMap.mp hop
      simp only [List.mem_cons, List.not_mem_nil, or_false] at hop
      rcases hop with rfl | rfl <;> rfl
    · intro id hop
      obtain ⟨j, -, hop⟩ := List.mem_flatMap.mp hop
      simp at hop
  | emit => exact { h with }
  | sent f hh =>
    have hk : ({ v with hand := none } : Ledger).Known := { h with }
    apply hk.setTodo
    · intro op hop
      unfold Frame.terminalOps at hop
      split at hop <;> simp only [List.mem_cons, List.not_mem_nil, or_false] at hop
      all_goals rcases hop with rfl | rfl <;> trivial
    · intro id hop
      unfold Frame.terminalOps at hop
      split at hop <;> simp at hop
  | stopWriter =>
    have hk : ({ v with writerDone := true, hand := none } : Ledger).Known := { h with }
    exact hk.setTodo _ _ (by simp [TaskOp.Of]) (by simp)
  | received => exact h
  | ended f id hd ht hs =>
    have hk := h.mark (Function.update v.terminal id true) v.discarded (h.streams id hs)
      (fun j hj => Function.update_of_ne hj _ _) fun _ _ => rfl
    exact hk.setTodo _ _ (by simp [TaskOp.Of]) (by simp)
  | stopReader ops hops _ =>
    have hk : ({ v with readerDone := true } : Ledger).Known := { h with }
    apply hk.setTodo
    · intro op hop
      rcases hops with rfl | ⟨reason, rfl⟩ <;> simp at hop <;> rcases hop with rfl | rfl <;> trivial
    · intro id hop
      rcases hops with rfl | ⟨reason, rfl⟩ <;> simp at hop
  | work v₁ task op ops more _ ht hop =>
    have hof : ∀ x ∈ op :: ops, x.Of task := fun x hx => h.todo task x (ht ▸ hx)
    have hst : ∀ id, .stopSending id ∈ op :: ops → v.ids.Opened id := fun id hx => h.stops task id (ht ▸ hx)
    obtain ⟨hk, -, hids, hmore, hstops⟩ := h.op task (hof op List.mem_cons_self)
      (fun id he => hst id (he ▸ List.mem_cons_self)) hop
    apply hk.setTodo
    · intro x hx
      rcases List.mem_append.mp hx with hx | hx
      · exact hmore x hx
      · exact hof x (List.mem_cons_of_mem op hx)
    · intro id hx
      rw [hids]
      rcases List.mem_append.mp hx with hx | hx
      · exact hstops id hx
      · exact hst id (List.mem_cons_of_mem op hx)

end Known

theorem new_known (l : Limits) (isClient : Bool) : (Endpoint.ledger { shared := .new l isClient }).Known where
  ids := Ids.start_wf isClient
  streams := fun id hid => by cases hid
  incoming := fun id hid => by cases hid
  life := fun _ _ => rfl
  marks := fun _ _ => ⟨rfl, rfl⟩
  todo := fun task op hop => by cases hop
  stops := fun task id hop => by cases hop

theorem reach_known (h : (machine l isClient).Reach v log) : v.Known :=
  h.invariant (fun v _ => v.Known) (fun v (hi : v = _) => hi ▸ new_known l isClient)
    fun _ _ _ _ _ hk hs => hk.step hs

theorem reach_limits (h : (machine l isClient).Reach v log) : v.limits = l := by
  refine h.invariant (fun v _ => v.limits = l) (fun v (hi : v = _) => hi ▸ rfl) ?_
  intro v log evs v' _ hl hs
  cases hs with
  | work v₁ task op ops more _ ht hop => cases hop <;> exact hl
  | _ => exact hl

/-- `mark_closed` closes the connection before it cleans up. -/
theorem reach_shut (h : (machine l isClient).Reach v log) : v.shut = true → v.closed = true := by
  refine h.invariant (fun v _ => v.shut = true → v.closed = true) ?_ ?_
  · intro v (hi : v = _) hs
    subst hi
    cases hs
  · intro v log evs v' _ hc hs
    cases hs with
    | close => exact fun _ => rfl
    | shut => exact fun _ => rfl
    | work v₁ task op ops more _ ht hop => cases hop <;> exact hc
    | _ => exact hc

/-- Who may still read a stream: a handle, the incoming queue, a drop to process, or nobody. -/
def shares (v : Ledger) (id : Nat) : Nat :=
  (v.life id).recvHandles + v.incoming.count id + (v.life id).recvDropped.toNat + (v.discarded id).toNat

theorem shares_setLife (id j : Nat) (life : StreamLife) :
    (v.setLife id life).shares j =
      if j = id then life.recvHandles + v.incoming.count j + life.recvDropped.toNat + (v.discarded j).toNat
      else v.shares j := by
  by_cases hj : j = id
  · subst hj
    simp [shares, Ledger.setLife]
  · simp [shares, Ledger.setLife, hj]

theorem shares_create (hk : v.Known) (ids : Ids) (id j : Nat) (life : StreamLife) (hn : ¬ v.ids.Opened id) :
    (v.create ids id life).shares j =
      if j = id then life.recvHandles + life.recvDropped.toNat else v.shares j := by
  by_cases hj : j = id
  · subst hj
    have hc : v.incoming.count j = 0 := List.count_eq_zero.mpr fun hm => hn (hk.incoming j hm)
    simp [shares, Ledger.create, hc]
  · simp [shares, Ledger.create, hj]

theorem shares_op {op : TaskOp} {more : List TaskOp} (h : ∀ id, v.shares id ≤ 1) (hs : OpStep v op evs v' more)
    (j : Nat) : v'.shares j ≤ 1 := by
  have hj := h j
  cases hs with
  | complete id hid =>
    rw [shares_setLife]
    split_ifs with he
    · subst he
      exact hj
    · exact hj
  | retire id hid hc ht =>
    change (v.setLife id { v.life id with openPermit := false }).shares j ≤ 1
    rw [shares_setLife]
    split_ifs with he
    · subst he
      exact hj
    · exact hj
  | cleanSend id _ hd hlog =>
    rw [shares_setLife]
    split_ifs with he
    · subst he
      exact hj
    · exact hj
  | cleanRecv id hd =>
    by_cases he : j = id
    · subst he
      simp only [shares, Ledger.setLife, Function.update_self, hd, Bool.toNat_true, Bool.toNat_false] at hj ⊢
      omega
    · simpa [shares, Ledger.setLife, he] using hj
  | _ => exact hj

theorem shares_step (hk : v.Known) (h : ∀ id, v.shares id ≤ 1) (hs : LedgerStep v evs v') (j : Nat) :
    v'.shares j ≤ 1 := by
  have hj := h j
  cases hs with
  | openLocal ho hid =>
    have hc := shares_create hk v.ids.takeLocal v.ids.nextLocal j
      { openPermit := true, sendHandles := 1, recvHandles := 1 } (Ids.not_opened_nextLocal hk.ids)
    change (v.create _ _ _).shares j ≤ 1
    rw [hc]
    split_ifs
    · exact le_refl 1
    · exact hj
  | openRemote n incoming hp hid hin =>
    have hn := Ids.not_opened_nextRemote hk.ids
    have hc : v.incoming.count v.ids.nextRemote = 0 := List.count_eq_zero.mpr fun hm => hn (hk.incoming _ hm)
    by_cases he : j = v.ids.nextRemote
    · subst he
      rcases hin with rfl | rfl
      · simp [shares, Ledger.create, hc]
      · simp [shares, Ledger.create, hc]
    · rcases hin with rfl | rfl
      · simpa [shares, Ledger.create, he] using hj
      · have hne : ¬ v.ids.nextRemote = j := fun h' => he h'.symm
        simpa [shares, Ledger.create, he, List.count_append, List.count_singleton, hne] using hj
  | accept id incoming hin =>
    by_cases he : j = id
    · subst he
      simp only [shares, hin, List.count_cons_self] at hj
      simp only [shares, Ledger.setLife, Function.update_self]
      omega
    · have hne : ¬ id = j := fun h' => he h'.symm
      simpa [shares, Ledger.setLife, he, hin, hne] using hj
  | dropSend id hh =>
    rw [shares_setLife]
    split_ifs with he
    · subst he
      exact hj
    · exact hj
  | dropRecv id hh =>
    rw [shares_setLife]
    split_ifs with he
    · subst he
      have h1 : (v.life j).recvHandles = 1 := by
        unfold shares at hj
        omega
      unfold shares at hj
      simp only [h1, beq_self_eq_true, Bool.or_true, Bool.toNat_true]
      omega
    · exact hj
  | work v₁ task op ops more _ ht hop => exact shares_op h hop j
  | _ => exact hj

theorem reach_shares (h : (machine l isClient).Reach v log) (id : Nat) : v.shares id ≤ 1 := by
  refine h.invariant (fun v _ => ∀ id, v.shares id ≤ 1) ?_ ?_ id
  · intro v (hi : v = _) id
    subst hi
    exact Nat.zero_le 1
  · intro v log evs v' hr hsh hs
    exact shares_step (reach_known hr) hsh hs

end Ledger
end Muxtls
