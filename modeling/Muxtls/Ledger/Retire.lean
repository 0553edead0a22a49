import Muxtls.Ledger.Streams
import Muxtls.Sender.Lifecycle
import Muxtls.Sender.Reach

namespace Muxtls
namespace Ledger

variable {l : Limits} {isClient : Bool} {v v' : Ledger} {log evs : List Event} {id : Nat}

/-- The writer takes a frame only when it has nothing else to do. -/
theorem reach_hand (h : (machine l isClient).Reach v log) : v.hand ≠ none → v.todo .writer = [] := by
  refine h.invariant (fun v _ => v.hand ≠ none → v.todo .writer = []) ?_ ?_
  · intro v (hi : v = _) _
    subst hi
    rfl
  · intro v _ evs v' _ ih hs
    cases hs with
    | emit f hd hh ht => exact fun _ => ht
    | sent f hh => exact fun hn => absurd rfl hn
    | stopWriter => exact fun hn => absurd rfl hn
    | work v₁ task op ops more _ ht hop =>
      have hf := opFrame hop
      intro hn
      have hnil := ih (hf.hand ▸ hn)
      have htask : Task.writer ≠ task := by
        rintro rfl
        rw [hnil] at ht
        cases ht
      simp only [setTodo, Function.update_of_ne htask, hf.todo]
      exact hnil
    | _ => exact ih

theorem reach_tidy (h : (machine l isClient).Reach v log) : v.Tidy := ⟨(reach_known h).ids, reach_hand h⟩

/-- What becomes of the admission permit of a stream. It is held until both directions have ended, and a
stream that has left the map has given it back; once the terminal frame of a stream was sent and its peer
has ended it, the reader or the writer is about to give it back. -/
structure Slots (v : Ledger) (log : List Event) : Prop where
  held : ∀ id, v.ids.Opened id →
    (v.life id).openPermit = true ∨ (v.life id).sendComplete = true ∧ v.terminal id = true
  removing : ∀ task id, .remove id ∈ v.todo task → v.ids.Opened id ∧ (v.life id).openPermit = false
  gone : ∀ id, v.ids.Opened id → id ∉ v.streams → v.shut = true ∨ (v.life id).openPermit = false
  order : ∀ id before after, v.todo .writer = before ++ .complete id :: after → .retire id ∈ after
  completing : ∀ id, v.ids.Opened id → (∃ f ∈ sentFrames log, f.sendsOn id = true ∧ f.ends = true) →
    v.shut = true ∨ (v.life id).sendComplete = true ∨ .complete id ∈ v.todo .writer
  retiring : ∀ id, v.ids.Opened id → (v.life id).sendComplete = true → v.terminal id = true →
    v.shut = true ∨ (v.life id).openPermit = false ∨
      .retire id ∈ v.todo .reader ∨ .retire id ∈ v.todo .writer

theorem complete_mem_terminalOps (f : Frame) (id : Nat) (hs : f.sendsOn id = true) (he : f.ends = true) :
    .complete id ∈ f.terminalOps := by
  cases f with
  | stream streamId fin payload =>
    obtain rfl : fin = true := he
    obtain rfl : streamId.intoInner = id := beq_iff_eq.mp hs
    exact List.mem_cons_self
  | resetStream streamId errorCode =>
    obtain rfl : streamId.intoInner = id := beq_iff_eq.mp hs
    exact List.mem_cons_self
  | _ => cases hs

/-- Steps in which no task works; the frames sent before them name opened streams. -/
theorem Slots.rests (h : v.Slots log)
    (hnamed : ∀ f ∈ sentFrames log, ∀ id, f.sendsOn id = true → v.ids.Opened id) (hr : v.Rests evs v') :
    v'.Slots (log ++ evs) where
  held := by
    intro id hid
    by_cases ho : v.ids.Opened id
    · rw [(hr.kept id ho).1, (hr.kept id ho).2]
      refine (h.held id ho).imp_right fun ⟨hc, ht⟩ => ⟨hc, ?_⟩
      rcases hr.terminal id ho with he | ⟨he, -⟩
      · rw [he, ht]
      · exact he
    · exact .inl (hr.fresh id ho hid).1
  removing := by
    intro task id hm
    rcases hr.todo task with he | ⟨hs, -⟩
    · obtain ⟨ho, hp⟩ := h.removing task id (he ▸ hm)
      exact ⟨hr.opened id ho, (hr.kept id ho).1.trans hp⟩
    · exact absurd hm (hs.remove id)
  gone := by
    intro id hid hm
    rcases hr.left id hid hm with hs | ⟨ho, hm'⟩
    · exact .inl hs
    · exact (h.gone id ho hm').imp hr.shut (hr.kept id ho).1.trans
  order := by
    rcases hr.todo .writer with he | ⟨hs, -⟩
    · rw [he]
      exact h.order
    · exact hs.order
  completing := by
    rintro id - ⟨f, hf, hon, hend⟩
    rw [sentFrames_append] at hf
    rcases List.mem_append.mp hf with hf | hf
    · have ho := hnamed f hf id hon
      rcases h.completing id ho ⟨f, hf, hon, hend⟩ with hs | hc | hm
      · exact .inl (hr.shut hs)
      · exact .inr (.inl ((hr.kept id ho).2.trans hc))
      · exact .inr (.inr (hr.mem_todo hm))
    · obtain ⟨e, he, hsent⟩ := List.mem_filterMap.mp hf
      cases e <;> cases hsent
      exact .inr (.inr (hr.sent f he _ (complete_mem_terminalOps f id hon hend)))
  retiring := by
    intro id hid hc ht
    by_cases ho : v.ids.Opened id
    · rw [(hr.kept id ho).2] at hc
      rw [(hr.kept id ho).1]
      rcases hr.terminal id ho with he | ⟨-, hm⟩
      · rw [he] at ht
        exact (h.retiring id ho hc ht).imp hr.shut (.imp (fun hp => hp) (.imp hr.mem_todo hr.mem_todo))
      · exact .inr (.inr (.inl hm))
    · rw [(hr.fresh id ho hid).2] at hc
      cases hc

/-- What a task step does to the permits, the completion marks and the map. -/
structure OpMarks (v : Ledger) (op : TaskOp) (v' : Ledger) (more : List TaskOp) : Prop where
  permit : ∀ id, (v'.life id).openPermit = (v.life id).openPermit ∨
    op = .retire id ∧ (v.life id).sendComplete = true ∧ v.terminal id = true ∧ (v'.life id).openPermit = false
  complete : ∀ id, (v'.life id).sendComplete = (v.life id).sendComplete ∨
    op = .complete id ∧ (v'.life id).sendComplete = true
  streams : ∀ id, id ∈ v'.streams → id ∈ v.streams
  left : ∀ id, id ∉ v'.streams → id ∉ v.streams ∨ op = .remove id
  more_remove : ∀ id, .remove id ∈ more → id ∈ v.streams ∧ (v'.life id).openPermit = false
  more_complete : ∀ id, .complete id ∉ more
  completes : ∀ id, op = .complete id → id ∉ v.streams ∨ (v'.life id).sendComplete = true
  retires : ∀ id, op = .retire id → (v'.life id).openPermit = false ∧ .remove id ∈ more ∨
    ¬ (id ∈ v.streams ∧ (v.life id).sendComplete = true ∧ v.terminal id = true)

/-- A step that only looks, or writes to other marks. -/
theorem OpMarks.same {op : TaskOp} {more : List TaskOp} (hlife : ∀ id,
      (v'.life id).openPermit = (v.life id).openPermit ∧ (v'.life id).sendComplete = (v.life id).sendComplete)
    (hs : v'.streams = v.streams) (hr : ∀ id, .remove id ∉ more) (hc : ∀ id, .complete id ∉ more)
    (hcomplete : ∀ id, op = .complete id → id ∉ v.streams)
    (hretire : ∀ id, op = .retire id →
      ¬ (id ∈ v.streams ∧ (v.life id).sendComplete = true ∧ v.terminal id = true)) :
    v.OpMarks op v' more where
  permit id := .inl (hlife id).1
  complete id := .inl (hlife id).2
  streams _ hm := hs ▸ hm
  left _ hm := .inl (hs ▸ hm)
  more_remove id hm := absurd hm (hr id)
  more_complete := hc
  completes id he := .inl (hcomplete id he)
  retires id he := .inr (hretire id he)

theorem opMarks {op : TaskOp} {more : List TaskOp} (h : OpStep v op evs v' more) : v.OpMarks op v' more := by
  cases h with
  | skip _ _ hskip _ =>
    refine .same (fun _ => ⟨rfl, rfl⟩) rfl (by simp) (by simp) ?_ ?_
    · rintro id rfl
      exact hskip
    · rintro id rfl
      exact hskip
  | complete j hj =>
    constructor
    case complete =>
      intro id
      by_cases he : id = j
      · subst he
        exact .inr ⟨rfl, by simp [setLife]⟩
      · exact .inl (by simp [setLife, he])
    case permit =>
      intro id
      exact .inl (by by_cases he : id = j <;> simp [setLife, he])
    case completes =>
      rintro id he
      cases he
      exact .inr (by simp [setLife])
    all_goals simp [setLife]
  | retire j hj hc ht =>
    constructor
    case permit =>
      intro id
      by_cases he : id = j
      · subst he
        exact .inr ⟨rfl, hc, ht, by simp [setLife]⟩
      · exact .inl (by simp [setLife, he])
    case complete =>
      intro id
      exact .inl (by by_cases he : id = j <;> simp [setLife, he])
    case more_remove =>
      intro id hm
      obtain rfl : id = j := by simpa using hm
      exact ⟨hj, by simp [setLife]⟩
    case retires =>
      intro id he
      cases he
      exact .inl ⟨by simp [setLife], List.mem_singleton_self _⟩
    all_goals simp [setLife]
  | remove j ht =>
    constructor
    case left =>
      intro id hm
      by_cases he : id = j
      · exact .inr (he ▸ rfl)
      · exact .inl fun hs => hm (by simp [hs, he])
    case streams => exact fun id hm => (List.mem_filter.mp hm).1
    all_goals simp
  | cleanSend j _ hd _ => exact .same (setLife_marks j _ rfl rfl) rfl (by simp) (by simp) (by simp) (by simp)
  | cleanRecv j hd =>
    refine .same (setLife_marks j _ rfl rfl) rfl ?_ ?_ (by simp) (by simp) <;> intro id <;> split_ifs <;> simp
  | _ => exact .same (fun _ => ⟨rfl, rfl⟩) rfl (by simp) (by simp) (by simp) (by simp)

/-- A step that is not in a list stands behind it. -/
theorem suffix_of_not_mem {α : Type*} {more ops before after : List α} {x : α} (hn : x ∉ more)
    (h : more ++ ops = before ++ x :: after) : ∃ front, ops = front ++ x :: after := by
  rcases List.append_eq_append_iff.mp h with ⟨front, -, hops⟩ | ⟨middle, hmore, hx⟩
  · exact ⟨front, hops⟩
  · cases middle with
    | nil => exact ⟨[], hx.symm⟩
    | cons y middle =>
      cases hx
      exact absurd (hmore ▸ List.mem_append_right before List.mem_cons_self) hn

theorem mem_setTodo {task t : Task} {op x : TaskOp} {ops more : List TaskOp} (ht : v.todo task = op :: ops)
    (htodo : v'.todo = v.todo) (hm : x ∈ v.todo t) :
    x ∈ (v'.setTodo task (more ++ ops)).todo t ∨ t = task ∧ x = op := by
  by_cases he : t = task
  · subst he
    rw [ht] at hm
    rcases List.mem_cons.mp hm with rfl | hm
    · exact .inr ⟨rfl, rfl⟩
    · exact .inl (by simp [setTodo, hm])
  · exact .inl (by simpa [setTodo, he, htodo] using hm)

theorem mem_of_setTodo {task t : Task} {op x : TaskOp} {ops more : List TaskOp} (ht : v.todo task = op :: ops)
    (htodo : v'.todo = v.todo) (hm : x ∈ (v'.setTodo task (more ++ ops)).todo t) : x ∈ v.todo t ∨ x ∈ more := by
  by_cases he : t = task
  · subst he
    have hm' : x ∈ more ∨ x ∈ ops := by simpa [setTodo] using hm
    rcases hm' with hm' | hm'
    · exact .inr hm'
    · exact .inl (ht ▸ List.mem_cons_of_mem op hm')
  · exact .inl (by simpa [setTodo, he, htodo] using hm)

/-- A step of a task. -/
theorem Slots.work (hk : v.Known) (h : v.Slots log) {task : Task} {op : TaskOp} {ops more : List TaskOp}
    (ht : v.todo task = op :: ops) (hop : OpStep v op evs v' more) :
    (v'.setTodo task (more ++ ops)).Slots (log ++ evs) := by
  have hf := opFrame hop
  have hm := opMarks hop
  have hids : ∀ id, (v'.setTodo task (more ++ ops)).ids.Opened id ↔ v.ids.Opened id := fun id => by
    simp only [setTodo, hf.ids]
  -- a permit that was given back stays so
  have hpermit (id : Nat) (hp : (v.life id).openPermit = false) : (v'.life id).openPermit = false := by
    rcases hm.permit id with he | ⟨-, -, -, he⟩
    · rw [he, hp]
    · exact he
  have hcomplete (id : Nat) (hc : (v.life id).sendComplete = true) : (v'.life id).sendComplete = true := by
    rcases hm.complete id with he | ⟨-, he⟩
    · rw [he, hc]
    · exact he
  -- a stream outside the map has nothing left to give back
  have hout (id : Nat) (ho : v.ids.Opened id) (hn : id ∉ v.streams) :
      v'.shut = true ∨ (v'.life id).openPermit = false :=
    (h.gone id ho hn).imp hf.shut.trans (hpermit id)
  refine ⟨?_, ?_, ?_, ?_, ?_, ?_⟩
  · intro id hid
    rcases hm.permit id with he | ⟨-, hc, hterm, -⟩
    · rcases h.held id ((hids id).mp hid) with hp | ⟨hc, hterm⟩
      · exact .inl (he.trans hp)
      · exact .inr ⟨hcomplete id hc, (congrFun hf.terminal id).trans hterm⟩
    · exact .inr ⟨hcomplete id hc, (congrFun hf.terminal id).trans hterm⟩
  · intro t id hrem
    rcases mem_of_setTodo ht hf.todo hrem with hrem | hrem
    · obtain ⟨ho, hp⟩ := h.removing t id hrem
      exact ⟨(hids id).mpr ho, hpermit id hp⟩
    · obtain ⟨hs, hp⟩ := hm.more_remove id hrem
      exact ⟨(hids id).mpr (hk.streams id hs), hp⟩
  · intro id hid hn
    rcases hm.left id hn with hn | rfl
    · exact hout id ((hids id).mp hid) hn
    · exact .inr (hpermit id (h.removing task id (ht ▸ List.mem_cons_self)).2)
  · intro id before after he
    by_cases htask : Task.writer = task
    · subst htask
      simp only [setTodo, Function.update_self] at he
      obtain ⟨front, rfl⟩ := suffix_of_not_mem (hm.more_complete id) he
      exact h.order id (op :: front) after ht
    · simp only [setTodo, Function.update_of_ne htask, hf.todo] at he
      exact h.order id before after he
  · rintro id hid ⟨f, hfs, hon, hend⟩
    rw [sentFrames_append, (unsent_op hop).2, List.append_nil] at hfs
    rcases h.completing id ((hids id).mp hid) ⟨f, hfs, hon, hend⟩ with hs | hc | hc
    · exact .inl (hf.shut.trans hs)
    · exact .inr (.inl (hcomplete id hc))
    · rcases mem_setTodo ht hf.todo hc with hc | ⟨rfl, rfl⟩
      · exact .inr (.inr hc)
      · rcases hm.completes id rfl with hn | hc
        · rcases h.gone id ((hids id).mp hid) hn with hs | hp
          · exact .inl (hf.shut.trans hs)
          · rcases h.held id ((hids id).mp hid) with hheld | ⟨hc, -⟩
            · rw [hp] at hheld
              cases hheld
            · exact .inr (.inl (hcomplete id hc))
        · exact .inr (.inl hc)
  · intro id hid hc hterm
    have ho := (hids id).mp hid
    have hterm' : v.terminal id = true := (congrFun hf.terminal id).symm.trans hterm
    have hstill {t : Task} (hr : .retire id ∈ v.todo t) : v'.shut = true ∨ (v'.life id).openPermit = false ∨
        .retire id ∈ (v'.setTodo task (more ++ ops)).todo t := by
      rcases mem_setTodo ht hf.todo hr with hr | ⟨-, rfl⟩
      · exact .inr (.inr hr)
      · rcases hm.retires id rfl with ⟨hp, -⟩ | hno
        · exact .inr (.inl hp)
        · have hc' : (v.life id).sendComplete = true := by
            rcases hm.complete id with he | ⟨he, -⟩
            · exact he ▸ hc
            · cases he
          exact (hout id ho fun hs => hno ⟨hs, hc', hterm'⟩).imp_right .inl
    rcases hm.complete id with he | ⟨rfl, -⟩
    · rcases h.retiring id ho (he ▸ hc) hterm' with hs | hp | hr | hr
      · exact .inl (hf.shut.trans hs)
      · exact .inr (.inl (hpermit id hp))
      · exact (hstill hr).imp_right (.imp_right .inl)
      · exact (hstill hr).imp_right (.imp_right .inr)
    · -- the writer has just completed the stream, and tries to retire it next
      have hof : TaskOp.Of task (.complete id) := hk.todo task _ (ht ▸ List.mem_cons_self)
      obtain rfl : task = .writer := hof
      have hr := h.order id [] ops ht
      exact .inr (.inr (.inr (by simp [setTodo, hr])))

end Ledger

namespace Endpoint

variable {l : Limits} {isClient : Bool} {e e' : Endpoint} {log evs : List Event}

/-- A step of an endpoint: no task works, or one does the first of its steps. -/
theorem works_of_step (hr : (machine l isClient).Reach e log) {a : Act} (h : e.step a = some (e', evs)) :
    e.ledger.Rests evs e'.ledger ∨
      ∃ task op ops v v' more, a = .work task ∧ e.todo task = op :: ops ∧ e.ledger.Rests [] v ∧ v.Known ∧
        v.todo = e.todo ∧ OpStep v op evs v' more ∧ e'.ledger = v'.setTodo task (more ++ ops) := by
  have hl := reach_ledger hr
  have htidy := Ledger.reach_tidy hl
  by_cases ha : ∃ task, a = .work task
  · obtain ⟨task, rfl⟩ := ha
    obtain ⟨op, ops, v, v', more, ht, hs, htodo, hop, he⟩ := @ledger_work l isClient e task e' evs h
    have hreach := hl.steps (hs.mono fun _ _ _ => Ledger.Idles.step)
    exact .inr ⟨task, op, ops, v, v', more, rfl, ht, (Ledger.rests_of_steps hs htidy).1, Ledger.reach_known hreach,
      htodo, hop, he⟩
  · have hs : (Ledger.idle l isClient).Steps e.ledger evs e'.ledger :=
      e.ledger_idle a e' evs (fun task hw => ha ⟨task, hw⟩) h
    exact .inl (Ledger.rests_of_steps hs htidy).1

theorem emitted_of_sent (hr : (machine l isClient).Reach e log) (hf : f ∈ sentFrames log) : f ∈ emitted log :=
  (Ledger.reach_written (reach_ledger hr)).sent_le.subset (List.mem_append_left _ hf)

theorem sent_named (hr : (machine l isClient).Reach e log) : ∀ f ∈ sentFrames log, ∀ id, f.sendsOn id = true →
    e.ledger.ids.Opened id := by
  intro f hf id hon
  have hem := emitted_of_sent hr hf
  have hn := (Sender.reach_named (reach_sender hr)).opened f hem
  cases f with
  | stream streamId fin payload =>
    obtain rfl : streamId.intoInner = id := beq_iff_eq.mp hon
    exact hn streamId (by simp [Frame.names])
  | resetStream streamId errorCode =>
    obtain rfl : streamId.intoInner = id := beq_iff_eq.mp hon
    exact hn streamId (by simp [Frame.names])
  | _ => cases hon

theorem reach_slots (h : (machine l isClient).Reach e log) : e.ledger.Slots log := by
  refine h.invariant (fun e log => e.ledger.Slots log) ?_ ?_
  · intro e he
    obtain rfl := (connect_ok he).2
    have hno : ∀ id, ¬ (Endpoint.ledger { shared := .new l isClient }).ids.Opened id := Ids.not_opened_start isClient
    exact ⟨fun id hid => absurd hid (hno id),
      fun _ _ hm => absurd hm (by simp [ledger]), fun id hid => absurd hid (hno id),
      fun _ _ _ he => absurd he (by simp [ledger]),
      fun id hid => absurd hid (hno id), fun id hid => absurd hid (hno id)⟩
  · rintro e log evs e' hr hs ⟨a, ha⟩
    rcases works_of_step hr ha with hrest | ⟨task, op, ops, v, v', more, -, ht, hrest, hk, htodo, hop, he⟩
    · exact hs.rests (sent_named hr) hrest
    · have hv := hs.rests (sent_named hr) hrest
      rw [List.append_nil] at hv
      rw [he]
      exact hv.work hk (htodo ▸ ht) hop

end Endpoint
end Muxtls
