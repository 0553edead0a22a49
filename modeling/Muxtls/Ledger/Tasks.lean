import Muxtls.Ledger.Basic
import Muxtls.Sender.Direction

namespace Muxtls

def Event.sentFrame : Event → Option Frame
  | .sent f => some f
  | _ => none

/-- The frames handed to the transport, in order. -/
def sentFrames (log : List Event) : List Frame := log.filterMap Event.sentFrame

@[simp] theorem sentFrames_append (log log' : List Event) :
    sentFrames (log ++ log') = sentFrames log ++ sentFrames log' :=
  List.filterMap_append

namespace Ledger

variable {l : Limits} {isClient : Bool} {v v' : Ledger} {log evs : List Event}

/-- Events that neither emit nor send a frame. -/
def Unsent (evs : List Event) : Prop := emitted evs = [] ∧ sentFrames evs = []

theorem unsent_idle (h : ∀ e ∈ evs, e.Idle) : Unsent evs := by
  refine ⟨?_, ?_⟩
  · rw [emitted, List.filterMap_eq_nil_iff]
    intro e he
    have hq := h e he
    cases e <;> first | rfl | exact hq.elim
  · rw [sentFrames, List.filterMap_eq_nil_iff]
    intro e he
    have hq := h e he
    cases e <;> first | rfl | exact hq.elim

theorem unsent_op {op : TaskOp} {more : List TaskOp} (h : OpStep v op evs v' more) : Unsent evs := by
  cases h with
  | skip _ _ _ hlog => exact unsent_idle hlog
  | cleanSend id _ hd hlog => exact unsent_idle hlog
  | _ => exact ⟨rfl, rfl⟩

/-- What no task step changes. -/
structure OpFrame (v v' : Ledger) : Prop where
  limits : v'.limits = v.limits
  ids : v'.ids = v.ids
  incoming : v'.incoming = v.incoming
  terminal : v'.terminal = v.terminal
  closed : v'.closed = v.closed
  shut : v'.shut = v.shut
  opening : v'.opening = v.opening
  hand : v'.hand = v.hand
  readerDone : v'.readerDone = v.readerDone
  writerDone : v'.writerDone = v.writerDone
  todo : v'.todo = v.todo

theorem opFrame {op : TaskOp} {more : List TaskOp} (h : OpStep v op evs v' more) : v.OpFrame v' := by
  cases h <;> exact ⟨rfl, rfl, rfl, rfl, rfl, rfl, rfl, rfl, rfl, rfl, rfl⟩

/-- A reader that has left its loop does not come back. -/
theorem readerDone_steps (h : (machine l isClient).Steps v evs v') (hd : v'.readerDone = false) :
    v.readerDone = false := by
  induction h with
  | refl v => exact hd
  | cons hs _ ih =>
    have hd := ih hd
    cases hs with
    | work _ task op ops more _ ht hop => exact (opFrame hop).readerDone ▸ hd
    | stopReader => cases hd
    | _ => exact hd

/-- The writer sends what it takes, in order, and holds at most one frame; when it stops it may drop
the frame it holds. -/
structure Written (v : Ledger) (log : List Event) : Prop where
  sent_le : sentFrames log ++ v.hand.toList <+: emitted log
  sent_eq : v.writerDone = false → sentFrames log ++ v.hand.toList = emitted log

theorem Written.keep (h : v.Written log) (hev : Unsent evs) (hh : v'.hand = v.hand)
    (hd : v'.writerDone = v.writerDone) : v'.Written (log ++ evs) := by
  obtain ⟨he, hs⟩ := hev
  refine ⟨?_, ?_⟩
  · rw [sentFrames_append, hs, List.append_nil, emitted_append, he, List.append_nil, hh]
    exact h.sent_le
  · intro hn
    rw [sentFrames_append, hs, List.append_nil, emitted_append, he, List.append_nil, hh]
    exact h.sent_eq (hd ▸ hn)

theorem written_step (h : v.Written log) (hs : LedgerStep v evs v') : v'.Written (log ++ evs) := by
  have hnil : Unsent [] := ⟨rfl, rfl⟩
  cases hs with
  | quiet _ hlog => exact h.keep (unsent_idle hlog) rfl rfl
  | emit f hd hh ht =>
    have heq := h.sent_eq hd
    rw [hh, Option.toList_none, List.append_nil] at heq
    have hnew : sentFrames (log ++ [.emitted f]) ++ [f] = emitted (log ++ [.emitted f]) := by
      rw [sentFrames_append, emitted_append, ← heq]
      exact congrArg (· ++ [f]) (List.append_nil _)
    exact ⟨hnew ▸ List.prefix_refl _, fun _ => hnew⟩
  | sent f hh =>
    have hle := h.sent_le
    rw [hh] at hle
    have hsent : sentFrames (log ++ [.sent f]) ++ [] = sentFrames log ++ [f] := by
      rw [List.append_nil, sentFrames_append]
      rfl
    have hemit : emitted (log ++ [.sent f]) = emitted log := by
      rw [emitted_append]
      exact List.append_nil _
    refine ⟨?_, ?_⟩
    · rw [hemit]
      exact hsent ▸ hle
    · intro hn
      have heq := h.sent_eq hn
      rw [hh] at heq
      rw [hemit]
      exact hsent.trans heq
  | stopWriter =>
    refine ⟨?_, ?_⟩
    · rw [List.append_nil]
      exact (List.prefix_append _ _).trans ((List.append_nil (sentFrames log)).symm ▸ h.sent_le)
    · intro hn
      cases hn
  | work v₁ task op ops more _ ht hop =>
    have hf := opFrame hop
    exact h.keep (unsent_op hop) hf.hand hf.writerDone
  | _ => exact h.keep hnil rfl rfl

theorem reach_written (h : (machine l isClient).Reach v log) : v.Written log := by
  refine h.invariant Written ?_ fun _ _ _ _ _ hw hs => written_step hw hs
  intro v (hi : v = _)
  subst hi
  exact ⟨List.prefix_refl _, fun _ => rfl⟩

/-- `send_complete` is set for a stream whose terminal frame was sent. -/
def Completed (v : Ledger) (log : List Event) : Prop :=
  ∀ id, (v.life id).sendComplete = true ∨ .complete id ∈ v.todo .writer →
    ∃ f ∈ sentFrames log, f.sendsOn id = true ∧ f.ends = true

theorem terminalOps_complete (f : Frame) (id : Nat) (h : .complete id ∈ f.terminalOps) :
    f.sendsOn id = true ∧ f.ends = true := by
  cases f with
  | stream streamId fin payload =>
    cases fin with
    | false => cases h
    | true =>
      have he : id = streamId.intoInner := by simpa [Frame.terminalOps] using h
      exact ⟨by simp [Frame.sendsOn, he], rfl⟩
  | resetStream streamId errorCode =>
    have he : id = streamId.intoInner := by simpa [Frame.terminalOps] using h
    exact ⟨by simp [Frame.sendsOn, he], rfl⟩
  | _ => cases h

theorem Completed.keep (h : v.Completed log)
    (hl : ∀ id, (v'.life id).sendComplete = true → (v.life id).sendComplete = true)
    (ht : ∀ id, .complete id ∈ v'.todo .writer → .complete id ∈ v.todo .writer) :
    v'.Completed (log ++ evs) := by
  intro id hid
  obtain ⟨f, hf, hx⟩ := h id (hid.imp (hl id) (ht id))
  exact ⟨f, sentFrames_append log evs ▸ List.mem_append_left _ hf, hx⟩

theorem complete_setLife (id : Nat) (life : StreamLife)
    (hl : life.sendComplete = true → (v.life id).sendComplete = true) (j : Nat)
    (hj : ((v.setLife id life).life j).sendComplete = true) : (v.life j).sendComplete = true := by
  by_cases he : j = id
  · subst he
    simp only [setLife, Function.update_self] at hj
    exact hl hj
  · simpa [setLife, he] using hj

theorem completed_op (hk : v.Known) (h : v.Completed log) {task : Task} {op : TaskOp} {ops more : List TaskOp}
    (ht : v.todo task = op :: ops) (hop : OpStep v op evs v' more) :
    (v'.setTodo task (more ++ ops)).Completed (log ++ evs) := by
  have hf := opFrame hop
  have hmore : ∀ id, .complete id ∉ more := by
    intro id hm
    cases hop with
    | cleanRecv j hd => split_ifs at hm <;> simp at hm
    | _ => simp at hm
  have htodo : ∀ id, .complete id ∈ (v'.setTodo task (more ++ ops)).todo .writer →
      .complete id ∈ v.todo .writer := by
    intro id hm
    by_cases he : Task.writer = task
    · subst he
      simp only [setTodo, Function.update_self] at hm
      rw [ht]
      rcases List.mem_append.mp hm with hm | hm
      · exact absurd hm (hmore id)
      · exact List.mem_cons_of_mem _ hm
    · simp only [setTodo, Function.update_of_ne he, hf.todo] at hm
      exact hm
  cases hop with
  | complete id hm =>
    intro j hj
    have hold : (v.life j).sendComplete = true ∨ .complete j ∈ v.todo .writer := by
      rcases hj with hj | hj
      · by_cases he : j = id
        · subst he
          have hw : task = .writer := hk.todo task (.complete j) (ht ▸ List.mem_cons_self)
          rw [hw] at ht
          exact .inr (ht ▸ List.mem_cons_self)
        · exact .inl (by simpa [setTodo, setLife, he] using hj)
      · exact .inr (htodo j hj)
    obtain ⟨f, hf, hx⟩ := h j hold
    exact ⟨f, sentFrames_append log [] ▸ List.mem_append_left _ hf, hx⟩
  | retire id => exact h.keep (complete_setLife id _ fun hc => hc) htodo
  | cleanSend id => exact h.keep (complete_setLife id _ fun hc => hc) htodo
  | cleanRecv id => exact h.keep (complete_setLife id _ fun hc => hc) htodo
  | _ => exact h.keep (fun _ hc => hc) htodo

theorem completed_step (hk : v.Known) (h : v.Completed log) (hs : LedgerStep v evs v') :
    v'.Completed (log ++ evs) := by
  have hcreate : ∀ (ids : Ids) (id : Nat) (life : StreamLife), life.sendComplete = false → ∀ j,
      ((v.create ids id life).life j).sendComplete = true → (v.life j).sendComplete = true := by
    intro ids id life hl j hj
    refine complete_setLife id life ?_ j hj
    intro hc
    rw [hl] at hc
    cases hc
  cases hs with
  | openLocal ho hid => exact h.keep (hcreate v.ids.takeLocal _ _ rfl) fun _ hm => hm
  | openRemote n incoming hp hid hin => exact h.keep (hcreate v.ids.takeRemote _ _ rfl) fun _ hm => hm
  | accept id incoming hin => exact h.keep (complete_setLife id _ fun hc => hc) fun _ hm => hm
  | dropSend id hh => exact h.keep (complete_setLife id _ fun hc => hc) fun _ hm => hm
  | dropRecv id hh => exact h.keep (complete_setLife id _ fun hc => hc) fun _ hm => hm
  | cleanup order ht => exact h.keep (fun _ hc => hc) fun _ hm => hm
  | sent f hh =>
    intro id hid
    rcases hid with hid | hid
    · obtain ⟨g, hg, hx⟩ := h id (.inl hid)
      exact ⟨g, sentFrames_append log [.sent f] ▸ List.mem_append_left _ hg, hx⟩
    · simp only [setTodo, Function.update_self] at hid
      exact ⟨f, sentFrames_append log [.sent f] ▸ List.mem_append_right _ List.mem_cons_self,
        terminalOps_complete f id hid⟩
  | stopWriter =>
    refine h.keep (fun _ hc => hc) ?_
    intro id hm
    simp [setTodo] at hm
  | ended f id hd ht hm => exact h.keep (fun _ hc => hc) fun _ hm => hm
  | stopReader ops hops _ => exact h.keep (fun _ hc => hc) fun _ hm => hm
  | work v₁ task op ops more _ ht hop => exact completed_op hk h ht hop
  | _ => exact h.keep (fun _ hc => hc) fun _ hm => hm

theorem reach_completed (h : (machine l isClient).Reach v log) : v.Completed log := by
  refine h.invariant Completed ?_ fun _ _ _ _ hr hc hs => completed_step (reach_known hr) hc hs
  intro v (hi : v = _) id hid
  subst hi
  rcases hid with hid | hid <;> cases hid

end Ledger
end Muxtls
