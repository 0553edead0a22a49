import Muxtls.Ledger.Retire
import Muxtls.Receiver.Delivery
import Muxtls.Receiver.Refine
import Muxtls.Schedule.Flags
import Muxtls.Sender.OpenFirst

namespace Muxtls
namespace Endpoint

variable {l : Limits} {isClient : Bool} {e e' : Endpoint} {log evs : List Event} {id : Nat}

/-- A `try_retire_stream` call for the stream is in progress. -/
def retiring (e : Endpoint) (id : Nat) : Bool :=
  [Task.reader, .writer, .cleanup].any fun task => (e.todo task).any fun op => op == .retire id || op == .remove id

/-- A FIN of the stream is in the queue and its `send_terminal` store is still to come. -/
def finishing (e : Endpoint) (id : Nat) : Bool := (e.shared.send id).pending.any (·.stage == .enqueued)

/-- The second half of `try_retire_stream` would run between the two. -/
def overtaken (e : Endpoint) : Act → Bool
  | .work task =>
    match e.todo task with
    | .remove id :: _ => e.finishing id
    | _ => false
  | _ => false

/-- The runs in which no removal overtakes the call that queued the FIN. -/
def promptMachine (l : Limits) (isClient : Bool) : Machine Endpoint Event :=
  .ofStep (connect l isClient = .ok ·) (Machine.guardStep (fun e a => !e.overtaken a) step)

theorem not_shut (h : (machine l isClient).Reach e log) (hc : e.shared.closed = false) : e.ledger.shut = false := by
  by_contra hs
  have hclosed := Ledger.reach_shut (reach_ledger h) (Bool.eq_true_of_not_eq_false hs)
  exact absurd (hc.symm.trans hclosed) (by simp)

/-- The terminal frame of a completed stream was sent. -/
theorem sent_of_complete (h : (machine l isClient).Reach e log) (hc : (e.ledger.life id).sendComplete = true) :
    ∃ f ∈ sentFrames log, f.sendsOn id = true ∧ f.ends = true :=
  Ledger.reach_completed (reach_ledger h) id (.inl hc)

theorem marked_of_complete (h : (machine l isClient).Reach e log) (hc : (e.ledger.life id).sendComplete = true) :
    (e.shared.sender.direction id).marked = true := by
  obtain ⟨f, hf, hon, hend⟩ := sent_of_complete h hc
  exact Sender.marked_of_emitted (reach_sender h) (emitted_of_sent h hf) hon hend

/-- On an open connection a stream leaves the map with its permit given back, and after both its terminal
frames were exchanged. -/
theorem ended_of_gone (h : (machine l isClient).Reach e log) (hc : e.shared.closed = false)
    (ho : e.shared.ids.Opened id) (hm : id ∉ e.shared.streams) :
    (e.ledger.life id).openPermit = false ∧ (∃ f ∈ sentFrames log, f.sendsOn id = true ∧ f.ends = true) ∧
      e.ledger.terminal id = true := by
  have hslots := reach_slots h
  have hp : (e.ledger.life id).openPermit = false :=
    (hslots.gone id ho hm).resolve_left (by rw [not_shut h hc]; simp)
  obtain ⟨hcomplete, hterm⟩ := (hslots.held id ho).resolve_left (by rw [hp]; simp)
  exact ⟨hp, sent_of_complete h hcomplete, hterm⟩

/-- Once the terminal frame was sent, the direction is terminal, or about to be. -/
theorem terminal_or_finishing (h : (machine l isClient).Reach e log) (hc : (e.ledger.life id).sendComplete = true) :
    (e.shared.send id).sendTerminal = true ∨ e.finishing id = true := by
  have hdir := SendDir.reach_inv (Sender.reach_direction (reach_sender h) id)
  rcases Bool.or_eq_true_iff.mp (marked_of_complete h hc) with hd | hr
  · exact Bool.or_eq_true_iff.mp (hdir.disp_empty hd).2
  · exact .inl (hdir.reset_empty hr).2

/-- Outside the map once the permit is back, or about to be. -/
def Unmapped (e : Endpoint) : Prop :=
  ∀ id, e.ledger.ids.Opened id → (e.ledger.life id).openPermit = false → id ∈ e.ledger.streams →
    ∃ task, .remove id ∈ e.todo task

/-- A removal that does not overtake the FIN takes the stream out of the map. -/
theorem removed_of_work (hr : (machine l isClient).Reach e log) {task : Task} {ops : List TaskOp}
    (ht : e.todo task = .remove id :: ops) (hf : e.finishing id = false)
    (h : e.step (.work task) = some (e', evs)) : id ∉ e'.ledger.streams := by
  have hslots := reach_slots hr
  have hmem : .remove id ∈ e.todo task := ht ▸ List.mem_cons_self
  obtain ⟨ho, hp⟩ := hslots.removing task id hmem
  obtain ⟨hc, hterm⟩ := (hslots.held id ho).resolve_left (by rw [hp]; simp)
  have hsend : (e.shared.send id).sendTerminal = true :=
    (terminal_or_finishing hr hc).resolve_right (by rw [hf]; simp)
  have hrecv : (e.shared.inbox.recv id).recvTerminal = true := hterm
  simp only [step, ht, Shared.runOp] at h
  cases h
  by_cases hm : id ∈ e.shared.streams
  · rw [freeAfter_ledger]
    simp [hm, hsend, hrecv, ledger, setTodo, Shared.holdings, Shared.core, Core.holdings]
  · rw [freeAfter_ledger]
    simp [hm, ledger, setTodo, Shared.holdings, Shared.core, Core.holdings]

theorem reach_unmapped (h : (promptMachine l isClient).Reach e log) : e.Unmapped := by
  refine h.invariant (fun e _ => e.Unmapped) ?_ ?_
  · intro e he id ho
    obtain rfl := (connect_ok he).2
    exact absurd ho (Ids.not_opened_start isClient id)
  · rintro e log evs e' hg hu ⟨a, ha⟩ id ho hp hm
    obtain ⟨hprompt, ha⟩ := Machine.guardStep_eq_some.mp ha
    have hr := hg.of_guard
    have hstill {v : Ledger} {evs : List Event} (hrest : e.ledger.Rests evs v) (hov : v.ids.Opened id)
        (hpv : (v.life id).openPermit = false) (hmv : id ∈ v.streams) : ∃ task, .remove id ∈ v.todo task := by
      by_cases hoe : e.ledger.ids.Opened id
      · rw [(hrest.kept id hoe).1] at hpv
        obtain ⟨task, hrem⟩ := hu id hoe hpv (hrest.streams id hoe hmv)
        exact ⟨task, hrest.mem_todo hrem⟩
      · rw [(hrest.fresh id hoe hov).1] at hpv
        cases hpv
    rcases works_of_step hr ha with hrest | ⟨task, op, ops, v, v', more, rfl, ht, hrest, -, htodo, hop, he⟩
    · exact hstill hrest ho hp hm
    · have hframe := Ledger.opFrame hop
      have hmarks := Ledger.opMarks hop
      have htodo' : e'.todo = (v'.setTodo task (more ++ ops)).todo := congrArg Ledger.todo he
      rw [htodo']
      rw [he] at ho hp hm
      have hov : v.ids.Opened id := by simpa [Ledger.setTodo, hframe.ids] using ho
      have hmv := hmarks.streams id hm
      rcases hmarks.permit id with hsame | ⟨rfl, hc, hterm, -⟩
      · obtain ⟨t, hrem⟩ := hstill hrest hov (hsame.symm.trans hp) hmv
        rcases Ledger.mem_setTodo (htodo ▸ ht) hframe.todo hrem with hrem | ⟨rfl, rfl⟩
        · exact ⟨t, hrem⟩
        · have hfin : e.finishing id = false := by simpa [overtaken, ht] using hprompt
          exact absurd hm (he ▸ removed_of_work hr ht hfin ha)
      · rcases hmarks.retires id rfl with ⟨-, hrem⟩ | hno
        · exact ⟨task, by simp [Ledger.setTodo, hrem]⟩
        · exact absurd ⟨hmv, hc, hterm⟩ hno

theorem not_retiring (h : e.retiring id = false) (task : Task) :
    .retire id ∉ e.todo task ∧ .remove id ∉ e.todo task := by
  simp only [retiring, List.any_eq_false, Bool.not_eq_true] at h
  have ht := h task (by cases task <;> simp)
  constructor
  · intro hm
    simpa using ht _ hm
  · intro hm
    simpa using ht _ hm

/-- The peer's terminal frame of a stream whose receive direction has ended was accepted. -/
theorem accepted_of_terminal (h : (machine l isClient).Reach e log) (ht : e.ledger.terminal id = true) :
    ∃ f ∈ accepted log, f.sendsOn id = true ∧ f.ends = true := by
  have hside := RecvSide.reach_inv (Receiver.reach_side (reach_receiver h) id)
  obtain ⟨f, hf, hend⟩ := hside.terminal.mp ht
  rw [Receiver.tooks_inEvents] at hf
  obtain ⟨hf, hon⟩ := List.mem_filter.mp hf
  exact ⟨f, hf, hon, hend⟩

/-- A permit that was given back is not taken again. -/
theorem permit_of_step (hr : (machine l isClient).Reach e log) {a : Act} (h : e.step a = some (e', evs))
    (ho : e.shared.ids.Opened id) (hp : (e.shared.life id).openPermit = false) :
    (e'.shared.life id).openPermit = false := by
  have hkeep {v : Ledger} {evs : List Event} (hrest : e.ledger.Rests evs v) : (v.life id).openPermit = false :=
    (hrest.kept id ho).1.trans hp
  rcases works_of_step hr h with hrest | ⟨task, op, ops, v, v', more, -, -, hrest, -, -, hop, he⟩
  · exact hkeep hrest
  · have hlife : (e'.ledger.life id).openPermit = (v'.life id).openPermit := by rw [he]; rfl
    rcases (Ledger.opMarks hop).permit id with hsame | ⟨-, -, -, hf⟩
    · exact hlife.trans (hsame.trans (hkeep hrest))
    · exact hlife.trans hf

/-- A stream that is opened has a permit. -/
theorem permit_of_opened (hr : (machine l isClient).Reach e log) {a : Act} (h : e.step a = some (e', evs))
    (hn : ¬ e.shared.ids.Opened id) (ho : e'.shared.ids.Opened id) : (e'.ledger.life id).openPermit = true := by
  rcases works_of_step hr h with hrest | ⟨task, op, ops, v, v', more, -, -, hrest, -, -, hop, he⟩
  · exact (hrest.fresh id hn ho).1
  · have hov : v.ids.Opened id := by
      have ho : e'.ledger.ids.Opened id := ho
      rw [he] at ho
      simpa [Ledger.setTodo, (Ledger.opFrame hop).ids] using ho
    obtain ⟨hp, hc⟩ := hrest.fresh id hn hov
    rw [he]
    rcases (Ledger.opMarks hop).permit id with hsame | ⟨-, hc', -⟩
    · exact hsame.trans hp
    · rw [hc] at hc'
      cases hc'

/-- A permit is given back by the first half of `try_retire_stream`, for a stream with both marks. -/
theorem released_by_retire (hr : (machine l isClient).Reach e log) {a : Act} (h : e.step a = some (e', evs))
    (ho : e.shared.ids.Opened id) (hp : (e.ledger.life id).openPermit = true)
    (hp' : (e'.ledger.life id).openPermit = false) :
    ∃ task ops, a = .work task ∧ e.todo task = .retire id :: ops ∧ id ∈ e.shared.streams ∧
      (e.shared.life id).sendComplete = true ∧ (e.shared.inbox.recv id).recvTerminal = true := by
  have hkeep {v : Ledger} {evs : List Event} (hrest : e.ledger.Rests evs v) : (v.life id).openPermit = true :=
    (hrest.kept id ho).1.trans hp
  rcases works_of_step hr h with hrest | ⟨task, op, ops, v, v', more, rfl, ht, hrest, -, -, hop, he⟩
  · rw [hkeep hrest] at hp'
    cases hp'
  · have hlife : (e'.ledger.life id).openPermit = (v'.life id).openPermit := by rw [he]; rfl
    rcases (Ledger.opMarks hop).permit id with hsame | ⟨rfl, -⟩
    · rw [hlife, hsame, hkeep hrest] at hp'
      cases hp'
    · refine ⟨task, ops, rfl, ht, ?_⟩
      by_contra hno
      simp only [step, ht, Shared.runOp, if_neg hno] at h
      cases h
      rw [freeAfter_ledger] at hp'
      exact absurd (hp.symm.trans hp') (by simp)

/-- Retirement. On an open connection a stream leaves the map only after its own terminal frame was sent
and the peer's was received, and with its permit given back; no permit is lost, and none is given back
twice. If no removal overtakes the call that queued the FIN, then a stream with both marks is in neither
map as soon as no `try_retire_stream` call for it is in progress. -/
theorem retirement_complete (l : Limits) (isClient : Bool) :
    (∀ e log, (machine l isClient).Reach e log →
      (e.shared.closed = false → ∀ id, e.shared.ids.Opened id → id ∉ e.shared.streams →
        (∃ f ∈ sentFrames log, f.sendsOn id = true ∧ f.ends = true) ∧
        (∃ f ∈ accepted log, f.sendsOn id = true ∧ f.ends = true) ∧ (e.shared.life id).openPermit = false) ∧
      e.ledger.Permits l ∧
      ∀ a e' evs, e.step a = some (e', evs) → ∀ id, e.shared.ids.Opened id →
        (e.shared.life id).openPermit = false → (e'.shared.life id).openPermit = false) ∧
    ∀ e log, (promptMachine l isClient).Reach e log → e.shared.closed = false →
      ∀ id, e.shared.ids.Opened id → (e.shared.life id).sendComplete = true →
        (e.shared.inbox.recv id).recvTerminal = true → e.retiring id = false →
        id ∉ e.shared.streams ∧ id ∉ e.shared.queues.receiveWindows := by
  refine ⟨fun e log h => ⟨fun hc id ho hm => ?_, Ledger.reach_permits (reach_ledger h),
    fun a e' evs hs id ho hp => permit_of_step h hs ho hp⟩, ?_⟩
  · obtain ⟨hp, hsent, hterm⟩ := ended_of_gone h hc ho hm
    exact ⟨hsent, accepted_of_terminal h hterm, hp⟩
  · intro e log hg hc id ho hcomplete hterm hidle
    have h := hg.of_guard
    have hp : (e.ledger.life id).openPermit = false := by
      rcases (reach_slots h).retiring id ho hcomplete hterm with hs | hp | hr | hr
      · exact absurd hs (by rw [not_shut h hc]; simp)
      · exact hp
      · exact absurd hr (not_retiring hidle .reader).1
      · exact absurd hr (not_retiring hidle .writer).1
    have hout : id ∉ e.shared.streams := by
      intro hm
      obtain ⟨task, hr⟩ := reach_unmapped hg id ho hp hm
      exact (not_retiring hidle task).2 hr
    have hwin : e.shared.queues.receiveWindows = e.shared.streams := (Sender.reach_wf (reach_sender h)).windows
    exact ⟨hout, by rw [hwin]; exact hout⟩

/-- Stream 0 is opened and finished; the writer sends its FIN and the peer ends its side. Of the
`send_terminal` store and the second half of `try_retire_stream`, `last` says which comes first. -/
def retireRun (last : List Act) : List Act :=
  [.openStart, .openFinish, .receive (settingsFrame smallLimits).wire, .nextFrame [0], .send, .nextFrame [0],
    .send, .write 1 0 [] true, .acquire 0, .acquire 0, .acquire 0, .acquire 0, .enqueue 0, .nextFrame [0], .send,
    .receive (Frame.stream (.expect 0) true []).wire, .work .reader, .work .writer, .work .writer] ++ last

/-- The two flags of the second half of `try_retire_stream` are read before `queue_stream_chunk` stores
`send_terminal`, and nothing retires the stream again. -/
theorem retirement_incomplete :
    ∃ e log, (machine smallLimits true).Reach e log ∧ e.shared.closed = false ∧ e.readerDone = false ∧
      e.writerDone = false ∧ (e.shared.life 0).sendComplete = true ∧ (e.shared.inbox.recv 0).recvTerminal = true ∧
      (e.shared.send 0).sendTerminal = true ∧ (e.shared.send 0).pending = none ∧ (∀ task, e.todo task = []) ∧
      (e.shared.life 0).openPermit = false ∧ 0 ∈ e.shared.streams ∧ 0 ∈ e.shared.queues.receiveWindows := by
  have hrun : ((Machine.runList step { shared := .new smallLimits true }
      (retireRun [.work .writer, .finish 0])).map fun r =>
        (decide (r.1.shared.closed = false ∧ r.1.readerDone = false ∧ r.1.writerDone = false ∧
            (r.1.shared.life 0).sendComplete = true ∧ (r.1.shared.inbox.recv 0).recvTerminal = true ∧
            (r.1.shared.send 0).sendTerminal = true ∧ (r.1.shared.send 0).pending = none ∧
            (r.1.shared.life 0).openPermit = false),
          [Task.reader, .writer, .cleanup].map r.1.todo,
          decide (0 ∈ r.1.shared.streams ∧ 0 ∈ r.1.shared.queues.receiveWindows))) =
      some (true, [[], [], []], true) := by
    decide +kernel
  have h0 : connect smallLimits true = .ok { shared := .new smallLimits true } := rfl
  obtain ⟨e, log, hr, heq⟩ := Machine.runList_reach (connect smallLimits true = .ok ·) h0 _ _ hrun
  simp only [Prod.mk.injEq, decide_eq_true_eq, List.map_cons, List.map_nil, List.cons.injEq, and_true] at heq
  obtain ⟨⟨hc, hrd, hwd, hcomplete, hterm, hst, hpend, hpermit⟩, ⟨ht₁, ht₂, ht₃⟩, hin, hwin⟩ := heq
  exact ⟨e, log, hr, hc, hrd, hwd, hcomplete, hterm, hst, hpend, fun task => by cases task <;> assumption, hpermit,
    hin, hwin⟩

/-- The same run with the store first. -/
theorem retirement_complete_fin :
    ∃ e log, (promptMachine smallLimits true).Reach e log ∧ (e.shared.life 0).sendComplete = true ∧
      (e.shared.inbox.recv 0).recvTerminal = true ∧
      0 ∉ e.shared.streams ∧ 0 ∉ e.shared.queues.receiveWindows := by
  have hrun : ((Machine.runList (Machine.guardStep (fun e a => !e.overtaken a) step)
      { shared := .new smallLimits true } (retireRun [.finish 0, .work .writer])).map fun r =>
        decide (r.1.shared.closed = false ∧ r.1.shared.ids.Opened 0 ∧ (r.1.shared.life 0).sendComplete = true ∧
          (r.1.shared.inbox.recv 0).recvTerminal = true ∧ r.1.retiring 0 = false)) = some true := by
    decide +kernel
  have h0 : connect smallLimits true = .ok { shared := .new smallLimits true } := rfl
  obtain ⟨e, log, hr, heq⟩ := Machine.runList_reach (connect smallLimits true = .ok ·) h0 _ _ hrun
  obtain ⟨hc, ho, hcomplete, hterm, hidle⟩ := of_decide_eq_true heq
  obtain ⟨hout, hwin⟩ := (retirement_complete smallLimits true).2 e log hr hc 0 ho hcomplete hterm hidle
  exact ⟨e, log, hr, hcomplete, hterm, hout, hwin⟩

end Endpoint
end Muxtls
