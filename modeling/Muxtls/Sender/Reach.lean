import Muxtls.Ledger.Basic
import Muxtls.Sender.Order
import Muxtls.Sender.Refine

namespace Muxtls

/-- `reset_stream` does not look at handles and drop marks. -/
theorem Shared.resetStream_setLife (s : Shared) (j : Nat) (life : StreamLife) (id errorCode : Nat) :
    (s.setLife j life).resetStream id errorCode =
      ((s.resetStream id errorCode).1.setLife j life, (s.resetStream id errorCode).2) := by
  unfold Shared.resetStream
  by_cases hc : s.closed = true
  · rw [if_pos hc, if_pos (show (s.setLife j life).closed = true from hc)]
  · rw [if_neg hc, if_neg (show ¬ (s.setLife j life).closed = true from hc)]
    split
    · rfl
    · rfl
    · let s₁ := s.setLife j life
      by_cases hq : ((s.send id).sendDispatched || (s.send id).resetQueued) = true
      · rw [if_pos hq, if_pos (show ((s₁.send id).sendDispatched || (s₁.send id).resetQueued) = true from hq)]
      · rw [if_neg hq, if_neg (show ¬ ((s₁.send id).sendDispatched || (s₁.send id).resetQueued) = true from hq)]
        by_cases hf : (s.queues.closing || s.queues.control.length ≥ s.limits.maxControlFrames) = true
        · rw [if_pos hf,
            if_pos (show (s₁.queues.closing || s₁.queues.control.length ≥ s₁.limits.maxControlFrames) = true
              from hf)]
        · rw [if_neg hf,
            if_neg (show ¬ (s₁.queues.closing || s₁.queues.control.length ≥ s₁.limits.maxControlFrames) = true
              from hf)]
          rfl

namespace Endpoint

variable {l : Limits} {isClient : Bool} {e e' : Endpoint} {log : List Event}

/-- A task step as a step of the sender. -/
theorem sender_op (hv : e.shared.sender.WF l) (hk : e.ledger.Known) (hl : e.shared.limits = l) (op : TaskOp)
    (hstop : ∀ id, op = .stopSending id → e.shared.ids.Opened id) :
    SendStep l e.shared.sender (e.shared.opEvents op) (e.shared.runOp op).1.sender := by
  have hquiet : SendStep l e.shared.sender [] e.shared.sender := .quiet _ _ (by simp)
  cases op with
  | complete id =>
    simp only [Shared.runOp, Shared.opEvents]
    split_ifs <;> exact hquiet
  | retire id =>
    simp only [Shared.runOp, Shared.opEvents]
    split_ifs <;> exact hquiet
  | remove id =>
    simp only [Shared.runOp, Shared.opEvents]
    split_ifs
    · exact .retire e.shared.sender id
    · exact hquiet
  | cleanSend id =>
    simp only [Shared.runOp, Shared.opEvents]
    by_cases hd : (e.shared.life id).sendDropped = true
    · have ho : e.ledger.ids.Opened id := by
        apply hk.opened_of_life
        intro he
        have hd' : (e.shared.life id).sendDropped = false := congrArg StreamLife.sendDropped he
        rw [hd] at hd'
        cases hd'
      rw [if_pos hd]
      let s₁ := e.shared.setLife id { e.shared.life id with sendDropped := false }
      have hcomm := e.shared.resetStream_setLife id { e.shared.life id with sendDropped := false } id 0
      have hstep : SendStep l e.shared.sender
          (if (e.shared.life id).sendDropped && !(e.shared.send id).sendTerminal then e.shared.resetEvents id 0
            else [])
          (if (s₁.send id).sendTerminal then s₁ else (s₁.resetStream id 0).1).sender := by
        by_cases ht : (s₁.send id).sendTerminal = true
        · have ht' : (e.shared.send id).sendTerminal = true := ht
          rw [if_pos ht, if_neg (by simp [ht'])]
          exact hquiet
        · have ht' : ¬ (e.shared.send id).sendTerminal = true := ht
          rw [if_neg ht, if_pos (by simp [hd, ht']), hcomm]
          unfold Shared.resetEvents
          rcases Shared.resetStream_step hv id 0 ho with ⟨error, he⟩ | ⟨hok, hreset⟩
          · rw [he]
            exact hquiet
          · rw [hok]
            exact hreset _ (.inl rfl)
      exact hstep
    · rw [if_neg hd]
      simpa [hd] using hquiet
  | cleanRecv id =>
    simp only [Shared.runOp, Shared.opEvents]
    split_ifs <;> exact hquiet
  | stopSending id =>
    simp only [Shared.runOp, Shared.opEvents]
    rcases e.shared.enqueueControl_stop (l := l) id (hstop id rfl) with he | ⟨hok, hstep⟩
    · rw [he]
      simp only [Bool.false_eq_true, if_false]
      split_ifs
      · exact hquiet
      · exact e.shared.markClosed_sender [] (by simp)
    · cases hq : e.shared.enqueueControl (.stopSending (.expect id)) with
      | mk s ok =>
        rw [hq] at hok hstep
        simp only at hok
        subst hok
        exact hstep
  | failClose reason => exact Shared.initiateClose_step hl 1 reason (le_refl 1)
  | markClosed => exact e.shared.markClosed_sender [] (by simp)

theorem sender_read (mode id : Nat) (poll : Inbox → Inbox × Inbox.ReadOutcome) :
    SendStep l e.shared.sender (e.read mode id poll).2 (e.read mode id poll).1.shared.sender := by
  have hquiet : ∀ outcome, ∀ x ∈ Shared.readEvents id outcome, x.Quiet := by
    intro outcome x hx
    cases outcome with
    | bytes data => rw [List.mem_singleton.mp hx]; trivial
    | ended => rw [List.mem_singleton.mp hx]; trivial
    | failed error => cases hx
    | pending => cases hx
  unfold read
  split
  · exact .quiet _ _ (by simp)
  · exact .quiet e.shared.sender _ (hquiet _)

theorem sender_receive (hv : e.shared.sender.WF l) {bytes : Bytes} (hitem : e.Receives bytes (e', log)) :
    SendStep l e.shared.sender log e'.shared.sender := by
  have hstep := fun f => e.shared.handleFrame_step hv f
  cases hitem with
  | dropped log ops hlog hops =>
    refine .quiet e.shared.sender _ ?_
    rcases hlog with rfl | ⟨error, rfl⟩ <;> simp [Event.Quiet]
  | refused f rest s error reason hf hh =>
    have hs := hstep f
    rw [hh] at hs
    rcases hs with ⟨error', he, hs⟩ | ⟨handled, he, -⟩
    · cases he
      exact hs
    · cases he
  | more f rest s todo hf hh =>
    have hs := hstep f
    rw [hh] at hs
    rcases hs with ⟨error', he, -⟩ | ⟨handled, -, hs⟩
    · cases he
    · exact hs
  | stop f rest s hf hh =>
    have hs := hstep f
    rw [hh] at hs
    rcases hs with ⟨error', he, -⟩ | ⟨handled, -, hs⟩
    · cases he
    · exact hs

theorem opened_of_handles (hk : e.ledger.Known) (id : Nat) (h : (e.shared.life id).sendHandles ≠ 0) :
    e.shared.ids.Opened id := by
  apply hk.opened_of_life
  intro he
  exact h (congrArg StreamLife.sendHandles he)

/-- Each step of an endpoint is one step of its sender. -/
theorem sender_step (hv : e.shared.sender.WF l) (hk : e.ledger.Known) (hl : e.shared.limits = l) (a : Act)
    (h : e.step a = some (e', log)) : SendStep l e.shared.sender log e'.shared.sender := by
  have hquiet : SendStep l e.shared.sender [] e.shared.sender := .quiet _ _ (by simp)
  cases step_cases h with
  | openFinish => exact e.shared.openBi_step
  | write mode id payload fin sendMode r hh hm hw =>
    exact Shared.startWrite_step (s := e.shared.setLife id _) hl id payload fin r (opened_of_handles hk id hh) hw
  | acquire id s hw => exact Shared.acquireWrite_step hv id s hw
  | enqueue id s w hw =>
    rcases Shared.enqueueWrite_step hv id _ hw with ⟨w', he, hstep⟩ | ⟨error, he, -⟩
    · cases he
      exact hstep
    · cases he
  | enqueueFailed id s error hw =>
    rcases Shared.enqueueWrite_step hv id _ hw with ⟨w', he, -⟩ | ⟨error', -, hstep⟩
    · cases he
    · exact hstep
  | finish id s hw => exact Shared.finishWrite_step id s hw
  | cancel id hp =>
    apply Shared.cancelWrite_step hv
    intro w hw hst
    exact hp (by rw [hw, Option.map_some, hst])
  | reset id errorCode hh =>
    unfold Shared.resetEvents
    rcases Shared.resetStream_step hv id errorCode (opened_of_handles hk id hh) with ⟨error, he⟩ | ⟨hok, hstep⟩
    · rw [he]
      exact hquiet
    · rw [hok]
      exact hstep _ (.inl rfl)
  | readChunk id => exact sender_read 1 id _
  | pollRead id room => exact sender_read 2 id _
  | dropSend id hh hp =>
    refine Shared.cancelWrite_step hv id ?_
    intro w hw hst
    exact hp (by rw [hw, Option.map_some, hst])
  | close reason s hc => exact Shared.close_step hl reason s hc
  | lastHandleDropped => exact Shared.initiateClose_step hl 0 _ (Nat.zero_le 1)
  | abort => exact .halt e.shared.sender [] (by simp)
  | keepalive s hc hp =>
    have hping := e.shared.enqueueControl_ping (l := l)
    rwa [hp] at hping
  | keepaliveRefused s hc hp =>
    obtain rfl := Shared.enqueueControl_refused hp
    simp only [hc]
    exact e.shared.markClosed_sender [] (by simp)
  | drainExpired => exact e.shared.markClosed_sender [] (by simp)
  | frame order s f hw hp hn =>
    have hstep := e.shared.nextFrame_step hv order fun id hid => hp.subset hid
    rw [hn] at hstep
    rcases hstep with ⟨f', hf, hstep⟩ | ⟨hf, -, -⟩
    · cases hf
      exact hstep
    · exact absurd rfl (hf f)
  | frameEnd order s turn hw hp hn ht =>
    have hstep := e.shared.nextFrame_step hv order fun id hid => hp.subset hid
    rw [hn] at hstep
    rcases hstep with ⟨f, hf, -⟩ | ⟨-, -, hstep⟩
    · rcases ht with rfl | ⟨message, rfl⟩ <;> cases hf
    · exact hstep
  | frameWait order s turn hw hp hn ht =>
    have hstep := e.shared.nextFrame_step hv order fun id hid => hp.subset hid
    rw [hn] at hstep
    rcases hstep with ⟨f, hf, -⟩ | ⟨-, -, hstep⟩
    · rcases ht with rfl | rfl <;> cases hf
    · exact hstep
  | sent => exact .quiet e.shared.sender _ (by simp [Event.Quiet])
  | sentClose => exact .quiet e.shared.sender _ (by simp [Event.Quiet])
  | receive bytes e' evs hr ht hitem => exact sender_receive hv hitem
  | work task op ops ht =>
    have hmem : op ∈ e.ledger.todo task := by
      change op ∈ e.todo task
      rw [ht]
      exact List.mem_cons_self
    exact sender_op hv hk hl op fun id he => hk.stops task id (he ▸ hmem)
  | _ => exact hquiet

/-- The sender of an endpoint follows its runs. -/
theorem reach_sender (h : (machine l isClient).Reach e log) :
    (Sender.machine l isClient).Reach e.shared.sender log := by
  refine h.refine (fun e => e.shared.sender) ?_ ?_
  · intro e he
    rw [(connect_ok he).2]
    rfl
  · rintro s tr evs s' hr hv ⟨a, ha⟩
    have hr' := reach_ledger hr
    exact .single (sender_step (Sender.reach_wf hv) (Ledger.reach_known hr') (Ledger.reach_limits hr') a ha)

theorem reach_sendStep (hr : (machine l isClient).Reach e log) (a : Act) {evs : List Event}
    (h : e.step a = some (e', evs)) : SendStep l e.shared.sender evs e'.shared.sender := by
  have hl := reach_ledger hr
  exact sender_step (Sender.reach_wf (reach_sender hr)) (Ledger.reach_known hl) (Ledger.reach_limits hl) a h

end Endpoint
end Muxtls
