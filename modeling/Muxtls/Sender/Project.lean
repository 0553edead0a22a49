import Muxtls.Sender.Direction

namespace Muxtls

/-- The emitted close frame keeps the code of the published one. -/
theorem WriterQueues.takeCloseFrame_close (q : WriterQueues) (code : ErrorCode) (fitted : String) (f : Frame)
    (hc : q.closeFrame = some (.connectionClose code fitted)) (hf : q.takeCloseFrame.2 = some f) :
    ∃ reason, f = .connectionClose code reason := by
  unfold WriterQueues.takeCloseFrame at hf
  rw [hc] at hf
  cases hf
  exact ⟨_, rfl⟩

namespace Sender

/-- Only a published close frame is emitted at the end. -/
theorem closeFrame_inv {l : Limits} {v : Sender} (hv : v.WF l) (f : Frame) (hf : v.queues.takeCloseFrame.2 = some f) :
    v.queues.closeFrame ≠ none ∧ ∃ code reason, f = .connectionClose code reason := by
  cases hc : v.queues.closeFrame with
  | none => simp [WriterQueues.takeCloseFrame, hc] at hf
  | some g =>
    obtain ⟨code, fitted, rfl, -, -⟩ := hv.close g hc
    obtain ⟨reason, rfl⟩ := v.queues.takeCloseFrame_close code fitted f hc hf
    exact ⟨by simp, code, reason, rfl⟩

/-- The send direction of stream `id` in a sender. -/
def direction (v : Sender) (id : Nat) : SendDir where
  chunks := (v.queues.chunksOf id).map fun c => (c.payload, c.fin)
  finishing := (v.send id).pending.any (·.stage == .enqueued)
  terminal := (v.send id).sendTerminal
  dispatched := (v.send id).sendDispatched
  resetQueued := (v.send id).resetQueued
  resets := v.queues.control.countP (Frame.isReset id)
  cut := v.cut

/-- Updates of another stream, of the control queue or of the peer's limits leave a direction alone. -/
theorem direction_congr (v v' : Sender) (id : Nat) (hc : v'.queues.chunksOf id = v.queues.chunksOf id)
    (hs : v'.send id = v.send id)
    (hr : v'.queues.control.countP (Frame.isReset id) = v.queues.control.countP (Frame.isReset id))
    (hcut : v'.cut = v.cut) : v'.direction id = v.direction id := by
  simp only [direction, hc, hs, hr, hcut]

theorem quiet_dirEvents (log : List Event) (h : ∀ e ∈ log, e.Quiet) (id : Nat) :
    log.filterMap (dirEvent id) = [] := by
  rw [List.filterMap_eq_nil_iff]
  intro e he
  have hq := h e he
  cases e <;> first | rfl | exact hq.elim

theorem resetLog_dirEvents (id j : Nat) (log : List Event) (h : ResetLog id log) :
    log.filterMap (dirEvent j) = [] := by
  rcases h with rfl | rfl <;> rfl

/-- Of the frames of the control queue only RESET_STREAM shows in a direction. -/
theorem control_sendsOn (l : Limits) (i : Ids) (f : Frame) (h : f.Control l i) (id : Nat) :
    f.sendsOn id = f.isReset id := by
  cases f <;> first | rfl | exact h.elim

theorem isReset_eq (f : Frame) (id : Nat) (h : f.isReset id = true) :
    ∃ streamId code, f = .resetStream streamId code := by
  cases f <;> first | cases h | exact ⟨_, _, rfl⟩

theorem cut_of_open (v : Sender) (h : v.queues.closing = false) : v.cut = false := by
  simp [cut, h]

variable {l : Limits} {v v' : Sender} {log : List Event}

theorem direction_setSend_ne {id j : Nat} (h : id ≠ j) (st : SendState) :
    (v.setSend j st).direction id = v.direction id :=
  direction_congr v _ id rfl (Function.update_of_ne h _ _) rfl rfl

theorem direction_setSend_self (id : Nat) (st : SendState) :
    (v.setSend id st).direction id =
      { v.direction id with
        finishing := st.pending.any (·.stage == .enqueued)
        terminal := st.sendTerminal
        dispatched := st.sendDispatched
        resetQueued := st.resetQueued } := by
  simp only [direction, setSend, Function.update_self, cut]

theorem direction_push {f : Frame} (id : Nat) (hf : f.isReset id = false) :
    (v.setQueues (v.queues.pushControl f)).direction id = v.direction id := by
  refine direction_congr v _ id rfl rfl ?_ rfl
  simp [setQueues, WriterQueues.pushControl, hf]

theorem direction_create (hv : v.WF l) (ids : Ids) (id j : Nat) (hn : ¬ v.ids.Opened j) :
    (v.create ids j).direction id = v.direction id := by
  refine direction_congr v _ id rfl ?_ rfl rfl
  by_cases hj : id = j
  · subst hj
    simp [create, hv.fresh id hn]
  · simp [create, hj]

/-- The simulation of one direction: each step of the sender is a step of the direction. -/
theorem direction_step (hv : v.WF l) (h : SendStep l v log v') (id : Nat) :
    DirStep (v.direction id) (log.filterMap (dirEvent id)) (v'.direction id) := by
  have skip : ∀ v' : Sender, v'.direction id = v.direction id →
      DirStep (v.direction id) [] (v'.direction id) := by
    intro v' he
    rw [he]
    exact .skip _
  cases h with
  | quiet _ h => rw [quiet_dirEvents log h]; exact .skip _
  | halt _ h => rw [quiet_dirEvents log h]; exact .skip _
  | openLocal hid hclosed hclosing =>
    apply skip
    have hn := Ids.not_opened_nextLocal hv.ids
    exact (direction_push (v := v.create _ _) id rfl).trans (direction_create hv _ _ _ hn)
  | openRemote _ hid hlog =>
    have hl : log.filterMap (dirEvent id) = [] := by
      rcases hlog with rfl | ⟨error, rfl⟩ <;> rfl
    rw [hl]
    exact skip _ (direction_create hv _ _ _ (Ids.not_opened_nextRemote hv.ids))
  | pend j pending hid hold hnew =>
    apply skip
    by_cases hj : id = j
    · subst hj
      have hf : ∀ p : Option PendingWrite, (∀ w, p = some w → w.stage ≠ .enqueued) →
          p.any (·.stage == .enqueued) = false := by
        intro p hp
        cases p with
        | none => rfl
        | some w => simpa using hp w rfl
      simp [direction, setSend, cut, hf _ hold, hf _ fun w hw => (hnew w hw).2]
    · exact direction_setSend_ne hj _
  | enqueue j w hw hstage hclosing hterm =>
    by_cases hj : id = j
    · subst hj
      have hd := DirStep.enqueue (v.direction id) w.payload w.fin (by simpa [direction, hw] using hstage)
        hterm (v.cut_of_open hclosing)
      have he : [Event.queued id w.payload w.fin].filterMap (dirEvent id) = [.queued w.payload w.fin] := by
        simp [dirEvent]
      rw [he]
      have hfin : (if w.fin then some { w with stage := .enqueued } else none : Option PendingWrite).any
          (·.stage == .enqueued) = w.fin := by
        cases w.fin <;> rfl
      have hch : ((v.queues.pushChunk id (Shared.heldChunk id w)).chunksOf id).map
          (fun c => (c.payload, c.fin)) = (v.direction id).chunks ++ [(w.payload, w.fin)] := by
        simp [WriterQueues.chunksOf_pushChunk, direction, Shared.heldChunk]
      rw [direction_setSend_self]
      simp only [direction, setQueues, cut, hfin] at hch hd ⊢
      rw [hch]
      exact hd
    · have he : [Event.queued j w.payload w.fin].filterMap (dirEvent id) = [] := by
        simp [dirEvent, Ne.symm hj]
      rw [he]
      apply skip
      rw [direction_setSend_ne hj]
      refine direction_congr v _ id ?_ rfl rfl rfl
      simp [setQueues, WriterQueues.chunksOf_pushChunk, hj]
  | finish j w hw hstage =>
    by_cases hj : id = j
    · subst hj
      have hd := DirStep.finish (v.direction id) (by simp [direction, hw, hstage])
      rw [direction_setSend_self]
      exact hd
    · exact skip _ (direction_setSend_ne hj _)
  | reset j errorCode _ hid hdisp hres hclosing hlog =>
    rw [resetLog_dirEvents j id log hlog]
    have hj' : (VarInt.expect j).intoInner = j := VarInt.expect_intoInner _ (hid.le hv.ids)
    by_cases hj : id = j
    · subst hj
      have hd := DirStep.reset (v.direction id) hdisp hres (v.cut_of_open hclosing)
      have hch : ((v.queues.removeStream id).pushControl (.resetStream (.expect id) errorCode)).chunksOf id =
          [] := by
        simp [WriterQueues.chunksOf_removeStream]
      have hc : ((v.queues.removeStream id).pushControl (.resetStream (.expect id) errorCode)).control.countP
          (Frame.isReset id) = (v.direction id).resets + 1 := by
        simp [WriterQueues.pushControl, WriterQueues.removeStream, direction, Frame.isReset, hj']
      rw [direction_setSend_self]
      simp only [direction, setQueues, cut, hch] at hc hd ⊢
      rw [hc]
      exact hd
    · apply skip
      rw [direction_setSend_ne hj]
      refine direction_congr v _ id ?_ rfl ?_ rfl
      · simp [setQueues, WriterQueues.chunksOf_removeStream, hj]
      · simp [setQueues, WriterQueues.pushControl, WriterQueues.removeStream, Frame.isReset, hj', Ne.symm hj]
  | resetAgain j _ h hlog => rw [resetLog_dirEvents j id log hlog]; exact .skip _
  | stopRetired => exact .skip _
  | ping hclosing _ => exact skip _ (direction_push id rfl)
  | stop j hid hclosing => exact skip _ (direction_push id rfl)
  | close code reason fitted hcode hclosed hfit =>
    have hclosing : v.queues.closing = false := by
      cases hc : v.queues.closing with
      | false => rfl
      | true => rw [hv.closing hc] at hclosed; cases hclosed
    cases hg : code.intoInner == 0
    · exact .cut _
    · apply skip
      refine direction_congr v _ id rfl rfl rfl ?_
      rw [v.cut_of_open hclosing]
      rfl
  | shutdown _ h => rw [quiet_dirEvents log h]; exact .cut _
  | pop f control hcut hc =>
    have hs := control_sendsOn l v.ids f (hv.control f (hc ▸ List.mem_cons_self)) id
    cases hr : f.isReset id with
    | false =>
      have he : [Event.emitted f].filterMap (dirEvent id) = [] := by simp [dirEvent, hs, hr]
      rw [he]
      apply skip
      refine direction_congr v _ id rfl rfl ?_ rfl
      simp [setQueues, hc, hr]
    | true =>
      have he : [Event.emitted f].filterMap (dirEvent id) = [.out f] := by simp [dirEvent, hs, hr]
      rw [he]
      obtain ⟨streamId, code, rfl⟩ := isReset_eq f id hr
      exact DirStep.popReset (v.direction id) streamId code (control.countP (Frame.isReset id))
        (by simp [direction, hc, hr])
  | grant f hcut hc hf =>
    have he : [Event.emitted f].filterMap (dirEvent id) = [] := by
      cases f <;> first | rfl | exact hf.elim
    rw [he]
    exact .skip _
  | data j chunk rest skipped later hcut hturn hready hskip hchunk hel =>
    obtain ⟨ho, hfit⟩ := hv.chunks j chunk (hchunk ▸ List.mem_cons_self)
    have hid : chunk.streamId.intoInner = j := by
      rw [hfit.streamId, VarInt.expect_intoInner _ (ho.le hv.ids)]
    by_cases hj : id = j
    · subst hj
      have hd := DirStep.data (v.direction id) chunk.streamId chunk.payload chunk.fin
        (rest.map fun c => (c.payload, c.fin)) (v.queues.takeCount (v.send id) chunk)
        (by simp [direction, hchunk])
      have he : [Event.emitted (v.dataFrame id chunk)].filterMap (dirEvent id) =
          [.out (v.dataFrame id chunk)] := by
        simp [dirEvent, dataFrame, Frame.sendsOn, hid]
      rw [he]
      have hch : ((v.queues.dispatch id (later ++ skipped)
          (if (chunk.payload.drop (v.queues.takeCount (v.send id) chunk)).isEmpty then rest
            else { chunk with payload := chunk.payload.drop (v.queues.takeCount (v.send id) chunk) } :: rest)
          (v.queues.takeCount (v.send id) chunk)).chunksOf id).map (fun c => (c.payload, c.fin)) =
          if (chunk.payload.drop (v.queues.takeCount (v.send id) chunk)).isEmpty then
            rest.map (fun c => (c.payload, c.fin))
          else (chunk.payload.drop (v.queues.takeCount (v.send id) chunk), chunk.fin) ::
            rest.map (fun c => (c.payload, c.fin)) := by
        rw [WriterQueues.chunksOf_dispatch, if_pos rfl]
        split_ifs <;> rfl
      rw [dispatch, direction_setSend_self]
      simp only [direction, setQueues, cut, SendState.dispatch] at hch hd ⊢
      rw [hch]
      exact hd
    · have he : [Event.emitted (v.dataFrame j chunk)].filterMap (dirEvent id) = [] := by
        simp [dirEvent, dataFrame, Frame.sendsOn, hid, Ne.symm hj]
      rw [he]
      apply skip
      rw [dispatch, direction_setSend_ne hj]
      refine direction_congr v _ id ?_ rfl rfl rfl
      simp [setQueues, WriterQueues.chunksOf_dispatch, hj]
  | turn => exact .skip _
  | closeFrame f hclosing hdrain hf =>
    obtain ⟨-, code, reason, rfl⟩ := closeFrame_inv hv f hf
    exact .skip _
  | settings => exact .skip _
  | maxData => exact .skip _
  | maxStreamData streamId maximum hp hs =>
    apply skip
    by_cases hj : id = streamId.intoInner
    · subst hj
      rw [direction_setSend_self]
      rfl
    · exact direction_setSend_ne hj _
  | lateCredit => exact .skip _
  | retire j => exact .skip _

theorem reach_direction {isClient : Bool} (h : (machine l isClient).Reach v log) (id : Nat) :
    SendDir.machine.Reach (v.direction id) (log.filterMap (dirEvent id)) := by
  refine h.simulate (fun v => v.direction id) (dirEvent id) ?_ ?_
  · intro v (hi : v = (Shared.new l isClient).sender)
    subst hi
    rfl
  · intro v _ log v' hr _ hs
    exact .single (direction_step (reach_wf hr) hs id)

/-- The frames of stream `id` that the log shows as emitted. -/
theorem outs_dirEvents (log : List Event) (id : Nat) :
    outs (log.filterMap (dirEvent id)) = (emitted log).filter (Frame.sendsOn id) := by
  induction log with
  | nil => rfl
  | cons e log ih =>
    cases e with
    | emitted f =>
      have he : emitted (.emitted f :: log) = f :: emitted log := rfl
      rw [he]
      cases hf : f.sendsOn id with
      | true => simpa [outs, dirEvent, hf] using ih
      | false => simpa [outs, dirEvent, hf] using ih
    | queued j payload fin =>
      have he : emitted (.queued j payload fin :: log) = emitted log := rfl
      rw [he, ← ih]
      by_cases hj : j = id <;> simp [outs, dirEvent, hj]
    | _ => exact ih

end Sender
end Muxtls
