import Muxtls.Sender.Issue
import Muxtls.Sender.Order

namespace Muxtls

/-- A direction that has dispatched its FIN or queued its reset. -/
def SendDir.marked (d : SendDir) : Bool := d.dispatched || d.resetQueued

theorem DirStep.marked {d d' : SendDir} {w : List DirEvent} (h : DirStep d w d') (hm : d.marked = true) :
    d'.marked = true := by
  simp only [SendDir.marked, Bool.or_eq_true] at hm ⊢
  cases h with
  | reset => exact .inr rfl
  | data =>
    rcases hm with hm | hm
    · exact .inl (by simp [hm])
    · exact .inr hm
  | _ => exact hm

namespace Sender

variable {l : Limits} {isClient : Bool} {v v' : Sender} {log evs : List Event} {id : Nat}

/-- `reset_stream` returns `Ok` when it has queued a reset, or finds the direction marked already. -/
theorem resetOk_step (hs : SendStep l v evs v') (hm : .resetOk id ∈ evs) : (v'.direction id).marked = true := by
  have hquiet : (∀ x ∈ evs, x.Quiet) → (v'.direction id).marked = true := fun hq => (hq _ hm).elim
  have hself : ∀ j, ResetLog j evs → id = j := by
    rintro j (rfl | rfl) <;> simpa using hm
  cases hs with
  | quiet _ hq => exact hquiet hq
  | halt _ hq => exact hquiet hq
  | shutdown _ hq => exact hquiet hq
  | openRemote _ hid hlog => rcases hlog with rfl | ⟨error, rfl⟩ <;> simp at hm
  | reset j errorCode _ hid hdisp hres hclosing hlog =>
    obtain rfl := hself j hlog
    simp [SendDir.marked, direction, setSend]
  | resetAgain j _ h hlog =>
    obtain rfl := hself j hlog
    simpa [SendDir.marked, direction] using h
  | _ => simp at hm

/-- A direction that was reset is marked from then on. -/
theorem reach_marked (h : (machine l isClient).Reach v log) (hm : .resetOk id ∈ log) :
    (v.direction id).marked = true := by
  refine h.invariant (fun v log => .resetOk id ∈ log → (v.direction id).marked = true) ?_ ?_ hm
  · intro v _ hm
    cases hm
  · intro v log evs v' hr ih hs hm
    rcases List.mem_append.mp hm with hm | hm
    · exact (direction_step (reach_wf hr) hs id).marked (ih hm)
    · exact resetOk_step hs hm

/-- The terminal frame of a marked direction was emitted, or it is a RESET_STREAM in the control queue. -/
theorem reach_terminal_once (h : (machine l isClient).Reach v log) (hm : .resetOk id ∈ log) (ho : v.closed = false) :
    ((emitted log).filter (Frame.sendsOn id)).countP Frame.ends + v.queues.control.countP (Frame.isReset id) = 1 := by
  have hv := reach_wf h
  have hi := SendDir.reach_inv (reach_direction h id)
  have hcount := hi.count_eq (.inl (v.cut_of_open (hv.not_closing ho)))
  have hmark : ((v.direction id).dispatched || (v.direction id).resetQueued) = true := reach_marked h hm
  rw [hmark, outs_dirEvents] at hcount
  exact hcount

/-- A direction whose terminal frame was emitted is marked. -/
theorem marked_of_emitted (h : (machine l isClient).Reach v log) {f : Frame} (hf : f ∈ emitted log)
    (hon : f.sendsOn id = true) (hend : f.ends = true) : (v.direction id).marked = true := by
  have hout : f ∈ outs (log.filterMap (dirEvent id)) := by
    rw [outs_dirEvents]
    exact List.mem_filter.mpr ⟨hf, hon⟩
  have hpos : 0 < (outs (log.filterMap (dirEvent id))).countP Frame.ends := List.countP_pos_iff.mpr ⟨f, hout, hend⟩
  have hle := (SendDir.reach_inv (reach_direction h id)).count_le
  by_contra hno
  have hmark : ((v.direction id).dispatched || (v.direction id).resetQueued) = false := Bool.eq_false_of_not_eq_true hno
  rw [hmark, Bool.toNat_false] at hle
  omega

/-- Nothing is queued on a marked direction. -/
theorem chunks_of_marked (h : (machine l isClient).Reach v log) (hm : (v.direction id).marked = true) :
    v.queues.chunksOf id = [] := by
  have hi := SendDir.reach_inv (reach_direction h id)
  refine List.map_eq_nil_iff.mp (?_ : (v.direction id).chunks = [])
  rcases Bool.or_eq_true_iff.mp hm with hd | hr
  · exact (hi.disp_empty hd).1
  · exact (hi.reset_empty hr).1

/-- A control frame leaves its queue when it is emitted, or with the whole queue. -/
theorem control_step (hs : SendStep l v evs v') {f : Frame} (hf : f ∈ v.queues.control) :
    v'.closed = true ∨ f ∈ v'.queues.control ∨ f ∈ emitted evs := by
  cases hs with
  | close => exact .inl rfl
  | shutdown => exact .inl rfl
  | openLocal => exact .inr (.inl (List.mem_append_left _ hf))
  | reset => exact .inr (.inl (List.mem_append_left _ hf))
  | ping => exact .inr (.inl (List.mem_append_left _ hf))
  | stop => exact .inr (.inl (List.mem_append_left _ hf))
  | pop g control hcut hc =>
    rw [hc] at hf
    rcases List.mem_cons.mp hf with rfl | hf
    · exact .inr (.inr List.mem_cons_self)
    · exact .inr (.inl hf)
  | _ => exact .inr (.inl hf)

/-- A queued STOP_SENDING waits in the control queue until it is emitted. -/
theorem reach_stop_queued (h : (machine l isClient).Reach v log) (hm : .stopQueued id ∈ log) :
    v.closed = true ∨ .stopSending (.expect id) ∈ v.queues.control ∨
      .stopSending (.expect id) ∈ emitted log := by
  refine h.invariant (fun v log => .stopQueued id ∈ log → v.closed = true ∨
    .stopSending (.expect id) ∈ v.queues.control ∨ .stopSending (.expect id) ∈ emitted log) ?_ ?_ hm
  · intro v _ hm
    cases hm
  · intro v log evs v' hr ih hs hm
    rw [emitted_append]
    rcases List.mem_append.mp hm with hm | hm
    · rcases ih hm with hc | hc | hc
      · exact .inl (closed_step hs hc)
      · exact (control_step hs hc).imp_right (.imp_right (List.mem_append_right _))
      · exact .inr (.inr (List.mem_append_left _ hc))
    · have hquiet : ∀ {x : Prop}, (∀ e ∈ evs, e.Quiet) → x := fun hq => (hq _ hm).elim
      cases hs with
      | stop j hid hclosing =>
        obtain rfl : id = j := by simpa using hm
        exact .inr (.inl (List.mem_append_right _ List.mem_cons_self))
      | quiet _ hq => exact hquiet hq
      | halt _ hq => exact hquiet hq
      | shutdown _ hq => exact hquiet hq
      | openRemote _ hid hlog => rcases hlog with rfl | ⟨error, rfl⟩ <;> simp at hm
      | reset j errorCode _ hid hdisp hres hclosing hlog => rcases hlog with rfl | rfl <;> simp at hm
      | resetAgain j _ h hlog => rcases hlog with rfl | rfl <;> simp at hm
      | _ => simp at hm

/-- A stream that has left the map does not come back. -/
theorem gone_step (hv : v.WF l) (hs : SendStep l v evs v') (hid : v.ids.Opened id) (hn : id ∉ v.streams) :
    id ∉ v'.streams := by
  have hcreate : ∀ ids j, ¬ v.ids.Opened j → id ∉ (v.create ids j).streams := by
    intro ids j hj hm
    rcases List.mem_append.mp hm with hm | hm
    · exact hn hm
    · rw [List.mem_singleton.mp hm] at hid
      exact hj hid
  cases hs with
  | openLocal => exact hcreate v.ids.takeLocal _ (Ids.not_opened_nextLocal hv.ids)
  | openRemote => exact hcreate v.ids.takeRemote _ (Ids.not_opened_nextRemote hv.ids)
  | shutdown => exact List.not_mem_nil
  | retire j => exact fun hm => hn (List.mem_filter.mp hm).1
  | _ => exact hn

theorem stopped_step (hv : v.WF l) (hs : SendStep l v evs v') {streamId : VarInt}
    (hm : .stopSending streamId ∈ accepted evs) :
    .resetOk streamId.intoInner ∈ evs ∨ v'.ids.Opened streamId.intoInner ∧ streamId.intoInner ∉ v'.streams := by
  have hquiet : ∀ {x : Prop}, (∀ e ∈ evs, e.Quiet) → x := by
    intro x hq
    obtain ⟨e, he, heq⟩ := List.mem_filterMap.mp hm
    cases e with
    | accepted f =>
      cases heq
      exact (hq _ he).elim
    | _ => cases heq
  have hreset : ∀ j, v.ids.Opened j → ResetLog j evs → .resetOk streamId.intoInner ∈ evs := by
    rintro j hj (rfl | rfl)
    · simp [accepted, Event.acceptedFrame] at hm
    · obtain rfl : streamId = .expect j := by simpa [accepted, Event.acceptedFrame] using hm
      rw [VarInt.expect_intoInner _ (hj.le hv.ids)]
      simp
  cases hs with
  | quiet _ hq => exact hquiet hq
  | halt _ hq => exact hquiet hq
  | shutdown _ hq => exact hquiet hq
  | openRemote _ hid hlog => rcases hlog with rfl | ⟨error, rfl⟩ <;> simp [accepted, Event.acceptedFrame] at hm
  | reset j errorCode _ hid hdisp hres hclosing hlog => exact .inl (hreset j hid hlog)
  | resetAgain j _ h hlog =>
    refine .inl (hreset j ?_ hlog)
    by_contra hj
    rw [hv.fresh j hj] at h
    simp at h
  | stopRetired j hid hs =>
    obtain rfl : streamId = .expect j := by simpa [accepted, Event.acceptedFrame] using hm
    rw [VarInt.expect_intoInner _ (hid.le hv.ids)]
    exact .inr ⟨hid, hs⟩
  | _ => simp [accepted, Event.acceptedFrame] at hm

/-- STOP_SENDING resets its stream, unless the stream has left the map. -/
theorem reach_stopped (h : (machine l isClient).Reach v log) {streamId : VarInt}
    (hm : .stopSending streamId ∈ accepted log) :
    (v.direction streamId.intoInner).marked = true ∨ streamId.intoInner ∉ v.streams := by
  have hinv := h.invariant (fun v log => .stopSending streamId ∈ accepted log →
    .resetOk streamId.intoInner ∈ log ∨
    v.ids.Opened streamId.intoInner ∧ streamId.intoInner ∉ v.streams) ?_ ?_ hm
  · exact hinv.imp (reach_marked h) And.right
  · intro v _ hm
    cases hm
  · intro v log evs v' hr ih hs hm
    rw [accepted_append] at hm
    rcases List.mem_append.mp hm with hm | hm
    · rcases ih hm with hok | ⟨hid, hn⟩
      · exact .inl (List.mem_append_left _ hok)
      · exact .inr ⟨(ids_step (reach_wf hr) hs).2 _ hid, gone_step (reach_wf hr) hs hid hn⟩
    · exact (stopped_step (reach_wf hr) hs hm).imp_left (List.mem_append_right _)

/-- What the emitted frames say about streams. -/
structure Named (v : Sender) (log : List Event) : Prop where
  opened : ∀ f ∈ emitted log, ∀ id : VarInt, f.names id = true → v.ids.Opened id.intoInner
  opens : ∀ id : VarInt, .openStream id ∈ emitted log →
    id.intoInner % 2 = v.ids.parity ∧ v.ids.Opened id.intoInner
  first : OpensFirst v.ids.parity ((emitted log).filter fun f => !f.isData)

theorem Emits.open_local (hv : v.WF l) {f : Frame} (h : v.Emits f) (id : VarInt) (hf : f = .openStream id) :
    id.intoInner % 2 = v.ids.parity ∧ v.ids.Opened id.intoInner := by
  subst hf
  cases h with
  | control _ control hcut hc => exact hv.control _ (hc ▸ List.mem_cons_self)
  | grant _ hcut hc hf => exact hf.elim

theorem named_step (hv : v.WF l) (ho : v.Ordered log) (h : v.Named log) (hs : SendStep l v evs v') :
    v'.Named (log ++ evs) := by
  obtain ⟨hpar, hmono⟩ := ids_step hv hs
  rcases emits_step hv hs with he | ⟨f, he, hem⟩
  · refine ⟨?_, ?_, ?_⟩
    · intro f hf id hn
      rw [emitted_append, he, List.append_nil] at hf
      exact hmono _ (h.opened f hf id hn)
    · intro id hid
      rw [emitted_append, he, List.append_nil] at hid
      exact ⟨hpar ▸ (h.opens id hid).1, hmono _ (h.opens id hid).2⟩
    · rw [emitted_append, he, List.append_nil, hpar]
      exact h.first
  · refine ⟨?_, ?_, ?_⟩
    · intro g hg id hn
      rw [emitted_append, he] at hg
      rcases List.mem_append.mp hg with hg | hg
      · exact hmono _ (h.opened g hg id hn)
      · rw [List.mem_singleton.mp hg] at hn
        exact hmono _ (hem.opened hv id hn)
    · intro id hid
      rw [emitted_append, he] at hid
      rcases List.mem_append.mp hid with hid | hid
      · exact ⟨hpar ▸ (h.opens id hid).1, hmono _ (h.opens id hid).2⟩
      · obtain ⟨hlocal, hop⟩ := hem.open_local hv id (List.mem_singleton.mp hid).symm
        exact ⟨hpar ▸ hlocal, hmono _ hop⟩
    · rw [emitted_append, he, hpar, List.filter_append]
      cases hd : f.isData with
      | true => simpa [hd] using h.first
      | false =>
        simp only [List.filter_singleton, hd]
        refine h.first.snoc f fun id hid hn => List.mem_filter.mpr ⟨?_, rfl⟩
        exact hem.after_open hv ho id hid hn fun ht => by rw [hd] at ht; cases ht

theorem reach_named (h : (machine l isClient).Reach v log) : v.Named log := by
  refine h.invariant Named ?_ fun v log evs v' hr hn hs => named_step (reach_wf hr) (reach_ordered hr) hn hs
  intro v _
  refine ⟨?_, ?_, ?_⟩
  · intro f hf
    cases hf
  · intro id hid
    cases hid
  · intro before f after he
    simp [emitted] at he

theorem accepted_open_step (hv : v.WF l) (hs : SendStep l v evs v') {streamId : VarInt}
    (hm : .openStream streamId ∈ accepted evs) : v'.ids.Opened streamId.intoInner := by
  have hquiet : (∀ x ∈ evs, x.Quiet) → v'.ids.Opened streamId.intoInner := by
    intro hq
    have hids := quiet_accepted evs hq
    rw [openIds, List.filterMap_eq_nil_iff] at hids
    cases hids _ hm
  cases hs with
  | openRemote _ hid hlog =>
    rcases hlog with rfl | ⟨error, rfl⟩
    · obtain rfl : streamId = .expect v.ids.nextRemote := by simpa [accepted, Event.acceptedFrame] using hm
      rw [VarInt.expect_intoInner _ hid]
      exact (Ids.opened_takeRemote hv.ids _).mpr (.inr rfl)
    · cases hm
  | quiet _ hq => exact hquiet hq
  | halt _ hq => exact hquiet hq
  | shutdown _ hq => exact hquiet hq
  | reset _ _ _ _ _ _ _ hlog => rcases hlog with rfl | rfl <;> simp [accepted, Event.acceptedFrame] at hm
  | resetAgain _ _ _ hlog => rcases hlog with rfl | rfl <;> simp [accepted, Event.acceptedFrame] at hm
  | _ => simp [accepted, Event.acceptedFrame] at hm

/-- An accepted OPEN_STREAM has opened its stream. -/
theorem reach_accepted_open (h : (machine l isClient).Reach v log) {streamId : VarInt}
    (hm : .openStream streamId ∈ accepted log) : v.ids.Opened streamId.intoInner := by
  refine h.invariant (fun v log => .openStream streamId ∈ accepted log → v.ids.Opened streamId.intoInner) ?_ ?_ hm
  · intro v _ hm
    cases hm
  · intro v log evs v' hr ih hs hm
    have hv := reach_wf hr
    rw [accepted_append] at hm
    rcases List.mem_append.mp hm with hm | hm
    · exact (ids_step hv hs).2 _ (ih hm)
    · exact accepted_open_step hv hs hm

end Sender
end Muxtls
