import Muxtls.Ledger.Tasks
import Muxtls.Receiver.Budget

namespace Muxtls
namespace Ledger

variable {l : Limits} {isClient : Bool} {v v' : Ledger} {log evs : List Event} {id : Nat}

/-- The `RecvStream` of the stream was dropped. -/
def Dropped (v : Ledger) (id : Nat) : Prop := (v.life id).recvDropped = true ∨ v.discarded id = true

/-- The stream is discarded, or the worker will find that its `RecvStream` was dropped. -/
def Swept (v : Ledger) (id : Nat) : Prop :=
  v.discarded id = true ∨ (v.life id).recvDropped = true ∧ .cleanRecv id ∈ v.todo .cleanup

theorem Dropped.opened (hk : v.Known) (h : v.Dropped id) : v.ids.Opened id := by
  by_contra hn
  rcases h with h | h
  · rw [hk.life id hn] at h
    cases h
  · rw [(hk.marks id hn).2] at h
    cases h

theorem Swept.dropped (h : v.Swept id) : v.Dropped id := by
  rcases h with h | ⟨h, -⟩
  · exact .inr h
  · exact .inl h

/-- A step that keeps the marks of the stream and the worker's looks at it. -/
theorem Swept.keep (h : v.Swept id) (hd : v'.discarded id = v.discarded id)
    (hl : (v.life id).recvDropped = true → (v'.life id).recvDropped = true)
    (ht : .cleanRecv id ∈ v.todo .cleanup → .cleanRecv id ∈ v'.todo .cleanup) : v'.Swept id := by
  rcases h with h | ⟨h, hm⟩
  · exact .inl (hd ▸ h)
  · exact .inr ⟨hl h, ht hm⟩

theorem recvDropped_setLife (j : Nat) (life : StreamLife)
    (hl : (v.life j).recvDropped = true → life.recvDropped = true) (h : (v.life id).recvDropped = true) :
    ((v.setLife j life).life id).recvDropped = true := by
  by_cases hj : id = j
  · subst hj
    simpa [setLife] using hl h
  · simpa [setLife, Function.update_of_ne hj] using h

theorem Swept.create (hk : v.Known) (h : v.Swept id) (ids : Ids) {j : Nat} (life : StreamLife)
    (hn : ¬ v.ids.Opened j) : (v.create ids j life).Swept id := by
  have hj : id ≠ j := fun he => hn (he ▸ h.dropped.opened hk)
  refine h.keep ?_ ?_ fun hm => hm
  · simp [Ledger.create, Function.update_of_ne hj]
  · intro hd
    simpa [Ledger.create, Function.update_of_ne hj] using hd

/-- A discarded stream stays discarded. -/
theorem discarded_op (h : v.discarded id = true) {op : TaskOp} {more : List TaskOp} (hop : OpStep v op evs v' more) :
    v'.discarded id = true := by
  cases hop with
  | cleanRecv j hd =>
    by_cases hj : id = j
    · subst hj
      exact Function.update_self ..
    · simpa [Function.update_of_ne hj] using h
  | _ => exact h

theorem discarded_step (hk : v.Known) (h : v.discarded id = true) (hs : LedgerStep v evs v') :
    v'.discarded id = true := by
  have hcreate : ∀ j, ¬ v.ids.Opened j → Function.update v.discarded j false id = true := by
    intro j hn
    have hd : v.Dropped id := .inr h
    have hj : id ≠ j := fun he => hn (he ▸ hd.opened hk)
    rw [Function.update_of_ne hj]
    exact h
  cases hs with
  | openLocal ho hid => exact hcreate _ (Ids.not_opened_nextLocal hk.ids)
  | openRemote n incoming hp hid hin => exact hcreate _ (Ids.not_opened_nextRemote hk.ids)
  | work v₁ task op ops more _ ht hop =>
    have hd := discarded_op h hop
    exact hd
  | _ => exact h

/-- The worker's look at a dropped `RecvStream` discards its stream. -/
theorem recvDropped_op (h : (v.life id).recvDropped = true) {op : TaskOp} {more : List TaskOp}
    (hop : OpStep v op evs v' more) :
    v'.discarded id = true ∨ (v'.life id).recvDropped = true ∧ op ≠ .cleanRecv id := by
  cases hop with
  | skip _ _ hskip =>
    refine .inr ⟨h, ?_⟩
    rintro rfl
    rw [show (v.life id).recvDropped = false from hskip] at h
    cases h
  | cleanRecv j hd =>
    by_cases hj : id = j
    · subst hj
      exact .inl (Function.update_self ..)
    · right
      refine ⟨?_, by simpa using Ne.symm hj⟩
      simpa [setLife, Function.update_of_ne hj] using h
  | complete j hs => exact .inr ⟨recvDropped_setLife j _ (fun hd => hd) h, by simp⟩
  | retire j hs hc ht => exact .inr ⟨recvDropped_setLife j _ (fun hd => hd) h, by simp⟩
  | cleanSend j _ hd => exact .inr ⟨recvDropped_setLife j _ (fun hd => hd) h, by simp⟩
  | _ => exact .inr ⟨h, by simp⟩

theorem swept_step (hk : v.Known) (h : v.Swept id) (hs : LedgerStep v evs v') : v'.Swept id := by
  cases hs with
  | openLocal ho hid => exact h.create hk v.ids.takeLocal _ (Ids.not_opened_nextLocal hk.ids)
  | openRemote n incoming hp hid hin => exact h.create hk v.ids.takeRemote _ (Ids.not_opened_nextRemote hk.ids)
  | accept j incoming hin => exact h.keep rfl (recvDropped_setLife j _ fun hd => hd) fun hm => hm
  | dropSend j hh => exact h.keep rfl (recvDropped_setLife j _ fun hd => hd) fun hm => hm
  | dropRecv j hh => exact h.keep rfl (recvDropped_setLife j _ fun hd => by simp [hd]) fun hm => hm
  | cleanup order ht =>
    refine h.keep rfl (fun hd => hd) ?_
    rw [ht]
    simp
  | work v₁ task op ops more _ ht hop =>
    rcases h with h | ⟨h, hm⟩
    · have hd := discarded_op h hop
      exact .inl hd
    rcases recvDropped_op h hop with hd | ⟨hd, hne⟩
    · exact .inl hd
    refine .inr ⟨hd, ?_⟩
    by_cases hc : task = .cleanup
    · subst hc
      rw [ht] at hm
      have hops : .cleanRecv id ∈ ops := (List.mem_cons.mp hm).resolve_left (Ne.symm hne)
      simp [Ledger.setTodo, hops]
    · simpa [Ledger.setTodo, Function.update_of_ne (Ne.symm hc), (opFrame hop).todo] using hm
  | _ => exact h.keep rfl (fun hd => hd) fun hm => hm

theorem dropped_step (hk : v.Known) (h : v.Dropped id) (hs : LedgerStep v evs v') : v'.Dropped id := by
  have hkeep : ∀ v' : Ledger, v'.discarded id = v.discarded id →
      ((v.life id).recvDropped = true → (v'.life id).recvDropped = true) → v'.Dropped id := by
    intro v' hd hl
    rcases h with h | h
    · exact .inl (hl h)
    · exact .inr (hd ▸ h)
  have hcreate : ∀ (v' : Ledger) j ids life, ¬ v.ids.Opened j → v'.discarded = (v.create ids j life).discarded →
      v'.life = (v.create ids j life).life → v'.Dropped id := by
    intro v' j ids life hn hd hl
    have hj : id ≠ j := fun he => hn (he ▸ h.opened hk)
    apply hkeep
    · rw [hd]
      exact Function.update_of_ne hj ..
    · rw [hl]
      intro hx
      simpa [Ledger.create, Function.update_of_ne hj] using hx
  cases hs with
  | openLocal ho hid => exact hcreate _ _ v.ids.takeLocal _ (Ids.not_opened_nextLocal hk.ids) rfl rfl
  | openRemote n incoming hp hid hin =>
    exact hcreate _ _ v.ids.takeRemote _ (Ids.not_opened_nextRemote hk.ids) rfl rfl
  | accept j incoming hin => exact hkeep _ rfl (recvDropped_setLife j _ fun hd => hd)
  | dropSend j hh => exact hkeep _ rfl (recvDropped_setLife j _ fun hd => hd)
  | dropRecv j hh => exact hkeep _ rfl (recvDropped_setLife j _ fun hd => by simp [hd])
  | work v₁ task op ops more _ ht hop =>
    rcases h with h | h
    · rcases recvDropped_op h hop with hd | ⟨hd, -⟩
      · exact .inr hd
      · exact .inl hd
    · have hd := discarded_op h hop
      exact .inr hd
  | _ => exact hkeep _ rfl fun hd => hd

end Ledger

namespace RecvSide

variable {s s' : RecvSide} {w : List InEvent}

/-- What a direction gives up: its remainder with the handle, and its queue when it is discarded. -/
structure Emptied (s : RecvSide) : Prop where
  remainder : s.holder = .gone → s.dir.handle.readBuf = none
  queue : s.dir.discarded = true → s.dir.inbound.chunks = []

theorem emptied_step {evs : List InEvent} (hi : s.Inv w) (h : s.Emptied) (hs : SideStep s evs s') : s'.Emptied := by
  have hi' := step_inv hi hs
  have hread : ∀ d' mode, s.holder = .held → Inv { s with dir := d', mode := mode } (w ++ evs) →
      Emptied { s with dir := d', mode := mode } := by
    intro d' mode hh hi'
    have hne : s.holder ≠ .gone := by simp [hh]
    exact ⟨fun hg => absurd hg hne, fun hd => absurd (hi'.gone hd) hne⟩
  cases hs with
  | skip => exact h
  | closed closed => exact { h with }
  | hold hw =>
    refine ⟨fun hg => ?_, h.queue⟩
    cases hg
  | drop hh => exact ⟨fun _ => rfl, h.queue⟩
  | discard hg => exact ⟨h.remainder, fun _ => rfl⟩
  | free hg => exact ⟨h.remainder, fun _ => rfl⟩
  | readWhole r d' hh hm hhandle hr => exact hread d' 1 hh hi'
  | pollRead r d' hh hr => exact hread d' 2 hh hi'
  | stream streamId fin payload chunks ht hc =>
    refine ⟨h.remainder, fun hd => ?_⟩
    rcases hc with ⟨-, rfl⟩ | ⟨hn, -⟩
    · exact h.queue hd
    · rw [show s.dir.discarded = true from hd] at hn
      cases hn
  | reset streamId errorCode ht => exact ⟨h.remainder, fun _ => rfl⟩

end RecvSide

namespace Receiver

variable {l : Limits} {isClient : Bool} {v v' : Receiver} {log evs : List Event} {id : Nat}

/-- A stream that was dropped and has left the map with nothing unread. -/
structure Settled (v : Receiver) (id : Nat) : Prop where
  gone : v.holder id = .gone
  out : id ∉ v.streams
  empty : (v.inbox.dir id).content = []

/-- The direction without its queue holds no more than before. -/
theorem content_clear {d : RecvDir} (h : d.content = []) (discarded : Bool) :
    RecvDir.content { d with inbound := { d.inbound with chunks := [] }, discarded := discarded } = [] := by
  simp only [RecvDir.content, List.append_eq_nil_iff] at h ⊢
  exact ⟨h.1, rfl⟩

/-- A change of another direction. -/
theorem Settled.other (h : v.Settled id) {j : Nat} {b : Inbox} {d : RecvDir} (hj : id ≠ j)
    (hb : b.dir = Function.update v.inbox.dir j d) : Settled { v with inbox := b } id := by
  refine ⟨h.gone, h.out, ?_⟩
  rw [hb, Function.update_of_ne hj]
  exact h.empty

theorem Settled.create (hv : v.WF l) (h : v.Settled id) (ids : Ids) {j : Nat} (holder : Holder)
    (hn : ¬ v.ids.Opened j) : (v.create ids j holder).Settled id := by
  have hj : id ≠ j := by
    rintro rfl
    exact hn (hv.opened_of_holder id (by simp [h.gone]))
  refine ⟨?_, ?_, ?_⟩
  · simpa [Receiver.create, Function.update_of_ne hj] using h.gone
  · simpa [Receiver.create, hj] using h.out
  · simpa [Receiver.create, v.inbox.create_dir, Function.update_of_ne hj] using h.empty

theorem settled_step (hv : v.WF l) (h : v.Settled id) (hs : RecvStep v evs v') : v'.Settled id := by
  have hheld : ∀ j, v.holder j ≠ .gone → id ≠ j := by
    rintro j hn rfl
    exact hn h.gone
  have hin : ∀ j ∈ v.streams, id ≠ j := by
    rintro j hj rfl
    exact h.out hj
  cases hs with
  | quiet => exact { h with }
  | reject => exact { h with }
  | shut =>
    obtain ⟨closed, hc⟩ := v.inbox.shut_dir v.streams id
    refine ⟨h.gone, by simp, ?_⟩
    rw [hc]
    exact h.empty
  | openLocal hid => exact h.create hv v.ids.takeLocal .held (Ids.not_opened_nextLocal hv.ids)
  | openRemote _ done hid =>
    have hc := h.create hv v.ids.takeRemote .waiting (Ids.not_opened_nextRemote hv.ids)
    exact { hc with }
  | accept j hw hid =>
    have hj := hheld j (by simp [hw])
    exact { h with gone := (Function.update_of_ne hj ..).trans h.gone }
  | drop j hh =>
    have hj := hheld j (by simp [hh])
    have ho := h.other hj (v.inbox.dropRemainder_dir j)
    exact { ho with gone := (Function.update_of_ne hj ..).trans h.gone }
  | discard j hh =>
    by_cases hj : id = j
    · subst hj
      refine ⟨h.gone, h.out, ?_⟩
      rw [v.inbox.discardInbound_dir id, Function.update_self]
      exact content_clear h.empty true
    · exact h.other hj (v.inbox.discardInbound_dir j)
  | free j hh =>
    by_cases hj : id = j
    · subst hj
      refine ⟨h.gone, h.out, ?_⟩
      rw [v.inbox.clearChunks_dir id, Function.update_self]
      exact content_clear h.empty _
    · exact h.other hj (v.inbox.clearChunks_dir j)
  | readWhole j hh hm =>
    obtain ⟨d, hd, -⟩ := v.inbox.readWhole_reads j
    have ho := h.other (hheld j (by simp [hh])) hd
    exact { ho with }
  | pollRead j room hh =>
    obtain ⟨d, hd, -⟩ := v.inbox.pollRead_reads j room
    have ho := h.other (hheld j (by simp [hh])) hd
    exact { ho with }
  | stream streamId fin payload inbox hd hm ht hacc =>
    obtain ⟨chunks, hdir, -⟩ := v.inbox.acceptData_dir _ _ _ _ _ hacc
    exact h.other (hin _ hm) hdir
  | refuse j fin payload inbox error hm hacc =>
    have hdir := v.inbox.acceptData_error_dir _ _ _ _ _ _ hacc
    refine ⟨h.gone, h.out, ?_⟩
    rw [hdir]
    exact h.empty
  | reset streamId errorCode hd hm ht =>
    have hdir := (v.inbox.markReset streamId.intoInner errorCode.intoInner).markRecvTerminal_dir streamId.intoInner
    rw [v.inbox.markReset_dir, Function.update_idem] at hdir
    exact h.other (hin _ hm) hdir
  | grantConn => exact { h with }
  | grantStream j maximum hm ht hd hu =>
    refine ⟨h.gone, h.out, ?_⟩
    rw [v.inbox.grantStream_dir j]
    exact h.empty
  | retire j ht =>
    refine ⟨h.gone, ?_, h.empty⟩
    intro hm
    exact h.out (List.mem_filter.mp hm).1

end Receiver

namespace Endpoint

variable {l : Limits} {isClient : Bool} {e e' : Endpoint} {log evs : List Event} {id : Nat}

theorem held_of_discarded (h : (machine l isClient).Reach e log)
    (hd : (e.shared.inbox.recv id).recvDiscarded = true) : e.shared.inbox.held id = 0 := by
  have hside := Receiver.reach_side (reach_receiver h) id
  have hem : (e.receiver.side id).Emptied := by
    refine hside.invariant (fun s _ => s.Emptied) ?_ ?_
    · rintro s (rfl : s = _)
      exact ⟨fun _ => rfl, fun _ => rfl⟩
    · intro s w evs s' hs hem hstep
      exact RecvSide.emptied_step (RecvSide.reach_inv hs) hem hstep
  have hqueue : (e.shared.inbox.dir id).inbound.chunks = [] := hem.queue hd
  have hbuf : (e.shared.inbox.dir id).handle.readBuf = none := hem.remainder ((RecvSide.reach_inv hside).gone hd)
  rw [Inbox.held_eq, RecvDir.chunks, hqueue, hbuf]
  rfl

/-- What the ledger keeps along every step, it keeps along the runs of an endpoint. -/
theorem steps_ledger (P : Ledger → Prop) (hstep : ∀ v evs v', v.Known → LedgerStep v evs v' → P v → P v')
    (hr : (machine l isClient).Reach e log) (h : (machine l isClient).Steps e evs e') (hp : P e.ledger) :
    P e'.ledger := by
  refine h.invariant (fun _ _ _ hs => hs) hr (fun e _ => P e.ledger) hp ?_
  rintro e₁ tr evs e₂ hr₁ hp ⟨a, ha⟩
  have hsteps : (Ledger.machine l isClient).Steps e₁.ledger evs e₂.ledger := e₁.ledger_step a e₂ evs ha
  have hk := Ledger.reach_known (reach_ledger hr₁)
  exact (hsteps.keeps (fun v => v.Known ∧ P v)
    (fun v evs v' hs hv => ⟨hv.1.step hs, hstep v evs v' hv.1 hs hv.2⟩) ⟨hk, hp⟩).2

theorem steps_settled (hr : (machine l isClient).Reach e log) (h : (machine l isClient).Steps e evs e')
    (hp : e.receiver.Settled id) : e'.receiver.Settled id := by
  refine h.invariant (fun _ _ _ hs => hs) hr (fun e _ => e.receiver.Settled id) hp ?_
  rintro e₁ tr evs e₂ hr₁ hp ⟨a, ha⟩
  have hl := reach_ledger hr₁
  have hsteps : (Receiver.machine l isClient).Steps e₁.receiver evs e₂.receiver :=
    receiver_steps (Sender.reach_wf (reach_sender hr₁)) (Ledger.reach_known hl) (Ledger.reach_shares hl) a ha
  exact (hsteps.keeps (fun v => v.WF l ∧ v.Settled id)
    (fun v evs v' hs hv => ⟨hv.1.step hs, Receiver.settled_step hv.1 hv.2 hs⟩)
    ⟨Receiver.reach_wf (reach_receiver hr₁), hp⟩).2

/-- A run in which the `RecvStream` of a stream is dropped, and the cleanup worker then takes a snapshot
and has worked through it. -/
structure Cleaned (l : Limits) (isClient : Bool) (id : Nat) (held snapshot last : Endpoint) : Prop where
  drop : ∃ e evs evs', held.step (.dropRecv id) = some (e, evs) ∧ (machine l isClient).Steps e evs' snapshot
  sweep : ∃ order e evs e' evs' evs'', snapshot.step (.cleanup order) = some (e, evs) ∧
    (machine l isClient).Steps e evs' e' ∧ e'.todo .cleanup = [] ∧ (machine l isClient).Steps e' evs'' last

/-- A dropped `RecvStream` leaves its mark. -/
theorem dropped_of_drop (hr : (machine l isClient).Reach e log) (h : e.step (.dropRecv id) = some (e', evs)) :
    e'.ledger.Dropped id := by
  cases step_cases h with
  | dropRecv _ hh =>
    have hone := (holder_held (Ledger.reach_shares (reach_ledger hr) id) hh).1
    rw [free_ledger]
    left
    simp [ledger, Shared.holdings, Core.holdings, Shared.core, Shared.setLife, StreamLife.handles, hone]

theorem gone_of_dropped (h : e.ledger.Dropped id) : e.receiver.holder id = .gone := by
  refine if_pos ?_
  rw [Bool.or_eq_true]
  exact h

theorem not_mem_of_unowned (h : e.unowned id = true) : id ∉ e.shared.streams := by
  simp only [unowned, Bool.and_eq_true, decide_eq_true_eq] at h
  exact h.1.2

/-- A dropped stream that is out of the map has nothing unread: it had nothing, or its last owner took it
along. -/
theorem settled_of_drop (hr : (machine l isClient).Reach e log) (h : e.step (.dropRecv id) = some (e', evs))
    (hout : id ∉ e.shared.streams) (hc : e.unowned id = true ∨ e.shared.inbox.held id = 0) :
    e'.receiver.Settled id := by
  have hgone := gone_of_dropped (dropped_of_drop hr h)
  cases step_cases h with
  | dropRecv _ hh =>
    have hone := (holder_held (Ledger.reach_shares (reach_ledger hr) id) hh).1
    let e₁ : Endpoint := { e with
      shared := ({ e.shared with inbox := e.shared.inbox.dropRemainder id } : Shared).setLife id
        { e.shared.life id with
          recvHandles := (e.shared.life id).recvHandles - 1
          recvDropped := (e.shared.life id).recvDropped || (e.shared.life id).recvHandles == 1 } }
    have hdir : (e₁.shared.inbox.dir id).handle.readBuf = none ∧
        (e₁.shared.inbox.dir id).inbound.chunks = (e.shared.inbox.dir id).inbound.chunks := by
      change ((e.shared.inbox.dropRemainder id).dir id).handle.readBuf = none ∧
        ((e.shared.inbox.dropRemainder id).dir id).inbound.chunks = _
      rw [e.shared.inbox.dropRemainder_dir id, Function.update_self]
      exact ⟨rfl, rfl⟩
    refine ⟨hgone, hout, ?_⟩
    change ((e₁.remains id).dir id).content = []
    unfold remains
    split_ifs with ho
    · rw [e₁.shared.inbox.clearChunks_dir id, Function.update_self]
      simp [RecvDir.content, hdir.1]
    · rcases hc with hu | hempty
      · refine absurd ?_ ho
        have hsend : (e₁.shared.life id).sendHandles = (e.shared.life id).sendHandles := by
          simp [e₁, Shared.setLife]
        have hdropped : (e₁.shared.life id).recvDropped = true := by simp [e₁, Shared.setLife, hone]
        unfold orphaned unowned
        rw [hdropped, hsend, Bool.true_or, Bool.true_and]
        exact hu
      · have hnone : (e.shared.inbox.dir id).content = [] := List.eq_nil_of_length_eq_zero hempty
        simp only [RecvDir.content, List.append_eq_nil_iff] at hnone
        rw [RecvDir.content, hdir.1, hdir.2]
        exact hnone.2

theorem swept_of_cleanup {order : List Nat} (h : e.step (.cleanup order) = some (e', evs))
    (hd : e.ledger.Dropped id) (hin : id ∈ e.shared.streams) : e'.ledger.Swept id := by
  cases step_cases h with
  | cleanup _ ht hi hperm =>
    rcases hd with hd | hd
    · refine .inr ⟨hd, ?_⟩
      have hmem : .cleanRecv id ∈ order.flatMap fun id => [TaskOp.cleanSend id, .cleanRecv id] :=
        List.mem_flatMap.mpr ⟨id, hperm.mem_iff.mpr hin, by simp⟩
      change _ ∈ Function.update e.todo .cleanup _ .cleanup
      rw [Function.update_self]
      exact hmem
    · exact .inl hd

/-- After the `RecvStream` was dropped and the cleanup worker has run, no byte of the stream is charged
to the connection, provided that the worker's snapshot has the stream, or that, when it was dropped, nothing
but the `RecvStream` owned its state, or it was out of the map with nothing unread. -/
theorem dropped_receiver_uncharged (l : Limits) (isClient : Bool)
    (id : Nat) (e₀ e₁ e₂ : Endpoint) (log : List Event)
    (h : (machine l isClient).Reach e₀ log) (hrun : Cleaned l isClient id e₀ e₁ e₂)
    (hcond : id ∈ e₁.shared.streams ∨ e₀.unowned id = true ∨
      id ∉ e₀.shared.streams ∧ e₀.shared.inbox.held id = 0) :
    e₂.shared.inbox.held id = 0 ∧
      ∀ log₂, (machine l isClient).Reach e₂ log₂ → (∀ error, .rejected error ∉ log₂) →
        let b := e₂.shared.inbox
        let others := ∑ j ∈ (Finset.range e₂.shared.ids.bound).erase id, b.held j
        b.receiveWindow.consumed + others = b.receiveWindow.received ∧
          b.inboundConnBytes.permits + others = l.maxInboundConnectionBytes := by
  obtain ⟨d, evs, evs₁, hdrop, hwait⟩ := hrun.drop
  obtain ⟨order, c, cevs, c', evs₂, evs₃, hclean, hwork, hdone, hlater⟩ := hrun.sweep
  have hrd := h.step ⟨_, hdrop⟩
  have hr₁ := hrd.steps hwait
  have hrc := hr₁.step ⟨_, hclean⟩
  have hrc' := hrc.steps hwork
  have hr₂ := hrc'.steps hlater
  have hdropped := steps_ledger (·.Dropped id) (fun v evs v' hk hs hd => Ledger.dropped_step hk hd hs) hrd hwait
    (dropped_of_drop h hdrop)
  have hheld : e₂.shared.inbox.held id = 0 := by
    by_cases hin : id ∈ e₁.shared.streams
    · -- the worker has the stream in its snapshot and discards it
      have hswept := steps_ledger (·.Swept id) (fun v evs v' hk hs hd => Ledger.swept_step hk hd hs) hrc hwork
        (swept_of_cleanup hclean hdropped hin)
      have hdisc : c'.ledger.discarded id = true := by
        rcases hswept with hd | ⟨-, hm⟩
        · exact hd
        · rw [show c'.ledger.todo .cleanup = [] from hdone] at hm
          cases hm
      have hlast := steps_ledger (·.discarded id = true) (fun v evs v' hk hs hd => Ledger.discarded_step hk hd hs)
        hrc' hlater hdisc
      exact held_of_discarded hr₂ hlast
    · -- nothing of the stream is unread, and nothing more can arrive
      have hset : d.receiver.Settled id := by
        rcases hcond with hc | hc | ⟨hout, hc⟩
        · exact absurd hc hin
        · exact settled_of_drop h hdrop (not_mem_of_unowned hc) (.inl hc)
        · exact settled_of_drop h hdrop hout (.inr hc)
      have hc := steps_settled hr₁ (.single ⟨_, hclean⟩) (steps_settled hrd hwait hset)
      have hc' := steps_settled hrc hwork hc
      exact List.length_eq_zero_iff.mpr (steps_settled hrc' hlater hc').empty
  refine ⟨hheld, fun log₂ hreach hrej => ?_⟩
  have hx : e₂.shared.inbox.Exact l e₂.shared.ids :=
    Receiver.reach_exact (reach_valid hreach) (reach_receiver hreach) hrej
  have hsum : ∑ j ∈ (Finset.range e₂.shared.ids.bound).erase id, e₂.shared.inbox.held j =
      ∑ j ∈ Finset.range e₂.shared.ids.bound, e₂.shared.inbox.held j := Finset.sum_erase _ hheld
  intro b others
  simp only [others, b, hsum]
  exact ⟨hx.owes.conn_held, hx.owes.conn_permits⟩

/-- Three bytes are unread when the `RecvStream` is dropped; the stream is in the map, and the worker takes
four steps with it. -/
theorem dropped_receiver_uncharged_open :
    ∃ e₀ e₁ e₂ log, (machine smallLimits true).Reach e₀ log ∧ Cleaned smallLimits true 0 e₀ e₁ e₂ ∧
      e₁.shared.inbox.held 0 = 3 ∧ e₂.shared.inbox.held 0 = 0 := by
  have hrun : ((Machine.runList step { shared := .new smallLimits true }
      [.receive (settingsFrame smallLimits).wire, .openStart, .openFinish,
        .receive (Frame.stream (.expect 0) false [1, 2, 3]).wire]).bind fun r =>
      (r.1.step (.dropRecv 0)).bind fun r₁ =>
      (r₁.1.step (.cleanup [0])).bind fun r₂ =>
      (Machine.runList step r₂.1 (List.replicate 4 (.work .cleanup))).map fun r₃ =>
        (decide (0 ∈ r₁.1.shared.streams), r₁.1.shared.inbox.held 0, r₃.1.todo .cleanup)) =
      some (true, 3, []) := by decide
  obtain ⟨⟨e₀, log⟩, hpre, hrun⟩ := Option.bind_eq_some_iff.mp hrun
  obtain ⟨⟨e₁, evs₁⟩, hdrop, hrun⟩ := Option.bind_eq_some_iff.mp hrun
  obtain ⟨⟨c, evs₂⟩, hclean, hrun⟩ := Option.bind_eq_some_iff.mp hrun
  obtain ⟨⟨e₂, evs₃⟩, hwork, heq⟩ := Option.map_eq_some_iff.mp hrun
  simp only [Prod.mk.injEq, decide_eq_true_eq] at heq
  obtain ⟨hin, hheld, hdone⟩ := heq
  have h0 : connect smallLimits true = .ok { shared := .new smallLimits true } := rfl
  have hr : (machine smallLimits true).Reach e₀ log := .of_run _ h0 _ hpre
  have hc : Cleaned smallLimits true 0 e₀ e₁ e₂ :=
    ⟨⟨e₁, evs₁, [], hdrop, .refl _⟩,
      ⟨[0], c, evs₂, e₂, evs₃, [], hclean, Machine.runList_steps _ _ _ hwork, hdone, .refl _⟩⟩
  exact ⟨e₀, e₁, e₂, log, hr, hc, hheld,
    (dropped_receiver_uncharged smallLimits true 0 e₀ e₁ e₂ log hr hc (.inl hin)).1⟩

/-- Both sides have ended stream 0 and it has left the map when the `RecvStream` is dropped with three
bytes unread; the `SendStream` is still held. The worker's snapshot is empty, and the bytes stay charged. -/
theorem dropped_receiver_charged :
    ∃ e₀ e₁ e₂ log, (machine smallLimits true).Reach e₀ log ∧ Cleaned smallLimits true 0 e₀ e₁ e₂ ∧
      e₂.shared.closed = false ∧ e₂.shared.inbox.held 0 = 3 ∧
      e₂.shared.inbox.receiveWindow.received = e₂.shared.inbox.receiveWindow.consumed + 3 ∧
      e₂.shared.inbox.inboundConnBytes.permits + 3 = smallLimits.maxInboundConnectionBytes := by
  have hrun : ((Machine.runList step { shared := .new smallLimits true }
      [.receive (settingsFrame smallLimits).wire, .openStart, .openFinish, .nextFrame [0], .send, .nextFrame [0], .send,
        .write 1 0 [] true, .acquire 0, .acquire 0, .acquire 0, .acquire 0, .enqueue 0, .finish 0,
        .nextFrame [0], .send, .work .writer, .work .writer,
        .receive (Frame.stream (.expect 0) true [1, 2, 3]).wire, .work .reader, .work .reader]).bind fun r =>
      (r.1.step (.dropRecv 0)).bind fun r₁ =>
      (r₁.1.step (.cleanup [])).map fun r₂ =>
        (r₂.1.todo .cleanup, r₂.1.shared.closed, r₂.1.shared.inbox.held 0,
          decide (r₂.1.shared.inbox.receiveWindow.received = r₂.1.shared.inbox.receiveWindow.consumed + 3),
          decide (r₂.1.shared.inbox.inboundConnBytes.permits + 3 = smallLimits.maxInboundConnectionBytes))) =
      some ([], false, 3, true, true) := by decide
  obtain ⟨⟨e₀, log⟩, hpre, hrun⟩ := Option.bind_eq_some_iff.mp hrun
  obtain ⟨⟨e₁, evs₁⟩, hdrop, hrun⟩ := Option.bind_eq_some_iff.mp hrun
  obtain ⟨⟨e₂, evs₂⟩, hclean, heq⟩ := Option.map_eq_some_iff.mp hrun
  simp only [Prod.mk.injEq, decide_eq_true_eq] at heq
  obtain ⟨hdone, hopen, hheld, hwindow, hpermits⟩ := heq
  have h0 : connect smallLimits true = .ok { shared := .new smallLimits true } := rfl
  have hr : (machine smallLimits true).Reach e₀ log := .of_run _ h0 _ hpre
  have hc : Cleaned smallLimits true 0 e₀ e₁ e₂ :=
    ⟨⟨e₁, evs₁, [], hdrop, .refl _⟩, ⟨[], e₂, evs₂, e₂, [], [], hclean, .refl _, hdone, .refl _⟩⟩
  exact ⟨e₀, e₁, e₂, log, hr, hc, hopen, hheld, hwindow, hpermits⟩

end Endpoint
end Muxtls
