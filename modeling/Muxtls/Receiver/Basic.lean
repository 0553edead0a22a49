import Muxtls.Receiver.Step
import Muxtls.Sender.Direction

namespace Muxtls

/-- The receive direction of a stream that nothing has happened to. -/
def RecvDir.new : RecvDir := ⟨{}, false, false, {}⟩

namespace Receiver

/-- What holds of a receiver in every state: ids are well formed, the map holds opened streams only,
a stream that is not opened is untouched, and nobody holds a discarded direction. -/
structure WF (l : Limits) (v : Receiver) : Prop where
  limits : v.limits = l
  ids : v.ids.WF
  streams : ∀ id ∈ v.streams, v.ids.Opened id
  fresh : ∀ id, ¬ v.ids.Opened id → v.inbox.dir id = .new ∧ v.holder id = .waiting ∧ v.mode id = 0
  gone : ∀ id, (v.inbox.dir id).discarded = true → v.holder id = .gone

variable {l : Limits} {isClient : Bool} {v v' : Receiver} {log evs : List Event}

theorem new_wf (l : Limits) (isClient : Bool) :
    WF l (Endpoint.receiver { shared := .new l isClient }) := by
  refine ⟨rfl, Ids.start_wf isClient, by simp [Endpoint.receiver, Core.receiver, Shared.core, Shared.new], ?_, ?_⟩
  · intro id _
    exact ⟨rfl, rfl, rfl⟩
  · intro id hd
    cases hd

theorem WF.opened_of_holder (h : v.WF l) (id : Nat) (hh : v.holder id ≠ .waiting) : v.ids.Opened id := by
  by_contra hn
  exact hh (h.fresh id hn).2.1

theorem WF.setInbox (h : v.WF l) {id : Nat} {b : Inbox} {d : RecvDir} (hid : v.ids.Opened id)
    (hb : b.dir = Function.update v.inbox.dir id d)
    (hd : d.discarded = true → v.holder id = .gone) : WF l { v with inbox := b } :=
  { h with
    fresh := by
      intro j hj
      have hne : j ≠ id := fun he => hj (he ▸ hid)
      simp only [hb, Function.update_of_ne hne]
      exact h.fresh j hj
    gone := by
      intro j hj
      by_cases hji : j = id
      · subst hji
        simp only [hb, Function.update_self] at hj
        exact hd hj
      · simp only [hb, Function.update_of_ne hji] at hj
        exact h.gone j hj }

theorem WF.sameDir (h : v.WF l) {b : Inbox} (hb : b.dir = v.inbox.dir) : WF l { v with inbox := b } :=
  { h with
    fresh := by
      intro j hj
      simp only [hb]
      exact h.fresh j hj
    gone := by
      intro j hj
      simp only [hb] at hj
      exact h.gone j hj }

theorem WF.setMode (h : v.WF l) {id : Nat} (mode : Nat) (hid : v.ids.Opened id) :
    WF l { v with mode := Function.update v.mode id mode } :=
  { h with
    fresh := by
      intro j hj
      have hne : j ≠ id := fun he => hj (he ▸ hid)
      simp only [Function.update_of_ne hne]
      exact h.fresh j hj }

theorem WF.setHolder (h : v.WF l) {id : Nat} (holder : Holder) (hid : v.ids.Opened id)
    (hg : (v.inbox.dir id).discarded = true → holder = .gone) :
    WF l { v with holder := Function.update v.holder id holder } :=
  { h with
    fresh := by
      intro j hj
      have hne : j ≠ id := fun he => hj (he ▸ hid)
      simp only [Function.update_of_ne hne]
      exact h.fresh j hj
    gone := by
      intro j hj
      by_cases hji : j = id
      · subst hji
        simp only [Function.update_self]
        exact hg hj
      · simp only [Function.update_of_ne hji]
        exact h.gone j hj }

theorem WF.create (h : v.WF l) {ids : Ids} {id : Nat} (hi : ids.WF)
    (ho : ∀ j, ids.Opened j ↔ v.ids.Opened j ∨ j = id) (holder : Holder) : (v.create ids id holder).WF l := by
  have hdir := v.inbox.create_dir v.limits id
  refine ⟨h.limits, hi, ?_, ?_, ?_⟩
  · intro j hj
    rcases List.mem_append.mp hj with hj | hj
    · exact (ho j).mpr (.inl (h.streams j hj))
    · exact (ho j).mpr (.inr (List.mem_singleton.mp hj))
  · intro j hj
    have hne : j ≠ id := fun he => hj ((ho j).mpr (.inr he))
    simp only [Receiver.create, hdir, Function.update_of_ne hne]
    exact h.fresh j fun hop => hj ((ho j).mpr (.inl hop))
  · intro j hj
    by_cases hji : j = id
    · subst hji
      simp only [Receiver.create, hdir, Function.update_self] at hj
      cases hj
    · simp only [Receiver.create, hdir, Function.update_of_ne hji] at hj ⊢
      exact h.gone j hj

theorem WF.step (h : v.WF l) (hs : RecvStep v evs v') : v'.WF l := by
  cases hs with
  | quiet => exact { h with }
  | reject => exact { h with }
  | shut =>
    refine ⟨h.limits, h.ids, by simp, ?_, ?_⟩
    · intro j hj
      have hout : j ∉ v.streams := fun hm => hj (h.streams j hm)
      simp only [v.inbox.shut_dir_of_not_mem v.streams j hout]
      exact h.fresh j hj
    · intro j hj
      obtain ⟨closed, hc⟩ := v.inbox.shut_dir v.streams j
      simp only [hc] at hj
      exact h.gone j hj
  | openLocal hid => exact h.create (h.ids.takeLocal hid) (fun j => Ids.opened_takeLocal h.ids j) .held
  | openRemote _ done hid =>
    have hc := h.create (h.ids.takeRemote hid) (fun j => Ids.opened_takeRemote h.ids j) .waiting
    exact { hc with }
  | accept id hw hid =>
    refine h.setHolder .held hid fun hd => ?_
    have hg := h.gone id hd
    rw [hw] at hg
    cases hg
  | drop id hh =>
    have hid := h.opened_of_holder id (by simp [hh])
    have hin := h.setInbox hid (v.inbox.dropRemainder_dir id) fun hd => h.gone id hd
    exact hin.setHolder .gone hid fun _ => rfl
  | discard id hh =>
    have hid := h.opened_of_holder id (by simp [hh])
    exact h.setInbox hid (v.inbox.discardInbound_dir id) fun _ => hh
  | free id hh =>
    have hid := h.opened_of_holder id (by simp [hh])
    exact h.setInbox hid (v.inbox.clearChunks_dir id) fun _ => hh
  | readWhole id hh hm =>
    have hid := h.opened_of_holder id (by simp [hh])
    obtain ⟨d, hd, -, hdis, -⟩ := v.inbox.readWhole_reads id
    exact (h.setInbox hid hd fun hx => h.gone id (hdis ▸ hx)).setMode 1 hid
  | pollRead id room hh =>
    have hid := h.opened_of_holder id (by simp [hh])
    obtain ⟨d, hd, hr⟩ := v.inbox.pollRead_reads id room
    exact (h.setInbox hid hd fun hx => h.gone id (hr.discarded ▸ hx)).setMode 2 hid
  | stream streamId fin payload inbox hd hm ht hacc =>
    obtain ⟨chunks, hdir, -⟩ := v.inbox.acceptData_dir _ _ _ _ _ hacc
    exact h.setInbox (h.streams _ hm) hdir fun hx => h.gone _ hx
  | refuse id fin payload inbox error hm hacc =>
    have hdir := v.inbox.acceptData_error_dir _ _ _ _ _ _ hacc
    have hin := h.sameDir hdir
    exact { hin with }
  | reset streamId errorCode hd hm ht =>
    have hdir := (v.inbox.markReset streamId.intoInner errorCode.intoInner).markRecvTerminal_dir streamId.intoInner
    rw [Inbox.markReset_dir, Function.update_idem, Function.update_self] at hdir
    exact h.setInbox (h.streams _ hm) hdir fun hx => h.gone _ hx
  | grantConn maximum hu => exact h.sameDir rfl
  | grantStream id maximum hm ht hd hu => exact h.sameDir (v.inbox.grantStream_dir id)
  | retire id ht => exact { h with streams := fun j hj => h.streams j (List.mem_filter.mp hj).1 }

theorem reach_wf (h : (machine l isClient).Reach v log) : v.WF l :=
  h.invariant (fun v _ => v.WF l) (fun _ hi => hi ▸ new_wf l isClient) fun _ _ _ _ _ hv hs => hv.step hs

end Receiver
end Muxtls
