import Muxtls.Lib.RangeSum
import Muxtls.Sender.Lifecycle

namespace Muxtls

namespace Frame

def isOpen (id : Nat) : Frame → Bool
  | openStream streamId => streamId.intoInner == id
  | _ => false

def isStop (id : Nat) : Frame → Bool
  | stopSending streamId => streamId.intoInner == id
  | _ => false

/-- SETTINGS and PING, the control frames of no stream. -/
def isGeneral : Frame → Bool
  | settings .. => true
  | ping => true
  | _ => false

/-- A control frame of stream `id`. -/
def concerns (id : Nat) (f : Frame) : Bool := f.isOpen id || f.isReset id || f.isStop id

section

variable (streamId : VarInt) (errorCode : ErrorCode) (id : Nat)

@[simp] theorem concerns_openStream : (openStream streamId).concerns id = (streamId.intoInner == id) := by
  simp [concerns, isOpen, isReset, isStop]

@[simp] theorem concerns_resetStream : (resetStream streamId errorCode).concerns id = (streamId.intoInner == id) := by
  simp [concerns, isOpen, isReset, isStop]

@[simp] theorem concerns_stopSending : (stopSending streamId).concerns id = (streamId.intoInner == id) := by
  simp [concerns, isOpen, isReset, isStop]

end

end Frame

/-- Control frames of streams that are `held`: one of each kind for a stream, one SETTINGS and one PING. -/
structure Sparse (held : Nat → Bool) (frames : List Frame) : Prop where
  settings : frames.countP Frame.isSettings ≤ 1
  pings : frames.count .ping ≤ 1
  opens : ∀ id, frames.countP (Frame.isOpen id) ≤ (held id).toNat
  resets : ∀ id, frames.countP (Frame.isReset id) ≤ (held id).toNat
  stops : ∀ id, frames.countP (Frame.isStop id) ≤ (held id).toNat

/-- One more frame, the only one of its kind. -/
theorem Sparse.push {held : Nat → Bool} {frames : List Frame} (h : Sparse held frames) (f : Frame)
    (hset : f.isSettings = false) (hping : f = .ping → .ping ∉ frames) (hopen : ∀ id, f.isOpen id = false)
    (hreset : ∀ id, f.isReset id = true → held id = true ∧ frames.countP (Frame.isReset id) = 0)
    (hstop : ∀ id, f.isStop id = true → held id = true ∧ frames.countP (Frame.isStop id) = 0) :
    Sparse held (frames ++ [f]) := by
  have hkind : ∀ (p : Nat → Frame → Bool) id, frames.countP (p id) ≤ (held id).toNat →
      (p id f = true → held id = true ∧ frames.countP (p id) = 0) →
      (frames ++ [f]).countP (p id) ≤ (held id).toNat := by
    intro p id hle hp
    rw [List.countP_append, List.countP_singleton]
    split_ifs with hf
    · obtain ⟨hheld, hzero⟩ := hp hf
      rw [hheld, hzero]
      exact le_refl _
    · exact hle
  refine ⟨?_, ?_, fun id => hkind Frame.isOpen id (h.opens id) ?_, fun id => hkind _ id (h.resets id) (hreset id),
    fun id => hkind _ id (h.stops id) (hstop id)⟩
  · rw [List.countP_append, List.countP_singleton, hset]
    exact h.settings
  · rw [List.count_append, List.count_singleton]
    split_ifs with hf
    · rw [List.count_eq_zero.mpr (hping (by simpa using hf))]
    · exact h.pings
  · intro hf
    rw [hopen id] at hf
    cases hf

theorem concerns_count (frames : List Frame) (id : Nat) :
    frames.countP (Frame.concerns id) =
      frames.countP (Frame.isOpen id) + frames.countP (Frame.isReset id) + frames.countP (Frame.isStop id) := by
  induction frames with
  | nil => rfl
  | cons f frames ih =>
    simp only [List.countP_cons, ih, Frame.concerns]
    cases f <;> simp [Frame.isOpen, Frame.isReset, Frame.isStop] <;> omega

theorem general_count (frames : List Frame) :
    frames.countP Frame.isGeneral = frames.countP Frame.isSettings + frames.count .ping := by
  induction frames with
  | nil => rfl
  | cons f frames ih =>
    simp only [List.countP_cons, List.count_cons, ih]
    cases f <;> simp [Frame.isGeneral, Frame.isSettings] <;> omega

/-- Three frames for each stream, SETTINGS and PING. -/
theorem Sparse.length_le {l : Limits} {ids : Ids} {held : Nat → Bool} {frames : List Frame} (h : Sparse held frames)
    (hc : ∀ f ∈ frames, f.Control l ids) :
    frames.length ≤ 3 * (∑ id ∈ Finset.range ids.bound, (held id).toNat) + 2 := by
  have hclass : ∀ f ∈ frames, f.isGeneral = true ∨ ∃ id < ids.bound, f.concerns id = true := by
    intro f hf
    have hcontrol := hc f hf
    cases f with
    | settings => exact .inl rfl
    | ping => exact .inl rfl
    | openStream streamId => exact .inr ⟨_, hcontrol.2.lt_bound, by simp⟩
    | resetStream streamId =>
      have hid : ids.Opened streamId.intoInner := hcontrol
      exact .inr ⟨_, hid.lt_bound, by simp⟩
    | stopSending streamId =>
      have hid : ids.Opened streamId.intoInner := hcontrol
      exact .inr ⟨_, hid.lt_bound, by simp⟩
    | _ => exact hcontrol.elim
  have hlen := RangeSum.length_le frames Frame.isGeneral Frame.concerns hclass
  have hstreams : ∑ id ∈ Finset.range ids.bound, frames.countP (Frame.concerns id) ≤
      ∑ id ∈ Finset.range ids.bound, 3 * (held id).toNat := by
    refine Finset.sum_le_sum fun id _ => ?_
    have ho := h.opens id
    have hr := h.resets id
    have hs := h.stops id
    rw [concerns_count]
    omega
  have hset := h.settings
  have hping := h.pings
  rw [general_count] at hlen
  rw [← Finset.mul_sum] at hstreams
  omega

theorem openIds_count (frames : List Frame) (id : Nat) :
    frames.countP (Frame.isOpen id) = (openIds frames).count id := by
  induction frames with
  | nil => rfl
  | cons f frames ih =>
    rw [List.countP_cons, ih]
    cases f with
    | openStream streamId => simp [openIds, Frame.openId, Frame.isOpen, List.count_cons]
    | _ => simp [openIds, Frame.openId, Frame.isOpen, List.filterMap_cons]

theorem issued_nodup (first n : Nat) : (issued first n).Nodup :=
  List.Nodup.map (fun _ _ h => by simpa using h) List.nodup_range

namespace Sender

variable {l : Limits} {isClient : Bool} {v v' : Sender} {log evs : List Event} {id : Nat}

/-- What a step can push onto the control queue. -/
inductive Pushes (v : Sender) (evs : List Event) : Frame → Prop
  | opens (hid : v.ids.nextLocal ≤ varIntMax) : Pushes v evs (.openStream (.expect v.ids.nextLocal))
  | reset (id : Nat) (errorCode : ErrorCode) (hid : v.ids.Opened id) (hm : (v.direction id).marked = false) :
    Pushes v evs (.resetStream (.expect id) errorCode)
  | ping (hnew : .ping ∉ v.queues.control) : Pushes v evs .ping
  | stop (id : Nat) (hid : v.ids.Opened id) (hev : evs = [.stopQueued id]) : Pushes v evs (.stopSending (.expect id))

/-- A step pushes one frame onto the control queue, or only takes frames from it. -/
theorem control_cases (hs : SendStep l v evs v') :
    (v'.queues.control.Sublist v.queues.control) ∨
      ∃ f, v'.queues.control = v.queues.control ++ [f] ∧ v.Pushes evs f := by
  cases hs with
  | openLocal hid => exact .inr ⟨_, rfl, .opens hid⟩
  | reset id errorCode _ hid hdisp hres =>
    exact .inr ⟨_, rfl, .reset id errorCode hid (by simp [SendDir.marked, direction, hdisp, hres])⟩
  | ping hclosing hnew => exact .inr ⟨_, rfl, .ping hnew⟩
  | stop id hid hclosing => exact .inr ⟨_, rfl, .stop id hid rfl⟩
  | pop f control hcut hc => exact .inl (hc ▸ List.sublist_cons_self f control)
  | close code reason fitted =>
    left
    simp only [WriterQueues.publishClose]
    split_ifs
    · exact List.Sublist.refl _
    · exact List.nil_sublist _
  | shutdown => exact .inl (List.nil_sublist _)
  | _ => exact .inl (List.Sublist.refl _)

/-- The general frames of the control queue, and a STOP_SENDING for each that was queued. -/
structure Scarce (v : Sender) (log : List Event) : Prop where
  settings : v.queues.control.countP Frame.isSettings ≤ 1
  pings : v.queues.control.count .ping ≤ 1
  stops : ∀ id, v.queues.control.countP (Frame.isStop id) ≤ log.count (.stopQueued id)

theorem scarce_step (hv : v.WF l) (h : v.Scarce log) (hs : SendStep l v evs v') : v'.Scarce (log ++ evs) := by
  rcases control_cases hs with hsub | ⟨f, hf, hp⟩
  · refine ⟨(hsub.countP_le).trans h.settings, (hsub.count_le _).trans h.pings, fun id => ?_⟩
    rw [List.count_append]
    exact (hsub.countP_le).trans ((h.stops id).trans (Nat.le_add_right _ _))
  · have hstops : ∀ id, f.isStop id = false →
        (v.queues.control ++ [f]).countP (Frame.isStop id) ≤ (log ++ evs).count (.stopQueued id) := by
      intro id hno
      rw [List.countP_append, List.count_append, List.countP_singleton, hno]
      exact (h.stops id).trans (Nat.le_add_right _ _)
    refine ⟨?_, ?_, fun id => ?_⟩
    · rw [hf, List.countP_append]
      cases hp <;> simpa [Frame.isSettings] using h.settings
    · rw [hf, List.count_append]
      cases hp with
      | ping hnew => simp [List.count_eq_zero.mpr hnew]
      | _ => simpa using h.pings
    · rw [hf]
      cases hp with
      | stop j hid hev =>
        by_cases hj : id = j
        · subst hj hev
          rw [List.countP_append, List.count_append]
          have hold := h.stops id
          simp [Frame.isStop, VarInt.expect_intoInner _ (hid.le hv.ids)]
          omega
        · refine hstops id ?_
          simpa [Frame.isStop, VarInt.expect_intoInner _ (hid.le hv.ids)] using Ne.symm hj
      | _ => exact hstops id rfl

theorem reach_scarce (h : (machine l isClient).Reach v log) : v.Scarce log := by
  refine h.invariant Scarce ?_ fun _ _ _ _ hr hv hs => scarce_step (reach_wf hr) hv hs
  intro v (hi : v = _)
  subst hi
  exact ⟨le_refl _, Nat.zero_le _, fun _ => Nat.zero_le _⟩

/-- The OPEN_STREAM of a stream is queued once. -/
theorem reach_opens_once (h : (machine l isClient).Reach v log) (id : Nat) :
    v.queues.control.countP (Frame.isOpen id) ≤ 1 := by
  obtain ⟨n, hn⟩ := reach_issued h
  have hsub : (openIds v.queues.control).Sublist (issued v.ids.parity n) := by
    have hle := hn.opens_le
    rw [openIds_append] at hle
    exact (List.sublist_append_right _ _).trans hle.sublist
  have hnodup : (openIds v.queues.control).Nodup := hsub.nodup (issued_nodup _ n)
  rw [openIds_count]
  exact List.nodup_iff_count_le_one.mp hnodup id

end Sender
end Muxtls
