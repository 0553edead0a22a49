import Muxtls.Sender.OpenFirst

namespace Muxtls

/-- The ids of `n` streams opened one after the other, from `first` on. -/
def issued (first n : Nat) : List Nat := (List.range n).map fun k => first + 2 * k

theorem issued_succ (first n : Nat) : issued first (n + 1) = issued first n ++ [first + 2 * n] := by
  simp [issued, List.range_succ]

@[simp] theorem issued_length (first n : Nat) : (issued first n).length = n := by
  simp [issued]

/-- What stands at a place of the sequence, told from a part of it. -/
theorem eq_of_issued_le {first n id : Nat} {ids : List Nat} (h : ids ++ [id] <+: issued first n) :
    id = first + 2 * ids.length := by
  obtain ⟨rest, hrest⟩ := h
  have hget : (issued first n)[ids.length]? = some id := by
    rw [← hrest, List.append_assoc, List.getElem?_append_right (le_refl _)]
    simp
  simp only [issued, List.getElem?_map, Option.map_eq_some_iff] at hget
  obtain ⟨k, hk, rfl⟩ := hget
  obtain ⟨hlt, rfl⟩ := List.getElem?_eq_some_iff.mp hk
  rw [List.getElem_range]

def Frame.openId : Frame → Option Nat
  | .openStream streamId => some streamId.intoInner
  | _ => none

/-- The ids of the OPEN_STREAM frames among some frames, in order. -/
def openIds (frames : List Frame) : List Nat := frames.filterMap Frame.openId

theorem openIds_append (frames frames' : List Frame) :
    openIds (frames ++ frames') = openIds frames ++ openIds frames' :=
  List.filterMap_append

/-- The ids of the OPEN_STREAM frames that a step has pushed onto the control queue. -/
def pushedIds (control control' : List Frame) : List Nat := openIds (control'.drop control.length)

theorem pushedIds_push (control : List Frame) (f : Frame) : pushedIds control (control ++ [f]) = openIds [f] := by
  simp [pushedIds]

theorem pushedIds_same (control : List Frame) : pushedIds control control = [] := by
  simp [pushedIds, openIds]

theorem pushedIds_nil (control : List Frame) : pushedIds control [] = [] := by
  simp [pushedIds, openIds]

theorem pushedIds_pop (f : Frame) (control : List Frame) : pushedIds (f :: control) control = [] := by
  unfold pushedIds
  rw [List.drop_eq_nil_of_le (by simp)]
  rfl

namespace Sender

variable {l : Limits} {isClient : Bool} {v v' : Sender} {log evs : List Event}

/-- A step pushes no OPEN_STREAM, or that of the next local id. -/
theorem pushed_step (hs : SendStep l v evs v') :
    (pushedIds v.queues.control v'.queues.control = [] ∧ v'.ids.nextLocal = v.ids.nextLocal) ∨
      pushedIds v.queues.control v'.queues.control = [v.ids.nextLocal] ∧ v.ids.nextLocal ≤ varIntMax ∧
        v'.ids.nextLocal = v.ids.nextLocal + 2 := by
  cases hs with
  | openLocal hid =>
    refine .inr ⟨?_, hid, rfl⟩
    refine (pushedIds_push v.queues.control (.openStream (.expect v.ids.nextLocal))).trans ?_
    exact congrArg (fun id => [id]) (VarInt.expect_intoInner _ hid)
  | reset id errorCode => exact .inl ⟨pushedIds_push v.queues.control (.resetStream (.expect id) errorCode), rfl⟩
  | ping => exact .inl ⟨pushedIds_push v.queues.control .ping, rfl⟩
  | stop id => exact .inl ⟨pushedIds_push v.queues.control (.stopSending (.expect id)), rfl⟩
  | close code reason fitted =>
    refine .inl ⟨?_, rfl⟩
    cases hz : code.intoInner == 0 with
    | true => exact pushedIds_same v.queues.control
    | false => exact pushedIds_nil v.queues.control
  | shutdown => exact .inl ⟨pushedIds_nil v.queues.control, rfl⟩
  | pop f control _ hc =>
    refine .inl ⟨?_, rfl⟩
    rw [hc]
    exact pushedIds_pop f control
  | _ => exact .inl ⟨pushedIds_same v.queues.control, rfl⟩

/-- The OPEN_STREAM frames emitted and those queued are those of all local ids in order; an error close
or a shutdown may have thrown the last ones away. -/
structure Issued (v : Sender) (log : List Event) (n : Nat) : Prop where
  next : v.ids.nextLocal = v.ids.parity + 2 * n
  opens_le : openIds (emitted log ++ v.queues.control) <+: issued v.ids.parity n
  opens_eq : v.cut = false → openIds (emitted log ++ v.queues.control) = issued v.ids.parity n

section Issued

variable {n : Nat} (h : v.Issued log n)
include h

theorem Issued.keep (hi : v'.ids.nextLocal = v.ids.nextLocal) (hp : v'.ids.parity = v.ids.parity)
    (ho : openIds (emitted evs ++ v'.queues.control) = openIds v.queues.control)
    (hcut : v'.cut = false → v.cut = false) : v'.Issued (log ++ evs) n := by
  have heq : openIds (emitted (log ++ evs) ++ v'.queues.control) = openIds (emitted log ++ v.queues.control) := by
    rw [emitted_append, List.append_assoc, openIds_append, ho, ← openIds_append]
  refine ⟨by rw [hi, hp]; exact h.next, ?_, ?_⟩
  · rw [heq, hp]
    exact h.opens_le
  · intro hc
    rw [heq, hp]
    exact h.opens_eq (hcut hc)

theorem Issued.quiet (hnone : emitted evs = []) (hi : v'.ids.nextLocal = v.ids.nextLocal)
    (hp : v'.ids.parity = v.ids.parity) (hc : v'.queues.control = v.queues.control)
    (hcut : v'.cut = false → v.cut = false) : v'.Issued (log ++ evs) n :=
  h.keep hi hp (by rw [hnone, hc]; rfl) hcut

/-- Another control frame joins the queue. -/
theorem Issued.push (hnone : emitted evs = []) (f : Frame) (hf : f.openId = none)
    (hi : v'.ids.nextLocal = v.ids.nextLocal) (hp : v'.ids.parity = v.ids.parity)
    (hc : v'.queues.control = v.queues.control ++ [f]) (hopen : v.queues.closing = false) :
    v'.Issued (log ++ evs) n := by
  refine h.keep hi hp ?_ fun _ => cut_of_open v hopen
  rw [hnone, hc, List.nil_append, openIds_append]
  simp [openIds, hf]

theorem Issued.emit (f : Frame) (hf : f.openId = none) (hi : v'.ids = v.ids)
    (hc : v'.queues.control = v.queues.control) (hcut : v'.cut = v.cut) :
    v'.Issued (log ++ [.emitted f]) n := by
  refine h.keep (by rw [hi]) (by rw [hi]) ?_ fun hn => hcut ▸ hn
  rw [hc]
  simp [emitted, Event.emittedFrame, openIds, hf]

theorem Issued.clear (hnone : emitted evs = []) (hi : v'.ids = v.ids) (hc : v'.queues.control = [])
    (hcut : v'.cut = true) : v'.Issued (log ++ evs) n := by
  refine ⟨by rw [hi]; exact h.next, ?_, ?_⟩
  · rw [emitted_append, hnone, List.append_nil, hc, List.append_nil, hi]
    exact (List.prefix_append _ _).trans (openIds_append (emitted log) v.queues.control ▸ h.opens_le)
  · intro hn
    rw [hcut] at hn
    cases hn

end Issued

theorem issued_step (hv : v.WF l) (h : ∃ n, v.Issued log n) (hs : SendStep l v evs v') :
    ∃ n, v'.Issued (log ++ evs) n := by
  obtain ⟨n, h⟩ := h
  cases hs with
  | quiet _ hq => exact ⟨n, h.quiet (quiet_emitted _ hq) rfl rfl rfl fun hn => hn⟩
  | halt _ hq => exact ⟨n, h.quiet (quiet_emitted _ hq) rfl rfl rfl fun hn => hn⟩
  | openLocal hid hclosed hclosing =>
    have hcut := cut_of_open v hclosing
    have heq : openIds (emitted log ++ (v.queues.control ++ [.openStream (.expect v.ids.nextLocal)])) =
        issued v.ids.parity (n + 1) := by
      rw [← List.append_assoc, openIds_append, h.opens_eq hcut, issued_succ, ← h.next]
      exact congrArg (fun id => issued v.ids.parity n ++ [id]) (VarInt.expect_intoInner _ hid)
    refine ⟨n + 1, ⟨?_, ?_, ?_⟩⟩
    · have hn := h.next
      change v.ids.nextLocal + 2 = v.ids.parity + 2 * (n + 1)
      omega
    · rw [List.append_nil]
      exact heq ▸ List.prefix_refl _
    · intro _
      rw [List.append_nil]
      exact heq
  | openRemote _ hid hlog =>
    rcases hlog with rfl | ⟨error, rfl⟩ <;> exact ⟨n, h.quiet rfl rfl rfl rfl fun hn => hn⟩
  | reset id errorCode _ hid hdisp hres hclosing hlog =>
    rcases hlog with rfl | rfl <;>
      exact ⟨n, h.push rfl (.resetStream (.expect id) errorCode) rfl rfl rfl rfl hclosing⟩
  | resetAgain id _ hor hlog => rcases hlog with rfl | rfl <;> exact ⟨n, h.quiet rfl rfl rfl rfl fun hn => hn⟩
  | ping hclosing _ => exact ⟨n, h.push rfl .ping rfl rfl rfl rfl hclosing⟩
  | stop id hid hclosing => exact ⟨n, h.push rfl (.stopSending (.expect id)) rfl rfl rfl rfl hclosing⟩
  | close code reason fitted hcode hclosed hfit =>
    have hclosing : v.queues.closing = false := hv.not_closing hclosed
    cases hz : code.intoInner == 0 with
    | true => exact ⟨n, h.quiet rfl rfl rfl rfl fun _ => cut_of_open v hclosing⟩
    | false => exact ⟨n, h.clear rfl rfl rfl rfl⟩
  | shutdown _ hq => exact ⟨n, h.clear (quiet_emitted _ hq) rfl rfl rfl⟩
  | pop f control hcut hc =>
    refine ⟨n, h.keep rfl rfl ?_ fun _ => hcut⟩
    rw [hc]
    rfl
  | grant f hcut hc hf =>
    have hnone : f.openId = none := by cases f <;> first | rfl | exact hf.elim
    exact ⟨n, h.emit f hnone rfl rfl rfl⟩
  | data id chunk rest skipped later => exact ⟨n, h.emit _ rfl rfl rfl rfl⟩
  | closeFrame f hclosing hdrain hf =>
    obtain ⟨-, code, reason, rfl⟩ := closeFrame_inv hv f hf
    exact ⟨n, h.emit _ rfl rfl rfl rfl⟩
  | _ => exact ⟨n, h.quiet rfl rfl rfl rfl fun hn => hn⟩

theorem reach_issued (h : (machine l isClient).Reach v log) : ∃ n, v.Issued log n := by
  refine h.invariant (fun v log => ∃ n, v.Issued log n) ?_ fun _ _ _ _ hr hi hs => issued_step (reach_wf hr) hi hs
  intro v (hi : v = _)
  subst hi
  exact ⟨0, ⟨rfl, List.prefix_refl _, fun _ => rfl⟩⟩

/-- The counter of peer streams counts the accepted OPEN_STREAM frames until a frame is rejected. -/
def Counted (v : Sender) (log : List Event) : Prop :=
  (∀ error, .rejected error ∉ log) → v.ids.nextRemote = 1 - v.ids.parity + 2 * (openIds (accepted log)).length

theorem quiet_accepted (evs : List Event) (h : ∀ e ∈ evs, e.Quiet) : openIds (accepted evs) = [] := by
  rw [openIds, List.filterMap_eq_nil_iff]
  intro f hf
  obtain ⟨x, hx, ha⟩ := List.mem_filterMap.mp hf
  have hq := h x hx
  cases x with
  | accepted g =>
    cases ha
    cases f <;> first | rfl | exact hq.elim
  | _ => cases ha

theorem Counted.keep (h : v.Counted log) (hnone : openIds (accepted evs) = []) (hn : v'.ids = v.ids ∨
    v'.ids = v.ids.takeLocal) : v'.Counted (log ++ evs) := by
  intro hok
  have hold := h fun error hm => hok error (List.mem_append_left _ hm)
  rw [accepted_append, openIds_append, hnone, List.append_nil]
  rcases hn with hn | hn <;> rw [hn] <;> exact hold

theorem counted_step (h : v.Counted log) (hs : SendStep l v evs v') : v'.Counted (log ++ evs) := by
  cases hs with
  | quiet _ hq => exact h.keep (quiet_accepted _ hq) (.inl rfl)
  | halt _ hq => exact h.keep (quiet_accepted _ hq) (.inl rfl)
  | shutdown _ hq => exact h.keep (quiet_accepted _ hq) (.inl rfl)
  | openLocal => exact h.keep rfl (.inr rfl)
  | openRemote _ hid hlog =>
    intro hok
    rcases hlog with rfl | ⟨error, rfl⟩
    · have hold := h fun error hm => hok error (List.mem_append_left _ hm)
      rw [accepted_append, openIds_append, List.length_append]
      change v.ids.nextRemote + 2 = 1 - v.ids.parity + 2 * ((openIds (accepted log)).length + 1)
      omega
    · exact absurd (List.mem_append_right _ List.mem_cons_self) (hok error)
  | reset id errorCode _ hid hdisp hres hclosing hlog =>
    rcases hlog with rfl | rfl <;> exact h.keep rfl (.inl rfl)
  | resetAgain id _ hor hlog => rcases hlog with rfl | rfl <;> exact h.keep rfl (.inl rfl)
  | _ => exact h.keep rfl (.inl rfl)

theorem reach_counted (h : (machine l isClient).Reach v log) : v.Counted log := by
  refine h.invariant Counted ?_ fun _ _ _ _ _ hc hs => counted_step hc hs
  intro v (hi : v = _) _
  subst hi
  cases isClient <;> rfl

end Sender
end Muxtls
