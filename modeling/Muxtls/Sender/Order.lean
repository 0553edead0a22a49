import Muxtls.Sender.Credit

namespace Muxtls

/-- A STREAM, RESET_STREAM, STOP_SENDING or MAX_STREAM_DATA frame carrying stream `id`. -/
def Frame.names (id : VarInt) : Frame → Bool
  | .stream streamId _ _ => streamId == id
  | .resetStream streamId _ => streamId == id
  | .stopSending streamId => streamId == id
  | .maxStreamData streamId _ => streamId == id
  | _ => false

def Frame.isData : Frame → Bool
  | .stream .. => true
  | _ => false

/-- Each frame that names a stream of parity `parity` comes after that stream's OPEN_STREAM. -/
def OpensFirst (parity : Nat) (frames : List Frame) : Prop :=
  ∀ before f after, frames = before ++ f :: after → ∀ id : VarInt, id.intoInner % 2 = parity →
    f.names id = true → .openStream id ∈ before

/-- A split of a list with one more element is at that element or earlier. -/
theorem snoc_split {α : Type*} {xs before after : List α} {x y : α} (h : xs ++ [x] = before ++ y :: after) :
    xs = before ∧ x = y ∨ ∃ after', xs = before ++ y :: after' := by
  rcases List.eq_nil_or_concat after with rfl | ⟨after', z, rfl⟩
  · obtain ⟨hb, hx⟩ := List.append_inj' h rfl
    exact .inl ⟨hb, List.head_eq_of_cons_eq hx⟩
  · rw [List.concat_eq_append, ← List.cons_append, ← List.append_assoc] at h
    exact .inr ⟨after', (List.append_inj' h rfl).1⟩

theorem OpensFirst.snoc {parity : Nat} {frames : List Frame} (h : OpensFirst parity frames) (f : Frame)
    (hf : ∀ id : VarInt, id.intoInner % 2 = parity → f.names id = true → .openStream id ∈ frames) :
    OpensFirst parity (frames ++ [f]) := by
  intro before g after he id hid hg
  rcases snoc_split he with ⟨rfl, rfl⟩ | ⟨after, he⟩
  · exact hf id hid hg
  · exact h before g after he id hid hg

namespace Sender

/-- Where the OPEN_STREAM of each local stream is: already emitted, or in the control queue ahead of
every other control frame of that stream. -/
structure Ordered (v : Sender) (log : List Event) : Prop where
  opens : v.cut = false → ∀ id : VarInt, id.intoInner % 2 = v.ids.parity → v.ids.Opened id.intoInner →
    .openStream id ∈ emitted log ++ v.queues.control
  control : ∀ before f after, v.queues.control = before ++ f :: after → ∀ id : VarInt,
    id.intoInner % 2 = v.ids.parity → f.names id = true → .openStream id ∈ emitted log ++ before

variable {l : Limits} {v v' : Sender} {log evs : List Event}

/-- A step that keeps the control queue and opens no local stream. -/
theorem Ordered.keep (h : v.Ordered log) (hp : v'.ids.parity = v.ids.parity)
    (ho : ∀ id, id % 2 = v.ids.parity → v'.ids.Opened id → v.ids.Opened id)
    (hc : v'.queues.control = v.queues.control) (hcut : v'.cut = false → v.cut = false) :
    v'.Ordered (log ++ evs) := by
  refine ⟨?_, ?_⟩
  · intro hn id hid hop
    rw [hp] at hid
    have hm := h.opens (hcut hn) id hid (ho _ hid hop)
    rw [hc, emitted_append]
    simp only [List.mem_append] at hm ⊢
    tauto
  · intro before f after he id hid hf
    rw [hp] at hid
    have hm := h.control before f after (hc ▸ he) id hid hf
    rw [emitted_append]
    simp only [List.mem_append] at hm ⊢
    tauto

theorem Ordered.same (h : v.Ordered log) (q : WriterQueues) (hc : q.control = v.queues.control)
    (hcut : (v.setQueues q).cut = v.cut) : (v.setQueues q).Ordered (log ++ evs) :=
  h.keep rfl (fun _ _ ho => ho) hc fun hn => hcut ▸ hn

/-- A control frame of an opened stream goes behind that stream's OPEN_STREAM. -/
theorem Ordered.push (h : v.Ordered log) (hcut : v.cut = false) (f : Frame)
    (hf : ∀ id : VarInt, f.names id = true → v.ids.Opened id.intoInner) :
    (v.setQueues (v.queues.pushControl f)).Ordered (log ++ evs) := by
  refine ⟨?_, ?_⟩
  · intro _ id hid hop
    have hm := h.opens hcut id hid hop
    simp only [setQueues, WriterQueues.pushControl, emitted_append, List.mem_append] at hm ⊢
    tauto
  · intro before g after he id hid hg
    rcases snoc_split he with ⟨hb, rfl⟩ | ⟨after, he⟩
    · have hm := h.opens hcut id hid (hf id hg)
      rw [hb] at hm
      simp only [emitted_append, List.mem_append] at hm ⊢
      tauto
    · have hm := h.control before g after he id hid hg
      simp only [emitted_append, List.mem_append] at hm ⊢
      tauto

/-- With an empty control queue and nothing to open, only the emitted frames matter. -/
theorem Ordered.cleared (hc : v.queues.control = []) (hcut : v.cut = true) : v.Ordered log := by
  refine ⟨?_, ?_⟩
  · intro hn
    rw [hcut] at hn
    cases hn
  · intro before f after he
    rw [hc] at he
    simp at he

theorem Ordered.openLocal (hv : v.WF l) (h : v.Ordered log)
    (hclosing : v.queues.closing = false) :
    ((v.setQueues (v.queues.pushControl (.openStream (.expect v.ids.nextLocal)))).create
      v.ids.takeLocal v.ids.nextLocal).Ordered log := by
  refine ⟨?_, ?_⟩
  · intro _ id hpar hop
    rcases (Ids.opened_takeLocal hv.ids _).mp hop with hop | hnew
    · have hm := h.opens (v.cut_of_open hclosing) id hpar hop
      simp only [create, setQueues, WriterQueues.pushControl, List.mem_append] at hm ⊢
      tauto
    · have he : VarInt.expect v.ids.nextLocal = id := by
        rw [← hnew, VarInt.expect_inner]
      simp [create, setQueues, WriterQueues.pushControl, he]
  · intro before g after he id hpar hg
    rcases snoc_split he with ⟨-, rfl⟩ | ⟨after, he⟩
    · cases hg
    · exact h.control before g after he id hpar hg

theorem ordered_step (hv : v.WF l) (h : v.Ordered log) (hs : SendStep l v evs v') :
    v'.Ordered (log ++ evs) := by
  cases hs with
  | quiet => exact h.same v.queues rfl rfl
  | halt => exact h.keep rfl (fun _ _ ho => ho) rfl fun hn => hn
  | openLocal hid hclosed hclosing =>
    rw [List.append_nil]
    exact h.openLocal hv hclosing
  | openRemote _ hid hlog =>
    refine h.keep rfl ?_ rfl fun hn => hn
    intro id hpar hop
    rcases (Ids.opened_takeRemote hv.ids _).mp hop with hop | hnew
    · exact hop
    · have hr := hv.ids.remote_parity
      have hp := hv.ids.parity_le
      rw [hnew] at hpar
      omega
  | pend => exact h.keep rfl (fun _ _ ho => ho) rfl fun hn => hn
  | enqueue => exact h.keep rfl (fun _ _ ho => ho) rfl fun hn => hn
  | finish => exact h.keep rfl (fun _ _ ho => ho) rfl fun hn => hn
  | reset id errorCode _ hid hdisp hres hclosing hlog =>
    have hf : ∀ j : VarInt, (Frame.resetStream (.expect id) errorCode).names j = true →
        v.ids.Opened j.intoInner := by
      intro j hj
      rw [← beq_iff_eq.mp hj, VarInt.expect_intoInner _ (hid.le hv.ids)]
      exact hid
    have hr : (v.setQueues (v.queues.removeStream id)).Ordered (log ++ []) := h.same _ rfl rfl
    rw [List.append_nil] at hr
    have hp : ((v.setQueues (v.queues.removeStream id)).setQueues
        ((v.queues.removeStream id).pushControl (.resetStream (.expect id) errorCode))).Ordered (log ++ evs) :=
      hr.push (v.cut_of_open hclosing) _ hf
    exact ⟨hp.opens, hp.control⟩
  | resetAgain => exact h.same v.queues rfl rfl
  | stopRetired => exact h.same v.queues rfl rfl
  | ping hclosing _ => exact h.push (v.cut_of_open hclosing) _ (by intro id hn; cases hn)
  | stop id hid hclosing =>
    refine h.push (v.cut_of_open hclosing) _ ?_
    intro j hj
    rw [← beq_iff_eq.mp hj, VarInt.expect_intoInner _ (hid.le hv.ids)]
    exact hid
  | close code reason fitted hcode hclosed hfit =>
    have hclosing : v.queues.closing = false := by
      cases hc : v.queues.closing with
      | false => rfl
      | true => rw [hv.closing hc] at hclosed; cases hclosed
    cases hg : code.intoInner == 0
    · exact Ordered.cleared rfl rfl
    · exact h.keep rfl (fun _ _ ho => ho) rfl fun _ => v.cut_of_open hclosing
  | shutdown => exact Ordered.cleared rfl rfl
  | pop f control hcut hc =>
    have he : emitted (log ++ [.emitted f]) = emitted log ++ [f] := emitted_append _ _
    refine ⟨?_, ?_⟩
    · intro _ id hid hop
      have hm := h.opens hcut id hid hop
      rw [hc] at hm
      rw [he]
      simpa [setQueues] using hm
    · intro before g after hb id hid hg
      have hm := h.control (f :: before) g after (by rw [hc]; exact congrArg (f :: ·) hb) id hid hg
      rw [he]
      simpa using hm
  | grant => exact h.same _ rfl rfl
  | data => exact h.keep rfl (fun _ _ ho => ho) rfl fun hn => hn
  | turn => exact h.same _ rfl rfl
  | closeFrame => exact h.same _ rfl rfl
  | settings => exact h.same _ rfl rfl
  | maxData => exact h.same _ rfl rfl
  | maxStreamData => exact h.keep rfl (fun _ _ ho => ho) rfl fun hn => hn
  | lateCredit => exact h.same v.queues rfl rfl
  | retire => exact h.keep rfl (fun _ _ ho => ho) rfl fun hn => hn

theorem reach_ordered {isClient : Bool} (h : (machine l isClient).Reach v log) : v.Ordered log := by
  refine h.invariant Ordered ?_ fun v log evs v' hr ho hs => ordered_step (reach_wf hr) ho hs
  intro v (hi : v = (Shared.new l isClient).sender)
  subst hi
  refine ⟨?_, ?_⟩
  · intro _ id hid hop
    exact absurd hop (Ids.not_opened_start isClient _)
  · intro before f after he id hid hf
    have he : [] ++ [settingsFrame l] = before ++ f :: after := he
    rcases snoc_split he with ⟨-, rfl⟩ | ⟨after, he⟩
    · cases hf
    · simp at he

theorem quiet_emitted (log : List Event) (h : ∀ e ∈ log, e.Quiet) : emitted log = [] := by
  rw [emitted, List.filterMap_eq_nil_iff]
  intro e he
  have hq := h e he
  cases e <;> first | rfl | exact hq.elim

/-- Where an emitted frame comes from: the control queue, the credit pass, a head chunk, or the close. -/
inductive Emits (v : Sender) : Frame → Prop
  | control (f : Frame) (control : List Frame) (hcut : v.cut = false) (hc : v.queues.control = f :: control) : Emits v f
  | grant (f : Frame) (hcut : v.cut = false) (hc : v.queues.control = []) (hf : f.Grants v.queues.receiveWindows) :
    Emits v f
  | data (id : Nat) (chunk : OutboundChunk) (rest : List OutboundChunk)
    (skipped later : List Nat) (hcut : v.cut = false)
    (hturn : v.queues.control = [] ∨ v.queues.controlTurn = false ∧ v.queues.urgent = false)
    (hready : v.queues.ready = skipped ++ id :: later)
    (hskip : ∀ j ∈ skipped, ∀ c ∈ (v.queues.chunksOf j).head?, v.queues.eligible (v.send j) c = false)
    (hchunk : v.queues.chunksOf id = chunk :: rest) (hel : v.queues.eligible (v.send id) chunk = true) :
    Emits v (v.dataFrame id chunk)
  | close (code : ErrorCode) (reason : String) : Emits v (.connectionClose code reason)

theorem emits_step (hv : v.WF l) (hs : SendStep l v evs v') :
    emitted evs = [] ∨ ∃ f, emitted evs = [f] ∧ v.Emits f := by
  cases hs with
  | pop f control hcut hc => exact .inr ⟨f, rfl, .control f control hcut hc⟩
  | grant f hcut hc hf => exact .inr ⟨f, rfl, .grant f hcut hc hf⟩
  | data id chunk rest skipped later hcut hturn hready hskip hchunk hel =>
    exact .inr ⟨_, rfl, .data id chunk rest skipped later hcut hturn hready hskip hchunk hel⟩
  | closeFrame f hclosing hdrain hf =>
    obtain ⟨-, code, reason, rfl⟩ := closeFrame_inv hv f hf
    exact .inr ⟨_, rfl, .close code reason⟩
  | quiet _ hq => exact .inl (quiet_emitted evs hq)
  | halt _ hq => exact .inl (quiet_emitted evs hq)
  | shutdown _ hq => exact .inl (quiet_emitted evs hq)
  | openRemote _ hid hlog => exact .inl (by rcases hlog with rfl | ⟨error, rfl⟩ <;> rfl)
  | reset _ _ _ _ _ _ _ hlog => exact .inl (by rcases hlog with rfl | rfl <;> rfl)
  | resetAgain _ _ _ hlog => exact .inl (by rcases hlog with rfl | rfl <;> rfl)
  | _ => exact .inl rfl

/-- A frame names opened streams only. -/
theorem Emits.opened (hv : v.WF l) {f : Frame} (h : v.Emits f) (id : VarInt) (hn : f.names id = true) :
    v.ids.Opened id.intoInner := by
  cases h with
  | control f control hcut hc =>
    have hf := hv.control f (hc ▸ List.mem_cons_self)
    cases f with
    | resetStream streamId => exact beq_iff_eq.mp hn ▸ hf
    | stopSending streamId => exact beq_iff_eq.mp hn ▸ hf
    | stream => exact hf.elim
    | maxStreamData => exact hf.elim
    | _ => cases hn
  | grant f hcut hc hf =>
    cases f with
    | maxStreamData streamId maximum => exact beq_iff_eq.mp hn ▸ hv.opened _ (hv.windows ▸ hf)
    | _ => first | cases hn | exact hf.elim
  | data j chunk rest skipped later hcut hturn hready hskip hchunk hel =>
    obtain ⟨hop, hfit⟩ := hv.chunks j chunk (hchunk ▸ List.mem_cons_self)
    have hid : chunk.streamId = id := beq_iff_eq.mp hn
    rw [← hid, hfit.streamId, VarInt.expect_intoInner _ (hop.le hv.ids)]
    exact hop
  | close => cases hn

/-- A frame of a local stream comes after its OPEN_STREAM, unless it carries data and the OPEN_STREAM is
still in the control queue. -/
theorem Emits.after_open (hv : v.WF l) (ho : v.Ordered log) {f : Frame} (h : v.Emits f) (id : VarInt)
    (hpar : id.intoInner % 2 = v.ids.parity) (hn : f.names id = true)
    (hdata : f.isData = true → .openStream id ∉ v.queues.control) : .openStream id ∈ emitted log := by
  have hop := h.opened hv id hn
  cases h with
  | control f control hcut hc => simpa using ho.control [] f control hc id hpar hn
  | grant f hcut hc hf => simpa [hc] using ho.opens hcut id hpar hop
  | data j chunk rest skipped later hcut =>
    rcases List.mem_append.mp (ho.opens hcut id hpar hop) with hm | hm
    · exact hm
    · exact absurd hm (hdata rfl)
  | close => cases hn

/-- A sender step keeps OPEN_STREAM first, unless it sends data of a stream whose OPEN_STREAM is
still in the control queue. -/
theorem opensFirst_step (hv : v.WF l) (ho : v.Ordered log) (h : OpensFirst v.ids.parity (emitted log))
    (hs : SendStep l v evs v')
    (hdata : ∀ id chunk rest skipped later, v.cut = false →
      v.queues.control = [] ∨ v.queues.controlTurn = false ∧ v.queues.urgent = false →
      v.queues.ready = skipped ++ id :: later →
      (∀ j ∈ skipped, ∀ c ∈ (v.queues.chunksOf j).head?, v.queues.eligible (v.send j) c = false) →
      v.queues.chunksOf id = chunk :: rest → v.queues.eligible (v.send id) chunk = true →
      .openStream (.expect id) ∉ v.queues.control) :
    OpensFirst v.ids.parity (emitted (log ++ evs)) := by
  rw [emitted_append]
  rcases emits_step hv hs with he | ⟨f, he, hem⟩
  · rwa [he, List.append_nil]
  rw [he]
  refine h.snoc f fun id hid hn => hem.after_open hv ho id hid hn fun hd => ?_
  cases hem with
  | control f control hcut hc =>
    have hf := hv.control f (hc ▸ List.mem_cons_self)
    cases f <;> first | exact hf.elim | cases hd
  | grant f hcut hc hf => cases f <;> first | exact hf.elim | cases hd
  | data j chunk rest skipped later hcut hturn hready hskip hchunk hel =>
    have hid : chunk.streamId = id := beq_iff_eq.mp hn
    rw [← hid, (hv.chunks j chunk (hchunk ▸ List.mem_cons_self)).2.streamId]
    exact hdata j chunk rest skipped later hcut hturn hready hskip hchunk hel
  | close => cases hd

end Sender
end Muxtls
