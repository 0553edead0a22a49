import Muxtls.Sender.Queue

namespace Muxtls

/-- A frame that may stand in the control queue. -/
def Frame.Control (l : Limits) (i : Ids) : Frame → Prop
  | .settings data streamData frameSize => .settings data streamData frameSize = settingsFrame l
  | .openStream streamId => streamId.intoInner % 2 = i.parity ∧ i.Opened streamId.intoInner
  | .resetStream streamId _ => i.Opened streamId.intoInner
  | .stopSending streamId => i.Opened streamId.intoInner
  | .ping => True
  | _ => False

/-- A queued chunk of stream `id` whose own frame fits the local frame limit. -/
structure OutboundChunk.Fits (l : Limits) (id : Nat) (c : OutboundChunk) : Prop where
  streamId : c.streamId = .expect id
  frame : ∃ n, (Frame.stream c.streamId c.fin c.payload).encodedLen = .ok n ∧ n ≤ l.maxFrameSize
  nonempty : c.payload ≠ [] ∨ c.fin = true

/-- A pending close frame carries one of the two codes of the runtime and a reason that was fitted. -/
def WriterQueues.CloseFits (l : Limits) (q : WriterQueues) : Prop :=
  ∀ f, q.closeFrame = some f → ∃ code fitted, f = .connectionClose code fitted ∧ code.intoInner ≤ 1 ∧
    l.validateCloseReason code.intoInner fitted = .ok ()

theorem Limits.fitCloseReason_ok (l : Limits) (errorCode : Nat) (reason fitted : String)
    (h : l.fitCloseReason errorCode reason = .ok fitted) :
    l.validateCloseReason errorCode fitted = .ok () := by
  unfold Limits.fitCloseReason at h
  split at h
  · rename_i hok
    cases h
    exact hok
  · split at h
    · rename_i hok
      cases h
      exact hok
    · split at h
      · rename_i hok
        cases h
        exact hok
      · cases h

namespace Ids

/-- `i'` has opened every stream `i` has. -/
def Le (i i' : Ids) : Prop := i'.parity = i.parity ∧ ∀ id, i.Opened id → i'.Opened id

theorem Le.refl (i : Ids) : i.Le i := ⟨rfl, fun _ h => h⟩

theorem le_takeLocal {i : Ids} (hi : i.WF) : i.Le i.takeLocal :=
  ⟨rfl, fun id h => (opened_takeLocal hi id).mpr (.inl h)⟩

theorem le_takeRemote {i : Ids} (hi : i.WF) : i.Le i.takeRemote :=
  ⟨rfl, fun id h => (opened_takeRemote hi id).mpr (.inl h)⟩

end Ids

theorem Frame.Control.mono {l : Limits} {i i' : Ids} (hle : i.Le i') {f : Frame} (h : f.Control l i) :
    f.Control l i' := by
  obtain ⟨hp, ho⟩ := hle
  cases f with
  | settings => exact h
  | openStream streamId => exact ⟨by rw [hp]; exact h.1, ho _ h.2⟩
  | resetStream streamId => exact ho _ h
  | stopSending streamId => exact ho _ h
  | ping => trivial
  | _ => exact h.elim

namespace Sender

/-- What holds of a sender in every state: ids are well formed, both maps have the same streams,
and whatever is queued or about to be queued belongs to an opened stream. -/
structure WF (l : Limits) (v : Sender) : Prop where
  ids : v.ids.WF
  windows : v.queues.receiveWindows = v.streams
  nodup : v.streams.Nodup
  opened : ∀ id ∈ v.streams, v.ids.Opened id
  queues : v.queues.WF
  pending : ∀ id w, (v.send id).pending = some w → v.ids.Opened id ∧ w.Fits l id
  chunks : ∀ id, ∀ c ∈ v.queues.chunksOf id, v.ids.Opened id ∧ c.Fits l id
  fresh : ∀ id, ¬ v.ids.Opened id → v.send id = {}
  control : ∀ f ∈ v.queues.control, f.Control l v.ids
  closing : v.queues.closing = true → v.closed = true
  close : v.queues.CloseFits l

section Lemmas

variable {l : Limits} {v : Sender} (hv : v.WF l)
include hv

theorem WF.chunks_fresh {id : Nat} (h : ¬ v.ids.Opened id) : v.queues.chunksOf id = [] := by
  cases hc : v.queues.chunksOf id with
  | nil => rfl
  | cons c cs => exact absurd (hv.chunks id c (hc ▸ List.mem_cons_self)).1 h

theorem WF.not_closing (h : v.closed = false) : v.queues.closing = false := by
  by_contra hc
  rw [hv.closing (Bool.eq_true_of_not_eq_false hc)] at h
  cases h

theorem WF.setQueues {q : WriterQueues} (hw : q.receiveWindows = v.streams) (hq : q.WF)
    (hc : ∀ id, ∀ c ∈ q.chunksOf id, v.ids.Opened id ∧ c.Fits l id)
    (hf : ∀ f ∈ q.control, f.Control l v.ids) (hcl : q.closing = true → v.closed = true)
    (hfit : q.CloseFits l) : (v.setQueues q).WF l :=
  { hv with windows := hw, queues := hq, chunks := hc, control := hf, closing := hcl, close := hfit }

theorem WF.setSend {id : Nat} {st : SendState} (hid : v.ids.Opened id)
    (hp : ∀ w, st.pending = some w → w.Fits l id) : (v.setSend id st).WF l where
  ids := hv.ids
  windows := hv.windows
  nodup := hv.nodup
  opened := hv.opened
  queues := hv.queues
  pending := by
    intro j w hw
    by_cases hj : j = id
    · subst hj
      simp only [Sender.setSend, Function.update_self] at hw
      exact ⟨hid, hp w hw⟩
    · simp only [Sender.setSend, Function.update_of_ne hj] at hw
      exact hv.pending j w hw
  chunks := hv.chunks
  fresh := by
    intro j hj
    have hne : j ≠ id := fun he => hj (he ▸ hid)
    simp only [Sender.setSend, Function.update_of_ne hne]
    exact hv.fresh j hj
  control := hv.control
  closing := hv.closing
  close := hv.close

theorem WF.push {f : Frame} (hf : f.Control l v.ids) : (v.setQueues (v.queues.pushControl f)).WF l := by
  refine hv.setQueues hv.windows (hv.queues.congr rfl rfl hv.queues.frame_min hv.queues.frame_max)
    hv.chunks ?_ hv.closing hv.close
  intro g hg
  rcases List.mem_append.mp hg with hg | hg
  · exact hv.control g hg
  · rw [List.mem_singleton.mp hg]
    exact hf

/-- A stream with a fresh id enters the map. -/
theorem WF.create {ids : Ids} {id : Nat} (hi : ids.WF) (hle : v.ids.Le ids) (hid : ids.Opened id)
    (hn : ¬ v.ids.Opened id) : (v.create ids id).WF l where
  ids := hi
  windows := by simp [Sender.create, hv.windows]
  nodup := by
    have hnm : id ∉ v.streams := fun hm => hn (hv.opened id hm)
    simp only [Sender.create]
    exact List.nodup_append.mpr ⟨hv.nodup, List.nodup_singleton id, by
      intro a ha b hb hab
      rw [List.mem_singleton.mp hb] at hab
      exact hnm (hab ▸ ha)⟩
  opened := by
    intro j hj
    rcases List.mem_append.mp hj with hj | hj
    · exact hle.2 j (hv.opened j hj)
    · rw [List.mem_singleton.mp hj]
      exact hid
  queues := hv.queues.congr rfl rfl hv.queues.frame_min hv.queues.frame_max
  pending := by
    intro j w hw
    by_cases hj : j = id
    · subst hj
      simp [Sender.create] at hw
    · simp only [Sender.create, Function.update_of_ne hj] at hw
      obtain ⟨ho, hf⟩ := hv.pending j w hw
      exact ⟨hle.2 j ho, hf⟩
  chunks := by
    intro j c hc
    obtain ⟨ho, hf⟩ := hv.chunks j c hc
    exact ⟨hle.2 j ho, hf⟩
  fresh := by
    intro j hj
    have hne : j ≠ id := fun he => hj (he ▸ hid)
    simp only [Sender.create, Function.update_of_ne hne]
    exact hv.fresh j (fun ho => hj (hle.2 j ho))
  control := fun f hf => (hv.control f hf).mono hle
  closing := hv.closing
  close := hv.close

theorem WF.enqueue {id : Nat} {w : PendingWrite} (hw : (v.send id).pending = some w) :
    (v.setQueues (v.queues.pushChunk id (Shared.heldChunk id w))).WF l := by
  obtain ⟨ho, hf⟩ := hv.pending id w hw
  refine hv.setQueues hv.windows (hv.queues.pushChunk id _) ?_ hv.control hv.closing hv.close
  intro j c hc
  rw [WriterQueues.chunksOf_pushChunk] at hc
  by_cases hj : j = id
  · subst hj
    rw [if_pos rfl] at hc
    rcases List.mem_append.mp hc with hc | hc
    · exact hv.chunks j c hc
    · rw [List.mem_singleton.mp hc]
      exact ⟨ho, rfl, hf.frame, hf.nonempty⟩
  · rw [if_neg hj] at hc
    exact hv.chunks j c hc

theorem WF.removeStream (id : Nat) : (v.setQueues (v.queues.removeStream id)).WF l := by
  refine hv.setQueues hv.windows (hv.queues.removeStream id) ?_ hv.control hv.closing hv.close
  intro j c hc
  rw [WriterQueues.chunksOf_removeStream] at hc
  by_cases hj : j = id
  · rw [if_pos hj] at hc
    cases hc
  · rw [if_neg hj] at hc
    exact hv.chunks j c hc

theorem WF.dispatchQueues {id : Nat} {skipped later : List Nat} (chunks : List OutboundChunk)
    (count : Nat) (hready : v.queues.ready = skipped ++ id :: later)
    (hch : ∀ c ∈ chunks, v.ids.Opened id ∧ c.Fits l id) :
    (v.setQueues (v.queues.dispatch id (later ++ skipped) chunks count)).WF l := by
  refine hv.setQueues hv.windows (hv.queues.dispatch id skipped later _ _ hready) ?_ hv.control
    hv.closing hv.close
  intro j c hc
  rw [WriterQueues.chunksOf_dispatch] at hc
  by_cases hj : j = id
  · subst hj
    rw [if_pos rfl] at hc
    exact hch c hc
  · rw [if_neg hj] at hc
    exact hv.chunks j c hc

/-- What is left of a cut chunk still fits, since its frame is shorter. -/
theorem WF.dispatch {id : Nat} {chunk : OutboundChunk} {rest : List OutboundChunk}
    {skipped later : List Nat} (hready : v.queues.ready = skipped ++ id :: later)
    (hchunk : v.queues.chunksOf id = chunk :: rest) :
    (v.dispatch id chunk rest (later ++ skipped)).WF l := by
  have hmem : ∀ c ∈ chunk :: rest, v.ids.Opened id ∧ c.Fits l id := fun c hc =>
    hv.chunks id c (hchunk ▸ hc)
  obtain ⟨ho, hfit⟩ := hmem chunk List.mem_cons_self
  refine (hv.dispatchQueues _ _ hready ?_).setSend ho fun w hw => (hv.pending id w hw).2
  intro c hc
  split_ifs at hc with hleft
  · exact hmem c (List.mem_cons_of_mem _ hc)
  · rcases List.mem_cons.mp hc with rfl | hc
    · refine ⟨ho, hfit.streamId, ?_, .inl (by simpa using hleft)⟩
      obtain ⟨n, hn, hle⟩ := hfit.frame
      obtain ⟨n', hn', hle'⟩ := Frame.stream_encodedLen_mono chunk.streamId chunk.fin chunk.fin
        chunk.payload (chunk.payload.drop (v.queues.takeCount (v.send id) chunk)) n (by simp) hn
      exact ⟨n', hn', hle'.trans hle⟩
    · exact hmem c (List.mem_cons_of_mem _ hc)

/-- The queues of a closed connection were emptied. -/
theorem WF.cleared {q : WriterQueues} {streams : List Nat} (hs : streams ⊆ v.streams) (hn : streams.Nodup)
    (hw : q.receiveWindows = streams) (hq : q.WF) (hc : ∀ id, q.chunksOf id = []) (hf : q.control = [])
    (hfit : q.CloseFits l) : WF l { v with closed := true, streams := streams, queues := q } where
  ids := hv.ids
  windows := hw
  nodup := hn
  opened := fun id hid => hv.opened id (hs hid)
  queues := hq
  pending := hv.pending
  chunks := by
    intro id c hcm
    rw [hc id] at hcm
    cases hcm
  fresh := hv.fresh
  control := by
    intro f hfm
    rw [hf] at hfm
    cases hfm
  closing := fun _ => rfl
  close := hfit

end Lemmas

theorem new_wf (l : Limits) (isClient : Bool) : (Shared.new l isClient).sender.WF l where
  ids := Ids.start_wf isClient
  windows := rfl
  nodup := List.nodup_nil
  opened := by intro id h; cases h
  queues := ⟨by intro id; simp [Shared.sender, Shared.new], List.nodup_nil, by
    intro id; simp [Shared.sender, Shared.new, WriterQueues.chunksOf], le_refl _,
    show minFrameSize ≤ u32Max by decide⟩
  pending := by intro id w h; cases h
  chunks := by intro id c h; cases h
  fresh := fun _ _ => rfl
  control := by
    intro f hf
    rw [List.mem_singleton.mp hf]
    rfl
  closing := by intro h; cases h
  close := by intro f h; cases h

theorem step_wf (l : Limits) (v v' : Sender) (log : List Event) (hv : v.WF l)
    (h : SendStep l v log v') : v'.WF l := by
  have hq := fun q : WriterQueues => @WriterQueues.WF.congr v.queues q hv.queues
  have hmin := hv.queues.frame_min
  have hmax := hv.queues.frame_max
  cases h with
  | quiet => exact hv
  | halt => exact { hv with closing := fun _ => rfl }
  | openLocal hid hclosed hclosing =>
    have hle := Ids.le_takeLocal hv.ids
    have ho : v.ids.takeLocal.Opened v.ids.nextLocal := (Ids.opened_takeLocal hv.ids _).mpr (.inr rfl)
    have hc := hv.create (hv.ids.takeLocal hid) hle ho (Ids.not_opened_nextLocal hv.ids)
    refine hc.push ?_
    rw [Frame.Control, VarInt.expect_intoInner _ hid]
    exact ⟨hv.ids.local_parity, ho⟩
  | openRemote _ hid hlog =>
    exact hv.create (hv.ids.takeRemote hid) (Ids.le_takeRemote hv.ids)
      ((Ids.opened_takeRemote hv.ids _).mpr (.inr rfl)) (Ids.not_opened_nextRemote hv.ids)
  | pend id pending hid hold hnew => exact hv.setSend hid fun w hw => (hnew w hw).1
  | enqueue id w hw hstage hclosing hterm =>
    obtain ⟨ho, hf⟩ := hv.pending id w hw
    refine (hv.enqueue hw).setSend ho ?_
    intro w' hw'
    split_ifs at hw'
    cases hw'
    exact ⟨hf.frame, hf.budget, hf.nonempty⟩
  | finish id w hw hstage => exact hv.setSend (hv.pending id w hw).1 (by intro w hw; cases hw)
  | reset id errorCode _ hid hdisp hres hclosing hlog =>
    have hf : (Frame.resetStream (.expect id) errorCode).Control l v.ids := by
      rw [Frame.Control, VarInt.expect_intoInner _ (hid.le hv.ids)]
      exact hid
    exact ((hv.removeStream id).push hf).setSend hid fun w hw => (hv.pending id w hw).2
  | resetAgain => exact hv
  | stopRetired => exact hv
  | ping hclosing _ => exact hv.push trivial
  | stop id hid hclosing =>
    refine hv.push ?_
    rw [Frame.Control, VarInt.expect_intoInner _ (hid.le hv.ids)]
    exact hid
  | close code reason fitted hcode hclosed hfit =>
    have hclose : (v.queues.publishClose code fitted (code.intoInner == 0)).CloseFits l := by
      intro f hf
      cases hf
      exact ⟨code, fitted, rfl, hcode, l.fitCloseReason_ok _ _ _ hfit⟩
    cases hg : code.intoInner == 0
    · rw [hg] at hclose
      exact hv.cleared (List.Subset.refl _) hv.nodup hv.windows (hv.queues.clear.congr rfl rfl hmin hmax)
        (fun _ => rfl) rfl hclose
    · rw [hg] at hclose
      exact { hv with queues := hq _ rfl rfl hmin hmax, closing := fun _ => rfl, close := hclose }
  | shutdown =>
    exact hv.cleared (List.nil_subset _) List.nodup_nil rfl (hv.queues.clear.congr rfl rfl hmin hmax)
      (fun _ => rfl) rfl (by intro f hf; cases hf)
  | pop f control hcut hc =>
    refine hv.setQueues hv.windows (hq _ rfl rfl hmin hmax) hv.chunks ?_ hv.closing hv.close
    exact fun g hg => hv.control g (hc ▸ List.mem_cons_of_mem _ hg)
  | grant f hcut hc hf =>
    exact hv.setQueues hv.windows (hq _ rfl rfl hmin hmax) hv.chunks hv.control hv.closing hv.close
  | data id chunk rest skipped later hcut hturn hready hskip hchunk hel => exact hv.dispatch hready hchunk
  | turn => exact hv.setQueues hv.windows (hq _ rfl rfl hmin hmax) hv.chunks hv.control hv.closing hv.close
  | closeFrame f hclosing hdrain hf =>
    exact hv.setQueues hv.windows (hq _ rfl rfl hmin hmax) hv.chunks hv.control hv.closing
      (by intro f hf; cases hf)
  | settings data streamData frameSize hp hlo hhi =>
    exact hv.setQueues hv.windows (hq _ rfl rfl hlo hhi) hv.chunks hv.control hv.closing hv.close
  | maxData maximum hp =>
    exact hv.setQueues hv.windows (hq _ rfl rfl hmin hmax) hv.chunks hv.control hv.closing hv.close
  | maxStreamData streamId maximum hp hs =>
    exact hv.setSend (hv.opened _ hs) fun w hw => (hv.pending _ w hw).2
  | lateCredit => exact hv
  | retire id =>
    exact
      { hv with
        windows := congrArg (List.filter _) hv.windows
        nodup := hv.nodup.filter _
        opened := fun j hj => hv.opened j (List.mem_filter.mp hj).1
        queues := hq _ rfl rfl hmin hmax }

theorem reach_wf {l : Limits} {isClient : Bool} {v : Sender} {log : List Event}
    (h : (machine l isClient).Reach v log) : v.WF l :=
  h.invariant (fun v _ => v.WF l) (fun _ hi => hi ▸ new_wf l isClient)
    fun v _ log v' _ hv hs => step_wf l v v' log hv hs

/-- A closed connection stays closed. -/
theorem closed_step {l : Limits} {v v' : Sender} {evs : List Event} (hs : SendStep l v evs v')
    (hc : v.closed = true) : v'.closed = true := by
  cases hs <;> first | exact hc | rfl

/-- Opened ids stay opened. -/
theorem ids_step {l : Limits} {v v' : Sender} {log : List Event} (hv : v.WF l) (hs : SendStep l v log v') :
    v.ids.Le v'.ids := by
  cases hs with
  | openLocal => exact Ids.le_takeLocal hv.ids
  | openRemote => exact Ids.le_takeRemote hv.ids
  | _ => exact Ids.Le.refl _

end Sender
end Muxtls
