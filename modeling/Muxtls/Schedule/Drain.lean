import Muxtls.Schedule.Fair

namespace Muxtls
namespace Frame

/-- The kinds of frames that stand in the control queue. -/
def isControl : Frame → Bool
  | settings .. => true
  | openStream _ => true
  | resetStream .. => true
  | stopSending _ => true
  | ping => true
  | _ => false

/-- What a frame brings to its stream: bytes, and `none` for a FIN. -/
def items : Frame → List (Option UInt8)
  | stream _ fin payload => payload.map some ++ if fin then [none] else []
  | _ => []

theorem Control.isControl {l : Limits} {i : Ids} {f : Frame} (h : f.Control l i) : f.isControl = true := by
  cases f <;> first | rfl | exact h.elim

theorem Grants.isControl {streams : List Nat} {f : Frame} (h : f.Grants streams) : f.isControl = false := by
  cases f <;> first | rfl | exact h.elim

end Frame

/-- The bytes of chunks in order, with `none` for a FIN. -/
def chunkItems (chunks : List (Bytes × Bool)) : List (Option UInt8) :=
  chunks.flatMap fun c => c.1.map some ++ if c.2 then [none] else []

theorem chunkItems_cons (c : Bytes × Bool) (chunks : List (Bytes × Bool)) :
    chunkItems (c :: chunks) = (c.1.map some ++ if c.2 then [none] else []) ++ chunkItems chunks :=
  List.flatMap_cons

/-- Taking `count` bytes off a head chunk leaves the other items behind. -/
theorem chunkItems_take (payload : Bytes) (fin : Bool) (rest : List (Bytes × Bool)) (streamId : VarInt) (count : Nat) :
    chunkItems ((payload, fin) :: rest) =
      (Frame.stream streamId (fin && (payload.drop count).isEmpty) (payload.take count)).items ++
        chunkItems (if (payload.drop count).isEmpty then rest else (payload.drop count, fin) :: rest) := by
  have hsplit : payload.map some = (payload.take count).map some ++ (payload.drop count).map some := by
    rw [← List.map_append, List.take_append_drop]
  rw [chunkItems_cons, hsplit, Frame.items]
  cases he : (payload.drop count).isEmpty
  · simp only [Bool.and_false, Bool.false_eq_true, if_false, List.append_nil, chunkItems_cons, List.append_assoc]
  · rw [List.isEmpty_iff.mp he]
    simp

namespace SendDir

variable {d d' : SendDir} {w evs : List DirEvent}

/-- Every item of a direction that was neither reset nor cut has left it or is still queued. -/
def Keeps (d : SendDir) (w : List DirEvent) : Prop :=
  d.cut = false → d.resetQueued = false →
    chunkItems (queuedChunks w) = (outs w).flatMap Frame.items ++ chunkItems d.chunks

theorem keeps_step (hi : d.Inv w) (h : d.Keeps w) (hs : DirStep d evs d') : d'.Keeps (w ++ evs) := by
  intro hcut hreset
  cases hs with
  | skip => simpa using h hcut hreset
  | enqueue payload fin =>
    have hk := h hcut hreset
    simp only [queuedChunks_queued, outs_queued, chunkItems, List.flatMap_append] at hk ⊢
    rw [hk, List.append_assoc]
  | finish => simpa using h hcut hreset
  | reset => cases hreset
  | popReset streamId code n hn =>
    have hle := hi.resets_le
    rw [hn, show d.resetQueued = false from hreset] at hle
    exact absurd hle (by simp)
  | data streamId payload fin rest count hc =>
    have hk := h hcut hreset
    rw [hc, chunkItems_take payload fin rest streamId count] at hk
    simpa [List.flatMap_append] using hk
  | cut => cases hcut

/-- Without a new chunk the items of a direction only become fewer. -/
theorem items_suffix (hs : DirStep d evs d') (h : ∀ payload fin, .queued payload fin ∉ evs) :
    chunkItems d'.chunks <:+ chunkItems d.chunks := by
  cases hs with
  | enqueue payload fin => exact absurd List.mem_cons_self (h payload fin)
  | reset => exact List.nil_suffix
  | data streamId payload fin rest count hc =>
    rw [hc, chunkItems_take payload fin rest streamId count]
    exact List.suffix_append _ _
  | cut => exact List.nil_suffix
  | _ => exact List.suffix_refl _

theorem reach_keeps (h : machine.Reach d w) : d.Keeps w := by
  refine h.invariant Keeps ?_ fun d w evs d' hr hk hs => keeps_step (reach_inv hr) hk hs
  rintro d rfl - -
  rfl

end SendDir

namespace Sender

variable {l : Limits} {isClient : Bool} {v v' : Sender} {log evs : List Event}

/-- The items queued for a stream. -/
def queuedItems (v : Sender) (id : Nat) : List (Option UInt8) := chunkItems (v.direction id).chunks

/-- What may have become of a sender after its close was published: nothing was added to its queues,
and as long as it can still emit the close frame its control queue has lost only what it emitted. -/
structure Drains (v : Sender) (evs : List Event) (v' : Sender) : Prop where
  closing : v'.queues.closing = true
  silent : ∀ id payload fin, .queued id payload fin ∉ evs
  items : ∀ id, v'.queuedItems id <:+ v.queuedItems id
  control : v'.queues.control <:+ v.queues.control
  frame : v'.queues.closeFrame ≠ none → v.queues.closeFrame ≠ none
  fifo : v'.queues.closeFrame ≠ none → v.queues.gracefulClose = true →
    v'.queues.gracefulClose = true ∧
      v.queues.control = (emitted evs).filter Frame.isControl ++ v'.queues.control

theorem Drains.refl (h : v.queues.closing = true) : v.Drains [] v where
  closing := h
  silent := by simp
  items := fun _ => List.suffix_refl _
  control := List.suffix_refl _
  frame := id
  fifo := fun _ hg => ⟨hg, rfl⟩

theorem Drains.trans {v'' : Sender} {evs' : List Event} (h : v.Drains evs v') (h' : v'.Drains evs' v'') :
    v.Drains (evs ++ evs') v'' where
  closing := h'.closing
  silent := by
    intro id payload fin hm
    rcases List.mem_append.mp hm with hm | hm
    · exact h.silent id payload fin hm
    · exact h'.silent id payload fin hm
  items := fun id => (h'.items id).trans (h.items id)
  control := h'.control.trans h.control
  frame := fun hc => h.frame (h'.frame hc)
  fifo := by
    intro hc hg
    obtain ⟨hg', hfirst⟩ := h.fifo (h'.frame hc) hg
    obtain ⟨hg'', hthen⟩ := h'.fifo hc hg'
    refine ⟨hg'', ?_⟩
    rw [hfirst, hthen, emitted_append, List.filter_append, List.append_assoc]

theorem quiet_silent (h : ∀ e ∈ evs, e.Quiet) (id : Nat) (payload : Bytes) (fin : Bool) :
    .queued id payload fin ∉ evs := fun hm => (h _ hm).elim

theorem queuedChunks_append (w w' : List DirEvent) : queuedChunks (w ++ w') = queuedChunks w ++ queuedChunks w' :=
  List.filterMap_append

/-- A log without new chunks shows none for any direction. -/
theorem queuedChunks_silent (h : ∀ id payload fin, .queued id payload fin ∉ evs) (id : Nat) :
    queuedChunks (evs.filterMap (dirEvent id)) = [] := by
  unfold queuedChunks
  rw [List.filterMap_filterMap, List.filterMap_eq_nil_iff]
  intro e he
  cases e with
  | queued j payload fin => exact absurd he (h j payload fin)
  | emitted f => cases hf : f.sendsOn id <;> simp [dirEvent, hf]
  | _ => rfl

theorem items_step (hv : v.WF l) (hs : SendStep l v evs v') (h : ∀ id payload fin, .queued id payload fin ∉ evs)
    (id : Nat) : v'.queuedItems id <:+ v.queuedItems id := by
  refine SendDir.items_suffix (direction_step hv hs id) ?_
  intro payload fin hm
  have hq : (payload, fin) ∈ queuedChunks (evs.filterMap (dirEvent id)) := List.mem_filterMap.mpr ⟨_, hm, rfl⟩
  rw [queuedChunks_silent h id] at hq
  cases hq

/-- A step that leaves the control queue and the close mode alone. -/
theorem Drains.keep (hcl : v.queues.closing = true) (hsilent : ∀ id payload fin, .queued id payload fin ∉ evs)
    (hitems : ∀ id, v'.queuedItems id <:+ v.queuedItems id)
    (hnone : (emitted evs).filter Frame.isControl = []) (hcontrol : v'.queues.control = v.queues.control)
    (hclosing : v'.queues.closing = v.queues.closing) (hframe : v'.queues.closeFrame = v.queues.closeFrame)
    (hgraceful : v'.queues.gracefulClose = v.queues.gracefulClose) : v.Drains evs v' where
  closing := hclosing.trans hcl
  silent := hsilent
  items := hitems
  control := hcontrol ▸ List.suffix_refl _
  frame := by
    rw [hframe]
    exact id
  fifo := by
    intro _ hg
    rw [hnone, hcontrol]
    exact ⟨hgraceful.trans hg, rfl⟩

theorem drains_step (hv : v.WF l) (hcl : v.queues.closing = true) (hs : SendStep l v evs v') : v.Drains evs v' := by
  have hopen : ∀ {p : Prop}, v.queues.closing = false → p := by
    intro p hf
    rw [hcl] at hf
    cases hf
  have hitems := items_step hv hs
  have hquiet : ∀ log : List Event, (∀ e ∈ log, e.Quiet) → (emitted log).filter Frame.isControl = [] := by
    intro log h
    rw [quiet_emitted log h]
    rfl
  cases hs with
  | quiet _ h => exact .keep hcl (quiet_silent h) (hitems (quiet_silent h)) (hquiet _ h) rfl rfl rfl rfl
  | halt _ h => exact .keep hcl (quiet_silent h) (hitems (quiet_silent h)) (hquiet _ h) rfl rfl rfl rfl
  | openLocal _ _ hc => exact hopen hc
  | openRemote _ hid hlog =>
    rcases hlog with rfl | ⟨error, rfl⟩ <;> exact .keep hcl (by simp) (hitems (by simp)) rfl rfl rfl rfl rfl
  | enqueue _ _ _ _ hc => exact hopen hc
  | reset _ _ _ _ _ _ hc => exact hopen hc
  | resetAgain id _ _ hlog =>
    rcases hlog with rfl | rfl <;> exact .keep hcl (by simp) (hitems (by simp)) rfl rfl rfl rfl rfl
  | ping hc _ => exact hopen hc
  | stop _ _ hc => exact hopen hc
  | close _ _ _ _ hclosed =>
    rw [hv.closing hcl] at hclosed
    cases hclosed
  | shutdown _ h =>
    exact
      { closing := rfl
        silent := quiet_silent h
        items := hitems (quiet_silent h)
        control := List.nil_suffix
        frame := fun hc => absurd rfl hc
        fifo := fun hc => absurd rfl hc }
  | pop f control hcut hc =>
    have hf : f.isControl = true := (hv.control f (hc ▸ List.mem_cons_self)).isControl
    exact
      { closing := hcl
        silent := by simp
        items := hitems (by simp)
        control := hc ▸ List.suffix_cons f control
        frame := id
        fifo := by
          intro _ hg
          refine ⟨hg, ?_⟩
          simp [hc, emitted, Event.emittedFrame, hf, Sender.setQueues] }
  | grant f hcut hc hf =>
    refine .keep hcl (by simp) (hitems (by simp)) ?_ rfl rfl rfl rfl
    simp [emitted, Event.emittedFrame, hf.isControl]
  | closeFrame f hclosing hdrain hf =>
    exact
      { closing := hcl
        silent := by simp
        items := hitems (by simp)
        control := List.suffix_refl _
        frame := fun hc => absurd rfl hc
        fifo := fun hc => absurd rfl hc }
  | _ => exact .keep hcl (by simp) (hitems (by simp)) rfl rfl rfl rfl rfl

/-- The step that publishes a graceful close changes nothing else in the queues. -/
theorem publish_step {reason fitted : String} (hs : SendStep l v [.closing 0 reason fitted] v') :
    v'.queues.closing = true ∧ v'.queues.gracefulClose = true ∧ v'.queues.control = v.queues.control ∧
      ∀ id, v'.queuedItems id = v.queuedItems id := by
  generalize hlog : [Event.closing 0 reason fitted] = evs at hs
  have hno : ∀ {p : Prop}, (∀ e ∈ evs, e.Quiet) → p := by
    intro p h
    rw [← hlog] at h
    exact (h _ List.mem_cons_self).elim
  cases hs with
  | quiet _ h => exact hno h
  | halt _ h => exact hno h
  | shutdown _ h => exact hno h
  | openRemote _ _ h => rcases h with rfl | ⟨error, rfl⟩ <;> cases hlog
  | reset _ _ _ _ _ _ _ h => rcases h with rfl | rfl <;> cases hlog
  | resetAgain _ _ _ h => rcases h with rfl | rfl <;> cases hlog
  | close code reason' fitted' hcode hclosed hfit =>
    have hzero : code.intoInner = 0 := by
      simp only [List.cons.injEq, Event.closing.injEq, and_true] at hlog
      exact hlog.1.symm
    rw [hzero]
    exact ⟨rfl, rfl, rfl, fun _ => rfl⟩
  | _ => cases hlog

end Sender

namespace Shared

variable {l : Limits} {s : Shared} {r : Shared × Turn}

/-- `next_frame` returns a close frame that was published, and while draining only when nothing else
is left. -/
theorem turn_close (hv : s.sender.WF l) (h : s.Turns r) {code : ErrorCode} {reason : String}
    (hf : r.2 = .frame (.connectionClose code reason)) :
    s.queues.closeFrame ≠ none ∧ (s.sender.cut = true ∨ s.controlIdle ∧ s.queues.byStream.entries = []) := by
  have hframe : s.closeTurn.2 = .frame (.connectionClose code reason) → s.queues.closeFrame ≠ none := by
    intro hc hn
    simp only [closeTurn, WriterQueues.takeCloseFrame, hn] at hc
    cases hc
  cases h with
  | cut hcut => exact ⟨hframe hf, .inl hcut⟩
  | pop f control _ hc =>
    cases hf
    exact absurd rfl ((control_streamOf hv _ (hc ▸ List.mem_cons_self)).2 code reason)
  | grant s' f _ _ _ _ hg =>
    cases hf
    cases hg
  | data => cases hf
  | again => cases hf
  | drained _ _ hidle _ hempty => exact ⟨hframe hf, .inr ⟨hidle, hempty⟩⟩
  | wait => cases hf

end Shared

namespace Endpoint

variable {l : Limits} {isClient : Bool} {e e' : Endpoint} {log evs : List Event}

theorem drains_steps (hr : (machine l isClient).Reach e log) (hcl : e.shared.queues.closing = true)
    (h : (machine l isClient).Steps e evs e') : e.shared.sender.Drains evs e'.shared.sender := by
  refine h.invariant (N := machine l isClient) (fun _ _ _ h => h) hr
    (fun e' evs => e.shared.sender.Drains evs e'.shared.sender) (.refl hcl) ?_
  rintro e₁ tr evs e₂ hr₁ hd ⟨act, hact⟩
  exact hd.trans (Sender.drains_step (Sender.reach_wf (reach_sender hr₁)) hd.closing (reach_sendStep hr₁ act hact))

/-- The items that `queue_stream_chunk` has accepted for a stream. -/
def queuedItems (id : Nat) (log : List Event) : List (Option UInt8) :=
  chunkItems (queuedChunks (log.filterMap (dirEvent id)))

/-- The items of a stream in frames that `next_frame` returned. -/
def emittedItems (id : Nat) (log : List Event) : List (Option UInt8) :=
  ((emitted log).filter (Frame.sendsOn id)).flatMap Frame.items

/-- After `initiate_close(0, _)` was published nothing is added to the queues, and CONNECTION_CLOSE is
returned only when they are empty and no credit update is pending. By then the control frames queued
at the close have been returned in order, and so have the bytes and the FIN of each stream that was
not reset. -/
theorem graceful_close_drains (l : Limits) (isClient : Bool) (e : Endpoint) (log : List Event)
    (h : (machine l isClient).Reach e log) (act : Act) (e₁ : Endpoint) (reason fitted : String)
    (hclose : e.step act = some (e₁, [.closing 0 reason fitted])) (evs : List Event) (e₂ : Endpoint)
    (hsteps : (machine l isClient).Steps e₁ evs e₂) :
    (∀ id payload fin, .queued id payload fin ∉ evs) ∧ e₂.shared.queues.control <:+ e.shared.queues.control ∧
    (∀ id, e₂.shared.sender.queuedItems id <:+ e.shared.sender.queuedItems id) ∧
    ∀ order e₃ code cut, e₂.step (.nextFrame order) = some (e₃, [.emitted (.connectionClose code cut)]) →
      e₂.shared.queues.control = [] ∧ e₂.shared.queues.byStream.entries = [] ∧
      e₂.shared.updatePending = false ∧
      (emitted evs).filter Frame.isControl = e.shared.queues.control ∧
      ∀ id, (e₂.shared.send id).resetQueued = false → queuedItems id log = emittedItems id (log ++ evs) := by
  have hr₁ := h.step ⟨act, hclose⟩
  have hr₂ := hr₁.steps hsteps
  obtain ⟨hclosing, hgraceful, hcontrol, hitems⟩ := Sender.publish_step (reach_sendStep h act hclose)
  have hd := drains_steps hr₁ hclosing hsteps
  refine ⟨hd.silent, hcontrol ▸ hd.control, fun id => hitems id ▸ hd.items id, ?_⟩
  intro order e₃ code cut hturn
  have hv₂ := Sender.reach_wf (reach_sender hr₂)
  obtain ⟨r, hturns, hf, -⟩ := emits_turns hr₂ hturn
  obtain ⟨hframe, hdrained⟩ := Shared.turn_close hv₂ hturns hf
  obtain ⟨hgraceful₂, hfifo⟩ := hd.fifo hframe hgraceful
  have hcut : e₂.shared.sender.cut = false := by
    rw [Sender.cut, hgraceful₂, Bool.not_true, Bool.and_false]
  obtain ⟨hidle, hempty⟩ := hdrained.resolve_left (by rw [hcut]; simp)
  refine ⟨hidle.1, hempty, hidle.2, ?_, ?_⟩
  · rw [hcontrol, show e₂.shared.sender.queues.control = [] from hidle.1, List.append_nil] at hfifo
    exact hfifo.symm
  · intro id hreset
    have hk := SendDir.reach_keeps (Sender.reach_direction (reach_sender hr₂) id) hcut hreset
    have hnone : (e₂.shared.sender.direction id).chunks = [] := by
      have hchunks : e₂.shared.queues.chunksOf id = [] :=
        WriterQueues.chunksOf_of_isEmpty (List.isEmpty_iff.mpr hempty) id
      simp only [Sender.direction, Shared.sender, hchunks, List.map_nil]
    have hsilent : ∀ id payload fin, .queued id payload fin ∉ [.closing 0 reason fitted] ++ evs := by
      simpa using hd.silent
    have hqueued : queuedItems id (log ++ [.closing 0 reason fitted] ++ evs) = queuedItems id log := by
      unfold queuedItems
      rw [List.append_assoc, List.filterMap_append, Sender.queuedChunks_append, Sender.queuedChunks_silent hsilent,
        List.append_nil]
    have hemitted : emitted (log ++ [.closing 0 reason fitted] ++ evs) = emitted (log ++ evs) := by
      have hone : emitted [.closing 0 reason fitted] = [] := rfl
      rw [emitted_append, emitted_append, hone, List.append_nil, emitted_append]
    rw [hnone, Sender.outs_dirEvents, hemitted] at hk
    rw [← hqueued]
    exact hk.trans (List.append_nil _)

/-- A stream is opened and written to, the connection is closed, and the writer drains its queues. -/
theorem graceful_close_drains_one_stream :
    ∃ e log e₁ e₂ evs, (machine smallLimits true).Reach e log ∧ queuedItems 0 log = [some 1, some 2] ∧
      (machine smallLimits true).Steps e₁ evs e₂ ∧
      (emitted evs).filter Frame.isControl = e.shared.queues.control ∧
      queuedItems 0 log = emittedItems 0 (log ++ evs) := by
  have hrun : ((Machine.runList step { shared := .new smallLimits true }
      ([.openStart, .openFinish, .receive (settingsFrame smallLimits).wire] ++ writeActs 0 [1, 2])).bind fun r =>
      (r.1.step (.close "done")).bind fun r₁ =>
      (Machine.runList step r₁.1
        [.nextFrame [0], .send, .nextFrame [0], .send, .nextFrame [0], .send]).bind fun r₂ =>
      (r₂.1.step (.nextFrame [0])).map fun r₃ =>
        (queuedItems 0 r.2, r₁.2, (r₂.1.shared.send 0).resetQueued, r₃.2)) =
      some ([some 1, some 2], [.closing 0 "done" "done"], false,
        [.emitted (.connectionClose ⟨.expect 0⟩ "done")]) := by
    decide
  obtain ⟨⟨e, log⟩, hpre, hrun⟩ := Option.bind_eq_some_iff.mp hrun
  obtain ⟨⟨e₁, evs₁⟩, hclose, hrun⟩ := Option.bind_eq_some_iff.mp hrun
  obtain ⟨⟨e₂, evs⟩, hmid, hrun⟩ := Option.bind_eq_some_iff.mp hrun
  obtain ⟨⟨e₃, evs₃⟩, hturn, heq⟩ := Option.map_eq_some_iff.mp hrun
  simp only [Prod.mk.injEq] at heq
  obtain ⟨hqueued, rfl, hreset, rfl⟩ := heq
  have h0 : connect smallLimits true = .ok { shared := .new smallLimits true } := rfl
  have hr := Machine.Reach.of_run (connect smallLimits true = .ok ·) h0 _ hpre
  have hsteps := Machine.runList_steps (connect smallLimits true = .ok ·) step _ hmid
  obtain ⟨-, -, -, hdone⟩ := graceful_close_drains smallLimits true e log hr _ e₁ _ _ hclose evs e₂ hsteps
  obtain ⟨-, -, -, hcontrol, hitems⟩ := hdone [0] e₃ _ _ hturn
  exact ⟨e, log, e₁, e₂, evs, hr, hqueued, hsteps, hcontrol, hitems 0 hreset⟩

end Endpoint
end Muxtls
