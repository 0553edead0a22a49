import Muxtls.Pair.Integrity
import Muxtls.Schedule.Drain
import Mathlib.Data.List.ReduceOption

namespace Muxtls

/-- CONNECTION_CLOSE with code zero. -/
def Frame.isFarewell : Frame → Bool
  | .connectionClose code _ => code.intoInner == 0
  | _ => false

theorem Frame.Control.not_farewell {l : Limits} {i : Ids} {f : Frame} (h : f.Control l i) : f.isFarewell = false := by
  cases f <;> first | rfl | exact h.elim

theorem Frame.not_sendsOn_of_farewell {f : Frame} (h : f.isFarewell = true) (id : Nat) : f.sendsOn id = false := by
  cases f <;> first | rfl | cases h

theorem Frame.Grants.not_farewell {streams : List Nat} {f : Frame} (h : f.Grants streams) : f.isFarewell = false := by
  cases f <;> first | rfl | exact h.elim

theorem Frame.Grants.not_sendsOn {streams : List Nat} {f : Frame} (h : f.Grants streams) (id : Nat) :
    f.sendsOn id = false := by
  cases f <;> first | rfl | exact h.elim

theorem chunkItems_ne_nil (payload : Bytes) (fin : Bool)
    (rest : List (Bytes × Bool)) (h : payload ≠ [] ∨ fin = true) :
    chunkItems ((payload, fin) :: rest) ≠ [] := by
  rw [chunkItems_cons]
  rcases h with h | rfl
  · simp [h]
  · simp

theorem Frame.items_bytes (f : Frame) : f.items.reduceOption = f.payload := by
  cases f with
  | stream streamId fin payload => cases fin <;> simp [items, Frame.payload, List.reduceOption]
  | _ => rfl

theorem chunkItems_bytes (chunks : List (Bytes × Bool)) : (chunkItems chunks).reduceOption = chunkBytes chunks := by
  induction chunks with
  | nil => rfl
  | cons c chunks ih =>
    have hhead : (c.1.map some ++ if c.2 then [none] else []).reduceOption = c.1 :=
      Frame.items_bytes (.stream (.expect 0) c.2 c.1)
    rw [chunkItems_cons, List.reduceOption_append, hhead, ih, chunkBytes_cons]

theorem frameItems_bytes (frames : List Frame) : (frames.flatMap Frame.items).reduceOption = frameBytes frames := by
  induction frames with
  | nil => rfl
  | cons f frames ih => rw [List.flatMap_cons, List.reduceOption_append, f.items_bytes, ih, frameBytes, frameBytes,
      List.flatMap_cons]

/-- A RESET_STREAM that was emitted was queued. -/
theorem SendDir.reach_reset {d : SendDir} {w : List DirEvent} (h : machine.Reach d w) {streamId : VarInt}
    {code : ErrorCode} (hf : .resetStream streamId code ∈ outs w) : d.resetQueued = true := by
  refine h.invariant (fun d w => (∃ streamId code, .resetStream streamId code ∈ outs w) →
    d.resetQueued = true) ?_ ?_
    ⟨streamId, code, hf⟩
  · rintro d rfl ⟨_, _, hf⟩
    cases hf
  · rintro d w evs d' hr ih hs ⟨streamId, code, hf⟩
    have hinv := reach_inv hr
    cases hs with
    | reset => rfl
    | popReset streamId' code' n hn =>
      have hle := hinv.resets_le
      cases hq : d.resetQueued with
      | true => rfl
      | false =>
        rw [hq, hn] at hle
        cases hle
    | data streamId' payload fin rest count hc =>
      simp only [outs_out, List.mem_append, List.mem_singleton, reduceCtorEq, or_false] at hf
      exact ih ⟨streamId, code, hf⟩
    | enqueue payload fin =>
      rw [outs_queued] at hf
      exact ih ⟨streamId, code, hf⟩
    | _ =>
      rw [List.append_nil] at hf
      exact ih ⟨streamId, code, hf⟩

/-- The error of a reset direction came with a RESET_STREAM. -/
theorem RecvSide.reach_reset {s : RecvSide} {w : List InEvent} (h : machine.Reach s w)
    (he : s.dir.inbound.resetError ≠ none) : ∃ streamId code, .resetStream streamId code ∈ tooks w := by
  refine h.invariant (fun s w => s.dir.inbound.resetError ≠ none →
    ∃ streamId code, .resetStream streamId code ∈ tooks w) ?_ ?_ he
  · rintro s rfl he
    exact absurd rfl he
  · rintro s w evs s' hr ih hs he
    rw [tooks_append]
    cases hs with
    | reset streamId errorCode => exact ⟨streamId, errorCode, by simp⟩
    | readWhole r d' hh hm hd hread =>
      have hbuf : s.dir.handle.readBuf = none := by
        by_contra hbuf
        exact hm ((reach_inv hr).remainder hbuf)
      obtain ⟨streamId, code, hf⟩ := ih ((hread hbuf).reset ▸ he)
      exact ⟨streamId, code, List.mem_append_left _ hf⟩
    | pollRead r d' hh hread =>
      obtain ⟨streamId, code, hf⟩ := ih (hread.reset ▸ he)
      exact ⟨streamId, code, List.mem_append_left _ hf⟩
    | _ =>
      obtain ⟨streamId, code, hf⟩ := ih he
      exact ⟨streamId, code, List.mem_append_left _ hf⟩

namespace Sender

variable {l : Limits} {isClient : Bool} {v v' : Sender} {log evs : List Event}

/-- What a step can do to the close frame: nothing, take it away, or publish it. -/
theorem closeFrame_cases (hv : v.WF l) (hs : SendStep l v evs v') :
    (v'.queues.closeFrame = v.queues.closeFrame ∧ v'.queues.gracefulClose = v.queues.gracefulClose ∧
        (v'.closed = false → v.closed = false)) ∨
      (v'.queues.closeFrame = none ∧ v'.closed = true) ∨
      (v.closed = false ∧ v'.closed = true ∧ emitted evs = [] ∧ ∃ code fitted,
        v'.queues.closeFrame = some (.connectionClose code fitted) ∧
          v'.queues.gracefulClose = (code.intoInner == 0)) := by
  cases hs with
  | halt => exact .inl ⟨rfl, rfl, fun h => by cases h⟩
  | close code reason fitted hcode hclosed hfit => exact .inr (.inr ⟨hclosed, rfl, rfl, code, fitted, rfl, rfl⟩)
  | shutdown => exact .inr (.inl ⟨rfl, rfl⟩)
  | closeFrame f hclosing => exact .inr (.inl ⟨rfl, hv.closing hclosing⟩)
  | _ => exact .inl ⟨rfl, rfl, id⟩

/-- A graceful close frame is emitted when it was published and nothing else is queued. -/
theorem farewell_step (hv : v.WF l) (hs : SendStep l v evs v') {f : Frame} (hf : f ∈ emitted evs)
    (hfare : f.isFarewell = true) :
    evs = [.emitted f] ∧ (v.cut = true ∨ v.queues.control = [] ∧ ∀ id, v.queues.chunksOf id = []) ∧
      v.queues.closing = true ∧ v' = v.setQueues { v.queues with closeFrame := none } ∧
      ∃ code fitted, v.queues.closeFrame = some (.connectionClose code fitted) ∧ code.intoInner = 0 := by
  have hquiet : ∀ {p : Prop}, emitted evs = [] → p := by
    intro p h
    rw [h] at hf
    cases hf
  cases hs with
  | quiet _ h => exact hquiet (quiet_emitted evs h)
  | halt _ h => exact hquiet (quiet_emitted evs h)
  | shutdown _ h => exact hquiet (quiet_emitted evs h)
  | openRemote _ _ h => rcases h with rfl | ⟨error, rfl⟩ <;> exact hquiet rfl
  | reset _ _ _ _ _ _ _ h => rcases h with rfl | rfl <;> exact hquiet rfl
  | resetAgain _ _ _ h => rcases h with rfl | rfl <;> exact hquiet rfl
  | pop g control hcut hc =>
    obtain rfl : f = g := by simpa [emitted, Event.emittedFrame] using hf
    rw [(hv.control f (hc ▸ List.mem_cons_self)).not_farewell] at hfare
    cases hfare
  | grant g hcut hc hg =>
    obtain rfl : f = g := by simpa [emitted, Event.emittedFrame] using hf
    rw [hg.not_farewell] at hfare
    cases hfare
  | data id chunk rest skipped later hcut hturn hready hskip hchunk hel =>
    obtain rfl : f = v.dataFrame id chunk := by simpa [emitted, Event.emittedFrame] using hf
    cases hfare
  | closeFrame g hclosing hdrain hg =>
    obtain rfl : f = g := by simpa [emitted, Event.emittedFrame] using hf
    obtain ⟨hframe, -⟩ := closeFrame_inv hv f hg
    obtain ⟨c, hc⟩ := Option.ne_none_iff_exists'.mp hframe
    obtain ⟨code, fitted, rfl, -, -⟩ := hv.close c hc
    obtain ⟨reason, rfl⟩ := v.queues.takeCloseFrame_close code fitted f hc hg
    exact ⟨rfl, hdrain, hclosing, rfl, code, fitted, hc, beq_iff_eq.mp hfare⟩
  | _ => exact hquiet rfl

/-- A graceful CONNECTION_CLOSE was emitted: it came after every frame with stream data, the queues are
empty, and each direction that was not reset has emitted what was queued on it. -/
structure Departed (v : Sender) (log : List Event) : Prop where
  closing : v.queues.closing = true
  control : v.queues.control = []
  empty : ∀ id, v.queuedItems id = []
  last : ∃ pre f post, emitted log = pre ++ f :: post ∧
    f.isFarewell = true ∧ (∀ g ∈ pre, g.isFarewell = false) ∧
    ∀ g ∈ post, ∀ id, g.sendsOn id = false
  items : ∀ id, (v.send id).resetQueued = false →
    Endpoint.queuedItems id log = Endpoint.emittedItems id log

/-- What is emitted after a graceful close belongs to no stream. -/
theorem Departed.emits (hv : v.WF l) (h : v.Departed log) (hs : SendStep l v evs v') :
    ∀ g ∈ emitted evs, ∀ id, g.sendsOn id = false := by
  intro g hg id
  rcases emits_step hv hs with he | ⟨f, he, hem⟩
  · rw [he] at hg
    cases hg
  · rw [he] at hg
    obtain rfl := List.mem_singleton.mp hg
    cases hem with
    | control _ control hcut hc =>
      rw [h.control] at hc
      cases hc
    | grant _ hcut hc hf => exact hf.not_sendsOn id
    | data j chunk rest skipped later hcut hturn hready hskip hchunk hel =>
      have hnone := h.empty j
      have hfit := (hv.chunks j chunk (hchunk ▸ List.mem_cons_self)).2.nonempty
      simp only [queuedItems, direction, hchunk, List.map_cons] at hnone
      exact absurd hnone (chunkItems_ne_nil _ _ _ hfit)
    | close => rfl

theorem resetQueued_step (hv : v.WF l) (hs : SendStep l v evs v') (id : Nat)
    (h : (v'.send id).resetQueued = false) : (v.send id).resetQueued = false := by
  have hd := direction_step hv hs id
  have h : (v'.direction id).resetQueued = false := h
  change (v.direction id).resetQueued = false
  generalize v.direction id = d at hd ⊢
  generalize v'.direction id = d' at hd h
  generalize evs.filterMap (dirEvent id) = w at hd
  cases hd with
  | reset => cases h
  | _ => exact h

theorem Departed.step (hv : v.WF l) (h : v.Departed log) (hs : SendStep l v evs v') : v'.Departed (log ++ evs) := by
  have hd := drains_step hv h.closing hs
  have hnone := h.emits hv hs
  have hfilter : ∀ id, (emitted evs).filter (Frame.sendsOn id) = [] := by
    intro id
    rw [List.filter_eq_nil_iff]
    intro g hg
    rw [hnone g hg id]
    simp
  obtain ⟨pre, f, post, hlast, hf, hpre, hpost⟩ := h.last
  refine ⟨hd.closing, List.suffix_nil.mp (h.control ▸ hd.control), fun id => ?_, ?_, fun id hreset => ?_⟩
  · exact List.suffix_nil.mp (h.empty id ▸ hd.items id)
  · refine ⟨pre, f, post ++ emitted evs, by simp [hlast], hf, hpre, fun g hg => ?_⟩
    rcases List.mem_append.mp hg with hg | hg
    · exact hpost g hg
    · exact hnone g hg
  · have hold := h.items id (resetQueued_step hv hs id hreset)
    rw [Endpoint.queuedItems, Endpoint.emittedItems] at hold ⊢
    rw [List.filterMap_append, queuedChunks_append, queuedChunks_silent hd.silent, List.append_nil, hold,
      emitted_append, List.filter_append, hfilter id, List.append_nil]

/-- How a close frame, its mode and the history agree. -/
structure Parting (v : Sender) (log : List Event) : Prop where
  mode : ∀ code fitted, v.queues.closeFrame = some (.connectionClose code fitted) →
    v.queues.gracefulClose = (code.intoInner == 0)
  before : v.closed = false ∨ v.queues.closeFrame ≠ none → ∀ f ∈ emitted log, f.isFarewell = false
  after : (∃ f ∈ emitted log, f.isFarewell = true) → v.Departed log

theorem parting_step (hr : (machine l isClient).Reach v log) (h : v.Parting log) (hs : SendStep l v evs v') :
    v'.Parting (log ++ evs) := by
  have hv := reach_wf hr
  refine ⟨fun code fitted hc => ?_, fun hopen f hf => ?_, fun hfare => ?_⟩
  · rcases closeFrame_cases hv hs with ⟨hsame, hmode, -⟩ |
      ⟨hnone, -⟩ | ⟨-, -, -, code', fitted', hnew, hmode⟩
    · rw [hmode]
      exact h.mode code fitted (hsame ▸ hc)
    · rw [hnone] at hc
      cases hc
    · rw [hnew] at hc
      cases hc
      exact hmode
  · by_contra hfare
    have hfare := Bool.eq_true_of_not_eq_false hfare
    rw [emitted_append] at hf
    rcases List.mem_append.mp hf with hf | hf
    · have hold : v.closed = false ∨ v.queues.closeFrame ≠ none := by
        rcases closeFrame_cases hv hs with ⟨hsame, -, hclosed⟩ | ⟨hnone, hclosed⟩ | ⟨hclosed, -⟩
        · exact hopen.imp hclosed fun hc => hsame ▸ hc
        · rw [hnone, hclosed] at hopen
          simp at hopen
        · exact .inl hclosed
      rw [h.before hold f hf] at hfare
      cases hfare
    · obtain ⟨-, -, hclosing, rfl, -⟩ := farewell_step hv hs hf hfare
      have hclosed : (v.setQueues { v.queues with closeFrame := none }).closed = true := hv.closing hclosing
      rw [hclosed] at hopen
      simp [setQueues] at hopen
  · by_cases hold : ∃ f ∈ emitted log, f.isFarewell = true
    · exact (h.after hold).step hv hs
    obtain ⟨f, hf, hfare⟩ := hfare
    have hpre : ∀ g ∈ emitted log, g.isFarewell = false := fun g hg =>
      Bool.eq_false_of_not_eq_true fun hg' => hold ⟨g, hg, hg'⟩
    rw [emitted_append] at hf
    have hf : f ∈ emitted evs := (List.mem_append.mp hf).resolve_left fun hf => hold ⟨f, hf, hfare⟩
    obtain ⟨rfl, hdrain, hclosing, rfl, code, fitted, hc, hzero⟩ := farewell_step hv hs hf hfare
    -- the close was published as a graceful one, so the queues were drained
    have hcut : v.cut = false := by
      rw [cut, h.mode code fitted hc, hzero]
      simp
    obtain ⟨hcontrol, hchunks⟩ := hdrain.resolve_left (by rw [hcut]; simp)
    have hempty : ∀ id, (v.direction id).chunks = [] := fun id => by
      simp [direction, hchunks id]
    refine ⟨hclosing, hcontrol, fun id => ?_,
      ⟨emitted log, f, [], by simp [emitted, Event.emittedFrame], hfare, hpre,
      fun _ hg => by cases hg⟩, fun id hreset => ?_⟩
    · have hchunks' : ({ v.queues with closeFrame := none } : WriterQueues).chunksOf id = [] := hchunks id
      simp [queuedItems, direction, setQueues, hchunks', chunkItems]
    · have hkeeps := SendDir.reach_keeps (reach_direction hr id) hcut hreset
      have hother := Frame.not_sendsOn_of_farewell hfare id
      have hone : [Event.emitted f].filterMap (dirEvent id) = [] := by simp [dirEvent, hother]
      rw [hempty id, outs_dirEvents] at hkeeps
      rw [Endpoint.queuedItems, Endpoint.emittedItems, List.filterMap_append, hone, List.append_nil, hkeeps,
        emitted_append, List.filter_append]
      simp [hother, emitted, Event.emittedFrame, chunkItems]

theorem reach_parting (h : (machine l isClient).Reach v log) : v.Parting log := by
  refine h.invariant (fun v log => v.Parting log) ?_ fun v log evs v' hr hp hs => parting_step hr hp hs
  rintro v rfl
  refine ⟨fun _ _ hc => ?_, fun _ f hf => ?_, fun hfare => ?_⟩
  · cases hc
  · cases hf
  · obtain ⟨f, hf, -⟩ := hfare
    cases hf

end Sender

namespace Endpoint

/-- The items of a stream in frames that `handle_incoming_frame` accepted. -/
def acceptedItems (id : Nat) (log : List Event) : List (Option UInt8) :=
  ((accepted log).filter (Frame.sendsOn id)).flatMap Frame.items

end Endpoint

namespace Pair

variable {limits : Bool → Limits} {p : Pair} {log : List (Bool × Event)} {side : Bool}

/-- Whoever has accepted a graceful close has accepted every frame with stream data that its peer emitted. -/
theorem accepted_all (h : (machine limits).Reach p log) {f : Frame} (hf : f ∈ accepted (sideLog side log))
    (hfare : f.isFarewell = true) (id : Nat) :
    (accepted (sideLog side log)).filter (Frame.sendsOn id) =
      (emitted (sideLog (!side) log)).filter (Frame.sendsOn id) := by
  have hle := accepted_le_emitted h side
  have hparting := Sender.reach_parting (Endpoint.reach_sender (reach_endpoint h (!side)))
  obtain ⟨pre, g, post, hlast, hg, hpre, hpost⟩ := (hparting.after ⟨f, hle.subset hf, hfare⟩).last
  -- the accepted frames do not end before the close
  have hlong : pre <+: accepted (sideLog side log) := by
    have hpre' : pre <+: emitted (sideLog (!side) log) := hlast ▸ List.prefix_append _ _
    rcases List.prefix_or_prefix_of_prefix hpre' hle with hp | hp
    · exact hp
    · rw [hpre f (hp.subset hf)] at hfare
      cases hfare
  obtain ⟨mid, hmid⟩ := hlong
  obtain ⟨rest, hrest⟩ := hle
  have hsplit : mid ++ rest = g :: post := by
    rw [hlast, ← hmid, List.append_assoc] at hrest
    exact List.append_cancel_left hrest
  have hnone : ∀ x ∈ rest, x.sendsOn id = false := by
    intro x hx
    have hx : x ∈ g :: post := hsplit ▸ List.mem_append_right mid hx
    rcases List.mem_cons.mp hx with rfl | hx
    · exact Frame.not_sendsOn_of_farewell hg id
    · exact hpost x hx id
  have hfilter : rest.filter (Frame.sendsOn id) = [] := List.filter_eq_nil_iff.mpr fun x hx => by simp [hnone x hx]
  rw [← hrest, List.filter_append, hfilter, List.append_nil]

/-- If a direction that was not reset has arrived as it was queued, what was handed over and what is still held make up
all its bytes. -/
theorem handed_of_items (h : (machine limits).Reach p log) (side : Bool) (id : Nat)
    (hreset : ((p.ep (!side)).shared.send id).resetQueued = false)
    (hitems : Endpoint.acceptedItems id (sideLog side log) = Endpoint.queuedItems id (sideLog (!side) log))
    (hheld : (p.ep side).receiver.holder id ≠ .gone) :
    handedOn id (sideLog side log) ++ ((p.ep side).shared.inbox.dir id).content =
      queuedOn id (sideLog (!side) log) := by
  have hside := Receiver.reach_side (Endpoint.reach_receiver (reach_endpoint h side)) id
  have hdir := Sender.reach_direction (Endpoint.reach_sender (reach_endpoint h (!side))) id
  have herror : ((p.ep side).shared.inbox.dir id).inbound.resetError = none := by
    by_contra he
    obtain ⟨streamId, code, hmem⟩ := RecvSide.reach_reset hside he
    have hqueued := SendDir.reach_reset hdir ((tooks_le_outs h side id).subset hmem)
    exact absurd (hreset.symm.trans hqueued) (by simp)
  have hcontent := (RecvSide.reach_inv hside).content_eq hheld herror
  rw [handedBytes_inEvents, Receiver.tooks_inEvents] at hcontent
  rw [← chunkBytes_dirEvents, ← chunkItems_bytes]
  change _ = (Endpoint.queuedItems id (sideLog (!side) log)).reduceOption
  rw [← hitems, Endpoint.acceptedItems, frameItems_bytes]
  exact hcontent

/-- A graceful close loses nothing. Whoever has accepted CONNECTION_CLOSE with code zero has accepted, on every
stream its peer has not reset, each byte and FIN that the peer has queued; as long as the application holds the
`RecvStream`, what has not been handed to it is still kept for it. -/
theorem graceful_close_complete (limits : Bool → Limits) (p : Pair) (log : List (Bool × Event))
    (h : (machine limits).Reach p log) (side : Bool) (code : ErrorCode) (reason : String)
    (hclose : .accepted (.connectionClose code reason) ∈ sideLog side log) (hcode : code.intoInner = 0) (id : Nat)
    (hreset : ((p.ep (!side)).shared.send id).resetQueued = false) :
    Endpoint.acceptedItems id (sideLog side log) = Endpoint.queuedItems id (sideLog (!side) log) ∧
      ((p.ep side).receiver.holder id = .held →
        handedOn id (sideLog side log) ++ ((p.ep side).shared.inbox.dir id).content =
          queuedOn id (sideLog (!side) log)) := by
  have hf : .connectionClose code reason ∈ accepted (sideLog side log) := List.mem_filterMap.mpr ⟨_, hclose, rfl⟩
  have hfare : (Frame.connectionClose code reason).isFarewell = true := beq_iff_eq.mpr hcode
  have hall := accepted_all h hf hfare id
  have hsender := Endpoint.reach_sender (reach_endpoint h (!side))
  have hitems := ((Sender.reach_parting hsender).after
    ⟨_, (accepted_le_emitted h side).subset hf, hfare⟩).items id hreset
  have hitems' : Endpoint.acceptedItems id (sideLog side log) = Endpoint.queuedItems id (sideLog (!side) log) := by
    rw [hitems, Endpoint.acceptedItems, Endpoint.emittedItems, hall]
  refine ⟨hitems', fun hheld => handed_of_items h side id hreset hitems' ?_⟩
  rw [hheld]
  exact Holder.noConfusion

/-- The client opens stream 0. -/
def openAtOnce : List Move :=
  [.act false (.nextFrame []), .act false .send, .deliver true, .act true .openStart, .act true .openFinish]

/-- The client closes and its writer sends everything; the server takes it in and reads one byte. -/
def closeAndRead : List Move :=
  [.act true (.close "done"), .act true (.nextFrame [0]), .act true .send, .act true (.nextFrame [0]),
    .act true .send, .act true (.nextFrame [0]), .act true .send, .act true (.nextFrame [0]), .act true .send,
    .deliver false, .deliver false, .act false .accept, .deliver false, .act false (.pollRead 0 1), .deliver false]

/-- The client writes three bytes and closes; the server takes in everything and has read one byte. -/
theorem graceful_close_complete_unread :
    ∃ p log, (machine fun _ => Endpoint.smallLimits).Reach p log ∧
      .accepted (.connectionClose ⟨.expect 0⟩ "done") ∈ sideLog false log ∧
      handedOn 0 (sideLog false log) = [1] ∧ queuedOn 0 (sideLog true log) = [1, 2, 3] ∧
      handedOn 0 (sideLog false log) ++ ((p.ep false).shared.inbox.dir 0).content = queuedOn 0 (sideLog true log) := by
  have hrun : ((connect fun _ => Endpoint.smallLimits).toOption.bind fun p₀ =>
      (Machine.runList step p₀
        (openAtOnce ++ (Endpoint.writeActs 0 [1, 2, 3]).map (Move.act true) ++ closeAndRead)).map fun r =>
        (decide (.accepted (.connectionClose ⟨.expect 0⟩ "done") ∈ sideLog false r.2),
          handedOn 0 (sideLog false r.2), queuedOn 0 (sideLog true r.2),
          ((r.1.ep true).shared.send 0).resetQueued, (r.1.ep false).receiver.holder 0)) =
      some (true, [1], [1, 2, 3], false, .held) := by
    decide +kernel
  obtain ⟨p₀, hconnect, hrun⟩ := Option.bind_eq_some_iff.mp hrun
  obtain ⟨⟨p, log⟩, hrun, heq⟩ := Option.map_eq_some_iff.mp hrun
  simp only [Prod.mk.injEq, decide_eq_true_eq] at heq
  obtain ⟨hclose, hhanded, hqueued, hreset, hholder⟩ := heq
  have hr := Machine.Reach.of_run (connect (fun _ => Endpoint.smallLimits) = .ok ·) (ok_of_toOption hconnect) _ hrun
  obtain ⟨-, hheld⟩ := graceful_close_complete _ p log hr false _ _ hclose (by decide) 0 hreset
  exact ⟨p, log, hr, hclose, hhanded, hqueued, hheld hholder⟩

end Pair
end Muxtls
