import Muxtls.Connection.Log
import Muxtls.Sender.Reach

namespace Muxtls

/-- The stream the data pass of `next_frame` would take from. -/
def Shared.firstReady (s : Shared) : Option Nat :=
  s.queues.ready.find? fun id =>
    match s.queues.chunksOf id with
    | [] => false
    | chunk :: _ => s.queues.eligible (s.send id) chunk

/-- `next_frame` would skip the control queue and send data of a stream whose OPEN_STREAM is still
in that queue. -/
def Shared.overtakes (s : Shared) : Bool :=
  !(s.queues.closing && !s.queues.gracefulClose) && !s.queues.controlTurn && !s.queues.urgent &&
    match s.firstReady with
    | none => false
    | some id => decide (.openStream (.expect id) ∈ s.queues.control)

namespace Endpoint

/-- No `next_frame` turn starts in a state where data would overtake its OPEN_STREAM. -/
def keepsOrder (e : Endpoint) : Act → Bool
  | .nextFrame _ => !e.shared.overtakes
  | _ => true

/-- The runs of one endpoint whose `next_frame` turns all start in such states. -/
def orderedMachine (limits : Limits) (isClient : Bool) : Machine Endpoint Event :=
  .ofStep (fun e => connect limits isClient = .ok e) (Machine.guardStep keepsOrder step)

variable {l : Limits} {isClient : Bool} {e e' : Endpoint} {log evs : List Event}

/-- Room for two streams and eight control frames. -/
def smallLimits : Limits := { maxOpenStreams := 2, maxControlFrames := 8 }

/-- The first stream that is not skipped is the one `firstReady` finds. -/
theorem firstReady_eq (s : Shared) (id : Nat) (chunk : OutboundChunk) (rest : List OutboundChunk)
    (skipped later : List Nat) (hready : s.queues.ready = skipped ++ id :: later)
    (hskip : ∀ j ∈ skipped, ∀ c ∈ (s.queues.chunksOf j).head?, s.queues.eligible (s.send j) c = false)
    (hchunk : s.queues.chunksOf id = chunk :: rest) (hel : s.queues.eligible (s.send id) chunk = true) :
    s.firstReady = some id := by
  unfold Shared.firstReady
  rw [List.find?_eq_some_iff_append]
  refine ⟨by rw [hchunk]; exact hel, skipped, later, hready, ?_⟩
  intro j hj
  have hs := hskip j hj
  cases hc : s.queues.chunksOf j with
  | nil => rfl
  | cons c cs =>
    rw [hc] at hs
    simp [hs c rfl]

theorem reach_parity (h : (machine l isClient).Reach e log) :
    e.shared.localParity = if isClient then 0 else 1 := by
  have hs := (reach_sender h).invariant (fun v _ => v.ids.parity = if isClient then 0 else 1)
    (fun v (hi : v = _) => hi ▸ rfl) ?_
  · exact hs
  · intro v tr evs v' _ hp hs
    cases hs <;> exact hp

/-- In a state that does not let data overtake, the data pass takes from a stream whose OPEN_STREAM has
left the control queue. -/
theorem open_taken (s : Shared) (ho : s.overtakes = false) (id : Nat) (chunk : OutboundChunk)
    (rest : List OutboundChunk) (skipped later : List Nat) (hcut : s.sender.cut = false)
    (hturn : s.queues.control = [] ∨ s.queues.controlTurn = false ∧ s.queues.urgent = false)
    (hready : s.queues.ready = skipped ++ id :: later)
    (hskip : ∀ j ∈ skipped, ∀ c ∈ (s.queues.chunksOf j).head?, s.queues.eligible (s.send j) c = false)
    (hchunk : s.queues.chunksOf id = chunk :: rest) (hel : s.queues.eligible (s.send id) chunk = true) :
    .openStream (.expect id) ∉ s.queues.control := by
  intro hm
  rcases hturn with hc | ⟨ht, hu⟩
  · rw [hc] at hm
    cases hm
  · have hcut' : (s.queues.closing && !s.queues.gracefulClose) = false := hcut
    unfold Shared.overtakes at ho
    rw [hcut', ht, hu, firstReady_eq s id chunk rest skipped later hready hskip hchunk hel] at ho
    simp [hm] at ho

/-- In every run whose `next_frame` turns start where no data would overtake its OPEN_STREAM, each
frame of a local stream comes after that stream's OPEN_STREAM. -/
theorem open_precedes_use (l : Limits) (isClient : Bool) (e : Endpoint) (log : List Event)
    (h : (orderedMachine l isClient).Reach e log) : OpensFirst (if isClient then 0 else 1) (emitted log) := by
  refine h.invariant (fun _ log => OpensFirst (if isClient then 0 else 1) (emitted log)) ?_ ?_
  · intro e _ before f after he
    simp [emitted] at he
  · rintro e tr evs e' hr hfirst ⟨a, ha⟩
    obtain ⟨hok, ha⟩ := Machine.guardStep_eq_some.mp ha
    have hr := hr.of_guard
    by_cases hn : ∃ order, a = .nextFrame order
    · obtain ⟨order, rfl⟩ := hn
      have hs := reach_sender hr
      have hv := Sender.reach_wf hs
      have hpar : e.shared.sender.ids.parity = if isClient then 0 else 1 := reach_parity hr
      have hstep := reach_sendStep hr _ ha
      have hover : e.shared.overtakes = false := by simpa [keepsOrder] using hok
      rw [← hpar] at hfirst ⊢
      exact Sender.opensFirst_step hv (Sender.reach_ordered hs) hfirst hstep
        fun id chunk rest skipped later => open_taken e.shared hover id chunk rest skipped later
    · have hnone := emitted_of_step a ha fun order ho => hn ⟨order, ho⟩
      simp only [emitted_append, hnone, List.append_nil]
      exact hfirst

/-- The frames of a run in which stream 0 is opened and reset, and stream 2 opened and written to. -/
def twoStreams : List Frame :=
  [settingsFrame smallLimits, .openStream (.expect 0), .resetStream (.expect 0) ⟨.expect 7⟩,
    .openStream (.expect 2), .stream (.expect 2) false [1]]

/-- The writer takes RESET_STREAM(0) and OPEN_STREAM(2) before stream 2 has data, so both streams are
opened before they are used. -/
theorem open_precedes_use_first :
    ∃ e log, (orderedMachine smallLimits true).Reach e log ∧ emitted log = twoStreams ∧
      OpensFirst 0 (emitted log) := by
  have hrun : (Machine.runList (Machine.guardStep keepsOrder step) { shared := .new smallLimits true }
      [.openStart, .openFinish, .nextFrame [0], .send, .nextFrame [0], .send,
        .receive (settingsFrame smallLimits).wire, .reset 0 7, .openStart, .openFinish, .nextFrame [0, 2],
        .nextFrame [0, 2], .send, .work .writer, .work .writer, .nextFrame [0, 2], .send, .write 1 2 [1] false,
        .acquire 2, .acquire 2, .acquire 2, .acquire 2, .enqueue 2, .nextFrame [0, 2]]).map (fun r => emitted r.2) =
      some twoStreams := by decide
  have h0 : connect smallLimits true = .ok { shared := .new smallLimits true } := rfl
  obtain ⟨e, log, hr, hlog⟩ := Machine.runList_reach (connect smallLimits true = .ok ·) h0 _ _ hrun
  exact ⟨e, log, hr, hlog, open_precedes_use smallLimits true e log hr⟩

/-- SETTINGS and OPEN_STREAM(0) have been sent, so it is the turn of the data. Stream 0 is reset, and
stream 2 is opened and written to: its OPEN_STREAM stands behind the reset, and its data goes first. -/
theorem data_overtakes_open :
    ∃ e log, (machine smallLimits true).Reach e log ∧ ¬ OpensFirst 0 (emitted log) := by
  have hrun : (Machine.runList step { shared := .new smallLimits true }
      [.openStart, .openFinish, .nextFrame [0], .send, .nextFrame [0], .send,
        .receive (settingsFrame smallLimits).wire, .reset 0 7, .openStart, .openFinish, .write 1 2 [1] false,
        .acquire 2, .acquire 2, .acquire 2, .acquire 2, .enqueue 2, .nextFrame [0, 2]]).map
        (fun r => emitted r.2) =
      some [settingsFrame smallLimits, .openStream (.expect 0), .stream (.expect 2) false [1]] := by decide
  have h0 : connect smallLimits true = .ok { shared := .new smallLimits true } := rfl
  obtain ⟨e, log, hr, hlog⟩ := Machine.runList_reach (connect smallLimits true = .ok ·) h0 _ _ hrun
  refine ⟨e, log, hr, fun hfirst => ?_⟩
  have hm := hfirst [settingsFrame smallLimits, .openStream (.expect 0)] (.stream (.expect 2) false [1]) [] hlog
    (.expect 2) (by decide) (by decide)
  revert hm
  decide

end Endpoint
end Muxtls
