import Muxtls.Schedule.Turn
import Muxtls.Schedule.Passive
import Muxtls.Connection.Reason
import Muxtls.Sender.OpenFirst

namespace Muxtls

/-- `a - b` on an unsigned type; `none` is an underflow. -/
def checkedSub (a b : Nat) : Option Nat := if b ≤ a then some (a - b) else none

/-- `a + b` on `u64`; `none` is an overflow. -/
def checkedAdd (a b : Nat) : Option Nat := if a + b < 2 ^ 64 then some (a + b) else none

namespace WriterQueues

/-- The representation invariant of the two structures that hold queued data. -/
structure Consistent (q : WriterQueues) : Prop where
  ready_perm : q.ready.Perm q.byStream.keys
  nonempty : ∀ id chunks, q.byStream.lookup id = some chunks → chunks ≠ []
  fin_last : ∀ id chunks, q.byStream.lookup id = some chunks → ∀ c ∈ chunks.dropLast, c.fin = false
  frame_limit : 25 ≤ q.peerMaxFrame ∧ q.peerMaxFrame ≤ 2 ^ 32 - 1

/-- The arithmetic of the data pass on a head chunk as the source writes it: the count, and the two
totals with it. `none` is an underflow, an overflow or a failed `expect`. -/
def checkedTake (q : WriterQueues) (st : SendState) (chunk : OutboundChunk) : Option (Nat × Nat × Nat) := do
  let room ← checkedSub q.peerMaxFrame 2
  let capacity ← checkedSub room chunk.streamId.encodedLen
  let header ← (VarInt.fromU64 capacity).toOption
  let fits ← checkedSub capacity header.encodedLen
  let count := min chunk.payload.length (min (min q.connCredit (q.streamCredit st)) fits)
  let streamSent ← checkedAdd st.sent count
  let sent ← checkedAdd q.sent count
  return (count, streamSent, sent)

theorem checkedTake_eq (q : WriterQueues) (st : SendState) (chunk : OutboundChunk)
    (hmin : minFrameSize ≤ q.peerMaxFrame) (hmax : q.peerMaxFrame ≤ u32Max)
    (hst : st.sent + q.takeCount st chunk < 2 ^ 64) (hq : q.sent + q.takeCount st chunk < 2 ^ 64) :
    q.checkedTake st chunk =
      some (q.takeCount st chunk, st.sent + q.takeCount st chunk, q.sent + q.takeCount st chunk) := by
  have h8 := chunk.streamId.encodedLen_le
  have hcap : q.peerMaxFrame - 2 - chunk.streamId.encodedLen ≤ varIntMax := by
    unfold u32Max at hmax
    unfold varIntMax
    omega
  have hhead := (VarInt.expect (q.peerMaxFrame - 2 - chunk.streamId.encodedLen)).encodedLen_le
  have hexp : VarInt.fromU64 (q.peerMaxFrame - 2 - chunk.streamId.encodedLen) =
      .ok (VarInt.expect (q.peerMaxFrame - 2 - chunk.streamId.encodedLen)) := by
    rw [VarInt.fromU64_ok_iff, VarInt.expect_intoInner _ hcap]
  unfold minFrameSize at hmin
  simp only [takeCount] at hst hq ⊢
  unfold checkedTake checkedSub checkedAdd
  rw [if_pos (by omega)]
  simp only [Option.bind_eq_bind, Option.bind_some]
  rw [if_pos (by omega)]
  simp only [Option.bind_some, hexp, Except.toOption]
  rw [if_pos (by omega)]
  simp only [Option.bind_some]
  rw [if_pos hst]
  simp only [Option.bind_some]
  rw [if_pos hq]
  rfl

theorem WF.ready_perm {q : WriterQueues} (h : q.WF) : q.ready.Perm q.byStream.keys := by
  rw [List.perm_ext_iff_of_nodup h.ready_nodup q.byStream.keys_nodup]
  intro id
  rw [h.ready_iff, ← AList.mem_keys, ← AList.lookup_isSome, chunksOf]
  have hne := h.nonempty id
  cases hl : q.byStream.lookup id with
  | none => simp
  | some chunks =>
    rw [hl] at hne
    simpa using hne

end WriterQueues

namespace Shared

/-- `dataPass` with the streams it takes off the front of the ready list to look at. -/
def dataPassVisits (s : Shared) : Nat → (Shared × Option Turn) × List Nat
  | 0 => ((s, none), [])
  | n + 1 =>
    match s.queues.ready with
    | [] => ((s, some (.panicked "ready stream")), [])
    | id :: ready =>
      match s.queues.byStream.lookup id with
      | none => (({ s with queues := { s.queues with ready } }, some (.panicked "ready queue")), [id])
      | some [] => (({ s with queues := { s.queues with ready } }, some (.panicked "nonempty queue")), [id])
      | some (chunk :: rest) =>
        if s.queues.eligible (s.send id) chunk then
          let (s, f) := s.dispatch id chunk rest ready
          ((s, some (.frame f)), [id])
        else
          let (r, visits) := dataPassVisits { s with queues := { s.queues with ready := ready ++ [id] } } n
          (r, id :: visits)

theorem dataPassVisits_fst (s : Shared) (n : Nat) : (s.dataPassVisits n).1 = s.dataPass n := by
  induction n generalizing s with
  | zero => rfl
  | succ n ih =>
    unfold dataPassVisits dataPass
    cases s.queues.ready with
    | nil => rfl
    | cons id ready =>
      cases hl : s.queues.byStream.lookup id with
      | none => simp [hl]
      | some chunks =>
        cases chunks with
        | nil => simp [hl]
        | cons chunk rest =>
          simp only [hl]
          split_ifs
          · rfl
          · exact ih _

/-- `dataTurn` with the streams it looks at. -/
def dataTurnVisits (s : Shared) : (Shared × Turn) × List Nat :=
  match s.dataPassVisits s.queues.ready.length with
  | ((s, some turn), visits) => ((s, turn), visits)
  | ((s, none), visits) =>
    if !s.queues.controlTurn then
      (({ s with queues := { s.queues with controlTurn := true } }, .again), visits)
    else if s.queues.closing && s.queues.byStream.entries.isEmpty then (s.closeTurn, visits)
    else ((s, .wait), visits)

theorem dataTurnVisits_eq (s : Shared) :
    s.dataTurnVisits = (s.dataTurn, (s.dataPassVisits s.queues.ready.length).2) := by
  have hp := s.dataPassVisits_fst s.queues.ready.length
  unfold dataTurnVisits dataTurn
  rw [← hp]
  rcases s.dataPassVisits s.queues.ready.length with ⟨⟨s, _ | turn⟩, visits⟩
  · simp only
    split_ifs <;> rfl
  · rfl

/-- `nextFrame` with the streams it looks at. -/
def nextFrameVisits (s : Shared) (order : List Nat) : (Shared × Turn) × List Nat :=
  if s.queues.closing && !s.queues.gracefulClose then (s.closeTurn, [])
  else if s.queues.controlTurn || s.queues.urgent then
    match s.controlPass order with
    | some (s, f) => ((s, .frame f), [])
    | none => s.dataTurnVisits
  else s.dataTurnVisits

theorem nextFrameVisits_fst (s : Shared) (order : List Nat) : (s.nextFrameVisits order).1 = s.nextFrame order := by
  unfold nextFrameVisits nextFrame
  rw [dataTurnVisits_eq]
  split_ifs
  · rfl
  · cases s.controlPass order <;> rfl
  · rfl

/-- The streams one turn of `next_frame` looks at. -/
def turnVisits (s : Shared) (order : List Nat) : List Nat := (s.nextFrameVisits order).2

/-- The data pass goes through the ready list from the front. -/
theorem dataPassVisits_prefix (s : Shared) (rest skipped : List Nat) :
    ((s.withReady (rest ++ skipped)).dataPassVisits rest.length).2 <+: rest := by
  induction rest generalizing skipped with
  | nil => exact List.prefix_rfl
  | cons id rest ih =>
    have hone : [id] <+: id :: rest := ⟨rest, rfl⟩
    have hrest := ih (skipped ++ [id])
    rw [← List.append_assoc] at hrest
    simp only [List.length_cons, dataPassVisits, withReady, List.cons_append]
    split
    · exact hone
    · exact hone
    · split_ifs
      · exact hone
      · exact (List.prefix_cons_inj id).mpr hrest

theorem turnVisits_prefix (s : Shared) (order : List Nat) : s.turnVisits order <+: s.queues.ready := by
  have hself : s.withReady (s.queues.ready ++ []) = s := by simp [withReady]
  have hp := s.dataPassVisits_prefix s.queues.ready []
  rw [hself] at hp
  unfold turnVisits nextFrameVisits
  rw [dataTurnVisits_eq]
  split_ifs
  · exact List.nil_prefix
  · cases s.controlPass order with
    | none => exact hp
    | some r => exact List.nil_prefix
  · exact hp

/-- Only a turn that starts with `control_turn` unset asks for another one, and it leaves it set. -/
theorem nextFrame_again (s : Shared) (hq : s.queues.WF) (order : List Nat)
    (horder : order.Perm s.queues.receiveWindows) (h : (s.nextFrame order).2 = .again) :
    s.turnBit = false ∧ (s.nextFrame order).1.turnBit = true := by
  have ht := s.nextFrame_turns hq order horder
  generalize s.nextFrame order = r at ht h
  have hclose : s.closeTurn.2 ≠ .again := by
    unfold closeTurn
    split <;> simp
  cases ht with
  | again hcut ht hu hb => exact ⟨ht, rfl⟩
  | cut => exact absurd h hclose
  | drained => exact absurd h hclose
  | _ => cases h

end Shared

def Act.isTurn : Act → Bool
  | .nextFrame _ => true
  | _ => false

namespace Endpoint

variable {l : Limits} {isClient : Bool} {e e' : Endpoint} {log evs : List Event}

/-- What the other tasks and the application do between two turns of `next_frame`. -/
def othersMachine (limits : Limits) (isClient : Bool) : Machine Endpoint Event :=
  .ofStep (fun e => connect limits isClient = .ok e) (Machine.guardStep (fun _ a => !a.isTurn) step)

theorem reach_queues_wf (h : (machine l isClient).Reach e log) : e.shared.queues.WF :=
  (Sender.reach_wf (reach_sender h)).queues

theorem others_turnBit (hr : (machine l isClient).Reach e log) (h : (othersMachine l isClient).Steps e evs e') :
    e'.shared.turnBit = e.shared.turnBit := by
  refine h.invariant (N := machine l isClient) Machine.guardStep_sub hr
    (fun e' _ => e'.shared.turnBit = e.shared.turnBit) rfl ?_
  rintro e₁ tr evs e₂ - hb ⟨a, ha⟩
  obtain ⟨hok, ha⟩ := Machine.guardStep_eq_some.mp ha
  have hother : ∀ order, a ≠ .nextFrame order := by
    rintro order rfl
    cases hok
  exact (passive_of_step a ha hother).1.turn.trans hb

/-- A reachable sender has counted no more than its peer granted, so its totals stay in range. -/
theorem reach_totals (h : (machine l isClient).Reach e log) (id : Nat) (chunk : OutboundChunk) :
    (e.shared.send id).sent + e.shared.queues.takeCount (e.shared.send id) chunk < 2 ^ 64 ∧
      e.shared.queues.sent + e.shared.queues.takeCount (e.shared.send id) chunk < 2 ^ 64 := by
  have hs := reach_sender h
  have hg := Sender.reach_granted hs
  have hp := Sender.reach_spent hs
  have hconn : e.shared.queues.peerLimit ≤ varIntMax := by
    rw [show e.shared.queues.peerLimit = _ from hg.limit]
    exact (granted_le_iff _ _ _).mpr fun f _ => (f.grants_le id).1
  have hstream := hg.stream_max id
  have hsent : e.shared.queues.sent ≤ e.shared.queues.peerLimit := hp.sent_le
  have hsent' := hp.stream_le id
  obtain ⟨-, hc, hcs⟩ := Sender.takeCount_le e.shared.queues (e.shared.send id) chunk
  have hmax := ReceiveWindow.varIntMax_lt
  unfold WriterQueues.connCredit at hc
  unfold WriterQueues.streamCredit at hcs
  simp only [Shared.sender] at hstream hsent'
  omega

/-- A queued FIN is the last chunk of its stream. -/
theorem reach_fin_last (h : (machine l isClient).Reach e log) (id : Nat) :
    ∀ c ∈ (e.shared.queues.chunksOf id).dropLast, c.fin = false := by
  have hd := (SendDir.reach_inv (Sender.reach_direction (reach_sender h) id)).fin_last
  intro c hc
  apply hd (c.payload, c.fin)
  simp only [Sender.direction, ← List.map_dropLast]
  exact List.mem_map_of_mem hc

theorem reach_consistent (h : (machine l isClient).Reach e log) : e.shared.queues.Consistent where
  ready_perm := (reach_queues_wf h).ready_perm
  nonempty := by
    intro id chunks hl he
    exact (reach_queues_wf h).nonempty id (he ▸ hl)
  fin_last := by
    intro id chunks hl
    have hf := reach_fin_last h id
    rwa [WriterQueues.chunksOf, hl] at hf
  frame_limit := ⟨(reach_queues_wf h).frame_min, (reach_queues_wf h).frame_max⟩

/-- In every reachable state the ready list and the queues agree, and a turn of `next_frame` neither
panics nor leaves the range of its integers: the totals it stores are the ones the checked arithmetic gives.
A turn looks at each ready stream at most once; one that asks for another turn sets `control_turn`, nothing
else resets it, and so the next turn does not. -/
theorem writer_queues_consistent (l : Limits) (isClient : Bool) (e : Endpoint) (log : List Event)
    (h : (machine l isClient).Reach e log) :
    e.shared.queues.Consistent ∧
    (∀ id chunk chunks ready, e.shared.queues.byStream.lookup id = some (chunk :: chunks) →
      let s := (e.shared.dispatch id chunk chunks ready).1
      e.shared.queues.checkedTake (e.shared.send id) chunk =
        some (e.shared.queues.takeCount (e.shared.send id) chunk, (s.send id).sent, s.queues.sent)) ∧
    (∀ id ∈ e.shared.queues.receiveWindows, id ≤ varIntMax) ∧
    (∀ reason index, isCharBoundary reason (charBoundaryBelow reason index) = true) ∧
    ∀ order, order.Perm e.shared.queues.receiveWindows →
      (∀ message, (e.shared.nextFrame order).2 ≠ .panicked message) ∧
      e.shared.nextFrameVisits order = (e.shared.nextFrame order, e.shared.turnVisits order) ∧
      (e.shared.turnVisits order).Nodup ∧ e.shared.turnVisits order ⊆ e.shared.queues.ready ∧
      ∀ e₁ evs₁ evs₂ e₂ order', e.step (.nextFrame order) = some (e₁, evs₁) →
        (e.shared.nextFrame order).2 = .again → (othersMachine l isClient).Steps e₁ evs₂ e₂ →
        order'.Perm e₂.shared.queues.receiveWindows → (e₂.shared.nextFrame order').2 ≠ .again := by
  have hv := Sender.reach_wf (reach_sender h)
  have hq := reach_queues_wf h
  refine ⟨reach_consistent h, ?_, ?_, charBoundaryBelow_boundary, ?_⟩
  · intro id chunk chunks ready _ s
    obtain ⟨hst, hsum⟩ := reach_totals h id chunk
    have hsent : (s.send id).sent =
        (e.shared.send id).sent + e.shared.queues.takeCount (e.shared.send id) chunk := by
      simpa [s, Shared.dispatch, SendState.dispatch] using hst
    rw [hsent]
    exact WriterQueues.checkedTake_eq _ _ _ hq.frame_min hq.frame_max hst hsum
  · intro id hid
    exact (hv.opened id (hv.windows ▸ hid)).le hv.ids
  · intro order horder
    refine ⟨?_, Prod.ext (e.shared.nextFrameVisits_fst order) rfl,
      ?_, (e.shared.turnVisits_prefix order).subset, ?_⟩
    · rcases e.shared.nextFrame_step hv order fun id hid => horder.subset hid with ⟨f, hf, -⟩ | ⟨-, hno, -⟩
      · rw [hf]
        simp
      · exact hno
    · exact hq.ready_nodup.sublist (e.shared.turnVisits_prefix order).sublist
    · intro e₁ evs₁ evs₂ e₂ order' hstep hagain hothers horder' hagain'
      have hr₁ := h.step ⟨_, hstep⟩
      have hr₂ := hr₁.steps (hothers.mono Machine.guardStep_sub)
      obtain ⟨-, hset⟩ := e.shared.nextFrame_again hq order horder hagain
      obtain ⟨hunset, -⟩ := e₂.shared.nextFrame_again (reach_queues_wf hr₂) order' horder' hagain'
      obtain ⟨-, he₁, -⟩ := nextFrame_inv hstep
      rw [others_turnBit hr₁ hothers, he₁, hset] at hunset
      cases hunset

/-- Two streams have data, one of them with its FIN, and the peer's SETTINGS have not arrived: a turn looks at
both streams and sends nothing. -/
theorem writer_queues_consistent_blocked :
    ∃ e log, (machine smallLimits true).Reach e log ∧ e.shared.queues.ready = [0, 2] ∧
      (e.shared.queues.chunksOf 0).length = 2 ∧ (e.shared.queues.chunksOf 2).map (·.fin) = [true] ∧
      e.shared.turnVisits [0, 2] = [0, 2] ∧ e.shared.queues.Consistent ∧ (e.shared.turnVisits [0, 2]).Nodup := by
  have hrun : (Machine.runList step { shared := .new smallLimits true }
      [.openStart, .openFinish, .openStart, .openFinish, .write 1 0 [1] false, .acquire 0, .acquire 0, .acquire 0,
        .acquire 0, .enqueue 0, .write 1 0 [2] false, .acquire 0, .acquire 0, .acquire 0, .acquire 0,
        .enqueue 0, .write 1 2 [3] true, .acquire 2, .acquire 2, .acquire 2, .acquire 2, .enqueue 2,
        .nextFrame [0, 2], .send, .nextFrame [0, 2], .send, .nextFrame [0, 2], .send]).map (fun r =>
        (r.1.shared.queues.ready, (r.1.shared.queues.chunksOf 0).length, (r.1.shared.queues.chunksOf 2).map (·.fin),
          r.1.shared.turnVisits [0, 2], decide ([0, 2].Perm r.1.shared.queues.receiveWindows))) =
      some ([0, 2], 2, [true], [0, 2], true) := by decide
  have h0 : connect smallLimits true = .ok { shared := .new smallLimits true } := rfl
  obtain ⟨e, log, hr, heq⟩ := Machine.runList_reach (connect smallLimits true = .ok ·) h0 _ _ hrun
  simp only [Prod.mk.injEq, decide_eq_true_eq] at heq
  obtain ⟨hready, hzero, htwo, hvisits, hperm⟩ := heq
  obtain ⟨hcons, -, -, -, hturn⟩ := writer_queues_consistent smallLimits true e log hr
  exact ⟨e, log, hr, hready, hzero, htwo, hvisits, hcons, (hturn [0, 2] hperm).2.2.1⟩

end Endpoint
end Muxtls
