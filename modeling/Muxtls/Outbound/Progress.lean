import Muxtls.Outbound.Budget
import Muxtls.Receiver.Budget

namespace Muxtls

/-- How many awaits of `queue_stream_chunk` are behind a write. -/
def WriteStage.rank : WriteStage → Nat
  | locked => 0
  | streamFrame => 1
  | streamBytes => 2
  | frame => 3
  | connBytes => 4
  | enqueued => 5

theorem WriteStage.rank_le (stage : WriteStage) : stage.rank ≤ 5 := by
  cases stage <;> decide

theorem Semaphore.tryAcquire_isSome (s : Semaphore) (n : Nat) (hc : s.closed = false) (hn : n ≤ s.permits) :
    (s.tryAcquire n).isSome = true := by
  rw [tryAcquire, if_pos ⟨hc, hn⟩]
  rfl

/-- The connection's permits are acquired at the last two awaits. -/
theorem Charge.ofWrite_frames (w : PendingWrite) (h : w.stage.rank < 3) : (ofWrite w).frames = 0 := by
  obtain ⟨payload, fin, stage⟩ := w
  cases stage <;> simp_all [ofWrite, WriteStage.rank]

theorem Charge.ofWrite_connBytes (w : PendingWrite) (h : w.stage.rank < 4) : (ofWrite w).connBytes = 0 := by
  obtain ⟨payload, fin, stage⟩ := w
  cases stage <;> simp_all [ofWrite, WriteStage.rank]

namespace Shared

variable {l : Limits} {s : Shared} {id : Nat} {w : PendingWrite}

theorem acquireStage_isSome (stage : WriteStage) (sem : Semaphore) (n : Nat) (set : Semaphore → OutboundBudget)
    (h : sem.closed = true ∨ n ≤ sem.permits) : (s.acquireStage id w stage sem n set).isSome = true := by
  unfold acquireStage
  cases hc : sem.closed with
  | true => rfl
  | false =>
    have hn : n ≤ sem.permits := h.resolve_left (by rw [hc]; simp)
    simpa using sem.tryAcquire_isSome n hc hn

/-- Nothing of the stream is queued: the permits that are out are those of its write. -/
theorem Balanced.stream_left (h : s.Balanced l) (hid : s.ids.Opened id) (hq : s.queues.chunksOf id = []) :
    (s.budget.streamBytes id).permits + (Charge.ofPending (s.send id).pending).streamBytes =
      l.maxOutboundStreamBytes ∧
      (s.budget.streamFrames id).permits + (Charge.ofPending (s.send id).pending).streamFrames =
        l.maxQueuedOutboundFrames / l.maxOpenStreams := by
  have hcharge : s.sender.charge id = .ofPending (s.send id).pending := by
    change (Charge.ofChunks (s.queues.chunksOf id)).add (.ofPending (s.send id).pending) = _
    rw [hq]
    exact Charge.zero_add _
  have hbytes := h.streamBytes id hid
  have hframes := h.streamFrames id hid
  rw [hcharge] at hbytes hframes
  exact ⟨hbytes, hframes⟩

/-- Nothing is queued and no write has come so far: none of the permits is charged. -/
theorem sum_charge_zero (hq : ∀ j, s.queues.chunksOf j = []) (n : Nat) (part : Charge → Nat) (hzero : part {} = 0)
    (hw : ∀ j w, (s.send j).pending = some w → part (.ofWrite w) = 0) :
    ∑ j ∈ Finset.range n, part (s.sender.charge j) = 0 := by
  refine Finset.sum_eq_zero fun j _ => ?_
  have hcharge : s.sender.charge j = .ofPending (s.send j).pending := by
    change (Charge.ofChunks (s.queues.chunksOf j)).add _ = _
    rw [hq j]
    exact Charge.zero_add _
  rw [hcharge]
  cases hp : (s.send j).pending with
  | none => exact hzero
  | some w => exact hw j w hp

end Shared

namespace Endpoint

variable {l : Limits} {isClient : Bool} {e : Endpoint} {log : List Event} {id : Nat} {w : PendingWrite}

/-- The write call of the stream can take its next step. -/
def canWrite (e : Endpoint) (id : Nat) : Bool :=
  (e.step (.acquire id)).isSome || (e.step (.enqueue id)).isSome || (e.step (.finish id)).isSome

theorem canWrite_of_acquire (h : (e.shared.acquireWrite id).isSome = true) : e.canWrite id = true := by
  simp [canWrite, step, h]

/-- A write with all its permits is enqueued, or fails. -/
theorem canWrite_of_rank (hw : (e.shared.send id).pending = some w) (h : 4 ≤ w.stage.rank) :
    e.canWrite id = true := by
  obtain ⟨payload, fin, stage⟩ := w
  cases stage with
  | connBytes =>
    have henqueue : (e.step (.enqueue id)).isSome = true := by
      simp only [step, Shared.enqueueWrite, hw]
      simp only [ne_eq, not_true_eq_false, if_false]
      rcases (e.shared.setPending id none).enqueueData id
        (Shared.heldChunk id ⟨payload, fin, .connBytes⟩) with ⟨s, _ | _⟩ <;> split_ifs <;> rfl
    simp [canWrite, henqueue]
  | enqueued =>
    have hfinish : (e.step (.finish id)).isSome = true := by
      simp [step, Shared.finishWrite, hw]
    simp [canWrite, hfinish]
  | _ => simp [WriteStage.rank] at h

/-- With its next permit at hand, or its budget closed, a write goes on. -/
theorem canWrite_of_permit (hw : (e.shared.send id).pending = some w)
    (hframe : w.stage = .locked →
      (e.shared.budget.streamFrames id).closed = true ∨ 1 ≤ (e.shared.budget.streamFrames id).permits)
    (hbytes : w.stage = .streamFrame → (e.shared.budget.streamBytes id).closed = true ∨
      w.payload.length % 2 ^ 32 ≤ (e.shared.budget.streamBytes id).permits)
    (hframes : w.stage = .streamBytes →
      e.shared.budget.frames.closed = true ∨ 1 ≤ e.shared.budget.frames.permits)
    (hconn : w.stage = .frame → e.shared.budget.connBytes.closed = true ∨
      w.payload.length % 2 ^ 32 ≤ e.shared.budget.connBytes.permits) : e.canWrite id = true := by
  by_cases hrank : 4 ≤ w.stage.rank
  · exact canWrite_of_rank hw hrank
  apply canWrite_of_acquire
  unfold Shared.acquireWrite
  rw [hw]
  obtain ⟨payload, fin, stage⟩ := w
  cases stage with
  | locked => exact Shared.acquireStage_isSome _ _ _ _ (hframe rfl)
  | streamFrame =>
    simp only
    split_ifs
    · rfl
    · exact Shared.acquireStage_isSome _ _ _ _ (hbytes rfl)
  | streamBytes => exact Shared.acquireStage_isSome _ _ _ _ (hframes rfl)
  | frame =>
    simp only
    split_ifs
    · rfl
    · exact Shared.acquireStage_isSome _ _ _ _ (hconn rfl)
  | connBytes => exact absurd (Nat.le_refl 4) hrank
  | enqueued => exact absurd (by decide : 4 ≤ WriteStage.rank .enqueued) hrank

/-- Nothing of the stream is queued: its write waits for a permit of the connection at most. -/
theorem canWrite_of_connection (h : (machine l isClient).Reach e log) (hq : e.shared.queues.chunksOf id = [])
    (hw : (e.shared.send id).pending = some w)
    (hframes : w.stage = .streamBytes →
      e.shared.budget.frames.closed = true ∨ 1 ≤ e.shared.budget.frames.permits)
    (hconn : w.stage = .frame → e.shared.budget.connBytes.closed = true ∨
      w.payload.length % 2 ^ 32 ≤ e.shared.budget.connBytes.permits) : e.canWrite id = true := by
  have hlimits := reach_valid h
  obtain ⟨hid, hfits⟩ := ((Sender.reach_wf (reach_sender h)).pending id w hw)
  obtain ⟨hbytes, hframe⟩ := (reach_balanced h).stream_left hid hq
  rw [hw] at hbytes hframe
  have hmod : w.payload.length % 2 ^ 32 ≤ l.maxOutboundStreamBytes := le_trans (Nat.mod_le _ _) hfits.budget
  refine canWrite_of_permit hw ?_ ?_ hframes hconn
  · intro hstage
    have hquota := Nat.div_pos hlimits.streams.2 hlimits.streams.1
    simp only [Charge.ofPending, Charge.ofWrite, hstage] at hframe
    exact .inr (by omega)
  · intro hstage
    simp only [Charge.ofPending, Charge.ofWrite, hstage] at hbytes
    exact .inr (by omega)

/-- Nothing is queued and no write is further along: the next permit of the write is free. -/
theorem canWrite_of_first (h : (machine l isClient).Reach e log) (hq : ∀ j, e.shared.queues.chunksOf j = [])
    (hw : (e.shared.send id).pending = some w)
    (hmax : ∀ j w', (e.shared.send j).pending = some w' → w'.stage.rank ≤ w.stage.rank) :
    e.canWrite id = true := by
  have hbal := reach_balanced h
  have hlimits := reach_valid h
  obtain ⟨-, hfits⟩ := ((Sender.reach_wf (reach_sender h)).pending id w hw)
  have hmod : w.payload.length % 2 ^ 32 ≤ l.maxOutboundStreamBytes := le_trans (Nat.mod_le _ _) hfits.budget
  refine canWrite_of_connection h (hq id) hw ?_ ?_
  · intro hstage
    rw [hstage] at hmax
    have hfree := Shared.sum_charge_zero hq e.shared.ids.bound Charge.frames rfl fun j w' hw' =>
      Charge.ofWrite_frames w' (Nat.lt_succ_of_le (hmax j w' hw'))
    have hall := hbal.frames
    have hstreams := hlimits.streams
    exact .inr (by omega)
  · intro hstage
    rw [hstage] at hmax
    have hfree := Shared.sum_charge_zero hq e.shared.ids.bound Charge.connBytes rfl fun j w' hw' =>
      Charge.ofWrite_connBytes w' (Nat.lt_succ_of_le (hmax j w' hw'))
    have hall := hbal.connBytes
    have hbytes := hlimits.outbound
    exact .inr (by omega)

/-- Nothing is queued: a write that is at least as far along can go on. -/
theorem canWrite_ahead (h : (machine l isClient).Reach e log) (hq : ∀ j, e.shared.queues.chunksOf j = []) (n : Nat) :
    ∀ id w, (e.shared.send id).pending = some w → 5 - w.stage.rank ≤ n →
      ∃ j w', (e.shared.send j).pending = some w' ∧ w.stage.rank ≤ w'.stage.rank ∧ e.canWrite j = true := by
  -- By induction on the awaits that are left: either no write is further along, or one with fewer left is.
  induction n with
  | zero =>
    intro id w hw hn
    refine ⟨id, w, hw, le_rfl, canWrite_of_rank hw ?_⟩
    omega
  | succ n ih =>
    intro id w hw hn
    by_cases hmax : ∀ j w', (e.shared.send j).pending = some w' → w'.stage.rank ≤ w.stage.rank
    · exact ⟨id, w, hw, le_rfl, canWrite_of_first h hq hw hmax⟩
    · push Not at hmax
      obtain ⟨j, w', hw', hlt⟩ := hmax
      have hleft : 5 - w'.stage.rank ≤ n := by
        have := w'.stage.rank_le
        omega
      obtain ⟨k, w'', hw'', hle, hcan⟩ := ih j w' hw' hleft
      exact ⟨k, w'', hw'', le_trans hlt.le hle, hcan⟩

/-- Writes do not deadlock on each other's outbound permits: while one is pending, a chunk is queued or a pending
write that is at least as far along can go on. -/
theorem no_permit_deadlock (h : (machine l isClient).Reach e log) (hw : (e.shared.send id).pending = some w) :
    (∃ j, e.shared.queues.chunksOf j ≠ []) ∨
      ∃ j w', (e.shared.send j).pending = some w' ∧ w.stage.rank ≤ w'.stage.rank ∧ e.canWrite j = true := by
  by_cases hq : ∃ j, e.shared.queues.chunksOf j ≠ []
  · exact .inl hq
  · refine .inr (canWrite_ahead h ?_ _ id w hw le_rfl)
    intro j
    by_contra hj
    exact hq ⟨j, hj⟩

/-- The outbound budget of the connection is two bytes, held by the write of the first stream; the write of the second
one waits for them. -/
theorem no_permit_deadlock_two_writes :
    ∃ l e log, (machine l true).Reach e log ∧ e.canWrite 2 = false ∧ e.shared.queues.ready = [] ∧
      ((∃ j, e.shared.queues.chunksOf j ≠ []) ∨
        ∃ j w', (e.shared.send j).pending = some w' ∧ 3 ≤ w'.stage.rank ∧ e.canWrite j = true) := by
  let l : Limits := { smallLimits with maxOutboundConnectionBytes := 2, maxOutboundStreamBytes := 2 }
  have hrun : (Machine.runList step { shared := .new l true }
      [.openStart, .openFinish, .openStart, .openFinish, .write 1 0 [1, 2] false, .acquire 0, .acquire 0, .acquire 0,
        .acquire 0, .write 1 2 [3, 4] false, .acquire 2, .acquire 2, .acquire 2]).map (fun r =>
        (r.1.canWrite 2, r.1.shared.queues.ready, (r.1.shared.send 2).pending)) =
      some (false, [], some ⟨[3, 4], false, .frame⟩) := by decide +kernel
  obtain ⟨⟨e, log⟩, hpre, heq⟩ := Option.map_eq_some_iff.mp hrun
  simp only [Prod.mk.injEq] at heq
  obtain ⟨hcan, hready, hw⟩ := heq
  have h0 : connect l true = .ok { shared := .new l true } := rfl
  have hr := Machine.Reach.of_run (connect l true = .ok ·) h0 _ hpre
  exact ⟨l, e, log, hr, hcan, hready, no_permit_deadlock hr hw⟩

end Endpoint
end Muxtls
