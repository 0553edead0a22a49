import Muxtls.Outbound.Budget
import Muxtls.Receiver.Budget
import Muxtls.Schedule.Fair

namespace Muxtls

/-- The permits of a chunk cover the bytes it still has. -/
structure OutboundChunk.Covered (c : OutboundChunk) : Prop where
  conn : c.payload.length ≤ c.connPermit.getD 0
  stream : c.payload.length ≤ c.streamPermit.getD 0

theorem Shared.heldChunk_covered {l : Limits} {id : Nat} {w : PendingWrite} (hl : l.Valid) (hw : w.Fits l id) :
    (heldChunk id w).Covered := by
  have hlt : w.payload.length < 2 ^ 32 := by
    have hb := hw.budget
    have hs := hl.outbound.2.1
    have hc := hl.outbound.2.2
    have hu : u32Max < 2 ^ 32 := by decide
    omega
  cases hp : w.payload with
  | nil => exact ⟨by simp [heldChunk, hp], by simp [heldChunk, hp]⟩
  | cons x xs =>
    have hpermit : (heldChunk id w).connPermit.getD 0 = w.payload.length ∧
        (heldChunk id w).streamPermit.getD 0 = w.payload.length := by
      have hne : w.payload ≠ [] := by simp [hp]
      simp only [heldChunk, if_neg hne, Option.getD_some, Nat.mod_eq_of_lt hlt, and_self]
    exact ⟨hpermit.1.ge, hpermit.2.ge⟩

namespace Sender

variable {l : Limits} {isClient : Bool} {v v' : Sender} {log evs : List Event}

def Covered (v : Sender) : Prop := ∀ id, ∀ c ∈ v.queues.chunksOf id, c.Covered

theorem covered_step (hl : l.Valid) (hv : v.WF l) (h : v.Covered) (hs : SendStep l v evs v') : v'.Covered := by
  cases hs with
  | enqueue id w hw =>
    intro j c hc
    have hc : c ∈ (v.queues.pushChunk id (Shared.heldChunk id w)).chunksOf j := hc
    rw [WriterQueues.chunksOf_pushChunk] at hc
    by_cases hj : j = id
    · subst hj
      rw [if_pos rfl] at hc
      rcases List.mem_append.mp hc with hc | hc
      · exact h j c hc
      · rw [List.mem_singleton.mp hc]
        exact Shared.heldChunk_covered hl (hv.pending j w hw).2
    · rw [if_neg hj] at hc
      exact h j c hc
  | reset id errorCode =>
    intro j c hc
    have hc : c ∈ (v.queues.removeStream id).chunksOf j := hc
    rw [WriterQueues.chunksOf_removeStream] at hc
    split_ifs at hc
    · cases hc
    · exact h j c hc
  | close code reason fitted =>
    intro j c hc
    have hc : c ∈ (v.queues.publishClose code fitted (code.intoInner == 0)).chunksOf j := hc
    rw [WriterQueues.chunksOf_publishClose] at hc
    split_ifs at hc
    · exact h j c hc
    · cases hc
  | shutdown =>
    intro j c hc
    cases hc
  | data id chunk rest skipped later _ _ _ _ hchunk =>
    intro j c hc
    have hc : c ∈ (v.queues.dispatch id (later ++ skipped)
        (if (chunk.payload.drop (v.queues.takeCount (v.send id) chunk)).isEmpty then rest
          else { chunk with payload := chunk.payload.drop (v.queues.takeCount (v.send id) chunk) } :: rest)
        (v.queues.takeCount (v.send id) chunk)).chunksOf j := hc
    rw [WriterQueues.chunksOf_dispatch] at hc
    have hrest : ∀ c ∈ rest, c.Covered := fun c hc => h id c (hchunk ▸ List.mem_cons_of_mem _ hc)
    have hhead := h id chunk (hchunk ▸ List.mem_cons_self)
    by_cases hj : j = id
    · rw [if_pos hj] at hc
      split_ifs at hc
      · exact hrest c hc
      · rcases List.mem_cons.mp hc with rfl | hc
        · -- the payload shrinks under its permits
          have hdrop : (chunk.payload.drop (v.queues.takeCount (v.send id) chunk)).length ≤ chunk.payload.length := by
            rw [List.length_drop]
            omega
          exact ⟨hdrop.trans hhead.conn, hdrop.trans hhead.stream⟩
        · exact hrest c hc
    · rw [if_neg hj] at hc
      exact h j c hc
  | _ => exact h

theorem reach_covered (hl : l.Valid) (h : (machine l isClient).Reach v log) : v.Covered := by
  refine h.invariant (fun v _ => v.Covered) ?_ fun _ _ _ _ hr hc hs => covered_step hl (reach_wf hr) hc hs
  intro v (hi : v = _) id c hc
  subst hi
  cases hc

end Sender

namespace WriterQueues

/-- The payload bytes queued for a stream. -/
def queuedBytes (q : WriterQueues) (id : Nat) : Nat := ((q.chunksOf id).map fun c => c.payload.length).sum

/-- The payload bytes queued in the whole map. -/
def totalBytes (q : WriterQueues) : Nat :=
  (q.byStream.entries.map fun entry => (entry.2.map fun c => c.payload.length).sum).sum

/-- The chunks queued in the whole map. -/
def totalChunks (q : WriterQueues) : Nat := (q.byStream.entries.map fun entry => entry.2.length).sum

end WriterQueues

theorem Charge.bytes_le {chunks : List OutboundChunk} (h : ∀ c ∈ chunks, c.Covered) :
    (chunks.map fun c => c.payload.length).sum ≤ (ofChunks chunks).connBytes ∧
      (chunks.map fun c => c.payload.length).sum ≤ (ofChunks chunks).streamBytes :=
  ⟨List.sum_le_sum fun c hc => (h c hc).conn, List.sum_le_sum fun c hc => (h c hc).stream⟩

/-- The outbound queues keep every configured budget, and give everything back when they are empty. -/
structure Shared.Within (l : Limits) (s : Shared) : Prop where
  streamBytes : ∀ id, s.queues.queuedBytes id ≤ l.maxOutboundStreamBytes
  connBytes : s.queues.totalBytes ≤ l.maxOutboundConnectionBytes
  streamFrames_pos : 1 ≤ l.maxQueuedOutboundFrames / l.maxOpenStreams
  streamFrames : ∀ id, (s.queues.chunksOf id).length ≤ l.maxQueuedOutboundFrames / l.maxOpenStreams
  frames : s.queues.totalChunks ≤ l.maxQueuedOutboundFrames
  nonempty : ∀ id, ∀ c ∈ s.queues.chunksOf id, c.payload ≠ [] ∨ c.fin = true
  streamFull : ∀ id, s.ids.Opened id → s.queues.chunksOf id = [] → (s.send id).pending = none →
    (s.budget.streamBytes id).permits = l.maxOutboundStreamBytes ∧
      (s.budget.streamFrames id).permits = l.maxQueuedOutboundFrames / l.maxOpenStreams
  connFull : (∀ id, s.queues.chunksOf id = [] ∧ (s.send id).pending = none) →
    s.budget.connBytes.permits = l.maxOutboundConnectionBytes ∧
      s.budget.frames.permits = l.maxQueuedOutboundFrames

namespace Endpoint

/-- In every reachable state the queued bytes and chunks of each stream and of the connection are within
their budgets, no chunk is empty without a FIN, and budgets without a queued chunk or a pending write are
full. -/
theorem outbound_within_budget (l : Limits) (isClient : Bool) (e : Endpoint) (log : List Event)
    (h : (machine l isClient).Reach e log) : e.shared.Within l := by
  have hl := reach_valid h
  have hv := Sender.reach_wf (reach_sender h)
  have hb := reach_balanced h
  have hcov := Sender.reach_covered hl (reach_sender h)
  have hbound : ∀ id, e.shared.queues.byStream.lookup id ≠ none → id < e.shared.ids.bound :=
    fun id hid => (Shared.opened_of_lookup hv id hid).lt_bound
  -- a stream's chunks are a part of its charge
  have hpart :
      ∀ id, (Charge.ofChunks (e.shared.queues.chunksOf id)).connBytes ≤ (e.shared.sender.charge id).connBytes ∧
      (Charge.ofChunks (e.shared.queues.chunksOf id)).frames ≤ (e.shared.sender.charge id).frames ∧
      (Charge.ofChunks (e.shared.queues.chunksOf id)).streamBytes ≤ (e.shared.sender.charge id).streamBytes ∧
      (Charge.ofChunks (e.shared.queues.chunksOf id)).streamFrames ≤ (e.shared.sender.charge id).streamFrames :=
    fun id => ⟨Nat.le_add_right _ _, Nat.le_add_right _ _, Nat.le_add_right _ _, Nat.le_add_right _ _⟩
  have hbytes : ∀ id, _ := fun id => Charge.bytes_le (hcov id)
  have hfresh : ∀ id, ¬ e.shared.ids.Opened id → e.shared.queues.chunksOf id = [] :=
    fun id hn => hv.chunks_fresh hn
  exact
    { streamBytes := by
        intro id
        by_cases ho : e.shared.ids.Opened id
        · have hs := hb.streamBytes id ho
          have hle := (hbytes id).2.trans (hpart id).2.2.1
          change ((e.shared.queues.chunksOf id).map fun c => c.payload.length).sum ≤ _
          exact hle.trans (by omega)
        · simp [WriterQueues.queuedBytes, hfresh id ho]
      connBytes := by
        have hs := hb.connBytes
        have hsum := e.shared.queues.total_eq (fun chunks => (chunks.map fun c => c.payload.length).sum) rfl hbound
        have hle := Finset.sum_le_sum fun id (_ : id ∈ Finset.range e.shared.ids.bound) =>
          (hbytes id).1.trans (hpart id).1
        unfold WriterQueues.totalBytes
        rw [hsum]
        exact hle.trans (by omega)
      streamFrames_pos := by
        rw [Nat.one_le_div_iff hl.streams.1]
        exact hl.streams.2
      streamFrames := by
        intro id
        by_cases ho : e.shared.ids.Opened id
        · have hs := hb.streamFrames id ho
          have hle : (e.shared.queues.chunksOf id).length ≤ _ := (hpart id).2.2.2
          omega
        · simp [hfresh id ho]
      frames := by
        have hs := hb.frames
        have hsum := e.shared.queues.total_eq List.length rfl hbound
        have hle := Finset.sum_le_sum fun id (_ : id ∈ Finset.range e.shared.ids.bound) => (hpart id).2.1
        unfold WriterQueues.totalChunks
        rw [hsum]
        exact hle.trans (by omega)
      nonempty := fun id c hc => (hv.chunks id c hc).2.nonempty
      streamFull := by
        intro id ho hc hp
        have hz : e.shared.sender.charge id = {} := by
          simp [Sender.charge, Shared.sender, hc, hp, Charge.ofChunks, Charge.ofPending, Charge.add]
        have hs := hb.streamBytes id ho
        have hf := hb.streamFrames id ho
        rw [hz] at hs hf
        exact ⟨hs, hf⟩
      connFull := by
        intro hall
        have hz : ∀ id, e.shared.sender.charge id = {} := by
          intro id
          simp [Sender.charge, Shared.sender, (hall id).1, (hall id).2, Charge.ofChunks, Charge.ofPending, Charge.add]
        have hs := hb.connBytes
        have hf := hb.frames
        rw [Finset.sum_eq_zero fun id _ => congrArg Charge.connBytes (hz id)] at hs
        rw [Finset.sum_eq_zero fun id _ => congrArg Charge.frames (hz id)] at hf
        exact ⟨hs, hf⟩ }

/-- Thirty bytes are written, and the peer's credit lets twenty go: ten stay queued. -/
theorem outbound_within_budget_partial :
    ∃ e log, (machine smallLimits true).Reach e log ∧ e.shared.queues.queuedBytes 0 = 10 ∧
      e.shared.budget.connBytes.permits + 30 = smallLimits.maxOutboundConnectionBytes ∧
      e.shared.Within smallLimits := by
  have hrun : (Machine.runList step { shared := .new smallLimits true }
      ([.openStart, .openFinish, .receive (Frame.settings (.expect 20) (.expect 100) (.expect 100)).wire,
        .nextFrame [0], .send, .nextFrame [0], .send] ++ writeActs 0 (List.replicate 30 1) ++ [.nextFrame [0]])).map
        (fun r => (r.1.shared.queues.queuedBytes 0, r.1.shared.budget.connBytes.permits + 30)) =
      some (10, smallLimits.maxOutboundConnectionBytes) := by decide
  have h0 : connect smallLimits true = .ok { shared := .new smallLimits true } := rfl
  obtain ⟨e, log, hr, heq⟩ := Machine.runList_reach (connect smallLimits true = .ok ·) h0 _ _ hrun
  simp only [Prod.mk.injEq] at heq
  exact ⟨e, log, hr, heq.1, heq.2, outbound_within_budget smallLimits true e log hr⟩

end Endpoint
end Muxtls
