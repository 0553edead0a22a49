import Muxtls.Sender.Step

namespace Muxtls
namespace WriterQueues

section Chunks

variable (q : WriterQueues) (id j : Nat)

theorem chunksOf_pushChunk (c : OutboundChunk) :
    (q.pushChunk id c).chunksOf j = if j = id then q.chunksOf id ++ [c] else q.chunksOf j := by
  unfold pushChunk chunksOf
  by_cases h : j = id
  · subst h
    simp
  · simp [h, AList.lookup_insert_ne h]

theorem chunksOf_removeStream :
    (q.removeStream id).chunksOf j = if j = id then [] else q.chunksOf j := by
  unfold removeStream chunksOf
  by_cases h : j = id
  · subst h
    simp
  · simp [h, AList.lookup_erase_ne h]

theorem chunksOf_dispatch (ready : List Nat) (chunks : List OutboundChunk) (count : Nat) :
    (q.dispatch id ready chunks count).chunksOf j = if j = id then chunks else q.chunksOf j := by
  unfold dispatch chunksOf
  by_cases h : j = id
  · subst h
    by_cases hc : chunks = [] <;> simp [hc]
  · by_cases hc : chunks = []
    · simp [h, hc, AList.lookup_erase_ne h]
    · simp [h, hc, AList.lookup_insert_ne h]

@[simp] theorem chunksOf_pushControl (f : Frame) : (q.pushControl f).chunksOf j = q.chunksOf j := rfl

@[simp] theorem chunksOf_clear : q.clear.chunksOf j = [] := rfl

@[simp] theorem chunksOf_shutdown : q.shutdown.chunksOf j = [] := rfl

theorem chunksOf_publishClose (errorCode : ErrorCode) (reason : String) (graceful : Bool) :
    (q.publishClose errorCode reason graceful).chunksOf j = if graceful then q.chunksOf j else [] := by
  cases graceful <;> rfl

end Chunks

/-- The representation of the data queues: no empty queue is kept, and the ready list holds the
streams with a queue once each. -/
structure WF (q : WriterQueues) : Prop where
  nonempty : ∀ id, q.byStream.lookup id ≠ some []
  ready_nodup : q.ready.Nodup
  ready_iff : ∀ id, id ∈ q.ready ↔ q.chunksOf id ≠ []
  frame_min : minFrameSize ≤ q.peerMaxFrame
  frame_max : q.peerMaxFrame ≤ u32Max

theorem lookup_of_chunksOf {q : WriterQueues} {id : Nat} {c : OutboundChunk} {cs : List OutboundChunk}
    (hc : q.chunksOf id = c :: cs) : q.byStream.lookup id = some (c :: cs) := by
  unfold chunksOf at hc
  cases hl : q.byStream.lookup id with
  | none => rw [hl] at hc; cases hc
  | some chunks => rw [hl] at hc; exact congrArg some hc

theorem chunksOf_of_isEmpty {q : WriterQueues} (he : q.byStream.entries.isEmpty = true) (id : Nat) :
    q.chunksOf id = [] := by
  have hn : q.byStream.lookup id = none := by
    rw [AList.lookup_eq_none, AList.mem_keys, AList.keys, List.isEmpty_iff.mp he]
    simp
  rw [chunksOf, hn]
  rfl

/-- An update that keeps the data queues and a valid frame limit. -/
theorem WF.congr {q q' : WriterQueues} (h : q.WF) (hb : q'.byStream = q.byStream)
    (hr : q'.ready = q.ready) (hmin : minFrameSize ≤ q'.peerMaxFrame) (hmax : q'.peerMaxFrame ≤ u32Max) :
    q'.WF := by
  obtain ⟨h1, h2, h3, -, -⟩ := h
  refine ⟨hb ▸ h1, hr ▸ h2, ?_, hmin, hmax⟩
  intro id
  rw [chunksOf, hr, hb]
  exact h3 id

theorem WF.pushChunk {q : WriterQueues} (h : q.WF) (id : Nat) (c : OutboundChunk) :
    (q.pushChunk id c).WF where
  nonempty := by
    intro j
    by_cases hj : j = id
    · subst hj
      simp [WriterQueues.pushChunk]
    · simp only [WriterQueues.pushChunk, AList.lookup_insert_ne hj]
      exact h.nonempty j
  ready_nodup := by
    by_cases hc : q.chunksOf id = []
    · have hid : id ∉ q.ready := fun hm => (h.ready_iff id).mp hm hc
      simp only [WriterQueues.pushChunk, if_pos hc]
      exact List.nodup_append.mpr ⟨h.ready_nodup, List.nodup_singleton id, by
        intro a ha b hb hab
        rw [List.mem_singleton.mp hb] at hab
        exact hid (hab ▸ ha)⟩
    · simp only [WriterQueues.pushChunk, if_neg hc]
      exact h.ready_nodup
  ready_iff := by
    intro j
    rw [chunksOf_pushChunk]
    have hj := h.ready_iff j
    by_cases hc : q.chunksOf id = [] <;> by_cases he : j = id
    · simp [WriterQueues.pushChunk, hc, he]
    · simp [WriterQueues.pushChunk, hc, he, hj]
    · simp [WriterQueues.pushChunk, he, hc, h.ready_iff id]
    · simp [WriterQueues.pushChunk, hc, he, hj]
  frame_min := h.frame_min
  frame_max := h.frame_max

theorem WF.removeStream {q : WriterQueues} (h : q.WF) (id : Nat) : (q.removeStream id).WF where
  nonempty := by
    intro j
    by_cases hj : j = id
    · subst hj
      simp [WriterQueues.removeStream]
    · simp only [WriterQueues.removeStream, AList.lookup_erase_ne hj]
      exact h.nonempty j
  ready_nodup := h.ready_nodup.filter _
  ready_iff := by
    intro j
    rw [chunksOf_removeStream]
    by_cases hj : j = id
    · simp [WriterQueues.removeStream, hj]
    · simp [WriterQueues.removeStream, hj, h.ready_iff j]
  frame_min := h.frame_min
  frame_max := h.frame_max

theorem WF.clear {q : WriterQueues} (h : q.WF) : q.clear.WF where
  nonempty := by intro id; simp [WriterQueues.clear]
  ready_nodup := List.nodup_nil
  ready_iff := by intro id; simp [WriterQueues.clear, chunksOf]
  frame_min := h.frame_min
  frame_max := h.frame_max

/-- The ready list after a turn of the data pass: the streams before `id` go behind the later ones,
and `id` goes last if it still has chunks. -/
theorem WF.dispatch {q : WriterQueues} (h : q.WF) (id : Nat) (skipped later : List Nat)
    (chunks : List OutboundChunk) (count : Nat) (hready : q.ready = skipped ++ id :: later) :
    (q.dispatch id (later ++ skipped) chunks count).WF where
  nonempty := by
    intro j
    by_cases hj : j = id
    · subst hj
      by_cases hc : chunks = [] <;> simp [WriterQueues.dispatch, hc]
    · by_cases hc : chunks = []
      · simp only [WriterQueues.dispatch, if_pos hc, AList.lookup_erase_ne hj]
        exact h.nonempty j
      · simp only [WriterQueues.dispatch, if_neg hc, AList.lookup_insert_ne hj]
        exact h.nonempty j
  ready_nodup := by
    have hn := h.ready_nodup
    rw [hready] at hn
    have hp : (later ++ skipped ++ [id]).Nodup := by
      refine (List.Perm.nodup_iff ?_).mp hn
      exact List.perm_append_comm.trans (by
        simp only [List.cons_append]
        exact (List.perm_append_singleton id (later ++ skipped)).symm)
    by_cases hc : chunks = []
    · simp only [WriterQueues.dispatch, if_pos hc]
      exact (List.nodup_append.mp hp).1
    · simp only [WriterQueues.dispatch, if_neg hc]
      exact hp
  ready_iff := by
    intro j
    have hn := h.ready_nodup
    have hj := h.ready_iff j
    rw [hready] at hn hj
    rw [chunksOf_dispatch]
    have hid : id ∉ skipped ∧ id ∉ later := by
      have hd := List.nodup_append.mp hn
      exact ⟨fun hm => hd.2.2 id hm id List.mem_cons_self rfl, (List.nodup_cons.mp hd.2.1).1⟩
    by_cases he : j = id
    · subst he
      by_cases hc : chunks = [] <;> simp [WriterQueues.dispatch, hc, hid]
    · by_cases hc : chunks = [] <;> simp [WriterQueues.dispatch, hc, he, ← hj, or_comm]
  frame_min := h.frame_min
  frame_max := h.frame_max

end WriterQueues
end Muxtls
