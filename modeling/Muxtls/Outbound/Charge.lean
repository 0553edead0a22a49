import Muxtls.Lib.RangeSum
import Muxtls.Sender.Refine

namespace Muxtls

/-- Permits that are out of the four outbound budgets. -/
@[ext] structure Charge where
  connBytes : Nat := 0
  frames : Nat := 0
  streamBytes : Nat := 0
  streamFrames : Nat := 0

namespace Charge

def add (c d : Charge) : Charge :=
  ⟨c.connBytes + d.connBytes, c.frames + d.frames, c.streamBytes + d.streamBytes, c.streamFrames + d.streamFrames⟩

theorem zero_add (c : Charge) : ({} : Charge).add c = c := by
  simp [add]

theorem add_assoc (c d e : Charge) : (c.add d).add e = c.add (d.add e) := by
  simp only [add, Nat.add_assoc]

/-- The permits of queued chunks. -/
def ofChunks (chunks : List OutboundChunk) : Charge where
  connBytes := (chunks.map fun c => c.connPermit.getD 0).sum
  frames := chunks.length
  streamBytes := (chunks.map fun c => c.streamPermit.getD 0).sum
  streamFrames := chunks.length

theorem ofChunks_append (chunks chunks' : List OutboundChunk) :
    ofChunks (chunks ++ chunks') = (ofChunks chunks).add (ofChunks chunks') := by
  simp [ofChunks, add]

theorem ofChunks_cons (c : OutboundChunk) (chunks : List OutboundChunk) :
    ofChunks (c :: chunks) = (ofChunks [c]).add (ofChunks chunks) :=
  ofChunks_append [c] chunks

/-- The permits of a write that is not queued yet; once it is, the chunk owns them. -/
def ofWrite (w : PendingWrite) : Charge :=
  let n := w.payload.length % 2 ^ 32
  match w.stage with
  | .locked => {}
  | .streamFrame => { streamFrames := 1 }
  | .streamBytes => { streamBytes := n, streamFrames := 1 }
  | .frame => { frames := 1, streamBytes := n, streamFrames := 1 }
  | .connBytes => { connBytes := n, frames := 1, streamBytes := n, streamFrames := 1 }
  | .enqueued => {}

def ofPending : Option PendingWrite → Charge
  | none => {}
  | some w => ofWrite w

theorem ofChunks_heldChunk (id : Nat) (w : PendingWrite) (h : w.stage = .connBytes) :
    ofChunks [Shared.heldChunk id w] = ofWrite w := by
  cases hp : w.payload <;> simp [ofChunks, ofWrite, Shared.heldChunk, hp, h]

end Charge

/-- What a stream has out of the budgets: by its queued chunks and by its pending write. -/
def Sender.charge (v : Sender) (id : Nat) : Charge :=
  (Charge.ofChunks (v.queues.chunksOf id)).add (.ofPending (v.send id).pending)

namespace WriterQueues

/-- A sum over the map, stream by stream. -/
theorem total_eq {n : Nat} (q : WriterQueues) (f : List OutboundChunk → Nat) (hf : f [] = 0)
    (hn : ∀ id, q.byStream.lookup id ≠ none → id < n) :
    (q.byStream.entries.map fun entry => f entry.2).sum = ∑ id ∈ Finset.range n, f (q.chunksOf id) := by
  have hkeys : ∀ k ∈ q.byStream.entries.keys, k < n := by
    intro k hk
    refine hn k ?_
    intro hnone
    exact AList.lookup_eq_none.mp hnone (AList.mem_keys.mpr hk)
  rw [RangeSum.keyed f _ q.byStream.nodupKeys hkeys]
  refine Finset.sum_congr rfl fun id _ => ?_
  change ((q.byStream.lookup id).map f).getD 0 = _
  unfold chunksOf
  cases q.byStream.lookup id with
  | none => exact hf.symm
  | some chunks => rfl

end WriterQueues

namespace OutboundBudget

/-- Permits of one stream go back. -/
def release (b : OutboundBudget) (id : Nat) (c : Charge) : OutboundBudget where
  connBytes := b.connBytes.release c.connBytes
  frames := b.frames.release c.frames
  streamBytes := Function.update b.streamBytes id ((b.streamBytes id).release c.streamBytes)
  streamFrames := Function.update b.streamFrames id ((b.streamFrames id).release c.streamFrames)

theorem releaseChunks_eq (b : OutboundBudget) (id : Nat) (chunks : List OutboundChunk) :
    b.releaseChunks id chunks = b.release id (.ofChunks chunks) := rfl

/-- The permits left in the budgets, whether closed or not. -/
def permits (b : OutboundBudget) : Nat × Nat × (Nat → Nat × Nat) :=
  (b.connBytes.permits, b.frames.permits, fun j => ((b.streamBytes j).permits, (b.streamFrames j).permits))

/-- Every permit is in its budget or charged to a stream. -/
structure Owes (l : Limits) (i : Ids) (b : OutboundBudget) (charge : Nat → Charge) : Prop where
  connBytes : b.connBytes.permits + ∑ j ∈ Finset.range i.bound, (charge j).connBytes =
    l.maxOutboundConnectionBytes
  frames : b.frames.permits + ∑ j ∈ Finset.range i.bound, (charge j).frames = l.maxQueuedOutboundFrames
  streamBytes : ∀ j, i.Opened j → (b.streamBytes j).permits + (charge j).streamBytes = l.maxOutboundStreamBytes
  streamFrames : ∀ j, i.Opened j →
    (b.streamFrames j).permits + (charge j).streamFrames = l.maxQueuedOutboundFrames / l.maxOpenStreams
  unheld : ∀ j, ¬ i.Opened j → charge j = {}

/-- The budgets go from `b` to `b'` while the charge of `id` goes from `c` to `c'`. -/
structure Settles (b b' : OutboundBudget) (id : Nat) (c c' : Charge) : Prop where
  connBytes : b'.connBytes.permits + c'.connBytes = b.connBytes.permits + c.connBytes
  frames : b'.frames.permits + c'.frames = b.frames.permits + c.frames
  streamBytes : (b'.streamBytes id).permits + c'.streamBytes = (b.streamBytes id).permits + c.streamBytes
  streamFrames : (b'.streamFrames id).permits + c'.streamFrames = (b.streamFrames id).permits + c.streamFrames
  others : ∀ j, j ≠ id → (b'.streamBytes j).permits = (b.streamBytes j).permits ∧
    (b'.streamFrames j).permits = (b.streamFrames j).permits

variable {l : Limits} {i : Ids} {b b' b'' : OutboundBudget} {charge charge' : Nat → Charge} {id : Nat} {c c' : Charge}

/-- What was charged is given back. -/
theorem settles_release (b : OutboundBudget) (id : Nat) (c c' : Charge) :
    b.Settles (b.release id c) id (c.add c') c' := by
  refine ⟨?_, ?_, ?_, ?_, ?_⟩
  · simp only [release, Charge.add, Semaphore.release_permits]
    omega
  · simp only [release, Charge.add, Semaphore.release_permits]
    omega
  · simp only [release, Charge.add, Function.update_self, Semaphore.release_permits]
    omega
  · simp only [release, Charge.add, Function.update_self, Semaphore.release_permits]
    omega
  · intro j hj
    simp [release, hj]

/-- A part of the charge that stays. -/
theorem Settles.add (h : b.Settles b' id c c') (d : Charge) : b.Settles b' id (d.add c) (d.add c') := by
  obtain ⟨h1, h2, h3, h4, h5⟩ := h
  refine ⟨?_, ?_, ?_, ?_, h5⟩ <;>
  · simp only [Charge.add]
    omega

theorem Settles.congr (h : b.Settles b' id c c') (hp : b''.permits = b'.permits) : b.Settles b'' id c c' := by
  obtain ⟨h1, h2, h3, h4, h5⟩ := h
  simp only [permits, Prod.mk.injEq] at hp
  obtain ⟨hc, hf, hs⟩ := hp
  have hj : ∀ j, (b''.streamBytes j).permits = (b'.streamBytes j).permits ∧
      (b''.streamFrames j).permits = (b'.streamFrames j).permits := by
    intro j
    simpa using congrFun hs j
  refine ⟨hc ▸ h1, hf ▸ h2, (hj id).1 ▸ h3, (hj id).2 ▸ h4, ?_⟩
  intro j hne
  rw [(hj j).1, (hj j).2]
  exact h5 j hne

theorem Owes.congr (h : b.Owes l i charge) (hp : b'.permits = b.permits) (hc : charge' = charge) :
    b'.Owes l i charge' := by
  obtain ⟨h1, h2, h3, h4, h5⟩ := h
  simp only [permits, Prod.mk.injEq] at hp
  obtain ⟨hb, hf, hs⟩ := hp
  have hj : ∀ j, (b'.streamBytes j).permits = (b.streamBytes j).permits ∧
      (b'.streamFrames j).permits = (b.streamFrames j).permits := by
    intro j
    simpa using congrFun hs j
  subst hc
  refine ⟨hb ▸ h1, hf ▸ h2, ?_, ?_, h5⟩
  · intro j ho
    rw [(hj j).1]
    exact h3 j ho
  · intro j ho
    rw [(hj j).2]
    exact h4 j ho

/-- The charge of one stream changes with the budgets. -/
theorem Owes.settle (h : b.Owes l i charge) (hid : i.Opened id) (hs : b.Settles b' id (charge id) (charge' id))
    (hother : ∀ j, j ≠ id → charge' j = charge j) : b'.Owes l i charge' := by
  have hconn := RangeSum.change (fun j => (charge j).connBytes) (fun j => (charge' j).connBytes) hid.lt_bound
    fun j hj => by simp only [hother j hj]
  have hframes := RangeSum.change (fun j => (charge j).frames) (fun j => (charge' j).frames) hid.lt_bound
    fun j hj => by simp only [hother j hj]
  refine ⟨?_, ?_, ?_, ?_, ?_⟩
  · have := h.connBytes
    have := hs.connBytes
    omega
  · have := h.frames
    have := hs.frames
    omega
  · intro j ho
    have hj := h.streamBytes j ho
    by_cases he : j = id
    · subst he
      rw [hs.streamBytes]
      exact hj
    · rw [(hs.others j he).1, hother j he]
      exact hj
  · intro j ho
    have hj := h.streamFrames j ho
    by_cases he : j = id
    · subst he
      rw [hs.streamFrames]
      exact hj
    · rw [(hs.others j he).2, hother j he]
      exact hj
  · intro j ho
    have he : j ≠ id := fun he => ho (he ▸ hid)
    rw [hother j he]
    exact h.unheld j ho

/-- A stream with a new id starts with full budgets. -/
theorem Owes.create {i' : Ids} (h : b.Owes l i charge) (hn : ¬ i.Opened id)
    (hopen : ∀ j, i'.Opened j ↔ i.Opened j ∨ j = id)
    (hbound : i.bound ≤ i'.bound) (hc : ∀ j, charge' j = charge j)
    (hconn : b'.connBytes.permits = b.connBytes.permits) (hframes : b'.frames.permits = b.frames.permits)
    (hbytes : b'.streamBytes = Function.update b.streamBytes id ⟨l.maxOutboundStreamBytes, false⟩)
    (hcount : b'.streamFrames =
      Function.update b.streamFrames id ⟨l.maxQueuedOutboundFrames / l.maxOpenStreams, false⟩) :
    b'.Owes l i' charge' := by
  obtain rfl : charge' = charge := funext hc
  have hzero : ∀ j, i.bound ≤ j → charge' j = {} := by
    intro j hj
    refine h.unheld j ?_
    intro ho
    exact absurd ho.lt_bound (Nat.not_lt.mpr hj)
  have hnew := h.unheld id hn
  refine ⟨?_, ?_, ?_, ?_, ?_⟩
  · rw [RangeSum.extend hbound fun j hj => by rw [hzero j hj], hconn]
    exact h.connBytes
  · rw [RangeSum.extend hbound fun j hj => by rw [hzero j hj], hframes]
    exact h.frames
  · intro j ho
    rw [hbytes]
    by_cases he : j = id
    · subst he
      rw [Function.update_self, hnew]
      rfl
    · rw [Function.update_of_ne he]
      exact h.streamBytes j (((hopen j).mp ho).resolve_right he)
  · intro j ho
    rw [hcount]
    by_cases he : j = id
    · subst he
      rw [Function.update_self, hnew]
      rfl
    · rw [Function.update_of_ne he]
      exact h.streamFrames j (((hopen j).mp ho).resolve_right he)
  · intro j ho
    exact h.unheld j fun hj => ho ((hopen j).mpr (.inl hj))

/-- The fold behind `releaseAll`, key by key. -/
theorem foldl_release (entries : List (Sigma fun _ : Nat => List OutboundChunk)) (hn : entries.NodupKeys)
    (b : OutboundBudget) :
    let b' := entries.foldl (fun b entry => b.releaseChunks entry.1 entry.2) b
    b'.connBytes.permits = b.connBytes.permits + (entries.map fun entry => (Charge.ofChunks entry.2).connBytes).sum ∧
      b'.frames.permits = b.frames.permits + (entries.map fun entry => (Charge.ofChunks entry.2).frames).sum ∧
      ∀ j, (b'.streamBytes j).permits =
          (b.streamBytes j).permits + (Charge.ofChunks ((entries.dlookup j).getD [])).streamBytes ∧
        (b'.streamFrames j).permits =
          (b.streamFrames j).permits + (Charge.ofChunks ((entries.dlookup j).getD [])).streamFrames := by
  induction entries generalizing b with
  | nil =>
    refine ⟨rfl, rfl, fun j => ?_⟩
    simp [Charge.ofChunks]
  | cons entry entries ih =>
    obtain ⟨k, chunks⟩ := entry
    obtain ⟨hk, hn⟩ := List.nodupKeys_cons.mp hn
    obtain ⟨hconn, hframes, hstream⟩ := ih hn (b.releaseChunks k chunks)
    refine ⟨?_, ?_, ?_⟩
    · rw [List.foldl_cons, hconn, List.map_cons, List.sum_cons, ← Nat.add_assoc]
      rfl
    · rw [List.foldl_cons, hframes, List.map_cons, List.sum_cons, ← Nat.add_assoc]
      rfl
    · intro j
      rw [List.foldl_cons, (hstream j).1, (hstream j).2]
      by_cases hj : j = k
      · subst hj
        rw [List.dlookup_cons_eq, List.dlookup_eq_none.mpr hk]
        simp [releaseChunks, Charge.ofChunks]
      · rw [List.dlookup_cons_ne entries ⟨k, chunks⟩ hj]
        simp [releaseChunks, hj]

/-- The permits of all queued chunks go back; those of pending writes stay out. -/
theorem Owes.releaseAll (q : WriterQueues) (pending : Nat → Charge)
    (h : b.Owes l i fun j => (Charge.ofChunks (q.chunksOf j)).add (pending j))
    (hopen : ∀ j, q.byStream.lookup j ≠ none → i.Opened j) : (b.releaseAll q).Owes l i pending := by
  obtain ⟨hconn, hframes, hstream⟩ := foldl_release q.byStream.entries q.byStream.nodupKeys b
  have hsum : ∀ f : Charge → Nat, f {} = 0 →
      (q.byStream.entries.map fun entry => f (.ofChunks entry.2)).sum =
        ∑ j ∈ Finset.range i.bound, f (.ofChunks (q.chunksOf j)) :=
    fun f hf => q.total_eq (fun chunks => f (.ofChunks chunks)) hf fun j hj => (hopen j hj).lt_bound
  have hc := h.connBytes
  have hf := h.frames
  simp only [Charge.add, Finset.sum_add_distrib] at hc hf
  rw [← hsum Charge.connBytes rfl] at hc
  rw [← hsum Charge.frames rfl] at hf
  refine ⟨?_, ?_, ?_, ?_, ?_⟩
  · unfold OutboundBudget.releaseAll
    rw [hconn]
    omega
  · unfold OutboundBudget.releaseAll
    rw [hframes]
    omega
  · intro j ho
    unfold OutboundBudget.releaseAll
    have hj := h.streamBytes j ho
    rw [(hstream j).1]
    simp only [Charge.add] at hj
    change (b.streamBytes j).permits + (Charge.ofChunks (q.chunksOf j)).streamBytes + _ = _
    omega
  · intro j ho
    unfold OutboundBudget.releaseAll
    have hj := h.streamFrames j ho
    rw [(hstream j).2]
    simp only [Charge.add] at hj
    change (b.streamFrames j).permits + (Charge.ofChunks (q.chunksOf j)).streamFrames + _ = _
    omega
  · intro j ho
    have hj := h.unheld j ho
    simp only [Charge.add, Charge.mk.injEq] at hj
    ext <;> simp only <;> omega

end OutboundBudget
end Muxtls
