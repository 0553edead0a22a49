import Muxtls.Lib.RangeSum
import Muxtls.Receiver.Windows

namespace Muxtls

/-- Both permits of a chunk cover exactly the bytes it still has. -/
structure InboundChunk.Exact (c : InboundChunk) : Prop where
  conn : c.connPermit = some c.data.bytes.length
  stream : c.streamPermit = some c.data.bytes.length

theorem InboundChunk.Exact.isSome {c : InboundChunk} (h : c.Exact) :
    c.connPermit.isSome = true ∧ c.streamPermit.isSome = true := by
  rw [h.conn, h.stream]
  exact ⟨rfl, rfl⟩

/-- The chunks a direction holds: the remainder of a partial read and the queue. -/
def RecvDir.chunks (d : RecvDir) : List InboundChunk := d.handle.readBuf.toList ++ d.inbound.chunks

namespace Inbox

/-- The windows and budgets agree that stream `j` holds `held j` bytes: what is received and not
consumed, and what is out of the budget. A discarded stream is not consumed in its own window. -/
structure Owes (l : Limits) (i : Ids) (b : Inbox) (held : Nat → Nat) : Prop where
  conn_sound : b.receiveWindow.Sound
  conn_window : b.receiveWindow.window = l.maxInboundConnectionBytes
  conn_held : b.receiveWindow.consumed + ∑ j ∈ Finset.range i.bound, held j = b.receiveWindow.received
  conn_permits : b.inboundConnBytes.permits + ∑ j ∈ Finset.range i.bound, held j = l.maxInboundConnectionBytes
  sound : ∀ j, (b.recv j).receiveWindow.Sound
  window : ∀ j, i.Opened j → (b.recv j).receiveWindow.window = l.maxInboundStreamBytes
  held_le : ∀ j, (b.recv j).receiveWindow.consumed + held j ≤ (b.recv j).receiveWindow.received
  held_eq : ∀ j, (b.recv j).recvDiscarded = false →
    (b.recv j).receiveWindow.consumed + held j = (b.recv j).receiveWindow.received
  permits : ∀ j, i.Opened j → (b.recv j).inboundStreamBytes.permits + held j = l.maxInboundStreamBytes
  unheld : ∀ j, ¬ i.Opened j → held j = 0

variable {l : Limits} {i : Ids} {b b' : Inbox} {held : Nat → Nat} {id : Nat}

/-- A change of the connection and of one stream. -/
theorem Owes.update (h : b.Owes l i held) (hid : i.Opened id) (r : RecvState) (n : Nat)
    (hr : b'.recv = Function.update b.recv id r) (hcs : b'.receiveWindow.Sound)
    (hcw : b'.receiveWindow.window = b.receiveWindow.window)
    (hch : b'.receiveWindow.consumed + n + b.receiveWindow.received =
      b'.receiveWindow.received + b.receiveWindow.consumed + held id)
    (hcp : b'.inboundConnBytes.permits + n = b.inboundConnBytes.permits + held id)
    (hs : r.receiveWindow.Sound) (hw : r.receiveWindow.window = (b.recv id).receiveWindow.window)
    (hle : r.receiveWindow.consumed + n ≤ r.receiveWindow.received)
    (heq : r.recvDiscarded = false → r.receiveWindow.consumed + n = r.receiveWindow.received)
    (hp : r.inboundStreamBytes.permits + n = (b.recv id).inboundStreamBytes.permits + held id) :
    b'.Owes l i (Function.update held id n) := by
  have hsum := RangeSum.update held hid.lt_bound n
  have hconn := h.conn_held
  have hperm := h.conn_permits
  have hself : b'.recv id = r := by rw [hr, Function.update_self]
  have hother : ∀ j, j ≠ id → b'.recv j = b.recv j := fun j hj => by rw [hr, Function.update_of_ne hj]
  refine ⟨hcs, hcw.trans h.conn_window, by omega, by omega, ?_, ?_, ?_, ?_, ?_, ?_⟩
  · intro j
    by_cases hj : j = id
    · subst hj
      rwa [hself]
    · rw [hother j hj]
      exact h.sound j
  · intro j hjo
    by_cases hj : j = id
    · subst hj
      rw [hself, hw]
      exact h.window j hjo
    · rw [hother j hj]
      exact h.window j hjo
  · intro j
    by_cases hj : j = id
    · subst hj
      rwa [hself, Function.update_self]
    · rw [hother j hj, Function.update_of_ne hj]
      exact h.held_le j
  · intro j hd
    by_cases hj : j = id
    · subst hj
      rw [hself] at hd ⊢
      rw [Function.update_self]
      exact heq hd
    · rw [hother j hj] at hd ⊢
      rw [Function.update_of_ne hj]
      exact h.held_eq j hd
  · intro j hjo
    by_cases hj : j = id
    · subst hj
      rw [hself, Function.update_self, hp]
      exact h.permits j hjo
    · rw [hother j hj, Function.update_of_ne hj]
      exact h.permits j hjo
  · intro j hjo
    have hj : j ≠ id := fun he => hjo (he ▸ hid)
    rw [Function.update_of_ne hj]
    exact h.unheld j hjo

/-- The same windows and budgets owe the same; a mark may be set. -/
theorem Owes.congr (h : b.Owes l i held) (hc : b'.receiveWindow = b.receiveWindow)
    (hp : b'.inboundConnBytes.permits = b.inboundConnBytes.permits)
    (hr : ∀ j, (b'.recv j).receiveWindow = (b.recv j).receiveWindow ∧
      (b'.recv j).inboundStreamBytes.permits = (b.recv j).inboundStreamBytes.permits ∧
      ((b'.recv j).recvDiscarded = false → (b.recv j).recvDiscarded = false)) : b'.Owes l i held := by
  refine ⟨?_, ?_, ?_, ?_, ?_, ?_, ?_, ?_, ?_, h.unheld⟩
  · rw [hc]; exact h.conn_sound
  · rw [hc]; exact h.conn_window
  · rw [hc]; exact h.conn_held
  · rw [hp]; exact h.conn_permits
  · intro j; rw [(hr j).1]; exact h.sound j
  · intro j hj; rw [(hr j).1]; exact h.window j hj
  · intro j; rw [(hr j).1]; exact h.held_le j
  · intro j hd; rw [(hr j).1]; exact h.held_eq j ((hr j).2.2 hd)
  · intro j hj; rw [(hr j).2.1]; exact h.permits j hj

/-- A change of one stream that keeps its window and its permits. -/
theorem Owes.mark (h : b.Owes l i held) (r : RecvState) (hc : b'.receiveWindow = b.receiveWindow)
    (hp : b'.inboundConnBytes.permits = b.inboundConnBytes.permits)
    (hr : b'.recv = Function.update b.recv id r) (hw : r.receiveWindow = (b.recv id).receiveWindow)
    (hs : r.inboundStreamBytes.permits = (b.recv id).inboundStreamBytes.permits)
    (hd : r.recvDiscarded = false → (b.recv id).recvDiscarded = false) : b'.Owes l i held := by
  refine h.congr hc hp fun j => ?_
  by_cases hj : j = id
  · subst hj
    rw [hr, Function.update_self]
    exact ⟨hw, hs, hd⟩
  · rw [hr, Function.update_of_ne hj]
    exact ⟨rfl, rfl, fun hx => hx⟩

theorem Owes.held_le_sum (h : b.Owes l i held) (hid : i.Opened id) :
    b.receiveWindow.consumed + held id ≤ b.receiveWindow.received := by
  have hle := RangeSum.le_sum held hid.lt_bound
  have hconn := h.conn_held
  omega

theorem splitPermit_some (p count : Nat) (h : count ≤ p) : splitPermit (some p) count = (some (p - count), count) :=
  if_pos h

/-- `consume` gives back what it counts. -/
theorem Owes.consume (h : b.Owes l i held) (hid : i.Opened id) (c : InboundChunk) (p count : Nat)
    (hconn : c.connPermit = some p) (hstream : c.streamPermit = some p) (hp : count ≤ p)
    (hc : count ≤ held id) :
    (b.consume id c count).1.Owes l i (Function.update held id (held id - count)) := by
  have hcle := h.held_le_sum hid
  have hsle := h.held_le id
  have hseq := h.held_eq id
  have hcf := ReceiveWindow.consume_fst b.receiveWindow count h.conn_sound (by omega)
  have hsf := ReceiveWindow.consume_fst (b.recv id).receiveWindow count (h.sound id) (by omega)
  have hcs := ReceiveWindow.consume_sound b.receiveWindow count h.conn_sound (by omega)
  have hss := ReceiveWindow.consume_sound (b.recv id).receiveWindow count (h.sound id) (by omega)
  refine h.update hid _ _ rfl hcs (ReceiveWindow.consume_window _ _) ?_ ?_ hss
    (ReceiveWindow.consume_window _ _) ?_ ?_ ?_
  · simp only [Inbox.consume, hcf]
    omega
  · simp only [Inbox.consume, hconn, splitPermit_some p count hp, Semaphore.release_permits]
    omega
  · simp only [hsf]
    omega
  · intro hd
    have he := hseq hd
    simp only [hsf]
    omega
  · simp only [hstream, if_pos hp, Semaphore.release_permits]
    omega

theorem consume_permits (b : Inbox) (id : Nat) (c : InboundChunk) (p count : Nat) (hconn : c.connPermit = some p)
    (hstream : c.streamPermit = some p) (hp : count ≤ p) :
    (b.consume id c count).2 = { c with connPermit := some (p - count), streamPermit := some (p - count) } := by
  simp only [consume, hconn, hstream, splitPermit_some p count hp]

/-- After all its bytes are released an exact chunk has no permits left to give back. -/
theorem dropChunk_of_exact (c : InboundChunk) (hx : c.Exact) :
    b.dropChunk id c = (b.consume id c c.data.bytes.length).1 := by
  have hsnd := consume_permits b id c _ _ hx.conn hx.stream (le_refl _)
  rw [Nat.sub_self] at hsnd
  unfold dropChunk
  simp only [hsnd, Option.getD_some, Semaphore.release_zero]
  rw [Function.update_eq_self]

/-- `Drop` gives back all bytes of a chunk. -/
theorem Owes.dropChunk (h : b.Owes l i held) (hid : i.Opened id) (c : InboundChunk) (hx : c.Exact)
    (hc : c.data.bytes.length ≤ held id) :
    (b.dropChunk id c).Owes l i (Function.update held id (held id - c.data.bytes.length)) := by
  rw [dropChunk_of_exact c hx]
  exact h.consume hid c _ _ hx.conn hx.stream (le_refl _) hc

theorem Owes.dropChunks (h : b.Owes l i held) (hid : i.Opened id) (chunks : List InboundChunk)
    (hx : ∀ c ∈ chunks, c.Exact) (hc : (bytesOf chunks).length ≤ held id) :
    (chunks.foldl (fun b c => b.dropChunk id c) b).Owes l i
      (Function.update held id (held id - (bytesOf chunks).length)) := by
  induction chunks generalizing b held with
  | nil =>
    rw [bytesOf_nil, List.length_nil, Nat.sub_zero, Function.update_eq_self]
    exact h
  | cons c chunks ih =>
    rw [bytesOf_cons, List.length_append] at hc ⊢
    have hfirst := h.dropChunk hid c (hx c List.mem_cons_self) (by omega)
    have hrest := ih hfirst (fun c hm => hx c (List.mem_cons_of_mem _ hm)) (by rw [Function.update_self]; omega)
    rw [Function.update_self, Function.update_idem, Nat.sub_sub] at hrest
    exact hrest

end Inbox
end Muxtls
