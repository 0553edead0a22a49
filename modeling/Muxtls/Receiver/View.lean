import Muxtls.Receiver.Step

namespace Muxtls
namespace Inbox

/-- The window of the connection or of a stream. -/
def window (b : Inbox) : Option Nat → ReceiveWindow
  | none => b.receiveWindow
  | some id => (b.recv id).receiveWindow

/-- The byte budget of the connection or of a stream. -/
def bytes (b : Inbox) : Option Nat → Semaphore
  | none => b.inboundConnBytes
  | some id => (b.recv id).inboundStreamBytes

variable {α : Type*}

/-- A value read off a window and its budget that does not change when bytes are given back. -/
def Steady (φ : ReceiveWindow → Semaphore → α) : Prop :=
  ∀ w sem count permits, φ (w.consume count).1 (sem.release permits) = φ w sem

def view (φ : ReceiveWindow → Semaphore → α) (b : Inbox) (key : Option Nat) : α :=
  φ (b.window key) (b.bytes key)

variable {φ : ReceiveWindow → Semaphore → α} (b : Inbox) (id : Nat)

/-- A change that shows neither at the connection nor at stream `id`. -/
theorem view_same (b' : Inbox) (r : RecvState) (hr : b'.recv = Function.update b.recv id r)
    (hc : b'.view φ none = b.view φ none) (hs : φ r.receiveWindow r.inboundStreamBytes = b.view φ (some id)) :
    b'.view φ = b.view φ := by
  funext key
  cases key with
  | none => exact hc
  | some j =>
    by_cases hj : j = id
    · subst hj
      simp only [view, window, bytes, hr, Function.update_self]
      exact hs
    · simp only [view, window, bytes, hr, Function.update_of_ne hj]

theorem setInbound_view (inbound : InboundState) : (b.setInbound id inbound).view φ = b.view φ :=
  view_same b id _ _ rfl rfl rfl

theorem markRecvTerminal_view : (b.markRecvTerminal id).view φ = b.view φ :=
  view_same b id _ _ rfl rfl rfl

theorem readChunk_view : (b.readChunk id).1.view φ = b.view φ := by
  rcases b.readChunk_cases id with ⟨c, chunks, -, -, he⟩ | ⟨-, -, -, he⟩ | ⟨error, he⟩ | he
  · rw [he]
    exact b.setInbound_view id _
  · rw [he]
    exact b.setInbound_view id _
  · rw [he]
  · rw [he]

/-- Closing budgets does not show when the value does not depend on them being open. -/
theorem shut_view (hφ : ∀ w sem, φ w sem.close = φ w sem) (streams : List Nat) :
    (b.shut streams).view φ = b.view φ := by
  have hfold : ∀ b : Inbox, (streams.foldl markConnectionClosed b).view φ = b.view φ := by
    intro b
    induction streams generalizing b with
    | nil => rfl
    | cons i streams ih =>
      rw [List.foldl_cons, ih]
      exact view_same b i _ _ rfl rfl (hφ _ _)
  refine (hfold _).trans ?_
  funext key
  cases key with
  | none => exact hφ _ _
  | some j => rfl

section Steady

variable (hφ : Steady φ)
include hφ

theorem Steady.release (w : ReceiveWindow) (sem : Semaphore) (permits : Nat) :
    φ w (sem.release permits) = φ w sem := hφ w sem 0 permits

theorem consume_view (c : InboundChunk) (count : Nat) : (b.consume id c count).1.view φ = b.view φ :=
  view_same b id _ _ rfl (hφ _ _ _ _) (hφ _ _ _ _)

theorem dropChunk_view (c : InboundChunk) : (b.dropChunk id c).view φ = b.view φ := by
  have h : (b.dropChunk id c).view φ = (b.consume id c c.data.bytes.length).1.view φ :=
    view_same _ id _ _ rfl (hφ.release _ _ _) (hφ.release _ _ _)
  rw [h, consume_view b id hφ]

theorem intoBytes_view (c : InboundChunk) : (b.intoBytes id c).1.view φ = b.view φ := by
  have h : (b.intoBytes id c).1.view φ = (b.consume id c c.data.bytes.length).1.view φ := dropChunk_view _ _ hφ _
  rw [h, consume_view b id hφ]

theorem foldl_dropChunk_view (chunks : List InboundChunk) :
    (chunks.foldl (fun b c => b.dropChunk id c) b).view φ = b.view φ := by
  induction chunks generalizing b with
  | nil => rfl
  | cons c chunks ih => rw [List.foldl_cons, ih, dropChunk_view b id hφ]

theorem clearChunks_view : (b.clearChunks id).view φ = b.view φ := by
  rw [clearChunks, setInbound_view, foldl_dropChunk_view b id hφ]

theorem markReset_view (errorCode : Nat) : (b.markReset id errorCode).view φ = b.view φ := by
  rw [markReset, clearChunks_view _ id hφ, setInbound_view]

theorem discardInbound_view : (b.discardInbound id).view φ = b.view φ := by
  rw [discardInbound, clearChunks_view _ id hφ]
  exact view_same b id _ _ rfl rfl rfl

theorem dropRemainder_view : (b.dropRemainder id).view φ = b.view φ := by
  unfold dropRemainder
  split
  · rfl
  · rw [dropChunk_view _ id hφ]
    rfl

theorem readWhole_view : (b.readWhole id).1.view φ = b.view φ := by
  have h : (b.readChunk id).1.view φ = b.view φ := b.readChunk_view id
  unfold readWhole
  cases hr : b.readChunk id with
  | mk b₁ r =>
    rw [hr] at h
    cases r with
    | chunk c => exact (b₁.intoBytes_view id hφ c).trans h
    | _ => exact h

theorem pollReadLoop_view (room turns : Nat) : (pollReadLoop id room turns b).1.view φ = b.view φ := by
  induction turns generalizing b with
  | zero => rfl
  | succ turns ih =>
    unfold pollReadLoop
    split
    · rename_i c hb
      simp only
      split_ifs
      · rw [ih, dropChunk_view _ id hφ]
        rfl
      · rw [dropChunk_view _ id hφ]
        exact b.consume_view id hφ _ _
      · exact b.consume_view id hφ _ _
    · split_ifs
      · rfl
      · have h : (b.readChunk id).1.view φ = b.view φ := b.readChunk_view id
        cases hr : b.readChunk id with
        | mk b₁ r =>
          rw [hr] at h
          cases r with
          | chunk c => exact (ih _).trans h
          | _ => exact h

theorem pollRead_view (room : Nat) : (b.pollRead id room).1.view φ = b.view φ := by
  unfold pollRead
  split_ifs
  · rfl
  · exact b.pollReadLoop_view id hφ room _

end Steady
end Inbox
end Muxtls
