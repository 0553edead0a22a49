import Muxtls.Connection.Notify

namespace Muxtls

theorem ReceiveWindow.consume_needsUpdate (w : ReceiveWindow) (n : Nat) (hw : w.needsUpdate = false)
    (hn : (w.consume n).2 = false) : (w.consume n).1.needsUpdate = false := by
  unfold consume at hn ⊢
  split_ifs at hn ⊢
  · exact hw
  · exact hn

theorem ReceiveWindow.new_needsUpdate (window : Nat) : (new window).needsUpdate = false := by
  have hle : (new window).nextLimit ≤ window := by
    simp only [new, nextLimit]
    omega
  simp only [needsUpdate, Bool.and_eq_false_iff, decide_eq_false_iff_not, Nat.not_lt]
  exact .inl hle

namespace Inbox

variable {b b' : Inbox} {id : Nat} {windows : List Nat}

/-- A stream that still takes data has a credit update to send. -/
def pending (b : Inbox) (id : Nat) : Bool :=
  !(b.recv id).recvTerminal && !(b.recv id).recvDiscarded && (b.recv id).receiveWindow.needsUpdate

/-- No window has a credit update to send. -/
structure Quiet (windows : List Nat) (b : Inbox) : Prop where
  conn : b.receiveWindow.needsUpdate = false
  streams : ∀ id ∈ windows, b.pending id = false

theorem Quiet.congr (h : b.Quiet windows) (hconn : b'.receiveWindow = b.receiveWindow)
    (hstream : ∀ id, b'.pending id = b.pending id) : b'.Quiet windows :=
  ⟨hconn ▸ h.conn, fun id hid => (hstream id).trans (h.streams id hid)⟩

/-- One stream changes, and it has no update to send afterwards if it had none before. -/
theorem Quiet.update (h : b.Quiet windows) (hconn : b'.receiveWindow.needsUpdate = false) (r : RecvState)
    (hrecv : b'.recv = Function.update b.recv id r)
    (hr : b.pending id = false → (!r.recvTerminal && !r.recvDiscarded && r.receiveWindow.needsUpdate) = false) :
    b'.Quiet windows := by
  refine ⟨hconn, fun j hj => ?_⟩
  have hold := h.streams j hj
  unfold pending at hold ⊢
  rw [hrecv]
  by_cases hji : j = id
  · subst hji
    rw [Function.update_self]
    exact hr hold
  · rw [Function.update_of_ne hji]
    exact hold

theorem consumeSignals_eq_nil {count : Nat} (h : b.consumeSignals id count = []) :
    (b.receiveWindow.consume count).2 = false ∧ ((b.recv id).receiveWindow.consume count).2 = false := by
  unfold consumeSignals at h
  split_ifs at h with hc
  simpa using hc

theorem Quiet.consume (h : b.Quiet windows) (c : InboundChunk) (count : Nat)
    (hs : b.consumeSignals id count = []) : (b.consume id c count).1.Quiet windows := by
  obtain ⟨hconn, hstream⟩ := consumeSignals_eq_nil hs
  refine h.update (ReceiveWindow.consume_needsUpdate _ _ h.conn hconn) _ rfl ?_
  intro hp
  simp only [pending, Bool.and_eq_false_iff] at hp ⊢
  exact hp.imp_right (ReceiveWindow.consume_needsUpdate _ _ · hstream)

theorem Quiet.dropChunk (h : b.Quiet windows) (c : InboundChunk)
    (hs : b.consumeSignals id c.data.bytes.length = []) : (b.dropChunk id c).Quiet windows := by
  have hc := h.consume c _ hs
  exact hc.update hc.conn _ rfl fun hp => hp

theorem Quiet.intoBytes (h : b.Quiet windows) (c : InboundChunk)
    (hs : b.consumeSignals id c.data.bytes.length = []) : (b.intoBytes id c).1.Quiet windows :=
  (h.consume c _ hs).dropChunk _ rfl

theorem Quiet.dropChunks (h : b.Quiet windows) (chunks : List InboundChunk) (hs : dropSignals id b chunks = []) :
    (chunks.foldl (fun b c => b.dropChunk id c) b).Quiet windows := by
  induction chunks generalizing b with
  | nil => exact h
  | cons c chunks ih =>
    obtain ⟨hc, hrest⟩ := List.append_eq_nil_iff.mp hs
    exact ih (h.dropChunk c hc) hrest

theorem Quiet.setInbound (h : b.Quiet windows) (inbound : InboundState) : (b.setInbound id inbound).Quiet windows :=
  h.update h.conn _ rfl fun hp => hp

theorem Quiet.setReadBuf (h : b.Quiet windows) (readBuf : Option InboundChunk) :
    (b.setReadBuf id readBuf).Quiet windows :=
  h.congr rfl fun _ => rfl

theorem Quiet.clearChunks (h : b.Quiet windows) (hs : b.clearSignals id = []) : (b.clearChunks id).Quiet windows :=
  (h.dropChunks _ hs).setInbound _

theorem Quiet.dropRemainder (h : b.Quiet windows) (hs : b.remainderSignals id = []) :
    (b.dropRemainder id).Quiet windows := by
  unfold remainderSignals at hs
  unfold Inbox.dropRemainder
  cases hb : (b.recvStreams id).readBuf with
  | none => exact h
  | some c =>
    rw [hb] at hs
    exact (h.setReadBuf none).dropChunks [c] hs

theorem Quiet.readChunk (h : b.Quiet windows) (id : Nat) : (b.readChunk id).1.Quiet windows := by
  unfold Inbox.readChunk
  simp only
  split
  · exact h
  · exact h.setInbound _
  · split_ifs
    · exact h.setInbound _
    · exact h
    · exact h

theorem Quiet.readWhole (h : b.Quiet windows) (hs : b.readWholeSignals id = []) : (b.readWhole id).1.Quiet windows := by
  have hr := h.readChunk id
  unfold readWholeSignals at hs
  unfold Inbox.readWhole
  cases hc : b.readChunk id with
  | mk b₁ found =>
    rw [hc] at hs hr
    cases found with
    | chunk c => exact hr.intoBytes c hs
    | _ => exact hr

theorem Quiet.pollReadLoop (h : b.Quiet windows) (room turns : Nat) (hs : pollReadSignals id room turns b = []) :
    (pollReadLoop id room turns b).1.Quiet windows := by
  induction turns generalizing b with
  | zero => exact h
  | succ turns ih =>
    unfold pollReadSignals at hs
    unfold Inbox.pollReadLoop
    cases hb : (b.recvStreams id).readBuf with
    | some c =>
      rw [hb] at hs
      simp only at hs ⊢
      split_ifs at hs ⊢
      · obtain ⟨hc, hrest⟩ := List.append_eq_nil_iff.mp hs
        exact ih ((h.setReadBuf none).dropChunks [c] hc) hrest
      · rename_i hdata
        refine ((h.consume _ _ hs).setReadBuf none).dropChunk _ ?_
        rw [hdata]
        rfl
      · exact (h.consume _ _ hs).setReadBuf _
    | none =>
      rw [hb] at hs
      simp only at hs ⊢
      split_ifs at hs ⊢
      · exact h
      · have hr := h.readChunk id
        cases hc : b.readChunk id with
        | mk b₁ found =>
          rw [hc] at hs hr
          cases found with
          | chunk c => exact ih (hr.setReadBuf _) hs
          | ended => exact hr.congr rfl fun _ => rfl
          | _ => exact hr

theorem Quiet.markRecvTerminal (h : b.Quiet windows) : (b.markRecvTerminal id).Quiet windows :=
  h.update h.conn _ rfl fun _ => rfl

theorem Quiet.markReset (h : b.Quiet windows) (errorCode : Nat) (hs : b.markResetSignals id errorCode = []) :
    (b.markReset id errorCode).Quiet windows :=
  (h.setInbound _).clearChunks hs

theorem Quiet.discardInbound (h : b.Quiet windows) (hs : b.discardSignals id = []) :
    (b.discardInbound id).Quiet windows := by
  refine Quiet.clearChunks (h.update h.conn _ rfl fun _ => ?_) hs
  simp

/-- Both windows have counted a payload and found no update to send. -/
theorem Quiet.receiveBoth (h : b.Quiet windows) {len : Nat} (hb : b.receiveBoth id len = (b', .ok ()))
    (hconn : b'.receiveWindow.needsUpdate = false) (hstream : (b'.recv id).receiveWindow.needsUpdate = false) :
    b'.Quiet windows := by
  unfold Inbox.receiveBoth at hb
  split at hb
  · cases hb
  · simp only at hb
    split at hb
    · cases hb
    · cases hb
      simp only [Function.update_self] at hstream
      refine h.update hconn _ rfl fun _ => ?_
      simp [hstream]

theorem pushSignals_writer {l : Limits} {payload : Bytes} :
    b.pushSignals l id payload .writer = if (b.recv id).recvDiscarded then [.one] else [] := by
  unfold pushSignals
  split_ifs
  · rfl
  · cases (b.pushInbound l id payload).2 <;> rfl

theorem Quiet.pushInbound (h : b.Quiet windows) (l : Limits) (payload : Bytes)
    (hs : b.pushSignals l id payload .writer = []) : (b.pushInbound l id payload).1.Quiet windows := by
  rw [pushSignals_writer] at hs
  split_ifs at hs with hd
  unfold Inbox.pushInbound
  simp only
  rw [if_neg hd]
  split
  · exact h
  · split
    · exact h
    · split_ifs
      · exact h
      · split
        · exact h
        · exact h.update h.conn _ rfl fun hp => hp

/-- An accepted payload leaves no update to send unless it signals one. -/
theorem Quiet.acceptData (h : b.Quiet windows) (l : Limits) (payload : Bytes) (fin : Bool)
    (hs : b.dataSignals l id payload fin .writer = []) (hok : (b.acceptData l id payload fin).2 = .ok ()) :
    (b.acceptData l id payload fin).1.Quiet windows := by
  unfold Inbox.acceptData at hok ⊢
  unfold dataSignals at hs
  cases hr : b.receiveBoth id payload.length with
  | mk b₁ result =>
    rw [hr] at hs hok
    cases result with
    | error error => cases hok
    | ok u =>
      simp only [List.append_eq_nil_iff] at hs
      obtain ⟨⟨hneeds, hpush⟩, -⟩ := hs
      have hquiet : b₁.Quiet windows := by
        rw [Waiter.only_self] at hneeds
        split_ifs at hneeds with hn
        rw [Bool.not_eq_true, Bool.or_eq_false_iff] at hn
        exact h.receiveBoth hr hn.1 hn.2
      have hstored : (if payload.isEmpty then (b₁, .ok ()) else b₁.pushInbound l id payload).1.Quiet windows := by
        split_ifs at hpush ⊢
        · exact hquiet
        · exact hquiet.pushInbound l payload hpush
      simp only
      split
      · rename_i hp
        rw [hp] at hstored
        exact hstored
      · rename_i hp
        rw [hp] at hstored
        split_ifs
        · exact hstored.markRecvTerminal
        · exact hstored

end Inbox
end Muxtls
