import Muxtls.Receiver.Inbox

namespace Muxtls
namespace RecvDir

/-- The bytes a direction still has for the application: the remainder of a partial read, then the
queue. -/
def content (d : RecvDir) : Bytes :=
  ((d.handle.readBuf.map fun c => c.data.bytes).getD []) ++ Inbox.bytesOf d.inbound.chunks

/-- The bytes a read returned. -/
def out : Inbox.ReadOutcome → Bytes
  | .bytes data => data
  | _ => []

/-- What a read may do to its direction. -/
structure Reads (d : RecvDir) (r : Inbox.ReadOutcome) (d' : RecvDir) : Prop where
  terminal : d'.terminal = d.terminal
  discarded : d'.discarded = d.discarded
  reset : d'.inbound.resetError = d.inbound.resetError
  fin : d'.inbound.finReceived = d.inbound.finReceived ∨
    d'.inbound.finReceived = true ∧ (d.inbound.finReceived || d.terminal) = true
  content : out r ++ d'.content = d.content
  ended : r = .ended → d.handle.eof = true ∨
    d.content = [] ∧ d.inbound.resetError = none ∧ (d.inbound.finReceived || d.terminal) = true
  eof : d'.handle.eof = d.handle.eof ∨ d'.handle.eof = true ∧ r = .ended

/-- A read that returns nothing and changes nothing that counts. -/
structure Same (d d' : RecvDir) : Prop where
  terminal : d'.terminal = d.terminal
  discarded : d'.discarded = d.discarded
  reset : d'.inbound.resetError = d.inbound.resetError
  fin : d'.inbound.finReceived = d.inbound.finReceived
  content : d'.content = d.content
  eof : d'.handle.eof = d.handle.eof

variable {d d₁ d' : RecvDir} {r : Inbox.ReadOutcome}

theorem Same.reads (h : d.Same d₁) (hr : d₁.Reads r d') : d.Reads r d' where
  terminal := hr.terminal.trans h.terminal
  discarded := hr.discarded.trans h.discarded
  reset := hr.reset.trans h.reset
  fin := by
    have hf := hr.fin
    rwa [h.fin, h.terminal] at hf
  content := hr.content.trans h.content
  ended := by
    intro he
    have hx := hr.ended he
    rwa [h.content, h.eof, h.reset, h.fin, h.terminal] at hx
  eof := by
    have hx := hr.eof
    rwa [h.eof] at hx

/-- A read that ends at once, without bytes and without the end of the stream. -/
theorem reads_idle (d : RecvDir) (hr : out r = []) (he : r ≠ .ended) : d.Reads r d :=
  ⟨rfl, rfl, rfl, .inl rfl, by rw [hr, List.nil_append], fun h => absurd h he, .inl rfl⟩

end RecvDir

namespace Inbox

variable (b : Inbox) (id : Nat)

/-- What one poll of the queue finds and leaves. -/
theorem readChunk_cases :
    (∃ c chunks, (b.dir id).inbound.resetError = none ∧ (b.dir id).inbound.chunks = c :: chunks ∧
        b.readChunk id = (b.setInbound id { (b.dir id).inbound with chunks }, .chunk c)) ∨
      ((b.dir id).inbound.resetError = none ∧ (b.dir id).inbound.chunks = [] ∧
        ((b.dir id).inbound.finReceived || (b.dir id).terminal) = true ∧
        b.readChunk id = (b.setInbound id { (b.dir id).inbound with finReceived := true }, .ended)) ∨
      (∃ error, b.readChunk id = (b, .failed error)) ∨ b.readChunk id = (b, .pending) := by
  unfold readChunk
  simp only [dir]
  cases hr : (b.recv id).inbound.resetError with
  | some errorCode => exact .inr (.inr (.inl ⟨_, rfl⟩))
  | none =>
    cases hc : (b.recv id).inbound.chunks with
    | cons c chunks => exact .inl ⟨c, chunks, rfl, rfl, rfl⟩
    | nil =>
      simp only
      split_ifs with hf hcl
      · exact .inr (.inl ⟨trivial, trivial, hf, rfl⟩)
      · exact .inr (.inr (.inl ⟨_, rfl⟩))
      · exact .inr (.inr (.inr rfl))

/-- `RecvStream::read_chunk` on a handle without a remainder. -/
theorem readWhole_reads :
    ∃ d', (b.readWhole id).1.dir = Function.update b.dir id d' ∧ d'.terminal = (b.dir id).terminal ∧
      d'.discarded = (b.dir id).discarded ∧ d'.handle = (b.dir id).handle ∧
      ((b.dir id).handle.readBuf = none → (b.dir id).Reads (b.readWhole id).2 d') := by
  have hself : b.dir = Function.update b.dir id (b.dir id) := (Function.update_eq_self id b.dir).symm
  unfold readWhole
  rcases b.readChunk_cases id with ⟨c, chunks, hr, hc, he⟩ | ⟨hr, hc, hf, he⟩ | ⟨error, he⟩ | he
  · rw [he]
    refine ⟨{ b.dir id with inbound := { (b.dir id).inbound with chunks } }, ?_, rfl, rfl, rfl, ?_⟩
    · rw [intoBytes_dir, setInbound_dir]
    · intro hb
      refine ⟨rfl, rfl, rfl, .inl rfl, ?_, by simp, .inl rfl⟩
      change c.data.bytes ++ _ = _
      simp [RecvDir.content, hb, hc]
  · rw [he]
    refine ⟨_, setInbound_dir b id _, rfl, rfl, rfl, ?_⟩
    intro hb
    refine ⟨rfl, rfl, rfl, .inr ⟨rfl, hf⟩, ?_, ?_, .inl rfl⟩
    · simp [RecvDir.out, RecvDir.content]
    · intro _
      exact .inr ⟨by simp [RecvDir.content, hb, hc], hr, hf⟩
  · rw [he]
    exact ⟨_, hself, rfl, rfl, rfl, fun _ => RecvDir.reads_idle _ rfl (by simp)⟩
  · rw [he]
    exact ⟨_, hself, rfl, rfl, rfl, fun _ => RecvDir.reads_idle _ rfl (by simp)⟩

/-- A chunk moves from the queue to the remainder. -/
theorem same_moveChunk (d : RecvDir) (c : InboundChunk) (chunks : List InboundChunk)
    (hb : d.handle.readBuf = none) (hc : d.inbound.chunks = c :: chunks) :
    d.Same
      { d with inbound := { d.inbound with chunks }, handle := { d.handle with readBuf := some c } } := by
  refine ⟨rfl, rfl, rfl, rfl, ?_, rfl⟩
  simp [RecvDir.content, hb, hc]

/-- Part of the remainder is returned. -/
theorem reads_remainder (d : RecvDir) (c : InboundChunk) (count : Nat) (rest : Option InboundChunk)
    (hb : d.handle.readBuf = some c)
    (hrest : ((rest.map fun c => c.data.bytes).getD []) = c.data.bytes.drop count) :
    d.Reads (.bytes (c.data.bytes.take count)) { d with handle := { d.handle with readBuf := rest } } := by
  refine ⟨rfl, rfl, rfl, .inl rfl, ?_, by simp, .inl rfl⟩
  simp only [RecvDir.out, RecvDir.content, hb, hrest, Option.map_some, Option.getD_some]
  rw [← List.append_assoc, List.take_append_drop]

/-- The loop of `poll_read` hands out the front of the content, unless it fails or has to wait. -/
theorem pollReadLoop_reads (room turns : Nat) (hroom : 0 < room) :
    ∃ d', (pollReadLoop id room turns b).1.dir = Function.update b.dir id d' ∧
      (b.dir id).Reads (pollReadLoop id room turns b).2 d' := by
  have hself := fun b : Inbox => (Function.update_eq_self id b.dir).symm
  induction turns generalizing b with
  | zero => exact ⟨b.dir id, hself b, RecvDir.reads_idle _ rfl (by simp [pollReadLoop])⟩
  | succ turns ih =>
    -- a turn that goes on has kept the content of the direction
    have hnext : ∀ b₁ d₁, b₁.dir = Function.update b.dir id d₁ → (b.dir id).Same d₁ →
        ∃ d', (pollReadLoop id room turns b₁).1.dir = Function.update b.dir id d' ∧
          (b.dir id).Reads (pollReadLoop id room turns b₁).2 d' := by
      intro b₁ d₁ hd hs
      obtain ⟨d', hd', hr⟩ := ih b₁
      rw [hd, Function.update_self] at hr
      exact ⟨d', by rw [hd', hd, Function.update_idem], hs.reads hr⟩
    unfold pollReadLoop
    cases hbuf : (b.recvStreams id).readBuf with
    | some c =>
      have hb : (b.dir id).handle.readBuf = some c := hbuf
      simp only
      by_cases hcount : min c.data.bytes.length room = 0
      · rw [if_pos hcount]
        have hempty : c.data.bytes = [] := List.length_eq_zero_iff.mp (by omega)
        apply hnext
        · rw [dropChunk_dir, setReadBuf_dir]
        · refine ⟨rfl, rfl, rfl, rfl, ?_, rfl⟩
          simp [RecvDir.content, hb, hempty]
      · rw [if_neg hcount]
        have hdata : (c.data.advance (min c.data.bytes.length room)).bytes =
            c.data.bytes.drop (min c.data.bytes.length room) := ReceiveBuffer.advance_bytes _ _
        have hsnd : ∀ (b' : Inbox) (c' : InboundChunk) n, (b'.consume id c' n).2.data = c'.data := fun _ _ _ => rfl
        split_ifs with hleft
        · rw [hsnd, hdata] at hleft
          refine ⟨_, ?_, reads_remainder _ c _ none hb (by rw [hleft]; rfl)⟩
          rw [dropChunk_dir, setReadBuf_dir, consume_dir]
        · let left := (b.consume id { c with data := c.data.advance (min c.data.bytes.length room) }
            (min c.data.bytes.length room)).2
          refine ⟨_, ?_, reads_remainder _ c _ (some left) hb hdata⟩
          rw [setReadBuf_dir, consume_dir]
    | none =>
      have hb : (b.dir id).handle.readBuf = none := hbuf
      simp only
      by_cases he : (b.recvStreams id).eof = true
      · rw [if_pos he]
        refine ⟨b.dir id, hself b, rfl, rfl, rfl, .inl rfl, rfl, ?_, .inl rfl⟩
        exact fun _ => .inl he
      · rw [if_neg he]
        rcases b.readChunk_cases id with ⟨c, chunks, hr, hc, hx⟩ | ⟨hr, hc, hf, hx⟩ | ⟨error, hx⟩ | hx
        · rw [hx]
          apply hnext _ _ ?_ (same_moveChunk (b.dir id) c chunks hb hc)
          rw [setReadBuf_dir, setInbound_dir, Function.update_idem, Function.update_self]
        · rw [hx]
          let b₁ := b.setInbound id { (b.dir id).inbound with finReceived := true }
          have hd := dir_setHandle b₁ id
            { b₁ with recvStreams := Function.update b₁.recvStreams id { b₁.recvStreams id with eof := true } }
            { b₁.recvStreams id with eof := true } rfl rfl
          rw [setInbound_dir, Function.update_idem, Function.update_self] at hd
          refine ⟨_, hd, rfl, rfl, rfl, .inr ⟨rfl, hf⟩, ?_, ?_, .inr ⟨rfl, rfl⟩⟩
          · rfl
          · intro _
            exact .inr ⟨by simp [RecvDir.content, hb, hc], hr, hf⟩
        · rw [hx]
          exact ⟨_, hself b, RecvDir.reads_idle _ rfl (by simp)⟩
        · rw [hx]
          exact ⟨_, hself b, RecvDir.reads_idle _ rfl (by simp)⟩

theorem pollRead_reads (room : Nat) :
    ∃ d', (b.pollRead id room).1.dir = Function.update b.dir id d' ∧
      (b.dir id).Reads (b.pollRead id room).2 d' := by
  unfold pollRead
  by_cases hroom : room = 0
  · rw [if_pos hroom]
    exact ⟨b.dir id, (Function.update_eq_self id b.dir).symm, RecvDir.reads_idle _ rfl (by simp)⟩
  · rw [if_neg hroom]
    exact b.pollReadLoop_reads id room _ (Nat.pos_of_ne_zero hroom)

end Inbox
end Muxtls
