import Muxtls.Receiver.Account

namespace Muxtls

theorem RecvDir.content_eq (d : RecvDir) : d.content = Inbox.bytesOf d.chunks := by
  unfold RecvDir.content RecvDir.chunks
  rw [Inbox.bytesOf_append]
  cases d.handle.readBuf <;> simp

namespace Inbox

/-- The bytes stream `j` holds: queued chunks and the remainder of a partial read. -/
def held (b : Inbox) (j : Nat) : Nat := (b.dir j).content.length

/-- Inbound accounting is exact: the windows and budgets owe what is held, chunk by chunk. -/
structure Exact (l : Limits) (i : Ids) (b : Inbox) : Prop where
  owes : b.Owes l i b.held
  chunks : ∀ j, ∀ c ∈ (b.dir j).chunks, c.Exact

variable {l : Limits} {i : Ids} {b b' : Inbox} {id : Nat}

theorem held_setDir {d : RecvDir} (hb : b'.dir = Function.update b.dir id d) :
    b'.held = Function.update b.held id d.content.length := by
  unfold held
  rw [hb]
  exact Function.comp_update (fun d : RecvDir => d.content.length) b.dir id d

theorem Exact.set {d : RecvDir} (h : b.Exact l i) (hb : b'.dir = Function.update b.dir id d)
    (ho : b'.Owes l i (Function.update b.held id d.content.length)) (hd : ∀ c ∈ d.chunks, c.Exact) :
    b'.Exact l i := by
  refine ⟨held_setDir hb ▸ ho, ?_⟩
  intro j
  rw [hb]
  by_cases hj : j = id
  · subst hj
    rwa [Function.update_self]
  · rw [Function.update_of_ne hj]
    exact h.chunks j

theorem Exact.sameDir (h : b.Exact l i) (hb : b'.dir = b.dir) (ho : b'.Owes l i b.held) : b'.Exact l i := by
  have hheld : b'.held = b.held := by
    unfold held
    rw [hb]
  exact ⟨hheld ▸ ho, fun j => by rw [hb]; exact h.chunks j⟩

/-- A change of one direction that moves no bytes. -/
theorem Exact.move {d : RecvDir} (h : b.Exact l i) (hb : b'.dir = Function.update b.dir id d)
    (ho : b'.Owes l i b.held) (hc : d.chunks = (b.dir id).chunks) : b'.Exact l i := by
  have hlen : d.content.length = b.held id := by
    rw [RecvDir.content_eq, hc, ← RecvDir.content_eq]
    rfl
  refine h.set hb ?_ (hc ▸ h.chunks id)
  rwa [hlen, Function.update_eq_self]

theorem held_eq (b : Inbox) (j : Nat) : b.held j = (bytesOf (b.dir j).chunks).length :=
  congrArg List.length (b.dir j).content_eq

/-- A direction gives up `n` of its bytes. -/
theorem Exact.release {d : RecvDir} (h : b.Exact l i) (n : Nat) (hb : b'.dir = Function.update b.dir id d)
    (ho : b'.Owes l i (Function.update b.held id (b.held id - n)))
    (hn : (bytesOf d.chunks).length + n = b.held id) (hd : ∀ c ∈ d.chunks, c.Exact) : b'.Exact l i := by
  refine h.set hb ?_ hd
  have hlen : d.content.length = b.held id - n := by
    rw [d.content_eq]
    omega
  rwa [hlen]

theorem Exact.setInbound (h : b.Exact l i) (inbound : InboundState)
    (hc : inbound.chunks = (b.dir id).inbound.chunks) : (b.setInbound id inbound).Exact l i := by
  refine h.move (b.setInbound_dir id inbound) (h.owes.mark _ rfl rfl rfl rfl rfl fun hd => hd) ?_
  simp only [RecvDir.chunks, hc]

theorem Exact.clearChunks (h : b.Exact l i) (hid : i.Opened id) : (b.clearChunks id).Exact l i := by
  have hx : ∀ c ∈ (b.dir id).inbound.chunks, c.Exact := fun c hc => h.chunks id c (List.mem_append_right _ hc)
  have hlen : b.held id =
      (bytesOf (b.dir id).handle.readBuf.toList).length + (bytesOf (b.dir id).inbound.chunks).length := by
    rw [b.held_eq, RecvDir.chunks, bytesOf_append, List.length_append]
  have hdrop := h.owes.dropChunks hid (b.dir id).inbound.chunks hx (by omega)
  refine h.release (bytesOf (b.dir id).inbound.chunks).length (b.clearChunks_dir id) ?_ ?_ ?_
  · exact hdrop.mark _ rfl rfl rfl rfl rfl fun hd => hd
  · simp only [RecvDir.chunks, List.append_nil]
    omega
  · intro c hc
    simp only [RecvDir.chunks, List.append_nil] at hc
    exact h.chunks id c (List.mem_append_left _ hc)

theorem Exact.markReset (h : b.Exact l i) (hid : i.Opened id) (errorCode : Nat) :
    (b.markReset id errorCode).Exact l i :=
  (h.setInbound { (b.recv id).inbound with resetError := some errorCode } rfl).clearChunks hid

theorem Exact.markRecvTerminal (h : b.Exact l i) : (b.markRecvTerminal id).Exact l i :=
  h.move (b.markRecvTerminal_dir id) (h.owes.mark _ rfl rfl rfl rfl rfl fun hd => hd) rfl

theorem Exact.discardInbound (h : b.Exact l i) (hid : i.Opened id) : (b.discardInbound id).Exact l i := by
  let marked : Inbox := { b with recv := Function.update b.recv id { b.recv id with recvDiscarded := true } }
  have hm : marked.Exact l i := by
    refine h.move (dir_setRecv b id marked _ rfl rfl) (h.owes.mark _ rfl rfl rfl rfl rfl ?_) rfl
    intro hd
    cases hd
  exact hm.clearChunks hid

theorem Exact.shut (h : b.Exact l i) (streams : List Nat) : (b.shut streams).Exact l i := by
  have hfold : ∀ b : Inbox, b.Exact l i → (streams.foldl markConnectionClosed b).Exact l i := by
    intro b hb
    induction streams generalizing b with
    | nil => exact hb
    | cons j streams ih =>
      refine ih _ (hb.move (b.markConnectionClosed_dir j) ?_ rfl)
      exact hb.owes.mark _ rfl rfl rfl rfl rfl fun hd => hd
  exact hfold _ ⟨h.owes.congr rfl rfl fun j => ⟨rfl, rfl, fun hd => hd⟩, h.chunks⟩

theorem Exact.dropRemainder (h : b.Exact l i) (hid : i.Opened id) : (b.dropRemainder id).Exact l i := by
  have hdir := b.dropRemainder_dir id
  unfold Inbox.dropRemainder at hdir ⊢
  cases hb : (b.recvStreams id).readBuf with
  | none => exact h
  | some c =>
    rw [hb] at hdir
    have hbuf : (b.dir id).chunks = c :: (b.dir id).inbound.chunks := by
      simp only [RecvDir.chunks, dir, hb]
      rfl
    have hlen : b.held id = c.data.bytes.length + (bytesOf (b.dir id).inbound.chunks).length := by
      rw [b.held_eq, hbuf, bytesOf_cons, List.length_append]
    have hc := h.chunks id c (hbuf ▸ List.mem_cons_self)
    have hset : (b.setReadBuf id none).Owes l i b.held := h.owes.congr rfl rfl fun j => ⟨rfl, rfl, fun hd => hd⟩
    refine h.release c.data.bytes.length hdir (hset.dropChunk hid c hc (by omega)) ?_ ?_
    · change (bytesOf (b.dir id).inbound.chunks).length + c.data.bytes.length = b.held id
      omega
    · intro c' hc'
      exact h.chunks id c' (hbuf ▸ List.mem_cons_of_mem _ hc')

theorem Exact.readChunk (h : b.Exact l i) (b' : Inbox) (r : ReadChunk) (hr : b.readChunk id = (b', r))
    (hn : ∀ c, r ≠ .chunk c) : b'.Exact l i := by
  rcases b.readChunk_cases id with ⟨c, chunks, -, -, he⟩ | ⟨-, hc, -, he⟩ | ⟨error, he⟩ | he
  · rw [he] at hr
    cases hr
    exact absurd rfl (hn c)
  · rw [he] at hr
    cases hr
    exact h.setInbound _ rfl
  · rw [he] at hr
    cases hr
    exact h
  · rw [he] at hr
    cases hr
    exact h

theorem Exact.readWhole (h : b.Exact l i) (hid : i.Opened id) : (b.readWhole id).1.Exact l i := by
  unfold Inbox.readWhole
  rcases b.readChunk_cases id with ⟨c, chunks, -, hc, he⟩ | ⟨-, -, -, he⟩ | ⟨error, he⟩ | he
  · rw [he]
    simp only
    have hx := h.chunks id c (List.mem_append_right _ (hc ▸ List.mem_cons_self))
    have hlen : b.held id = (bytesOf (b.dir id).handle.readBuf.toList).length +
        (c.data.bytes.length + (bytesOf chunks).length) := by
      rw [b.held_eq, RecvDir.chunks, hc, bytesOf_append, bytesOf_cons, List.length_append, List.length_append]
    let b₁ := b.setInbound id { (b.dir id).inbound with chunks }
    have h₁ : b₁.Owes l i b.held := h.owes.mark _ rfl rfl rfl rfl rfl fun hd => hd
    have h₂ := h₁.consume hid c _ _ hx.conn hx.stream (le_refl _) (by omega)
    have hsnd := consume_permits b₁ id c _ _ hx.conn hx.stream (le_refl _)
    rw [Nat.sub_self] at hsnd
    have hempty : InboundChunk.Exact { (b₁.consume id c c.data.bytes.length).2 with data := .shared [] } := by
      rw [hsnd]
      exact ⟨rfl, rfl⟩
    have h₃ := h₂.dropChunk hid _ hempty (Nat.zero_le _)
    simp only [Function.update_self, Function.update_idem] at h₃
    have hdir := (b₁.intoBytes_dir id c).trans (b.setInbound_dir id { (b.dir id).inbound with chunks })
    refine h.release c.data.bytes.length hdir h₃ ?_ ?_
    · simp only [RecvDir.chunks, bytesOf_append, List.length_append]
      omega
    · intro c' hc'
      simp only [RecvDir.chunks] at hc'
      refine h.chunks id c' ?_
      rw [RecvDir.chunks, hc]
      rcases List.mem_append.mp hc' with hm | hm
      · exact List.mem_append_left _ hm
      · exact List.mem_append_right _ (List.mem_cons_of_mem _ hm)
  all_goals
    rw [he]
    exact h.readChunk _ _ he (by simp)

/-- The remainder of a partial read shrinks to `rest`. -/
theorem Exact.setReadBuf (h : b.Exact l i) (c : InboundChunk) (rest : Option InboundChunk) (n : Nat)
    (hb : (b.dir id).handle.readBuf = some c) (b' : Inbox)
    (hdir : b'.dir = Function.update b.dir id
      { b.dir id with handle := { (b.dir id).handle with readBuf := rest } })
    (ho : b'.Owes l i (Function.update b.held id (b.held id - n)))
    (hn : (bytesOf rest.toList).length + n = c.data.bytes.length) (hx : ∀ c' ∈ rest, c'.Exact) :
    b'.Exact l i := by
  have hchunks : (b.dir id).chunks = c :: (b.dir id).inbound.chunks := by
    simp only [RecvDir.chunks, hb]
    rfl
  have hlen : b.held id = c.data.bytes.length + (bytesOf (b.dir id).inbound.chunks).length := by
    rw [b.held_eq, hchunks, bytesOf_cons, List.length_append]
  refine h.release n hdir ho ?_ ?_
  · simp only [RecvDir.chunks, bytesOf_append, List.length_append]
    omega
  · intro c' hc'
    rcases List.mem_append.mp hc' with hm | hm
    · exact hx c' (Option.mem_toList.mp hm)
    · exact h.chunks id c' (hchunks ▸ List.mem_cons_of_mem _ hm)

theorem Exact.pollReadLoop (h : b.Exact l i) (hid : i.Opened id) (room turns : Nat) :
    (Inbox.pollReadLoop id room turns b).1.Exact l i := by
  induction turns generalizing b with
  | zero => exact h
  | succ turns ih =>
    unfold Inbox.pollReadLoop
    cases hbuf : (b.recvStreams id).readBuf with
    | some c =>
      have hb : (b.dir id).handle.readBuf = some c := hbuf
      have hchunks : (b.dir id).chunks = c :: (b.dir id).inbound.chunks := by
        simp only [RecvDir.chunks, hb]
        rfl
      have hlen : b.held id = c.data.bytes.length + (bytesOf (b.dir id).inbound.chunks).length := by
        rw [b.held_eq, hchunks, bytesOf_cons, List.length_append]
      have hx := h.chunks id c (hchunks ▸ List.mem_cons_self)
      have hset : ∀ (b₁ : Inbox) held rest, b₁.Owes l i held → (b₁.setReadBuf id rest).Owes l i held :=
        fun b₁ held rest ho => ho.congr rfl rfl fun j => ⟨rfl, rfl, fun hd => hd⟩
      simp only
      by_cases hcount : min c.data.bytes.length room = 0
      · rw [if_pos hcount]
        apply ih
        refine h.setReadBuf c none c.data.bytes.length hb _ ?_ ?_ (Nat.zero_add _) (by simp)
        · rw [dropChunk_dir, setReadBuf_dir]
        · exact (hset b _ none h.owes).dropChunk hid c hx (by omega)
      · rw [if_neg hcount]
        let count := min c.data.bytes.length room
        let c₁ : InboundChunk := { c with data := c.data.advance count }
        have hle : count ≤ c.data.bytes.length := Nat.min_le_left _ _
        have ho := h.owes.consume hid c₁ _ count hx.conn hx.stream hle (by omega)
        have hsnd := consume_permits b id c₁ _ count hx.conn hx.stream hle
        have hbytes : (b.consume id c₁ count).2.data.bytes = c.data.bytes.drop count :=
          ReceiveBuffer.advance_bytes _ _
        have hsize : (b.consume id c₁ count).2.data.bytes.length = c.data.bytes.length - count := by
          rw [hbytes, List.length_drop]
        have hx₁ : (b.consume id c₁ count).2.Exact := by
          refine ⟨?_, ?_⟩
          · rw [hsize, hsnd]
          · rw [hsize, hsnd]
        split_ifs with hleft
        · have hzero : (b.consume id c₁ count).2.data.bytes.length = 0 := List.length_eq_zero_iff.mpr hleft
          have hd := (hset _ _ none ho).dropChunk hid _ hx₁ (by rw [hzero]; exact Nat.zero_le _)
          simp only [Function.update_self, Function.update_idem, hzero, Nat.sub_zero] at hd
          refine h.setReadBuf c none count hb _ ?_ hd ?_ (by simp)
          · rw [dropChunk_dir, setReadBuf_dir, consume_dir]
          · simp only [Option.toList_none, bytesOf_nil, List.length_nil]
            omega
        · refine h.setReadBuf c (some (b.consume id c₁ count).2) count hb _ ?_ (hset _ _ _ ho) ?_ ?_
          · rw [setReadBuf_dir, consume_dir]
          · simp only [Option.toList_some, bytesOf_cons, bytesOf_nil, List.append_nil, hsize]
            omega
          · rintro c' hc'
            cases hc'
            exact hx₁
    | none =>
      simp only
      by_cases he : (b.recvStreams id).eof = true
      · rw [if_pos he]
        exact h
      · rw [if_neg he]
        rcases b.readChunk_cases id with ⟨c, chunks, -, hc, hx⟩ | ⟨-, -, -, hx⟩ | ⟨error, hx⟩ | hx
        · rw [hx]
          apply ih
          have hd : ((b.setInbound id { (b.dir id).inbound with chunks }).setReadBuf id (some c)).dir =
              Function.update b.dir id
                { b.dir id with
                  inbound := { (b.dir id).inbound with chunks }
                  handle := { (b.dir id).handle with readBuf := some c } } := by
            rw [setReadBuf_dir, setInbound_dir, Function.update_idem, Function.update_self]
          refine h.move hd (h.owes.mark _ rfl rfl rfl rfl rfl fun hd => hd) ?_
          have hnone : (b.dir id).handle.readBuf = none := hbuf
          simp only [RecvDir.chunks, hc, hnone]
          rfl
        · have h₁ := h.readChunk _ _ hx (by simp)
          rw [hx]
          refine h₁.move (dir_setHandle _ id _ _ rfl rfl) ?_ rfl
          exact h₁.owes.congr rfl rfl fun j => ⟨rfl, rfl, fun hd => hd⟩
        all_goals
          rw [hx]
          exact h

theorem Exact.pollRead (h : b.Exact l i) (hid : i.Opened id) (room : Nat) : (b.pollRead id room).1.Exact l i := by
  unfold Inbox.pollRead
  split_ifs
  · exact h
  · exact h.pollReadLoop hid room _

/-- A payload within the two windows is within the two budgets, and its length is a `u32`. -/
theorem Owes.fits {held : Nat → Nat} (h : b.Owes l i held) (hl : l.Valid) (hid : i.Opened id) (len : Nat)
    (hc : b.receiveWindow.received + len ≤ b.receiveWindow.advertised)
    (hs : (b.recv id).receiveWindow.received + len ≤ (b.recv id).receiveWindow.advertised) :
    len < 2 ^ 32 ∧ len ≤ b.inboundConnBytes.permits ∧
      ((b.recv id).recvDiscarded = false → len ≤ (b.recv id).inboundStreamBytes.permits) := by
  have hca := h.conn_sound.advertised_le
  have hcw := h.conn_window
  have hch := h.conn_held
  have hcp := h.conn_permits
  have hsa := (h.sound id).advertised_le
  have hsw := h.window id hid
  have hsp := h.permits id hid
  have hsle := (h.sound id).consumed_le
  have hin := hl.inbound
  have hu : u32Max < 2 ^ 32 := by decide
  refine ⟨by omega, by omega, fun hd => ?_⟩
  have hsh := h.held_eq id hd
  omega

/-- The payload is stored under two permits. -/
theorem Owes.store {held : Nat → Nat} (h : b.Owes l i held) (hid : i.Opened id) (len : Nat)
    (hc : b.receiveWindow.received + len ≤ b.receiveWindow.advertised)
    (hs : (b.recv id).receiveWindow.received + len ≤ (b.recv id).receiveWindow.advertised)
    (hd : (b.recv id).recvDiscarded = false) (chunks : List InboundChunk) (conn stream : Semaphore)
    (hconn : b.inboundConnBytes.permits = conn.permits + len)
    (hstream : (b.recv id).inboundStreamBytes.permits = stream.permits + len) :
    ((b.counted id len).stored id chunks conn stream).Owes l i (Function.update held id (held id + len)) := by
  have hcs := h.conn_sound
  have hss := h.sound id
  have hcle := hcs.consumed_le
  have hsle := hss.consumed_le
  have heq := h.held_eq id hd
  let r : RecvState :=
    { b.recv id with
      inbound := { (b.recv id).inbound with chunks }
      receiveWindow := { (b.recv id).receiveWindow with received := (b.recv id).receiveWindow.received + len }
      inboundStreamBytes := stream }
  have hr : ((b.counted id len).stored id chunks conn stream).recv = Function.update b.recv id r := by
    simp only [stored, counted, Function.update_self, Function.update_idem, r]
  refine h.update hid r _ hr ⟨?_, hc, hcs.advertised_le, hcs.advertised_max⟩ rfl ?_ ?_
    ⟨?_, hs, hss.advertised_le, hss.advertised_max⟩ rfl ?_ ?_ ?_
  all_goals simp only [stored, counted, r]
  all_goals omega

/-- The payload of a discarded direction is consumed at once, in the connection window only. -/
theorem Owes.skip {held : Nat → Nat} (h : b.Owes l i held) (hid : i.Opened id) (len : Nat)
    (hc : b.receiveWindow.received + len ≤ b.receiveWindow.advertised)
    (hs : (b.recv id).receiveWindow.received + len ≤ (b.recv id).receiveWindow.advertised)
    (hd : (b.recv id).recvDiscarded = true) :
    ({ b.counted id len with
        receiveWindow := ((b.counted id len).receiveWindow.consume len).1 } : Inbox).Owes l i held := by
  have hcs := h.conn_sound
  have hss := h.sound id
  have hcle := hcs.consumed_le
  have hsle := hss.consumed_le
  have hle := h.held_le id
  have hsound : (b.counted id len).receiveWindow.Sound :=
    ⟨hcle.trans (Nat.le_add_right _ _), hc, hcs.advertised_le, hcs.advertised_max⟩
  have hroom : (b.counted id len).receiveWindow.consumed + len ≤ (b.counted id len).receiveWindow.received :=
    Nat.add_le_add_right hcle len
  have hfst := ReceiveWindow.consume_fst _ len hsound hroom
  have hch : ((b.counted id len).receiveWindow.consume len).1.consumed + held id + b.receiveWindow.received =
      ((b.counted id len).receiveWindow.consume len).1.received + b.receiveWindow.consumed + held id := by
    rw [hfst]
    simp only [counted]
    omega
  let r : RecvState :=
    { b.recv id with
      receiveWindow := { (b.recv id).receiveWindow with received := (b.recv id).receiveWindow.received + len } }
  have hrs : r.receiveWindow.Sound := ⟨by simp only [r]; omega, hs, hss.advertised_le, hss.advertised_max⟩
  have hrle : r.receiveWindow.consumed + held id ≤ r.receiveWindow.received := by
    simp only [r]
    omega
  have hrd : r.recvDiscarded = false → r.receiveWindow.consumed + held id = r.receiveWindow.received := by
    intro hf
    rw [show r.recvDiscarded = true from hd] at hf
    cases hf
  let b' : Inbox := { b.counted id len with receiveWindow := ((b.counted id len).receiveWindow.consume len).1 }
  have hup : b'.Owes l i (Function.update held id (held id)) := h.update hid r (held id) rfl
    (ReceiveWindow.consume_sound _ len hsound hroom) (ReceiveWindow.consume_window _ _) hch rfl hrs rfl hrle
    hrd rfl
  rwa [Function.update_eq_self] at hup

/-- An exact queue stays exact when a payload is appended under permits of its length. -/
theorem appendPayload_exact (page : Nat) (payload : Bytes) (chunks chunks' : List InboundChunk)
    (h : appendPayload page payload (some payload.length) (some payload.length) chunks = .ok chunks')
    (hx : ∀ c ∈ chunks, c.Exact) : ∀ c ∈ chunks', c.Exact := by
  rcases appendPayload_cases page payload _ _ chunks chunks' h with
    ⟨rfl, -⟩ | ⟨front, data, capacity, conn, stream, conn', stream', rfl, hc, hs, -, rfl⟩
  · intro c hc
    rcases List.mem_append.mp hc with hm | hm
    · exact hx c hm
    · rw [List.mem_singleton.mp hm]
      refine ⟨?_, ?_⟩
      · rw [fresh_bytes]
        rfl
      · rw [fresh_bytes]
        rfl
  · have hlast := hx _ (List.mem_append_right _ List.mem_cons_self)
    intro c hm
    rcases List.mem_append.mp hm with hm | hm
    · exact hx c (List.mem_append_left _ hm)
    · rw [List.mem_singleton.mp hm]
      have hconn : conn = data.length := Option.some_inj.mp hlast.conn
      have hstream : stream = data.length := Option.some_inj.mp hlast.stream
      rw [← Option.some_inj.mp hc, ← Option.some_inj.mp hs, hconn, hstream, ← List.length_append]
      exact ⟨rfl, rfl⟩

theorem Exact.accept (h : b.Exact l i) (hl : l.Valid) (hid : i.Opened id) (l' : Limits) (payload : Bytes)
    (fin : Bool) (hacc : b.acceptData l' id payload fin = (b', .ok ())) : b'.Exact l i := by
  obtain ⟨hc, hs, b₁, hb₁, rfl⟩ := b.acceptData_ok id l' payload fin b' hacc
  have hlen := (h.owes.fits hl hid payload.length hc hs).1
  have hmod : payload.length % 2 ^ 32 = payload.length := Nat.mod_eq_of_lt hlen
  have h₁ : b₁.Exact l i := by
    rcases hb₁ with ⟨rfl, rfl⟩ | ⟨hne, hp⟩
    · exact h.sameDir (b.counted_dir id _) (h.owes.mark _ rfl rfl rfl rfl rfl fun hd => hd)
    · rcases pushInbound_ok _ id l' payload b₁ hne hp with
        ⟨hd, rfl⟩ | ⟨hd, -, conn, stream, chunks, hconn, hstream, happ, rfl⟩
      · have hdis : (b.recv id).recvDiscarded = true := by
          simpa [counted] using hd
        exact h.sameDir (b.counted_dir id payload.length) (h.owes.skip hid payload.length hc hs hdis)
      · have hdis : (b.recv id).recvDiscarded = false := by
          simpa [counted] using hd
        have hbefore : ((b.counted id payload.length).recv id).inbound = (b.dir id).inbound :=
          congrArg RecvDir.inbound (congrFun (b.counted_dir id payload.length) id)
        rw [hmod, hbefore] at happ
        rw [hmod] at hconn hstream
        have hx := appendPayload_exact _ payload _ _ happ fun c hm => h.chunks id c (List.mem_append_right _ hm)
        have hbytes := appendPayload_bytes _ payload _ _ _ _ happ
        have hcp := (Semaphore.tryAcquire_eq_some _ _ _ hconn).2.2
        have hsp := (Semaphore.tryAcquire_eq_some _ _ _ hstream).2.2
        have hsem : ((b.counted id payload.length).recv id).inboundStreamBytes = (b.recv id).inboundStreamBytes := by
          simp [counted]
        rw [hsem] at hsp
        have ho := h.owes.store hid payload.length hc hs hdis chunks conn stream hcp hsp
        have hdir : ((b.counted id payload.length).stored id chunks conn stream).dir =
            Function.update b.dir id { b.dir id with inbound := { (b.dir id).inbound with chunks } } := by
          have hd := dir_setRecv (b.counted id payload.length) id
            ((b.counted id payload.length).stored id chunks conn stream) _ rfl rfl
          rw [hd, b.counted_dir id payload.length]
          simp only [counted, Function.update_self]
          rfl
        refine h.set hdir ?_ ?_
        · have hlen : RecvDir.content { b.dir id with inbound := { (b.dir id).inbound with chunks } } =
              (b.dir id).content ++ payload := by
            simp only [RecvDir.content, hbytes, List.append_assoc]
          rw [hlen, List.length_append]
          exact ho
        · intro c hm
          rcases List.mem_append.mp hm with hm | hm
          · exact h.chunks id c (List.mem_append_left _ hm)
          · exact hx c hm
  split_ifs
  · exact h₁.markRecvTerminal
  · exact h₁

/-- A new stream holds nothing and has its whole budget. -/
theorem Exact.create (h : b.Exact l i) (hl : l.Valid) {i' : Ids} (hle : i.bound ≤ i'.bound)
    (ho : ∀ j, i'.Opened j ↔ i.Opened j ∨ j = id) (hn : ¬ i.Opened id) : (b.create l id).Exact l i' := by
  have hzero := h.owes.unheld id hn
  have hsum : ∑ j ∈ Finset.range i'.bound, b.held j = ∑ j ∈ Finset.range i.bound, b.held j :=
    RangeSum.extend hle fun j hj => h.owes.unheld j fun hop => absurd hop.lt_bound (Nat.not_lt.mpr hj)
  have hheld : (b.create l id).held = b.held := by
    rw [held_setDir (b.create_dir l id)]
    exact Function.update_eq_self_iff.mpr hzero.symm
  have hself : (b.create l id).recv id =
      { receiveWindow := ReceiveWindow.new l.maxInboundStreamBytes
        inboundStreamBytes := ⟨l.maxInboundStreamBytes, false⟩ } := Function.update_self ..
  have hother : ∀ j, j ≠ id → (b.create l id).recv j = b.recv j := fun j hj => Function.update_of_ne hj _ _
  have hu : u32Max ≤ varIntMax := by decide
  have hin := hl.inbound
  refine ⟨hheld ▸ ⟨h.owes.conn_sound, h.owes.conn_window, ?_, ?_, ?_, ?_, ?_, ?_, ?_, ?_⟩, ?_⟩
  · rw [hsum]
    exact h.owes.conn_held
  · rw [hsum]
    exact h.owes.conn_permits
  · intro j
    by_cases hj : j = id
    · subst hj
      rw [hself]
      exact ReceiveWindow.new_sound _ (by omega)
    · rw [hother j hj]
      exact h.owes.sound j
  · intro j hjo
    by_cases hj : j = id
    · subst hj
      rw [hself]
      rfl
    · rw [hother j hj]
      exact h.owes.window j (((ho j).mp hjo).resolve_right hj)
  · intro j
    by_cases hj : j = id
    · subst hj
      rw [hself, hzero]
      exact le_refl _
    · rw [hother j hj]
      exact h.owes.held_le j
  · intro j hd
    by_cases hj : j = id
    · subst hj
      rw [hself, hzero]
      rfl
    · rw [hother j hj] at hd ⊢
      exact h.owes.held_eq j hd
  · intro j hjo
    by_cases hj : j = id
    · subst hj
      rw [hself, hzero]
      rfl
    · rw [hother j hj]
      exact h.owes.permits j (((ho j).mp hjo).resolve_right hj)
  · exact fun j hj => h.owes.unheld j fun hop => hj ((ho j).mpr (.inl hop))
  · intro j
    rw [b.create_dir l id]
    by_cases hj : j = id
    · subst hj
      rw [Function.update_self]
      intro c hc
      cases hc
    · rw [Function.update_of_ne hj]
      exact h.chunks j

theorem update_counts (w : ReceiveWindow) :
    w.update.1.consumed = w.consumed ∧ w.update.1.received = w.received ∧ w.update.1.window = w.window := by
  rcases w.update_cases with ⟨-, he⟩ | ⟨-, -, m, -, he⟩ <;> rw [he] <;> exact ⟨rfl, rfl, rfl⟩

theorem Exact.grantConn (h : b.Exact l i) : b.grantConn.Exact l i := by
  obtain ⟨hc, hr, hw⟩ := update_counts b.receiveWindow
  refine h.sameDir rfl { h.owes with conn_sound := ?_, conn_window := ?_, conn_held := ?_ }
  · exact ReceiveWindow.update_sound _ h.owes.conn_sound
  · exact hw.trans h.owes.conn_window
  · change b.receiveWindow.update.1.consumed + _ = b.receiveWindow.update.1.received
    rw [hc, hr]
    exact h.owes.conn_held

theorem Exact.grantStream (h : b.Exact l i) (hid : i.Opened id) : (b.grantStream id).Exact l i := by
  obtain ⟨hc, hr, hw⟩ := update_counts (b.recv id).receiveWindow
  have hle := h.owes.held_le id
  have heq := h.owes.held_eq id
  have hup : (b.grantStream id).Owes l i (Function.update b.held id (b.held id)) := h.owes.update hid
    { b.recv id with receiveWindow := (b.recv id).receiveWindow.update.1 } (b.held id) rfl h.owes.conn_sound rfl
    (by simp only [Inbox.grantStream]; omega) rfl (ReceiveWindow.update_sound _ (h.owes.sound id)) hw
    (by simp only; omega) (fun hd => by have := heq hd; simp only; omega) rfl
  rw [Function.update_eq_self] at hup
  exact h.sameDir (b.grantStream_dir id) hup

end Inbox

namespace Receiver

variable {l : Limits} {isClient : Bool} {v v' : Receiver} {log evs : List Event}

theorem exact_step (hl : l.Valid) (hv : v.WF l) (h : v.inbox.Exact l v.ids) (hs : RecvStep v evs v')
    (hrej : ∀ error, .rejected error ∉ evs) : v'.inbox.Exact l v'.ids := by
  have hheld : ∀ id, v.holder id ≠ .waiting → v.ids.Opened id := fun id hh => hv.opened_of_holder id hh
  cases hs with
  | quiet => exact h
  | reject error => exact absurd List.mem_cons_self (hrej error)
  | shut => exact h.shut v.streams
  | openLocal hid =>
    have hc := h.create hl (Ids.bound_takeLocal v.ids) (fun j => Ids.opened_takeLocal hv.ids j)
      (Ids.not_opened_nextLocal hv.ids)
    exact hv.limits ▸ hc
  | openRemote _ done hid hlog =>
    have hc := h.create hl (Ids.bound_takeRemote v.ids) (fun j => Ids.opened_takeRemote hv.ids j)
      (Ids.not_opened_nextRemote hv.ids)
    exact hv.limits ▸ hc
  | accept id hw hid => exact h
  | drop id hh => exact h.dropRemainder (hheld id (by simp [hh]))
  | discard id hh => exact h.discardInbound (hheld id (by simp [hh]))
  | free id hh => exact h.clearChunks (hheld id (by simp [hh]))
  | readWhole id hh hm => exact h.readWhole (hheld id (by simp [hh]))
  | pollRead id room hh => exact h.pollRead (hheld id (by simp [hh])) room
  | stream streamId fin payload inbox hd hm ht hacc => exact h.accept hl (hv.streams _ hm) v.limits payload fin hacc
  | refuse id fin payload inbox error hm hacc => exact absurd List.mem_cons_self (hrej error)
  | reset streamId errorCode hd hm ht => exact (h.markReset (hv.streams _ hm) _).markRecvTerminal
  | grantConn maximum hu => exact h.grantConn
  | grantStream id maximum hm ht hd hu => exact h.grantStream (hv.streams id hm)
  | retire id ht => exact h

/-- Until a frame is rejected the inbound accounting is exact. -/
theorem reach_exact (hl : l.Valid) (h : (machine l isClient).Reach v log) (hrej : ∀ error, .rejected error ∉ log) :
    v.inbox.Exact l v.ids := by
  refine h.invariant (fun v log => (∀ error, .rejected error ∉ log) → v.inbox.Exact l v.ids) ?_ ?_ hrej
  · intro v (hi : v = _) _
    subst hi
    have hu : u32Max ≤ varIntMax := by decide
    have hin := hl.inbound
    have hzero : ∑ j ∈ Finset.range (Ids.start isClient).bound, (Shared.new l isClient).inbox.held j = 0 :=
      Finset.sum_eq_zero fun _ _ => rfl
    refine ⟨⟨?_, rfl, ?_, ?_, ?_, ?_, ?_, ?_, ?_, ?_⟩, ?_⟩
    · exact ReceiveWindow.new_sound _ (by omega)
    · exact (Nat.zero_add _).trans hzero
    · change l.maxInboundConnectionBytes + ∑ j ∈ Finset.range (Ids.start isClient).bound,
        (Shared.new l isClient).inbox.held j = _
      rw [hzero]
      rfl
    · exact fun _ => ReceiveWindow.new_sound 0 (Nat.zero_le _)
    · exact fun j hj => absurd hj (Ids.not_opened_start isClient j)
    · exact fun _ => le_refl _
    · exact fun _ _ => rfl
    · exact fun j hj => absurd hj (Ids.not_opened_start isClient j)
    · exact fun _ _ => rfl
    · intro j c hc
      cases hc
  · intro v log evs v' hr hx hs hn
    exact exact_step hl (reach_wf hr) (hx fun error he => hn error (List.mem_append_left _ he)) hs
      fun error he => hn error (List.mem_append_right _ he)

end Receiver
end Muxtls
