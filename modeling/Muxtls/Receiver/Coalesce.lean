import Muxtls.Receiver.Read
import Muxtls.Sender.OpenFirst
import Mathlib.Data.List.Chain

namespace Muxtls

/-- In a list whose neighbours make up `k` together, the length is bounded by the total. -/
theorem length_le_of_pairs {α : Type*} (size : α → Nat) {k : Nat} (hk : 0 < k) :
    ∀ xs : List α, xs.IsChain (fun x y => k ≤ size x + size y) → xs.length ≤ 2 * ((xs.map size).sum / k) + 1
  | [], _ => Nat.zero_le _
  | [_], _ => Nat.le_add_left _ _
  | x :: y :: xs, h => by
    have hxy : k ≤ size x + size y := (List.isChain_cons_cons.mp h).1
    have ih := length_le_of_pairs size hk xs h.tail.tail
    have hdiv : (xs.map size).sum / k + 1 ≤ (((x :: y :: xs).map size).sum) / k := by
      rw [← Nat.add_div_right _ hk]
      apply Nat.div_le_div_right
      simp only [List.map_cons, List.sum_cons]
      omega
    simp only [List.length_cons]
    omega

/-- A page stays within its capacity; bytes keep their own buffer from half a page on. -/
def ReceiveBuffer.Kind (page : Nat) : ReceiveBuffer → Prop
  | .page data capacity => data.length ≤ page ∧ capacity = page
  | .shared data => (page + 1) / 2 ≤ data.length

namespace InboundChunk

def size (c : InboundChunk) : Nat := c.data.bytes.length

/-- The allocated bytes of a page that hold no data. -/
def spare (c : InboundChunk) : Nat :=
  match c.data with
  | .page data capacity => capacity - data.length
  | .shared _ => 0

end InboundChunk

namespace Inbox

/-- What `push_inbound` keeps of the queue of one stream. -/
structure Packed (page : Nat) (chunks : List InboundChunk) : Prop where
  permits : ∀ c ∈ chunks, c.connPermit.isSome = true ∧ c.streamPermit.isSome = true
  kinds : ∀ c ∈ chunks, c.data.Kind page
  pairs : chunks.IsChain fun c c' => (page + 1) / 2 ≤ c.size + c'.size

variable {page : Nat} {payload : Bytes} {chunks chunks' : List InboundChunk} {conn stream : Nat}

theorem packed_nil (page : Nat) : Packed page [] := ⟨by simp, by simp, List.isChain_nil⟩

theorem Packed.tail {c : InboundChunk} (h : Packed page (c :: chunks)) : Packed page chunks :=
  ⟨fun d hd => h.permits d (List.mem_cons_of_mem c hd),
    fun d hd => h.kinds d (List.mem_cons_of_mem c hd), h.pairs.tail⟩

theorem fresh_kind (page : Nat) (payload : Bytes) (connPermit streamPermit : Option Nat) :
    (appendPayload.fresh page payload connPermit streamPermit).data.Kind page := by
  unfold appendPayload.fresh ReceiveBuffer.Kind
  split_ifs with h
  · exact ⟨by omega, rfl⟩
  · exact Nat.le_of_not_lt h

/-- The tail that a payload does not join is already large enough beside it. -/
theorem Packed.beside (h : Packed page chunks) (hfit : fitsTail page payload chunks = false) {c : InboundChunk}
    (hc : chunks.getLast? = some c) : (page + 1) / 2 ≤ c.size + payload.length := by
  have hk := h.kinds c (List.mem_of_getLast? hc)
  unfold fitsTail at hfit
  rw [hc] at hfit
  obtain ⟨data | ⟨data, capacity⟩, connPermit, streamPermit⟩ := c
  · exact Nat.le_add_right_of_le hk
  · simp only [decide_eq_false_iff_not] at hfit
    simp only [InboundChunk.size, ReceiveBuffer.bytes]
    omega

theorem Packed.append (h : Packed page chunks)
    (ha : appendPayload page payload (some conn) (some stream) chunks = .ok chunks') : Packed page chunks' := by
  rcases appendPayload_cases page payload _ _ chunks chunks' ha with
    ⟨rfl, hfit⟩ | ⟨front, data, capacity, a, b, _, _, rfl, -, -, hle, rfl⟩
  · refine ⟨fun c hc => ?_, fun c hc => ?_, List.isChain_append.mpr ⟨h.pairs, List.isChain_singleton _, ?_⟩⟩
    · rcases List.mem_append.mp hc with hm | hm
      · exact h.permits c hm
      · rw [List.mem_singleton.mp hm]
        exact ⟨rfl, rfl⟩
    · rcases List.mem_append.mp hc with hm | hm
      · exact h.kinds c hm
      · rw [List.mem_singleton.mp hm]
        exact fresh_kind page payload _ _
    · intro c hc c' hc'
      cases hc'
      rw [InboundChunk.size, InboundChunk.size, fresh_bytes]
      exact h.beside hfit hc
  · have hkind := h.kinds _ (List.mem_append_right _ (List.mem_singleton_self _))
    obtain ⟨hfront, -, hlast⟩ := List.isChain_append.mp h.pairs
    refine ⟨fun c hc => ?_, fun c hc => ?_, List.isChain_append.mpr ⟨hfront, List.isChain_singleton _, ?_⟩⟩
    · rcases List.mem_append.mp hc with hm | hm
      · exact h.permits c (List.mem_append_left _ hm)
      · rw [List.mem_singleton.mp hm]
        exact ⟨rfl, rfl⟩
    · rcases List.mem_append.mp hc with hm | hm
      · exact h.kinds c (List.mem_append_left _ hm)
      · rw [List.mem_singleton.mp hm]
        exact ⟨by rw [List.length_append]; exact hle, hkind.2⟩
    · -- the page at the tail only grows
      intro c hc c' hc'
      cases hc'
      have hold := hlast c hc _ rfl
      simp only [InboundChunk.size, ReceiveBuffer.bytes, List.length_append] at hold ⊢
      omega

theorem Packed.length_le (h : Packed page chunks) (hp : 0 < page) :
    chunks.length ≤ 2 * ((bytesOf chunks).length / ((page + 1) / 2)) + 1 := by
  have hlen : (bytesOf chunks).length = (chunks.map InboundChunk.size).sum := by
    rw [bytesOf, List.length_flatMap]
    rfl
  rw [hlen]
  exact length_le_of_pairs InboundChunk.size (by omega) chunks h.pairs

theorem Packed.push_ok (b : Inbox) (l : Limits) (id : Nat) (h : Packed (pageSize l) (b.recv id).inbound.chunks)
    (hne : payload ≠ []) (message : String) : (b.pushInbound l id payload).2 ≠ .error (.panicked message) := by
  have hlen : payload.length ≠ 0 := fun h0 => hne (List.length_eq_zero_iff.mp h0)
  obtain ⟨chunks', happ⟩ :=
    appendPayload_ok (pageSize l) payload (payload.length % 2 ^ 32) (payload.length % 2 ^ 32) _ h.permits
  unfold pushInbound
  simp only [acquirePermit, if_neg hlen]
  by_cases hd : (b.recv id).recvDiscarded = true
  · simp [hd]
  · cases hc : b.inboundConnBytes.tryAcquire (payload.length % 2 ^ 32) with
    | none => simp [hd]
    | some conn =>
      cases hs : (b.recv id).inboundStreamBytes.tryAcquire (payload.length % 2 ^ 32) with
      | none => simp [hd]
      | some stream => by_cases hf : (b.recv id).inbound.finReceived = true <;> simp [hd, hf, happ, -Nat.reducePow]

inductive QueueEvent where
  | pushed (payload : Bytes)
  | popped (c : InboundChunk)

/-- The steps of the queue of stream `id`: a payload that `push_inbound` accepts, a chunk that
`read_chunk` takes, and whatever leaves this queue alone. `ok` restricts the payloads. -/
inductive QueueStep (l : Limits) (id : Nat) (ok : List InboundChunk → Bytes → Prop) :
    Inbox → List QueueEvent → Inbox → Prop
  | push (b b' : Inbox) (payload : Bytes) (hne : payload ≠ []) (hd : (b.recv id).recvDiscarded = false)
    (hok : ok (b.recv id).inbound.chunks payload) (h : b.pushInbound l id payload = (b', .ok ())) :
    QueueStep l id ok b [.pushed payload] b'
  | pop (b b' : Inbox) (c : InboundChunk) (h : b.readChunk id = (b', .chunk c)) :
    QueueStep l id ok b [.popped c] b'
  | other (b b' : Inbox) (h : (b'.recv id).inbound.chunks = (b.recv id).inbound.chunks) : QueueStep l id ok b [] b'

/-- The queue of a stream, from when it is created. -/
def queueMachine (l : Limits) (id : Nat) (ok : List InboundChunk → Bytes → Prop) : Machine Inbox QueueEvent where
  init b := (b.recv id).inbound.chunks = []
  step := QueueStep l id ok

/-- The bytes of the accepted payloads. -/
def pushedBytes (log : List QueueEvent) : Bytes :=
  log.flatMap fun
    | .pushed payload => payload
    | .popped _ => []

/-- The bytes of the chunks taken off the queue. -/
def poppedBytes (log : List QueueEvent) : Bytes :=
  log.flatMap fun
    | .pushed _ => []
    | .popped c => c.data.bytes

variable {l : Limits} {id : Nat} {ok : List InboundChunk → Bytes → Prop} {b b' : Inbox} {log evs : List QueueEvent}

/-- What a step does to the queue. -/
theorem QueueStep.queue (h : QueueStep l id ok b evs b') :
    (∃ payload conn stream, ok (b.recv id).inbound.chunks payload ∧ evs = [.pushed payload] ∧
        appendPayload (pageSize l) payload (some conn) (some stream) (b.recv id).inbound.chunks =
          .ok (b'.recv id).inbound.chunks) ∨
      (∃ c, evs = [.popped c] ∧ (b.recv id).inbound.chunks = c :: (b'.recv id).inbound.chunks) ∨
      evs = [] ∧ (b'.recv id).inbound.chunks = (b.recv id).inbound.chunks := by
  cases h with
  | push _ payload hne hd hok h =>
    rcases b.pushInbound_ok id l payload b' hne h with
      ⟨hdis, -⟩ | ⟨-, -, conn, stream, chunks, -, -, happ, rfl⟩
    · rw [hd] at hdis; cases hdis
    · exact .inl ⟨payload, _, _, hok, rfl, by simpa [stored] using happ⟩
  | pop _ c h =>
    refine .inr (.inl ⟨c, rfl, ?_⟩)
    rcases b.readChunk_cases id with ⟨c', chunks, -, hc, he⟩ | ⟨-, -, -, he⟩ | ⟨error, he⟩ | he <;>
      rw [he] at h <;> cases h
    simpa [setInbound, dir] using hc
  | other _ h => exact .inr (.inr ⟨rfl, h⟩)

theorem reach_packed (h : (queueMachine l id ok).Reach b log) :
    Packed (pageSize l) (b.recv id).inbound.chunks ∧
      pushedBytes log = poppedBytes log ++ bytesOf (b.recv id).inbound.chunks := by
  refine h.invariant (fun b log => Packed (pageSize l) (b.recv id).inbound.chunks ∧
    pushedBytes log = poppedBytes log ++ bytesOf (b.recv id).inbound.chunks) ?_ ?_
  · intro b hb
    rw [show (b.recv id).inbound.chunks = [] from hb]
    exact ⟨packed_nil _, rfl⟩
  · rintro b log evs b' - ⟨hp, hbytes⟩ hs
    simp only [pushedBytes, poppedBytes] at hbytes ⊢
    rw [List.flatMap_append, List.flatMap_append, hbytes]
    rcases QueueStep.queue hs with ⟨payload, conn, stream, -, rfl, happ⟩ | ⟨c, rfl, hc⟩ | ⟨rfl, hc⟩
    · refine ⟨hp.append happ, ?_⟩
      rw [appendPayload_bytes _ _ _ _ _ _ happ]
      simp
    · rw [hc] at hp ⊢
      exact ⟨hp.tail, by simp⟩
    · rw [hc]
      exact ⟨hp, by simp⟩

/-- Coalescing keeps the bytes in order, keeps pages within a page, never misses a permit, and bounds
the number of chunks by the bytes they hold. -/
theorem coalescing_bounded (l : Limits) (hl : l.validate = .ok ()) (id : Nat) (b : Inbox) (log : List QueueEvent)
    (h : (queueMachine l id fun _ _ => True).Reach b log) :
    pushedBytes log = poppedBytes log ++ bytesOf (b.recv id).inbound.chunks ∧
      (∀ data capacity conn stream, ⟨.page data capacity, conn, stream⟩ ∈ (b.recv id).inbound.chunks →
        data.length ≤ pageSize l) ∧
      (∀ payload, payload ≠ [] → ∀ message, (b.pushInbound l id payload).2 ≠ .error (.panicked message)) ∧
      (b.recv id).inbound.chunks.length ≤
        2 * ((bytesOf (b.recv id).inbound.chunks).length / ((pageSize l + 1) / 2)) + 1 := by
  obtain ⟨hp, hbytes⟩ := reach_packed h
  have hv := (l.validate_ok_iff).mp hl
  have hpos : 0 < pageSize l := lt_min hv.inbound.1 (by decide)
  exact ⟨hbytes, fun data capacity conn stream hm => (hp.kinds _ hm).1,
    fun payload hne message => hp.push_ok b l id hne message, hp.length_le hpos⟩

/-- A stream of a connection with the default limits, before any data. -/
def fresh : Inbox := ((Shared.new {} true).createStream 0).inbox

theorem coalescing_bounded_two : ∃ b log, (queueMachine {} 0 fun _ _ => True).Reach b log ∧
    pushedBytes log = [1, 2, 3] ∧ (b.recv 0).inbound.chunks.length ≤
      2 * ((bytesOf (b.recv 0).inbound.chunks).length / ((pageSize {} + 1) / 2)) + 1 := by
  have h₀ : (queueMachine {} 0 fun _ _ => True).Reach fresh [] := .init rfl
  have h₁ := h₀.step (.push fresh (fresh.pushInbound {} 0 [1]).1 [1] (by decide) rfl trivial rfl)
  have h₂ := h₁.step (.push _ ((fresh.pushInbound {} 0 [1]).1.pushInbound {} 0 [2, 3]).1 [2, 3] (by decide) rfl
    trivial rfl)
  exact ⟨_, _, h₂, rfl, (coalescing_bounded {} (by decide) 0 _ _ h₂).2.2.2⟩

/-- The allocated bytes without data, over the pages of a queue. -/
def spare (chunks : List InboundChunk) : Nat := (chunks.map InboundChunk.spare).sum

theorem spare_append (chunks chunks' : List InboundChunk) :
    spare (chunks ++ chunks') = spare chunks + spare chunks' := by
  simp [spare]

/-- A payload that starts a new page is at least as long as the spare space already in the queue. -/
def CoversSpare (l : Limits) (chunks : List InboundChunk) (payload : Bytes) : Prop :=
  fitsTail (pageSize l) payload chunks = false → payload.length < (pageSize l + 1) / 2 →
    spare chunks ≤ payload.length

theorem fresh_spare (page : Nat) (payload : Bytes) (connPermit streamPermit : Option Nat) :
    (appendPayload.fresh page payload connPermit streamPermit).spare =
      if payload.length < (page + 1) / 2 then page - payload.length else 0 := by
  unfold appendPayload.fresh InboundChunk.spare
  split_ifs <;> rfl

/-- A queue with at most one page of spare space has no more after a push exactly when the payload covers
what is spare or starts no page. -/
theorem spare_append_le_iff {connPermit streamPermit : Option Nat} (hs : spare chunks ≤ pageSize l)
    (ha : appendPayload (pageSize l) payload connPermit streamPermit chunks = .ok chunks') :
    spare chunks' ≤ pageSize l ↔ CoversSpare l chunks payload := by
  rcases appendPayload_cases _ payload _ _ chunks chunks' ha with
    ⟨rfl, hfit⟩ | ⟨front, data, capacity, a, b, _, _, rfl, -, -, hle, rfl⟩
  · have hnew : spare [appendPayload.fresh (pageSize l) payload connPermit streamPermit] =
        if payload.length < (pageSize l + 1) / 2 then pageSize l - payload.length else 0 := by
      rw [← fresh_spare (pageSize l) payload connPermit streamPermit]
      simp [spare]
    rw [spare_append, hnew]
    by_cases hsmall : payload.length < (pageSize l + 1) / 2
    · rw [if_pos hsmall]
      have hcov : CoversSpare l chunks payload ↔ spare chunks ≤ payload.length :=
        ⟨fun h => h hfit hsmall, fun h _ _ => h⟩
      rw [hcov]
      omega
    · rw [if_neg hsmall]
      exact ⟨fun _ _ h => absurd h hsmall, fun _ => hs⟩
  · -- the payload joins the page at the tail, whose spare space shrinks
    have hfit : fitsTail (pageSize l) payload (front ++ [⟨.page data capacity, some a, some b⟩]) = true := by
      simp [fitsTail, hle]
    refine ⟨fun _ h => absurd hfit (by simp [h]), fun _ => ?_⟩
    rw [spare_append] at hs ⊢
    simp only [spare, List.map_cons, List.map_nil, List.sum_cons, List.sum_nil, InboundChunk.spare,
      List.length_append] at hs ⊢
    omega

theorem reach_spare_le (h : (queueMachine l id (CoversSpare l)).Reach b log) :
    spare (b.recv id).inbound.chunks ≤ pageSize l := by
  refine h.invariant (fun b _ => spare (b.recv id).inbound.chunks ≤ pageSize l) ?_ ?_
  · intro b hb
    rw [show (b.recv id).inbound.chunks = [] from hb]
    exact Nat.zero_le _
  · intro b log evs b' _ hspare hs
    rcases QueueStep.queue hs with ⟨payload, conn, stream, hok, rfl, happ⟩ | ⟨c, rfl, hc⟩ | ⟨rfl, hc⟩
    · exact (spare_append_le_iff hspare happ).mpr hok
    · rw [hc] at hspare
      simp only [spare, List.map_cons, List.sum_cons] at hspare ⊢
      omega
    · rw [hc]
      exact hspare

/-- If every payload that starts a page covers the spare space already queued, the spare space is at most
one page; and from such a state a push keeps the bound exactly when it meets that condition. -/
theorem spare_page_bounded (l : Limits) (id : Nat) (b : Inbox) (log : List QueueEvent)
    (h : (queueMachine l id (CoversSpare l)).Reach b log) :
    spare (b.recv id).inbound.chunks ≤ pageSize l ∧
      ∀ b' payload, payload ≠ [] → (b.recv id).recvDiscarded = false →
      b.pushInbound l id payload = (b', .ok ()) →
        (spare (b'.recv id).inbound.chunks ≤ pageSize l ↔ CoversSpare l (b.recv id).inbound.chunks payload) := by
  have hspare := reach_spare_le h
  refine ⟨hspare, fun b' payload hne hd hpush => ?_⟩
  have hstep : QueueStep l id (fun _ _ => True) b [.pushed payload] b' := .push b b' payload hne hd trivial hpush
  rcases hstep.queue with ⟨_, conn, stream, -, heq, happ⟩ | ⟨c, heq, -⟩ | ⟨heq, -⟩
  · cases heq
    exact spare_append_le_iff hspare happ
  · cases heq
  · cases heq

instance (l : Limits) (chunks : List InboundChunk) (payload : Bytes) : Decidable (CoversSpare l chunks payload) :=
  inferInstanceAs (Decidable (_ → _ → _))

/-- Two payloads that share a page, one that does not fit on it, and one that starts a second page. -/
def mixedPayload : Nat → Bytes
  | 0 => List.replicate 8100 0
  | 1 => List.replicate 8000 1
  | 2 => List.replicate 8200 2
  | _ => List.replicate 300 3

/-- A stream after the first `n` of them. -/
def mixed : Nat → Inbox
  | 0 => fresh
  | n + 1 => ((mixed n).pushInbound {} 0 (mixedPayload n)).1

/-- The page that is left has 284 spare bytes, and the payload that starts the second page has 300. -/
theorem spare_page_bounded_mixed : ∃ b log, (queueMachine {} 0 (CoversSpare {})).Reach b log ∧
    (pushedBytes log).length = 8100 + 8000 + 8200 + 300 ∧
      (b.recv 0).inbound.chunks.map InboundChunk.spare = [284, 0, 16084] ∧
      spare (b.recv 0).inbound.chunks ≤ pageSize {} := by
  have hpush (n : Nat) (hn : n < 4) (log : List QueueEvent)
      (h : (queueMachine {} 0 (CoversSpare {})).Reach (mixed n) log) :
      (queueMachine {} 0 (CoversSpare {})).Reach (mixed (n + 1)) (log ++ [.pushed (mixedPayload n)]) := by
    have hok : ∀ n < 4, mixedPayload n ≠ [] ∧ ((mixed n).recv 0).recvDiscarded = false ∧
        CoversSpare {} ((mixed n).recv 0).inbound.chunks (mixedPayload n) ∧
        ((mixed n).pushInbound {} 0 (mixedPayload n)).2 = .ok () := by decide +kernel
    obtain ⟨hne, hd, hcov, hres⟩ := hok n hn
    exact h.step (.push _ _ (mixedPayload n) hne hd hcov (Prod.ext rfl hres))
  have h₄ :=
    hpush 3 (by decide) _ (hpush 2 (by decide) _ (hpush 1 (by decide) _ (hpush 0 (by decide) [] (.init rfl))))
  exact ⟨_, _, h₄, by decide +kernel, by decide +kernel, (spare_page_bounded {} 0 _ _ h₄).1⟩

end Inbox

namespace Endpoint

/-- The peer opens stream 1 and sends one byte, a whole page and one byte, all within its credit: each
of the two single bytes holds a page of its own. -/
theorem spare_pages_add_up :
    ∃ e log, (machine smallLimits true).Reach e log ∧ e.shared.closed = false ∧
      Inbox.spare (e.shared.inbox.recv 1).inbound.chunks = 2 * (Inbox.pageSize smallLimits - 1) ∧
      Inbox.pageSize smallLimits < Inbox.spare (e.shared.inbox.recv 1).inbound.chunks := by
  have hrun : (Machine.runList step { shared := .new smallLimits true }
      [.receive (settingsFrame smallLimits).wire, .receive (Frame.openStream (.expect 1)).wire,
        .receive (Frame.stream (.expect 1) false [0]).wire,
        .receive (Frame.stream (.expect 1) false (List.replicate (16 * 1024) 0)).wire,
        .receive (Frame.stream (.expect 1) false [0]).wire]).map (fun r =>
      (r.1.shared.closed, Inbox.spare (r.1.shared.inbox.recv 1).inbound.chunks)) = some (false, 32766) := by
    decide +kernel
  have h0 : connect smallLimits true = .ok { shared := .new smallLimits true } := rfl
  obtain ⟨e, log, hr, heq⟩ := Machine.runList_reach (connect smallLimits true = .ok ·) h0 _ _ hrun
  obtain ⟨hopen, hspare⟩ := Prod.mk.inj heq
  exact ⟨e, log, hr, hopen, hspare, by rw [hspare]; decide⟩

end Endpoint
end Muxtls
