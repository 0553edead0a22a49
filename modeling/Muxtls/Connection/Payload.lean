import Muxtls.Connection.Endpoint
import Muxtls.Lib.Search

namespace Muxtls

/-- The size of a STREAM frame with a payload of `len` bytes. -/
def streamSize (streamId : VarInt) (len : Nat) : Nat :=
  1 + streamId.encodedLen + 1 + (VarInt.expect len).encodedLen + len

theorem streamSize_mono (streamId : VarInt) {m n : Nat} (h : m ≤ n) :
    streamSize streamId m ≤ streamSize streamId n := by
  have hm : (VarInt.expect m).encodedLen ≤ (VarInt.expect n).encodedLen :=
    VarInt.encodedLen_mono (min_le_min_right _ h)
  unfold streamSize
  omega

/-- Every STREAM frame for `streamId` with a payload of `len` bytes has at most `limit` bytes. -/
def StreamFits (limit : Nat) (streamId : VarInt) (len : Nat) : Prop :=
  ∀ (fin : Bool) (payload : Bytes), payload.length = len →
    ∃ n, (Frame.stream streamId fin payload).encodedLen = .ok n ∧ n ≤ limit

theorem encodedLen_le_iff (limit : Nat) (streamId : VarInt) (fin : Bool) (payload : Bytes) :
    (∃ n, (Frame.stream streamId fin payload).encodedLen = .ok n ∧ n ≤ limit) ↔
      payload.length ≤ varIntMax ∧ streamSize streamId payload.length ≤ limit := by
  simp only [Frame.stream_encodedLen, streamSize]
  constructor
  · rintro ⟨_, ⟨hmax, rfl⟩, hle⟩
    exact ⟨hmax, hle⟩
  · rintro ⟨hmax, hle⟩
    exact ⟨_, ⟨hmax, rfl⟩, hle⟩

theorem streamFits_iff (limit : Nat) (streamId : VarInt) (len : Nat) :
    StreamFits limit streamId len ↔ len ≤ varIntMax ∧ streamSize streamId len ≤ limit := by
  constructor
  · intro h
    have hl := (encodedLen_le_iff limit streamId false (List.replicate len 0)).mp (h _ _ List.length_replicate)
    rwa [List.length_replicate] at hl
  · rintro h fin payload rfl
    exact (encodedLen_le_iff limit streamId fin payload).mpr h

namespace Shared

/-- The test in the loop of `max_stream_payload`, with its own copy of the length formula. -/
def payloadFits (s : Shared) (streamId middle : Nat) : Bool :=
  match VarInt.fromU64 streamId, VarInt.fromU64 middle with
  | .ok streamId, .ok payloadLen =>
    1 + streamId.encodedLen + 1 + payloadLen.encodedLen + middle ≤ s.limits.maxFrameSize
  | _, _ => false

def maxStreamPayload (s : Shared) (streamId : Nat) : Nat :=
  min (Search.last (s.payloadFits streamId) 0 (min s.limits.maxFrameSize u32Max)) s.limits.maxOutboundStreamBytes

variable (s : Shared)

/-- The test agrees with `Frame::encoded_len`. -/
theorem payloadFits_iff (streamId : VarInt) (len : Nat) :
    s.payloadFits streamId.intoInner len = true ↔ StreamFits s.limits.maxFrameSize streamId len := by
  rw [streamFits_iff]
  unfold payloadFits streamSize
  rw [VarInt.fromU64_intoInner]
  by_cases hlen : len ≤ varIntMax
  · have hv : VarInt.expect len = ⟨len, hlen⟩ := VarInt.ext_inner (VarInt.expect_intoInner _ hlen)
    simp [VarInt.fromU64_eq_ok len hlen, hv, hlen]
  · simp [VarInt.fromU64, Nat.lt_of_not_le hlen, hlen]

theorem payloadFits_down (streamId : VarInt) (m n : Nat) (h : m ≤ n)
    (hn : s.payloadFits streamId.intoInner n = true) : s.payloadFits streamId.intoInner m = true := by
  rw [payloadFits_iff, streamFits_iff] at hn ⊢
  exact ⟨h.trans hn.1, (streamSize_mono streamId h).trans hn.2⟩

/-- The smallest frame limit has room for one byte behind every header. -/
theorem streamFits_one {limit : Nat} (h : minFrameSize ≤ limit) (streamId : VarInt) :
    StreamFits limit streamId 1 := by
  have h8 := streamId.encodedLen_le
  have h1 : (VarInt.expect 1).encodedLen = 1 := rfl
  rw [streamFits_iff, streamSize, h1]
  unfold minFrameSize at h
  exact ⟨by decide, by omega⟩

theorem checkChunk_ok_iff (streamId : VarInt) (payload : Bytes) (fin : Bool) :
    s.checkChunk streamId.intoInner payload fin = .ok () ↔
      (∃ n, (Frame.stream streamId fin payload).encodedLen = .ok n ∧ n ≤ s.limits.maxFrameSize) ∧
        payload.length ≤ s.limits.maxOutboundStreamBytes := by
  unfold checkChunk
  rw [VarInt.fromU64_intoInner]
  cases hlen : (Frame.stream streamId fin payload).encodedLen with
  | error error => simp [hlen]
  | ok n =>
    simp only [hlen]
    split_ifs with hmax hbud
    · simp [Nat.not_le_of_lt hmax]
    · simp [Nat.not_le_of_lt hbud]
    · simp [Nat.le_of_not_lt hmax, Nat.le_of_not_lt hbud]

theorem search_isGreatest (hl : s.limits.Valid) (streamId : VarInt) :
    IsGreatest {len | StreamFits s.limits.maxFrameSize streamId len}
      (Search.last (s.payloadFits streamId.intoInner) 0 (min s.limits.maxFrameSize u32Max)) := by
  have h0 : s.payloadFits streamId.intoInner 0 = true :=
    s.payloadFits_down streamId 0 1 (Nat.zero_le _)
      ((s.payloadFits_iff streamId 1).mpr (streamFits_one hl.frame.1 streamId))
  obtain ⟨⟨-, hfit⟩, hub⟩ := Search.last_isGreatest (s.payloadFits_down streamId) (Nat.zero_le _) h0
  refine ⟨(s.payloadFits_iff streamId _).mp hfit,
    fun len hlen => hub ⟨?_, (s.payloadFits_iff streamId len).mpr hlen⟩⟩
  have hsize := ((streamFits_iff _ _ _).mp hlen).2
  have hmax := hl.frame.2
  unfold streamSize at hsize
  omega

theorem streamFits_down (streamId : VarInt) (m n : Nat) (h : m ≤ n)
    (hn : StreamFits s.limits.maxFrameSize streamId n) : StreamFits s.limits.maxFrameSize streamId m := by
  rw [← payloadFits_iff] at hn ⊢
  exact s.payloadFits_down streamId m n h hn

theorem maxStreamPayload_isGreatest (hl : s.limits.Valid) (streamId : VarInt) :
    IsGreatest {p | p ≤ s.limits.maxOutboundStreamBytes ∧ StreamFits s.limits.maxFrameSize streamId p}
      (s.maxStreamPayload streamId.intoInner) := by
  obtain ⟨hfit, hub⟩ := s.search_isGreatest hl streamId
  exact ⟨⟨min_le_right _ _, s.streamFits_down streamId _ _ (min_le_left _ _) hfit⟩,
    fun p hp => le_min (hub hp.2) hp.1⟩

theorem maxStreamPayload_pos (hl : s.limits.Valid) (streamId : VarInt) : 1 ≤ s.maxStreamPayload streamId.intoInner :=
  (s.maxStreamPayload_isGreatest hl streamId).2 ⟨hl.outbound.1, streamFits_one hl.frame.1 streamId⟩

theorem checkChunk_iff_le (hl : s.limits.Valid) (streamId : VarInt) (payload : Bytes) (fin : Bool) :
    s.checkChunk streamId.intoInner payload fin = .ok () ↔
      payload.length ≤ s.maxStreamPayload streamId.intoInner := by
  have hgreat := s.maxStreamPayload_isGreatest hl streamId
  rw [checkChunk_ok_iff, encodedLen_le_iff, ← streamFits_iff]
  exact ⟨fun h => hgreat.2 ⟨h.2, h.1⟩,
    fun h => ⟨s.streamFits_down streamId _ _ h hgreat.1.2, h.trans hgreat.1.1⟩⟩

/-- The search of `max_stream_payload` is exact, and its result is the bound at which the size checks
of `queue_stream_chunk` start to fail. -/
theorem max_stream_payload_exact (s : Shared) (hl : s.limits.validate = .ok ()) (streamId : VarInt) :
    IsGreatest {p | p ≤ s.limits.maxOutboundStreamBytes ∧ StreamFits s.limits.maxFrameSize streamId p}
        (s.maxStreamPayload streamId.intoInner) ∧
      1 ≤ s.maxStreamPayload streamId.intoInner ∧
      ∀ (payload : Bytes) (fin : Bool), s.checkChunk streamId.intoInner payload fin = .ok () ↔
        payload.length ≤ s.maxStreamPayload streamId.intoInner := by
  have hv := (s.limits.validate_ok_iff).mp hl
  exact ⟨s.maxStreamPayload_isGreatest hv streamId,
    s.maxStreamPayload_pos hv streamId, s.checkChunk_iff_le hv streamId⟩

theorem max_stream_payload_exact_default :
    ({} : Limits).validate = .ok () ∧ (Shared.new {} true).maxStreamPayload 0 = 65529 ∧
      ∀ (payload : Bytes) (fin : Bool), (Shared.new {} true).checkChunk 0 payload fin = .ok () ↔
        payload.length ≤ (Shared.new {} true).maxStreamPayload 0 :=
  ⟨by decide, by decide +kernel, (max_stream_payload_exact (.new {} true) (by decide) ⟨0, by decide⟩).2.2⟩

end Shared

namespace WriterQueues

/-- What the peer's frame limit leaves for the payload of a STREAM frame and its length. -/
def capacity (q : WriterQueues) (chunk : OutboundChunk) : Nat := q.peerMaxFrame - 2 - chunk.streamId.encodedLen

/-- What the chunk has and the two credits allow. -/
def wanted (q : WriterQueues) (st : SendState) (chunk : OutboundChunk) : Nat :=
  min chunk.payload.length (min q.connCredit (q.streamCredit st))

/-- The payload lengths of a next frame of the chunk that keep to all limits. -/
def Takeable (q : WriterQueues) (st : SendState) (chunk : OutboundChunk) (n : Nat) : Prop :=
  n ≤ chunk.payload.length ∧ n ≤ q.connCredit ∧ n ≤ q.streamCredit st ∧
    StreamFits q.peerMaxFrame chunk.streamId n

/-- The capacities just above a varint width boundary, where the largest payload still has the narrower
length field and `next_frame` counts the wider one. -/
def Boundary (capacity wanted : Nat) : Prop :=
  capacity = 64 ∧ 62 < wanted ∨ 2 ^ 14 ≤ capacity ∧ capacity ≤ 2 ^ 14 + 2 ∧ capacity - 4 < wanted ∨
    2 ^ 30 ≤ capacity ∧ capacity ≤ 2 ^ 30 + 6 ∧ capacity - 8 < wanted

variable (q : WriterQueues) (st : SendState) (chunk : OutboundChunk)

theorem takeCount_eq :
    q.takeCount st chunk =
      min (q.wanted st chunk) (q.capacity chunk - (VarInt.expect (q.capacity chunk)).encodedLen) := by
  unfold takeCount wanted capacity
  simp only
  omega

theorem takeable_iff (hmin : minFrameSize ≤ q.peerMaxFrame) (hmax : q.peerMaxFrame ≤ u32Max) (n : Nat) :
    q.Takeable st chunk n ↔
      n ≤ q.wanted st chunk ∧ (VarInt.expect n).encodedLen + n ≤ q.capacity chunk := by
  have h8 := chunk.streamId.encodedLen_le
  have hv : u32Max < varIntMax := by decide
  rw [Takeable, streamFits_iff, streamSize]
  unfold wanted capacity
  unfold minFrameSize at hmin
  omega

theorem expect_encodedLen (n : Nat) (h : n ≤ u32Max) :
    (VarInt.expect n).encodedLen =
      if n ≤ 0x3f then 1 else if n ≤ 0x3fff then 2 else if n ≤ 0x3fff_ffff then 4 else 8 := by
  rw [VarInt.encodedLen, VarInt.expect_intoInner n (h.trans (by decide))]

/-- Away from the width boundaries the header of the whole capacity leaves exactly the largest payload. -/
theorem width_exact_iff (capacity wanted : Nat) (hmin : 15 ≤ capacity) (hmax : capacity ≤ u32Max) :
    (∀ n ≤ wanted, (VarInt.expect n).encodedLen + n ≤ capacity →
        n ≤ capacity - (VarInt.expect capacity).encodedLen) ↔ ¬ Boundary capacity wanted := by
  have hu : u32Max = 4294967295 := rfl
  unfold Boundary
  rw [expect_encodedLen capacity hmax]
  constructor
  · intro h hb
    -- one byte more than the width of the capacity leaves has a narrower length field and still fits
    have hbad := h (capacity - (if capacity ≤ 0x3f then 1 else if capacity ≤ 0x3fff then 2
      else if capacity ≤ 0x3fff_ffff then 4 else 8) + 1)
    rw [expect_encodedLen _ (by split_ifs <;> omega)] at hbad
    split_ifs at hbad <;> omega
  · intro hb n hn hfit
    by_cases hle : n ≤ u32Max
    · rw [expect_encodedLen n hle] at hfit
      split_ifs at hfit ⊢ <;> omega
    · omega

theorem takeCount_takeable (hmin : minFrameSize ≤ q.peerMaxFrame) (hmax : q.peerMaxFrame ≤ u32Max) :
    q.Takeable st chunk (q.takeCount st chunk) := by
  rw [q.takeable_iff st chunk hmin hmax, takeCount_eq]
  refine ⟨min_le_left _ _, ?_⟩
  have hw := (VarInt.expect (q.capacity chunk)).encodedLen_le
  have h8 := chunk.streamId.encodedLen_le
  have hcap : 15 ≤ q.capacity chunk := by
    unfold minFrameSize at hmin
    unfold capacity
    omega
  have hmono : (VarInt.expect (min (q.wanted st chunk)
      (q.capacity chunk - (VarInt.expect (q.capacity chunk)).encodedLen))).encodedLen ≤
      (VarInt.expect (q.capacity chunk)).encodedLen :=
    VarInt.encodedLen_mono (min_le_min_right _ (by omega))
  omega

theorem takeCount_isGreatest_iff (hmin : minFrameSize ≤ q.peerMaxFrame) (hmax : q.peerMaxFrame ≤ u32Max) :
    IsGreatest {n | q.Takeable st chunk n} (q.takeCount st chunk) ↔
      ¬ Boundary (q.capacity chunk) (q.wanted st chunk) := by
  have h8 := chunk.streamId.encodedLen_le
  have hcap : 15 ≤ q.capacity chunk ∧ q.capacity chunk ≤ u32Max := by
    unfold minFrameSize at hmin
    unfold capacity
    omega
  rw [← width_exact_iff _ _ hcap.1 hcap.2]
  constructor
  · intro h n hn hfit
    have hle := h.2 ((q.takeable_iff st chunk hmin hmax n).mpr ⟨hn, hfit⟩)
    rw [takeCount_eq] at hle
    exact hle.trans (min_le_right _ _)
  · intro h
    refine ⟨q.takeCount_takeable st chunk hmin hmax, fun n hn => ?_⟩
    obtain ⟨hn, hfit⟩ := (q.takeable_iff st chunk hmin hmax n).mp hn
    rw [takeCount_eq]
    exact le_min hn (h n hn hfit)

end WriterQueues

namespace Shared

/-- A frame of the data pass was cut from the head chunk of some eligible stream. -/
theorem dataPass_cut (s s' : Shared) (n : Nat) (f : Frame) (h : s.dataPass n = (s', some (.frame f))) :
    ∃ id chunk rest fin, s.queues.byStream.lookup id = some (chunk :: rest) ∧
      s.queues.eligible (s.send id) chunk = true ∧
      f = .stream chunk.streamId fin (chunk.payload.take (s.queues.takeCount (s.send id) chunk)) := by
  induction n generalizing s with
  | zero => cases h
  | succ n ih =>
    simp only [dataPass] at h
    split at h
    · cases h
    · next id ready hready =>
      split at h
      · cases h
      · cases h
      · next chunk rest hlook =>
        split_ifs at h with hel
        · cases h
          exact ⟨id, chunk, rest, _, hlook, hel, rfl⟩
        · obtain ⟨j, head, tail, fin, hj, he, rfl⟩ := ih _ h
          exact ⟨j, head, tail, fin, hj, he, rfl⟩

/-- Where the writer splits: the payload it takes is the largest that keeps to the chunk, the credits
and the peer's frame limit, and a chunk that fits whole goes out in one frame, exactly away from the
varint width boundaries. -/
theorem next_frame_splits_iff (s s' : Shared) (n : Nat) (f : Frame) (hmin : minFrameSize ≤ s.queues.peerMaxFrame)
    (hmax : s.queues.peerMaxFrame ≤ u32Max) (h : s.dataPass n = (s', some (.frame f))) :
    ∃ id chunk rest fin payload, s.queues.byStream.lookup id = some (chunk :: rest) ∧
      s.queues.eligible (s.send id) chunk = true ∧ f = .stream chunk.streamId fin payload ∧
      payload = chunk.payload.take payload.length ∧
      (IsGreatest {n | s.queues.Takeable (s.send id) chunk n} payload.length ↔
        ¬ WriterQueues.Boundary (s.queues.capacity chunk) (s.queues.wanted (s.send id) chunk)) ∧
      (s.queues.Takeable (s.send id) chunk chunk.payload.length →
        (payload = chunk.payload ↔
          ¬ WriterQueues.Boundary (s.queues.capacity chunk) (s.queues.wanted (s.send id) chunk))) := by
  obtain ⟨id, chunk, rest, fin, hlook, hel, rfl⟩ := s.dataPass_cut s' n f h
  have htake := s.queues.takeCount_takeable (s.send id) chunk hmin hmax
  have hlen : (chunk.payload.take (s.queues.takeCount (s.send id) chunk)).length =
      s.queues.takeCount (s.send id) chunk := by
    rw [List.length_take, min_eq_left htake.1]
  have hiff := s.queues.takeCount_isGreatest_iff (s.send id) chunk hmin hmax
  refine ⟨id, chunk, rest, fin, _, hlook, hel, rfl, by rw [hlen], by rw [hlen]; exact hiff, fun hwhole => ?_⟩
  rw [← hiff]
  constructor
  · intro he
    have hall : s.queues.takeCount (s.send id) chunk = chunk.payload.length := hlen.symm.trans (congrArg _ he)
    exact ⟨htake, fun n hn => hall ▸ hn.1⟩
  · intro hg
    exact List.take_of_length_le (hg.2 hwhole)

end Shared

namespace Endpoint

def narrowLimits : Limits := { maxOpenStreams := 2, maxControlFrames := 8, maxFrameSize := 67 }

/-- A client queues 63 bytes on stream 0; `frameSize` is the frame limit of its peer. -/
def narrowRun (frameSize : Nat) : List Act :=
  [.openStart, .openFinish, .receive (Frame.settings (.expect 1000) (.expect 1000) (.expect frameSize)).wire,
    .nextFrame [0], .send, .nextFrame [0], .send,
    .write 1 0 (List.replicate 63 7) false, .acquire 0, .acquire 0, .acquire 0, .acquire 0, .enqueue 0]

/-- 63 bytes are what `max_stream_payload` allows, and their frame has 67 bytes, but the writer takes 62. -/
theorem next_frame_splits_early :
    ∃ e log, (machine narrowLimits true).Reach e log ∧ e.shared.maxStreamPayload 0 = 63 ∧
      (Frame.stream (.expect 0) false (List.replicate 63 7)).encodedLen = .ok 67 ∧
      (e.shared.queues.chunksOf 0).map OutboundChunk.payload = [List.replicate 63 7] ∧
      e.shared.queues.peerMaxFrame = 67 ∧ 63 ≤ e.shared.queues.connCredit ∧
      63 ≤ e.shared.queues.streamCredit (e.shared.send 0) ∧
      (e.step (.nextFrame [0])).map Prod.snd = some [.emitted (.stream (.expect 0) false (List.replicate 62 7))] := by
  have hrun : ((Machine.runList step { shared := .new narrowLimits true } (narrowRun 67)).map fun r =>
      (decide (r.1.shared.maxStreamPayload 0 = 63 ∧ r.1.shared.queues.peerMaxFrame = 67 ∧
          63 ≤ r.1.shared.queues.connCredit ∧ 63 ≤ r.1.shared.queues.streamCredit (r.1.shared.send 0)),
        (r.1.shared.queues.chunksOf 0).map OutboundChunk.payload, (r.1.step (.nextFrame [0])).map Prod.snd)) =
      some (true, [List.replicate 63 7], some [.emitted (.stream (.expect 0) false (List.replicate 62 7))]) := by
    decide +kernel
  have h0 : connect narrowLimits true = .ok { shared := .new narrowLimits true } := rfl
  obtain ⟨e, log, hr, heq⟩ := Machine.runList_reach (connect narrowLimits true = .ok ·) h0 _ _ hrun
  simp only [Prod.mk.injEq, decide_eq_true_eq] at heq
  obtain ⟨⟨hmax, hframe, hconn, hstream⟩, hchunks, hnext⟩ := heq
  exact ⟨e, log, hr, hmax, by decide, hchunks, hframe, hconn, hstream, hnext⟩

/-- One byte less of frame limit, and 62 bytes are the most that fit. -/
theorem next_frame_splits_iff_narrow :
    ∃ e log s' f, (machine narrowLimits true).Reach e log ∧ e.shared.queues.peerMaxFrame = 66 ∧
      e.shared.dataPass 1 = (s', some (.frame f)) ∧
      ∃ id chunk fin payload, f = .stream chunk.streamId fin payload ∧
        (IsGreatest {n | e.shared.queues.Takeable (e.shared.send id) chunk n} payload.length ↔
        ¬ WriterQueues.Boundary (e.shared.queues.capacity chunk)
          (e.shared.queues.wanted (e.shared.send id) chunk)) := by
  have hrun : ((Machine.runList step { shared := .new narrowLimits true } (narrowRun 66)).map fun r =>
      (r.1.shared.queues.peerMaxFrame, (r.1.shared.dataPass 1).2)) =
      some (66, some (.frame (.stream (.expect 0) false (List.replicate 62 7)))) := by
    decide +kernel
  have h0 : connect narrowLimits true = .ok { shared := .new narrowLimits true } := rfl
  obtain ⟨e, log, hr, heq⟩ := Machine.runList_reach (connect narrowLimits true = .ok ·) h0 _ _ hrun
  obtain ⟨hmax, hturn⟩ := Prod.mk.inj heq
  have hd : e.shared.dataPass 1 = ((e.shared.dataPass 1).1, some _) := Prod.ext rfl hturn
  obtain ⟨id, chunk, -, fin, payload, -, -, hf, -, hiff, -⟩ :=
    Shared.next_frame_splits_iff e.shared _ 1 _ (by rw [hmax]; decide) (by rw [hmax]; decide) hd
  exact ⟨e, log, _, _, hr, hmax, hd, id, chunk, fin, payload, hf, hiff⟩

end Endpoint
end Muxtls
