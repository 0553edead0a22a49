import Muxtls.Error

namespace Muxtls

/-- Resource and protocol limits enforced per connection; the drain time is in nanoseconds. -/
structure Limits where
  drainTimeout : Nat := 5_000_000_000
  maxQueuedOutboundFrames : Nat := 1024
  maxControlFrames : Nat := 512
  maxFrameSize : Nat := 64 * 1024
  maxOpenStreams : Nat := 128
  maxInboundConnectionBytes : Nat := 4 * 1024 * 1024
  maxOutboundConnectionBytes : Nat := 4 * 1024 * 1024
  maxInboundStreamBytes : Nat := 256 * 1024
  maxOutboundStreamBytes : Nat := 256 * 1024
deriving DecidableEq, Repr

def u32Max : Nat := 2 ^ 32 - 1

def usizeMax : Nat := 2 ^ 64 - 1

/-- tokio's `Semaphore::MAX_PERMITS`, documented as `usize::MAX >> 3`. -/
def maxPermits : Nat := usizeMax / 8

/-- `Limits::MIN_FRAME_SIZE`. -/
def minFrameSize : Nat := 25

def invalid (field reason : String) : Error := .invalidLimit field reason

def validateNonzero (field : String) (value : Nat) : Except Error Unit :=
  if value = 0 then .error (invalid field "must be greater than zero") else .ok ()

def validateSemaphore (field : String) (value : Nat) : Except Error Unit := do
  validateNonzero field value
  if value > maxPermits then throw (invalid field s!"must be at most {maxPermits}")

def validateByteLimit (field : String) (value : Nat) : Except Error Unit := do
  validateSemaphore field value
  if value > u32Max then throw (invalid field s!"must be at most {u32Max}")

namespace Limits

/-- `checked_mul(3).and_then(checked_add(2))` on `usize`. -/
def minimumControls (l : Limits) : Except Error Nat :=
  if 3 * l.maxOpenStreams + 2 ≤ usizeMax then .ok (3 * l.maxOpenStreams + 2)
  else .error (invalid "max_open_streams" "control capacity overflow")

def validate (l : Limits) : Except Error Unit := do
  if l.drainTimeout = 0 ∨ l.drainTimeout > 3600 * 1_000_000_000 then
    throw (invalid "drain_timeout" "must be greater than zero and at most one hour")
  if l.maxFrameSize < minFrameSize then
    throw (invalid "max_frame_size" s!"must be at least {minFrameSize}")
  if l.maxFrameSize > u32Max then
    throw (invalid "max_frame_size" s!"must be at most {u32Max}")
  validateSemaphore "max_open_streams" l.maxOpenStreams
  validateSemaphore "max_queued_outbound_frames" l.maxQueuedOutboundFrames
  validateSemaphore "max_control_frames" l.maxControlFrames
  if l.maxQueuedOutboundFrames < l.maxOpenStreams then
    throw (invalid "max_queued_outbound_frames" "must allow at least one frame per admitted stream")
  let minimum ← l.minimumControls
  if l.maxControlFrames < minimum then
    throw (invalid "max_control_frames" "must be at least 3 * max_open_streams + 2")
  validateByteLimit "max_inbound_connection_bytes" l.maxInboundConnectionBytes
  validateByteLimit "max_outbound_connection_bytes" l.maxOutboundConnectionBytes
  validateByteLimit "max_inbound_stream_bytes" l.maxInboundStreamBytes
  validateByteLimit "max_outbound_stream_bytes" l.maxOutboundStreamBytes
  if l.maxInboundStreamBytes > l.maxInboundConnectionBytes then
    throw (invalid "max_inbound_stream_bytes" "must not exceed max_inbound_connection_bytes")
  if l.maxOutboundStreamBytes > l.maxOutboundConnectionBytes then
    throw (invalid "max_outbound_stream_bytes" "must not exceed max_outbound_connection_bytes")

/-- What `validate` establishes. -/
structure Valid (l : Limits) : Prop where
  drain : 0 < l.drainTimeout ∧ l.drainTimeout ≤ 3600 * 1_000_000_000
  frame : minFrameSize ≤ l.maxFrameSize ∧ l.maxFrameSize ≤ u32Max
  streams : 0 < l.maxOpenStreams ∧ l.maxOpenStreams ≤ l.maxQueuedOutboundFrames
  queued : l.maxQueuedOutboundFrames ≤ maxPermits
  controls : 3 * l.maxOpenStreams + 2 ≤ l.maxControlFrames ∧ l.maxControlFrames ≤ maxPermits
  inbound : 0 < l.maxInboundStreamBytes ∧ l.maxInboundStreamBytes ≤ l.maxInboundConnectionBytes ∧
    l.maxInboundConnectionBytes ≤ u32Max
  outbound : 0 < l.maxOutboundStreamBytes ∧ l.maxOutboundStreamBytes ≤ l.maxOutboundConnectionBytes ∧
    l.maxOutboundConnectionBytes ≤ u32Max

theorem validateSemaphore_ok_iff (field : String) (value : Nat) :
    validateSemaphore field value = .ok () ↔ 0 < value ∧ value ≤ maxPermits := by
  unfold validateSemaphore validateNonzero
  by_cases h0 : value = 0
  · simp [h0, bind, Except.bind]
  · by_cases h1 : value > maxPermits
    · simp [h0, h1, bind, Except.bind, throw, throwThe, MonadExceptOf.throw]
    · simp [h0, h1, bind, Except.bind, pure, Except.pure]
      omega

theorem validateByteLimit_ok_iff (field : String) (value : Nat) :
    validateByteLimit field value = .ok () ↔ 0 < value ∧ value ≤ u32Max := by
  unfold validateByteLimit
  have hm : u32Max ≤ maxPermits := by decide
  cases hs : validateSemaphore field value with
  | error error =>
    have hn := (validateSemaphore_ok_iff field value).not.mp (by simp [hs])
    simp only [bind, Except.bind, reduceCtorEq, false_iff]
    omega
  | ok u =>
    have hy := (validateSemaphore_ok_iff field value).mp hs
    by_cases h1 : value > u32Max
    · simp [h1, bind, Except.bind, throw, throwThe, MonadExceptOf.throw]
    · simp [h1, bind, Except.bind, pure, Except.pure]
      omega

section
variable {ε α : Type} (c : Prop) [Decidable c] (error : ε)

theorem bind_unit_ok_iff (x : Except ε Unit) (f : Unit → Except ε Unit) :
    (x >>= f) = .ok () ↔ x = .ok () ∧ f () = .ok () := by
  cases x <;> simp [bind, Except.bind]

theorem guard_bind_ok_iff (f : α → Except ε Unit) (g : Except ε Unit) :
    (if c then (throw error >>= f) else g) = .ok () ↔ ¬ c ∧ g = .ok () := by
  by_cases h : c <;> simp [h, bind, Except.bind, throw, throwThe, MonadExceptOf.throw]

theorem guard_ok_iff : (if c then throw error else pure () : Except ε Unit) = .ok () ↔ ¬ c := by
  by_cases h : c <;> simp [h, throw, throwThe, MonadExceptOf.throw, pure, Except.pure]

end

theorem minimumControls_bind_ok_iff (l : Limits) (f : Nat → Except Error Unit) :
    (l.minimumControls >>= f) = .ok () ↔
      3 * l.maxOpenStreams + 2 ≤ usizeMax ∧ f (3 * l.maxOpenStreams + 2) = .ok () := by
  unfold minimumControls
  by_cases h : 3 * l.maxOpenStreams + 2 ≤ usizeMax <;> simp [h, bind, Except.bind]

theorem validate_ok_iff (l : Limits) : l.validate = .ok () ↔ l.Valid := by
  have hp : u32Max ≤ maxPermits := by decide
  have hu : maxPermits ≤ usizeMax := by decide
  unfold validate
  simp only [bind_unit_ok_iff, guard_bind_ok_iff, guard_ok_iff, validateSemaphore_ok_iff,
    validateByteLimit_ok_iff, minimumControls_bind_ok_iff]
  constructor
  · intro h
    constructor <;> omega
  · rintro ⟨hd, hf, hs, hq, hc, hi, ho⟩
    omega

end Limits
end Muxtls
