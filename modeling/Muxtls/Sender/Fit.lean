import Muxtls.Connection.Reason
import Muxtls.Sender.Order

namespace Muxtls
namespace Frame

/-- The frame encodes into at most `n` bytes. -/
def Fits (f : Frame) (n : Nat) : Prop := ∃ len, f.encodedLen = .ok len ∧ len ≤ n

theorem Fits.mono {f : Frame} {m n : Nat} (h : f.Fits m) (hle : m ≤ n) : f.Fits n := by
  obtain ⟨len, hl, hm⟩ := h
  exact ⟨len, hl, hm.trans hle⟩

/-- A frame that fits can be encoded. -/
theorem Fits.encode {f : Frame} {n : Nat} (h : f.Fits n) :
    ∃ bytes, f.encode [] = .ok bytes ∧ bytes.length ≤ n := by
  obtain ⟨len, hl, hn⟩ := h
  have htail : f.tailLen ≤ varIntMax := by
    cases f with
    | stream streamId fin payload => exact ((stream_encodedLen streamId fin payload len).mp hl).1
    | connectionClose errorCode reason =>
      rcases lenVarInt_cases (asBytes reason).length with ⟨hle, -⟩ | ⟨-, he⟩
      · exact hle
      · simp [encodedLen, he, bind, Except.bind] at hl
    | _ => exact Nat.zero_le _
  obtain ⟨bytes, hb⟩ := f.encode_ok htail
  have hlen := f.encodedLen_encode bytes hb
  rw [hl] at hlen
  cases hlen
  exact ⟨bytes, hb, hn⟩

/-- A frame without a payload or a reason has at most three integers behind its type. -/
theorem fits_short (f : Frame) (hs : ∀ streamId fin payload, f ≠ stream streamId fin payload)
    (hc : ∀ errorCode reason, f ≠ connectionClose errorCode reason) : f.Fits minFrameSize := by
  have hle := fun v : VarInt => v.encodedLen_le
  cases f with
  | stream streamId fin payload => exact absurd rfl (hs streamId fin payload)
  | connectionClose errorCode reason => exact absurd rfl (hc errorCode reason)
  | resetStream streamId errorCode =>
    have h1 := hle streamId
    have h2 := hle errorCode.code
    exact ⟨_, rfl, by simp only [ErrorCode.encodedLen, minFrameSize]; omega⟩
  | settings data streamData frameSize =>
    have h1 := hle data
    have h2 := hle streamData
    have h3 := hle frameSize
    exact ⟨_, rfl, by simp only [minFrameSize]; omega⟩
  | maxStreamData streamId maximum =>
    have h1 := hle streamId
    have h2 := hle maximum
    exact ⟨_, rfl, by simp only [minFrameSize]; omega⟩
  | openStream streamId =>
    have h1 := hle streamId
    exact ⟨_, rfl, by simp only [minFrameSize]; omega⟩
  | maxData maximum =>
    have h1 := hle maximum
    exact ⟨_, rfl, by simp only [minFrameSize]; omega⟩
  | stopSending streamId =>
    have h1 := hle streamId
    exact ⟨_, rfl, by simp only [minFrameSize]; omega⟩
  | ping => exact ⟨_, rfl, by decide⟩

theorem close_encodedLen (errorCode : ErrorCode) (reason : String) (h : (asBytes reason).length ≤ varIntMax) :
    (connectionClose errorCode reason).encodedLen =
      .ok (1 + errorCode.encodedLen + (VarInt.expect (asBytes reason).length).encodedLen +
        (asBytes reason).length) := by
  have hv : VarInt.expect (asBytes reason).length = ⟨(asBytes reason).length, h⟩ :=
    VarInt.ext_inner (VarInt.expect_intoInner _ h)
  simp [encodedLen, lenVarInt_ok _ h, hv, bind, Except.bind, pure, Except.pure]

/-- A shorter reason makes a frame that is no longer. -/
theorem close_fits_mono {errorCode : ErrorCode} {reason reason' : String} {n : Nat}
    (hle : (asBytes reason').length ≤ (asBytes reason).length) (hmax : (asBytes reason).length ≤ varIntMax)
    (h : (connectionClose errorCode reason).Fits n) : (connectionClose errorCode reason').Fits n := by
  obtain ⟨len, hl, hn⟩ := h
  rw [close_encodedLen errorCode reason hmax] at hl
  cases hl
  refine ⟨_, close_encodedLen errorCode reason' (hle.trans hmax), ?_⟩
  have hm :
      (VarInt.expect (asBytes reason').length).encodedLen ≤ (VarInt.expect (asBytes reason).length).encodedLen := by
    apply VarInt.encodedLen_mono
    rw [VarInt.expect_intoInner _ hmax, VarInt.expect_intoInner _ (hle.trans hmax)]
    exact hle
  omega

end Frame

theorem Limits.validateCloseReason_fits {l : Limits} {code : ErrorCode} {reason : String}
    (h : l.validateCloseReason code.intoInner reason = .ok ()) :
    (asBytes reason).length ≤ varIntMax ∧ (Frame.connectionClose code reason).Fits l.maxFrameSize := by
  have hcode : ErrorCode.fromU64 code.intoInner = .ok code := by
    unfold ErrorCode.fromU64 ErrorCode.intoInner
    rw [(VarInt.fromU64_ok_iff _ code.code).mpr rfl]
  unfold validateCloseReason at h
  rw [hcode] at h
  simp only at h
  cases hlen : VarInt.fromU64 (asBytes reason).length with
  | error error =>
    rw [hlen] at h
    cases h
  | ok reasonLen =>
    rw [hlen] at h
    simp only at h
    split_ifs at h with hle
    obtain hlen := (VarInt.fromU64_ok_iff _ _).mp hlen
    have hmax : (asBytes reason).length ≤ varIntMax := hlen ▸ reasonLen.le_max
    have hsame : VarInt.expect (asBytes reason).length = reasonLen :=
      VarInt.ext_inner ((VarInt.expect_intoInner _ hmax).trans hlen.symm)
    refine ⟨hmax, _, Frame.close_encodedLen code reason hmax, ?_⟩
    rw [hsame]
    exact Nat.le_of_not_gt hle

namespace Sender

variable {l : Limits} {v v' : Sender} {f : Frame}

/-- A data frame is cut to what the peer's frame limit leaves, and its chunk already fits locally. -/
theorem dataFrame_fits (hv : v.WF l) {id : Nat} {chunk : OutboundChunk} {rest : List OutboundChunk}
    (hchunk : v.queues.chunksOf id = chunk :: rest) :
    (v.dataFrame id chunk).Fits l.maxFrameSize ∧ (v.dataFrame id chunk).Fits v.queues.peerMaxFrame := by
  obtain ⟨-, hfit⟩ := hv.chunks id chunk (hchunk ▸ List.mem_cons_self)
  obtain ⟨n, hn, hle⟩ := hfit.frame
  have hcount : v.queues.takeCount (v.send id) chunk ≤ chunk.payload.length := by
    unfold WriterQueues.takeCount
    exact Nat.min_le_left _ _
  refine ⟨?_, ?_⟩
  · obtain ⟨n', hn', hle'⟩ := Frame.stream_encodedLen_mono chunk.streamId chunk.fin
      (chunk.fin && (chunk.payload.drop (v.queues.takeCount (v.send id) chunk)).isEmpty) chunk.payload
      (chunk.payload.take (v.queues.takeCount (v.send id) chunk)) n (by rw [List.length_take]; omega) hn
    exact ⟨n', hn', hle'.trans hle⟩
  · have hmin := hv.queues.frame_min
    have hmax := hv.queues.frame_max
    have hid := chunk.streamId.encodedLen_le
    unfold minFrameSize at hmin
    unfold u32Max at hmax
    have hcap : v.queues.peerMaxFrame - 2 - chunk.streamId.encodedLen ≤ varIntMax := by
      unfold varIntMax
      omega
    have hhead := (VarInt.expect (v.queues.peerMaxFrame - 2 - chunk.streamId.encodedLen)).encodedLen_le
    have hlen : (chunk.payload.take (v.queues.takeCount (v.send id) chunk)).length =
        v.queues.takeCount (v.send id) chunk := by
      rw [List.length_take]
      omega
    have hle : v.queues.takeCount (v.send id) chunk +
        (VarInt.expect (v.queues.peerMaxFrame - 2 - chunk.streamId.encodedLen)).encodedLen ≤
          v.queues.peerMaxFrame - 2 - chunk.streamId.encodedLen := by
      unfold WriterQueues.takeCount
      simp only
      omega
    -- the length field is no wider than that of the whole capacity
    have hwidth : (VarInt.expect (v.queues.takeCount (v.send id) chunk)).encodedLen ≤
        (VarInt.expect (v.queues.peerMaxFrame - 2 - chunk.streamId.encodedLen)).encodedLen := by
      apply VarInt.encodedLen_mono
      rw [VarInt.expect_intoInner _ hcap, VarInt.expect_intoInner _ (by omega)]
      omega
    refine ⟨_, (Frame.stream_encodedLen _ _ _ _).mpr ⟨?_, rfl⟩, ?_⟩
    · rw [hlen]
      omega
    · rw [hlen]
      omega

/-- What `take_close_frame` makes of the published frame: its code with a prefix of its reason. -/
theorem takeCloseFrame_fits (hv : v.WF l) (hf : v.queues.takeCloseFrame.2 = some f) :
    f.Fits l.maxFrameSize ∧ f.Fits v.queues.peerMaxFrame ∧
      ∃ code fitted reason, v.queues.closeFrame = some (.connectionClose code fitted) ∧
        f = .connectionClose code reason ∧ asBytes reason <+: asBytes fitted := by
  cases hc : v.queues.closeFrame with
  | none => simp [WriterQueues.takeCloseFrame, hc] at hf
  | some g =>
    obtain ⟨code, fitted, rfl, -, hval⟩ := hv.close g hc
    obtain ⟨hmax, hfit⟩ := Limits.validateCloseReason_fits hval
    have hmin := hv.queues.frame_min
    simp only [WriterQueues.takeCloseFrame, hc, Option.some.injEq] at hf
    generalize hreason : (if (asBytes fitted).length > v.queues.peerMaxFrame - (1 + code.encodedLen + 8) then
      truncate fitted (charBoundaryBelow fitted (v.queues.peerMaxFrame - (1 + code.encodedLen + 8))) else fitted) =
        reason at hf
    subst hf
    obtain ⟨hpre, hshort⟩ := cut_reason fitted _ reason hreason
    refine ⟨Frame.close_fits_mono hpre.length_le hmax hfit, ?_, code, fitted, reason, rfl, rfl, hpre⟩
    refine ⟨_, Frame.close_encodedLen code reason (hpre.length_le.trans hmax), ?_⟩
    have hwidth := (VarInt.expect (asBytes reason).length).encodedLen_le
    have hcode : code.encodedLen ≤ 8 := code.code.encodedLen_le
    unfold minFrameSize at hmin
    omega

/-- Every frame a sender emits fits its own limit and what it knows of the peer's. -/
theorem emitted_fits {log : List Event} (hv : v.WF l) (hl : minFrameSize ≤ l.maxFrameSize) (hs : SendStep l v log v')
    (hf : f ∈ emitted log) : f.Fits l.maxFrameSize ∧ f.Fits v.queues.peerMaxFrame := by
  have hmin := hv.queues.frame_min
  have hshort : f.Fits minFrameSize → f.Fits l.maxFrameSize ∧ f.Fits v.queues.peerMaxFrame :=
    fun h => ⟨h.mono hl, h.mono hmin⟩
  have hone : ∀ g, f ∈ emitted [.emitted g] → f = g := fun g h => List.mem_singleton.mp h
  cases hs with
  | pop g control hcut hc =>
    obtain rfl := hone g hf
    have hcon := hv.control f (hc ▸ List.mem_cons_self)
    refine hshort (Frame.fits_short f ?_ ?_)
    · rintro streamId fin payload rfl
      exact hcon
    · rintro errorCode reason rfl
      exact hcon
  | grant g hcut hc hg =>
    obtain rfl := hone g hf
    refine hshort (Frame.fits_short f ?_ ?_)
    · rintro streamId fin payload rfl
      exact hg
    · rintro errorCode reason rfl
      exact hg
  | data id chunk rest skipped later hcut hturn hready hskip hchunk hel =>
    obtain rfl := hone _ hf
    exact dataFrame_fits hv hchunk
  | closeFrame g hclosing hdrain hg =>
    obtain rfl := hone g hf
    obtain ⟨hown, hpeer, -⟩ := takeCloseFrame_fits hv hg
    exact ⟨hown, hpeer⟩
  | quiet _ h =>
    rw [quiet_emitted _ h] at hf
    cases hf
  | halt _ h =>
    rw [quiet_emitted _ h] at hf
    cases hf
  | shutdown _ h =>
    rw [quiet_emitted _ h] at hf
    cases hf
  | openRemote _ _ h => rcases h with rfl | ⟨error, rfl⟩ <;> cases hf
  | reset _ _ _ _ _ _ _ h => rcases h with rfl | rfl <;> cases hf
  | resetAgain _ _ _ h => rcases h with rfl | rfl <;> cases hf
  | _ => cases hf

/-- An emitted close frame is the published one with a prefix of its reason. -/
theorem emitted_close (hv : v.WF l) {code : ErrorCode} {reason : String}
    (hs : SendStep l v [.emitted (.connectionClose code reason)] v') :
    ∃ fitted, v.queues.closeFrame = some (.connectionClose code fitted) ∧ asBytes reason <+: asBytes fitted := by
  generalize hlog : [Event.emitted (.connectionClose code reason)] = log at hs
  have hno : ∀ {p : Prop}, (∀ e ∈ log, e.Quiet) → p := by
    intro p h
    rw [← hlog] at h
    exact (h _ List.mem_cons_self).elim
  cases hs with
  | quiet _ h => exact hno h
  | halt _ h => exact hno h
  | shutdown _ h => exact hno h
  | openRemote _ _ h => rcases h with rfl | ⟨error, rfl⟩ <;> cases hlog
  | reset _ _ _ _ _ _ _ h => rcases h with rfl | rfl <;> cases hlog
  | resetAgain _ _ _ h => rcases h with rfl | rfl <;> cases hlog
  | pop f control hcut hc =>
    cases hlog
    exact False.elim (hv.control (.connectionClose code reason) (hc ▸ List.mem_cons_self))
  | grant f hcut hc hf =>
    cases hlog
    exact hf.elim
  | closeFrame f hclosing hdrain hf =>
    cases hlog
    obtain ⟨-, -, code', fitted, reason', hc, heq, hpre⟩ := takeCloseFrame_fits hv hf
    cases heq
    exact ⟨fitted, hc, hpre⟩
  | _ => cases hlog

/-- What a sender knows of its peer's frame limit, the SETTINGS it has emitted, and the close it has
published, by its log. -/
structure Informed (l : Limits) (v : Sender) (log : List Event) : Prop where
  unknown : v.queues.peerSettings = false → v.queues.peerMaxFrame = minFrameSize
  known : v.queues.peerMaxFrame = minFrameSize ∨ ∃ data streamData frameSize,
    .settings data streamData frameSize ∈ accepted log ∧ v.queues.peerMaxFrame = frameSize.intoInner
  settings : ∀ f ∈ emitted log, f.isSettings = true → f = settingsFrame l
  close : ∀ code fitted, v.queues.closeFrame = some (.connectionClose code fitted) →
    ∃ reason, .closing code.intoInner reason fitted ∈ log ∧ l.fitCloseReason code.intoInner reason = .ok fitted

variable {log evs : List Event}

theorem Informed.keep (h : v.Informed l log) (hset : ∀ f ∈ emitted evs, f.isSettings = true → f = settingsFrame l)
    (hp : v'.queues.peerSettings = v.queues.peerSettings) (hm : v'.queues.peerMaxFrame = v.queues.peerMaxFrame)
    (hc : v'.queues.closeFrame = v.queues.closeFrame ∨ v'.queues.closeFrame = none) : v'.Informed l (log ++ evs) where
  unknown := by
    rw [hp, hm]
    exact h.unknown
  known := by
    rw [hm]
    refine h.known.imp_right ?_
    rintro ⟨data, streamData, frameSize, hmem, heq⟩
    refine ⟨data, streamData, frameSize, ?_, heq⟩
    rw [accepted_append]
    exact List.mem_append_left _ hmem
  settings := by
    intro f hf
    rw [emitted_append] at hf
    rcases List.mem_append.mp hf with hf | hf
    · exact h.settings f hf
    · exact hset f hf
  close := by
    intro code fitted hf
    rcases hc with hc | hc
    · obtain ⟨reason, hmem, hfit⟩ := h.close code fitted (hc ▸ hf)
      exact ⟨reason, List.mem_append_left _ hmem, hfit⟩
    · rw [hc] at hf
      cases hf

theorem informed_step (hv : v.WF l) (h : v.Informed l log) (hs : SendStep l v evs v') : v'.Informed l (log ++ evs) := by
  have hnone : ∀ {evs : List Event}, emitted evs = [] →
      ∀ f ∈ emitted evs, f.isSettings = true → f = settingsFrame l := by
    intro evs he f hf
    rw [he] at hf
    cases hf
  have hone : ∀ g : Frame, g.isSettings = false → ∀ f ∈ emitted [.emitted g], f.isSettings = true →
      f = settingsFrame l := by
    intro g hg f hf hset
    rw [List.mem_singleton.mp hf, hg] at hset
    cases hset
  cases hs with
  | quiet _ hq => exact h.keep (hnone (quiet_emitted _ hq)) rfl rfl (.inl rfl)
  | halt _ hq => exact h.keep (hnone (quiet_emitted _ hq)) rfl rfl (.inl rfl)
  | openRemote _ hid hlog => rcases hlog with rfl | ⟨error, rfl⟩ <;> exact h.keep (hnone rfl) rfl rfl (.inl rfl)
  | reset id errorCode _ hid hdisp hres hclosing hlog =>
    rcases hlog with rfl | rfl <;> exact h.keep (hnone rfl) rfl rfl (.inl rfl)
  | resetAgain id _ hor hlog => rcases hlog with rfl | rfl <;> exact h.keep (hnone rfl) rfl rfl (.inl rfl)
  | close code reason fitted hcode hclosed hfit =>
    have hq : ∀ graceful, (v.queues.publishClose code fitted graceful).peerSettings = v.queues.peerSettings ∧
        (v.queues.publishClose code fitted graceful).peerMaxFrame = v.queues.peerMaxFrame ∧
        (v.queues.publishClose code fitted graceful).closeFrame = some (.connectionClose code fitted) := by
      intro graceful
      cases graceful <;> exact ⟨rfl, rfl, rfl⟩
    obtain ⟨hp, hm, hc⟩ := hq (code.intoInner == 0)
    have hkeep : ({ v with queues := { v.queues with closeFrame := none } } : Sender).Informed l
        (log ++ [.closing code.intoInner reason fitted]) := h.keep (hnone rfl) rfl rfl (.inr rfl)
    refine { unknown := ?_, known := ?_, settings := hkeep.settings, close := ?_ }
    · rw [hp, hm]
      exact hkeep.unknown
    · rw [hm]
      exact hkeep.known
    · intro code' fitted' hf
      rw [hc] at hf
      cases hf
      exact ⟨reason, List.mem_append_right _ List.mem_cons_self, hfit⟩
  | shutdown _ hq => exact h.keep (hnone (quiet_emitted _ hq)) rfl rfl (.inr rfl)
  | pop f control hcut hc =>
    refine h.keep ?_ rfl rfl (.inl rfl)
    intro g hg hset
    obtain rfl := List.mem_singleton.mp hg
    have hcon := hv.control g (hc ▸ List.mem_cons_self)
    cases g <;> first | exact hcon | cases hset
  | grant f hcut hc hf =>
    refine h.keep (hone f ?_) rfl rfl (.inl rfl)
    cases f <;> first | rfl | exact hf.elim
  | data => exact h.keep (hone _ rfl) rfl rfl (.inl rfl)
  | closeFrame f hclosing hdrain hf =>
    obtain ⟨-, code, reason, rfl⟩ := closeFrame_inv hv f hf
    exact h.keep (hone _ rfl) rfl rfl (.inr rfl)
  | settings data streamData frameSize hp hmin hmax =>
    have hkeep : v.Informed l (log ++ [.accepted (.settings data streamData frameSize)]) :=
      h.keep (hnone rfl) rfl rfl (.inl rfl)
    refine { hkeep with unknown := fun hn => (by cases hn), known := .inr ⟨data, streamData, frameSize, ?_, rfl⟩ }
    rw [accepted_append]
    exact List.mem_append_right _ List.mem_cons_self
  | _ => exact h.keep (hnone rfl) rfl rfl (.inl rfl)

theorem reach_informed {isClient : Bool} (h : (machine l isClient).Reach v log) : v.Informed l log := by
  refine h.invariant (Informed l) ?_ fun v tr evs v' hr hi hs => informed_step (reach_wf hr) hi hs
  intro v (hi : v = _)
  subst hi
  exact ⟨fun _ => rfl, .inl rfl, by simp [emitted], by intro code fitted hf; cases hf⟩

/-- A sender that knows the settings of its peer has accepted them. -/
theorem reach_greeted (h : (machine l isClient).Reach v log) (hp : v.queues.peerSettings = true) :
    ∃ f ∈ accepted log, f.isSettings = true := by
  refine h.invariant (fun v log => v.queues.peerSettings = true →
    ∃ f ∈ accepted log, f.isSettings = true) ?_ ?_ hp
  · rintro v (rfl : v = _) hp
    cases hp
  · intro v log evs v' _ ih hs hp
    rw [accepted_append]
    have hold : v.queues.peerSettings = true → ∃ f ∈ accepted log ++ accepted evs, f.isSettings = true := by
      intro hp
      obtain ⟨f, hf, hset⟩ := ih hp
      exact ⟨f, List.mem_append_left _ hf, hset⟩
    cases hs with
    | settings data streamData frameSize => exact ⟨_, List.mem_append_right _ List.mem_cons_self, rfl⟩
    | close code reason fitted =>
      refine hold ?_
      simp only [WriterQueues.publishClose] at hp
      split_ifs at hp <;> exact hp
    | _ => exact hold hp

end Sender
end Muxtls
