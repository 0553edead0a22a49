import Muxtls.Pair.Channel
import Muxtls.Receiver.Budget
import Muxtls.Sender.Fit

namespace Muxtls
namespace Pair

variable {limits : Bool → Limits} {p p' : Pair} {log : List (Bool × Event)} {side : Bool}

theorem reach_valid (h : (machine limits).Reach p log) (side : Bool) : (limits side).Valid :=
  Endpoint.reach_valid (reach_endpoint h side)

/-- The SETTINGS a side has accepted are those of the other side's limits. -/
theorem settings_accepted (h : (machine limits).Reach p log) {data streamData frameSize : VarInt}
    (hs : .settings data streamData frameSize ∈ accepted (sideLog side log)) :
    .settings data streamData frameSize = settingsFrame (limits (!side)) := by
  have hi := Sender.reach_informed (Endpoint.reach_sender (reach_endpoint h (!side)))
  exact hi.settings _ ((accepted_le_emitted h side).subset hs) rfl

/-- A side never takes the frame limit of its peer for larger than it is. -/
theorem peerMaxFrame_le (h : (machine limits).Reach p log) (side : Bool) :
    (p.ep side).shared.queues.peerMaxFrame ≤ (limits (!side)).maxFrameSize := by
  have hi := Sender.reach_informed (Endpoint.reach_sender (reach_endpoint h side))
  have hvalid := (reach_valid h (!side)).frame
  rcases hi.known with hmin | ⟨data, streamData, frameSize, hmem, heq⟩
  · exact (le_of_eq hmin).trans hvalid.1
  · have hset := settings_accepted h hmem
    simp only [settingsFrame, Frame.settings.injEq] at hset
    have hmax : (limits (!side)).maxFrameSize ≤ varIntMax := by
      have hu := hvalid.2
      unfold u32Max at hu
      unfold varIntMax
      omega
    rw [show (p.ep side).shared.queues.peerMaxFrame = frameSize.intoInner from heq, hset.2.2,
      VarInt.expect_intoInner _ hmax]

theorem act_inv {a : Act} (evs : List Event) (h : p.step (.act side a) = some (p', evs.map (side, ·))) :
    ∃ e, (p.ep side).step a = some (e, evs) ∧ p' = p.after side e evs := by
  simp only [step] at h
  split_ifs at h
  obtain ⟨⟨e, evs'⟩, he, heq⟩ := Option.map_eq_some_iff.mp h
  simp only [Prod.mk.injEq] at heq
  obtain ⟨rfl, hevs⟩ := heq
  obtain rfl : evs' = evs := List.map_injective_iff.mpr (Prod.mk_right_injective side) hevs
  exact ⟨e, he, rfl⟩

/-- Every frame that `next_frame` returns fits the frame limits of both ends, and the smallest limit of
all while the peer's SETTINGS have not arrived; the reason of a close frame is a prefix of the fitted
reason. -/
theorem frames_fit (limits : Bool → Limits) (p : Pair) (log : List (Bool × Event)) (h : (machine limits).Reach p log)
    (side : Bool) (order : List Nat) (p' : Pair) (f : Frame)
    (hturn : p.step (.act side (.nextFrame order)) = some (p', [(side, .emitted f)])) :
    ∃ n, f.encodedLen = .ok n ∧ n ≤ (limits side).maxFrameSize ∧ n ≤ (limits (!side)).maxFrameSize ∧
      ((p.ep side).shared.queues.peerSettings = false → n ≤ 25) ∧
      ∀ code reason, f = .connectionClose code reason → ∃ asked fitted,
        .closing code.intoInner asked fitted ∈ sideLog side log ∧
        (limits side).fitCloseReason code.intoInner asked = .ok fitted ∧ asBytes reason <+: asBytes fitted := by
  have hr := reach_endpoint h side
  have hv := Sender.reach_wf (Endpoint.reach_sender hr)
  have hi := Sender.reach_informed (Endpoint.reach_sender hr)
  obtain ⟨e, he, -⟩ := act_inv [.emitted f] hturn
  have hs := Endpoint.reach_sendStep hr _ he
  obtain ⟨⟨n, hn, hown⟩, hpeer⟩ := Sender.emitted_fits hv (reach_valid h side).frame.1 hs List.mem_cons_self
  obtain ⟨n', hn', hpeer⟩ := hpeer
  rw [hn] at hn'
  cases hn'
  refine ⟨n, hn, hown, hpeer.trans (peerMaxFrame_le h side), ?_, ?_⟩
  · intro hp
    exact hpeer.trans (le_of_eq (hi.unknown hp))
  · rintro code reason rfl
    obtain ⟨fitted, hc, hpre⟩ := Sender.emitted_close hv hs
    obtain ⟨asked, hmem, hfit⟩ := hi.close code fitted hc
    exact ⟨asked, fitted, hmem, hfit, hpre⟩

/-- Limits of two ends that differ in their frame size. -/
def unevenLimits (side : Bool) : Limits := { maxFrameSize := if side then 100 else 64 }

/-- The client closes with a long reason before the server's SETTINGS arrive. -/
theorem frames_fit_close :
    ∃ p log n, (machine unevenLimits).Reach p log ∧ (p.ep true).shared.queues.peerSettings = false ∧
      (Frame.connectionClose ⟨.expect 0⟩ "a reason of for").encodedLen = .ok n ∧ n ≤ 25 := by
  have hrun : ((connect unevenLimits).toOption.bind fun p₀ =>
      (Machine.runList step p₀ [.act true (.close "a reason of forty bytes, more than fit it"),
        .act true (.nextFrame []), .act true .send, .act true (.nextFrame [])]).bind fun r =>
      (r.1.step (.act true (.nextFrame []))).map fun r₁ => ((r.1.ep true).shared.queues.peerSettings, r₁.2)) =
      some (false, [(true, .emitted (.connectionClose ⟨.expect 0⟩ "a reason of for"))]) := by decide
  obtain ⟨p₀, hconnect, hrun⟩ := Option.bind_eq_some_iff.mp hrun
  obtain ⟨⟨p, log⟩, hpre, hrun⟩ := Option.bind_eq_some_iff.mp hrun
  obtain ⟨⟨p', evs⟩, hturn, heq⟩ := Option.map_eq_some_iff.mp hrun
  simp only [Prod.mk.injEq] at heq
  obtain ⟨hp, rfl⟩ := heq
  have h0 := ok_of_toOption hconnect
  have hr := Machine.Reach.of_run (connect unevenLimits = .ok ·) h0 _ hpre
  obtain ⟨n, hn, -, -, hsmall, -⟩ := frames_fit unevenLimits p log hr true [] p' _ hturn
  exact ⟨p, log, n, hr, hp, hn, hsmall hp⟩

end Pair
end Muxtls
