import Muxtls.Flow
import Muxtls.Lib.Machine
import Mathlib.Data.List.Chain

namespace Muxtls

/-- The calls on one `ReceiveWindow`. -/
inductive WindowCall where
  | receive (size : Nat)
  | consume (size : Nat)
  | update
deriving DecidableEq

inductive WindowEvent where
  | accepted (size : Nat)
  | refused (size : Nat)
  | released (size : Nat)
  | granted (maximum : VarInt)
deriving DecidableEq

/-- A window next to the totals of the accepted and of the released bytes, which do not wrap. -/
structure Meter where
  window : ReceiveWindow
  accepted : Nat := 0
  released : Nat := 0
deriving DecidableEq

namespace Meter

/-- One call. Only bytes that were accepted are released: the caller never consumes more. -/
def step (m : Meter) : WindowCall → Option (Meter × List WindowEvent)
  | .receive size =>
    match m.window.receive size with
    | .ok w => some ({ m with window := w, accepted := m.accepted + size }, [.accepted size])
    | .error _ => some (m, [.refused size])
  | .consume size =>
    if m.released + size ≤ m.accepted then
      some ({ m with window := (m.window.consume size).1, released := m.released + size }, [.released size])
    else none
  | .update =>
    match m.window.update with
    | (w, some maximum) => some ({ m with window := w }, [.granted maximum])
    | (w, none) => some ({ m with window := w }, [])

def machine (window : Nat) : Machine Meter WindowEvent :=
  .ofStep (· = { window := .new window }) step

def limit : WindowEvent → Option Nat
  | .granted maximum => some maximum.intoInner
  | _ => none

/-- The limits the updates returned, in order. -/
def grants (log : List WindowEvent) : List Nat := log.filterMap limit

theorem grants_append (log evs : List WindowEvent) : grants (log ++ evs) = grants log ++ grants evs :=
  List.filterMap_append

/-- The counters are the totals, and the limits grow from the initial window to the advertised one. -/
structure Inv (window : Nat) (m : Meter) (log : List WindowEvent) : Prop where
  sound : m.window.Sound
  size : m.window.window = window
  received : m.window.received = m.accepted
  consumed : m.window.consumed = m.released
  grows : (window :: grants log).IsChain (· < ·)
  last : (window :: grants log).getLast? = some m.window.advertised

variable {window : Nat} {m m' : Meter} {log evs : List WindowEvent}

/-- A step that returns no limit keeps the list of limits. -/
theorem Inv.keep (h : m.Inv window log) (hs : m'.window.Sound) (hev : grants evs = [])
    (hw : m'.window.window = m.window.window) (ha : m'.window.advertised = m.window.advertised)
    (hr : m'.window.received = m'.accepted) (hc : m'.window.consumed = m'.released) :
    m'.Inv window (log ++ evs) := by
  have hg : grants (log ++ evs) = grants log := by rw [grants_append, hev, List.append_nil]
  exact ⟨hs, hw.trans h.size, hr, hc, hg ▸ h.grows, by rw [hg, ha]; exact h.last⟩

theorem inv_receive (h : m.Inv window log) (size : Nat) (hs : m.step (.receive size) = some (m', evs)) :
    m'.Inv window (log ++ evs) := by
  simp only [step] at hs
  cases hr : m.window.receive size with
  | error error =>
    rw [hr] at hs
    cases hs
    exact h.keep h.sound rfl rfl rfl h.received h.consumed
  | ok w =>
    rw [hr] at hs
    cases hs
    have hsound := m.window.receive_sound w size h.sound hr
    obtain ⟨-, rfl⟩ := (m.window.receive_ok_iff w size h.sound).mp hr
    exact h.keep hsound rfl rfl rfl (congrArg (· + size) h.received) h.consumed

theorem inv_consume (h : m.Inv window log) (size : Nat) (hs : m.step (.consume size) = some (m', evs)) :
    m'.Inv window (log ++ evs) := by
  simp only [step] at hs
  split_ifs at hs with hle
  cases hs
  rw [← h.received, ← h.consumed] at hle
  refine h.keep (m.window.consume_sound size h.sound hle) rfl (by simp) (by simp) (by simp [h.received]) ?_
  rw [m.window.consume_fst size h.sound hle]
  exact congrArg (· + size) h.consumed

theorem inv_update (h : m.Inv window log) (hs : m.step .update = some (m', evs)) :
    m'.Inv window (log ++ evs) := by
  have hsound := m.window.update_sound h.sound
  simp only [step] at hs
  rcases m.window.update_cases with ⟨-, hu⟩ | ⟨-, hlt, maximum, hm, hu⟩
  · rw [hu] at hs
    cases hs
    exact h.keep h.sound rfl rfl rfl h.received h.consumed
  · rw [hu] at hs hsound
    cases hs
    refine ⟨hsound, h.size, h.received, h.consumed, ?_, ?_⟩
    · rw [grants_append, ← List.cons_append]
      refine List.isChain_append.mpr ⟨h.grows, List.isChain_singleton _, fun a ha b hb => ?_⟩
      cases h.last.symm.trans ha
      cases hb
      exact hm ▸ hlt
    · rw [grants_append, ← List.cons_append, List.getLast?_append]
      rfl

theorem inv_step (h : m.Inv window log) (hs : (machine window).step m evs m') : m'.Inv window (log ++ evs) := by
  obtain ⟨call, hs⟩ := hs
  cases call with
  | receive size => exact inv_receive h size hs
  | consume size => exact inv_consume h size hs
  | update => exact inv_update h hs

theorem reach_meter (hw : window ≤ varIntMax) (h : (machine window).Reach m log) : m.Inv window log := by
  refine h.invariant (Inv window) ?_ fun _ _ _ _ _ hi hs => inv_step hi hs
  rintro _ rfl
  exact ⟨ReceiveWindow.new_sound window hw, rfl, rfl, rfl, List.isChain_singleton _, rfl⟩

/-- Why an update was returned. -/
theorem update_reason (w : ReceiveWindow) (maximum : VarInt) (h : w.update.2 = some maximum) :
    w.advertised < maximum.intoInner ∧
      ((w.window + 1) / 2 ≤ maximum.intoInner - w.advertised ∨ w.received = w.advertised ∨
        maximum.intoInner = varIntMax) := by
  rcases w.update_cases with ⟨-, hu⟩ | ⟨hn, hlt, limit, hm, hu⟩
  · rw [hu] at h; cases h
  · rw [hu] at h
    cases h
    rw [hm]
    refine ⟨hlt, ?_⟩
    unfold ReceiveWindow.needsUpdate at hn
    simpa [hlt, or_assoc] using hn

/-- The laws of the receive window, over every sequence of calls that consumes no more than was
accepted. -/
theorem receive_window_laws (window : Nat) (hw : window ≤ u32Max) (m : Meter) (log : List WindowEvent)
    (h : (machine window).Reach m log) :
    -- the totals are ordered, and no operation on a counter wraps
    (m.window.consumed ≤ m.window.received ∧ m.window.received ≤ m.window.advertised ∧
      m.window.advertised ≤ min (m.window.consumed + window) varIntMax) ∧
    (m.window.received = m.accepted ∧ m.window.consumed = m.released ∧ m.window.consumed + window < 2 ^ 64 ∧
      ∀ size, m.released + size ≤ m.accepted → m.window.consumed + size < 2 ^ 64) ∧
    -- `receive` takes what fits and otherwise changes nothing
    (∀ size, m.window.received + size ≤ m.window.advertised ∧
        m.step (.receive size) = some ({ m with
          window.received := m.window.received + size, accepted := m.accepted + size }, [.accepted size]) ∨
      m.window.advertised < m.window.received + size ∧ m.step (.receive size) = some (m, [.refused size])) ∧
    -- the limits returned so far, and the next one
    ((window :: grants log).Pairwise (· < ·) ∧ (window :: grants log).getLast? = some m.window.advertised) ∧
    ∀ maximum, m.window.update.2 = some maximum → m.window.advertised < maximum.intoInner ∧
      ((window + 1) / 2 ≤ maximum.intoInner - m.window.advertised ∨ m.window.received = m.window.advertised ∨
        maximum.intoInner = varIntMax) := by
  have hmax : u32Max < varIntMax := by decide
  have hv := ReceiveWindow.varIntMax_lt
  have hi := reach_meter (hw.trans hmax.le) h
  have hc := hi.sound.consumed_le
  have hr := hi.sound.received_le
  have ha := hi.sound.advertised_le
  have hm := hi.sound.advertised_max
  have hsum : varIntMax + u32Max < 2 ^ 64 := by decide
  rw [hi.size] at ha
  refine ⟨⟨hc, hr, le_min ha hm⟩, ⟨hi.received, hi.consumed, by omega, fun size hle => ?_⟩, fun size => ?_,
    ⟨List.isChain_iff_pairwise.mp hi.grows, hi.last⟩, fun maximum hu => ?_⟩
  · rw [← hi.received, ← hi.consumed] at hle
    omega
  · rcases Nat.lt_or_ge m.window.advertised (m.window.received + size) with hlt | hle
    · refine .inr ⟨hlt, ?_⟩
      cases hrec : m.window.receive size with
      | error error => simp only [step, hrec]
      | ok w => exact absurd ((m.window.receive_ok_iff w size hi.sound).mp hrec).1 (Nat.not_le_of_lt hlt)
    · have hrec := (m.window.receive_ok_iff _ size hi.sound).mpr ⟨hle, rfl⟩
      exact .inl ⟨hle, by simp only [step, hrec]⟩
  · have hreason := update_reason m.window maximum hu
    rwa [hi.size] at hreason

/-- Three bytes of a window of four come and go, and the update gives them back. -/
theorem receive_window_laws_update :
    ∃ m log, (machine 4).Reach m log ∧ grants log = [7] ∧ (4 :: grants log).Pairwise (· < ·) := by
  have hrun : (Machine.runList step { window := .new 4 }
      [.receive 5, .receive 3, .consume 3, .update]).map (fun r => grants r.2) = some [7] := by decide
  obtain ⟨m, log, hr, hg⟩ := Machine.runList_reach (· = { window := .new 4 }) rfl _ _ hrun
  exact ⟨m, log, hr, hg, (receive_window_laws 4 (by decide) m log hr).2.2.2.1.1⟩

end Meter
end Muxtls
