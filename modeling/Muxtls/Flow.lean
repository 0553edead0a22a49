import Muxtls.Limits

namespace Muxtls

/-- Receive totals count payload bytes, including bytes held by a partial read. -/
structure ReceiveWindow where
  received : Nat
  consumed : Nat
  advertised : Nat
  window : Nat
deriving DecidableEq, Repr

namespace ReceiveWindow

def new (window : Nat) : ReceiveWindow := ⟨0, 0, window, window⟩

/-- `fetch_update` with `checked_add` and the bound as its filter. -/
def receive (w : ReceiveWindow) (size : Nat) : Except Error ReceiveWindow :=
  if w.received + size < 2 ^ 64 ∧ w.received + size ≤ w.advertised then
    .ok { w with received := w.received + size }
  else .error (.protocol "peer exceeded advertised receive credit")

/-- The limit the consumed total allows: `saturating_add` of the window, capped at `VarInt::MAX`. -/
def nextLimit (w : ReceiveWindow) : Nat := min (min (w.consumed + w.window) (2 ^ 64 - 1)) varIntMax

def needsUpdate (w : ReceiveWindow) : Bool :=
  w.nextLimit > w.advertised &&
    (w.nextLimit - w.advertised ≥ (w.window + 1) / 2 || w.received == w.advertised ||
      w.nextLimit == varIntMax)

/-- Counts released bytes; the flag asks for a credit update. -/
def consume (w : ReceiveWindow) (size : Nat) : ReceiveWindow × Bool :=
  if size = 0 then (w, false)
  else
    let w := { w with consumed := (w.consumed + size) % 2 ^ 64 }
    (w, w.needsUpdate)

def update (w : ReceiveWindow) : ReceiveWindow × Option VarInt :=
  if w.needsUpdate then
    ({ w with advertised := w.nextLimit }, some ⟨w.nextLimit, Nat.min_le_right _ _⟩)
  else (w, none)

/-- The invariant that ties the three totals together. -/
structure Sound (w : ReceiveWindow) : Prop where
  consumed_le : w.consumed ≤ w.received
  received_le : w.received ≤ w.advertised
  advertised_le : w.advertised ≤ w.consumed + w.window
  advertised_max : w.advertised ≤ varIntMax

theorem new_sound (window : Nat) (h : window ≤ varIntMax) : (new window).Sound :=
  ⟨le_refl _, Nat.zero_le _, by simp [new], h⟩

theorem varIntMax_lt : varIntMax < 2 ^ 64 := by decide

theorem receive_ok_iff (w w' : ReceiveWindow) (size : Nat) (hw : w.Sound) :
    w.receive size = .ok w' ↔
      w.received + size ≤ w.advertised ∧ w' = { w with received := w.received + size } := by
  have hm := hw.advertised_max
  have hv := varIntMax_lt
  unfold receive
  by_cases h : w.received + size ≤ w.advertised
  · rw [if_pos ⟨by omega, h⟩]
    simp [h, eq_comm]
  · rw [if_neg (fun hc => h hc.2)]
    simp [h]

theorem receive_sound (w w' : ReceiveWindow) (size : Nat) (hw : w.Sound)
    (h : w.receive size = .ok w') : w'.Sound := by
  obtain ⟨hle, rfl⟩ := (receive_ok_iff w w' size hw).mp h
  have hc := hw.consumed_le
  exact ⟨by simp only; omega, hle, hw.advertised_le, hw.advertised_max⟩

/-- Below the received total, the counter does not wrap. -/
theorem consume_fst (w : ReceiveWindow) (size : Nat) (hw : w.Sound)
    (h : w.consumed + size ≤ w.received) :
    (w.consume size).1 = { w with consumed := w.consumed + size } := by
  have hr := hw.received_le
  have hm := hw.advertised_max
  have hv := varIntMax_lt
  unfold consume
  by_cases h0 : size = 0
  · simp [h0]
  · rw [if_neg h0]
    simp only [Nat.mod_eq_of_lt (show w.consumed + size < 2 ^ 64 by omega)]

theorem consume_sound (w : ReceiveWindow) (size : Nat) (hw : w.Sound)
    (h : w.consumed + size ≤ w.received) : (w.consume size).1.Sound := by
  rw [consume_fst w size hw h]
  have ha := hw.advertised_le
  exact ⟨h, hw.received_le, by simp only; omega, hw.advertised_max⟩

@[simp] theorem consume_received (w : ReceiveWindow) (n : Nat) :
    (w.consume n).1.received = w.received := by
  unfold consume; split_ifs <;> rfl

@[simp] theorem consume_advertised (w : ReceiveWindow) (n : Nat) :
    (w.consume n).1.advertised = w.advertised := by
  unfold consume; split_ifs <;> rfl

@[simp] theorem consume_window (w : ReceiveWindow) (n : Nat) :
    (w.consume n).1.window = w.window := by
  unfold consume; split_ifs <;> rfl

/-- An update either changes nothing, or raises the limit to the value it returns. -/
theorem update_cases (w : ReceiveWindow) :
    w.needsUpdate = false ∧ w.update = (w, none) ∨
      w.needsUpdate = true ∧ w.advertised < w.nextLimit ∧ ∃ maximum : VarInt,
        maximum.intoInner = w.nextLimit ∧
        w.update = ({ w with advertised := maximum.intoInner }, some maximum) := by
  cases h : w.needsUpdate
  · exact .inl ⟨rfl, by simp [update, h]⟩
  · have hlt : w.advertised < w.nextLimit := by
      unfold needsUpdate at h
      simp only [Bool.and_eq_true, decide_eq_true_eq] at h
      exact h.1
    exact .inr ⟨rfl, hlt, ⟨w.nextLimit, Nat.min_le_right _ _⟩, rfl, by simp [update, h]⟩

theorem update_sound (w : ReceiveWindow) (hw : w.Sound) : w.update.1.Sound := by
  rcases w.update_cases with ⟨-, he⟩ | ⟨-, hlt, m, hm, he⟩
  · rw [he]; exact hw
  · rw [he]
    have hr := hw.received_le
    have hn : w.nextLimit ≤ w.consumed + w.window := by unfold nextLimit; omega
    exact ⟨hw.consumed_le, by simp only; omega, by simp only; omega, m.le_max⟩

/-- A quiet window whose credit is used up is full of unconsumed bytes, or at the lifetime limit. -/
theorem full_of_quiet (w : ReceiveWindow) (hw : w.Sound) (hq : w.update.2 = none)
    (he : w.received = w.advertised) :
    w.received - w.consumed = w.window ∨ w.advertised = varIntMax := by
  have hm := hw.advertised_max
  have ha := hw.advertised_le
  have hv := varIntMax_lt
  have hn : w.nextLimit ≤ w.advertised := by
    rcases w.update_cases with ⟨hf, -⟩ | ⟨-, -, m, -, hu⟩
    · by_contra hlt
      unfold needsUpdate at hf
      simp [he, Nat.lt_of_not_le hlt] at hf
    · rw [hu] at hq; cases hq
  unfold nextLimit at hn
  omega

end ReceiveWindow
end Muxtls
