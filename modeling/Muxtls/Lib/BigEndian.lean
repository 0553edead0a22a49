import Mathlib.Data.Nat.Bitwise
import Mathlib.Tactic.Ring

namespace BigEndian

/-- The low `n` bytes of `v`, most significant byte first. -/
def bytes : Nat → Nat → List UInt8
  | 0, _ => []
  | n + 1, v => UInt8.ofNat (v / 256 ^ n) :: bytes n v

/-- The unsigned integer a big-endian byte string stands for. -/
def value : List UInt8 → Nat
  | [] => 0
  | b :: bs => b.toNat * 256 ^ bs.length + value bs

@[simp] theorem bytes_length (n v : Nat) : (bytes n v).length = n := by
  induction n with
  | zero => rfl
  | succ n ih => simp [bytes, ih]

/-- A quotient and a remainder below the divisor are determined by the number they make. -/
theorem digits_unique {a b m n d : Nat} (hm : m < d) (hn : n < d) (h : a * d + m = b * d + n) :
    a = b ∧ m = n := by
  have hd := congrArg (· / d) h
  simp only [mul_comm _ d, Nat.mul_add_div (Nat.zero_lt_of_lt hm), Nat.div_eq_of_lt hm,
    Nat.div_eq_of_lt hn, add_zero] at hd
  subst hd
  exact ⟨rfl, by omega⟩

theorem value_lt (bs : List UInt8) : value bs < 256 ^ bs.length := by
  induction bs with
  | nil => simp [value]
  | cons b bs ih =>
    have hb : b.toNat < 256 := b.toNat_lt
    rw [value, List.length_cons, pow_succ]
    have hm : b.toNat * 256 ^ bs.length ≤ 255 * 256 ^ bs.length :=
      Nat.mul_le_mul_right _ (by omega)
    omega

/-- A big-endian byte string is given by its length and its value. -/
theorem value_injective {bs bs' : List UInt8} (hlen : bs.length = bs'.length) (h : value bs = value bs') :
    bs = bs' := by
  induction bs generalizing bs' with
  | nil => exact (List.length_eq_zero_iff.mp hlen.symm).symm
  | cons b bs ih =>
    cases bs' with
    | nil => cases hlen
    | cons b' bs' =>
      have hl : bs.length = bs'.length := Nat.succ.inj hlen
      have hlt := hl ▸ value_lt bs
      have hlt' := value_lt bs'
      rw [value, value, hl] at h
      obtain ⟨hb, hv⟩ := digits_unique hlt hlt' h
      rw [UInt8.toNat_inj.mp hb, ih hl hv]

theorem value_bytes_mod (n v : Nat) : value (bytes n v) = v % 256 ^ n := by
  induction n with
  | zero => simp [bytes, value, Nat.mod_one]
  | succ n ih =>
    have hb : (UInt8.ofNat (v / 256 ^ n)).toNat = v / 256 ^ n % 256 := by
      rw [UInt8.toNat_ofNat']
    rw [bytes, value, bytes_length, ih, hb, pow_succ, Nat.mod_mul, Nat.mul_comm, Nat.add_comm]

theorem value_bytes (n v : Nat) (h : v < 256 ^ n) : value (bytes n v) = v := by
  rw [value_bytes_mod, Nat.mod_eq_of_lt h]

/-- Joining disjoint bit fields with `|||` is addition. -/
theorem shift_or (a b k : Nat) (h : b < 2 ^ k) : a <<< k ||| b = a * 2 ^ k + b := by
  rw [← Nat.shiftLeft_add_eq_or_of_lt h, Nat.shiftLeft_eq]

end BigEndian
