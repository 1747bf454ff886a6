import Mathlib.Algebra.Order.Ring.Nat
import Mathlib.Data.Nat.Bitwise
import Mathlib.Tactic.Common
import Mathlib.Tactic.Ring

/-!
# Strings of bits

Numbers written with a fixed number of bits, Exp-Golomb codes, and the bits of a
byte memory, the most significant bit of a byte first.
-/

namespace BitStrings

/-! ## Numbers as strings of bits -/

/-- The `n` low bits of `v`, the most significant one first. -/
def fixed : ℕ → ℕ → List Bool
  | 0, _ => []
  | n + 1, v => v.testBit n :: fixed n v

/-- The number that a string of bits writes. -/
def value : List Bool → ℕ
  | [] => 0
  | b :: l => b.toNat * 2 ^ l.length + value l

@[simp] theorem length_fixed (n v : ℕ) : (fixed n v).length = n := by
  induction n with
  | zero => rfl
  | succ n ih => simp [fixed, ih]

theorem value_lt (l : List Bool) : value l < 2 ^ l.length := by
  induction l with
  | nil => simp [value]
  | cons b l ih =>
    simp only [value, List.length_cons, pow_succ]
    cases b <;> simp <;> omega

theorem value_append (l r : List Bool) : value (l ++ r) = value l * 2 ^ r.length + value r := by
  induction l with
  | nil => simp [value]
  | cons b l ih =>
    simp only [List.cons_append, value, ih, List.length_append, pow_add]
    ring

@[simp] theorem value_fixed (n v : ℕ) : value (fixed n v) = v % 2 ^ n := by
  induction n with
  | zero => simp [fixed, value, Nat.mod_one]
  | succ n ih =>
    simp only [fixed, value, length_fixed, ih]
    rw [Nat.mod_pow_succ, Nat.toNat_testBit]
    ring

theorem value_fixed_of_lt {n v : ℕ} (h : v < 2 ^ n) : value (fixed n v) = v := by
  rw [value_fixed, Nat.mod_eq_of_lt h]

theorem fixed_congr {n v w : ℕ} (h : v % 2 ^ n = w % 2 ^ n) : fixed n v = fixed n w := by
  induction n with
  | zero => rfl
  | succ n ih =>
    have hbit : v.testBit n = w.testBit n := by
      have := congrArg (·.testBit n) h
      simpa [Nat.testBit_mod_two_pow] using this
    have hlow : v % 2 ^ n = w % 2 ^ n := by
      have hd : 2 ^ n ∣ 2 ^ (n + 1) := pow_dvd_pow 2 n.le_succ
      rw [← Nat.mod_mod_of_dvd v hd, h, Nat.mod_mod_of_dvd w hd]
    simp only [fixed, hbit, ih hlow]

@[simp] theorem fixed_mod (n v : ℕ) : fixed n (v % 2 ^ n) = fixed n v :=
  fixed_congr (Nat.mod_mod _ _)

@[simp] theorem fixed_value (l : List Bool) : fixed l.length (value l) = l := by
  induction l with
  | nil => rfl
  | cons b l ih =>
    have hlow : fixed l.length (b.toNat * 2 ^ l.length + value l) = l := by
      rw [← fixed_mod, Nat.mul_add_mod_self_right, fixed_mod, ih]
    have hbit : (b.toNat * 2 ^ l.length + value l).testBit l.length = b := by
      rw [Nat.mul_comm, Nat.testBit_two_pow_mul_add _ (value_lt l)]
      cases b <;> simp
    simp only [List.length_cons, fixed, value, hbit, hlow]

theorem fixed_add (m n v : ℕ) : fixed (m + n) v = fixed m (v >>> n) ++ fixed n v := by
  induction m with
  | zero => simp [fixed]
  | succ m ih =>
    rw [show m + 1 + n = (m + n) + 1 by omega]
    simp only [fixed, ih, List.cons_append, Nat.testBit_shiftRight, Nat.add_comm n m]

@[simp] theorem fixed_zero (n : ℕ) : fixed n 0 = List.replicate n false := by
  induction n with
  | zero => rfl
  | succ n ih => simp [fixed, ih, List.replicate_succ]

@[simp] theorem value_replicate_false (n : ℕ) : value (List.replicate n false) = 0 := by
  rw [← fixed_zero, value_fixed, Nat.zero_mod]

/-! ## Exp-Golomb codes -/

/-- The Exp-Golomb code of `v`: as many zeros as bits follow the leading one of
`v + 1`, then `v + 1`. -/
def golomb (v : ℕ) : List Bool :=
  List.replicate (v + 1).log2 false ++ fixed ((v + 1).log2 + 1) (v + 1)

theorem golomb_eq (v : ℕ) : golomb v = List.replicate (v + 1).log2 false ++
    true :: fixed (v + 1).log2 (v + 1 - 2 ^ (v + 1).log2) := by
  have hle : 2 ^ (v + 1).log2 ≤ v + 1 := Nat.log2_self_le (Nat.succ_ne_zero v)
  have hlow : fixed (v + 1).log2 (v + 1) = fixed (v + 1).log2 (v + 1 - 2 ^ (v + 1).log2) :=
    fixed_congr (Nat.mod_eq_sub_mod hle)
  have hbit : (v + 1).testBit (v + 1).log2 = true := Nat.testBit_log2 (Nat.succ_ne_zero v)
  unfold golomb
  rw [fixed, hbit, hlow]

@[simp] theorem length_golomb (v : ℕ) : (golomb v).length = 2 * (v + 1).log2 + 1 := by
  simp only [golomb, List.length_append, List.length_replicate, length_fixed]
  omega

/-! ## The bits of a memory -/

/-- Bit `i` of a memory. -/
def bitAt (mem : ℕ → UInt8) (i : ℕ) : Bool :=
  (mem (i / 8)).toNat.testBit (7 - i % 8)

/-- The `n` bits from bit `pos` on. -/
def window (mem : ℕ → UInt8) (pos : ℕ) : ℕ → List Bool
  | 0 => []
  | n + 1 => bitAt mem pos :: window mem (pos + 1) n

@[simp] theorem length_window (mem : ℕ → UInt8) (pos n : ℕ) : (window mem pos n).length = n := by
  induction n generalizing pos with
  | zero => rfl
  | succ n ih => simp [window, ih]

theorem window_add (mem : ℕ → UInt8) (pos m n : ℕ) :
    window mem pos (m + n) = window mem pos m ++ window mem (pos + m) n := by
  induction m generalizing pos with
  | zero => simp [window]
  | succ m ih =>
    rw [show m + 1 + n = (m + n) + 1 by omega]
    simp only [window, ih, List.cons_append, show pos + 1 + m = pos + (m + 1) by omega]

theorem window_congr {mem mem' : ℕ → UInt8} {pos n : ℕ}
    (h : ∀ i, pos ≤ i → i < pos + n → bitAt mem i = bitAt mem' i) :
    window mem pos n = window mem' pos n := by
  induction n generalizing pos with
  | zero => rfl
  | succ n ih =>
    simp only [window]
    rw [h pos le_rfl (by omega), ih fun i hi hn => h i (by omega) (by omega)]

theorem bitAt_congr {mem mem' : ℕ → UInt8} {i : ℕ} (h : mem (i / 8) = mem' (i / 8)) :
    bitAt mem i = bitAt mem' i := by
  unfold bitAt
  rw [h]

theorem getElem_window (mem : ℕ → UInt8) (pos n : ℕ) {k : ℕ} (h : k < (window mem pos n).length) :
    (window mem pos n)[k] = bitAt mem (pos + k) := by
  induction n generalizing pos k with
  | zero => simp at h
  | succ n ih =>
    cases k with
    | zero => rfl
    | succ k => simp only [window, List.getElem_cons_succ, ih, Nat.add_assoc, Nat.add_comm 1 k]

theorem window_byte (mem : ℕ → UInt8) (k : ℕ) : window mem (8 * k) 8 = fixed 8 (mem k).toNat := by
  simp only [window, fixed, bitAt]
  congr <;> omega

theorem window_eq_iff {mem : ℕ → UInt8} {pos : ℕ} {l : List Bool} :
    window mem pos l.length = l ↔ ∀ k (h : k < l.length), bitAt mem (pos + k) = l[k] := by
  constructor
  · intro h k hk
    rw [← getElem_window mem pos l.length (by simpa using hk)]
    simp only [h]
  · intro h
    apply List.ext_getElem (by simp)
    intro k h1 h2
    rw [getElem_window, h k h2]

theorem window_eq_replicate {mem : ℕ → UInt8} {pos n : ℕ}
    (h : ∀ i < n, bitAt mem (pos + i) = false) : window mem pos n = List.replicate n false := by
  apply List.ext_getElem (by simp)
  intro i h1 h2
  rw [getElem_window, h i (by simpa using h2), List.getElem_replicate]

end BitStrings
