import Mathlib.Algebra.Order.Group.Abs
import Mathlib.Algebra.Order.Ring.Int
import Mathlib.Tactic.Common

/-!
# Counters sent by their low part

A counter `msb + lsb`, where `msb` is a multiple of `max`, is sent as `lsb`
alone, and the receiver takes the value that is nearest to the previous counter.
`msb` is the multiple it chooses.  The results say which value that is: the one
that is congruent to `lsb` and at most `max / 2` above, or less than `max / 2`
below, the previous counter.
-/

namespace LsbCounters

/-- The multiple of `max` for the low part `lsb` next to the counter
`prevMsb + prevLsb`. -/
def msb (max prevMsb prevLsb lsb : ℤ) : ℤ :=
  if lsb < prevLsb ∧ max / 2 ≤ prevLsb - lsb then prevMsb + max
  else if prevLsb < lsb ∧ max / 2 < lsb - prevLsb then prevMsb - max
  else prevMsb

variable {max prevMsb prevLsb lsb v : ℤ}

@[simp] theorem msb_self (max prevMsb lsb : ℤ) : msb max prevMsb lsb lsb = prevMsb := by
  simp [msb]

theorem msb_nonneg (hpos : 0 < max) (h : lsb ≤ prevLsb + max / 2) :
    0 ≤ msb max 0 prevLsb lsb := by
  unfold msb
  split_ifs <;> omega

theorem msb_again (hpos : 0 < max) (h : lsb ≤ prevLsb + max / 2) :
    msb max 0 (msb max 0 prevLsb lsb + lsb) lsb = msb max 0 prevLsb lsb := by
  unfold msb
  split_ifs <;> omega

theorem msb_eq_or (max prevMsb prevLsb lsb : ℤ) :
    msb max prevMsb prevLsb lsb = prevMsb - max ∨ msb max prevMsb prevLsb lsb = prevMsb ∨
      msb max prevMsb prevLsb lsb = prevMsb + max := by
  unfold msb
  split_ifs <;> simp

theorem dvd_msb (prevLsb lsb : ℤ) (h : max ∣ prevMsb) : max ∣ msb max prevMsb prevLsb lsb := by
  rcases msb_eq_or max prevMsb prevLsb lsb with h' | h' | h' <;> rw [h']
  · exact Int.dvd_sub h (dvd_refl max)
  · exact h
  · exact Int.dvd_add h (dvd_refl max)

theorem msb_add_lsb_mem (prevMsb : ℤ) (heven : 2 ∣ max) (hp : 0 ≤ prevLsb ∧ prevLsb < max)
    (hl : 0 ≤ lsb ∧ lsb < max) :
    prevMsb + prevLsb - max / 2 < msb max prevMsb prevLsb lsb + lsb ∧
      msb max prevMsb prevLsb lsb + lsb ≤ prevMsb + prevLsb + max / 2 := by
  unfold msb
  split_ifs <;> omega

/-- A counter less than `max / 2` away from the previous one is recovered. -/
theorem msb_add_lsb_eq (heven : 2 ∣ max) (hp : 0 ≤ prevLsb ∧ prevLsb < max)
    (hm : max ∣ prevMsb) (hv : |v - (prevMsb + prevLsb)| < max / 2) :
    msb max prevMsb prevLsb (v % max) + v % max = v := by
  have hpos : 0 < max := hp.1.trans_lt hp.2
  have hl : 0 ≤ v % max ∧ v % max < max :=
    ⟨Int.emod_nonneg v hpos.ne', Int.emod_lt_of_pos v hpos⟩
  obtain ⟨hlo, hhi⟩ := msb_add_lsb_mem prevMsb heven hp hl
  rw [abs_lt] at hv
  -- both counters have the same low part and lie in one window of length `max`
  obtain ⟨k, hk⟩ : max ∣ msb max prevMsb prevLsb (v % max) + v % max - v := by
    have hd := dvd_msb prevLsb (v % max) hm
    have hv' : max ∣ v % max - v := by
      refine ⟨-(v / max), ?_⟩
      have := Int.mul_ediv_add_emod v max
      rw [mul_neg]
      omega
    rw [add_sub_assoc]
    exact Int.dvd_add hd hv'
  have hk0 : k = 0 := by
    by_contra hne
    rcases lt_or_gt_of_ne hne with h | h
    · have := Int.mul_le_mul_of_nonneg_left (show k ≤ -1 by omega) hpos.le
      omega
    · have := Int.mul_le_mul_of_nonneg_left (show 1 ≤ k by omega) hpos.le
      omega
  rw [hk0, mul_zero] at hk
  omega

end LsbCounters
