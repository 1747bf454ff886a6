import VcuCodec.BitStrings

/-!
# Binary interval coding

A coder keeps an interval of `range` numbers from `low` on and doubles it while it is
short.  A bit is sent when all numbers of the interval agree on it; where they do not, the
bit is left out and counted.  The decoder keeps how far the number that was sent is above
the interval.  `k` fixes the width of the registers: an interval has more than `2 ^ k`
numbers when it is divided, and `low` stays below `2 ^ (k + 2)`.
-/

namespace IntervalCoding

open BitStrings

/-! ## Coder and decoder -/

/-- The registers of a coder and the bits it has sent. -/
structure Coder where
  bits : List Bool
  out : ℕ
  low : ℕ
  range : ℕ
  deriving DecidableEq

namespace Coder

variable (k : ℕ)

/-- A bit is sent, and behind it the bits that were left out. -/
def send (c : Coder) (b : Bool) : Coder :=
  { c with
    bits := c.bits ++ b :: List.replicate c.out !b
    out := 0 }

/-- The interval is doubled. -/
def round (c : Coder) : Coder :=
  if c.low < 2 ^ k ∨ 2 ^ (k + 1) ≤ c.low then
    { c.send (2 ^ (k + 1) ≤ c.low) with
      low := 2 * (c.low % 2 ^ (k + 1))
      range := 2 * c.range }
  else { c with
    out := c.out + 1
    low := 2 * (c.low - 2 ^ k)
    range := 2 * c.range }

/-- At most so many rounds, while the interval is short. -/
def renorm : ℕ → Coder → Coder
  | 0, c => c
  | n + 1, c => if c.range < 2 ^ k then renorm n (c.round k) else c

/-- The interval without its last `width` numbers. -/
def lower (c : Coder) (width : ℕ) : Coder := { c with range := c.range - width }

def upper (c : Coder) (width : ℕ) : Coder :=
  { c with
    low := c.low + (c.range - width)
    range := width }

/-- How many bits were sent or left out. -/
def place (c : Coder) : ℕ := c.bits.length + c.out

/-- The first number of the interval, with everything that was sent. -/
def number (c : Coder) : ℕ :=
  value c.bits * 2 ^ (k + 2) * 2 ^ c.out + c.low + 2 ^ (k + 1) * (2 ^ c.out - 1)

/-- The interval is inside of the registers and not empty. -/
structure Fits (c : Coder) : Prop where
  high : c.low + c.range ≤ 2 ^ (k + 2)
  pos : 0 < c.range

end Coder

structure Decoder where
  range : ℕ
  offset : ℕ
  rest : List Bool
  deriving DecidableEq

namespace Decoder

def round (d : Decoder) : Option Decoder :=
  match d.rest with
  | [] => none
  | b :: rest => some ⟨2 * d.range, 2 * d.offset + b.toNat, rest⟩

def renorm (k : ℕ) : ℕ → Decoder → Option Decoder
  | 0, d => some d
  | n + 1, d => if d.range < 2 ^ k then d.round.bind (renorm k n) else some d

end Decoder

variable {k n width : ℕ} {c : Coder} {d : Decoder} {w : List Bool} {b : Bool}

/-! ## One round of the coder -/

theorem value_replicate (n : ℕ) (b : Bool) : value (List.replicate n b) = b.toNat * (2 ^ n - 1) := by
  cases b with
  | false => rw [value_replicate_false, Bool.toNat_false, Nat.zero_mul]
  | true =>
    induction n with
    | zero => rfl
    | succ n ih =>
      have hpos := Nat.two_pow_pos n
      rw [List.replicate_succ, value, ih, List.length_replicate, Bool.toNat_true, pow_succ]
      omega

namespace Coder

theorem value_send (c : Coder) (b : Bool) :
    value (c.send b).bits + (!b).toNat = (2 * value c.bits + 1) * 2 ^ c.out := by
  have hpos := Nat.two_pow_pos c.out
  unfold send
  rw [value_append, value, value_replicate, List.length_cons, List.length_replicate, pow_succ]
  cases b with
  | true =>
    simp only [Bool.toNat_true, Bool.not_true, Bool.toNat_false]
    ring
  | false =>
    simp only [Bool.toNat_true, Bool.not_false, Bool.toNat_false]
    obtain ⟨p, hp⟩ : ∃ p, 2 ^ c.out = p + 1 := ⟨2 ^ c.out - 1, by omega⟩
    rw [hp, Nat.add_sub_cancel]
    ring

theorem round_send (h : c.low < 2 ^ k ∨ 2 ^ (k + 1) ≤ c.low) : c.round k = { c.send (2 ^ (k + 1) ≤ c.low) with
    low := 2 * (c.low % 2 ^ (k + 1))
    range := 2 * c.range } := if_pos h

theorem round_leave (h : ¬ (c.low < 2 ^ k ∨ 2 ^ (k + 1) ≤ c.low)) : c.round k = { c with
    out := c.out + 1
    low := 2 * (c.low - 2 ^ k)
    range := 2 * c.range } := if_neg h

@[simp] theorem range_round : (c.round k).range = 2 * c.range := by
  unfold round
  split <;> rfl

theorem place_round : (c.round k).place = c.place + 1 := by
  unfold place
  by_cases h : c.low < 2 ^ k ∨ 2 ^ (k + 1) ≤ c.low
  · rw [round_send h]
    show (c.bits ++ _ :: List.replicate c.out _).length + 0 = _
    rw [List.length_append, List.length_cons, List.length_replicate]
    omega
  · rw [round_leave h]
    show c.bits.length + (c.out + 1) = _
    omega

theorem number_round (hhigh : c.low < 2 ^ (k + 2)) : (c.round k).number k = 2 * c.number k := by
  have hhalf : 2 ^ (k + 1) = 2 * 2 ^ k := pow_succ' 2 k
  have hfull : 2 ^ (k + 2) = 2 * 2 ^ (k + 1) := pow_succ' 2 (k + 1)
  have hpos := Nat.two_pow_pos c.out
  obtain ⟨p, hp⟩ : ∃ p, 2 ^ c.out = p + 1 := ⟨2 ^ c.out - 1, by omega⟩
  by_cases h : c.low < 2 ^ k ∨ 2 ^ (k + 1) ≤ c.low
  · have hvalue := value_send c (2 ^ (k + 1) ≤ c.low)
    rw [round_send h]
    show value (c.send (2 ^ (k + 1) ≤ c.low)).bits * 2 ^ (k + 2) * 2 ^ 0 + 2 * (c.low % 2 ^ (k + 1)) +
      2 ^ (k + 1) * (2 ^ 0 - 1) = _
    unfold number
    rw [hp] at hvalue ⊢
    generalize value (c.send (2 ^ (k + 1) ≤ c.low)).bits = v at hvalue ⊢
    by_cases hone : 2 ^ (k + 1) ≤ c.low
    · obtain ⟨t, ht⟩ := Nat.exists_eq_add_of_le hone
      rw [decide_eq_true hone, Bool.not_true, Bool.toNat_false, Nat.add_zero] at hvalue
      have hmod : c.low % 2 ^ (k + 1) = t := by
        rw [ht, Nat.add_mod_left, Nat.mod_eq_of_lt (by omega)]
      rw [hmod, hvalue, ht, hfull, Nat.add_sub_cancel]
      simp only [pow_zero, Nat.sub_self, Nat.mul_zero]
      ring
    · rw [decide_eq_false hone, Bool.not_false, Bool.toNat_true] at hvalue
      have hv : v = 2 * value c.bits * (p + 1) + p := by
        apply Nat.add_right_cancel (m := 1)
        rw [hvalue]
        ring
      rw [Nat.mod_eq_of_lt (Nat.lt_of_not_le hone), hv, hfull, Nat.add_sub_cancel]
      simp only [pow_zero, Nat.sub_self, Nat.mul_zero]
      ring
  · rw [round_leave h]
    obtain ⟨t, ht⟩ := Nat.exists_eq_add_of_le (Nat.le_of_not_lt fun hlow => h (Or.inl hlow))
    unfold number
    show value c.bits * 2 ^ (k + 2) * 2 ^ (c.out + 1) + 2 * (c.low - 2 ^ k) + 2 ^ (k + 1) * (2 ^ (c.out + 1) - 1) = _
    have hout : 2 ^ (c.out + 1) - 1 = 2 * p + 1 := by
      rw [pow_succ', hp]
      omega
    rw [hout, pow_succ' 2 c.out, hp, ht, Nat.add_sub_cancel_left, Nat.add_sub_cancel, hfull, hhalf]
    ring

theorem Fits.round (h : c.Fits k) (hshort : c.range < 2 ^ k) : (c.round k).Fits k := by
  have hhalf : 2 ^ (k + 1) = 2 * 2 ^ k := pow_succ' 2 k
  have hfull : 2 ^ (k + 2) = 2 * 2 ^ (k + 1) := pow_succ' 2 (k + 1)
  have hhigh := h.high
  have hpos := h.pos
  by_cases hsend : c.low < 2 ^ k ∨ 2 ^ (k + 1) ≤ c.low
  · rw [round_send hsend]
    refine ⟨?_, show 0 < 2 * c.range by omega⟩
    show 2 * (c.low % 2 ^ (k + 1)) + 2 * c.range ≤ _
    rcases hsend with hlow | hlow
    · rw [Nat.mod_eq_of_lt (by omega)]
      omega
    · rw [Nat.mod_eq_sub_mod hlow, Nat.mod_eq_of_lt (by omega)]
      omega
  · rw [round_leave hsend]
    refine ⟨?_, show 0 < 2 * c.range by omega⟩
    show 2 * (c.low - 2 ^ k) + 2 * c.range ≤ _
    omega

theorem Fits.lower (h : c.Fits k) (hlt : width < c.range) : (c.lower width).Fits k := by
  have hhigh := h.high
  refine ⟨?_, Nat.sub_pos_of_lt hlt⟩
  show c.low + (c.range - width) ≤ _
  omega

theorem Fits.upper (h : c.Fits k) (hpos : 0 < width) (hlt : width < c.range) : (c.upper width).Fits k := by
  have hhigh := h.high
  refine ⟨?_, hpos⟩
  show c.low + (c.range - width) + width ≤ _
  omega

theorem Fits.renorm (h : c.Fits k) (n : ℕ) : (renorm k n c).Fits k := by
  induction n generalizing c with
  | zero => exact h
  | succ n ih =>
    unfold Coder.renorm
    split
    · next hshort => exact ih (h.round hshort)
    · exact h

theorem renorm_range (hpos : 2 ^ k ≤ c.range * 2 ^ n) : 2 ^ k ≤ (renorm k n c).range := by
  induction n generalizing c with
  | zero => exact hpos.trans_eq (by rw [pow_zero, Nat.mul_one]; rfl)
  | succ n ih =>
    unfold Coder.renorm
    split
    · apply ih
      rw [range_round]
      calc 2 ^ k ≤ c.range * 2 ^ (n + 1) := hpos
        _ = 2 * c.range * 2 ^ n := by ring
    · next hlong => exact Nat.le_of_not_lt hlong

theorem renorm_range_le (hle : c.range + 2 ≤ 2 ^ (k + 1)) : (renorm k n c).range + 2 ≤ 2 ^ (k + 1) := by
  induction n generalizing c with
  | zero => exact hle
  | succ n ih =>
    unfold Coder.renorm
    split
    · next hshort =>
      apply ih
      rw [range_round, pow_succ']
      omega
    · exact hle

theorem place_renorm_le (n : ℕ) (c : Coder) : c.place ≤ (renorm k n c).place := by
  induction n generalizing c with
  | zero => exact le_rfl
  | succ n ih =>
    unfold Coder.renorm
    split
    · have hround : (c.round k).place = c.place + 1 := place_round
      exact (by omega : c.place ≤ (c.round k).place).trans (ih _)
    · exact le_rfl

end Coder

/-! ## The number that is sent -/

/-- The bits of `w` that the decoder has read make a number of the interval. -/
structure Contains (k : ℕ) (w : List Bool) (c : Coder) : Prop where
  long : c.place + k + 2 ≤ w.length
  le : c.number k ≤ value (w.take (c.place + k + 2))
  lt : value (w.take (c.place + k + 2)) < c.number k + c.range

theorem value_take_succ {m : ℕ} (hm : m < w.length) : value (w.take (m + 1)) = 2 * value (w.take m) + (w[m]).toNat := by
  rw [List.take_add_one, List.getElem?_eq_getElem hm, Option.toList_some, value_append, value]
  simp only [List.length_singleton, List.length_nil, pow_zero, pow_one, value]
  ring

namespace Contains

theorem of_round (h : Contains k w (c.round k)) (hfits : c.Fits k) : Contains k w c := by
  have hhigh : c.low < 2 ^ (k + 2) := by
    have := hfits.high
    have := hfits.pos
    omega
  have hplace : (c.round k).place = c.place + 1 := Coder.place_round
  have hlong := h.long
  have hle := h.le
  have hlt := h.lt
  rw [Coder.number_round hhigh, hplace] at hle hlt
  rw [hplace] at hlong
  rw [Coder.range_round] at hlt
  have hnext : value (w.take (c.place + 1 + k + 2)) = 2 * value (w.take (c.place + k + 2)) + (w[c.place + k + 2]).toNat := by
    rw [← value_take_succ]
    congr 2
    omega
  have hbit := Bool.toNat_lt (w[c.place + k + 2])
  exact ⟨by omega, by omega, by omega⟩

theorem of_renorm (h : Contains k w (Coder.renorm k n c)) (hfits : c.Fits k) : Contains k w c := by
  induction n generalizing c with
  | zero => exact h
  | succ n ih =>
    unfold Coder.renorm at h
    split at h
    · next hshort => exact (ih h (hfits.round hshort)).of_round hfits
    · exact h

theorem of_lower (h : Contains k w (c.lower width)) : Contains k w c := by
  refine ⟨h.long, h.le, h.lt.trans_le ?_⟩
  show c.number k + (c.range - width) ≤ _
  omega

theorem number_upper (c : Coder) (width : ℕ) : (c.upper width).number k = c.number k + (c.range - width) := by
  unfold Coder.number Coder.upper
  dsimp only
  omega

theorem of_upper (h : Contains k w (c.upper width)) (hlt : width ≤ c.range) : Contains k w c := by
  have hle := h.le
  have hlt' := h.lt
  rw [number_upper] at hle hlt'
  refine ⟨h.long, (Nat.le_add_right _ _).trans hle, hlt'.trans_le ?_⟩
  show c.number k + (c.range - width) + width ≤ _
  omega

end Contains

/-! ## The decoder follows -/

/-- The decoder has the interval of the coder and knows how far the number is above it. -/
structure Follows (k : ℕ) (w : List Bool) (c : Coder) (d : Decoder) : Prop where
  range : d.range = c.range
  offset : d.offset + c.number k = value (w.take (c.place + k + 2))
  rest : d.rest = w.drop (c.place + k + 2)

namespace Follows

theorem round (h : Follows k w c d) (hfits : c.Fits k) (hc : Contains k w (c.round k)) :
    ∃ d', d.round = some d' ∧ Follows k w (c.round k) d' := by
  have hhigh : c.low < 2 ^ (k + 2) := by
    have := hfits.high
    have := hfits.pos
    omega
  have hplace : (c.round k).place = c.place + 1 := Coder.place_round
  have hlong := hc.long
  rw [hplace] at hlong
  have hm : c.place + k + 2 < w.length := by omega
  have hrest : d.rest = w[c.place + k + 2] :: w.drop (c.place + k + 2 + 1) := by
    rw [h.rest, List.drop_eq_getElem_cons hm]
  refine ⟨⟨2 * d.range, 2 * d.offset + (w[c.place + k + 2]).toNat, w.drop (c.place + k + 2 + 1)⟩, ?_, ?_, ?_, ?_⟩
  · unfold Decoder.round
    rw [hrest]
  · show 2 * d.range = _
    rw [Coder.range_round, h.range]
  · show 2 * d.offset + _ + _ = _
    have heq : c.place + 1 + k + 2 = c.place + k + 2 + 1 := by omega
    rw [Coder.number_round hhigh, hplace, heq, value_take_succ hm, ← h.offset]
    omega
  · show w.drop _ = _
    rw [hplace]
    congr 1
    omega

theorem renorm (h : Follows k w c d) (hfits : c.Fits k) (hc : Contains k w (Coder.renorm k n c)) :
    ∃ d', Decoder.renorm k n d = some d' ∧ Follows k w (Coder.renorm k n c) d' := by
  induction n generalizing c d with
  | zero => exact ⟨d, rfl, h⟩
  | succ n ih =>
    unfold Coder.renorm at hc ⊢
    unfold Decoder.renorm
    rw [h.range]
    by_cases hshort : c.range < 2 ^ k
    · rw [if_pos hshort] at hc ⊢
      rw [if_pos hshort]
      have hround := hfits.round hshort
      obtain ⟨d', hd', hfollows⟩ := h.round hfits (hc.of_renorm hround)
      rw [hd', Option.bind_some]
      exact ih hfollows hround hc
    · rw [if_neg hshort, if_neg hshort]
      exact ⟨d, rfl, h⟩

theorem lower (h : Follows k w c d) (hc : Contains k w (c.lower width)) :
    ¬ d.range - width ≤ d.offset ∧ Follows k w (c.lower width) { d with range := d.range - width } := by
  have hlt : value (w.take (c.place + k + 2)) < c.number k + (c.range - width) := hc.lt
  have hoffset := h.offset
  refine ⟨?_, ?_, h.offset, h.rest⟩
  · rw [h.range]
    omega
  · show d.range - width = c.range - width
    rw [h.range]

theorem upper (h : Follows k w c d) (hc : Contains k w (c.upper width)) :
    d.range - width ≤ d.offset ∧
      Follows k w (c.upper width) { d with range := width, offset := d.offset - (d.range - width) } := by
  have hle := hc.le
  rw [Contains.number_upper] at hle
  have hle' : c.number k + (c.range - width) ≤ value (w.take (c.place + k + 2)) := hle
  have hoffset := h.offset
  have hrange := h.range
  refine ⟨by omega, rfl, ?_, h.rest⟩
  show d.offset - (d.range - width) + (c.upper width).number k = value (w.take (c.place + k + 2))
  rw [Contains.number_upper]
  omega

end Follows

/-! ## The end of a code word -/

namespace Coder

theorem number_send (hhigh : c.low < 2 ^ (k + 2)) :
    c.number k = value (c.send (2 ^ (k + 1) ≤ c.low)).bits * 2 ^ (k + 1) + c.low % 2 ^ (k + 1) := by
  have hfull : 2 ^ (k + 2) = 2 * 2 ^ (k + 1) := pow_succ' 2 (k + 1)
  have hpos := Nat.two_pow_pos c.out
  obtain ⟨p, hp⟩ : ∃ p, 2 ^ c.out = p + 1 := ⟨2 ^ c.out - 1, by omega⟩
  have hvalue := value_send c (2 ^ (k + 1) ≤ c.low)
  unfold number
  rw [hp] at hvalue ⊢
  generalize value (c.send (2 ^ (k + 1) ≤ c.low)).bits = v at hvalue ⊢
  by_cases hone : 2 ^ (k + 1) ≤ c.low
  · obtain ⟨t, ht⟩ := Nat.exists_eq_add_of_le hone
    rw [decide_eq_true hone, Bool.not_true, Bool.toNat_false, Nat.add_zero] at hvalue
    have hmod : c.low % 2 ^ (k + 1) = t := by
      rw [ht, Nat.add_mod_left, Nat.mod_eq_of_lt (by omega)]
    rw [hmod, hvalue, ht, hfull, Nat.add_sub_cancel]
    ring
  · rw [decide_eq_false hone, Bool.not_false, Bool.toNat_true] at hvalue
    have hv : v = 2 * value c.bits * (p + 1) + p := by
      apply Nat.add_right_cancel (m := 1)
      rw [hvalue]
      ring
    rw [Nat.mod_eq_of_lt (Nat.lt_of_not_le hone), hv, hfull, Nat.add_sub_cancel]
    ring

theorem length_send (c : Coder) (b : Bool) : (c.send b).bits.length = c.place + 1 := by
  unfold send place
  rw [List.length_append, List.length_cons, List.length_replicate, Nat.add_assoc]

/-- Rounds that make the interval as long as it has to be. -/
theorem number_renorm {m : ℕ} (hfits : c.Fits k) (hm : m ≤ n) (hrange : c.range * 2 ^ m = 2 ^ k) :
    (renorm k n c).number k = 2 ^ m * c.number k ∧ (renorm k n c).place = c.place + m := by
  induction m generalizing c n with
  | zero =>
    have hlong : ¬ c.range < 2 ^ k := by
      rw [← hrange, pow_zero, Nat.mul_one]
      exact lt_irrefl _
    have hstop : renorm k n c = c := by
      cases n with
      | zero => rfl
      | succ n => exact if_neg hlong
    rw [hstop, pow_zero, Nat.one_mul]
    exact ⟨rfl, rfl⟩
  | succ m ih =>
    obtain ⟨n, rfl⟩ : ∃ n', n = n' + 1 := ⟨n - 1, by omega⟩
    have hpos := hfits.pos
    have hhigh : c.low < 2 ^ (k + 2) := by
      have := hfits.high
      omega
    have hshort : c.range < 2 ^ k := by
      rw [← hrange]
      exact lt_mul_of_one_lt_right hpos (Nat.one_lt_two_pow (Nat.succ_ne_zero m))
    have hstep : renorm k (n + 1) c = renorm k n (c.round k) := if_pos hshort
    have hnext : (c.round k).range * 2 ^ m = 2 ^ k := by
      rw [range_round, ← hrange]
      ring
    obtain ⟨hnumber, hplace⟩ := ih (hfits.round hshort) (Nat.le_of_succ_le_succ hm) hnext
    rw [hstep, hnumber, hplace, number_round hhigh, place_round]
    constructor
    · ring
    · omega

/-- The first bit is never set: the interval is below it. -/
def Bounded (k : ℕ) (c : Coder) : Prop := c.number k + c.range ≤ 2 ^ (c.place + k + 1)

theorem Bounded.round (h : c.Bounded k) (hhigh : c.low < 2 ^ (k + 2)) : (c.round k).Bounded k := by
  unfold Bounded at h ⊢
  rw [number_round hhigh, range_round, place_round]
  calc 2 * c.number k + 2 * c.range ≤ 2 * 2 ^ (c.place + k + 1) := by omega
    _ = 2 ^ (c.place + 1 + k + 1) := by ring

theorem Bounded.renorm (h : c.Bounded k) (hfits : c.Fits k) (n : ℕ) : (renorm k n c).Bounded k := by
  induction n generalizing c with
  | zero => exact h
  | succ n ih =>
    unfold Coder.renorm
    split
    · next hshort =>
      refine ih (h.round ?_) (hfits.round hshort)
      have := hfits.high
      have := hfits.pos
      omega
    · exact h

theorem Bounded.lower (h : c.Bounded k) : (c.lower width).Bounded k := by
  apply (Nat.add_le_add_left _ _).trans h
  exact Nat.sub_le _ _

theorem Bounded.upper (h : c.Bounded k) (hle : width ≤ c.range) : (c.upper width).Bounded k := by
  have hbound : c.number k + c.range ≤ 2 ^ (c.place + k + 1) := h
  show (c.upper width).number k + width ≤ 2 ^ (c.place + k + 1)
  rw [Contains.number_upper]
  omega

/-- The last bits: the upper part of two numbers was taken and made as long as it has to be. -/
def flush (k : ℕ) (c : Coder) : List Bool :=
  (c.send (2 ^ (k + 1) ≤ c.low)).bits ++ fixed 2 (c.low / 2 ^ (k - 1) % 4 ||| 1)

end Coder

theorem or_one_bounds : ∀ q < 4, q ≤ q ||| 1 ∧ q ||| 1 < q + 2 ∧ q ||| 1 < 2 ^ 2 := by
  decide

/-- What is sent in the end is one of the last two numbers. -/
theorem contains_flush (rest : List Bool) (hk : 0 < k) (hn : k - 1 ≤ n) (hfits : c.Fits k) (hrange : 2 < c.range) :
    Contains k (Coder.flush k (Coder.renorm k n (c.upper 2)) ++ rest) (c.upper 2) ∧
      (Coder.flush k (Coder.renorm k n (c.upper 2))).length = (c.upper 2).place + k + 2 := by
  have hupper : (c.upper 2).Fits k := hfits.upper (by omega) hrange
  have hpow : 2 * 2 ^ (k - 1) = 2 ^ k := by
    rw [← pow_succ', Nat.sub_add_cancel hk]
  obtain ⟨hnumber, hplace⟩ := Coder.number_renorm hupper hn (by exact hpow)
  have hlong := hupper.renorm n
  generalize Coder.renorm k n (c.upper 2) = c' at hnumber hplace hlong ⊢
  have hhigh : c'.low < 2 ^ (k + 2) := by
    have := hlong.high
    have := hlong.pos
    omega
  have hsend := Coder.number_send hhigh
  have hhalf : 2 ^ (k + 1) = 2 ^ (k - 1) * 4 := by
    rw [pow_succ, ← hpow]
    ring
  -- the bits below the last two are zero
  have hmod : c'.low % 2 ^ (k + 1) = 2 ^ (k - 1) * (c'.low / 2 ^ (k - 1) % 4) := by
    rw [hhalf, Nat.mod_mul, Nat.add_eq_right]
    have hdvd : 2 ^ (k - 1) ∣ c'.low % 2 ^ (k + 1) := by
      apply (Nat.dvd_add_right (Dvd.dvd.mul_left (hhalf ▸ Dvd.intro _ rfl) _)).mp
      rw [← hsend, hnumber]
      exact Dvd.intro _ rfl
    have hsame : c'.low % 2 ^ (k + 1) % 2 ^ (k - 1) = c'.low % 2 ^ (k - 1) :=
      Nat.mod_mod_of_dvd _ (hhalf ▸ Dvd.intro _ rfl)
    rw [← hsame]
    exact Nat.mod_eq_zero_of_dvd hdvd
  obtain ⟨hle, hlt, hsmall⟩ := or_one_bounds _ (Nat.mod_lt (c'.low / 2 ^ (k - 1)) (by omega : 0 < 4))
  have hvalue : value (Coder.flush k c') =
      value (c'.send (2 ^ (k + 1) ≤ c'.low)).bits * 4 + (c'.low / 2 ^ (k - 1) % 4 ||| 1) := by
    unfold Coder.flush
    rw [value_append, value_fixed_of_lt hsmall, length_fixed]
    rfl
  have hfour : (c.upper 2).number k = value (c'.send (2 ^ (k + 1) ≤ c'.low)).bits * 4 + c'.low / 2 ^ (k - 1) % 4 := by
    apply Nat.eq_of_mul_eq_mul_left (Nat.two_pow_pos (k - 1))
    rw [← hnumber, hsend, hmod, hhalf]
    ring
  have hlength : (Coder.flush k c').length = (c.upper 2).place + k + 2 := by
    unfold Coder.flush
    rw [List.length_append, length_fixed, Coder.length_send, hplace]
    omega
  have htake : (Coder.flush k c' ++ rest).take ((c.upper 2).place + k + 2) = Coder.flush k c' := by
    rw [← hlength, List.take_left]
  refine ⟨⟨?_, ?_, ?_⟩, hlength⟩
  · rw [List.length_append, hlength]
    omega
  · rw [htake, hvalue, hfour]
    omega
  · rw [htake, hvalue, hfour]
    show _ < _ + 2
    omega

end IntervalCoding
