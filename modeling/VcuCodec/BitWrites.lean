import VcuCodec.BitStreamLite

/-!
# What the bit writer writes

`s.Extends bs s'`: the writer went from `s` to `s'` by writing the bits `bs`.
One lemma for each writer function says which bits it writes, so that what is
built from them never looks into the buffer.
-/

namespace VcuCodec

open BitStrings

theorem testBit_add_of_low {a b k : ℕ} (ha : ∀ i < k, a.testBit i = false) (hb : b < 2 ^ k)
    (i : ℕ) : (a + b).testBit i = if i < k then b.testBit i else a.testBit i := by
  have hmod : a % 2 ^ k = 0 := by
    apply Nat.eq_of_testBit_eq
    intro j
    rw [Nat.testBit_mod_two_pow, Nat.zero_testBit]
    by_cases hj : j < k
    · rw [ha j hj, Bool.and_false]
    · simp [hj]
  obtain ⟨q, rfl⟩ := Nat.dvd_of_mod_eq_zero hmod
  rw [Nat.testBit_two_pow_mul_add _ hb, Nat.testBit_two_pow_mul]
  split
  · rfl
  · next h => simp [Nat.le_of_not_lt h]

namespace BitStreamLite

def bits (s : BitStreamLite) : List Bool := window s.pData 0 s.iBitCount

/-- The writer has not run over, and the rest of its current byte is zero. -/
structure Tidy (s : BitStreamLite) : Prop where
  fits : s.isOverflow = false
  rest : s.iBitCount % 8 ≠ 0 → ∀ i, s.iBitCount ≤ i → i / 8 = s.iBitCount / 8 →
    bitAt s.pData i = false

/-- From `s` to `s'` the writer writes `bs`. -/
structure Extends (s : BitStreamLite) (bs : List Bool) (s' : BitStreamLite) : Prop where
  tidy : s'.Tidy
  count : s'.iBitCount = s.iBitCount + bs.length
  max : s'.iMaxBits = s.iMaxBits
  old : ∀ i < s.iBitCount, bitAt s'.pData i = bitAt s.pData i
  new : window s'.pData s.iBitCount bs.length = bs

namespace Extends

variable {s s' s'' : BitStreamLite} {bs cs : List Bool}

theorem nil (h : s.Tidy) : s.Extends [] s where
  tidy := h
  count := rfl
  max := rfl
  old _ _ := rfl
  new := rfl

theorem append (h : s.Extends bs s') (h' : s'.Extends cs s'') : s.Extends (bs ++ cs) s'' where
  tidy := h'.tidy
  count := by rw [h'.count, h.count, List.length_append, Nat.add_assoc]
  max := h'.max.trans h.max
  old i hi := (h'.old i (by have := h.count; omega)).trans (h.old i hi)
  new := by
    rw [List.length_append, window_add, ← h.count, h'.new]
    congr 1
    refine (window_congr fun i hlo hhi => ?_).trans h.new
    exact h'.old i (by have := h.count; omega)

theorem bits_eq (h : s.Extends bs s') : s'.bits = s.bits ++ bs := by
  unfold bits
  rw [h.count, window_add, Nat.zero_add, h.new]
  congr 1
  exact window_congr fun i _ hi => h.old i (by omega)

end Extends

variable {s : BitStreamLite} {n v : ℕ}

/-! ## One byte -/

theorem bitAt_writeData (h : s.Tidy) (hn : s.iBitCount % 8 + n ≤ 8)
    (hv : s.iBitCount % 8 = 0 ∨ v < 2 ^ n) {i : ℕ} (hi : i / 8 = s.iBitCount / 8) :
    bitAt (s.writeData n v).pData i =
      if i < s.iBitCount then bitAt s.pData i
      else if i < s.iBitCount + n then v.testBit (s.iBitCount + n - 1 - i) else false := by
  unfold bitAt writeData
  simp only [hi, Function.update_self]
  by_cases hz : s.iBitCount % 8 = 0
  · have hlt : ¬i < s.iBitCount := by omega
    rw [if_pos hz, if_neg hlt, UInt8.toNat_ofNat', Nat.testBit_mod_two_pow, Nat.testBit_shiftLeft]
    by_cases hin : i < s.iBitCount + n
    · have h1 : 7 - i % 8 < 8 := by omega
      have h2 : 8 - n ≤ 7 - i % 8 := by omega
      have h3 : 7 - i % 8 - (8 - n) = s.iBitCount + n - 1 - i := by omega
      simp [h1, h2, h3, hin]
    · have h2 : ¬8 - n ≤ 7 - i % 8 := by omega
      simp [h2, hin]
  · have hv := hv.resolve_left hz
    -- the old byte ends with as many zeros as the new bits may need
    have hlow : ∀ j < 8 - s.iBitCount % 8,
        (s.pData (s.iBitCount / 8)).toNat.testBit j = false := by
      intro j hj
      have := h.rest hz (8 * (s.iBitCount / 8) + (7 - j)) (by omega) (by omega)
      unfold bitAt at this
      rw [show (8 * (s.iBitCount / 8) + (7 - j)) / 8 = s.iBitCount / 8 by omega,
        show 7 - (8 * (s.iBitCount / 8) + (7 - j)) % 8 = j by omega] at this
      exact this
    have hnew : v <<< (8 - s.iBitCount % 8 - n) < 2 ^ (8 - s.iBitCount % 8) := by
      rw [Nat.shiftLeft_eq, show 8 - s.iBitCount % 8 = n + (8 - s.iBitCount % 8 - n) by omega,
        Nat.add_sub_cancel_left, Nat.pow_add]
      exact Nat.mul_lt_mul_of_pos_right hv (Nat.two_pow_pos _)
    have hbyte : v <<< (8 - s.iBitCount % 8 - n) < 2 ^ 8 :=
      hnew.trans_le (Nat.pow_le_pow_right (by omega) (by omega))
    rw [if_neg hz, UInt8.toNat_add, UInt8.toNat_ofNat', Nat.mod_eq_of_lt hbyte,
      Nat.testBit_mod_two_pow, testBit_add_of_low hlow hnew, Nat.testBit_shiftLeft]
    have h1 : 7 - i % 8 < 8 := by omega
    by_cases hlt : i < s.iBitCount
    · have h2 : ¬7 - i % 8 < 8 - s.iBitCount % 8 := by omega
      simp [h1, h2, hlt]
    · have h2 : 7 - i % 8 < 8 - s.iBitCount % 8 := by omega
      by_cases hin : i < s.iBitCount + n
      · have h3 : 8 - s.iBitCount % 8 - n ≤ 7 - i % 8 := by omega
        have h4 : 7 - i % 8 - (8 - s.iBitCount % 8 - n) = s.iBitCount + n - 1 - i := by omega
        simp [h1, h2, h3, h4, hlt, hin]
      · have h3 : ¬8 - s.iBitCount % 8 - n ≤ 7 - i % 8 := by omega
        simp [h1, h2, h3, hlt, hin]

theorem bitAt_writeData_of_ne {i : ℕ} (hi : i / 8 ≠ s.iBitCount / 8) :
    bitAt (s.writeData n v).pData i = bitAt s.pData i := by
  apply bitAt_congr
  unfold writeData
  simp [Function.update_of_ne hi]

theorem getElem_fixed {k : ℕ} (h : k < (fixed n v).length) :
    (fixed n v)[k] = v.testBit (n - 1 - k) := by
  induction n generalizing k with
  | zero => simp at h
  | succ n ih =>
    cases k with
    | zero => rfl
    | succ k => simp only [fixed, List.getElem_cons_succ, ih, show n + 1 - 1 - (k + 1) = n - 1 - k by omega]

theorem putInByte_eq (hmax : s.iBitCount + n ≤ s.iMaxBits) : s.putInByte n v =
    ⟨(s.writeData n v).pData, s.iBitCount + n, s.iMaxBits, s.isOverflow⟩ := by
  unfold putInByte
  rw [if_pos hmax]
  rfl

theorem putInByte_extends (h : s.Tidy) (hn0 : 0 < n) (hn : s.iBitCount % 8 + n ≤ 8)
    (hv : s.iBitCount % 8 = 0 ∨ v < 2 ^ n) (hmax : s.iBitCount + n ≤ s.iMaxBits) :
    s.Extends (fixed n v) (s.putInByte n v) := by
  rw [putInByte_eq hmax]
  constructor
  · refine ⟨h.fits, fun hz i hi hbyte => ?_⟩
    dsimp only at hz hi hbyte ⊢
    have : (s.iBitCount + n) / 8 = s.iBitCount / 8 := by omega
    rw [bitAt_writeData h hn hv (by omega), if_neg (by omega), if_neg (by omega)]
  · rw [length_fixed]
  · rfl
  · intro i hi
    dsimp only
    by_cases hb : i / 8 = s.iBitCount / 8
    · rw [bitAt_writeData h hn hv hb, if_pos hi]
    · exact bitAt_writeData_of_ne hb
  · rw [window_eq_iff]
    intro k hk
    rw [length_fixed] at hk
    dsimp only
    rw [bitAt_writeData h hn hv (by omega), if_neg (by omega), if_pos (by omega), getElem_fixed]
    congr 1
    omega

/-! ## Codes -/

theorem shiftRight_of_congr {a b w n : ℕ} (hwn : w < n) (h : a % 2 ^ n = b % 2 ^ n) :
    (a >>> (n - w)) % 2 ^ w = (b >>> (n - w)) % 2 ^ w := by
  apply Nat.eq_of_testBit_eq
  intro j
  rw [Nat.testBit_mod_two_pow, Nat.testBit_mod_two_pow, Nat.testBit_shiftRight,
    Nat.testBit_shiftRight]
  by_cases hj : j < w
  · have := congrArg (·.testBit (n - w + j)) h
    simp only [Nat.testBit_mod_two_pow, show n - w + j < n by omega, decide_true,
      Bool.true_and] at this
    rw [this]
  · simp [hj]

theorem shiftRight_ones : ∀ w ≤ 8, 0xFFFFFFFF >>> w = 2 ^ (32 - w) - 1 := by
  decide

theorem putBits_of_lt (hlt : 8 - s.iBitCount % 8 < n) : s.putBits n v =
    (s.putInByte (8 - s.iBitCount % 8) (v >>> (n - (8 - s.iBitCount % 8)) % 2 ^ 8)).putBits
      (n - (8 - s.iBitCount % 8)) (v &&& (0xFFFFFFFF >>> (8 - s.iBitCount % 8))) := by
  have hround : putBitsRound (s, n, v) = .inl
      (s.putInByte (8 - s.iBitCount % 8) (v >>> (n - (8 - s.iBitCount % 8)) % 2 ^ 8),
        n - (8 - s.iBitCount % 8), v &&& (0xFFFFFFFF >>> (8 - s.iBitCount % 8))) := by
    simp only [putBitsRound]
    rw [if_pos hlt]
  exact MeasuredLoops.run_of_inl putBitsRound_lt hround

theorem putBits_of_le (hle : n ≤ 8 - s.iBitCount % 8) : s.putBits n v = s.putInByte n v := by
  have hround : putBitsRound (s, n, v) = .inr (s.putInByte n v) := by
    simp only [putBitsRound]
    rw [if_neg (by omega)]
  exact MeasuredLoops.run_of_inr putBitsRound_lt hround

theorem leading_congr {v₀ w : ℕ} (hw : w ≤ 8) (hlt : w < n) (hmod : v % 2 ^ n = v₀ % 2 ^ n) :
    v >>> (n - w) % 2 ^ 8 % 2 ^ w = v₀ >>> (n - w) % 2 ^ w := by
  rw [Nat.mod_mod_of_dvd _ (Nat.pow_dvd_pow 2 hw), shiftRight_of_congr hlt hmod]

theorem leading_lt {w : ℕ} (hlt : w < n) (hv : v < 2 ^ n) : v >>> (n - w) % 2 ^ 8 < 2 ^ w := by
  have hb : v >>> (n - w) < 2 ^ w := by
    rw [Nat.shiftRight_eq_div_pow]
    apply Nat.div_lt_of_lt_mul
    rwa [← Nat.pow_add, Nat.sub_add_cancel hlt.le]
  exact (Nat.mod_le _ _).trans_lt hb

theorem trailing_congr {v₀ w : ℕ} (hw : w ≤ 8) (hlt : w < n) (hn : n ≤ 32)
    (hmod : v % 2 ^ n = v₀ % 2 ^ n) :
    (v &&& (0xFFFFFFFF >>> w)) % 2 ^ (n - w) = v₀ % 2 ^ (n - w) := by
  have hd : 2 ^ (n - w) ∣ 2 ^ n := Nat.pow_dvd_pow 2 (by omega)
  rw [shiftRight_ones w hw, Nat.and_two_pow_sub_one_eq_mod,
    Nat.mod_mod_of_dvd _ (Nat.pow_dvd_pow 2 (by omega)), ← Nat.mod_mod_of_dvd v hd, hmod,
    Nat.mod_mod_of_dvd v₀ hd]

/-- The bits of `PutBits`: those of its argument, also where this has more than
`n` bits and the current byte is full. -/
theorem putBits_extends_congr (h : s.Tidy) {v₀ : ℕ} (hn0 : 0 < n) (hn : n ≤ 32)
    (hmod : v % 2 ^ n = v₀ % 2 ^ n) (hv : s.iBitCount % 8 = 0 ∨ v < 2 ^ n)
    (hmax : s.iBitCount + n ≤ s.iMaxBits) : s.Extends (fixed n v₀) (s.putBits n v) := by
  induction n using Nat.strongRecOn generalizing s v with
  | ind n ih =>
    by_cases hlt : 8 - s.iBitCount % 8 < n
    · -- the first round fills the byte with the leading bits
      rw [putBits_of_lt hlt]
      have hw0 : 0 < 8 - s.iBitCount % 8 := by omega
      generalize hw : 8 - s.iBitCount % 8 = w at *
      have hfst : s.Extends (fixed w (v₀ >>> (n - w)))
          (s.putInByte w (v >>> (n - w) % 2 ^ 8)) := by
        rw [← fixed_congr (leading_congr (by omega) hlt hmod)]
        exact putInByte_extends h hw0 (by omega) (hv.imp_right (leading_lt hlt)) (by omega)
      have halign : (s.putInByte w (v >>> (n - w) % 2 ^ 8)).iBitCount % 8 = 0 := by
        rw [hfst.count, length_fixed]
        omega
      have hsnd := ih (n - w) (by omega) hfst.tidy (by omega) (by omega)
        (trailing_congr (by omega) hlt hn hmod) (.inl halign)
        (by rw [hfst.count, hfst.max, length_fixed]; omega)
      have := hfst.append hsnd
      rwa [← fixed_add, show w + (n - w) = n by omega] at this
    · rw [putBits_of_le (by omega), ← fixed_congr hmod]
      exact putInByte_extends h hn0 (by omega) hv hmax

theorem putBits_extends (h : s.Tidy) (hn0 : 0 < n) (hn : n ≤ 32) (hv : v < 2 ^ n)
    (hmax : s.iBitCount + n ≤ s.iMaxBits) : s.Extends (fixed n v) (s.putBits n v) :=
  putBits_extends_congr h hn0 hn rfl (.inr hv) hmax

/-- `bit_scan_reverse_soft` finds the leading one of a positive number. -/
theorem bitScanReverseSoft_eq {fuel : ℕ} (hn : 0 < n) (hf : n.log2 + 2 ≤ fuel) :
    bitScanReverseSoft fuel n = some n.log2 := by
  have key : ∀ k n : ℕ, n < 2 ^ k → ∀ (i : ℤ) fuel, k < fuel →
      MeasuredLoops.loop bitScanReverseRound fuel ((n : ℤ), i) =
        some (if n = 0 then i else i + (n.log2 + 1 : ℕ)) := by
    intro k
    induction k with
    | zero =>
      intro n hn i fuel hf
      obtain rfl : n = 0 := by simpa using hn
      obtain ⟨fuel, rfl⟩ : ∃ f, fuel = f + 1 := ⟨fuel - 1, by omega⟩
      rfl
    | succ k ih =>
      intro n hn i fuel hf
      obtain ⟨fuel, rfl⟩ : ∃ f, fuel = f + 1 := ⟨fuel - 1, by omega⟩
      by_cases h0 : n = 0
      · subst h0
        rfl
      · have hstep : bitScanReverseRound ((n : ℤ), i) = .inl (((n / 2 : ℕ) : ℤ), i + 1) := by
          simp [bitScanReverseRound, h0]
        simp only [MeasuredLoops.loop, hstep]
        rw [ih (n / 2) (by rw [pow_succ] at hn; omega) _ _ (by omega), if_neg h0]
        congr 1
        by_cases h2 : n / 2 = 0
        · obtain rfl : n = 1 := by omega
          have : Nat.log2 1 = 0 := rfl
          simp [this]
        · have hlog : n.log2 = (n / 2).log2 + 1 := by
            rw [Nat.log2_def, if_pos (by omega)]
          rw [if_neg h2, hlog]
          push_cast
          ring
  have h := key (n.log2 + 1) n Nat.lt_log2_self (-1) fuel (by omega)
  rw [if_neg (by omega)] at h
  unfold bitScanReverseSoft
  rw [h]
  push_cast
  congr 1
  ring

theorem bitScanReverseSoft_eq_none {x : ℤ} (hx : x < 0) (fuel : ℕ) :
    bitScanReverseSoft fuel x = none := by
  apply MeasuredLoops.loop_eq_none (fun t => t.1 < 0) _ fuel hx
  rintro ⟨y, i⟩ hy
  dsimp only at hy
  refine ⟨(y / 2, i + 1), if_pos (by omega), ?_⟩
  dsimp only
  omega

/-- The code words of the writer. -/
theorem putVclBits_extends (h : s.Tidy) (hv : v + 1 < 2 ^ 31)
    (hmax : s.iBitCount + (golomb v).length ≤ s.iMaxBits) :
    s.Extends (golomb v) (s.putVclBits (1 + 2 * (v + 1).log2) v) := by
  rw [length_golomb] at hmax
  by_cases h0 : v = 0
  · subst h0
    exact putBits_extends h (n := 1) (v := 1) (by omega) (by omega) (by omega) hmax
  · generalize hk : (v + 1).log2 = k at *
    have hk0 : 0 < k := by
      by_contra hc
      have := hk ▸ (Nat.lt_log2_self (n := v + 1))
      rw [show k = 0 by omega] at this
      omega
    have hle : 2 ^ k ≤ v + 1 := hk ▸ Nat.log2_self_le (Nat.succ_ne_zero v)
    have hlt : v + 1 < 2 ^ (k + 1) := hk ▸ Nat.lt_log2_self
    have hk31 : k < 31 := by
      by_contra hc
      have : 2 ^ 31 ≤ 2 ^ k := Nat.pow_le_pow_right (by omega) (by omega)
      omega
    rw [pow_succ] at hlt
    unfold putVclBits
    rw [if_neg (by omega), show (1 + 2 * k - 1) / 2 = k by omega]
    dsimp only
    have hinfo : toUInt32 (toInt32 ((v : ℤ) + 1 - 2 ^ k)) = v + 1 - 2 ^ k := by
      have hcast : (v : ℤ) + 1 - 2 ^ k = ((v + 1 - 2 ^ k : ℕ) : ℤ) := by
        push_cast [Nat.cast_sub hle]
        ring
      have hfits : FitsInt32 ((v + 1 - 2 ^ k : ℕ) : ℤ) := by
        constructor <;> omega
      rw [hcast, toInt32_of_fits hfits]
      exact_mod_cast toUInt32_of_fits (by omega) hfits
    rw [hinfo, golomb_eq, hk, ← fixed_zero, show fixed k 0 ++ true :: fixed k (v + 1 - 2 ^ k) =
      fixed k 0 ++ fixed 1 1 ++ fixed k (v + 1 - 2 ^ k) by simp [fixed]]
    have hzeros := putBits_extends h hk0 (by omega) (Nat.two_pow_pos k) (v := 0) (by omega)
    have hone := putBits_extends hzeros.tidy (n := 1) (v := 1) (by omega) (by omega) (by omega)
      (by rw [hzeros.count, hzeros.max, length_fixed]; omega)
    have hboth := hzeros.append hone
    apply hboth.append
    apply putBits_extends hboth.tidy hk0 (by omega) (by omega)
    rw [hboth.count, hboth.max, List.length_append, length_fixed, length_fixed]
    omega

theorem bitScanReverseSoft_succ (hv : v + 1 < 2 ^ 31) {fuel : ℕ} (hf : 32 ≤ fuel) :
    bitScanReverseSoft fuel (toInt32 ((v : ℤ) + 1)) = some ((v + 1).log2 : ℤ) := by
  have hlog : (v + 1).log2 < 31 := (Nat.log2_lt (Nat.succ_ne_zero v)).mpr hv
  rw [toInt32_of_fits ⟨by omega, by omega⟩]
  exact bitScanReverseSoft_eq (n := v + 1) (Nat.succ_pos v) (by omega)

theorem putUE_extends (h : s.Tidy) (hv : v + 1 < 2 ^ 31) {fuel : ℕ} (hf : 32 ≤ fuel)
    (hmax : s.iBitCount + (golomb v).length ≤ s.iMaxBits) :
    ∃ s', s.putUE fuel v = some s' ∧ s.Extends (golomb v) s' := by
  have hlog : (v + 1).log2 < 31 := (Nat.log2_lt (Nat.succ_ne_zero v)).mpr hv
  have hlen : toUInt32 (1 + 2 * ((v + 1).log2 : ℤ)) = 1 + 2 * (v + 1).log2 := by
    unfold toUInt32
    omega
  refine ⟨s.putVclBits (1 + 2 * (v + 1).log2) v, ?_, putVclBits_extends h hv hmax⟩
  simp only [putUE, bitScanReverseSoft_succ hv hf, Option.bind_eq_bind, Option.bind_some, hlen]
  rfl

theorem putUE_eq_none (hlo : 2 ^ 31 ≤ v + 1) (hhi : v + 1 < 2 ^ 32) (fuel : ℕ) :
    s.putUE fuel v = none := by
  have hneg : toInt32 ((v : ℤ) + 1) < 0 := by
    unfold toInt32
    rw [Int.bmod_def]
    omega
  simp only [putUE, bitScanReverseSoft_eq_none hneg]
  rfl

/-! ## Alignment -/

theorem alignWithBits_of_aligned {iBit : ℕ} (hz : s.iBitCount % 8 = 0) :
    s.alignWithBits iBit = s :=
  MeasuredLoops.run_of_inr _ (if_neg (not_not.mpr hz))

theorem alignWithBits_extends (h : s.Tidy) (hmax : s.iBitCount + (8 - s.iBitCount % 8) % 8 ≤ s.iMaxBits) :
    s.Extends (List.replicate ((8 - s.iBitCount % 8) % 8) false) (s.alignWithBits 0) := by
  generalize hk : (8 - s.iBitCount % 8) % 8 = k at *
  induction k generalizing s with
  | zero =>
    rw [alignWithBits_of_aligned (by omega)]
    exact Extends.nil h
  | succ k ih =>
    have hput := putBits_extends h (n := 1) (v := 0) (by omega) (by omega) (by omega) (by omega)
    have halign : s.alignWithBits 0 = (s.putBits 1 0).alignWithBits 0 :=
      MeasuredLoops.run_of_inl _ (if_pos (by omega))
    have hc : (s.putBits 1 0).iBitCount = s.iBitCount + 1 := hput.count
    have hrest := ih hput.tidy (by omega) (by rw [hput.max, hc]; omega)
    rw [halign]
    simpa [fixed, List.replicate_succ] using hput.append hrest

end BitStreamLite

end VcuCodec
