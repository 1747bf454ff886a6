import VcuCodec.BitWrites
import VcuCodec.Cabac
import VcuCodec.IntervalCoding
import Mathlib.Logic.Relation

/-!
# What the CABAC encoder writes

The registers of the encoder against those of an interval coder that counts outstanding
bits without a bound, and its bits against the arithmetic decoding engine of H.264 9.3.1.2
and H.265 9.3.4.3.
-/

namespace VcuCodec

open BitStrings IntervalCoding

/-! ## Outstanding bits -/

theorem fixed_eq_replicate {v n : ℕ} {b : Bool} (h : ∀ i < n, v.testBit i = b) : fixed n v = List.replicate n b := by
  induction n with
  | zero => rfl
  | succ n ih =>
    rw [fixed, h n (Nat.lt_succ_self n), ih fun i hi => h i (Nat.lt_succ_of_lt hi)]
    rfl

/-- A word of the same bits. -/
def sameBits (b : Bool) : ℕ := if b then 2 ^ 32 - 1 else 0

theorem testBit_sameBits (b : Bool) {i : ℕ} (hi : i < 32) : (sameBits b).testBit i = b := by
  cases b with
  | false => exact Nat.zero_testBit i
  | true => exact (Nat.testBit_two_pow_sub_one 32 i).trans (decide_eq_true hi)

theorem sameBits_lt (b : Bool) : sameBits b < 2 ^ 32 := by
  cases b <;> decide

namespace BitStreamLite

variable {s : BitStreamLite} {n : ℕ}

theorem putBits_sameBits (h : s.Tidy) (b : Bool) (hn0 : 0 < n) (hn : n ≤ 32) (hmax : s.iBitCount + n ≤ s.iMaxBits) :
    s.Extends (List.replicate n b) (s.putBits n (sameBits b >>> (32 - n))) := by
  have hlt : sameBits b >>> (32 - n) < 2 ^ n := by
    rw [Nat.shiftRight_eq_div_pow]
    apply Nat.div_lt_of_lt_mul
    rw [← pow_add, Nat.sub_add_cancel hn]
    exact sameBits_lt b
  have hbits : fixed n (sameBits b >>> (32 - n)) = List.replicate n b := by
    apply fixed_eq_replicate
    intro i hi
    rw [Nat.testBit_shiftRight]
    exact testBit_sameBits b (by omega)
  rw [← hbits]
  exact putBits_extends h hn0 hn hlt hmax

theorem putBit_extends (h : s.Tidy) (b : Bool) (hmax : s.iBitCount + 1 ≤ s.iMaxBits) :
    s.Extends [b] (s.putBit b.toNat) := by
  have hbits : fixed 1 b.toNat = [b] := by
    cases b <;> rfl
  rw [← hbits]
  exact putBits_extends h (by omega) (by omega) (Bool.toNat_lt b) hmax

end BitStreamLite

namespace CabacCtx

variable {s₀ s : BitStreamLite} {c : CabacCtx} {a : Coder} {b : Bool} {n fuel : ℕ}

/-- The loop of `PutBit` leaves at most 32 bits, and a bit at least. -/
theorem outRound_run (b : Bool) (h : s.Tidy) {n : ℕ} (hn : 0 < n) (hmax : s.iBitCount + n ≤ s.iMaxBits) :
    ∃ (s' : BitStreamLite) (r : ℕ), MeasuredLoops.run (outRound (sameBits b)) (·.2.toNat) (outRound_lt (sameBits b)) (s, (n : ℤ)) = (s', (r : ℤ)) ∧
      0 < r ∧ r ≤ 32 ∧ r ≤ n ∧ s.Extends (List.replicate (n - r) b) s' := by
  induction n using Nat.strong_induction_on generalizing s with
  | h n ih =>
    by_cases hlong : 32 < n
    · have hbody : outRound (sameBits b) (s, (n : ℤ)) = .inl (s.putBits 32 (sameBits b), ((n - 32 : ℕ) : ℤ)) := by
        unfold outRound
        dsimp only
        rw [if_pos (by omega)]
        congr 2
        omega
      have hput := BitStreamLite.putBits_sameBits h b (by omega : 0 < 32) le_rfl (by omega)
      obtain ⟨s', r, hrun, hr0, hr, hrn, hext⟩ := ih (n - 32) (by omega) hput.tidy (by omega) (by
        rw [hput.count, hput.max, List.length_replicate]
        omega)
      refine ⟨s', r, (MeasuredLoops.run_of_inl _ hbody).trans hrun, hr0, hr, by omega, ?_⟩
      have hlength : n - r = 32 + (n - 32 - r) := by omega
      rw [hlength, ← List.replicate_append_replicate]
      exact hput.append hext
    · have hbody : outRound (sameBits b) (s, (n : ℤ)) = .inr (s, (n : ℤ)) := by
        unfold outRound
        exact if_neg (by omega)
      refine ⟨s, n, MeasuredLoops.run_of_inr _ hbody, hn, by omega, le_rfl, ?_⟩
      rw [Nat.sub_self]
      exact BitStreamLite.Extends.nil h

/-! ## Registers -/

/-- The encoder has the registers of a coder, and has written its bits but the first since `s₀`. -/
structure Mirrors (s₀ : BitStreamLite) (t : BitStreamLite × CabacCtx) (a : Coder) : Prop where
  low : t.2.uLow = a.low
  range : t.2.uRange = a.range
  out : t.2.uOut = a.out
  first : t.2.uFirst = if a.bits = [] then 1 else 0
  bits : s₀.Extends a.bits.tail t.1

theorem toUInt32_outstanding (b : Bool) : toUInt32 ((1 - (b.toNat : ℤ)) * -1) = sameBits !b := by
  cases b <;> decide

theorem putOutstanding_extends (h : s.Tidy) (b : Bool) (hmax : s.iMaxBits < 2 ^ 31)
    (hroom : s.iBitCount + c.uOut ≤ s.iMaxBits) : ∃ s', c.putOutstanding s b.toNat = some (s', { c with uOut := 0 }) ∧
      s.Extends (List.replicate c.uOut !b) s' := by
  unfold putOutstanding
  by_cases hzero : c.uOut = 0
  · rw [if_pos hzero, hzero]
    refine ⟨s, ?_, BitStreamLite.Extends.nil h⟩
    rw [← hzero]
  · have hint : toInt32 c.uOut = (c.uOut : ℤ) := toInt32_of_fits ⟨by omega, by omega⟩
    obtain ⟨s', r, hrun, hr0, hr, hrn, hext⟩ := outRound_run (!b) h (Nat.pos_of_ne_zero hzero) hroom
    have hcount := hext.count
    have hsmax := hext.max
    rw [List.length_replicate] at hcount
    have hput := BitStreamLite.putBits_sameBits hext.tidy (!b) hr0 hr (by omega)
    rw [if_neg hzero, toUInt32_outstanding, hint]
    dsimp only
    rw [hrun]
    dsimp only
    rw [if_pos (by omega)]
    refine ⟨_, rfl, ?_⟩
    have hshift : (32 - (r : ℤ)).toNat = 32 - r := by omega
    have hall := hext.append hput
    rw [List.replicate_append_replicate, Nat.sub_add_cancel hrn] at hall
    rw [hshift, Int.toNat_natCast]
    exact hall

theorem tail_send (a : Coder) (b : Bool) : (a.send b).bits.tail = (a.bits ++ [b]).tail ++ List.replicate a.out !b := by
  show (a.bits ++ b :: List.replicate a.out !b).tail = _
  have hne : a.bits ++ [b] ≠ [] := List.append_ne_nil_of_right_ne_nil _ (List.cons_ne_nil _ _)
  rw [List.append_cons, List.tail_append_of_ne_nil hne]

/-- `PutBit` writes a bit but the first one, and those that are outstanding. -/
theorem Mirrors.putBit (h : Mirrors s₀ (s, c) a) (b : Bool) (hmax : s₀.iMaxBits < 2 ^ 31)
    (hroom : s₀.iBitCount + a.place ≤ s₀.iMaxBits) : ∃ s', c.putBit s b.toNat =
      some (s', { c with uFirst := 0, uOut := 0 }) ∧ s₀.Extends (a.send b).bits.tail s' := by
  have hout : c.uOut = a.out := h.out
  have hfirst : c.uFirst = if a.bits = [] then 1 else 0 := h.first
  have hplace : a.place = a.bits.length + a.out := rfl
  have hcount : s.iBitCount = s₀.iBitCount + (a.bits.length - 1) := by
    rw [h.bits.count, List.length_tail]
  have hsmax : s.iMaxBits = s₀.iMaxBits := h.bits.max
  unfold CabacCtx.putBit
  rw [tail_send]
  by_cases hnil : a.bits = []
  · rw [if_pos hnil] at hfirst
    obtain ⟨s', hput, hext⟩ := putOutstanding_extends (s := s) (c := { c with uFirst := 0 }) h.bits.tidy b (by omega) (by
      show s.iBitCount + c.uOut ≤ s.iMaxBits
      rw [hnil, List.length_nil] at hcount hplace
      omega)
    rw [if_pos (by rw [hfirst]; exact Nat.one_ne_zero)]
    refine ⟨s', hput, ?_⟩
    have hall := h.bits.append hext
    rw [hnil] at hall ⊢
    exact hout ▸ hall
  · rw [if_neg hnil] at hfirst
    have hpos := List.length_pos_iff.mpr hnil
    have hbit := BitStreamLite.putBit_extends (s := s) h.bits.tidy b (by omega)
    have hcount₁ := hbit.count
    have hsmax₁ := hbit.max
    obtain ⟨s', hput, hext⟩ := putOutstanding_extends (c := c) hbit.tidy b (by
      rw [hsmax₁]
      omega) (by
      rw [hcount₁, List.length_singleton]
      omega)
    rw [if_neg (not_not.mpr hfirst)]
    refine ⟨s', ?_, ?_⟩
    · rw [hput, ← hfirst]
    · rw [List.tail_append_of_ne_nil hnil, ← hout]
      exact (h.bits.append hbit).append hext

theorem lt_of_fits (h : a.Fits 8) : a.low < 1024 := by
  have hhigh : a.low + a.range ≤ 1024 := h.high
  have hpos := h.pos
  omega

theorem and_mask (n : ℕ) : n &&& 0x1ff = n % 2 ^ 9 := Nat.and_two_pow_sub_one_eq_mod n 9

theorem Mirrors.renormRound (h : Mirrors s₀ (s, c) a) (hfits : a.Fits 8) (hshort : a.range < 2 ^ 8)
    (hmax : s₀.iMaxBits < 2 ^ 31) (hroom : s₀.iBitCount + a.place ≤ s₀.iMaxBits) :
    ∃ t, CabacCtx.renormRound (s, c) = .inl t ∧ Mirrors s₀ t (a.round 8) := by
  have hlow : c.uLow = a.low := h.low
  have hrange : c.uRange = a.range := h.range
  have hout : c.uOut = a.out := h.out
  have hlt := lt_of_fits hfits
  have hplace : a.place = a.bits.length + a.out := rfl
  have hshort' : a.range < 256 := hshort
  have hdouble : c.uRange <<< 1 % 2 ^ 32 = 2 * a.range := by
    rw [hrange, Nat.shiftLeft_eq]
    omega
  unfold CabacCtx.renormRound
  dsimp only
  rw [if_pos (by omega)]
  by_cases hsend : a.low < 2 ^ 8 ∨ 2 ^ (8 + 1) ≤ a.low
  · have hbit : c.uLow >>> 9 % 2 ^ 8 = (decide (2 ^ (8 + 1) ≤ a.low)).toNat := by
      rw [hlow, Nat.shiftRight_eq_div_pow]
      by_cases hone : 2 ^ (8 + 1) ≤ a.low
      · rw [decide_eq_true hone, Bool.toNat_true]
        omega
      · rw [decide_eq_false hone, Bool.toNat_false]
        omega
    obtain ⟨s', hput, hext⟩ := h.putBit (2 ^ (8 + 1) ≤ a.low) hmax hroom
    rw [if_pos (by rw [hlow]; exact hsend.symm), hbit, hput]
    refine ⟨_, rfl, ?_⟩
    rw [Coder.round_send hsend]
    refine ⟨?_, hdouble, rfl, ?_, hext⟩
    · show (c.uLow &&& 0x1ff) <<< 1 % 2 ^ 32 = 2 * (a.low % 2 ^ (8 + 1))
      rw [and_mask, hlow, Nat.shiftLeft_eq]
      omega
    · exact (if_neg (List.append_ne_nil_of_right_ne_nil _ (List.cons_ne_nil _ _))).symm
  · rw [if_neg (by rw [hlow]; exact fun hor => hsend hor.symm)]
    refine ⟨_, rfl, ?_⟩
    rw [Coder.round_leave hsend]
    refine ⟨?_, hdouble, ?_, h.first, h.bits⟩
    · show (c.uLow - 0x100) <<< 1 % 2 ^ 32 = 2 * (a.low - 2 ^ 8)
      rw [hlow, Nat.shiftLeft_eq]
      omega
    · show (c.uOut + 1) % 2 ^ 32 = a.out + 1
      omega

theorem loop_renormRound {n fuel : ℕ} (h : Mirrors s₀ (s, c) a) (hfits : a.Fits 8) (hlong : 2 ^ 8 ≤ a.range * 2 ^ n)
    (hfuel : n < fuel) (hmax : s₀.iMaxBits < 2 ^ 31)
    (hroom : s₀.iBitCount + (Coder.renorm 8 n a).place ≤ s₀.iMaxBits) :
    ∃ t, MeasuredLoops.loop CabacCtx.renormRound fuel (s, c) = some (some t) ∧ Mirrors s₀ t (Coder.renorm 8 n a) := by
  have hrange : c.uRange = a.range := h.range
  induction n generalizing s c a fuel with
  | zero =>
    obtain ⟨fuel, rfl⟩ : ∃ fuel', fuel = fuel' + 1 := ⟨fuel - 1, by omega⟩
    have hlong' : 256 ≤ a.range := by simpa using hlong
    refine ⟨(s, c), ?_, h⟩
    unfold MeasuredLoops.loop CabacCtx.renormRound
    dsimp only
    rw [if_neg (by omega)]
  | succ n ih =>
    obtain ⟨fuel, rfl⟩ : ∃ fuel', fuel = fuel' + 1 := ⟨fuel - 1, by omega⟩
    unfold Coder.renorm at hroom ⊢
    unfold MeasuredLoops.loop
    by_cases hshort : a.range < 2 ^ 8
    · rw [if_pos hshort] at hroom ⊢
      have hplace : (a.round 8).place = a.place + 1 := Coder.place_round
      have hmono := Coder.place_renorm_le (k := 8) n (a.round 8)
      obtain ⟨⟨s', c'⟩, hround, hmirrors⟩ := h.renormRound hfits hshort hmax (by omega)
      rw [hround]
      refine ih hmirrors (hfits.round hshort) ?_ (by omega) hroom hmirrors.range
      rw [Coder.range_round]
      calc 2 ^ 8 ≤ a.range * 2 ^ (n + 1) := hlong
        _ = 2 * a.range * 2 ^ n := by ring
    · have hstop : CabacCtx.renormRound (s, c) = .inr (some (s, c)) := by
        unfold CabacCtx.renormRound
        exact if_neg (by rw [hrange]; exact hshort)
      rw [if_neg hshort, hstop]
      exact ⟨(s, c), rfl, h⟩

theorem Mirrors.renormE (h : Mirrors s₀ (s, c) a) (hfits : a.Fits 8) (hfuel : 8 < fuel) (hmax : s₀.iMaxBits < 2 ^ 31)
    (hroom : s₀.iBitCount + (Coder.renorm 8 8 a).place ≤ s₀.iMaxBits) :
    ∃ t, CabacCtx.renormE fuel s c = some t ∧ Mirrors s₀ t (Coder.renorm 8 8 a) := by
  have hpos := hfits.pos
  obtain ⟨t, hloop, hmirrors⟩ := loop_renormRound (n := 8) h hfits (by omega) hfuel hmax hroom
  refine ⟨t, ?_, hmirrors⟩
  unfold CabacCtx.renormE
  rw [hloop]
  rfl

end CabacCtx

/-! ## Bins -/

/-- The part of the interval for a bin, and the contexts behind it. -/
def splitBin : CabacBin → (ℕ → ContextState) × Coder → (ℕ → ContextState) × Coder
  | .context ctxIdx binVal, (states, a) =>
    let width := rangeLPS (states ctxIdx).pState (a.range >>> 6 &&& 0x03)
    if (states ctxIdx).valMPS ≠ binVal then
      (Function.update states ctxIdx (states ctxIdx).toLPS, a.upper width)
    else (Function.update states ctxIdx (states ctxIdx).toMPS, a.lower width)
  | .terminate binVal, (states, a) => (states, if binVal then a.upper 2 else a.lower 2)

def codeBin (t : (ℕ → ContextState) × Coder) (bin : CabacBin) : (ℕ → ContextState) × Coder :=
  ((splitBin bin t).1, Coder.renorm 8 8 (splitBin bin t).2)

def codeBins (bins : List CabacBin) (t : (ℕ → ContextState) × Coder) : (ℕ → ContextState) × Coder := bins.foldl codeBin t

/-- The interval between two bins. -/
structure Normal (a : Coder) : Prop where
  fits : a.Fits 8
  long : 256 ≤ a.range
  short : a.range ≤ 510
  bounded : a.Bounded 8

def initCoder : Coder := ⟨[], 0, 0, 510⟩

theorem initCoder_normal : Normal initCoder := by
  refine ⟨⟨by decide, by decide⟩, by decide, by decide, ?_⟩
  show initCoder.number 8 + initCoder.range ≤ 2 ^ (initCoder.place + 8 + 1)
  decide

theorem rangeLPS_bounds : ∀ (pState : Fin 64) (idx : Fin 4), 1 < rangeLPS pState idx ∧ rangeLPS pState idx ≤ 240 := by
  decide

variable {a : Coder} {states : ℕ → ContextState} {bin : CabacBin} {bins bins' : List CabacBin}

theorem width_bounds (pState : Fin 64) (range : ℕ) :
    1 < rangeLPS pState (range >>> 6 &&& 0x03) ∧ rangeLPS pState (range >>> 6 &&& 0x03) ≤ 240 := by
  have hlt : range >>> 6 &&& 0x03 < 4 := Nat.lt_succ_of_le Nat.and_le_right
  exact rangeLPS_bounds pState ⟨_, hlt⟩

theorem splitBin_cases (bin : CabacBin) (states : ℕ → ContextState) (a : Coder) : ∃ width, 1 < width ∧ width ≤ 240 ∧
    ((splitBin bin (states, a)).2 = a.lower width ∨ (splitBin bin (states, a)).2 = a.upper width) := by
  cases bin with
  | context ctxIdx binVal =>
    obtain ⟨hlo, hhi⟩ := width_bounds (states ctxIdx).pState a.range
    refine ⟨_, hlo, hhi, ?_⟩
    unfold splitBin
    dsimp only
    split
    · exact Or.inr rfl
    · exact Or.inl rfl
  | terminate binVal =>
    refine ⟨2, by decide, by decide, ?_⟩
    cases binVal with
    | true => exact Or.inr rfl
    | false => exact Or.inl rfl

theorem splitBin_fits (h : Normal a) (bin : CabacBin) (states : ℕ → ContextState) : (splitBin bin (states, a)).2.Fits 8 := by
  have hlong := h.long
  obtain ⟨width, hlo, hhi, heq | heq⟩ := splitBin_cases bin states a
  · exact heq ▸ h.fits.lower (by omega)
  · exact heq ▸ h.fits.upper (by omega) (by omega)

theorem Normal.codeBin (h : Normal a) : Normal (codeBin (states, a) bin).2 := by
  have hlong := h.long
  have hshort := h.short
  have hfits := splitBin_fits h bin states
  have hpos := hfits.pos
  have hbounds : (splitBin bin (states, a)).2.range + 2 ≤ 2 ^ (8 + 1) ∧ (splitBin bin (states, a)).2.Bounded 8 := by
    obtain ⟨width, hlo, hhi, heq | heq⟩ := splitBin_cases bin states a
    · refine heq ▸ ⟨?_, h.bounded.lower⟩
      show a.range - width + 2 ≤ 512
      omega
    · refine heq ▸ ⟨?_, h.bounded.upper (by omega)⟩
      show width + 2 ≤ 512
      omega
  have hle := Coder.renorm_range_le (n := 8) hbounds.1
  refine ⟨hfits.renorm 8, ?_, ?_, hbounds.2.renorm hfits 8⟩
  · exact Coder.renorm_range (k := 8) (n := 8) (by omega)
  · have hle' : (Coder.renorm 8 8 (splitBin bin (states, a)).2).range + 2 ≤ 512 := hle
    exact Nat.le_of_add_le_add_right hle'

theorem Normal.codeBins (h : Normal a) : Normal (codeBins bins (states, a)).2 := by
  induction bins generalizing states a with
  | nil => exact h
  | cons bin bins ih => exact ih h.codeBin

theorem codeBins_append (t : (ℕ → ContextState) × Coder) :
    codeBins (bins ++ bins') t = codeBins bins' (codeBins bins t) := List.foldl_append

theorem place_codeBin_le (bin : CabacBin) (states : ℕ → ContextState) (a : Coder) :
    a.place ≤ (codeBin (states, a) bin).2.place := by
  have hsame : (splitBin bin (states, a)).2.place = a.place := by
    obtain ⟨width, -, -, heq | heq⟩ := splitBin_cases bin states a
    · rw [heq]
      rfl
    · rw [heq]
      rfl
  exact hsame ▸ Coder.place_renorm_le 8 _

theorem place_codeBins_le (bins : List CabacBin) (states : ℕ → ContextState) (a : Coder) :
    a.place ≤ (codeBins bins (states, a)).2.place := by
  induction bins generalizing states a with
  | nil => exact le_rfl
  | cons bin bins ih => exact (place_codeBin_le bin states a).trans (ih _ _)

/-! ## The calls for a sequence of bins -/

namespace CabacCtx

variable {s₀ s : BitStreamLite} {c : CabacCtx} {a : Coder} {fuel : ℕ} {states : ℕ → ContextState}

theorem toUInt32_sub {range width : ℕ} (hle : width ≤ range) (hlt : range < 2 ^ 31) :
    toUInt32 ((range : ℤ) - width) = range - width := by
  unfold toUInt32
  omega

theorem Mirrors.lower {width : ℕ} (h : Mirrors s₀ (s, c) a) (hlo : width ≤ a.range) (hhi : a.range ≤ 510) :
    Mirrors s₀ (s, { c with uRange := toUInt32 (c.uRange - width) }) (a.lower width) := by
  have hrange : c.uRange = a.range := h.range
  refine ⟨h.low, ?_, h.out, h.first, h.bits⟩
  show toUInt32 (c.uRange - width) = a.range - width
  rw [hrange]
  exact toUInt32_sub hlo (by omega)

theorem Mirrors.upper {width : ℕ} (h : Mirrors s₀ (s, c) a) (hnormal : Normal a) (hle : width ≤ a.range) :
    Mirrors s₀ (s, { c with
      uLow := (c.uLow + toUInt32 (c.uRange - width)) % 2 ^ 32
      uRange := width }) (a.upper width) := by
  have hrange : c.uRange = a.range := h.range
  have hlow : c.uLow = a.low := h.low
  have hlt := lt_of_fits hnormal.fits
  have hhi := hnormal.short
  refine ⟨?_, rfl, h.out, h.first, h.bits⟩
  show (c.uLow + toUInt32 (c.uRange - width)) % 2 ^ 32 = a.low + (a.range - width)
  rw [hrange, hlow, toUInt32_sub hle (by omega)]
  omega

theorem Mirrors.writeBinStep (h : Mirrors s₀ (s, c) a) (hnormal : Normal a) (states : ℕ → ContextState) (ctxIdx : ℕ)
    (binVal : Bool) :
    Mirrors s₀ (s, (c.writeBinStep (states ctxIdx) binVal).1) (splitBin (.context ctxIdx binVal) (states, a)).2 ∧
      (splitBin (.context ctxIdx binVal) (states, a)).1 =
        Function.update states ctxIdx (c.writeBinStep (states ctxIdx) binVal).2 := by
  have hrange : c.uRange = a.range := h.range
  have hlong := hnormal.long
  obtain ⟨hlo, hhi⟩ := width_bounds (states ctxIdx).pState a.range
  unfold CabacCtx.writeBinStep splitBin
  dsimp only
  rw [← hrange] at hlo hhi ⊢
  split
  · exact ⟨h.upper hnormal (by omega), rfl⟩
  · exact ⟨h.lower (by omega) hnormal.short, rfl⟩

theorem Mirrors.terminateStep (h : Mirrors s₀ (s, c) a) (hnormal : Normal a) (states : ℕ → ContextState)
    (binVal : Bool) :
    Mirrors s₀ (s, c.terminateStep binVal) (splitBin (.terminate binVal) (states, a)).2 := by
  have hle : 2 ≤ a.range := (by decide : 2 ≤ 256).trans hnormal.long
  cases binVal with
  | true => exact h.upper hnormal hle
  | false => exact h.lower hle hnormal.short

theorem Mirrors.writeBins {bins : List CabacBin} (h : Mirrors s₀ (s, c) a) (hnormal : Normal a) (hfuel : 8 < fuel)
    (hmax : s₀.iMaxBits < 2 ^ 31) (hroom : s₀.iBitCount + (codeBins bins (states, a)).2.place ≤ s₀.iMaxBits) :
    ∃ s' c', VcuCodec.writeBins fuel bins s c states = some (s', c', (codeBins bins (states, a)).1) ∧
      Mirrors s₀ (s', c') (codeBins bins (states, a)).2 := by
  induction bins generalizing s c a states with
  | nil => exact ⟨s, c, rfl, h⟩
  | cons bin bins ih =>
    have hfits := splitBin_fits hnormal bin states
    have hplace := place_codeBins_le bins (codeBin (states, a) bin).1 (codeBin (states, a) bin).2
    have hroom' : s₀.iBitCount + (codeBin (states, a) bin).2.place ≤ s₀.iMaxBits :=
      (Nat.add_le_add_left hplace _).trans hroom
    cases bin with
    | context ctxIdx binVal =>
      obtain ⟨hstep, hstates⟩ := h.writeBinStep hnormal states ctxIdx binVal
      obtain ⟨⟨s', c'⟩, hrenorm, hmirrors⟩ := hstep.renormE hfits hfuel hmax hroom'
      have hwrite : c.writeBin fuel s (states ctxIdx) binVal =
          some (s', c', (c.writeBinStep (states ctxIdx) binVal).2) := by
        unfold CabacCtx.writeBin
        dsimp only
        rw [hrenorm]
        rfl
      obtain ⟨s'', c'', hwrites, hall⟩ := ih hmirrors hnormal.codeBin hroom
      refine ⟨s'', c'', ?_, hall⟩
      unfold VcuCodec.writeBins
      rw [hwrite, Option.bind_some]
      dsimp only
      rw [← hstates]
      exact hwrites
    | terminate binVal =>
      have hstep := h.terminateStep hnormal states binVal
      obtain ⟨⟨s', c'⟩, hrenorm, hmirrors⟩ := hstep.renormE hfits hfuel hmax hroom'
      have hwrite : c.terminate fuel s binVal = some (s', c') := hrenorm
      obtain ⟨s'', c'', hwrites, hall⟩ := ih hmirrors hnormal.codeBin hroom
      refine ⟨s'', c'', ?_, hall⟩
      unfold VcuCodec.writeBins
      rw [hwrite, Option.bind_some]
      exact hwrites

theorem Mirrors.finish (h : Mirrors s₀ (s, c) a) (hfits : a.Fits 8) (hmax : s₀.iMaxBits < 2 ^ 31)
    (hroom : (s₀.iBitCount + (a.flush 8).tail.length + 7) / 8 * 8 ≤ s₀.iMaxBits) :
    ∃ s', c.finish s = some s' ∧ s₀.Extends ((a.flush 8).tail ++
      List.replicate ((8 - (s₀.iBitCount + (a.flush 8).tail.length) % 8) % 8) false) s' := by
  have hlow : c.uLow = a.low := h.low
  have hlt := lt_of_fits hfits
  have hbit : c.uLow >>> 9 &&& 1 = (decide (2 ^ (8 + 1) ≤ a.low)).toNat := by
    rw [hlow, Nat.shiftRight_eq_div_pow, Nat.and_one_is_mod]
    by_cases hone : 2 ^ (8 + 1) ≤ a.low
    · rw [decide_eq_true hone, Bool.toNat_true]
      omega
    · rw [decide_eq_false hone, Bool.toNat_false]
      omega
  have hlast : c.uLow >>> 7 &&& 0x03 = a.low / 2 ^ (8 - 1) % 4 := by
    rw [hlow, Nat.shiftRight_eq_div_pow]
    exact Nat.and_two_pow_sub_one_eq_mod _ 2
  have hlength : (a.flush 8).tail.length = a.place + 2 := by
    unfold Coder.flush
    rw [List.length_tail, List.length_append, length_fixed, Coder.length_send]
    omega
  have hsend : (a.send (2 ^ (8 + 1) ≤ a.low)).bits ≠ [] := by
    apply List.ne_nil_of_length_pos
    rw [Coder.length_send]
    exact Nat.succ_pos _
  have htail : (a.flush 8).tail =
      (a.send (2 ^ (8 + 1) ≤ a.low)).bits.tail ++ fixed 2 (a.low / 2 ^ (8 - 1) % 4 ||| 1) :=
    List.tail_append_of_ne_nil hsend
  have hsendLength : (a.send (2 ^ (8 + 1) ≤ a.low)).bits.tail.length = a.place := by
    rw [List.length_tail, Coder.length_send, Nat.add_sub_cancel]
  rw [hlength] at hroom
  obtain ⟨s₁, hput, hext⟩ := h.putBit (2 ^ (8 + 1) ≤ a.low) hmax (by omega)
  have hcount := hext.count
  have hsmax := hext.max
  rw [hsendLength] at hcount
  have hsmall := (or_one_bounds _ (Nat.mod_lt (a.low / 2 ^ (8 - 1)) (by omega : 0 < 4))).2.2
  have htwo := BitStreamLite.putBits_extends hext.tidy (by omega) (by omega) hsmall (by omega)
  have hcount₂ := htwo.count
  have hsmax₂ := htwo.max
  rw [length_fixed] at hcount₂
  have halign := BitStreamLite.alignWithBits_extends htwo.tidy (by omega)
  have hcount₃ : ((s₁.putBits 2 (a.low / 2 ^ (8 - 1) % 4 ||| 1)).iBitCount) = s₀.iBitCount + (a.flush 8).tail.length := by
    rw [hcount₂, hcount, hlength, Nat.add_assoc]
  rw [hcount₃] at halign
  have hall := (hext.append htwo).append halign
  rw [← htail] at hall
  refine ⟨_, ?_, hall⟩
  unfold CabacCtx.finish
  rw [hbit, hput, Option.map_some]
  dsimp only
  rw [hlast]

end CabacCtx

end VcuCodec
