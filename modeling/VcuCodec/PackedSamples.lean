import Mathlib.Tactic.Linarith
import Mathlib.Tactic.Ring
import VcuCodec.RasterStores

/-!
# Packed samples of ten bits

The rows of `lib_app/convert.cpp` in the XV formats, with three samples in a word of 32 bits, and
the samples of its tiles, with sixteen samples in ten words of 16 bits.
-/

namespace VcuCodec

open RasterStores

/-! ## Words of three samples -/

/-- The sample of ten bits at place `j`. -/
def getTen (j : ℕ) (word : ℕ) : ℕ := word >>> (10 * j) &&& 0x3FF

/-- The upper eight bits of the sample at place `j`. -/
def getEight (j : ℕ) (word : ℕ) : ℕ := word >>> (10 * j + 2) &&& 0xFF

variable (put get : ℕ → ℕ → ℕ) (width : ℕ)

/-- The samples of a row of words. -/
def unpackRow (pSrc32 : ℕ → ℕ) : List ℕ :=
  let w := width / 3
  (List.range w).flatMap (fun k => [get 0 (pSrc32 k), get 1 (pSrc32 k), get 2 (pSrc32 k)]) ++
    if 1 < width % 3 then [get 0 (pSrc32 w), get 1 (pSrc32 w)]
    else if 0 < width % 3 then [get 0 (pSrc32 w)]
    else []

/-- `Read24BitsOn32Bits` and `Read30BitsOn32Bits`; a sample goes to the first or to the second
of the two rows. -/
def readOn32Bits (pIn : ℕ) (first : Bool) : List (Bool × ℕ) :=
  [(first, get 0 pIn), (!first, get 1 pIn), (first, get 2 pIn)]

/-- The samples of a row of words, and whether they are samples of U. -/
def unpackChromaRow (pSrc32 : ℕ → ℕ) : List (Bool × ℕ) :=
  let w := width / 6
  (List.range w).flatMap (fun k =>
      readOn32Bits get (pSrc32 (2 * k)) true ++ readOn32Bits get (pSrc32 (2 * k + 1)) false) ++
    if 2 < width % 6 then
      readOn32Bits get (pSrc32 (2 * w)) true ++ [(false, get 0 (pSrc32 (2 * w + 1)))]
    else if 0 < width % 6 then [(true, get 0 (pSrc32 (2 * w))), (false, get 1 (pSrc32 (2 * w)))]
    else []

/-! ## Samples in tiles -/

def untile4x4Block10b (pTiled4x4 : ℕ → ℕ) (pUntiled iUntiledPitch : ℕ) (convert : ℕ → ℕ) :
    List (ℕ × ℕ) :=
  let p1 := pUntiled + iUntiledPitch
  let p2 := p1 + iUntiledPitch
  let p3 := p2 + iUntiledPitch
  [(pUntiled, convert (pTiled4x4 0 &&& 0x3FF)),
    (pUntiled + 1, convert ((pTiled4x4 0 >>> 10 ||| pTiled4x4 1 <<< 6) &&& 0x3FF)),
    (pUntiled + 2, convert (pTiled4x4 1 >>> 4 &&& 0x3FF)),
    (pUntiled + 3, convert ((pTiled4x4 1 >>> 14 ||| pTiled4x4 2 <<< 2) &&& 0x3FF)),
    (p1, convert ((pTiled4x4 2 >>> 8 ||| pTiled4x4 3 <<< 8) &&& 0x3FF)),
    (p1 + 1, convert (pTiled4x4 3 >>> 2 &&& 0x3FF)),
    (p1 + 2, convert ((pTiled4x4 3 >>> 12 ||| pTiled4x4 4 <<< 4) &&& 0x3FF)),
    (p1 + 3, convert (pTiled4x4 4 >>> 6)),
    (p2, convert (pTiled4x4 5 &&& 0x3FF)),
    (p2 + 1, convert ((pTiled4x4 5 >>> 10 ||| pTiled4x4 6 <<< 6) &&& 0x3FF)),
    (p2 + 2, convert (pTiled4x4 6 >>> 4 &&& 0x3FF)),
    (p2 + 3, convert ((pTiled4x4 6 >>> 14 ||| pTiled4x4 7 <<< 2) &&& 0x3FF)),
    (p3, convert ((pTiled4x4 7 >>> 8 ||| pTiled4x4 8 <<< 8) &&& 0x3FF)),
    (p3 + 1, convert (pTiled4x4 8 >>> 2 &&& 0x3FF)),
    (p3 + 2, convert ((pTiled4x4 8 >>> 12 ||| pTiled4x4 9 <<< 4) &&& 0x3FF)),
    (p3 + 3, convert (pTiled4x4 9 >>> 6))]

def untile4x4ChromaBlock10bToPlanar (pTiled4x4 : ℕ → ℕ) (pUntiledU pUntiledV iUntiledPitch : ℕ)
    (convert : ℕ → ℕ) : List (ℕ × ℕ) :=
  let u1 := pUntiledU + iUntiledPitch
  let v1 := pUntiledV + iUntiledPitch
  let u2 := u1 + iUntiledPitch
  let v2 := v1 + iUntiledPitch
  let u3 := u2 + iUntiledPitch
  let v3 := v2 + iUntiledPitch
  [(pUntiledU, convert (pTiled4x4 0 &&& 0x3FF)),
    (pUntiledV, convert ((pTiled4x4 0 >>> 10 ||| pTiled4x4 1 <<< 6) &&& 0x3FF)),
    (pUntiledU + 1, convert (pTiled4x4 1 >>> 4 &&& 0x3FF)),
    (pUntiledV + 1, convert ((pTiled4x4 1 >>> 14 ||| pTiled4x4 2 <<< 2) &&& 0x3FF)),
    (u1, convert ((pTiled4x4 2 >>> 8 ||| pTiled4x4 3 <<< 8) &&& 0x3FF)),
    (v1, convert (pTiled4x4 3 >>> 2 &&& 0x3FF)),
    (u1 + 1, convert ((pTiled4x4 3 >>> 12 ||| pTiled4x4 4 <<< 4) &&& 0x3FF)),
    (v1 + 1, convert (pTiled4x4 4 >>> 6)),
    (u2, convert (pTiled4x4 5 &&& 0x3FF)),
    (v2, convert ((pTiled4x4 5 >>> 10 ||| pTiled4x4 6 <<< 6) &&& 0x3FF)),
    (u2 + 1, convert (pTiled4x4 6 >>> 4 &&& 0x3FF)),
    (v2 + 1, convert ((pTiled4x4 6 >>> 14 ||| pTiled4x4 7 <<< 2) &&& 0x3FF)),
    (u3, convert ((pTiled4x4 7 >>> 8 ||| pTiled4x4 8 <<< 8) &&& 0x3FF)),
    (v3, convert (pTiled4x4 8 >>> 2 &&& 0x3FF)),
    (u3 + 1, convert ((pTiled4x4 8 >>> 12 ||| pTiled4x4 9 <<< 4) &&& 0x3FF)),
    (v3 + 1, convert (pTiled4x4 9 >>> 6))]

/-- The sample `i` of a row of tiles: ten bits, which may go on in the next word. -/
def tileSample (pSrc : ℕ → ℕ) (i : ℕ) : ℕ :=
  (pSrc (10 * i / 16) + pSrc (10 * i / 16 + 1) * 2 ^ 16) / 2 ^ (10 * i % 16) % 2 ^ 10

/-! ## Rows of words -/

variable {put get width}

theorem unpackRow_eq (pSrc32 : ℕ → ℕ) : unpackRow get width pSrc32 =
    (List.range width).map fun c => get (c % 3) (pSrc32 (c / 3)) := by
  have hmod (k j : ℕ) : (3 * k + j) % 3 = j % 3 := Nat.mul_add_mod 3 k j
  have hdiv (k j : ℕ) : (3 * k + j) / 3 = k + j / 3 := Nat.mul_add_div (by decide) k j
  have hsplit : List.range width = List.range (3 * (width / 3) + width % 3) := by
    rw [Nat.div_add_mod]
  rw [hsplit]
  refine flatMap_groups _ (fun k _ => ?_) ?_
  · simp only [hmod, hdiv]
    rfl
  · simp only [hmod, hdiv]
    have hcases : width % 3 = 0 ∨ width % 3 = 1 ∨ width % 3 = 2 := by omega
    rcases hcases with h | h | h
    · rw [h]
      rfl
    · rw [h]
      rfl
    · rw [h]
      rfl

theorem unpackChromaRow_eq (hwidth : width % 2 = 0) (pSrc32 : ℕ → ℕ) :
    unpackChromaRow get width pSrc32 =
      (List.range width).map fun c => (decide (c % 2 = 0), get (c % 3) (pSrc32 (c / 3))) := by
  have hmod (k j : ℕ) : (6 * k + j) % 3 = j % 3 := by omega
  have hdiv (k j : ℕ) : (6 * k + j) / 3 = 2 * k + j / 3 := by omega
  have hturn (k j : ℕ) : (6 * k + j) % 2 = j % 2 := by omega
  have hsplit : List.range width = List.range (6 * (width / 6) + width % 6) := by
    rw [Nat.div_add_mod]
  rw [hsplit]
  refine flatMap_groups _ (fun k _ => ?_) ?_
  · simp only [hmod, hdiv, hturn]
    rfl
  · simp only [hmod, hdiv, hturn]
    have hcases : width % 6 = 0 ∨ width % 6 = 2 ∨ width % 6 = 4 := by omega
    rcases hcases with h | h | h
    · rw [h]
      rfl
    · rw [h]
      rfl
    · rw [h]
      rfl

/-! ## Fields of ten bits -/

theorem field_mask (x : ℕ) : x &&& 0x3FF = x % 2 ^ 10 := Nat.and_two_pow_sub_one_eq_mod x 10

theorem getEight_eq (j word : ℕ) : getEight j word = getTen j word / 4 := by
  unfold getEight getTen
  rw [field_mask, show (0xFF : ℕ) = 2 ^ 8 - 1 from rfl, Nat.and_two_pow_sub_one_eq_mod,
    Nat.shiftRight_eq_div_pow, Nat.shiftRight_eq_div_pow, Nat.pow_add, ← Nat.div_div_eq_div_mul]
  generalize word / 2 ^ (10 * j) = field
  omega

/-! ## Fields in words of 16 bits -/

theorem field_straddle {a b i : ℕ} (ha : a < 2 ^ 16) (hi : i ≤ 16) :
    (a >>> i ||| b <<< (16 - i)) &&& 0x3FF = (a + b * 2 ^ 16) / 2 ^ i % 2 ^ 10 := by
  have hpow : 2 ^ 16 = 2 ^ (16 - i) * 2 ^ i := by rw [← Nat.pow_add, Nat.sub_add_cancel hi]
  have hlow : a >>> i < 2 ^ (16 - i) := by
    rw [Nat.shiftRight_eq_div_pow, Nat.div_lt_iff_lt_mul (by positivity), ← hpow]
    exact ha
  rw [field_mask, Nat.or_comm, ← Nat.shiftLeft_add_eq_or_of_lt hlow, Nat.shiftLeft_eq,
    Nat.shiftRight_eq_div_pow, hpow, ← Nat.mul_assoc, Nat.add_mul_div_right _ _ (by positivity),
    Nat.add_comm]

theorem field_within (a b : ℕ) {i : ℕ} (hi : i ≤ 6) :
    a >>> i &&& 0x3FF = (a + b * 2 ^ 16) / 2 ^ i % 2 ^ 10 := by
  have hpow : 2 ^ 16 = 2 ^ (6 - i) * 2 ^ 10 * 2 ^ i := by
    rw [← Nat.pow_add, ← Nat.pow_add, show 6 - i + 10 + i = 16 by omega]
  rw [field_mask, Nat.shiftRight_eq_div_pow, hpow, ← Nat.mul_assoc,
    Nat.add_mul_div_right _ _ (by positivity), ← Nat.mul_assoc, Nat.add_mul_mod_self_right]

theorem field_last {a : ℕ} (b : ℕ) (ha : a < 2 ^ 16) :
    a >>> 6 = (a + b * 2 ^ 16) / 2 ^ 6 % 2 ^ 10 := by
  rw [Nat.shiftRight_eq_div_pow]
  omega

theorem tileSample_block {pSrc : ℕ → ℕ} (hword : ∀ i, pSrc i < 2 ^ 16) :
    [pSrc 0 &&& 0x3FF, (pSrc 0 >>> 10 ||| pSrc 1 <<< 6) &&& 0x3FF, pSrc 1 >>> 4 &&& 0x3FF,
        (pSrc 1 >>> 14 ||| pSrc 2 <<< 2) &&& 0x3FF, (pSrc 2 >>> 8 ||| pSrc 3 <<< 8) &&& 0x3FF,
        pSrc 3 >>> 2 &&& 0x3FF, (pSrc 3 >>> 12 ||| pSrc 4 <<< 4) &&& 0x3FF, pSrc 4 >>> 6,
        pSrc 5 &&& 0x3FF, (pSrc 5 >>> 10 ||| pSrc 6 <<< 6) &&& 0x3FF, pSrc 6 >>> 4 &&& 0x3FF,
        (pSrc 6 >>> 14 ||| pSrc 7 <<< 2) &&& 0x3FF, (pSrc 7 >>> 8 ||| pSrc 8 <<< 8) &&& 0x3FF,
        pSrc 8 >>> 2 &&& 0x3FF, (pSrc 8 >>> 12 ||| pSrc 9 <<< 4) &&& 0x3FF, pSrc 9 >>> 6] =
      (List.range 16).map (tileSample pSrc) := by
  have hstraddle (j i : ℕ) (hi : i ≤ 16) :=
    @field_straddle (pSrc j) (pSrc (j + 1)) i (hword j) hi
  have hwithin (j i : ℕ) (hi : i ≤ 6) := @field_within (pSrc j) (pSrc (j + 1)) i hi
  have hlast (j : ℕ) := @field_last (pSrc j) (pSrc (j + 1)) (hword j)
  have h0 := hwithin 0 0 (by decide)
  have h1 := hstraddle 0 10 (by decide)
  have h2 := hwithin 1 4 (by decide)
  have h3 := hstraddle 1 14 (by decide)
  have h4 := hstraddle 2 8 (by decide)
  have h5 := hwithin 3 2 (by decide)
  have h6 := hstraddle 3 12 (by decide)
  have h8 := hwithin 5 0 (by decide)
  have h9 := hstraddle 5 10 (by decide)
  have h10 := hwithin 6 4 (by decide)
  have h11 := hstraddle 6 14 (by decide)
  have h12 := hstraddle 7 8 (by decide)
  have h13 := hwithin 8 2 (by decide)
  have h14 := hstraddle 8 12 (by decide)
  rw [Nat.shiftRight_zero] at h0 h8
  rw [h0, h1, h2, h3, h4, h5, h6, hlast 4, h8, h9, h10, h11, h12, h13, h14, hlast 9]
  rfl

section Blocks

variable {pSrc : ℕ → ℕ} (hword : ∀ i, pSrc i < 2 ^ 16) (p iUntiledPitch : ℕ)

theorem row_pointers : p + 0 / 4 * iUntiledPitch = p ∧ p + iUntiledPitch = p + 1 * iUntiledPitch ∧
    p + 1 * iUntiledPitch + iUntiledPitch = p + 2 * iUntiledPitch ∧
    p + 2 * iUntiledPitch + iUntiledPitch = p + 3 * iUntiledPitch := by
  refine ⟨?_, ?_, ?_, ?_⟩
  · rw [Nat.zero_div, Nat.zero_mul, Nat.add_zero]
  · ring
  · ring
  · ring

include hword

theorem untile4x4Block10b_eq (convert : ℕ → ℕ) :
    untile4x4Block10b pSrc p iUntiledPitch convert = (List.range 16).map fun i =>
      (p + i / 4 * iUntiledPitch + i % 4, convert (tileSample pSrc i)) := by
  have hblock := tileSample_block hword
  have hlist (g : ℕ → ℕ) : (List.range 16).map g = [g 0, g 1, g 2, g 3, g 4, g 5, g 6, g 7, g 8,
    g 9, g 10, g 11, g 12, g 13, g 14, g 15] := rfl
  rw [hlist] at hblock
  simp only [List.cons.injEq] at hblock
  obtain ⟨h0, h1, h2, h3, h4, h5, h6, h7, h8, h9, h10, h11, h12, h13, h14, h15, -⟩ := hblock
  obtain ⟨hp0, hp1, hp2, hp3⟩ := row_pointers p iUntiledPitch
  unfold untile4x4Block10b
  dsimp only
  rw [h0, h1, h2, h3, h4, h5, h6, h7, h8, h9, h10, h11, h12, h13, h14, h15, hp1, hp2, hp3]
  show _ = [(p + 0 / 4 * iUntiledPitch, _), (p + 0 / 4 * iUntiledPitch + 1, _),
    (p + 0 / 4 * iUntiledPitch + 2, _), (p + 0 / 4 * iUntiledPitch + 3, _), _, _, _, _, _, _, _, _,
    _, _, _, _]
  rw [hp0]
  rfl

theorem untile4x4ChromaBlock10bToPlanar_eq (q : ℕ) (convert : ℕ → ℕ) :
    untile4x4ChromaBlock10bToPlanar pSrc p q iUntiledPitch convert = (List.range 16).map fun i =>
      ((if i % 2 = 0 then p else q) + i / 4 * iUntiledPitch + i % 4 / 2,
        convert (tileSample pSrc i)) := by
  have hblock := tileSample_block hword
  have hlist (g : ℕ → ℕ) : (List.range 16).map g = [g 0, g 1, g 2, g 3, g 4, g 5, g 6, g 7, g 8,
    g 9, g 10, g 11, g 12, g 13, g 14, g 15] := rfl
  rw [hlist] at hblock
  simp only [List.cons.injEq] at hblock
  obtain ⟨h0, h1, h2, h3, h4, h5, h6, h7, h8, h9, h10, h11, h12, h13, h14, h15, -⟩ := hblock
  obtain ⟨hp0, hp1, hp2, hp3⟩ := row_pointers p iUntiledPitch
  obtain ⟨hq0, hq1, hq2, hq3⟩ := row_pointers q iUntiledPitch
  unfold untile4x4ChromaBlock10bToPlanar
  dsimp only
  rw [h0, h1, h2, h3, h4, h5, h6, h7, h8, h9, h10, h11, h12, h13, h14, h15, hp1, hp2, hp3, hq1, hq2,
    hq3]
  show _ = [(p + 0 / 4 * iUntiledPitch, _), (q + 0 / 4 * iUntiledPitch, _),
    (p + 0 / 4 * iUntiledPitch + 1, _), (q + 0 / 4 * iUntiledPitch + 1, _), _, _, _, _, _, _, _, _,
    _, _, _, _]
  rw [hp0, hq0]
  rfl

end Blocks

theorem tileSample_add (pSrc : ℕ → ℕ) (k i : ℕ) :
    tileSample (fun j => pSrc (10 * k + j)) i = tileSample pSrc (16 * k + i) := by
  have hdiv : 10 * (16 * k + i) / 16 = 10 * k + 10 * i / 16 := by omega
  have hmod : 10 * (16 * k + i) % 16 = 10 * i % 16 := by omega
  unfold tileSample
  rw [hdiv, hmod, Nat.add_assoc]

end VcuCodec
