import VcuCodec.TileConversions

/-!
# Pictures of ten bits as pictures of eight bits

The same picture in the four kinds of 10-bit formats, and what their routines make of it.  Each
kind reduces the depth in its own way: the rasters drop a carry, the words drop the lower bits,
and only the tiles saturate.
-/

namespace VcuCodec

open RasterStores

/-- The kinds of 10-bit formats: P010 and P210, I0AL and I2AL, XV15 and XV20, T60A and T62A. -/
inductive TenBitStorage
  | semiPlanar
  | planar
  | packed
  | tiled
  deriving DecidableEq

/-- The picture in a buffer of this format. -/
def TenBitStorage.Stores : TenBitStorage → SampleBuffer → YuvPicture → Prop
  | .semiPlanar => RasterShows 2 .semiPlanar
  | .planar => RasterShows 2 .uFirst
  | .packed => XvShows
  | .tiled => TileShows

/-- What the routines of a format make of a sample. -/
def TenBitStorage.to8b : TenBitStorage → ℕ → ℕ
  | .semiPlanar | .planar => castTo8b
  | .packed => (· / 4)
  | .tiled => rnd10bTo8b

/-- A routine without assertions. -/
def total (f : SampleBuffer → SampleBuffer → ℕ → ℕ → SampleBuffer) : Option Conversion :=
  some fun pSrc pDst iWidth iHeight => some (f pSrc pDst iWidth iHeight)

/-- The routines from 4:2:0 formats to Y800, NV12, I420 and YV12. -/
def conversions420 : TenBitStorage → ChromaLayout → Option Conversion
  | .semiPlanar, .none => total p010ToY800
  | .semiPlanar, .semiPlanar => total p010ToNv12
  | .semiPlanar, .uFirst => total p010ToI420
  | .semiPlanar, .vFirst => total p010ToYv12
  | .planar, .none => total i0alToY800
  | .planar, .semiPlanar => total i0alToNv12
  | .planar, .uFirst => total i0alToI420
  | .planar, .vFirst => none
  | .packed, .none => some xv15ToY800
  | .packed, .semiPlanar => some xv15ToNv12
  | .packed, .uFirst => some xv15ToI420
  | .packed, .vFirst => some xv15ToYv12
  | .tiled, .none => total t60aToY800
  | .tiled, .semiPlanar => total t60aToNv12
  | .tiled, .uFirst => total t60aToI420
  | .tiled, .vFirst => total t60aToYv12

/-- The routines from 4:2:2 formats to Y800, NV16 and I422. -/
def conversions422 : TenBitStorage → ChromaLayout → Option Conversion
  | .semiPlanar, .uFirst => total p210ToI422
  | .planar, .semiPlanar => total i2alToNv16
  | .packed, .none => some xv15ToY800
  | .packed, .semiPlanar => some xv20ToNv16
  | .packed, .uFirst => some xv20ToI422
  | .tiled, .none => total t62aToY800
  | .tiled, .semiPlanar => total t62aToNv16
  | .tiled, .uFirst => total t62aToI422
  | _, _ => none

/-- The routine for a picture, if there is one. -/
def conversions (uVrtCScale : ℕ) : TenBitStorage → ChromaLayout → Option Conversion :=
  if uVrtCScale = 2 then conversions420 else conversions422

/-- The layouts in which the tile routines read and store the blocks where they are. -/
def WholeBlocks (layout : ChromaLayout) (pDst : SampleBuffer) (pic : YuvPicture) : Prop :=
  (pic.width + 3) / 4 * 4 ≤ pDst.y.iPitch ∧ (pic.height % 4 = 0 ∨ pic.width ≤ 64) ∧
    match layout with
    | .none => True
    | .semiPlanar => (pic.width + 3) / 4 * 4 ≤ pDst.uv.iPitch ∧
        if pic.uVrtCScale = 2 then pic.heightC % 4 = 0 ∨ pic.width ≤ 64
        else pic.width ≤ 4 ∧ pic.height ≤ 4
    | .uFirst | .vFirst => (pic.width + 3) / 4 * 2 ≤ pDst.uv.iPitch ∧ pic.heightC % 4 = 0 ∧
        (pic.uVrtCScale = 2 ∨ pic.width % 4 = 0 ∨ pic.height ≤ 4)

/-- The layouts for which a routine is made. -/
def Regular : TenBitStorage → ChromaLayout → SampleBuffer → SampleBuffer → YuvPicture → Prop
  | .semiPlanar, .vFirst, pSrc, pDst, pic => Compact pSrc pDst pic
  | .tiled, layout, _, pDst, pic => WholeBlocks layout pDst pic
  | _, _, _, _, _ => True

section Conversions

variable {pSrc pDst : SampleBuffer} {pic : YuvPicture} {layout : ChromaLayout} {s : TenBitStorage}
  {f : Conversion}

theorem conversions420_shows (hscale : pic.uVrtCScale = 2) (hconv : conversions420 s layout = some f)
    (hsrc : s.Stores pSrc pic) (hdst : RasterFits 1 layout pDst pic)
    (hregular : Regular s layout pSrc pDst pic) :
    ∃ out, f pSrc pDst pic.width pic.height = some out ∧
      RasterShows 1 layout out (pic.map s.to8b) := by
  cases s with
  | semiPlanar =>
    have hsrc : RasterShows 2 .semiPlanar pSrc pic := hsrc
    cases layout with
    | none =>
      obtain rfl := Option.some.inj hconv
      exact ⟨_, rfl, i0alToY800_shows hsrc hdst⟩
    | semiPlanar =>
      obtain rfl := Option.some.inj hconv
      exact ⟨_, rfl, p010ToNv12_shows hscale hsrc hdst⟩
    | uFirst =>
      obtain rfl := Option.some.inj hconv
      have hshows := px10ToI42x_shows hsrc hdst
      rw [hscale] at hshows
      exact ⟨_, rfl, hshows⟩
    | vFirst =>
      obtain rfl := Option.some.inj hconv
      exact ⟨_, rfl, p010ToYv12_shows hscale hsrc hregular⟩
  | planar =>
    have hsrc : RasterShows 2 .uFirst pSrc pic := hsrc
    cases layout with
    | none =>
      obtain rfl := Option.some.inj hconv
      exact ⟨_, rfl, i0alToY800_shows hsrc hdst⟩
    | semiPlanar =>
      obtain rfl := Option.some.inj hconv
      have hshows := ixalToNv1x_shows hsrc hdst
      rw [hscale] at hshows
      exact ⟨_, rfl, hshows⟩
    | uFirst =>
      obtain rfl := Option.some.inj hconv
      have hshows := ixalToI4xx_shows hsrc hdst
      rw [hscale] at hshows
      exact ⟨_, rfl, hshows⟩
    | vFirst => cases hconv
  | packed =>
    cases layout with
    | none =>
      obtain rfl := Option.some.inj hconv
      obtain ⟨out, hout, hshows, -⟩ := xv15ToY800_shows hsrc hdst
      exact ⟨out, hout, hshows⟩
    | semiPlanar =>
      obtain rfl := Option.some.inj hconv
      have hshows := xvxxToNv1x_shows hsrc hdst
      rw [hscale] at hshows
      exact hshows
    | uFirst =>
      obtain rfl := Option.some.inj hconv
      have hshows := xvxxToI42x_shows hsrc hdst
      rw [hscale] at hshows
      exact hshows
    | vFirst =>
      obtain rfl := Option.some.inj hconv
      exact xv15ToYv12_shows hscale hsrc hdst
  | tiled =>
    obtain ⟨hpitch, hpointer, hchroma⟩ := hregular
    cases layout with
    | none =>
      obtain rfl := Option.some.inj hconv
      exact ⟨_, rfl, t60aToY800_shows hsrc hpointer hpitch⟩
    | semiPlanar =>
      obtain rfl := Option.some.inj hconv
      rw [if_pos hscale] at hchroma
      refine ⟨_, rfl, t60aToNv12_shows hscale hsrc ?_ ⟨hpitch, hchroma.1⟩⟩
      have hC := hchroma.2
      omega
    | uFirst =>
      obtain rfl := Option.some.inj hconv
      exact ⟨_, rfl, t60aToI420_shows hscale hsrc hchroma.2.1 ⟨hpitch, hchroma.1⟩⟩
    | vFirst =>
      obtain rfl := Option.some.inj hconv
      exact ⟨_, rfl, t60aToYv12_shows hscale hsrc hchroma.2.1 ⟨hpitch, hchroma.1⟩⟩

theorem conversions422_shows (hscale : pic.uVrtCScale = 1) (hconv : conversions422 s layout = some f)
    (hsrc : s.Stores pSrc pic) (hdst : RasterFits 1 layout pDst pic)
    (hregular : Regular s layout pSrc pDst pic) :
    ∃ out, f pSrc pDst pic.width pic.height = some out ∧
      RasterShows 1 layout out (pic.map s.to8b) := by
  cases s with
  | semiPlanar =>
    cases layout with
    | uFirst =>
      obtain rfl := Option.some.inj hconv
      have hshows := px10ToI42x_shows hsrc hdst
      rw [hscale] at hshows
      exact ⟨_, rfl, hshows⟩
    | none | semiPlanar | vFirst => cases hconv
  | planar =>
    cases layout with
    | semiPlanar =>
      obtain rfl := Option.some.inj hconv
      have hshows := ixalToNv1x_shows hsrc hdst
      rw [hscale] at hshows
      exact ⟨_, rfl, hshows⟩
    | none | uFirst | vFirst => cases hconv
  | packed =>
    cases layout with
    | none =>
      obtain rfl := Option.some.inj hconv
      obtain ⟨out, hout, hshows, -⟩ := xv15ToY800_shows hsrc hdst
      exact ⟨out, hout, hshows⟩
    | semiPlanar =>
      obtain rfl := Option.some.inj hconv
      have hshows := xvxxToNv1x_shows hsrc hdst
      rw [hscale] at hshows
      exact hshows
    | uFirst =>
      obtain rfl := Option.some.inj hconv
      have hshows := xvxxToI42x_shows hsrc hdst
      rw [hscale] at hshows
      exact hshows
    | vFirst => cases hconv
  | tiled =>
    obtain ⟨hpitch, hpointer, hchroma⟩ := hregular
    have hsame : pic.height = pic.heightC := by
      unfold YuvPicture.height
      rw [hscale, Nat.one_mul]
    cases layout with
    | none =>
      obtain rfl := Option.some.inj hconv
      exact ⟨_, rfl, t60aToY800_shows hsrc hpointer hpitch⟩
    | semiPlanar =>
      obtain rfl := Option.some.inj hconv
      rw [if_neg (by omega)] at hchroma
      exact ⟨_, rfl, t62aToNv16_shows hscale hsrc hchroma.2 ⟨hpitch, hchroma.1⟩⟩
    | uFirst =>
      obtain rfl := Option.some.inj hconv
      obtain ⟨hpitchC, hheight, hjump⟩ := hchroma
      exact ⟨_, rfl, t62aToI422_shows hscale hsrc (by omega) (by omega) ⟨hpitch, hpitchC⟩⟩
    | vFirst => cases hconv

/-- In a regular layout a routine shows the picture, with the depth that its format gives. -/
theorem conversions_shows (hconv : conversions pic.uVrtCScale s layout = some f)
    (hsrc : s.Stores pSrc pic) (hdst : RasterFits 1 layout pDst pic)
    (hregular : Regular s layout pSrc pDst pic) :
    ∃ out, f pSrc pDst pic.width pic.height = some out ∧
      RasterShows 1 layout out (pic.map s.to8b) := by
  unfold conversions at hconv
  rcases pic.scale with hscale | hscale
  · rw [if_neg (by omega)] at hconv
    exact conversions422_shows hscale hconv hsrc hdst hregular
  · rw [if_pos hscale] at hconv
    exact conversions420_shows hscale hconv hsrc hdst hregular

end Conversions

/-! ## The samples -/

/-- The rounded value in eight bits. -/
def rounded (v : ℕ) : ℕ := min 255 ((v + 2) / 4)

/-- Every sample of ten bits. -/
def YuvPicture.TenBit (pic : YuvPicture) : Prop :=
  ∀ r c, pic.y r c < 2 ^ 10 ∧ pic.u r c < 2 ^ 10 ∧ pic.v r c < 2 ^ 10

/-- A property of every sample that a layout has. -/
def YuvPicture.Each (pic : YuvPicture) (layout : ChromaLayout) (P : ℕ → Prop) : Prop :=
  (∀ r < pic.height, ∀ c < pic.width, P (pic.y r c)) ∧
    (layout ≠ .none → ∀ r < pic.heightC, ∀ c < pic.widthC, P (pic.u r c) ∧ P (pic.v r c))

variable {layout : ChromaLayout} {pic : YuvPicture}

theorem YuvPicture.each_of_tenBit {P : ℕ → Prop}
    (hten : pic.TenBit) (h : ∀ v < 2 ^ 10, P v) : pic.Each layout P :=
  ⟨fun r _ c _ => h _ (hten r c).1, fun _ r _ c _ => ⟨h _ (hten r c).2.1, h _ (hten r c).2.2⟩⟩

theorem YuvPicture.each_congr {P Q : ℕ → Prop}
    (hten : pic.TenBit) (h : ∀ v < 2 ^ 10, P v ↔ Q v) : pic.Each layout P ↔ pic.Each layout Q := by
  unfold YuvPicture.Each
  have hy (r c : ℕ) := h _ (hten r c).1
  have hu (r c : ℕ) := h _ (hten r c).2.1
  have hv (r c : ℕ) := h _ (hten r c).2.2
  simp only [hy, hu, hv]

theorem rasterShows_map_iff {buf : SampleBuffer}
    {f g : ℕ → ℕ} (h : RasterShows 1 layout buf (pic.map f)) :
    RasterShows 1 layout buf (pic.map g) ↔ pic.Each layout fun v => f v = g v := by
  refine and_congr h.1.iff_eq ?_
  cases layout with
  | none => exact ⟨fun _ hne => absurd rfl hne, fun _ => trivial⟩
  | semiPlanar =>
    refine h.2.iff_eq.trans (Iff.trans ?_ ⟨fun hrows _ => hrows, fun hrows => hrows (by simp)⟩)
    exact forall₂_congr fun r _ => alternate_eq_iff
  | uFirst =>
    refine h.2.iff_eq.trans (Iff.trans ?_ ⟨fun hrows _ => hrows, fun hrows => hrows (by simp)⟩)
    exact stacked_eq_iff
  | vFirst =>
    refine h.2.iff_eq.trans (Iff.trans ?_ ⟨fun hrows _ => hrows, fun hrows => hrows (by simp)⟩)
    refine stacked_eq_iff.trans ?_
    simp only [and_comm]
    rfl

/-- Every routine to a layout gives the rounded values. -/
def RoundsAlike (layout : ChromaLayout) (pSrc pDst : TenBitStorage → SampleBuffer)
    (pic : YuvPicture) : Prop :=
  ∀ s f, conversions pic.uVrtCScale s layout = some f →
    ∃ out, f (pSrc s) (pDst s) pic.width pic.height = some out ∧
      RasterShows 1 layout out (pic.map rounded)

/-- The samples that every routine rounds; no raster of 4:2:2 samples is made Y800. -/
def Rounds (uVrtCScale : ℕ) (layout : ChromaLayout) (v : ℕ) : Prop :=
  v % 4 < 2 ∨ uVrtCScale = 1 ∧ layout = .none ∧ 1020 ≤ v

variable {v : ℕ}

theorem castTo8b_eq_rounded (hv : v < 2 ^ 10) : castTo8b v = rounded v ↔ v < 1022 := by
  unfold castTo8b rounded
  rw [Nat.shiftRight_eq_div_pow]
  omega

theorem div_eq_rounded (hv : v < 2 ^ 10) : v / 4 = rounded v ↔ v % 4 < 2 ∨ 1020 ≤ v := by
  unfold rounded
  omega

theorem rnd10bTo8b_eq_rounded (hv : v < 2 ^ 10) : rnd10bTo8b v = rounded v := by
  unfold rnd10bTo8b rounded
  rw [Nat.shiftRight_eq_div_pow]
  split <;> omega

theorem exists_packed {uVrtCScale : ℕ} (hformat : uVrtCScale = 2 ∨ layout ≠ .vFirst) :
    ∃ f, conversions uVrtCScale .packed layout = some f := by
  unfold conversions
  split
  · cases layout with
    | none | semiPlanar | uFirst | vFirst => exact ⟨_, rfl⟩
  next hscale =>
    cases layout with
    | none | semiPlanar | uFirst => exact ⟨_, rfl⟩
    | vFirst => exact absurd rfl (hformat.resolve_left hscale)

/-- Every format but Y800 from 4:2:2 has a routine from a raster. -/
theorem exists_raster {uVrtCScale : ℕ}
    (hformat : uVrtCScale = 2 ∨ layout ≠ .vFirst) (hraster : uVrtCScale = 2 ∨ layout ≠ .none) :
    ∃ s f, conversions uVrtCScale s layout = some f ∧ s ≠ .tiled ∧ s.to8b = castTo8b := by
  unfold conversions
  split
  · cases layout with
    | none | semiPlanar | uFirst | vFirst => exact ⟨.semiPlanar, _, rfl, by decide, rfl⟩
  next hscale =>
    cases layout with
    | none => exact absurd rfl (hraster.resolve_left hscale)
    | semiPlanar => exact ⟨.planar, _, rfl, by decide, rfl⟩
    | uFirst => exact ⟨.semiPlanar, _, rfl, by decide, rfl⟩
    | vFirst => exact absurd rfl (hformat.resolve_left hscale)

/-- The rasters and the words decide; the tiles are right. -/
theorem rounds_iff {uVrtCScale v : ℕ} (hv : v < 2 ^ 10)
    (hscale : uVrtCScale = 1 ∨ uVrtCScale = 2) (hformat : uVrtCScale = 2 ∨ layout ≠ .vFirst) :
    (∀ s f, conversions uVrtCScale s layout = some f → s ≠ .tiled → s.to8b v = rounded v) ↔
      Rounds uVrtCScale layout v := by
  have hcast := castTo8b_eq_rounded hv
  have hdiv := div_eq_rounded hv
  unfold Rounds
  constructor
  · intro h
    obtain ⟨f, hpacked⟩ := exists_packed hformat
    have hwords := hdiv.mp (h .packed f hpacked (by decide))
    by_cases hraster : uVrtCScale = 2 ∨ layout ≠ .none
    · obtain ⟨s, g, hconv, htiled, hs⟩ := exists_raster hformat hraster
      have hrasters := h s g hconv htiled
      rw [hs, hcast] at hrasters
      exact .inl (by omega)
    · rw [not_or, not_not] at hraster
      rcases hwords with hlow | hhigh
      · exact .inl hlow
      · exact .inr ⟨hscale.resolve_right hraster.1, hraster.2, hhigh⟩
  · intro h s f hconv htiled
    cases s with
    | semiPlanar | planar =>
      have hlow : v % 4 < 2 := by
        rcases h with hlow | ⟨rfl, rfl, -⟩
        · exact hlow
        · cases hconv
      exact hcast.mpr (by omega)
    | packed => exact hdiv.mpr (by omega)
    | tiled => exact absurd rfl htiled

theorem each_forall {ι : Sort*} {P : ι → ℕ → Prop} :
    (∀ i, pic.Each layout (P i)) ↔ pic.Each layout fun v => ∀ i, P i v := by
  unfold YuvPicture.Each
  constructor
  · exact fun h => ⟨fun r hr c hc i => (h i).1 r hr c hc, fun hne r hr c hc =>
      ⟨fun i => ((h i).2 hne r hr c hc).1, fun i => ((h i).2 hne r hr c hc).2⟩⟩
  · exact fun h i => ⟨fun r hr c hc => h.1 r hr c hc i, fun hne r hr c hc =>
      ⟨(h.2 hne r hr c hc).1 i, (h.2 hne r hr c hc).2 i⟩⟩

section Claims

variable (pic : YuvPicture) (layout : ChromaLayout) (pSrc pDst : TenBitStorage → SampleBuffer)

/-- In regular layouts all routines give the rounded values if and only if the rasters and the
words round every sample; without the tiles no layout of theirs matters. -/
theorem roundsAlike_iff (hten : pic.TenBit) (hformat : pic.uVrtCScale = 2 ∨ layout ≠ .vFirst)
    (hsrc : ∀ s : TenBitStorage, s.Stores (pSrc s) pic) (hdst : ∀ s, RasterFits 1 layout (pDst s) pic) :
    ((∀ s, Regular s layout (pSrc s) (pDst s) pic) →
        pic.Each layout (Rounds pic.uVrtCScale layout) → RoundsAlike layout pSrc pDst pic) ∧
      ((∀ s ≠ .tiled, Regular s layout (pSrc s) (pDst s) pic) →
        RoundsAlike layout pSrc pDst pic → pic.Each layout (Rounds pic.uVrtCScale layout)) := by
  have hrounds : pic.Each layout (Rounds pic.uVrtCScale layout) ↔ ∀ s f,
      conversions pic.uVrtCScale s layout = some f → s ≠ .tiled →
        pic.Each layout fun v => s.to8b v = rounded v := by
    simp only [each_forall]
    exact YuvPicture.each_congr hten fun v hv => (rounds_iff hv pic.scale hformat).symm
  constructor
  · intro hregular heach s f hconv
    obtain ⟨out, hout, hshows⟩ := conversions_shows hconv (hsrc s) (hdst s) (hregular s)
    refine ⟨out, hout, (rasterShows_map_iff hshows).mpr ?_⟩
    by_cases htiled : s = .tiled
    · subst htiled
      exact YuvPicture.each_of_tenBit hten fun v hv => rnd10bTo8b_eq_rounded hv
    · exact hrounds.mp heach s f hconv htiled
  · intro hregular hall
    refine hrounds.mpr fun s f hconv htiled => ?_
    obtain ⟨out, hout, hshows⟩ := conversions_shows hconv (hsrc s) (hdst s) (hregular s htiled)
    obtain ⟨out', hout', hshows'⟩ := hall s f hconv
    obtain rfl := Option.some.inj (hout.symm.trans hout')
    exact (rasterShows_map_iff hshows).mp hshows'

end Claims

/-! ## Pictures of one sample value -/

/-- Two rows of two samples, all of the same value. -/
def flatPicture (v : ℕ) : YuvPicture where
  widthC := 1
  heightC := 1
  uVrtCScale := 2
  scale := .inr rfl
  y _ _ := v
  u _ _ := v
  v _ _ := v

def flatBuffer (element iPitch : ℕ) : SampleBuffer := ⟨⟨fun _ => element, iPitch⟩, ⟨fun _ => element, iPitch⟩⟩

/-- The elements of the four formats. -/
def flatSource (v word32 word16 : ℕ) : TenBitStorage → SampleBuffer
  | .semiPlanar | .planar => flatBuffer v 4
  | .packed => flatBuffer word32 4
  | .tiled => flatBuffer word16 320

theorem flat_stores {v word32 word16 : ℕ} (h32 : ∀ j < 3, getTen j word32 = v)
    (h16 : word16 < 2 ^ 16) (hsample : ∀ i, tileSample (fun _ => word16) i = v)
    (s : TenBitStorage) : s.Stores (flatSource v word32 word16 s) (flatPicture v) := by
  have halternate (c : ℕ) : alternate (fun _ => v) (fun _ => v) c = v := by
    unfold alternate
    split <;> rfl
  have hstacked (r c : ℕ) : stacked 1 (fun _ _ => v) (fun _ _ => v) r c = v := by
    unfold stacked
    split <;> rfl
  cases s with
  | semiPlanar => exact ⟨fun _ _ _ _ => rfl, fun _ _ c _ => (halternate c).symm⟩
  | planar => exact ⟨fun _ _ _ _ => rfl, fun r _ c _ => (hstacked r c).symm⟩
  | packed =>
    have hword (c : ℕ) : getTen (c % 3) word32 = v := h32 _ (Nat.mod_lt _ (by decide))
    have hpitch : 4 % 4 = 0 := rfl
    exact ⟨hpitch, hpitch, fun _ _ c _ => hword c,
      fun _ _ c _ => (hword c).trans (halternate c).symm⟩
  | tiled =>
    have hpitch : 320 % 2 = 0 ∧ 2 * 1 * 5 ≤ 320 := by decide
    exact ⟨fun _ => h16, fun _ => h16, hpitch, fun _ _ _ _ => hsample _,
      fun _ _ c _ => (hsample _).trans (halternate c).symm⟩

theorem flat_tenBit (hv : v < 2 ^ 10) : (flatPicture v).TenBit := fun _ _ => ⟨hv, hv, hv⟩

theorem flat_fits (v : ℕ) : RasterFits 1 .none (flatBuffer 0 4) (flatPicture v) := by
  have hpitch : 2 * 1 ≤ 4 / 1 := by decide
  exact ⟨hpitch, trivial⟩

/-- A black picture. -/
theorem roundsAlike_black : RoundsAlike .none (flatSource 0 0 0) (fun _ => flatBuffer 0 4)
    (flatPicture 0) := by
  have hsample (i : ℕ) : tileSample (fun _ => 0) i = 0 := by simp [tileSample]
  refine (roundsAlike_iff (flatPicture 0) .none (flatSource 0 0 0) (fun _ => flatBuffer 0 4)
    (flat_tenBit (by decide)) (.inl rfl) (flat_stores (by decide) (by decide) hsample)
    fun _ => flat_fits 0).1 ?_ ?_
  · intro s
    cases s with
    | semiPlanar | planar | packed => trivial
    | tiled => exact ⟨by decide, .inr (by decide), trivial⟩
  · exact ⟨fun _ _ _ _ => .inl (show 0 % 4 < 2 by decide), fun hne => absurd rfl hne⟩

/-- In P010 a white sample is carried out of its eight bits. -/
theorem not_roundsAlike : ¬∀ (pic : YuvPicture) (layout : ChromaLayout)
    (pSrc pDst : TenBitStorage → SampleBuffer), pic.TenBit →
      (pic.uVrtCScale = 2 ∨ layout ≠ .vFirst) → (∀ s : TenBitStorage, s.Stores (pSrc s) pic) →
      (∀ s, RasterFits 1 layout (pDst s) pic) → RoundsAlike layout pSrc pDst pic := by
  intro hall
  have hbits : ∀ b < 16, (0xFFFF + 0xFFFF * 2 ^ 16) / 2 ^ b % 2 ^ 10 = 1023 := by decide
  have hsample (i : ℕ) : tileSample (fun _ => 0xFFFF) i = 1023 :=
    hbits _ (Nat.mod_lt _ (by decide))
  have hstores := @flat_stores 1023 0x3FFFFFFF 0xFFFF (by decide) (by decide) hsample
  obtain ⟨out, hout, hrounded⟩ := hall (flatPicture 1023) .none (flatSource 1023 0x3FFFFFFF 0xFFFF)
    (fun _ => flatBuffer 0 4) (flat_tenBit (by decide)) (.inl rfl) hstores (fun _ => flat_fits 1023)
    .semiPlanar _ rfl
  obtain rfl := Option.some.inj hout
  have hp010 : RasterShows 2 .semiPlanar (flatBuffer 1023 4) (flatPicture 1023) := hstores .semiPlanar
  have hcast := i0alToY800_shows hp010 (flat_fits 1023)
  have hwhite : castTo8b 1023 = rounded 1023 :=
    ((rasterShows_map_iff hcast).mp hrounded).1 0 (show 0 < 2 * 1 by decide) 0
      (show 0 < 2 * 1 by decide)
  exact absurd hwhite (by decide)

end VcuCodec
