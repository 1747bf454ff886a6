import VcuCodec.StreamSettings

/-!
# The buffers hold what the settings accept

An SPS is compared with the settings by its cropped size, but the buffers are filled by
its coded size, and the chroma format of the stream indexes the size tables.
-/

namespace VcuCodec

/-! ## Blocks -/

/-- The number of blocks of a picture. -/
def blocks (size : ℤ) (tDim : Dimension) : ℤ :=
  ((tDim.iWidth + (size - 1)) / size) * ((tDim.iHeight + (size - 1)) / size)

/-- The number of 16x16 blocks, in whole 64x64 blocks for HEVC. -/
def codecBlocks : Codec → Dimension → ℤ
  | .hevc, tDim => blocks 64 tDim * 16
  | .avc, tDim => blocks 16 tDim

/-- Width and height are above 0. -/
structure Dimension.Pos (d : Dimension) : Prop where
  width : 0 < d.iWidth
  height : 0 < d.iHeight

variable {d d' : Dimension} {size : ℤ} {eCodec : Codec} {eChroma : ℕ}

theorem one_le_blocks (size : ℤ) {x : ℤ} (hsize : 0 < size) (hx : 0 < x) : 1 ≤ (x + (size - 1)) / size := by
  rw [Int.le_ediv_iff_mul_le hsize]
  omega

theorem blocks_pos (hsize : 0 < size) (hd : d.Pos) : 0 < blocks size d := by
  have hw := one_le_blocks size hsize hd.width
  have hh := one_le_blocks size hsize hd.height
  exact Int.mul_pos (by omega) (by omega)

theorem side_le_blocks (hsize : 0 < size) (hd : d.Pos) :
    (d.iWidth + (size - 1)) / size ≤ blocks size d ∧ (d.iHeight + (size - 1)) / size ≤ blocks size d := by
  have hw := one_le_blocks size hsize hd.width
  have hh := one_le_blocks size hsize hd.height
  constructor
  · exact le_mul_of_one_le_right (by omega) hh
  · exact le_mul_of_one_le_left (by omega) hw

theorem blocks_16_le (hd : d.Pos) : blocks 16 d ≤ blocks 64 d * 16 := by
  have hw : (d.iWidth + (16 - 1)) / 16 ≤ 4 * ((d.iWidth + (64 - 1)) / 64) := by omega
  have hh : (d.iHeight + (16 - 1)) / 16 ≤ 4 * ((d.iHeight + (64 - 1)) / 64) := by omega
  have hw0 := one_le_blocks 64 (by decide) hd.width
  have hh0 := one_le_blocks 16 (by decide) hd.height
  calc blocks 16 d ≤ 4 * ((d.iWidth + (64 - 1)) / 64) * (4 * ((d.iHeight + (64 - 1)) / 64)) :=
        mul_le_mul hw hh (by omega) (by omega)
    _ = blocks 64 d * 16 := by
        unfold blocks
        ring

theorem codecBlocks_pos (eCodec : Codec) (hd : d.Pos) : 0 < codecBlocks eCodec d := by
  cases eCodec with
  | avc => exact blocks_pos (by decide) hd
  | hevc => exact Int.mul_pos (blocks_pos (by decide) hd) (by decide)

theorem blocks_16_le_codecBlocks (eCodec : Codec) (hd : d.Pos) : blocks 16 d ≤ codecBlocks eCodec d := by
  cases eCodec with
  | avc => exact le_rfl
  | hevc => exact blocks_16_le hd

theorem getBlk_eq_blocks (hsize : 0 < size) (hd : d.Pos) {k : ℤ} (h : getBlk size d = some k) :
    k = blocks size d := by
  unfold getBlk at h
  obtain ⟨iWidth, hw, h⟩ := Option.bind_eq_some_iff.mp h
  obtain ⟨iHeight, hh, h⟩ := Option.bind_eq_some_iff.mp h
  obtain ⟨-, rfl⟩ := checkInt32_eq_some.mp hw
  obtain ⟨-, rfl⟩ := checkInt32_eq_some.mp hh
  obtain ⟨-, rfl⟩ := checkInt32_eq_some.mp h
  have hw := hd.width
  have hh := hd.height
  rw [Int.tdiv_eq_ediv_of_nonneg (by omega), Int.tdiv_eq_ediv_of_nonneg (by omega)]
  rfl

/-- Pictures of less than `2 ^ 24` blocks do not overflow. -/
theorem getBlk_of_lt (hsize : 0 < size) (hle : size ≤ 64) (hd : d.Pos) (hlt : blocks size d < 2 ^ 24) :
    getBlk size d = some (blocks size d) := by
  have hpos := blocks_pos hsize hd
  have hside : ∀ x : ℤ, 0 < x → (x + (size - 1)) / size ≤ blocks size d → FitsInt32 (x + (size - 1)) := by
    intro x hx hxle
    have hx' : (x + (size - 1)) / size < 2 ^ 24 := by omega
    rw [Int.ediv_lt_iff_lt_mul hsize] at hx'
    have hmul : 2 ^ 24 * size ≤ 2 ^ 24 * 64 := by omega
    exact ⟨by omega, by omega⟩
  obtain ⟨hw, hh⟩ := side_le_blocks hsize hd
  have hw' := hd.width
  have hh' := hd.height
  unfold getBlk
  rw [checkInt32_eq_some.mpr ⟨hside _ hw' hw, rfl⟩, checkInt32_eq_some.mpr ⟨hside _ hh' hh, rfl⟩]
  apply checkInt32_eq_some.mpr
  rw [Int.tdiv_eq_ediv_of_nonneg (by omega), Int.tdiv_eq_ediv_of_nonneg (by omega)]
  exact ⟨⟨by show -2 ^ 31 ≤ blocks size d; omega, by show blocks size d < 2 ^ 31; omega⟩, rfl⟩

theorem iBlk16x16_eq (hd : d.Pos) {k : ℤ} (h : iBlk16x16 eCodec d = some k) : k = codecBlocks eCodec d := by
  cases eCodec with
  | avc => exact getBlk_eq_blocks (by decide) hd h
  | hevc =>
    obtain ⟨n, hn, h⟩ := Option.bind_eq_some_iff.mp h
    obtain ⟨-, rfl⟩ := checkInt32_eq_some.mp h
    rw [getBlk_eq_blocks (by decide) hd hn]
    rfl

theorem iBlk16x16_of_lt (hd : d.Pos) (hlt : codecBlocks eCodec d < 2 ^ 24) :
    iBlk16x16 eCodec d = some (codecBlocks eCodec d) := by
  have hpos := codecBlocks_pos eCodec hd
  cases eCodec with
  | avc => exact getBlk_of_lt (by decide) (by decide) hd hlt
  | hevc =>
    have hn : blocks 64 d * 16 < 2 ^ 24 := hlt
    have hp : 0 < blocks 64 d * 16 := hpos
    have hblk : getBlk64x64 d = some (blocks 64 d) :=
      getBlk_of_lt (by decide) (by decide) hd (by omega)
    change (getBlk64x64 d).bind (fun n => checkInt32 (n * 16)) = _
    rw [hblk]
    exact checkInt32_eq_some.mpr ⟨⟨by omega, by omega⟩, rfl⟩

/-! ## Sizes -/

/-- The sizes without overflow, with the LCU size `k` of the chroma format. -/
def sizesOf (eCodec : Codec) (d : Dimension) (k : ℤ) : AllocSizes :=
  ⟨k * codecBlocks eCodec d, 16 * blocks 16 d,
    (match eCodec with | .hevc => 4 | .avc => 16) * codecBlocks eCodec d * 4⟩

theorem lcuCmpSize_ge {k : ℤ} (hk : (lcuCmpSize eCodec)[eChroma]? = some k) : 800 ≤ k := by
  have hmem := List.mem_of_getElem? hk
  have hall : ∀ k ∈ lcuCmpSize eCodec, 800 ≤ k := by
    cases eCodec <;> decide
  exact hall k hmem

theorem lcuCmpSize_mono {c c' : ℕ} {k k' : ℤ} (hle : c ≤ c') (hk : (lcuCmpSize eCodec)[c]? = some k)
    (hk' : (lcuCmpSize eCodec)[c']? = some k') : k ≤ k' := by
  have hsorted : (lcuCmpSize eCodec).Pairwise (· ≤ ·) := by
    cases eCodec <;> decide
  obtain ⟨hc, rfl⟩ := List.getElem?_eq_some_iff.mp hk
  obtain ⟨hc', rfl⟩ := List.getElem?_eq_some_iff.mp hk'
  rcases hle.eq_or_lt with rfl | hlt
  · exact le_rfl
  · exact List.pairwise_iff_getElem.mp hsorted c c' hc hc' hlt

theorem allocSizes_eq_some (hd : d.Pos) {p : AllocSizes} :
    allocSizes eCodec d eChroma = some p ↔
      ∃ k, (lcuCmpSize eCodec)[eChroma]? = some k ∧ k * codecBlocks eCodec d < 2 ^ 31 ∧
        p = sizesOf eCodec d k := by
  have hpos := codecBlocks_pos eCodec hd
  have hpos16 : 0 < blocks 16 d := blocks_pos (by decide) hd
  have hle16 := blocks_16_le_codecBlocks eCodec hd
  constructor
  · intro h
    obtain ⟨iSizeCompData, hdata, h⟩ := Option.bind_eq_some_iff.mp h
    obtain ⟨iSizeCompMap, hmap, h⟩ := Option.bind_eq_some_iff.mp h
    obtain ⟨iSizeMV, hmv, h⟩ := Option.bind_eq_some_iff.mp h
    obtain rfl := Option.some.inj h
    obtain ⟨n, hn, hdata⟩ := Option.bind_eq_some_iff.mp hdata
    obtain ⟨k, hk, hdata⟩ := Option.bind_eq_some_iff.mp hdata
    obtain ⟨n', hn', hmap⟩ := Option.bind_eq_some_iff.mp hmap
    obtain ⟨m, hm, hmv⟩ := Option.bind_eq_some_iff.mp hmv
    obtain ⟨v, hv, hmv⟩ := Option.bind_eq_some_iff.mp hmv
    obtain rfl := iBlk16x16_eq hd hn
    obtain rfl := iBlk16x16_eq hd hm
    obtain rfl := getBlk_eq_blocks (by decide) hd hn'
    obtain ⟨hfits, rfl⟩ := checkInt32_eq_some.mp hdata
    obtain ⟨-, rfl⟩ := checkInt32_eq_some.mp hmap
    obtain ⟨-, rfl⟩ := checkInt32_eq_some.mp hv
    obtain ⟨-, rfl⟩ := checkInt32_eq_some.mp hmv
    exact ⟨k, hk, hfits.2, rfl⟩
  · rintro ⟨k, hk, hlt, rfl⟩
    have h800 := lcuCmpSize_ge hk
    -- every size is below the one of the compressed data
    have hb : 800 * codecBlocks eCodec d ≤ k * codecBlocks eCodec d :=
      mul_le_mul_of_nonneg_right h800 hpos.le
    have hn : iBlk16x16 eCodec d = some (codecBlocks eCodec d) := iBlk16x16_of_lt hd (by omega)
    have hn16 : getBlk 16 d = some (blocks 16 d) :=
      getBlk_of_lt (by decide) (by decide) hd (by omega)
    have hdata : getAllocSizeCompData eCodec d eChroma = some (k * codecBlocks eCodec d) := by
      unfold getAllocSizeCompData
      rw [hn, hk]
      exact checkInt32_eq_some.mpr ⟨⟨by omega, hlt⟩, rfl⟩
    have hmap : getAllocSizeDecCompMap d = some (16 * blocks 16 d) := by
      unfold getAllocSizeDecCompMap getBlk16x16
      rw [hn16]
      exact checkInt32_eq_some.mpr ⟨⟨by omega, by omega⟩, rfl⟩
    have hmv : ∀ n : ℤ, 0 ≤ n → n ≤ 16 →
        (checkInt32 (n * codecBlocks eCodec d)).bind (fun v => checkInt32 (v * 4)) =
          some (n * codecBlocks eCodec d * 4) := by
      intro n h0 h16
      have hle : n * codecBlocks eCodec d ≤ 16 * codecBlocks eCodec d :=
        mul_le_mul_of_nonneg_right h16 hpos.le
      have hnonneg : 0 ≤ n * codecBlocks eCodec d := Int.mul_nonneg h0 hpos.le
      rw [checkInt32_eq_some.mpr ⟨⟨by omega, by omega⟩, rfl⟩]
      exact checkInt32_eq_some.mpr ⟨⟨by omega, by omega⟩, rfl⟩
    unfold allocSizes getAllocSizeMV
    rw [hdata, hmap, hn]
    simp only [Option.bind_eq_bind, Option.bind_some]
    rw [hmv _ (by cases eCodec <;> decide) (by cases eCodec <;> decide)]
    rfl

/-! ## Cropping -/

/-- The offsets of the window fit `int`, and so do the cropped sizes. -/
def SpsLimits.CropInRange (p : SpsLimits) : Prop :=
  let x := cropUnitX p.chroma_format_idc
  let y := cropUnitY p.chroma_format_idc
  p.window.flag = true →
    FitsInt32 (x * p.window.left) ∧ FitsInt32 (x * p.window.right) ∧
    FitsInt32 (y * p.window.top) ∧ FitsInt32 (y * p.window.bottom) ∧
    FitsInt32 (p.dim.iWidth - toInt32 (x * p.window.left + x * p.window.right)) ∧
    FitsInt32 (p.dim.iHeight - toInt32 (y * p.window.top + y * p.window.bottom))

theorem toInt32_toUInt32_add (x y : ℤ) : toInt32 (toUInt32 x + toUInt32 y) = toInt32 (x + y) := by
  unfold toInt32 toUInt32
  rw [Int.toNat_of_nonneg (Int.emod_nonneg x (by decide)), Int.toNat_of_nonneg (Int.emod_nonneg y (by decide))]
  have hx : x % 2 ^ 32 = x + 2 ^ 32 * -(x / 2 ^ 32) := by omega
  have hy : y % 2 ^ 32 = y + 2 ^ 32 * -(y / 2 ^ 32) := by omega
  have hsum : x % 2 ^ 32 + y % 2 ^ 32 = x + y + 2 ^ 32 * (-(x / 2 ^ 32) - y / 2 ^ 32) := by
    rw [hx, hy]
    ring
  rw [hsum]
  exact Int.add_mul_bmod_self_left _ _ _

theorem exceeds_eq {setting size crop : ℤ} (hset : 0 < setting) {b : Bool} :
    exceeds setting size crop = some b ↔ FitsInt32 (size - crop) ∧ decide (setting < size - crop) = b := by
  unfold exceeds
  rw [if_pos hset, Option.map_eq_some_iff]
  constructor
  · rintro ⟨cropped, hc, rfl⟩
    obtain ⟨hfits, rfl⟩ := checkInt32_eq_some.mp hc
    exact ⟨hfits, rfl⟩
  · rintro ⟨hfits, rfl⟩
    exact ⟨_, checkInt32_eq_some.mpr ⟨hfits, rfl⟩, rfl⟩

theorem extractCropInfo_eq {w : CropWindow} {c : ℕ} {crop : CropInfo} (h : extractCropInfo w c = some crop)
    (hflag : w.flag = true) :
    FitsInt32 (cropUnitX c * w.left) ∧ FitsInt32 (cropUnitX c * w.right) ∧
      FitsInt32 (cropUnitY c * w.top) ∧ FitsInt32 (cropUnitY c * w.bottom) ∧
      toInt32 (crop.uCropOffsetLeft + crop.uCropOffsetRight) =
        toInt32 (cropUnitX c * w.left + cropUnitX c * w.right) ∧
      toInt32 (crop.uCropOffsetTop + crop.uCropOffsetBottom) =
        toInt32 (cropUnitY c * w.top + cropUnitY c * w.bottom) := by
  unfold extractCropInfo at h
  rw [if_pos hflag] at h
  obtain ⟨left, hl, h⟩ := Option.bind_eq_some_iff.mp h
  obtain ⟨right, hr, h⟩ := Option.bind_eq_some_iff.mp h
  obtain ⟨top, ht, h⟩ := Option.bind_eq_some_iff.mp h
  obtain ⟨bottom, hb, h⟩ := Option.bind_eq_some_iff.mp h
  obtain ⟨hl', rfl⟩ := checkInt32_eq_some.mp hl
  obtain ⟨hr', rfl⟩ := checkInt32_eq_some.mp hr
  obtain ⟨ht', rfl⟩ := checkInt32_eq_some.mp ht
  obtain ⟨hb', rfl⟩ := checkInt32_eq_some.mp hb
  obtain rfl := Option.some.inj h
  exact ⟨hl', hr', ht', hb', toInt32_toUInt32_add _ _, toInt32_toUInt32_add _ _⟩

/-- The picture of an SPS has less than `2 ^ 21` lines and columns. -/
structure Dimension.Small (d : Dimension) : Prop extends d.Pos where
  width_lt : d.iWidth < 2 ^ 21
  height_lt : d.iHeight < 2 ^ 21

theorem Dimension.Small.fits (h : d.Small) : FitsInt32 d.iWidth ∧ FitsInt32 d.iHeight := by
  have := h.width
  have := h.height
  have := h.width_lt
  have := h.height_lt
  exact ⟨⟨by omega, by omega⟩, ⟨by omega, by omega⟩⟩

theorem AvcFormat.dim_small (pSPS : AvcFormat) : pSPS.limits.dim.Small := by
  have hw := pSPS.width_lt
  have hh := pSPS.height_lt
  refine ⟨⟨?_, ?_⟩, ?_, ?_⟩ <;> simp only [limits, extractDimension] <;> omega

theorem HevcFormat.dim_small (pSPS : HevcFormat) : pSPS.limits.dim.Small := by
  have hw := pSPS.width_lt
  have hh := pSPS.height_lt
  have hw0 := pSPS.window_width
  have hh0 := pSPS.window_height
  refine ⟨⟨?_, ?_⟩, ?_, ?_⟩ <;> simp only [limits] <;> omega

theorem SpsFormat.dim_small (pSPS : SpsFormat) : pSPS.limits.dim.Small := by
  cases pSPS with
  | avc pSPS => exact pSPS.dim_small
  | hevc pSPS => exact pSPS.dim_small

section Compatible

variable {p : SpsLimits} {s : StreamSettings}

/-- The comparison has a result where the cropping does not overflow. -/
theorem isCompatible_isSome (hd : p.dim.Small) (hs : s.tDim.Pos) (hc : p.CropInRange) :
    ∃ b, p.isCompatible s = some b := by
  obtain ⟨crop, hcrop, hw, hh⟩ : ∃ crop, extractCropInfo p.window p.chroma_format_idc = some crop ∧
      FitsInt32 (p.dim.iWidth - toInt32 (crop.uCropOffsetLeft + crop.uCropOffsetRight)) ∧
      FitsInt32 (p.dim.iHeight - toInt32 (crop.uCropOffsetTop + crop.uCropOffsetBottom)) := by
    cases hflag : p.window.flag with
    | false =>
      refine ⟨⟨false, 0, 0, 0, 0⟩, ?_, ?_, ?_⟩
      · unfold extractCropInfo
        rw [hflag]
        rfl
      · simpa using hd.fits.1
      · simpa using hd.fits.2
    | true =>
      obtain ⟨hl, hr, ht, hb, hw, hh⟩ := hc hflag
      refine ⟨⟨true, toUInt32 (cropUnitX p.chroma_format_idc * p.window.left),
        toUInt32 (cropUnitX p.chroma_format_idc * p.window.right),
        toUInt32 (cropUnitY p.chroma_format_idc * p.window.top),
        toUInt32 (cropUnitY p.chroma_format_idc * p.window.bottom)⟩, ?_, ?_⟩
      · unfold extractCropInfo
        rw [if_pos hflag, checkInt32_eq_some.mpr ⟨hl, rfl⟩, checkInt32_eq_some.mpr ⟨hr, rfl⟩,
          checkInt32_eq_some.mpr ⟨ht, rfl⟩, checkInt32_eq_some.mpr ⟨hb, rfl⟩]
        rfl
      · dsimp only
        rw [toInt32_toUInt32_add, toInt32_toUInt32_add]
        exact ⟨hw, hh⟩
  have hwide := (exceeds_eq hs.width).mpr ⟨hw, rfl⟩
  have hhigh := (exceeds_eq hs.height).mpr ⟨hh, rfl⟩
  unfold SpsLimits.isCompatible
  rw [hcrop]
  simp only [Option.bind_eq_bind, Option.bind_some, hwide, hhigh]
  -- every branch has a result
  simp only [← apply_ite some]
  exact ⟨_, rfl⟩

theorem isCompatible_true (hs : s.tDim.Pos) (h : p.isCompatible s = some true) :
    p.CropInRange ∧ (s.eChroma = chromaMaxEnum ∨ p.chroma_format_idc ≤ s.eChroma) := by
  unfold SpsLimits.isCompatible at h
  iterate 7
    split at h
    · exact absurd (Option.some.inj h) Bool.false_ne_true
  next hchroma =>
  obtain ⟨crop, hcrop, h⟩ := Option.bind_eq_some_iff.mp h
  obtain ⟨wide, hwide, h⟩ := Option.bind_eq_some_iff.mp h
  iterate 2
    split at h
    · exact absurd (Option.some.inj h) Bool.false_ne_true
  obtain ⟨high, hhigh, h⟩ := Option.bind_eq_some_iff.mp h
  obtain ⟨hw, -⟩ := (exceeds_eq hs.width).mp hwide
  obtain ⟨hh, -⟩ := (exceeds_eq hs.height).mp hhigh
  constructor
  · intro hflag
    obtain ⟨hl, hr, ht, hb, hx, hy⟩ := extractCropInfo_eq hcrop hflag
    exact ⟨hl, hr, ht, hb, hx ▸ hw, hy ▸ hh⟩
  · by_contra hc
    exact hchroma ⟨fun he => hc (.inl he), by omega⟩

end Compatible

/-! ## The pools -/

/-- The sizes fit: the dimensions do not overflow, the comparison has a result, and the
buffers of an accepted SPS are no larger than those that are allocated. -/
structure PoolsHold (pSPS : SpsFormat) (s : StreamSettings) : Prop where
  dimension : FitsInt32 pSPS.limits.dim.iWidth ∧ FitsInt32 pSPS.limits.dim.iHeight
  compared : ∃ b, isSPSCompatibleWithStreamSettings pSPS s = some b
  fits : isSPSCompatibleWithStreamSettings pSPS s = some true →
    ∃ pool needed, allocSizes pSPS.codec s.tDim s.eChroma = some pool ∧
      allocSizes pSPS.codec pSPS.limits.dim pSPS.limits.chroma_format_idc = some needed ∧
      needed.iSizeCompData ≤ pool.iSizeCompData ∧ needed.iSizeCompMap ≤ pool.iSizeCompMap ∧
      needed.iSizeMV ≤ pool.iSizeMV

/-- The condition: the SPS is rejected, or its cropping window does not overflow, the
settings have one of the chroma formats and less than `2 ^ 31` bytes of compressed data,
and the coded picture has no more blocks than the picture of the settings. -/
def CodedSizeFits (pSPS : SpsFormat) (s : StreamSettings) : Prop :=
  isSPSCompatibleWithStreamSettings pSPS s = some false ∨
    pSPS.limits.CropInRange ∧
    (∃ k ∈ (lcuCmpSize pSPS.codec)[s.eChroma]?, k * codecBlocks pSPS.codec s.tDim < 2 ^ 31) ∧
    blocks 16 pSPS.limits.dim ≤ blocks 16 s.tDim ∧
    codecBlocks pSPS.codec pSPS.limits.dim ≤ codecBlocks pSPS.codec s.tDim

/-- The buffers hold the pictures of an SPS that is accepted exactly if its coded size
has no more blocks than the settings. -/
theorem poolsHold_iff (pSPS : SpsFormat) (s : StreamSettings)
    (hs : s.Given ∨ ∃ first : SpsFormat, first.codec = pSPS.codec ∧ extractStreamSettings first = some s) :
    PoolsHold pSPS s ↔ CodedSizeFits pSPS s := by
  have hpos : s.tDim.Pos := by
    rcases hs with hs | ⟨first, -, hfirst⟩
    · exact ⟨hs.width.1, hs.height.1⟩
    · unfold extractStreamSettings at hfirst
      split at hfirst
      · obtain rfl := Option.some.inj hfirst
        exact first.dim_small.toPos
      · exact absurd hfirst (by simp)
  have hd := pSPS.dim_small
  constructor
  · intro h
    obtain ⟨b, hb⟩ := h.compared
    cases b with
    | false => exact .inl hb
    | true =>
      right
      obtain ⟨pool, needed, hpool, hneeded, -, hmap, hmv⟩ := h.fits hb
      obtain ⟨k, hk, hlt, rfl⟩ := (allocSizes_eq_some hpos).mp hpool
      obtain ⟨k', -, -, rfl⟩ := (allocSizes_eq_some hd.toPos).mp hneeded
      refine ⟨(isCompatible_true hpos hb).1, ⟨k, hk, hlt⟩, ?_, ?_⟩
      · simp only [sizesOf] at hmap
        omega
      · cases hcodec : pSPS.codec <;> rw [hcodec] at hmv <;> simp only [sizesOf] at hmv <;> omega
  · intro h
    refine ⟨hd.fits, ?_, ?_⟩
    · rcases h with h | ⟨hc, -⟩
      · exact ⟨false, h⟩
      · exact isCompatible_isSome hd hpos hc
    · intro htrue
      rcases h with h | ⟨-, ⟨k, hk, hlt⟩, hle16, hle⟩
      · rw [h] at htrue
        exact absurd (Option.some.inj htrue) Bool.false_ne_true
      have hk : (lcuCmpSize pSPS.codec)[s.eChroma]? = some k := hk
      have hlen : (lcuCmpSize pSPS.codec).length = chromaMaxEnum := by
        cases pSPS.codec <;> rfl
      obtain ⟨hi, -⟩ := List.getElem?_eq_some_iff.mp hk
      have hchroma : pSPS.limits.chroma_format_idc ≤ s.eChroma := by
        rcases (isCompatible_true hpos htrue).2 with he | hle
        · omega
        · exact hle
      have hk' := List.getElem?_eq_getElem (hchroma.trans_lt hi)
      have hkle := lcuCmpSize_mono hchroma hk' hk
      have hk800 := lcuCmpSize_ge hk'
      have hblocks := codecBlocks_pos pSPS.codec hd.toPos
      have hdata := mul_le_mul hkle hle hblocks.le (by omega : 0 ≤ k)
      refine ⟨sizesOf pSPS.codec s.tDim k, sizesOf pSPS.codec pSPS.limits.dim _,
        (allocSizes_eq_some hpos).mpr ⟨k, hk, hlt, rfl⟩,
        (allocSizes_eq_some hd.toPos).mpr ⟨_, hk', hdata.trans_lt hlt, rfl⟩, hdata, ?_, ?_⟩
      · simp only [sizesOf]
        omega
      · simp only [sizesOf]
        split <;> omega

theorem fitsInt32_zero : FitsInt32 0 := by decide

theorem fitsInt32_four : FitsInt32 4 := by decide

/-- 1920x1088 in 4:2:0. -/
def AvcFormat.fullHd : AvcFormat where
  profile_idc := 100
  constraint_set3_flag := false
  level_idc := 40
  chroma_format_idc := 1
  bit_depth_luma_minus8 := 0
  bit_depth_chroma_minus8 := 0
  pic_width_in_mbs_minus1 := 119
  pic_height_in_map_units_minus1 := 67
  frame_cropping_flag := true
  frame_crop_left_offset := 0
  frame_crop_right_offset := 0
  frame_crop_top_offset := 0
  frame_crop_bottom_offset := 4
  profile_lt := by decide
  level_lt := by decide
  chroma_lt := by decide
  luma_le := by decide
  chroma_le := by decide
  width_pos := by decide
  width_lt := by decide
  height_pos := by decide
  height_lt := by decide
  left_fits := fitsInt32_zero
  right_fits := fitsInt32_zero
  top_fits := fitsInt32_zero
  bottom_fits := fitsInt32_four

theorem fullHd_poolsHold :
    PoolsHold (.avc .fullHd) ⟨⟨1920, 1088⟩, 1, 8, 40, 100, .progressive⟩ := by
  apply (poolsHold_iff (.avc .fullHd) _ (.inr ⟨.avc .fullHd, rfl, by decide +kernel⟩)).mpr
  right
  refine ⟨?_, ⟨1120, rfl, by decide +kernel⟩, by decide +kernel, by decide +kernel⟩
  intro _
  decide +kernel

/-- 3840x2176, cropped to 1920x1088. -/
def AvcFormat.croppedUhd : AvcFormat :=
  { AvcFormat.fullHd with
    pic_width_in_mbs_minus1 := 239
    pic_height_in_map_units_minus1 := 135
    frame_crop_right_offset := 960
    frame_crop_bottom_offset := 544
    width_pos := by decide
    width_lt := by decide
    height_pos := by decide
    height_lt := by decide
    right_fits := by decide
    bottom_fits := by decide }

/-- The cropped picture is accepted, and its coded picture has four times the blocks. -/
theorem not_poolsHold :
    ¬ ∀ (pSPS : SpsFormat) (s : StreamSettings),
      (s.Given ∨ ∃ first : SpsFormat, first.codec = pSPS.codec ∧ extractStreamSettings first = some s) →
      PoolsHold pSPS s := by
  intro h
  have hgiven : StreamSettings.Given ⟨⟨1920, 1088⟩, 1, 8, 40, 100, .progressive⟩ :=
    ⟨by decide, by decide, by decide, by decide, by decide, by decide, by decide⟩
  have hhold := h (.avc .croppedUhd) _ (.inl hgiven)
  obtain ⟨pool, needed, hpool, hneeded, hle, -, -⟩ := hhold.fits (by decide +kernel)
  have hsizes : allocSizes .avc ⟨1920, 1088⟩ 1 = some ⟨9139200, 130560, 522240⟩ := by decide +kernel
  have hsizes' : allocSizes .avc ⟨3840, 2176⟩ 1 = some ⟨36556800, 522240, 2088960⟩ := by decide +kernel
  have he : pool = ⟨9139200, 130560, 522240⟩ := Option.some.inj (hpool.symm.trans hsizes)
  have he' : needed = ⟨36556800, 522240, 2088960⟩ := Option.some.inj (hneeded.symm.trans hsizes')
  rw [he, he'] at hle
  exact absurd hle (by decide)

end VcuCodec
