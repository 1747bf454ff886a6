import VcuCodec.StreamSettings

/-!
# The cropping window of the encoder

The encoder codes whole blocks and writes a cropping window in its SPS
(`AL_AVC_GenerateSPS_Resolution`, `AL_HEVC_GenerateSPS_Format`); the decoder takes the
window from the SPS again.  The decoder shows the picture that was asked for, except
where a size does not fit in its 16-bit field any more.
-/

namespace VcuCodec

/-! ## One direction -/

/-- The coded size: whole blocks of `unit` samples. -/
def wholeBlocks (size unit : ℕ) : ℕ := (size + unit - 1) / unit * unit

theorem le_wholeBlocks (size : ℕ) {unit : ℕ} (hunit : 0 < unit) : size ≤ wholeBlocks size unit := by
  have hdiv := Nat.div_add_mod (size + unit - 1) unit
  have hmod := Nat.mod_lt (size + unit - 1) hunit
  rw [Nat.mul_comm] at hdiv
  unfold wholeBlocks
  omega

theorem wholeBlocks_lt (size : ℕ) {unit : ℕ} (hunit : 0 < unit) :
    wholeBlocks size unit < size + unit := by
  have hle := Nat.div_mul_le_self (size + unit - 1) unit
  unfold wholeBlocks
  omega

variable {size unit : ℕ} {crop : ℤ}

theorem crop_padding (hunit : crop ∣ unit) (hsize : crop ∣ size) :
    crop * ((wholeBlocks size unit - size : ℤ).tdiv crop) = wholeBlocks size unit - size := by
  have hcoded : crop ∣ (wholeBlocks size unit : ℤ) := by
    unfold wholeBlocks
    rw [Nat.cast_mul]
    exact Dvd.dvd.mul_left hunit _
  exact Int.mul_tdiv_cancel' (Int.dvd_sub hcoded hsize)

/-! ## The constraints -/

/-- `AL_EChromaMode`. -/
inductive ChromaMode
  | mono
  | c420
  | c422
  | c444
  deriving DecidableEq

/-- `chroma_format_idc`. -/
def ChromaMode.idc : ChromaMode → ℕ
  | .mono => 0
  | .c420 => 1
  | .c422 => 2
  | .c444 => 3

/-- `ECheckResolutionError`. -/
inductive CheckResolutionError
  | ok
  | widthChroma
  | heightChroma
  deriving DecidableEq

/-- `AL_ParamConstraints_CheckResolution`. -/
def checkResolution (eChromaMode : ChromaMode) (uWidth uHeight : ℕ) : CheckResolutionError :=
  if uWidth % 2 ≠ 0 ∧ (eChromaMode = .c420 ∨ eChromaMode = .c422) then .widthChroma
  else if uHeight % 2 ≠ 0 ∧ eChromaMode = .c420 then .heightChroma
  else .ok

variable {eChromaMode : ChromaMode}

theorem checkResolution_eq_ok {uWidth uHeight : ℕ} :
    checkResolution eChromaMode uWidth uHeight = .ok ↔
      (eChromaMode = .c420 ∨ eChromaMode = .c422 → 2 ∣ uWidth) ∧
        (eChromaMode = .c420 → 2 ∣ uHeight) := by
  unfold checkResolution
  rw [Nat.dvd_iff_mod_eq_zero, Nat.dvd_iff_mod_eq_zero]
  split_ifs with hwidth hheight
  · exact iff_of_false (by decide) fun h => hwidth.1 (h.1 hwidth.2)
  · exact iff_of_false (by decide) fun h => hheight.1 (h.2 hheight.2)
  · apply iff_of_true rfl
    constructor
    · intro hmode
      by_contra hodd
      exact hwidth ⟨hodd, hmode⟩
    · intro hmode
      by_contra hodd
      exact hheight ⟨hodd, hmode⟩

theorem cropUnitX_dvd {n : ℕ} (h : eChromaMode = .c420 ∨ eChromaMode = .c422 → 2 ∣ n) :
    cropUnitX eChromaMode.idc ∣ (n : ℤ) := by
  cases eChromaMode with
  | mono => exact one_dvd _
  | c420 => exact Int.natCast_dvd_natCast.mpr (h (.inl rfl))
  | c422 => exact Int.natCast_dvd_natCast.mpr (h (.inr rfl))
  | c444 => exact one_dvd _

theorem cropUnitY_dvd {n : ℕ} (h : eChromaMode = .c420 → 2 ∣ n) :
    cropUnitY eChromaMode.idc ∣ (n : ℤ) := by
  cases eChromaMode with
  | mono => exact one_dvd _
  | c420 => exact Int.natCast_dvd_natCast.mpr (h rfl)
  | c422 => exact one_dvd _
  | c444 => exact one_dvd _

/-- The size and the blocks of an `AL_TEncChanParam`. -/
structure ChannelFormat where
  eCodec : Codec
  eChromaMode : ChromaMode
  uSrcWidth : ℕ
  uSrcHeight : ℕ
  uEncWidth : ℕ
  uEncHeight : ℕ
  uMaxCuSize : ℕ
  uMinCuSize : ℕ
  uNumCore : ℕ
  width_lt : uEncWidth < 2 ^ 16
  height_lt : uEncHeight < 2 ^ 16

def minCuSize : ℕ := 3

/-- `AVC_MAX_CU_SIZE` and `HEVC_MIN_CTB_SIZE`. -/
def Codec.maxCuSize : Codec → ℕ
  | .avc => 4
  | .hevc => 5

/-- `offset` behind the last core; each core begins at a multiple of 64 samples. -/
def coreOffset (minWidth : ℕ) : ℕ → ℕ
  | 0 => 0
  | numCore + 1 => wholeBlocks (coreOffset minWidth numCore) 64 + minWidth

/-- `AL_Constraint_NumCoreIsSane`, for the `maxCuSize` that passes its own check. -/
def numCoreIsSane (width numCore maxCuSize : ℕ) : Bool :=
  let ctbSize := 2 ^ maxCuSize
  let minCtbPerCore := 9 - maxCuSize
  let widthPerCoreInCtb := (width / numCore + ctbSize - 1) / ctbSize
  minCtbPerCore ≤ widthPerCoreInCtb ∧
    coreOffset (minCtbPerCore * ctbSize) numCore ≤ wholeBlocks width ctbSize

namespace ChannelFormat

variable (pChParam : ChannelFormat)

/-- The checks of `AL_Settings_CheckValidity` on the size, the chroma format and the
blocks, one for each error that is counted. -/
def checks : List Bool :=
  [pChParam.eChromaMode ≠ .c444,
    pChParam.uSrcWidth = pChParam.uEncWidth ∧ pChParam.uSrcHeight = pChParam.uEncHeight,
    pChParam.uMinCuSize = minCuSize,
    pChParam.uMaxCuSize = pChParam.eCodec.maxCuSize,
    pChParam.uNumCore = 0 ∨ numCoreIsSane pChParam.uEncWidth pChParam.uNumCore pChParam.uMaxCuSize,
    pChParam.uNumCore = 0 ∨ pChParam.eCodec ≠ .hevc ∨ 256 * pChParam.uNumCore ≤ pChParam.uEncWidth,
    2 ^ pChParam.uMaxCuSize < pChParam.uEncHeight,
    checkResolution pChParam.eChromaMode pChParam.uEncWidth pChParam.uEncHeight = .ok]

/-- The number of errors. -/
def checkValidity : ℕ := pChParam.checks.count false

/-- What a channel has before and after a change of its resolution, which is checked by
`AL_ParamConstraints_CheckResolution` only. -/
structure Accepted : Prop where
  chroma : pChParam.eChromaMode ≠ .c444
  maxCu : pChParam.uMaxCuSize = pChParam.eCodec.maxCuSize
  resolution : checkResolution pChParam.eChromaMode pChParam.uEncWidth pChParam.uEncHeight = .ok

variable {pChParam}

end ChannelFormat

/-! ## The parameter sets -/

/-- A value that is stored in a `uint16_t`. -/
def storedUInt16 (x : ℤ) : ℕ := (x % 2 ^ 16).toNat

/-- `iCropUnitX` and `iCropUnitY` of the encoder. -/
def ChromaMode.iCropUnitX (eChromaMode : ChromaMode) : ℤ :=
  if eChromaMode = .c420 ∨ eChromaMode = .c422 then 2 else 1

def ChromaMode.iCropUnitY (eChromaMode : ChromaMode) : ℤ := if eChromaMode = .c420 then 2 else 1

/-- The fields of `AL_TAvcSps` on the size of the picture. -/
structure AvcSpsSize where
  chromaFormatIdc : ℕ
  picWidthInMbsMinus1 : ℕ
  picHeightInMapUnitsMinus1 : ℕ
  frameCroppingFlag : Bool
  frameCropLeftOffset : ℤ
  frameCropRightOffset : ℤ
  frameCropTopOffset : ℤ
  frameCropBottomOffset : ℤ

/-- `AL_AVC_GenerateSPS_Resolution`, without the aspect ratio. -/
def AvcSpsSize.generateResolution (pSPS : AvcSpsSize) (uWidth uHeight uMaxCuSize : ℕ)
    (eChromaMode : ChromaMode) : AvcSpsSize :=
  let iMBWidth := (uWidth + 2 ^ uMaxCuSize - 1) / 2 ^ uMaxCuSize
  let iMBHeight := (uHeight + 2 ^ uMaxCuSize - 1) / 2 ^ uMaxCuSize
  let iWidthDiff : ℤ := (iMBWidth * 2 ^ uMaxCuSize : ℕ) - uWidth
  let iHeightDiff : ℤ := (iMBHeight * 2 ^ uMaxCuSize : ℕ) - uHeight
  let right := iWidthDiff.tdiv eChromaMode.iCropUnitX
  let bottom := iHeightDiff.tdiv eChromaMode.iCropUnitY
  { pSPS with
    picWidthInMbsMinus1 := storedUInt16 (iMBWidth - 1)
    picHeightInMapUnitsMinus1 := storedUInt16 (iMBHeight - 1)
    frameCropLeftOffset := 0
    frameCropRightOffset := right
    frameCropTopOffset := 0
    frameCropBottomOffset := bottom
    frameCroppingFlag := 0 < right ∨ 0 < bottom }

/-- `AL_AVC_GenerateSPS`: the chroma format and the size. -/
def AvcSpsSize.generate (pSPS : AvcSpsSize) (pChannel : ChannelFormat) : AvcSpsSize :=
  let pSPS := { pSPS with chromaFormatIdc := pChannel.eChromaMode.idc }
  pSPS.generateResolution pChannel.uEncWidth pChannel.uEncHeight pChannel.uMaxCuSize
    pChannel.eChromaMode

/-- The fields of `AL_THevcSps` on the format of the picture. -/
structure HevcSpsSize where
  updateRepFormatFlag : ℕ
  chromaFormatIdc : ℕ
  separateColourPlaneFlag : ℕ
  picWidthInLumaSamples : ℕ
  picHeightInLumaSamples : ℕ
  conformanceWindowFlag : Bool
  confWinLeftOffset : ℕ
  confWinRightOffset : ℕ
  confWinTopOffset : ℕ
  confWinBottomOffset : ℕ
  bitDepthLumaMinus8 : ℕ
  bitDepthChromaMinus8 : ℕ

/-- `AL_HEVC_GenerateSPS_Format`.  The offsets stay as they were without a window. -/
def HevcSpsSize.generateFormat (pSPS : HevcSpsSize) (eChromaMode : ChromaMode)
    (uBdLuma uBdChroma uWidth uHeight : ℕ) (bMultiLayerExtSpsFlag : Bool) : HevcSpsSize :=
  if bMultiLayerExtSpsFlag then { pSPS with updateRepFormatFlag := 0 }
  else
    let width := storedUInt16 (wholeBlocks uWidth 8)
    let height := storedUInt16 (wholeBlocks uHeight 8)
    let window : Bool := width ≠ uWidth ∨ height ≠ uHeight
    let iWidthDiff : ℤ := (width : ℤ) - uWidth
    let iHeightDiff : ℤ := (height : ℤ) - uHeight
    { pSPS with
      chromaFormatIdc := eChromaMode.idc
      separateColourPlaneFlag := 0
      picWidthInLumaSamples := width
      picHeightInLumaSamples := height
      conformanceWindowFlag := window
      confWinLeftOffset := if window then 0 else pSPS.confWinLeftOffset
      confWinRightOffset :=
        if window then storedUInt16 (iWidthDiff.tdiv eChromaMode.iCropUnitX)
        else pSPS.confWinRightOffset
      confWinTopOffset := if window then 0 else pSPS.confWinTopOffset
      confWinBottomOffset :=
        if window then storedUInt16 (iHeightDiff.tdiv eChromaMode.iCropUnitY)
        else pSPS.confWinBottomOffset
      bitDepthLumaMinus8 := ((uBdLuma - 8 : ℤ) % 2 ^ 8).toNat
      bitDepthChromaMinus8 := ((uBdChroma - 8 : ℤ) % 2 ^ 8).toNat }

/-! ## The decoder -/

/-- `extractDimension` of `AvcDecoder.c`. -/
def AvcSpsSize.extractDimension (pSPS : AvcSpsSize) : Dimension :=
  ⟨(pSPS.picWidthInMbsMinus1 + 1) * 16, (pSPS.picHeightInMapUnitsMinus1 + 1) * 16⟩

def AvcSpsSize.window (pSPS : AvcSpsSize) : CropWindow :=
  ⟨pSPS.frameCroppingFlag, pSPS.frameCropLeftOffset, pSPS.frameCropRightOffset,
    pSPS.frameCropTopOffset, pSPS.frameCropBottomOffset⟩

def HevcSpsSize.dimension (pSPS : HevcSpsSize) : Dimension :=
  ⟨pSPS.picWidthInLumaSamples, pSPS.picHeightInLumaSamples⟩

/-- The window that `AL_HEVC_ParseSPS` keeps: offsets that leave nothing of the picture are
taken as 0. -/
def HevcSpsSize.window (pSPS : HevcSpsSize) : CropWindow :=
  let high : Bool := pSPS.confWinBottomOffset + pSPS.confWinTopOffset < pSPS.picHeightInLumaSamples
  let wide : Bool := pSPS.confWinLeftOffset + pSPS.confWinRightOffset < pSPS.picWidthInLumaSamples
  ⟨pSPS.conformanceWindowFlag, if wide then pSPS.confWinLeftOffset else 0,
    if wide then pSPS.confWinRightOffset else 0, if high then pSPS.confWinTopOffset else 0,
    if high then pSPS.confWinBottomOffset else 0⟩

/-- A coded size of whole blocks, of which exactly the requested picture is shown, at the
top left. -/
structure ShowsPicture (coded : Dimension) (crop : CropInfo) (unit width height : ℕ) : Prop where
  codedWidth : coded.iWidth = wholeBlocks width unit
  codedHeight : coded.iHeight = wholeBlocks height unit
  left : crop.uCropOffsetLeft = 0
  top : crop.uCropOffsetTop = 0
  width : coded.iWidth - crop.uCropOffsetLeft - crop.uCropOffsetRight = width
  height : coded.iHeight - crop.uCropOffsetTop - crop.uCropOffsetBottom = height

/-- The decoder extracts a window that shows the requested picture. -/
def WindowShows (coded : Dimension) (window : CropWindow) (chromaFormatIdc unit width height : ℕ) :
    Prop :=
  ∃ crop, extractCropInfo window chromaFormatIdc = some crop ∧
    ShowsPicture coded crop unit width height

theorem checkInt32_padding {x : ℤ} (hunit : 0 < unit) (hsmall : unit ≤ 16)
    (hx : x = wholeBlocks size unit - size) :
    checkInt32 x = some x ∧ (toUInt32 x : ℤ) = wholeBlocks size unit - size := by
  have hle := le_wholeBlocks size hunit
  have hlt := wholeBlocks_lt size hunit
  have hfits : FitsInt32 x := ⟨by omega, by omega⟩
  exact ⟨if_pos hfits, (toUInt32_of_fits (by omega) hfits).trans hx⟩

/-- A window with the padding at its right and at its bottom. -/
theorem windowShows_of_padding {coded : Dimension} {window : CropWindow}
    {idc unit width height : ℕ} (hunit : 0 < unit) (hsmall : unit ≤ 16)
    (hwidth : coded.iWidth = wholeBlocks width unit)
    (hheight : coded.iHeight = wholeBlocks height unit)
    (hleft : window.flag = true → window.left = 0 ∧ window.top = 0)
    (hright : window.flag = true → cropUnitX idc * window.right = wholeBlocks width unit - width)
    (hbottom : window.flag = true →
      cropUnitY idc * window.bottom = wholeBlocks height unit - height)
    (hplain : window.flag = false →
      wholeBlocks width unit = width ∧ wholeBlocks height unit = height) :
    WindowShows coded window idc unit width height := by
  unfold WindowShows extractCropInfo
  cases hflag : window.flag with
  | false =>
    obtain ⟨hw, hh⟩ := hplain hflag
    refine ⟨⟨false, 0, 0, 0, 0⟩, rfl, hwidth, hheight, rfl, rfl, ?_, ?_⟩
    · rw [hwidth, hw]
      exact Int.sub_zero _
    · rw [hheight, hh]
      exact Int.sub_zero _
  | true =>
    obtain ⟨hl, ht⟩ := hleft hflag
    obtain ⟨hcheckR, hpadR⟩ := checkInt32_padding hunit hsmall (hright hflag)
    obtain ⟨hcheckB, hpadB⟩ := checkInt32_padding hunit hsmall (hbottom hflag)
    have hzero : checkInt32 0 = some 0 := by decide
    refine ⟨⟨true, 0, toUInt32 (cropUnitX idc * window.right), 0,
      toUInt32 (cropUnitY idc * window.bottom)⟩, ?_, hwidth, hheight, rfl, rfl, ?_, ?_⟩
    · rw [if_pos rfl, hl, ht, Int.mul_zero, Int.mul_zero, hcheckR, hcheckB, hzero]
      rfl
    · rw [hwidth, hpadR]
      push_cast
      ring
    · rw [hheight, hpadB]
      push_cast
      ring

/-! ## AVC -/

theorem iCropUnitX_eq (eChromaMode : ChromaMode) :
    eChromaMode.iCropUnitX = cropUnitX eChromaMode.idc := by cases eChromaMode <;> rfl

theorem iCropUnitY_eq (eChromaMode : ChromaMode) :
    eChromaMode.iCropUnitY = cropUnitY eChromaMode.idc := by cases eChromaMode <;> rfl

theorem macroblocks_eq_iff {size : ℕ} (h : size < 2 ^ 16) :
    ((storedUInt16 (((size + 2 ^ 4 - 1) / 2 ^ 4 : ℕ) - 1) + 1 : ℤ) * 16 = wholeBlocks size 16) ↔
      0 < size := by
  unfold storedUInt16 wholeBlocks
  omega

theorem cropUnitX_pos (idc : ℕ) : 0 < cropUnitX idc := by unfold cropUnitX; split <;> decide

theorem cropUnitY_pos (idc : ℕ) : 0 < cropUnitY idc := by unfold cropUnitY; split <;> decide

/-- The offset of a direction, in crop units. -/
def padding (size unit : ℕ) (crop : ℤ) : ℤ := (wholeBlocks size unit - size : ℤ).tdiv crop

theorem padding_bounds (hpos : 0 < unit) (hcrop : 0 < crop)
    (hunit : crop ∣ unit) (hsize : crop ∣ size) :
    0 ≤ padding size unit crop ∧ padding size unit crop ≤ wholeBlocks size unit - size := by
  have hpad : crop * padding size unit crop = _ := crop_padding hunit hsize
  have hle := le_wholeBlocks size hpos
  have hnonneg : 0 ≤ padding size unit crop := by
    by_contra hneg
    have := mul_neg_of_pos_of_neg hcrop (not_le.mp hneg)
    omega
  rw [← hpad]
  exact ⟨hnonneg, le_mul_of_one_le_left hnonneg hcrop⟩

theorem wholeBlocks_eq_of_padding (hpos : 0 < unit)
    (hunit : crop ∣ unit) (hsize : crop ∣ size) (h : ¬0 < padding size unit crop) (hcrop : 0 < crop) :
    wholeBlocks size unit = size := by
  have hpad : crop * padding size unit crop = _ := crop_padding hunit hsize
  have hle := le_wholeBlocks size hpos
  have hneg : crop * padding size unit crop ≤ 0 :=
    mul_nonpos_of_nonneg_of_nonpos hcrop.le (not_lt.mp h)
  omega

namespace AvcSpsSize

variable (pSPS : AvcSpsSize) {pChannel : ChannelFormat}

theorem generate_window (hcu : pChannel.uMaxCuSize = 4) :
    let right := padding pChannel.uEncWidth 16 (cropUnitX pChannel.eChromaMode.idc)
    let bottom := padding pChannel.uEncHeight 16 (cropUnitY pChannel.eChromaMode.idc)
    (pSPS.generate pChannel).window = ⟨0 < right ∨ 0 < bottom, 0, right, 0, bottom⟩ := by
  simp only [window, generate, generateResolution, hcu, iCropUnitX_eq, iCropUnitY_eq]
  rfl

/-- The decoder shows the picture unless a size is 0, which wraps in its field. -/
theorem windowShows_iff (h : pChannel.Accepted) (hcodec : pChannel.eCodec = .avc) :
    WindowShows (pSPS.generate pChannel).extractDimension (pSPS.generate pChannel).window
        (pSPS.generate pChannel).chromaFormatIdc 16 pChannel.uEncWidth pChannel.uEncHeight ↔
      0 < pChannel.uEncWidth ∧ 0 < pChannel.uEncHeight := by
  have hcu : pChannel.uMaxCuSize = 4 := by rw [h.maxCu, hcodec]; rfl
  obtain ⟨hevenX, hevenY⟩ := checkResolution_eq_ok.mp h.resolution
  have hmbX := macroblocks_eq_iff pChannel.width_lt
  have hmbY := macroblocks_eq_iff pChannel.height_lt
  have hunitX : cropUnitX pChannel.eChromaMode.idc ∣ ((16 : ℕ) : ℤ) :=
    cropUnitX_dvd fun _ => ⟨8, rfl⟩
  have hunitY : cropUnitY pChannel.eChromaMode.idc ∣ ((16 : ℕ) : ℤ) :=
    cropUnitY_dvd fun _ => ⟨8, rfl⟩
  constructor
  · rintro ⟨crop, -, hshows⟩
    have hwidth := hshows.codedWidth
    have hheight := hshows.codedHeight
    simp only [extractDimension, generate, generateResolution, hcu] at hwidth hheight
    exact ⟨hmbX.mp hwidth, hmbY.mp hheight⟩
  · rintro ⟨hposX, hposY⟩
    apply windowShows_of_padding (by decide) le_rfl
    · simpa only [extractDimension, generate, generateResolution, hcu] using hmbX.mpr hposX
    · simpa only [extractDimension, generate, generateResolution, hcu] using hmbY.mpr hposY
    · rw [generate_window pSPS hcu]
      exact fun _ => ⟨rfl, rfl⟩
    · rw [generate_window pSPS hcu]
      exact fun _ => crop_padding hunitX (cropUnitX_dvd hevenX)
    · rw [generate_window pSPS hcu]
      exact fun _ => crop_padding hunitY (cropUnitY_dvd hevenY)
    · rw [generate_window pSPS hcu]
      intro hplain
      have hnone := of_decide_eq_false hplain
      push Not at hnone
      constructor
      · apply wholeBlocks_eq_of_padding (by decide) hunitX (cropUnitX_dvd hevenX)
          (not_lt.mpr hnone.1) (cropUnitX_pos _)
      · apply wholeBlocks_eq_of_padding (by decide) hunitY (cropUnitY_dvd hevenY)
          (not_lt.mpr hnone.2) (cropUnitY_pos _)

end AvcSpsSize

/-! ## HEVC -/

theorem samples_eq_iff {size : ℕ} (h : size < 2 ^ 16) :
    storedUInt16 (wholeBlocks size 8) = wholeBlocks size 8 ↔ size ≤ 2 ^ 16 - 8 := by
  unfold storedUInt16 wholeBlocks
  omega

namespace HevcSpsSize

variable (pSPS : HevcSpsSize) {pChannel : ChannelFormat} {uBdLuma uBdChroma : ℕ}

/-- `AL_HEVC_GenerateSPS` of the base layer. -/
def generate (pSPS : HevcSpsSize) (pChannel : ChannelFormat) (uBdLuma uBdChroma : ℕ) : HevcSpsSize :=
  pSPS.generateFormat pChannel.eChromaMode uBdLuma uBdChroma pChannel.uEncWidth pChannel.uEncHeight
    false

theorem kept_padding {size : ℕ} {crop : ℤ} (hcrop : 0 < crop) (hunit : crop ∣ (8 : ℕ))
    (hsize : crop ∣ size) :
    (if storedUInt16 (padding size 8 crop) < wholeBlocks size 8 then
      (storedUInt16 (padding size 8 crop) : ℤ) else 0) = padding size 8 crop := by
  obtain ⟨hnonneg, hbound⟩ := padding_bounds (by decide) hcrop hunit hsize
  have hle := @le_wholeBlocks size 8 (by decide)
  have hlt := @wholeBlocks_lt size 8 (by decide)
  have hwhole : wholeBlocks size 8 % 8 = 0 := Nat.mul_mod_left _ _
  have hstored : (storedUInt16 (padding size 8 crop) : ℤ) = padding size 8 crop := by
    unfold storedUInt16
    rw [Int.emod_eq_of_lt hnonneg (by omega), Int.toNat_of_nonneg hnonneg]
  split <;> omega

theorem generate_flag (hwidth : pChannel.uEncWidth ≤ 2 ^ 16 - 8)
    (hheight : pChannel.uEncHeight ≤ 2 ^ 16 - 8) :
    (pSPS.generate pChannel uBdLuma uBdChroma).window.flag = true ↔
      wholeBlocks pChannel.uEncWidth 8 ≠ pChannel.uEncWidth ∨
        wholeBlocks pChannel.uEncHeight 8 ≠ pChannel.uEncHeight := by
  have hX := (samples_eq_iff pChannel.width_lt).mpr hwidth
  have hY := (samples_eq_iff pChannel.height_lt).mpr hheight
  simp only [window, generate, generateFormat, hX, hY, if_false, Bool.false_eq_true,
    decide_eq_true_iff]

theorem generate_window (h : pChannel.Accepted) (hwidth : pChannel.uEncWidth ≤ 2 ^ 16 - 8)
    (hheight : pChannel.uEncHeight ≤ 2 ^ 16 - 8)
    (hflag : (pSPS.generate pChannel uBdLuma uBdChroma).window.flag = true) :
    (pSPS.generate pChannel uBdLuma uBdChroma).window =
      ⟨true, 0, padding pChannel.uEncWidth 8 (cropUnitX pChannel.eChromaMode.idc), 0,
        padding pChannel.uEncHeight 8 (cropUnitY pChannel.eChromaMode.idc)⟩ := by
  have hX := (samples_eq_iff pChannel.width_lt).mpr hwidth
  have hY := (samples_eq_iff pChannel.height_lt).mpr hheight
  obtain ⟨hevenX, hevenY⟩ := checkResolution_eq_ok.mp h.resolution
  have hkeptX := kept_padding (cropUnitX_pos _) (cropUnitX_dvd fun _ => ⟨4, rfl⟩)
    (cropUnitX_dvd hevenX)
  have hkeptY := kept_padding (cropUnitY_pos _) (cropUnitY_dvd fun _ => ⟨4, rfl⟩)
    (cropUnitY_dvd hevenY)
  have hdiffer := (generate_flag pSPS hwidth hheight).mp hflag
  simp only [window, generate, generateFormat, hX, hY, if_false, Bool.false_eq_true,
    decide_eq_true hdiffer, if_true, iCropUnitX_eq, iCropUnitY_eq, decide_eq_true_iff, Nat.zero_add,
    Nat.add_zero, Nat.cast_zero, ite_self]
  exact (CropWindow.mk.injEq ..).mpr ⟨rfl, rfl, hkeptX, rfl, hkeptY⟩

/-- The decoder shows the picture unless a size wraps when it is rounded up. -/
theorem windowShows_iff (h : pChannel.Accepted) :
    WindowShows (pSPS.generate pChannel uBdLuma uBdChroma).dimension
        (pSPS.generate pChannel uBdLuma uBdChroma).window
        (pSPS.generate pChannel uBdLuma uBdChroma).chromaFormatIdc 8 pChannel.uEncWidth
        pChannel.uEncHeight ↔
      pChannel.uEncWidth ≤ 2 ^ 16 - 8 ∧ pChannel.uEncHeight ≤ 2 ^ 16 - 8 := by
  have hsamplesX := samples_eq_iff pChannel.width_lt
  have hsamplesY := samples_eq_iff pChannel.height_lt
  obtain ⟨hevenX, hevenY⟩ := checkResolution_eq_ok.mp h.resolution
  constructor
  · rintro ⟨crop, -, hshows⟩
    exact ⟨hsamplesX.mp (Int.ofNat.inj hshows.codedWidth),
      hsamplesY.mp (Int.ofNat.inj hshows.codedHeight)⟩
  · rintro ⟨hwidth, hheight⟩
    have hwindow := @generate_window pSPS pChannel uBdLuma uBdChroma h hwidth hheight
    apply windowShows_of_padding (by decide) (by decide)
    · exact congrArg Int.ofNat (hsamplesX.mpr hwidth)
    · exact congrArg Int.ofNat (hsamplesY.mpr hheight)
    · intro hflag
      rw [hwindow hflag]
      exact ⟨rfl, rfl⟩
    · intro hflag
      rw [hwindow hflag]
      exact crop_padding (cropUnitX_dvd fun _ => ⟨4, rfl⟩) (cropUnitX_dvd hevenX)
    · intro hflag
      rw [hwindow hflag]
      exact crop_padding (cropUnitY_dvd fun _ => ⟨4, rfl⟩) (cropUnitY_dvd hevenY)
    · intro hplain
      have hsame := mt (generate_flag pSPS hwidth hheight).mpr (ne_true_of_eq_false hplain)
      push Not at hsame
      exact hsame

end HevcSpsSize

/-! ## The syntax -/

namespace SyntaxElement

def flag (b : Bool) : SyntaxElement := ⟨.u 1, if b then 1 else 0⟩

theorem flag_ok (b : Bool) : (flag b).Valid ∧ (flag b).Written := by cases b <;> decide

theorem ue_ok {x : ℤ} (h0 : 0 ≤ x) (h : x < 2 ^ 16) :
    (⟨.ue, x⟩ : SyntaxElement).Valid ∧ (⟨.ue, x⟩ : SyntaxElement).Written := by
  refine ⟨⟨h0, ?_⟩, ?_⟩
  · change x ≤ 2 ^ 32 - 2
    omega
  · change x < 2 ^ 31 - 1
    omega

end SyntaxElement

theorem storedUInt16_lt (x : ℤ) : storedUInt16 x < 2 ^ 16 := by
  unfold storedUInt16
  omega

theorem ChromaMode.idc_lt (eChromaMode : ChromaMode) : eChromaMode.idc < 4 := by
  cases eChromaMode <;> decide

open SyntaxElement in
/-- The size and the window as `writeSpsData` of `AVC_RbspEncod.c` writes them, with the two
flags in between, which are 1. -/
def AvcSpsSize.elements (pSPS : AvcSpsSize) : List SyntaxElement :=
  [⟨.ue, pSPS.picWidthInMbsMinus1⟩, ⟨.ue, pSPS.picHeightInMapUnitsMinus1⟩, flag true, flag true,
    flag pSPS.frameCroppingFlag] ++
    if pSPS.frameCroppingFlag then
      [⟨.ue, pSPS.frameCropLeftOffset⟩, ⟨.ue, pSPS.frameCropRightOffset⟩,
        ⟨.ue, pSPS.frameCropTopOffset⟩, ⟨.ue, pSPS.frameCropBottomOffset⟩]
    else []

open SyntaxElement in
/-- The format as `writeSpsData` of `HEVC_RbspEncod.c` writes it. -/
def HevcSpsSize.elements (pSPS : HevcSpsSize) : List SyntaxElement :=
  [⟨.ue, pSPS.chromaFormatIdc⟩, ⟨.ue, pSPS.picWidthInLumaSamples⟩,
    ⟨.ue, pSPS.picHeightInLumaSamples⟩, flag pSPS.conformanceWindowFlag] ++
    if pSPS.conformanceWindowFlag then
      [⟨.ue, pSPS.confWinLeftOffset⟩, ⟨.ue, pSPS.confWinRightOffset⟩, ⟨.ue, pSPS.confWinTopOffset⟩,
        ⟨.ue, pSPS.confWinBottomOffset⟩]
    else []

/-- Offsets and sizes that fit in 16 bits are written and read. -/
theorem AvcSpsSize.elements_ok {pSPS : AvcSpsSize} (hwidth : pSPS.picWidthInMbsMinus1 < 2 ^ 16)
    (hheight : pSPS.picHeightInMapUnitsMinus1 < 2 ^ 16)
    (hleft : 0 ≤ pSPS.frameCropLeftOffset ∧ pSPS.frameCropLeftOffset < 2 ^ 16)
    (hright : 0 ≤ pSPS.frameCropRightOffset ∧ pSPS.frameCropRightOffset < 2 ^ 16)
    (htop : 0 ≤ pSPS.frameCropTopOffset ∧ pSPS.frameCropTopOffset < 2 ^ 16)
    (hbottom : 0 ≤ pSPS.frameCropBottomOffset ∧ pSPS.frameCropBottomOffset < 2 ^ 16) :
    ∀ e ∈ pSPS.elements, e.Valid ∧ e.Written := by
  have hflags := SyntaxElement.flag_ok
  have hX := SyntaxElement.ue_ok (Int.natCast_nonneg pSPS.picWidthInMbsMinus1) (by exact_mod_cast hwidth)
  have hY := SyntaxElement.ue_ok (Int.natCast_nonneg pSPS.picHeightInMapUnitsMinus1) (by exact_mod_cast hheight)
  have hl := SyntaxElement.ue_ok hleft.1 hleft.2
  have hr := SyntaxElement.ue_ok hright.1 hright.2
  have ht := SyntaxElement.ue_ok htop.1 htop.2
  have hb := SyntaxElement.ue_ok hbottom.1 hbottom.2
  unfold elements
  rw [List.forall_mem_append]
  constructor
  · simp only [List.forall_mem_cons, hX, hY, hflags, and_self, true_and]
    exact List.forall_mem_nil _
  · split
    · simp only [List.forall_mem_cons, hl, hr, ht, hb, and_self, true_and]
      exact List.forall_mem_nil _
    · exact List.forall_mem_nil _

theorem HevcSpsSize.elements_ok {pSPS : HevcSpsSize} (hchroma : pSPS.chromaFormatIdc < 2 ^ 16)
    (hwidth : pSPS.picWidthInLumaSamples < 2 ^ 16) (hheight : pSPS.picHeightInLumaSamples < 2 ^ 16)
    (hwindow : pSPS.conformanceWindowFlag = true →
      (pSPS.confWinLeftOffset < 2 ^ 16 ∧ pSPS.confWinRightOffset < 2 ^ 16) ∧
        pSPS.confWinTopOffset < 2 ^ 16 ∧ pSPS.confWinBottomOffset < 2 ^ 16) :
    ∀ e ∈ pSPS.elements, e.Valid ∧ e.Written := by
  have hflags := SyntaxElement.flag_ok
  have hue : ∀ n : ℕ, n < 2 ^ 16 → (⟨.ue, n⟩ : SyntaxElement).Valid ∧ (⟨.ue, n⟩ : SyntaxElement).Written :=
    fun n hn => SyntaxElement.ue_ok (Int.natCast_nonneg n) (by exact_mod_cast hn)
  unfold elements
  rw [List.forall_mem_append]
  constructor
  · simp only [List.forall_mem_cons, hue _ hchroma, hue _ hwidth, hue _ hheight, hflags, and_self,
      true_and]
    exact List.forall_mem_nil _
  · split
    · next hflag =>
      obtain ⟨⟨hleft, hright⟩, htop, hbottom⟩ := hwindow hflag
      simp only [List.forall_mem_cons, hue _ hleft, hue _ hright, hue _ htop, hue _ hbottom,
        and_self, true_and]
      exact List.forall_mem_nil _
    · exact List.forall_mem_nil _

variable {pre : List SyntaxElement} {pBuf : ℕ → UInt8}

/-- The decoder reads the size and the window that the encoder has written. -/
theorem AvcSpsSize.elements_roundTrip (pSPS : AvcSpsSize) {pChannel : ChannelFormat}
    (h : pChannel.Accepted) (hcodec : pChannel.eCodec = .avc) {iMaxSize : ℕ}
    (hpre : ∀ e ∈ pre, e.Valid ∧ e.Written) (hmax : (SyntaxElement.codes pre).length +
      (SyntaxElement.codes (pSPS.generate pChannel).elements).length + 8 ≤ 8 * iMaxSize)
    (hint : 8 * iMaxSize < 2 ^ 31) :
    SyntaxElement.RoundTrips pBuf iMaxSize pre (pSPS.generate pChannel).elements := by
  have hcu : pChannel.uMaxCuSize = 4 := by rw [h.maxCu, hcodec]; rfl
  obtain ⟨hevenX, hevenY⟩ := checkResolution_eq_ok.mp h.resolution
  have hbound : ∀ (size : ℕ) {crop : ℤ}, 0 < crop → crop ∣ ((16 : ℕ) : ℤ) → crop ∣ (size : ℤ) →
      0 ≤ padding size 16 crop ∧ padding size 16 crop < 2 ^ 16 := by
    intro size crop hcrop hunit hsize
    obtain ⟨hlo, hhi⟩ := padding_bounds (by decide) hcrop hunit hsize
    have hlt := @wholeBlocks_lt size 16 (by decide)
    omega
  have hwindow := generate_window pSPS hcu
  have hright : (pSPS.generate pChannel).frameCropRightOffset = _ := congrArg CropWindow.right hwindow
  have hbottom : (pSPS.generate pChannel).frameCropBottomOffset = _ :=
    congrArg CropWindow.bottom hwindow
  have hok : ∀ e ∈ (pSPS.generate pChannel).elements, e.Valid ∧ e.Written := by
    have hzero : (0 : ℤ) ≤ 0 ∧ (0 : ℤ) < 2 ^ 16 := by decide
    apply elements_ok (storedUInt16_lt _) (storedUInt16_lt _) hzero _ hzero
    · rw [hbottom]
      exact hbound _ (cropUnitY_pos _) (cropUnitY_dvd fun _ => ⟨8, rfl⟩) (cropUnitY_dvd hevenY)
    · rw [hright]
      exact hbound _ (cropUnitX_pos _) (cropUnitX_dvd fun _ => ⟨8, rfl⟩) (cropUnitX_dvd hevenX)
  exact (SyntaxElement.roundTrips_iff hpre (fun e he => (hok e he).1) hmax hint).mpr
    fun e he => (hok e he).2

theorem HevcSpsSize.elements_roundTrip (pSPS : HevcSpsSize) (pChannel : ChannelFormat)
    (uBdLuma uBdChroma : ℕ) {iMaxSize : ℕ} (hpre : ∀ e ∈ pre, e.Valid ∧ e.Written)
    (hmax : (SyntaxElement.codes pre).length +
      (SyntaxElement.codes (pSPS.generate pChannel uBdLuma uBdChroma).elements).length + 8 ≤
        8 * iMaxSize) (hint : 8 * iMaxSize < 2 ^ 31) :
    SyntaxElement.RoundTrips pBuf iMaxSize pre (pSPS.generate pChannel uBdLuma uBdChroma).elements := by
  have hok : ∀ e ∈ (pSPS.generate pChannel uBdLuma uBdChroma).elements, e.Valid ∧ e.Written := by
    have hidc := pChannel.eChromaMode.idc_lt
    have hlt := storedUInt16_lt
    apply elements_ok
    · exact hidc.trans (by decide)
    · exact hlt (wholeBlocks pChannel.uEncWidth 8)
    · exact hlt (wholeBlocks pChannel.uEncHeight 8)
    intro hflag
    simp only [generate, generateFormat, if_false, Bool.false_eq_true] at hflag ⊢
    simp only [hflag, if_true]
    exact ⟨⟨by decide, storedUInt16_lt _⟩, by decide, storedUInt16_lt _⟩
  exact (SyntaxElement.roundTrips_iff hpre (fun e he => (hok e he).1) hmax hint).mpr
    fun e he => (hok e he).2

/-- The size and the window in the SPS of the channel. -/
def ChannelFormat.sizeElements (pChannel : ChannelFormat) (avc : AvcSpsSize) (hevc : HevcSpsSize)
    (uBdLuma uBdChroma : ℕ) : List SyntaxElement :=
  match pChannel.eCodec with
  | .avc => (avc.generate pChannel).elements
  | .hevc => (hevc.generate pChannel uBdLuma uBdChroma).elements

/-- For every channel that is accepted the decoder reads the size and the window that the
encoder has written, wherever they are in the SPS. -/
theorem ChannelFormat.sizeElements_read {pChannel : ChannelFormat} (h : pChannel.Accepted)
    (avc : AvcSpsSize) (hevc : HevcSpsSize) (uBdLuma uBdChroma : ℕ) {iMaxSize : ℕ}
    (hpre : ∀ e ∈ pre, e.Valid ∧ e.Written) (hmax : (SyntaxElement.codes pre).length +
      (SyntaxElement.codes (pChannel.sizeElements avc hevc uBdLuma uBdChroma)).length + 8 ≤ 8 * iMaxSize)
    (hint : 8 * iMaxSize < 2 ^ 31) :
    SyntaxElement.RoundTrips pBuf iMaxSize pre (pChannel.sizeElements avc hevc uBdLuma uBdChroma) := by
  unfold sizeElements at hmax ⊢
  cases hcodec : pChannel.eCodec with
  | avc =>
    rw [hcodec] at hmax
    exact avc.elements_roundTrip h hcodec hpre hmax hint
  | hevc =>
    rw [hcodec] at hmax
    exact hevc.elements_roundTrip pChannel uBdLuma uBdChroma hpre hmax hint

/-! ## Both codecs -/

/-- What the encoder writes for a channel shows the picture of the channel, whatever its
parameter sets were before. -/
def ChannelFormat.PictureShown (pChannel : ChannelFormat) (avc : AvcSpsSize) (hevc : HevcSpsSize)
    (uBdLuma uBdChroma : ℕ) : Prop :=
  match pChannel.eCodec with
  | .avc =>
    let pSPS := avc.generate pChannel
    WindowShows pSPS.extractDimension pSPS.window pSPS.chromaFormatIdc 16 pChannel.uEncWidth
      pChannel.uEncHeight
  | .hevc =>
    let pSPS := hevc.generate pChannel uBdLuma uBdChroma
    WindowShows pSPS.dimension pSPS.window pSPS.chromaFormatIdc 8 pChannel.uEncWidth
      pChannel.uEncHeight

/-- The sizes whose coded sizes have a place in the parameter set. -/
def ChannelFormat.SizesFit (pChannel : ChannelFormat) : Prop :=
  match pChannel.eCodec with
  | .avc => 0 < pChannel.uEncWidth ∧ 0 < pChannel.uEncHeight
  | .hevc => pChannel.uEncWidth ≤ 2 ^ 16 - 8 ∧ pChannel.uEncHeight ≤ 2 ^ 16 - 8

theorem ChannelFormat.pictureShown_iff {pChannel : ChannelFormat} (h : pChannel.Accepted)
    (avc : AvcSpsSize) (hevc : HevcSpsSize) (uBdLuma uBdChroma : ℕ) :
    pChannel.PictureShown avc hevc uBdLuma uBdChroma ↔ pChannel.SizesFit := by
  unfold PictureShown SizesFit
  cases hcodec : pChannel.eCodec with
  | avc => exact avc.windowShows_iff h hcodec
  | hevc => exact hevc.windowShows_iff h

/-- Pictures of 1920 by 1080 samples in 4:2:0. -/
def ChannelFormat.fullHd : ChannelFormat where
  eCodec := .hevc
  eChromaMode := .c420
  uSrcWidth := 1920
  uSrcHeight := 1080
  uEncWidth := 1920
  uEncHeight := 1080
  uMaxCuSize := 5
  uMinCuSize := 3
  uNumCore := 1
  width_lt := by decide
  height_lt := by decide

/-- The coded size 0 of a picture that is 65530 samples wide. -/
def ChannelFormat.widest : ChannelFormat :=
  { ChannelFormat.fullHd with
    uSrcWidth := 65530, uEncWidth := 65530, width_lt := by decide }

def AvcSpsSize.cleared : AvcSpsSize := ⟨0, 0, 0, false, 0, 0, 0, 0⟩

def HevcSpsSize.cleared : HevcSpsSize := ⟨0, 0, 0, 0, 0, false, 0, 0, 0, 0, 0, 0⟩

theorem ChannelFormat.sizeElements_read_fullHd : SyntaxElement.RoundTrips (fun _ => 0) 40 [⟨.u 8, 1⟩]
    (ChannelFormat.fullHd.sizeElements .cleared .cleared 8 8) :=
  ChannelFormat.sizeElements_read ⟨by decide, rfl, rfl⟩ .cleared .cleared 8 8 (by decide +kernel)
    (by decide +kernel) (by decide)

theorem ChannelFormat.pictureShown_fullHd :
    ChannelFormat.fullHd.PictureShown .cleared .cleared 8 8 ↔ ChannelFormat.fullHd.SizesFit :=
  ChannelFormat.pictureShown_iff ⟨by decide, rfl, rfl⟩ _ _ _ _

theorem ChannelFormat.not_pictureShown : ¬∀ (pChannel : ChannelFormat) (avc : AvcSpsSize)
    (hevc : HevcSpsSize) (uBdLuma uBdChroma : ℕ), pChannel.checkValidity = 0 →
      pChannel.PictureShown avc hevc uBdLuma uBdChroma := by
  intro hall
  obtain ⟨crop, -, hshows⟩ := hall .widest .cleared .cleared 8 8 (by decide)
  exact absurd hshows.codedWidth (by decide)

end VcuCodec
