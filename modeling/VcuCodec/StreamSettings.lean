import VcuCodec.MachineInts
import VcuCodec.NalFlush
import Mathlib.Data.List.Basic
import Mathlib.Tactic.Linarith

/-!
# Stream settings and buffer sizes

`isSPSCompatibleWithStreamSettings` of `AvcDecoder.c` and `HevcDecoder.c`, the settings
that are taken from the first SPS, and the sizes of the buffers that are allocated from
the settings (`DecBuffers.c`).
-/

namespace VcuCodec

def hwIpBitDepth : ℕ := 10
def chromaMaxEnum : ℕ := 4
def coreAvcMinWidth : ℤ := 32
def coreHevcMinWidth : ℤ := 128

/-- `AL_TDimension` -/
structure Dimension where
  iWidth : ℤ
  iHeight : ℤ
  deriving DecidableEq

/-- `AL_ESequenceMode` -/
inductive SequenceMode
  | unknown
  | progressive
  | interlaced
  | maxEnum
  deriving DecidableEq

/-- `AL_TStreamSettings` -/
structure StreamSettings where
  tDim : Dimension
  eChroma : ℕ
  iBitDepth : ℤ
  iLevel : ℤ
  iProfileIdc : ℤ
  eSequenceMode : SequenceMode
  deriving DecidableEq

/-! ## The parameter sets -/

/-- What the settings depend on in an AVC SPS, within the types of its fields and the
checks of `AL_AVC_ParseSPS`. -/
structure AvcFormat where
  profile_idc : ℕ
  constraint_set3_flag : Bool
  level_idc : ℕ
  chroma_format_idc : ℕ
  bit_depth_luma_minus8 : ℕ
  bit_depth_chroma_minus8 : ℕ
  pic_width_in_mbs_minus1 : ℕ
  pic_height_in_map_units_minus1 : ℕ
  frame_cropping_flag : Bool
  frame_crop_left_offset : ℤ
  frame_crop_right_offset : ℤ
  frame_crop_top_offset : ℤ
  frame_crop_bottom_offset : ℤ
  profile_lt : profile_idc < 2 ^ 8
  level_lt : level_idc < 2 ^ 8
  chroma_lt : chroma_format_idc < 2 ^ 8
  luma_le : bit_depth_luma_minus8 ≤ 2
  chroma_le : bit_depth_chroma_minus8 ≤ 2
  width_pos : 1 ≤ pic_width_in_mbs_minus1
  width_lt : pic_width_in_mbs_minus1 < 2 ^ 16
  height_pos : 1 ≤ pic_height_in_map_units_minus1
  height_lt : pic_height_in_map_units_minus1 < 2 ^ 16
  left_fits : FitsInt32 frame_crop_left_offset
  right_fits : FitsInt32 frame_crop_right_offset
  top_fits : FitsInt32 frame_crop_top_offset
  bottom_fits : FitsInt32 frame_crop_bottom_offset

/-- What the settings depend on in an HEVC SPS, within the types of its fields and the
checks of `AL_HEVC_ParseSPS`. -/
structure HevcFormat where
  general_profile_idc : ℕ
  general_progressive_source_flag : Bool
  general_interlaced_source_flag : Bool
  general_frame_only_constraint_flag : Bool
  general_max_8bit_constraint_flag : Bool
  general_max_10bit_constraint_flag : Bool
  general_max_12bit_constraint_flag : Bool
  general_level_idc : ℕ
  chroma_format_idc : ℕ
  pic_width_in_luma_samples : ℕ
  pic_height_in_luma_samples : ℕ
  conformance_window_flag : Bool
  conf_win_left_offset : ℕ
  conf_win_right_offset : ℕ
  conf_win_top_offset : ℕ
  conf_win_bottom_offset : ℕ
  bit_depth_luma_minus8 : ℕ
  bit_depth_chroma_minus8 : ℕ
  Log2CtbSize : ℕ
  vui_parameters_present_flag : Bool
  field_seq_flag : Bool
  level_lt : 0 < general_level_idc ∧ general_level_idc < 2 ^ 8
  chroma_lt : chroma_format_idc < 2 ^ 8
  width_lt : pic_width_in_luma_samples < 2 ^ 16
  height_lt : pic_height_in_luma_samples < 2 ^ 16
  luma_le : bit_depth_luma_minus8 ≤ 2
  chroma_le : bit_depth_chroma_minus8 ≤ 2
  ctb_ge : 4 ≤ Log2CtbSize
  ctb_le : Log2CtbSize ≤ 6
  ctbs_wide : 1 < (pic_width_in_luma_samples + (2 ^ Log2CtbSize - 1)) / 2 ^ Log2CtbSize
  ctbs_high : 1 < (pic_height_in_luma_samples + (2 ^ Log2CtbSize - 1)) / 2 ^ Log2CtbSize
  -- offsets that leave nothing of the picture are parsed as 0
  window_width : conf_win_left_offset + conf_win_right_offset < pic_width_in_luma_samples
  window_height : conf_win_top_offset + conf_win_bottom_offset < pic_height_in_luma_samples

/-- `getMaxBitDepth` of both decoders; an odd depth goes up to the next even one. -/
def getMaxBitDepth (bit_depth_luma_minus8 bit_depth_chroma_minus8 profileBitDepth : ℕ) : ℕ :=
  let iMaxBitDepth := max (max (bit_depth_luma_minus8 + 8) (bit_depth_chroma_minus8 + 8)) profileBitDepth
  if iMaxBitDepth % 2 ≠ 0 then iMaxBitDepth + 1 else iMaxBitDepth

/-- `AL_TCropInfo` -/
structure CropInfo where
  bCropping : Bool
  uCropOffsetLeft : ℕ
  uCropOffsetRight : ℕ
  uCropOffsetTop : ℕ
  uCropOffsetBottom : ℕ

/-- The cropping window of an SPS. -/
structure CropWindow where
  flag : Bool
  left : ℤ
  right : ℤ
  top : ℤ
  bottom : ℤ

/-- The units of the horizontal and of the vertical offsets. -/
def cropUnitX (chroma_format_idc : ℕ) : ℤ := if chroma_format_idc = 1 ∨ chroma_format_idc = 2 then 2 else 1

def cropUnitY (chroma_format_idc : ℕ) : ℤ := if chroma_format_idc = 1 then 2 else 1

/-- `extractCropInfo` of both decoders; `none` is an overflow of `int`. -/
def extractCropInfo (w : CropWindow) (chroma_format_idc : ℕ) : Option CropInfo :=
  if w.flag then do
    let left ← checkInt32 (cropUnitX chroma_format_idc * w.left)
    let right ← checkInt32 (cropUnitX chroma_format_idc * w.right)
    let top ← checkInt32 (cropUnitY chroma_format_idc * w.top)
    let bottom ← checkInt32 (cropUnitY chroma_format_idc * w.bottom)
    return ⟨true, toUInt32 left, toUInt32 right, toUInt32 top, toUInt32 bottom⟩
  else some ⟨false, 0, 0, 0, 0⟩

/-- What the decoders read from an SPS to compare it with the settings. -/
structure SpsLimits where
  lumaBitDepth : ℕ
  chromaBitDepth : ℕ
  maxBitDepth : ℕ
  level : ℕ
  chroma_format_idc : ℕ
  window : CropWindow
  dim : Dimension
  minWidth : ℤ
  profile_idc : ℕ
  sequenceMode : SequenceMode

namespace AvcFormat

variable (pSPS : AvcFormat)

def extractDimension : Dimension :=
  ⟨(pSPS.pic_width_in_mbs_minus1 + 1) * 16, (pSPS.pic_height_in_map_units_minus1 + 1) * 16⟩

def getMaxBitDepthFromProfile : ℕ :=
  if pSPS.profile_idc ∈ [66, 77, 88, 100] then 8 else 10

def limits : SpsLimits where
  lumaBitDepth := pSPS.bit_depth_luma_minus8 + 8
  chromaBitDepth := pSPS.bit_depth_chroma_minus8 + 8
  maxBitDepth := getMaxBitDepth pSPS.bit_depth_luma_minus8 pSPS.bit_depth_chroma_minus8
    pSPS.getMaxBitDepthFromProfile
  level := if pSPS.constraint_set3_flag then 9 else pSPS.level_idc
  chroma_format_idc := pSPS.chroma_format_idc
  window := ⟨pSPS.frame_cropping_flag, pSPS.frame_crop_left_offset, pSPS.frame_crop_right_offset,
    pSPS.frame_crop_top_offset, pSPS.frame_crop_bottom_offset⟩
  dim := pSPS.extractDimension
  minWidth := coreAvcMinWidth
  profile_idc := pSPS.profile_idc
  sequenceMode := .progressive

end AvcFormat

namespace HevcFormat

variable (pSPS : HevcFormat)

def getMaxRextBitDepth : ℕ :=
  if pSPS.general_max_8bit_constraint_flag then 8
  else if pSPS.general_max_10bit_constraint_flag then 10
  else if pSPS.general_max_12bit_constraint_flag then 12
  else 16

def getMaxBitDepthFromProfile : ℕ :=
  if pSPS.general_profile_idc = 4 then pSPS.getMaxRextBitDepth
  else if pSPS.general_profile_idc = 1 then 8
  else if pSPS.general_profile_idc = 3 then 8
  else 10

def getSequenceMode : SequenceMode :=
  if pSPS.vui_parameters_present_flag && pSPS.field_seq_flag then .interlaced
  else if pSPS.general_frame_only_constraint_flag then .progressive
  else
    match pSPS.general_progressive_source_flag, pSPS.general_interlaced_source_flag with
    | false, false => .unknown
    | true, false => .progressive
    | false, true => .interlaced
    | true, true => .maxEnum

def limits : SpsLimits where
  lumaBitDepth := pSPS.bit_depth_luma_minus8 + 8
  chromaBitDepth := pSPS.bit_depth_chroma_minus8 + 8
  maxBitDepth := getMaxBitDepth pSPS.bit_depth_luma_minus8 pSPS.bit_depth_chroma_minus8
    pSPS.getMaxBitDepthFromProfile
  level := pSPS.general_level_idc / 3
  chroma_format_idc := pSPS.chroma_format_idc
  window := ⟨pSPS.conformance_window_flag, pSPS.conf_win_left_offset, pSPS.conf_win_right_offset,
    pSPS.conf_win_top_offset, pSPS.conf_win_bottom_offset⟩
  dim := ⟨pSPS.pic_width_in_luma_samples, pSPS.pic_height_in_luma_samples⟩
  minWidth := coreHevcMinWidth
  profile_idc := pSPS.general_profile_idc
  sequenceMode := pSPS.getSequenceMode

end HevcFormat

/-- A parameter set that its parser accepts. -/
inductive SpsFormat
  | avc (pSPS : AvcFormat)
  | hevc (pSPS : HevcFormat)

def SpsFormat.codec : SpsFormat → Codec
  | .avc _ => .avc
  | .hevc _ => .hevc

def SpsFormat.limits : SpsFormat → SpsLimits
  | .avc pSPS => pSPS.limits
  | .hevc pSPS => pSPS.limits

/-! ## The settings -/

/-- A size of the SPS is above the setting; it is compared only if the setting is there. -/
def exceeds (setting size crop : ℤ) : Option Bool :=
  if 0 < setting then (checkInt32 (size - crop)).map fun cropped => decide (setting < cropped)
  else some false

def sequenceModesDiffer (sps settings : SequenceMode) : Bool :=
  sps ≠ .unknown ∧ settings ≠ .maxEnum ∧ settings ≠ .unknown ∧ settings ≠ sps

/-- `isSPSCompatibleWithStreamSettings` of both decoders. -/
def SpsLimits.isCompatible (p : SpsLimits) (s : StreamSettings) : Option Bool :=
  if hwIpBitDepth < p.lumaBitDepth then some false
  else if 0 < s.iBitDepth ∧ s.iBitDepth < p.lumaBitDepth then some false
  else if hwIpBitDepth < p.chromaBitDepth then some false
  else if 0 < s.iBitDepth ∧ s.iBitDepth < p.chromaBitDepth then some false
  else if hwIpBitDepth < p.maxBitDepth then some false
  else if 0 < s.iLevel ∧ s.iLevel < p.level then some false
  else if s.eChroma ≠ chromaMaxEnum ∧ s.eChroma < p.chroma_format_idc then some false
  else do
    let crop ← extractCropInfo p.window p.chroma_format_idc
    let wide ← exceeds s.tDim.iWidth p.dim.iWidth (toInt32 (crop.uCropOffsetLeft + crop.uCropOffsetRight))
    if wide then some false
    else if 0 < s.tDim.iWidth ∧ p.dim.iWidth < p.minWidth then some false
    else do
      let high ← exceeds s.tDim.iHeight p.dim.iHeight
        (toInt32 (crop.uCropOffsetTop + crop.uCropOffsetBottom))
      if high then some false
      else if p.sequenceMode = .maxEnum then some false
      else some !(sequenceModesDiffer p.sequenceMode s.eSequenceMode)

def isSPSCompatibleWithStreamSettings (pSPS : SpsFormat) (s : StreamSettings) : Option Bool :=
  pSPS.limits.isCompatible s

/-- `extractStreamSettings` of both decoders; `none` is a failed assertion. -/
def extractStreamSettings (pSPS : SpsFormat) : Option StreamSettings :=
  if pSPS.limits.maxBitDepth ≤ hwIpBitDepth ∧ pSPS.limits.sequenceMode ≠ .maxEnum then
    some ⟨pSPS.limits.dim, pSPS.limits.chroma_format_idc, pSPS.limits.maxBitDepth, pSPS.limits.level,
      pSPS.limits.profile_idc, pSPS.limits.sequenceMode⟩
  else none

/-- Settings with which the buffers can be allocated at the creation of the decoder. -/
structure StreamSettings.Given (s : StreamSettings) : Prop where
  width : 0 < s.tDim.iWidth ∧ FitsInt32 s.tDim.iWidth
  height : 0 < s.tDim.iHeight ∧ FitsInt32 s.tDim.iHeight
  chroma : s.eChroma < chromaMaxEnum
  bitDepth : 0 < s.iBitDepth ∧ s.iBitDepth ≤ hwIpBitDepth
  level : 0 < s.iLevel
  profile : 0 < s.iProfileIdc
  sequenceMode : s.eSequenceMode ≠ .maxEnum

/-! ## The sizes -/

/-- `GetBlk64x64` and `GetBlk16x16`. -/
def getBlk (size : ℤ) (tDim : Dimension) : Option ℤ := do
  let iWidth ← checkInt32 (tDim.iWidth + (size - 1))
  let iHeight ← checkInt32 (tDim.iHeight + (size - 1))
  checkInt32 (iWidth.tdiv size * iHeight.tdiv size)

def getBlk64x64 (tDim : Dimension) : Option ℤ := getBlk 64 tDim

def getBlk16x16 (tDim : Dimension) : Option ℤ := getBlk 16 tDim

/-- `HEVC_LCU_CMP_SIZE` and `AVC_LCU_CMP_SIZE`. -/
def lcuCmpSize : Codec → List ℤ
  | .hevc => [832, 1088, 1344, 1856]
  | .avc => [800, 1120, 1408, 2016]

/-- The number of 16x16 blocks that the sizes are computed with. -/
def iBlk16x16 : Codec → Dimension → Option ℤ
  | .hevc, tDim => do checkInt32 ((← getBlk64x64 tDim) * 16)
  | .avc, tDim => getBlk16x16 tDim

/-- `AL_GetAllocSize_HevcCompData` and `AL_GetAllocSize_AvcCompData`. -/
def getAllocSizeCompData (eCodec : Codec) (tDim : Dimension) (eChromaMode : ℕ) : Option ℤ := do
  let blocks ← iBlk16x16 eCodec tDim
  let size ← (lcuCmpSize eCodec)[eChromaMode]?
  checkInt32 (size * blocks)

/-- `AL_GetAllocSize_DecCompMap` -/
def getAllocSizeDecCompMap (tDim : Dimension) : Option ℤ := do
  checkInt32 (16 * (← getBlk16x16 tDim))

/-- `AL_GetAllocSize_HevcMV` and `AL_GetAllocSize_AvcMV`. -/
def getAllocSizeMV (eCodec : Codec) (tDim : Dimension) : Option ℤ := do
  let iNumBlk ← iBlk16x16 eCodec tDim
  let vectors ← checkInt32 ((match eCodec with | .hevc => 4 | .avc => 16) * iNumBlk)
  checkInt32 (vectors * 4)

/-- The sizes that `allocateBuffers` computes. -/
structure AllocSizes where
  iSizeCompData : ℤ
  iSizeCompMap : ℤ
  iSizeMV : ℤ
  deriving DecidableEq

def allocSizes (eCodec : Codec) (tDim : Dimension) (eChroma : ℕ) : Option AllocSizes := do
  let iSizeCompData ← getAllocSizeCompData eCodec tDim eChroma
  let iSizeCompMap ← getAllocSizeDecCompMap tDim
  let iSizeMV ← getAllocSizeMV eCodec tDim
  return ⟨iSizeCompData, iSizeCompMap, iSizeMV⟩

end VcuCodec
