import VcuCodec.AvcSyntax
import VcuCodec.RbspSteps

/-!
# The AVC slice header

`AL_AVC_ParseSliceHeader` of `lib_parsing/SliceHdrParsing.c`.  The arrays of the
header are vectors of their sizes in `SliceHeader.h`, and every access to one of
them, or to the table of picture parameter sets, is checked.
-/

namespace VcuCodec

open CheckedRuns Checked Parse

def clip3 (iVal iMin iMax : ℤ) : ℤ := if iVal < iMin then iMin else if iMax < iVal then iMax else iVal

/-! ## What is read of the parameter sets -/

/-- The fields of `AL_TAvcSps` that the slice header is parsed with. -/
structure AvcSpsSyntax extends AvcSps where
  chromaFormatIdc : ℕ
  deltaPicOrderAlwaysZeroFlag : ℕ
  picWidthInMbsMinus1 : ℕ
  picHeightInMapUnitsMinus1 : ℕ
  frameMbsOnlyFlag : ℕ
  bConceal : Bool

def avcMaxRefIdx : ℕ := 15

/-- The fields of `AL_TAvcPps` that the slice header is parsed with.  A set that
is not concealed has been parsed, with the numbers of references clipped. -/
structure AvcPpsSyntax where
  entropyCodingModeFlag : ℕ
  bottomFieldPicOrderInFramePresentFlag : ℕ
  numSliceGroupsMinus1 : ℤ
  sliceGroupMapType : ℕ
  numRefIdxL0ActiveMinus1 : ℕ
  numRefIdxL1ActiveMinus1 : ℕ
  weightedPredFlag : ℕ
  weightedBipredIdc : ℕ
  deblockingFilterControlPresentFlag : ℕ
  redundantPicCntPresentFlag : ℕ
  pSPS : Option AvcSpsSyntax
  bConceal : Bool
  numRefIdxL0_le : numRefIdxL0ActiveMinus1 ≤ avcMaxRefIdx
  numRefIdxL1_le : numRefIdxL1ActiveMinus1 ≤ avcMaxRefIdx
  hasSps : bConceal = false → pSPS.isSome = true

def avcMaxPps : ℕ := 256

abbrev AvcPpsTable : Type := Vector AvcPpsSyntax avcMaxPps

/-- `AL_TConceal` of an AVC decoder: the last parameter set is one of the table. -/
structure AvcConceal where
  bHasPPS : Bool
  bValidFrame : Bool
  iLastPPSId : ℤ
  iActivePPS : ℤ
  iFirstLCU : ℤ
  lastPPSId_mem : bHasPPS = true → 0 ≤ iLastPPSId ∧ iLastPPSId < avcMaxPps

/-- The sets of a stream of progressive pictures of 8 by 8 macroblocks. -/
def AvcSpsSyntax.plain : AvcSpsSyntax where
  log2MaxFrameNumMinus4 := 0
  picOrderCntType := 0
  log2MaxPicOrderCntLsbMinus4 := 0
  offsetForNonRefPic := 0
  offsetForTopToBottomField := 0
  offsetForRefFrame := []
  maxNumRefFrames := 1
  gapsInFrameNumValueAllowedFlag := false
  chromaFormatIdc := 1
  deltaPicOrderAlwaysZeroFlag := 0
  picWidthInMbsMinus1 := 7
  picHeightInMapUnitsMinus1 := 7
  frameMbsOnlyFlag := 1
  bConceal := false

def AvcPpsSyntax.plain : AvcPpsSyntax where
  entropyCodingModeFlag := 0
  bottomFieldPicOrderInFramePresentFlag := 0
  numSliceGroupsMinus1 := 0
  sliceGroupMapType := 0
  numRefIdxL0ActiveMinus1 := 0
  numRefIdxL1ActiveMinus1 := 0
  weightedPredFlag := 0
  weightedBipredIdc := 0
  deblockingFilterControlPresentFlag := 0
  redundantPicCntPresentFlag := 0
  pSPS := some .plain
  bConceal := false
  numRefIdxL0_le := by decide
  numRefIdxL1_le := by decide
  hasSps _ := rfl

/-- The first slice of a frame behind the parameter set 0. -/
def AvcConceal.firstSlice : AvcConceal where
  bHasPPS := true
  bValidFrame := false
  iLastPPSId := 0
  iActivePPS := -1
  iFirstLCU := -1
  lastPPSId_mem _ := by decide

/-! ## The header -/

/-- `AL_TWPCoeff`. -/
structure WPCoeff where
  lumaWeightFlag : Vector ℕ 16
  lumaDeltaWeight : Vector ℤ 16
  lumaOffset : Vector ℤ 16
  chromaWeightFlag : Vector ℕ 16
  chromaDeltaWeight : Vector (ℤ × ℤ) 16
  chromaOffset : Vector (ℤ × ℤ) 16

def avcMaxReferencePictureReorder : ℕ := 17

/-- The reordering commands of one reference picture list. -/
structure RefPicListReordering where
  refPicListReorderingFlag : ℕ
  reorderingOfPicNumsIdc : Vector ℤ avcMaxReferencePictureReorder
  absDiffPicNumMinus1 : Vector ℤ avcMaxReferencePictureReorder
  longTermPicNum : Vector ℤ avcMaxReferencePictureReorder

/-- The size of the arrays of memory-management operations. -/
def mmcoSize : ℕ := 32

/-- The arrays of memory-management operations. -/
structure DecRefPicMarking where
  memoryManagementControlOperation : Vector ℕ mmcoSize
  differenceOfPicNumsMinus1 : Vector ℤ mmcoSize
  longTermPicNum : Vector ℤ mmcoSize
  longTermFrameIdx : Vector ℤ mmcoSize
  maxLongTermFrameIdxPlus1 : Vector ℤ mmcoSize

/-- `AL_TAvcSliceHdr`. -/
structure AvcSliceSyntax where
  firstMbInSlice : ℤ
  sliceType : ℕ
  picParameterSetId : ℕ
  fieldPicFlag : ℕ
  frameNum : ℕ
  redundantPicCnt : ℤ
  idrPicId : ℤ
  picOrderCntLsb : ℕ
  deltaPicOrderCntBottom : ℤ
  deltaPicOrderCnt : ℤ × ℤ
  bottomFieldFlag : ℕ
  nalRefIdc : ℕ
  directSpatialMvPredFlag : ℕ
  numRefIdxActiveOverrideFlag : ℕ
  numRefIdxL0ActiveMinus1 : ℤ
  numRefIdxL1ActiveMinus1 : ℤ
  l0 : RefPicListReordering
  l1 : RefPicListReordering
  lumaLog2WeightDenom : ℤ
  chromaLog2WeightDenom : ℤ
  tWpCoeff0 : WPCoeff
  tWpCoeff1 : WPCoeff
  marking : DecRefPicMarking
  noOutputOfPriorPicsFlag : ℕ
  longTermReferenceFlag : ℕ
  adaptiveRefPicMarkingModeFlag : ℕ
  cabacInitIdc : ℤ
  sliceQpDelta : ℤ
  disableDeblockingFilterIdc : ℕ
  nalUnitType : ℕ
  sliceAlphaC0OffsetDiv2 : ℤ
  sliceBetaOffsetDiv2 : ℤ
  pPPS : Option AvcPpsSyntax
  pSPS : Option AvcSpsSyntax

/-- The header that `Rtos_Memset` has cleared. -/
def AvcSliceSyntax.cleared : AvcSliceSyntax where
  firstMbInSlice := 0
  sliceType := 0
  picParameterSetId := 0
  fieldPicFlag := 0
  frameNum := 0
  redundantPicCnt := 0
  idrPicId := 0
  picOrderCntLsb := 0
  deltaPicOrderCntBottom := 0
  deltaPicOrderCnt := (0, 0)
  bottomFieldFlag := 0
  nalRefIdc := 0
  directSpatialMvPredFlag := 0
  numRefIdxActiveOverrideFlag := 0
  numRefIdxL0ActiveMinus1 := 0
  numRefIdxL1ActiveMinus1 := 0
  l0 := ⟨0, .replicate _ 0, .replicate _ 0, .replicate _ 0⟩
  l1 := ⟨0, .replicate _ 0, .replicate _ 0, .replicate _ 0⟩
  lumaLog2WeightDenom := 0
  chromaLog2WeightDenom := 0
  tWpCoeff0 := ⟨.replicate _ 0, .replicate _ 0, .replicate _ 0, .replicate _ 0, .replicate _ 0,
    .replicate _ 0⟩
  tWpCoeff1 := ⟨.replicate _ 0, .replicate _ 0, .replicate _ 0, .replicate _ 0, .replicate _ 0,
    .replicate _ 0⟩
  marking := ⟨.replicate _ 0, .replicate _ 0, .replicate _ 0, .replicate _ 0, .replicate _ 0⟩
  noOutputOfPriorPicsFlag := 0
  longTermReferenceFlag := 0
  adaptiveRefPicMarkingModeFlag := 0
  cabacInitIdc := 0
  sliceQpDelta := 0
  disableDeblockingFilterIdc := 0
  nalUnitType := 0
  sliceAlphaC0OffsetDiv2 := 0
  sliceBetaOffsetDiv2 := 0
  pPPS := none
  pSPS := none

/-- What the function leaves: `AL_Assert(0)` returns nothing. -/
structure AvcSliceResult where
  ret : Option Bool
  slice : AvcSliceSyntax
  conceal : AvcConceal

def sliceB : ℕ := 0
def sliceP : ℕ := 1
def sliceI : ℕ := 2
def sliceSI : ℕ := 4

def avcSliceType : Vector ℕ 5 := #v[1, 0, 2, 3, 4]

def avcMaxSliceType : ℕ := 9

/-! ## Prediction weights -/

def maxWpDenom : ℤ := 7

/-- `Clip3(se(pRP), -128, 127)`. -/
def readWeight : Parse ℤ := do
  let v ← se
  return clip3 v (-128) 127

/-- One round of `AL_AVC_sReadWPCoeff`. -/
def readWPCoeffAt (chromaFormatIdc : ℕ) (i : ℕ) (c : WPCoeff) : Parse WPCoeff := do
  let lumaFlag ← u 1
  let lumaWeightFlag ← writeAt c.lumaWeightFlag i lumaFlag
  let lumaDelta ← readIf (lumaFlag ≠ 0) readWeight 0
  let lumaDeltaWeight ← writeAt c.lumaDeltaWeight i lumaDelta
  let luma ← readIf (lumaFlag ≠ 0) readWeight 0
  let lumaOffset ← writeAt c.lumaOffset i luma
  let c := { c with lumaWeightFlag, lumaDeltaWeight, lumaOffset }
  if chromaFormatIdc = 0 then return c
  let chromaFlag ← u 1
  let chromaWeightFlag ← writeAt c.chromaWeightFlag i chromaFlag
  let delta0 ← readIf (chromaFlag ≠ 0) readWeight 0
  let offset0 ← readIf (chromaFlag ≠ 0) readWeight 0
  let delta1 ← readIf (chromaFlag ≠ 0) readWeight 0
  let offset1 ← readIf (chromaFlag ≠ 0) readWeight 0
  let chromaDeltaWeight ← writeAt c.chromaDeltaWeight i (delta0, delta1)
  let chromaOffset ← writeAt c.chromaOffset i (offset0, offset1)
  return { c with chromaWeightFlag, chromaDeltaWeight, chromaOffset }

/-- `AL_AVC_sReadWPCoeff`; the counter and its bound are `uint8_t`. -/
def readWPCoeff (chromaFormatIdc : ℕ) (numRefIdxActiveMinus1 : ℤ) (c : WPCoeff) : Parse WPCoeff :=
  forBelow ((numRefIdxActiveMinus1 % 256).toNat + 1) c (readWPCoeffAt chromaFormatIdc)

namespace AvcSliceSyntax

/-- `AL_AVC_spred_weight_table`. -/
def predWeightTable (slice : AvcSliceSyntax) (chromaFormatIdc : ℕ) : Parse AvcSliceSyntax := do
  let luma ← ue
  let chroma ← readIf (chromaFormatIdc ≠ 0) ue 0
  let slice := { slice with
    lumaLog2WeightDenom := clip3 (toInt32 luma) 0 maxWpDenom
    chromaLog2WeightDenom :=
      if chromaFormatIdc ≠ 0 then clip3 (toInt32 chroma) 0 maxWpDenom
      else slice.chromaLog2WeightDenom }
  let tWpCoeff0 ← readWPCoeff chromaFormatIdc slice.numRefIdxL0ActiveMinus1 slice.tWpCoeff0
  let tWpCoeff1 ← readIf (slice.sliceType = sliceB)
    (readWPCoeff chromaFormatIdc slice.numRefIdxL1ActiveMinus1 slice.tWpCoeff1) slice.tWpCoeff1
  return { slice with tWpCoeff0, tWpCoeff1 }

end AvcSliceSyntax

/-! ## List reordering -/

def maxReorderIdc : ℤ := 3

/-- The loop of `AL_AVC_sref_pic_list_reordering` over the commands of one list,
from the counters `idx1`, `idx2` and `idx3` on.  The condition on `idx1` ends it
after 18 rounds. -/
def reorderingLoop : (rounds : ℕ) → (idx1 idx2 idx3 : ℤ) → RefPicListReordering →
    Parse (ℤ × RefPicListReordering)
  | 0, _, _, _, _ => stuck .unfinished
  | rounds + 1, idx1, idx2, idx3, r => do
    let idx1 := idx1 + 1
    let idc ← ue
    let idc := clip3 (toInt32 idc) 0 maxReorderIdc
    let reorderingOfPicNumsIdc ← writeAt r.reorderingOfPicNumsIdc idx1 idc
    let r := { r with reorderingOfPicNumsIdc }
    if idc = 0 ∨ idc = 1 then
      let idx2 := idx2 + 1
      let diff ← ue
      let absDiffPicNumMinus1 ← writeAt r.absDiffPicNumMinus1 idx2 (toInt32 diff)
      let r := { r with absDiffPicNumMinus1 }
      if idx1 < avcMaxReferencePictureReorder then reorderingLoop rounds idx1 idx2 idx3 r
      else return (idx1, r)
    else if idc = 2 then
      let idx3 := idx3 + 1
      let num ← ue
      let longTermPicNum ← writeAt r.longTermPicNum idx3 (toInt32 num)
      let r := { r with longTermPicNum }
      if idx1 < avcMaxReferencePictureReorder then reorderingLoop rounds idx1 idx2 idx3 r
      else return (idx1, r)
    else return (idx1, r)

def readReordering (r : RefPicListReordering) : Parse (Bool × RefPicListReordering) := do
  let flag ← u 1
  let r := { r with refPicListReorderingFlag := flag }
  if flag = 0 then return (true, r)
  let (idx1, r) ← reorderingLoop (avcMaxReferencePictureReorder + 1) (-1) (-1) (-1) r
  let last ← readAt r.reorderingOfPicNumsIdc idx1
  return (last = 3, r)

namespace AvcSliceSyntax

/-- `AL_AVC_sref_pic_list_reordering`. -/
def refPicListReordering (slice : AvcSliceSyntax) : Parse (Bool × AvcSliceSyntax) := do
  let (ok, l0) ← readIf (slice.sliceType ≠ sliceI) (readReordering slice.l0) (true, slice.l0)
  let slice := { slice with l0 }
  if !ok then return (false, slice)
  let (ok, l1) ← readIf (slice.sliceType = sliceB) (readReordering slice.l1) (true, slice.l1)
  return (ok, { slice with l1 })

end AvcSliceSyntax

/-! ## Memory management -/

/-- The operand of an operation, put into its own array. -/
def readOperand (c : Prop) [Decidable c] (v : Vector ℤ mmcoSize) (idx : ℤ) :
    Parse (Vector ℤ mmcoSize × ℤ) := do
  if c then
    let operand ← ue
    let v ← writeAt v idx (toInt32 operand)
    return (v, idx + 1)
  else return (v, idx)

/-- The loop of `AL_AVC_sdec_ref_pic_marking`. -/
def markingLoop : (fuel : ℕ) → (idx1 idx2 idx3 idx4 idx5 : ℤ) → DecRefPicMarking →
    Parse DecRefPicMarking
  | 0, _, _, _, _, _, _ => stuck .unfinished
  | fuel + 1, idx1, idx2, idx3, idx4, idx5, m => do
    let op ← ue
    let op := toInt32 op
    let memoryManagementControlOperation ←
      writeAt m.memoryManagementControlOperation idx1 (op % 256).toNat
    let (differenceOfPicNumsMinus1, idx2) ←
      readOperand (op = 1 ∨ op = 3) m.differenceOfPicNumsMinus1 idx2
    let (longTermPicNum, idx3) ← readOperand (op = 2) m.longTermPicNum idx3
    let (longTermFrameIdx, idx4) ← readOperand (op = 3 ∨ op = 6) m.longTermFrameIdx idx4
    let (maxLongTermFrameIdxPlus1, idx5) ← readOperand (op = 4) m.maxLongTermFrameIdxPlus1 idx5
    let m := { memoryManagementControlOperation, differenceOfPicNumsMinus1, longTermPicNum,
               longTermFrameIdx, maxLongTermFrameIdxPlus1 }
    if op = 0 then return m
    else markingLoop fuel (idx1 + 1) idx2 idx3 idx4 idx5 m

namespace AvcSliceSyntax

/-- `AL_AVC_sdec_ref_pic_marking`. -/
def decRefPicMarking (fuel : ℕ) (slice : AvcSliceSyntax) : Parse AvcSliceSyntax := do
  if slice.nalUnitType = avcNutVclIdr then
    let noOutputOfPriorPicsFlag ← u 1
    let longTermReferenceFlag ← u 1
    return { slice with noOutputOfPriorPicsFlag, longTermReferenceFlag }
  else
    let adaptiveRefPicMarkingModeFlag ← u 1
    let slice := { slice with adaptiveRefPicMarkingModeFlag }
    let marking ← readIf (adaptiveRefPicMarkingModeFlag ≠ 0)
      (markingLoop fuel 0 0 0 0 0 slice.marking) slice.marking
    return { slice with marking }

/-! ## The fields in front of the lists -/

/-- `setAvcSliceHeaderDefaultValues`. -/
def setDefaultValues (slice : AvcSliceSyntax) : AvcSliceSyntax :=
  { slice with
    fieldPicFlag := 0
    redundantPicCnt := 0
    bottomFieldFlag := 0
    numRefIdxL0ActiveMinus1 := 0
    numRefIdxL1ActiveMinus1 := 0
    deltaPicOrderCntBottom := 0
    disableDeblockingFilterIdc := 0
    sliceAlphaC0OffsetDiv2 := 0
    sliceBetaOffsetDiv2 := 0
    directSpatialMvPredFlag := 0 }

/-- `ApplyAvcSPSAndReturn`. -/
def applySPSAndReturn (slice : AvcSliceSyntax) (pPPS : AvcPpsSyntax) (conceal : AvcConceal) :
    AvcSliceResult :=
  ⟨some false, { slice with pPPS := some pPPS, pSPS := pPPS.pSPS }, conceal⟩

/-- The NAL unit header and the fields up to `pic_parameter_set_id`. -/
def readStart (slice : AvcSliceSyntax) : Parse (AvcSliceSyntax × ℤ) := do
  let _ ← u 1
  let nalRefIdc ← u 2
  let nalUnitType ← u 5
  let firstMb ← ue
  let sliceType ← ue
  let ppsId ← ue
  return ({ slice with
    nalRefIdc, nalUnitType, firstMbInSlice := toInt32 firstMb, sliceType := sliceType % 256 },
    toInt32 ppsId)

/-- `frame_num` and the field flags. -/
def readFrameNum (slice : AvcSliceSyntax) (sps : AvcSpsSyntax) : Parse AvcSliceSyntax := do
  let frameNum ← u ((sps.log2MaxFrameNumMinus4 + 4) % 256)
  let fieldPicFlag ← readIf (sps.frameMbsOnlyFlag = 0) (u 1) slice.fieldPicFlag
  let bottomFieldFlag ← readIf (sps.frameMbsOnlyFlag = 0 ∧ fieldPicFlag ≠ 0) (u 1)
    slice.bottomFieldFlag
  return { slice with frameNum, fieldPicFlag, bottomFieldFlag }

def maxIdrPicId : ℤ := 65535

/-- The fields between the field flags and the reference picture lists. -/
def readOrderCounts (slice : AvcSliceSyntax) (pps : AvcPpsSyntax) (sps : AvcSpsSyntax) :
    Parse AvcSliceSyntax := do
  let bottom := pps.bottomFieldPicOrderInFramePresentFlag ≠ 0 ∧ slice.fieldPicFlag = 0
  let idr ← readIf (slice.nalUnitType = avcNutVclIdr) ue 0
  let idrPicId :=
    if slice.nalUnitType = avcNutVclIdr then clip3 (toInt32 idr) 0 maxIdrPicId else slice.idrPicId
  let picOrderCntLsb ← readIf (sps.picOrderCntType = 0)
    (u ((sps.log2MaxPicOrderCntLsbMinus4 + 4) % 256)) slice.picOrderCntLsb
  let deltaPicOrderCntBottom ← readIf (sps.picOrderCntType = 0 ∧ bottom) se
    slice.deltaPicOrderCntBottom
  let cycle := sps.picOrderCntType = 1 ∧ sps.deltaPicOrderAlwaysZeroFlag = 0
  let delta0 ← readIf cycle se slice.deltaPicOrderCnt.1
  let delta1 ← readIf (cycle ∧ bottom) se slice.deltaPicOrderCnt.2
  let redundant ← readIf (pps.redundantPicCntPresentFlag ≠ 0) ue 0
  let redundantPicCnt :=
    if pps.redundantPicCntPresentFlag ≠ 0 then toInt32 redundant else slice.redundantPicCnt
  let directSpatialMvPredFlag ← readIf (slice.sliceType = sliceB) (u 1)
    slice.directSpatialMvPredFlag
  return { slice with
    idrPicId, picOrderCntLsb, deltaPicOrderCntBottom, deltaPicOrderCnt := (delta0, delta1),
    redundantPicCnt, directSpatialMvPredFlag }

def readNumRefIdx (slice : AvcSliceSyntax) (pps : AvcPpsSyntax) : Parse AvcSliceSyntax := do
  if slice.sliceType = sliceI then return slice
  let numRefIdxActiveOverrideFlag ← u 1
  let slice := { slice with numRefIdxActiveOverrideFlag }
  if numRefIdxActiveOverrideFlag = 0 then
    -- inferred from the picture parameter set
    return { slice with
      numRefIdxL0ActiveMinus1 := pps.numRefIdxL0ActiveMinus1
      numRefIdxL1ActiveMinus1 := pps.numRefIdxL1ActiveMinus1 }
  let l0 ← ue
  let slice := { slice with numRefIdxL0ActiveMinus1 := clip3 (toInt32 l0) 0 avcMaxRefIdx }
  if slice.sliceType ≠ sliceB then return slice
  let l1 ← ue
  return { slice with numRefIdxL1ActiveMinus1 := clip3 (toInt32 l1) 0 avcMaxRefIdx }

def maxCabacInitIdc : ℤ := 2

/-- The fields behind the memory-management operations. -/
def readEnd (slice : AvcSliceSyntax) (pps : AvcPpsSyntax) : Parse AvcSliceSyntax := do
  let cabac := pps.entropyCodingModeFlag ≠ 0 ∧ slice.sliceType ≠ sliceI
  let idc ← readIf cabac ue 0
  let cabacInitIdc := if cabac then clip3 (toInt32 idc) 0 maxCabacInitIdc else slice.cabacInitIdc
  let sliceQpDelta ← se
  let slice := { slice with cabacInitIdc, sliceQpDelta }
  if pps.deblockingFilterControlPresentFlag = 0 then return slice
  let idc ← ue
  let slice := { slice with disableDeblockingFilterIdc := idc % 256 }
  if slice.disableDeblockingFilterIdc = 1 then return slice
  let sliceAlphaC0OffsetDiv2 ← se
  let sliceBetaOffsetDiv2 ← se
  return { slice with sliceAlphaC0OffsetDiv2, sliceBetaOffsetDiv2 }

end AvcSliceSyntax

/-! ## The function -/

/-- What `AL_AVC_ParseSliceHeader` works with once the parameter sets are found. -/
structure AvcSliceContext where
  slice : AvcSliceSyntax
  pps : AvcPpsSyntax
  sps : AvcSpsSyntax
  conceal : AvcConceal
  fallbackPps : AvcPpsSyntax

def AvcSliceContext.applySPSAndReturn (c : AvcSliceContext) : AvcSliceResult :=
  c.slice.applySPSAndReturn c.fallbackPps c.conceal

def AvcSpsSyntax.maxNumMb (sps : AvcSpsSyntax) : ℤ :=
  toInt32 ((sps.picHeightInMapUnitsMinus1 + 1) * (sps.picWidthInMbsMinus1 + 1))

/-- `pConceal->iActivePPS` is set at the first slice of a frame. -/
def AvcConceal.activate (conceal : AvcConceal) (picParameterSetId : ℕ) : AvcConceal :=
  if conceal.bValidFrame then conceal else { conceal with iActivePPS := picParameterSetId }

namespace AvcSliceSyntax

/-- The part of `AL_AVC_ParseSliceHeader` that selects the parameter sets. -/
def selectParameterSets (slice : AvcSliceSyntax) (conceal : AvcConceal) (pPPSTable : AvcPpsTable) :
    Parse (AvcSliceResult ⊕ AvcSliceContext) := do
  let (slice, currentPPSId) ← slice.readStart
  let fallbackPps ← readAt pPPSTable conceal.iLastPPSId
  if (avcMaxPps : ℤ) < currentPPSId then
    return .inl (slice.applySPSAndReturn fallbackPps conceal)
  let pps ← readAt pPPSTable currentPPSId
  if pps.bConceal then return .inl (slice.applySPSAndReturn fallbackPps conceal)
  let slice := { slice with picParameterSetId := (currentPPSId % 256).toNat }
  let sps ← deref pps.pSPS
  if sps.maxNumMb ≤ slice.firstMbInSlice ∨ avcMaxSliceType < slice.sliceType then
    return .inl (slice.applySPSAndReturn fallbackPps conceal)
  let sliceType ← readAt avcSliceType (slice.sliceType % 5 : ℕ)
  let slice := { slice with sliceType }
  let idr := slice.nalUnitType = avcNutVclIdr
  if avcMaxSliceType < sliceType ∨ (idr ∧ sliceType ≠ sliceI ∧ sliceType ≠ sliceSI) ∨
      (conceal.bValidFrame ∧ (slice.picParameterSetId : ℤ) ≠ conceal.iActivePPS) then
    return .inl (slice.applySPSAndReturn fallbackPps conceal)
  let conceal := conceal.activate slice.picParameterSetId
  if slice.firstMbInSlice ≤ conceal.iFirstLCU then
    return .inl (slice.applySPSAndReturn fallbackPps conceal)
  let slice := { slice with sliceType := sliceType % 5 }
  if idr ∧ slice.sliceType ≠ sliceI then
    return .inl (slice.applySPSAndReturn fallbackPps conceal)
  let slice := { slice with pPPS := some pps, pSPS := some sps }
  if sps.bConceal then return .inl (slice.applySPSAndReturn fallbackPps conceal)
  return .inr { slice, pps, sps, conceal, fallbackPps }

end AvcSliceSyntax

namespace AvcSliceContext

/-- The part of `AL_AVC_ParseSliceHeader` up to the reference picture lists. -/
def readFields (c : AvcSliceContext) : Parse (AvcSliceResult ⊕ AvcSliceContext) := do
  if !(← moreRbspData) then return .inl c.applySPSAndReturn
  let slice ← c.slice.readFrameNum c.sps
  let c := { c with slice }
  -- field pictures are not supported
  if c.sps.frameMbsOnlyFlag = 0 ∧ slice.fieldPicFlag ≠ 0 then return .inl c.applySPSAndReturn
  let slice ← slice.readOrderCounts c.pps c.sps
  let slice ← slice.readNumRefIdx c.pps
  let c := { c with slice }
  if !(← moreRbspData) then return .inl c.applySPSAndReturn
  return .inr c

/-- The part of `AL_AVC_ParseSliceHeader` with the reference picture lists. -/
def readLists (c : AvcSliceContext) : Parse (AvcSliceResult ⊕ AvcSliceContext) := do
  let (ok, slice) ← c.slice.refPicListReordering
  if !ok then return .inl ⟨some false, slice, c.conceal⟩
  return .inr { c with slice }

/-- The prediction weights are in the header. -/
def weighted (c : AvcSliceContext) : Bool :=
  (c.pps.weightedPredFlag ≠ 0 ∧ c.slice.sliceType = sliceP) ∨
    (c.pps.weightedBipredIdc = 1 ∧ c.slice.sliceType = sliceB)

/-- The part of `AL_AVC_ParseSliceHeader` with the prediction weights. -/
def readWeights (c : AvcSliceContext) : Parse (AvcSliceResult ⊕ AvcSliceContext) := do
  if !c.weighted then return .inr c
  if !(← moreRbspData) then return .inl c.applySPSAndReturn
  let slice ← c.slice.predWeightTable c.sps.chromaFormatIdc
  return .inr { c with slice }

/-- The part of `AL_AVC_ParseSliceHeader` with the memory-management operations. -/
def readMarking (fuel : ℕ) (c : AvcSliceContext) : Parse (AvcSliceResult ⊕ AvcSliceContext) := do
  if c.slice.nalRefIdc = 0 then return .inr c
  if !(← moreRbspData) then return .inl c.applySPSAndReturn
  let slice ← c.slice.decRefPicMarking fuel
  return .inr { c with slice }

/-- `AL_Assert(0)` stops on the slice group types 3 to 5. -/
def asserts (c : AvcSliceContext) : Bool :=
  0 < c.pps.numSliceGroupsMinus1 ∧ 3 ≤ c.pps.sliceGroupMapType ∧ c.pps.sliceGroupMapType ≤ 5

/-- The end of `AL_AVC_ParseSliceHeader`. -/
def readEnd (c : AvcSliceContext) : Parse AvcSliceResult := do
  let slice ← c.slice.readEnd c.pps
  if c.asserts then return ⟨none, slice, c.conceal⟩
  return ⟨some true, slice, { c.conceal with iFirstLCU := slice.firstMbInSlice }⟩

end AvcSliceContext

namespace AvcSliceSyntax

/-- `AL_AVC_ParseSliceHeader` behind the start code, up to the reference picture lists. -/
def toLists (slice : AvcSliceSyntax) (conceal : AvcConceal) (pPPSTable : AvcPpsTable) :
    Parse (AvcSliceResult ⊕ AvcSliceContext) :=
  next (slice.selectParameterSets conceal pPPSTable) AvcSliceContext.readFields

/-- `AL_AVC_ParseSliceHeader` behind the start code, up to the memory-management
operations. -/
def toMarking (slice : AvcSliceSyntax) (conceal : AvcConceal) (pPPSTable : AvcPpsTable) :
    Parse (AvcSliceResult ⊕ AvcSliceContext) :=
  next (next (slice.toLists conceal pPPSTable) AvcSliceContext.readLists) AvcSliceContext.readWeights

/-- `AL_AVC_ParseSliceHeader`. -/
def parseSliceHeader (fuel : ℕ) (slice : AvcSliceSyntax) (conceal : AvcConceal)
    (pPPSTable : AvcPpsTable) : Parse AvcSliceResult := do
  if !conceal.bHasPPS then return ⟨some false, slice, conceal⟩
  skipAllZerosAndTheNextByte fuel
  let r ← next (slice.setDefaultValues.toMarking conceal pPPSTable) fun c => c.readMarking fuel
  match r with
  | .inl r => return r
  | .inr c => c.readEnd

end AvcSliceSyntax

end VcuCodec
