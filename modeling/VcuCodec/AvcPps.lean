import VcuCodec.HevcPps

/-!
# The AVC picture parameter set

`AL_AVC_ParsePPS` of `lib_parsing/AvcParser.c`.  A set is parsed into a temporary one,
whose arrays have the sizes of `PPS.h`, and copied into the table behind the last check.
-/

namespace VcuCodec

open CheckedRuns Checked Parse

/-- `AL_PARSE_RESULT`. -/
inductive ParseResult
  | ok
  | conceal
  | unsupported
  deriving DecidableEq

/-! ## Scaling lists -/

/-- The scaling lists of a parameter set. -/
structure AvcScaling where
  scalingList4x4 : ℕ → ℕ → ℕ
  scalingList8x8 : ℕ → ℕ → ℕ
  useDefaultScalingMatrix4x4Flag : ℕ → ℕ
  useDefaultScalingMatrix8x8Flag : ℕ → ℕ

/-- The fields of `AL_TAvcSps` that the parameter sets of the stream are parsed with. -/
structure AvcSpsSet where
  seqParameterSetId : ℕ
  picWidthInMbsMinus1 : ℕ
  picHeightInMapUnitsMinus1 : ℕ
  bitDepthLumaMinus8 : ℕ
  seqScalingMatrixPresentFlag : ℕ
  scaling : AvcScaling
  bConceal : Bool

/-- `pDecScanBlock4x4`. -/
def avcDecScanBlock4x4 : List ℕ := [0, 1, 4, 8, 5, 2, 3, 6, 9, 12, 13, 10, 7, 11, 14, 15]

/-- `pDecScanBlock8x8`. -/
def avcDecScanBlock8x8 : List ℕ :=
  [0, 1, 8, 16, 9, 2, 3, 10,
   17, 24, 32, 25, 18, 11, 4, 5,
   12, 19, 26, 33, 40, 48, 41, 34,
   27, 20, 13, 6, 7, 14, 21, 28,
   35, 42, 49, 56, 57, 50, 43, 36,
   29, 22, 15, 23, 30, 37, 44, 51,
   58, 59, 52, 45, 38, 31, 39, 46,
   53, 60, 61, 54, 47, 55, 62, 63]

/-- `avc_scaling_list_data`: the list and `*pUseDefaultScalingMatrixFlag`. -/
def avcScalingListData (pScalingList : ℕ → ℕ) (iSize useDefault : ℕ) : Parse ((ℕ → ℕ) × ℕ) := do
  let pDecScanBlock := if iSize = 16 then avcDecScanBlock4x4 else avcDecScanBlock8x8
  let r ← forBelow iSize (pScalingList, useDefault, (8 : ℤ), (8 : ℤ)) fun j r => do
    let (list, useDefault, iLastScale, iNextScale) := r
    let delta ← readIf (iNextScale ≠ 0) se 0
    let iDeltaScale := clip3 delta (-128) 127
    let next := (iLastScale + iDeltaScale + 256).tmod 256
    let (useDefault, iNextScale) :=
      if iNextScale ≠ 0 then ((if j = 0 ∧ next = 0 then 1 else 0), next)
      else (useDefault, iNextScale)
    let scale := if iNextScale = 0 then iLastScale else iNextScale
    return (Function.update list (pDecScanBlock.getD j 0) scale.toNat, useDefault, scale, iNextScale)
  return (r.1, r.2.1)

namespace AvcScaling

/-- `UseDefaultScalingMatrix4x4Flag[i] = v`, from index 6 on
`UseDefaultScalingMatrix8x8Flag[i - 6] = v`. -/
def setDefault (s : AvcScaling) (i v : ℕ) : AvcScaling :=
  if i < 6 then
    { s with
      useDefaultScalingMatrix4x4Flag := Function.update s.useDefaultScalingMatrix4x4Flag i v }
  else
    { s with
      useDefaultScalingMatrix8x8Flag := Function.update s.useDefaultScalingMatrix8x8Flag (i - 6) v }

/-- The list of the sequence parameter set. -/
def fromSps (s sps : AvcScaling) (i : ℕ) : AvcScaling :=
  if i < 6 then
    if sps.useDefaultScalingMatrix4x4Flag i ≠ 0 then s.setDefault i 1
    else { s with scalingList4x4 := Function.update s.scalingList4x4 i (sps.scalingList4x4 i) }
  else
    if sps.useDefaultScalingMatrix8x8Flag (i - 6) ≠ 0 then s.setDefault i 1
    else
      { s with
        scalingList8x8 := Function.update s.scalingList8x8 (i - 6) (sps.scalingList8x8 (i - 6)) }

def fromPrevious (s : AvcScaling) (i : ℕ) : AvcScaling :=
  if s.useDefaultScalingMatrix4x4Flag (i - 1) ≠ 0 then s.setDefault i 1
  else { s with scalingList4x4 := Function.update s.scalingList4x4 i (s.scalingList4x4 (i - 1)) }

/-- A list that is not in the picture parameter set. -/
def fallBack (s : AvcScaling) (sps : AvcSpsSet) (i : ℕ) : AvcScaling :=
  if sps.seqScalingMatrixPresentFlag = 0 then
    if i < 6 then if i = 0 ∨ i = 3 then s.setDefault i 1 else s.fromPrevious i
    else s.setDefault i 1
  else
    if i < 6 then if i = 0 ∨ i = 3 then s.fromSps sps.scaling i else s.fromPrevious i
    else s.fromSps sps.scaling i

/-- The lists of the sequence parameter set. -/
def allFromSps (s sps : AvcScaling) : AvcScaling :=
  (List.range 8).foldl (fun s i => s.fromSps sps i) s

/-- A list that is in the picture parameter set. -/
def readList (s : AvcScaling) (i : ℕ) : Parse AvcScaling := do
  if i < 6 then
    let r ← avcScalingListData (s.scalingList4x4 i) 16 (s.useDefaultScalingMatrix4x4Flag i)
    return { s.setDefault i r.2 with scalingList4x4 := Function.update s.scalingList4x4 i r.1 }
  else
    let r ← avcScalingListData (s.scalingList8x8 (i - 6)) 64
      (s.useDefaultScalingMatrix8x8Flag (i - 6))
    return { s.setDefault i r.2 with scalingList8x8 := Function.update s.scalingList8x8 (i - 6) r.1 }

end AvcScaling

/-! ## The set -/

/-- `AL_TAvcPps`; `pSPS` is an index of the table. -/
structure AvcPps where
  picParameterSetId : ℕ
  seqParameterSetId : ℕ
  entropyCodingModeFlag : ℕ
  bottomFieldPicOrderInFramePresentFlag : ℕ
  numSliceGroupsMinus1 : ℤ
  sliceGroupMapType : ℕ
  runLengthMinus1 : ℕ → ℕ
  topLeft : ℕ → ℕ
  bottomRight : ℕ → ℕ
  sliceGroupChangeDirectionFlag : ℕ
  sliceGroupChangeRateMinus1 : ℕ
  picSizeInMapUnitsMinus1 : ℕ
  sliceGroupId : ℕ → ℤ
  numRefIdxL0ActiveMinus1 : ℤ
  numRefIdxL1ActiveMinus1 : ℤ
  weightedPredFlag : ℕ
  weightedBipredIdc : ℤ
  picInitQpMinus26 : ℤ
  picInitQsMinus26 : ℤ
  chromaQpIndexOffset : ℤ
  secondChromaQpIndexOffset : ℤ
  deblockingFilterControlPresentFlag : ℕ
  constrainedIntraPredFlag : ℕ
  redundantPicCntPresentFlag : ℕ
  transform8x8ModeFlag : ℕ
  picScalingMatrixPresentFlag : ℕ
  picScalingListPresentFlag : ℕ → ℕ
  scaling : AvcScaling
  pSPS : Option ℕ
  bConceal : Bool

def avcMaxSps : ℕ := 32

/-- The size of `run_length_minus1`, `top_left` and `bottom_right`. -/
def sliceGroupsSize : ℕ := 8

/-- The size of `slice_group_id`. -/
def sliceGroupIdSize : ℕ := 8160

/-- `AL_MAX_WP_IDC`. -/
def maxWpIdc : ℤ := 2

/-- `AL_MIN_INIT_QP`. -/
def minInitQp : ℤ := -26

/-- The tables of `AL_TAvcAup` that hold the received parameter sets. -/
structure AvcAup where
  pPPS : Vector AvcPps avcMaxPps
  pSPS : Vector AvcSpsSet avcMaxSps

def comply (cond : Prop) [Decidable cond] : Parse (ParseResult ⊕ Unit) :=
  if cond then pure (.inr ()) else pure (.inl .conceal)

namespace AvcPps

def initPps (pps : AvcPps) : AvcPps :=
  { pps with
    scaling := { pps.scaling with
      useDefaultScalingMatrix4x4Flag := fun _ => 0
      useDefaultScalingMatrix8x8Flag := fun _ => 0 }
    transform8x8ModeFlag := 0
    picScalingMatrixPresentFlag := 0
    bConceal := true }

def readSps (pps : AvcPps) (aup : AvcAup) : Parse (ParseResult ⊕ AvcPps × AvcSpsSet) := do
  let spsId ← ue
  let pps := { pps with seqParameterSetId := spsId % 2 ^ 8 }
  next (comply (pps.seqParameterSetId < avcMaxSps)) fun _ => do
    let sps ← readAt aup.pSPS pps.seqParameterSetId
    next (comply (sps.bConceal = false)) fun _ =>
      return .inr ({ pps with pSPS := some pps.seqParameterSetId }, sps)

/-- The slice groups, of which there is more than one. -/
def readSliceGroups (pps : AvcPps) : Parse AvcPps := do
  let mapType ← ue
  let pps := { pps with sliceGroupMapType := mapType % 2 ^ 8 }
  let groups := (pps.numSliceGroupsMinus1 + 1).toNat
  if pps.sliceGroupMapType = 0 then
    forBelow groups pps fun iGroup pps => do
      check (iGroup < sliceGroupsSize)
      let length ← ue
      return { pps with
        runLengthMinus1 := Function.update pps.runLengthMinus1 iGroup (length % 2 ^ 16) }
  else if pps.sliceGroupMapType = 2 then
    forBelow groups pps fun iGroup pps => do
      check (iGroup < sliceGroupsSize)
      let topLeft ← ue
      let bottomRight ← ue
      return { pps with
        topLeft := Function.update pps.topLeft iGroup (topLeft % 2 ^ 16)
        bottomRight := Function.update pps.bottomRight iGroup (bottomRight % 2 ^ 16) }
  else if pps.sliceGroupMapType = 3 ∨ pps.sliceGroupMapType = 4 ∨ pps.sliceGroupMapType = 5 then do
    let sliceGroupChangeDirectionFlag ← u 1
    let rate ← ue
    return { pps with
      sliceGroupChangeDirectionFlag, sliceGroupChangeRateMinus1 := rate % 2 ^ 16 }
  else if pps.sliceGroupMapType = 6 then do
    let size ← ue
    let pps := { pps with picSizeInMapUnitsMinus1 := size % 2 ^ 16 }
    let slicegroupsize := pps.picSizeInMapUnitsMinus1 + 1
    forBelow slicegroupsize pps fun i pps => do
      check (i < sliceGroupIdSize)
      let id ← u slicegroupsize
      return { pps with sliceGroupId := Function.update pps.sliceGroupId i (toInt32 id) }
  else return pps

/-- What is in front of the references. -/
def readFront (pps : AvcPps) (aup : AvcAup) : Parse (ParseResult ⊕ AvcPps × AvcSpsSet) :=
  next (pps.readSps aup) fun (pps, sps) => do
    let entropyCodingModeFlag ← u 1
    let bottomFieldPicOrderInFramePresentFlag ← u 1
    let groups ← ue
    let pps := { pps with
      entropyCodingModeFlag, bottomFieldPicOrderInFramePresentFlag
      numSliceGroupsMinus1 := toInt32 groups }
    let pps ← readIf (0 < pps.numSliceGroupsMinus1) pps.readSliceGroups pps
    let more ← moreRbspData
    next (comply (more = true)) fun _ => return .inr (pps, sps)

def readQuantizers (pps : AvcPps) (sps : AvcSpsSet) : Parse AvcPps := do
  let l0 ← ue
  let l1 ← ue
  let weightedPredFlag ← u 1
  let bipred ← u 2
  let qpBdOffset : ℕ := 6 * sps.bitDepthLumaMinus8 % 2 ^ 16
  let initQp ← se
  let initQs ← se
  let chroma ← se
  let deblockingFilterControlPresentFlag ← u 1
  let constrainedIntraPredFlag ← u 1
  skip 1
  return { pps with
    numRefIdxL0ActiveMinus1 := clip3 (toInt32 l0) 0 avcMaxRefIdx
    numRefIdxL1ActiveMinus1 := clip3 (toInt32 l1) 0 avcMaxRefIdx
    weightedPredFlag, weightedBipredIdc := clip3 bipred 0 maxWpIdc
    picInitQpMinus26 := toInt8 (clip3 initQp (-(26 + qpBdOffset)) maxInitQp)
    picInitQsMinus26 := clip3 initQs minInitQp maxInitQp
    chromaQpIndexOffset := clip3 chroma minQpOffset maxQpOffset
    secondChromaQpIndexOffset := clip3 chroma minQpOffset maxQpOffset
    deblockingFilterControlPresentFlag, constrainedIntraPredFlag
    redundantPicCntPresentFlag := 0 }

/-- The scaling lists of the picture parameter set. -/
def readScalingLists (pps : AvcPps) (sps : AvcSpsSet) : Parse AvcPps :=
  forBelow (6 + 2 * pps.transform8x8ModeFlag) pps fun i pps => do
    let scaling := pps.scaling.setDefault i 0
    let present ← u 1
    let pps := { pps with
      picScalingListPresentFlag := Function.update pps.picScalingListPresentFlag i present }
    let scaling ← readIf (present ≠ 0) (scaling.readList i) (scaling.fallBack sps i)
    return { pps with scaling }

/-- The transform, if there is more, and the scaling lists. -/
def readTransform (pps : AvcPps) (sps : AvcSpsSet) : Parse AvcPps := do
  let more ← moreRbspData
  if !more then return { pps with scaling := pps.scaling.allFromSps sps.scaling }
  let transform8x8ModeFlag ← u 1
  let picScalingMatrixPresentFlag ← u 1
  let pps := { pps with transform8x8ModeFlag, picScalingMatrixPresentFlag }
  let pps ← readIf (picScalingMatrixPresentFlag ≠ 0) (pps.readScalingLists sps)
    { pps with scaling := pps.scaling.allFromSps sps.scaling }
  let second ← se
  return { pps with secondChromaQpIndexOffset := clip3 second minInitQp maxInitQp }

/-- A set, from its default values on. -/
def parse (fuel : ℕ) (pps : AvcPps) (aup : AvcAup) : Parse (ParseResult ⊕ AvcPps) :=
  next (pps.readFront aup) fun (pps, sps) => do
    let pps ← pps.readQuantizers sps
    let pps ← pps.readTransform sps
    -- no zero in the scaling lists
    let scaling :=
      if pps.transform8x8ModeFlag = 0 then (pps.scaling.setDefault 6 1).setDefault 7 1
      else pps.scaling
    let trailing ← rbspTrailingBits fuel
    let pps := { pps with scaling, bConceal := !trailing }
    next (comply (pps.numSliceGroupsMinus1 = 0)) fun _ => return .inr pps

end AvcPps

def readAvcPpsId (fuel : ℕ) : Parse ℕ := do
  skipAllZerosAndTheNextByte fuel
  let _ ← u 8
  let ppsId ← ue
  return ppsId % 2 ^ 16

/-- `AL_AVC_ParsePPS`: the tables and `*pPpsId`, which is not written if there is no
such set; `tempPPS` is what the temporary set holds. -/
def AvcAup.parsePPS (fuel : ℕ) (tempPPS : AvcPps) (aup : AvcAup) :
    Parse (ParseResult × AvcAup × Option ℕ) := do
  let ppsId ← readAvcPpsId fuel
  if avcMaxPps ≤ ppsId then return (.conceal, aup, none)
  let r ← AvcPps.parse fuel { tempPPS.initPps with picParameterSetId := ppsId } aup
  match r with
  | .inl result => return (result, aup, some ppsId)
  | .inr pps =>
    let pPPS ← writeAt aup.pPPS ppsId pps
    return (.ok, { aup with pPPS }, some ppsId)

end VcuCodec
