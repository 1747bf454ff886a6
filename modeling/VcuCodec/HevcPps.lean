import VcuCodec.RbspPrimitives
import VcuCodec.ScalingLists

/-!
# The HEVC picture parameter set

`AL_HEVC_ParsePPS` of `lib_parsing/HevcParser.c`.  A set is parsed in its place in the
table, and concealed until its trailing bits are read.
-/

namespace VcuCodec

open CheckedRuns Checked Parse

/-- `int8_t`. -/
def toInt8 (x : ℤ) : ℤ := x.bmod (2 ^ 8)

/-- The fields of `AL_THevcSps` that a picture parameter set is parsed with. -/
structure HevcSps where
  bitDepthLumaMinus8 : ℕ
  log2DiffMaxMinLumaCodingBlockSize : ℕ
  log2CtbSize : ℕ
  picWidthInCtbs : ℕ
  picHeightInCtbs : ℕ
  scalingListParam : SclParam
  bConceal : Bool
  width_lt : picWidthInCtbs < 2 ^ 16
  height_lt : picHeightInCtbs < 2 ^ 16

/-- The fields of `AL_THevcPps` that are parsed; `pSPS` is an index of the table. -/
structure HevcPps where
  ppsPicParameterSetId : ℕ
  ppsSeqParameterSetId : ℕ
  dependentSliceSegmentsEnabledFlag : ℕ
  outputFlagPresentFlag : ℕ
  numExtraSliceHeaderBits : ℕ
  signDataHidingFlag : ℕ
  cabacInitPresentFlag : ℕ
  numRefIdxL0DefaultActiveMinus1 : ℤ
  numRefIdxL1DefaultActiveMinus1 : ℤ
  initQpMinus26 : ℤ
  constrainedIntraPredFlag : ℕ
  transformSkipEnabledFlag : ℕ
  cuQpDeltaEnabledFlag : ℕ
  diffCuQpDeltaDepth : ℤ
  ppsCbQpOffset : ℤ
  ppsCrQpOffset : ℤ
  ppsSliceChromaQpOffsetsPresentFlag : ℕ
  weightedPredFlag : ℕ
  weightedBipredFlag : ℕ
  transquantBypassEnabledFlag : ℕ
  tilesEnabledFlag : ℕ
  entropyCodingSyncEnabledFlag : ℕ
  numTileColumnsMinus1 : ℕ
  numTileRowsMinus1 : ℕ
  uniformSpacingFlag : ℕ
  columnWidth : ℕ → ℕ
  rowHeight : ℕ → ℕ
  tileTopology : ℕ → ℕ
  loopFilterAcrossTilesEnabledFlag : ℕ
  loopFilterAcrossSlicesEnabledFlag : ℕ
  deblockingFilterControlPresentFlag : ℕ
  deblockingFilterOverrideEnabledFlag : ℕ
  ppsDeblockingFilterDisabledFlag : ℕ
  ppsBetaOffsetDiv2 : ℤ
  ppsTcOffsetDiv2 : ℤ
  ppsScalingListDataPresentFlag : ℕ
  scalingListParam : SclParam
  listsModificationPresentFlag : ℕ
  log2ParallelMergeLevelMinus2 : ℤ
  sliceSegmentHeaderExtensionPresentFlag : ℕ
  ppsExtensionPresentFlag : ℕ
  ppsRangeExtensionFlag : ℕ
  ppsExtension7bits : ℕ
  log2TransformSkipBlockSizeMinus2 : ℕ
  crossComponentPredictionEnabledFlag : ℕ
  chromaQpOffsetListEnabledFlag : ℕ
  diffCuChromaQpOffsetDepth : ℕ
  chromaQpOffsetListLenMinus1 : ℕ
  cbQpOffsetList : ℕ → ℤ
  crQpOffsetList : ℕ → ℤ
  log2SaoOffsetScaleLuma : ℕ
  log2SaoOffsetScaleChroma : ℕ
  pSPS : Option ℕ
  bConceal : Bool

def hevcMaxPps : ℕ := 64
def hevcMaxSps : ℕ := 16

/-- The tables of `AL_THevcAup` that hold the received parameter sets. -/
structure HevcAup where
  pPPS : Vector HevcPps hevcMaxPps
  pSPS : Vector HevcSps hevcMaxSps

def hevcPpsMaxRefIdx : ℤ := 14
def maxInitQp : ℤ := 25
def minQpOffset : ℤ := -12
def maxQpOffset : ℤ := 12
def minDbfParam : ℤ := -6
def maxDbfParam : ℤ := 6
def maxColumnsTile : ℕ := 20
def maxRowsTile : ℕ := 22

/-- The size of `cb_qp_offset_list` and `cr_qp_offset_list`. -/
def qpOffsetListSize : ℕ := 6

namespace HevcPps

def initPps (pps : HevcPps) : HevcPps :=
  { pps with
    scalingListParam := { pps.scalingListParam with useDefaultScalingMatrixFlag := fun _ => 0 }
    cbQpOffsetList := fun _ => 0
    crQpOffsetList := fun _ => 0
    loopFilterAcrossTilesEnabledFlag := 1
    listsModificationPresentFlag := 1
    numTileColumnsMinus1 := 0
    numTileRowsMinus1 := 0
    deblockingFilterOverrideEnabledFlag := 0
    ppsDeblockingFilterDisabledFlag := 0
    ppsBetaOffsetDiv2 := 0
    ppsTcOffsetDiv2 := 0
    ppsExtension7bits := 0
    ppsRangeExtensionFlag := 0
    log2TransformSkipBlockSizeMinus2 := 0
    crossComponentPredictionEnabledFlag := 0
    diffCuChromaQpOffsetDepth := 0
    chromaQpOffsetListEnabledFlag := 0
    log2SaoOffsetScaleChroma := 0
    bConceal := true }

/-! ## In front of the tiles -/

/-- The active sequence parameter set; the set is left concealed without it. -/
def readSps (pps : HevcPps) (aup : HevcAup) : Parse (HevcPps ⊕ HevcPps × HevcSps) := do
  let spsId ← ue
  let pps := { pps with ppsSeqParameterSetId := spsId % 2 ^ 8 }
  if hevcMaxSps ≤ pps.ppsSeqParameterSetId then return .inl pps
  let sps ← readAt aup.pSPS pps.ppsSeqParameterSetId
  let pps := { pps with pSPS := some pps.ppsSeqParameterSetId }
  if sps.bConceal then return .inl pps
  return .inr (pps, sps)

def readFlags (pps : HevcPps) (sps : HevcSps) : Parse HevcPps := do
  let dependentSliceSegmentsEnabledFlag ← u 1
  let outputFlagPresentFlag ← u 1
  let numExtraSliceHeaderBits ← u 3
  let signDataHidingFlag ← u 1
  let cabacInitPresentFlag ← u 1
  let l0 ← ue
  let l1 ← ue
  let qpBdOffset : ℕ := 6 * sps.bitDepthLumaMinus8 % 2 ^ 16
  let initQp ← se
  let constrainedIntraPredFlag ← u 1
  let transformSkipEnabledFlag ← u 1
  let cuQpDeltaEnabledFlag ← u 1
  let depth ← readIf (cuQpDeltaEnabledFlag ≠ 0) ue 0
  let cb ← se
  let cr ← se
  let ppsSliceChromaQpOffsetsPresentFlag ← u 1
  let weightedPredFlag ← u 1
  let weightedBipredFlag ← u 1
  let transquantBypassEnabledFlag ← u 1
  let tilesEnabledFlag ← u 1
  let entropyCodingSyncEnabledFlag ← u 1
  return { pps with
    dependentSliceSegmentsEnabledFlag, outputFlagPresentFlag, numExtraSliceHeaderBits
    signDataHidingFlag, cabacInitPresentFlag
    numRefIdxL0DefaultActiveMinus1 := clip3 (toInt32 l0) 0 hevcPpsMaxRefIdx
    numRefIdxL1DefaultActiveMinus1 := clip3 (toInt32 l1) 0 hevcPpsMaxRefIdx
    initQpMinus26 := toInt8 (clip3 initQp (-(26 + qpBdOffset)) maxInitQp)
    constrainedIntraPredFlag, transformSkipEnabledFlag, cuQpDeltaEnabledFlag
    diffCuQpDeltaDepth :=
      if cuQpDeltaEnabledFlag ≠ 0 then
        clip3 (toInt32 depth) 0 sps.log2DiffMaxMinLumaCodingBlockSize
      else pps.diffCuQpDeltaDepth
    ppsCbQpOffset := clip3 cb minQpOffset maxQpOffset
    ppsCrQpOffset := clip3 cr minQpOffset maxQpOffset
    ppsSliceChromaQpOffsetsPresentFlag, weightedPredFlag, weightedBipredFlag
    transquantBypassEnabledFlag, tilesEnabledFlag, entropyCodingSyncEnabledFlag }

/-- The end of a set with nothing left in its NAL unit. -/
def checkMore (pps : HevcPps) (sps : HevcSps) : Parse (HevcPps ⊕ HevcPps × HevcSps) := do
  let more ← moreRbspData
  if !more then return .inl pps
  return .inr (pps, sps)

/-- What is in front of the tiles. -/
def toTiles (pps : HevcPps) (aup : HevcAup) : Parse (HevcPps ⊕ HevcPps × HevcSps) :=
  next (pps.readSps aup) fun (pps, sps) => do
    let pps ← pps.readFlags sps
    pps.checkMore sps

/-! ## Tiles -/

/-- The sizes of explicit spacing and their sum, all but the last. -/
def readSizes (num : ℕ) (sizes : ℕ → ℕ) : Parse ((ℕ → ℕ) × ℕ) :=
  forBelow num (sizes, 0) fun i r => do
    let size ← ue
    let size := (size + 1) % 2 ^ 16
    return (Function.update r.1 i size, (r.2 + size) % 2 ^ 16)

/-- Size `i` of uniform spacing. -/
def uniformSize (size num i : ℕ) : ℕ := ((i + 1) * size / num - i * size / num) % 2 ^ 16

/-- The sizes of uniform spacing. -/
def uniformSizes (size num : ℕ) (sizes : ℕ → ℕ) : ℕ → ℕ := fun i =>
  if i < num then uniformSize size num i else sizes i

/-- The sizes in front of tile `i`, added up in a `uint8_t`. -/
def sizesBefore (sizes : ℕ → ℕ) : ℕ → ℕ
  | 0 => 0
  | i + 1 => (sizesBefore sizes i + sizes i) % 2 ^ 8

/-- The registration of the tile topology within the frame. -/
def registerTopology (pps : HevcPps) (uLCUWidth : ℕ) : HevcPps :=
  let columns := pps.numTileColumnsMinus1 + 1
  let registerRow (t : ℕ → ℕ) (i : ℕ) : ℕ → ℕ :=
    (List.range columns).foldl (fun t j => Function.update t (i * columns + j)
      (sizesBefore pps.rowHeight i * uLCUWidth + sizesBefore pps.columnWidth j)) t
  { pps with
    tileTopology := (List.range (pps.numTileRowsMinus1 + 1)).foldl registerRow pps.tileTopology }

/-- The tiles of a set. -/
def readTiles (pps : HevcPps) (sps : HevcSps) : Parse (HevcPps ⊕ HevcPps) := do
  let uLCUWidth := sps.picWidthInCtbs
  let uLCUHeight := sps.picHeightInCtbs
  let columns ← ue
  let rows ← ue
  let uniformSpacingFlag ← u 1
  let columns := columns % 2 ^ 16
  let rows := rows % 2 ^ 16
  let pps := { pps with
    numTileColumnsMinus1 := columns, numTileRowsMinus1 := rows, uniformSpacingFlag }
  if uLCUWidth ≤ columns ∨ uLCUHeight ≤ rows ∨ maxColumnsTile ≤ columns ∨ maxRowsTile ≤ rows then
    return .inl pps
  if uniformSpacingFlag = 0 then
    let (columnWidth, uClmnOffset) ← readSizes columns pps.columnWidth
    let (rowHeight, uLineOffset) ← readSizes rows pps.rowHeight
    if uLCUWidth ≤ uClmnOffset ∨ uLCUHeight ≤ uLineOffset then
      return .inl { pps with columnWidth, rowHeight }
    let pps := { pps with
      columnWidth := Function.update columnWidth columns (uLCUWidth - uClmnOffset)
      rowHeight := Function.update rowHeight rows (uLCUHeight - uLineOffset) }
    return .inr (pps.registerTopology uLCUWidth)
  let pps := { pps with
    columnWidth := uniformSizes uLCUWidth (columns + 1) pps.columnWidth
    rowHeight := uniformSizes uLCUHeight (rows + 1) pps.rowHeight }
  return .inr (pps.registerTopology uLCUWidth)

/-- The tiles, if they are enabled. -/
def readTilesIf (pps : HevcPps) (sps : HevcSps) : Parse (HevcPps ⊕ HevcPps × HevcSps) :=
  next (readIf (pps.tilesEnabledFlag ≠ 0)
    (next (pps.readTiles sps) fun pps => do
      let loopFilterAcrossTilesEnabledFlag ← u 1
      return .inr { pps with loopFilterAcrossTilesEnabledFlag })
    (.inr pps)) fun pps => pps.checkMore sps

/-! ## Behind the tiles -/

def readDeblocking (pps : HevcPps) : Parse HevcPps := do
  let loopFilterAcrossSlicesEnabledFlag ← u 1
  let deblockingFilterControlPresentFlag ← u 1
  let pps := { pps with loopFilterAcrossSlicesEnabledFlag, deblockingFilterControlPresentFlag }
  if deblockingFilterControlPresentFlag = 0 then return pps
  let deblockingFilterOverrideEnabledFlag ← u 1
  let ppsDeblockingFilterDisabledFlag ← u 1
  let pps := { pps with deblockingFilterOverrideEnabledFlag, ppsDeblockingFilterDisabledFlag }
  if ppsDeblockingFilterDisabledFlag ≠ 0 then return pps
  let beta ← se
  let tc ← se
  return { pps with
    ppsBetaOffsetDiv2 := clip3 beta minDbfParam maxDbfParam
    ppsTcOffsetDiv2 := clip3 tc minDbfParam maxDbfParam }

def readScaling (pps : HevcPps) (sps : HevcSps) : Parse HevcPps := do
  let ppsScalingListDataPresentFlag ← u 1
  let scalingListParam ← readIf (ppsScalingListDataPresentFlag ≠ 0)
    (hevcScalingListData pps.scalingListParam) sps.scalingListParam
  let listsModificationPresentFlag ← u 1
  let level ← ue
  let sliceSegmentHeaderExtensionPresentFlag ← u 1
  let ppsExtensionPresentFlag ← u 1
  let pps := { pps with
    ppsScalingListDataPresentFlag, scalingListParam, listsModificationPresentFlag
    log2ParallelMergeLevelMinus2 := clip3 (toInt32 level) 0 (sps.log2CtbSize - 2)
    sliceSegmentHeaderExtensionPresentFlag, ppsExtensionPresentFlag }
  if ppsExtensionPresentFlag = 0 then return pps
  let ppsRangeExtensionFlag ← u 1
  let ppsExtension7bits ← u 7
  return { pps with ppsRangeExtensionFlag, ppsExtension7bits }

/-- One entry of the lists of chroma offsets. -/
def readQpOffset (i : ℕ) (pps : HevcPps) : Parse HevcPps := do
  check (i < qpOffsetListSize)
  let cb ← se
  let cr ← se
  return { pps with
    cbQpOffsetList := Function.update pps.cbQpOffsetList i (toInt8 cb)
    crQpOffsetList := Function.update pps.crQpOffsetList i (toInt8 cr) }

def readQpOffsetLists (pps : HevcPps) : Parse HevcPps := do
  let depth ← ue
  let len ← ue
  let pps := { pps with
    diffCuChromaQpOffsetDepth := depth % 2 ^ 8, chromaQpOffsetListLenMinus1 := len % 2 ^ 8 }
  forBelow (pps.chromaQpOffsetListLenMinus1 + 1) pps readQpOffset

def readRangeExtension (pps : HevcPps) : Parse HevcPps := do
  let size ← readIf (pps.transformSkipEnabledFlag ≠ 0) ue pps.log2TransformSkipBlockSizeMinus2
  let crossComponentPredictionEnabledFlag ← u 1
  let chromaQpOffsetListEnabledFlag ← u 1
  let pps := { pps with
    log2TransformSkipBlockSizeMinus2 := size % 2 ^ 8
    crossComponentPredictionEnabledFlag, chromaQpOffsetListEnabledFlag }
  let pps ← readIf (chromaQpOffsetListEnabledFlag ≠ 0) pps.readQpOffsetLists pps
  let luma ← ue
  let chroma ← ue
  return { pps with
    log2SaoOffsetScaleLuma := luma % 2 ^ 8, log2SaoOffsetScaleChroma := chroma % 2 ^ 8 }

/-- The extension data is skipped. -/
def skipExtensionData : (fuel : ℕ) → Parse Unit
  | 0 => stuck .unfinished
  | fuel + 1 => do
    let more ← moreRbspData
    if !more then return ()
    skip 1
    skipExtensionData fuel

/-- What is behind the tiles, up to the trailing bits. -/
def readRest (fuel : ℕ) (pps : HevcPps) (sps : HevcSps) : Parse HevcPps := do
  let pps ← pps.readDeblocking
  let pps ← pps.readScaling sps
  let pps ← readIf (pps.ppsRangeExtensionFlag ≠ 0) pps.readRangeExtension pps
  readIf (pps.ppsExtension7bits ≠ 0) (skipExtensionData fuel) ()
  let trailing ← rbspTrailingBits fuel
  return { pps with bConceal := !trailing }

/-- A set, from its default values on. -/
def parse (fuel : ℕ) (pps : HevcPps) (aup : HevcAup) : Parse HevcPps := do
  let r ← next (next (pps.toTiles aup) fun (pps, sps) => pps.readTilesIf sps) fun (pps, sps) => do
    let pps ← pps.readRest fuel sps
    return .inr pps
  return r.elim id id

end HevcPps

/-- The number of the set. -/
def readPpsId (fuel : ℕ) : Parse ℕ := do
  skipAllZerosAndTheNextByte fuel
  let _ ← u 16
  let ppsId ← ue
  return ppsId % 2 ^ 16

/-- `AL_HEVC_ParsePPS`: the tables and `*pPpsId`, which is not written if there is no
such set. -/
def HevcAup.parsePPS (fuel : ℕ) (aup : HevcAup) : Parse (HevcAup × Option ℕ) := do
  let ppsId ← readPpsId fuel
  if hevcMaxPps ≤ ppsId then return (aup, none)
  let pps ← readAt aup.pPPS ppsId
  let pps ← HevcPps.parse fuel { pps.initPps with ppsPicParameterSetId := ppsId } aup
  let pPPS ← writeAt aup.pPPS ppsId pps
  return ({ aup with pPPS }, some ppsId)

end VcuCodec
