import VcuCodec.HevcPps

/-!
# The HEVC picture parameter set of the encoder

`AL_HEVC_GeneratePPS` makes the set of a channel, `AL_HEVC_UpdatePPS` brings it up to date
with the status of every encoded picture, and `writePpsData` writes it.  The set and the
parser's set are the same structure.
-/

namespace VcuCodec

/-! ## The parameters -/

/-- The values of `int8_t`. -/
def FitsInt8 (x : ℤ) : Prop := -2 ^ 7 ≤ x ∧ x < 2 ^ 7
deriving Decidable

/-- What the set is generated from. -/
structure PpsChannel where
  bDependentSlice : Bool
  eQpCtrlMode : ℕ
  eQpTableMode : ℕ
  gdrOn : Bool
  uPpsParam : ℕ
  eEncTools : ℕ
  iCbPicQpOffset : ℤ
  iCrPicQpOffset : ℤ
  iBetaOffset : ℤ
  iTcOffset : ℤ
  uCuQPDeltaDepth : ℕ
  uSliceSize : ℕ
  eRCMode : ℕ
  pMaxPictureSize : ℕ → ℕ
  cb_fits : FitsInt8 iCbPicQpOffset
  cr_fits : FitsInt8 iCrPicQpOffset
  beta_fits : FitsInt8 iBetaOffset
  tc_fits : FitsInt8 iTcOffset
  depth_lt : uCuQPDeltaDepth < 2 ^ 8

/-- `AL_HLSInfo` -/
structure HlsInfo where
  bResolutionChanged : Bool
  uNalID : ℕ
  bLFOffsetChanged : Bool
  iLFBetaOffset : ℤ
  iLFTcOffset : ℤ
  id_lt : uNalID < 2 ^ 8
  beta_fits : FitsInt8 iLFBetaOffset
  tc_fits : FitsInt8 iLFTcOffset

/-- The fields of `AL_TEncPicStatus` that go into the set. -/
structure TileStatus where
  uNumClmn : ℕ
  uNumRow : ℕ
  iTileWidth : ℕ → ℤ
  iTileHeight : ℕ → ℤ
  iPpsQP : ℤ
  uCuQpDeltaDepth : ℕ
  depth_lt : uCuQpDeltaDepth < 2 ^ 8

def rcLowLatency : ℕ := 3
def rcCappedVbr : ℕ := 4

/-- A bit of `uPpsParam`, moved down. -/
def ppsBit (uPpsParam k : ℕ) : ℕ := (uPpsParam &&& 2 ^ k) >>> k

/-- `AL_GET_PPS_ENABLE_REORDERING`, `AL_GET_PPS_CABAC_INIT_PRES_FLAG`,
`AL_GET_PPS_OVERRIDE_LF`, `AL_GET_PPS_DISABLE_LF` and
`AL_GET_PPS_SLICE_CHROMA_QP_OFFSET_PRES_FLAG`. -/
def ppsEnableReordering (uPpsParam : ℕ) : ℕ := ppsBit uPpsParam 0
def ppsCabacInitPresFlag (uPpsParam : ℕ) : ℕ := ppsBit uPpsParam 1
def ppsOverrideLF (uPpsParam : ℕ) : ℕ := ppsBit uPpsParam 12
def ppsDisableLF (uPpsParam : ℕ) : ℕ := ppsBit uPpsParam 13
def ppsSliceChromaQpOffsetPresFlag (uPpsParam : ℕ) : ℕ := ppsBit uPpsParam 14

/-- A condition as 1 or 0. -/
def flagOf (c : Prop) [Decidable c] : ℕ := if c then 1 else 0

/-- The bits of `AL_EChEncTool`. -/
def optWpp : ℕ := 0
def optTile : ℕ := 1
def optLF : ℕ := 2
def optLFXSlice : ℕ := 3
def optLFXTile : ℕ := 4
def optConstIntraPred : ℕ := 6
def optTransfoSkip : ℕ := 7

def encTool (eEncTools opt : ℕ) : ℕ := flagOf (eEncTools &&& 2 ^ opt ≠ 0)

namespace HevcPps

/-! ## The functions of the encoder -/

/-- `AL_HEVC_GenerateFilterParam`. -/
def generateFilterParam (pPPS : HevcPps) (bIsGDR : Bool) (eEncTools uPPSParam : ℕ)
    (iBetaOffset iTcOffset : ℤ) : HevcPps :=
  let present := flagOf (bIsGDR ∨ encTool eEncTools optLF = 0 ∨ ppsOverrideLF uPPSParam ≠ 0 ∨
    iBetaOffset ≠ 0 ∨ iTcOffset ≠ 0)
  let enabled : Prop := present ≠ 0 ∧ ppsDisableLF uPPSParam = 0
  { pPPS with
    deblockingFilterControlPresentFlag := present
    deblockingFilterOverrideEnabledFlag :=
      if present ≠ 0 then ppsOverrideLF uPPSParam else pPPS.deblockingFilterOverrideEnabledFlag
    ppsDeblockingFilterDisabledFlag :=
      if present ≠ 0 then ppsDisableLF uPPSParam else pPPS.ppsDeblockingFilterDisabledFlag
    ppsBetaOffsetDiv2 := if enabled then iBetaOffset else pPPS.ppsBetaOffsetDiv2
    ppsTcOffsetDiv2 := if enabled then iTcOffset else pPPS.ppsTcOffsetDiv2 }

/-- `AL_HEVC_GeneratePPS` of the base layer. -/
def generate (pPPS : HevcPps) (pChParam : PpsChannel) (iMaxRef : ℤ) : HevcPps :=
  let numRef : ℤ := (iMaxRef - 1) % 2 ^ 8
  let pPPS := { pPPS with
    ppsPicParameterSetId := 0
    ppsSeqParameterSetId := 0
    dependentSliceSegmentsEnabledFlag := flagOf pChParam.bDependentSlice
    outputFlagPresentFlag := 0
    numExtraSliceHeaderBits := 0
    signDataHidingFlag := 0
    cabacInitPresentFlag := ppsCabacInitPresFlag pChParam.uPpsParam
    numRefIdxL0DefaultActiveMinus1 := numRef
    numRefIdxL1DefaultActiveMinus1 := numRef
    initQpMinus26 := 0
    constrainedIntraPredFlag := encTool pChParam.eEncTools optConstIntraPred
    transformSkipEnabledFlag := encTool pChParam.eEncTools optTransfoSkip
    cuQpDeltaEnabledFlag := flagOf (pChParam.eQpCtrlMode ≠ 0 ∨ pChParam.eQpTableMode ≠ 0 ∨
      pChParam.eRCMode = rcLowLatency ∨ 0 < pChParam.pMaxPictureSize 0 ∨
      0 < pChParam.pMaxPictureSize 1 ∨ 0 < pChParam.pMaxPictureSize 2 ∨
      pChParam.eRCMode = rcCappedVbr ∨ pChParam.uSliceSize ≠ 0)
    diffCuQpDeltaDepth := pChParam.uCuQPDeltaDepth
    ppsCbQpOffset := pChParam.iCbPicQpOffset
    ppsCrQpOffset := pChParam.iCrPicQpOffset
    ppsSliceChromaQpOffsetsPresentFlag := ppsSliceChromaQpOffsetPresFlag pChParam.uPpsParam
    weightedPredFlag := 0
    weightedBipredFlag := 0
    transquantBypassEnabledFlag := 0
    tilesEnabledFlag := encTool pChParam.eEncTools optTile
    entropyCodingSyncEnabledFlag := encTool pChParam.eEncTools optWpp
    uniformSpacingFlag := 1
    loopFilterAcrossTilesEnabledFlag := encTool pChParam.eEncTools optLFXTile
    loopFilterAcrossSlicesEnabledFlag := encTool pChParam.eEncTools optLFXSlice }
  let pPPS := pPPS.generateFilterParam pChParam.gdrOn pChParam.eEncTools pChParam.uPpsParam
    pChParam.iBetaOffset pChParam.iTcOffset
  { pPPS with
    ppsScalingListDataPresentFlag := 0
    listsModificationPresentFlag := ppsEnableReordering pChParam.uPpsParam
    log2ParallelMergeLevelMinus2 := 0
    sliceSegmentHeaderExtensionPresentFlag := 0
    ppsExtensionPresentFlag := 0 }

/-- The first `num` sizes of a status in a table of `uint16_t`. -/
def copySizes (num : ℕ) (sizes : ℕ → ℤ) (table : ℕ → ℕ) : ℕ → ℕ := fun i =>
  if i < num then (sizes i % 2 ^ 16).toNat else table i

/-- The tiles of `AL_HEVC_UpdatePPS`. -/
def updateTiles (pPPS : HevcPps) (pPicStatus : TileStatus) : HevcPps :=
  let columns := ((pPicStatus.uNumClmn - 1 : ℤ) % 2 ^ 16).toNat
  let rows := ((pPicStatus.uNumRow - 1 : ℤ) % 2 ^ 16).toNat
  let pPPS := { pPPS with numTileColumnsMinus1 := columns, numTileRowsMinus1 := rows }
  if columns = 0 then { pPPS with tilesEnabledFlag := 0 }
  else { pPPS with
    tilesEnabledFlag := 1
    columnWidth := copySizes (pPicStatus.uNumClmn - 1) pPicStatus.iTileWidth pPPS.columnWidth
    rowHeight := copySizes (pPicStatus.uNumRow - 1) pPicStatus.iTileHeight pPPS.rowHeight }

/-- What `AL_HEVC_UpdatePPS` does behind the tiles: the delta depth, and the numbers of a
new resolution. -/
def updateIds (pPPS : HevcPps) (pPicStatus : TileStatus) (pHLSInfo : HlsInfo) : HevcPps :=
  let pPPS := { pPPS with diffCuQpDeltaDepth := pPicStatus.uCuQpDeltaDepth }
  if pHLSInfo.bResolutionChanged then
    { pPPS with
      ppsPicParameterSetId := pHLSInfo.uNalID
      ppsSeqParameterSetId := pHLSInfo.uNalID }
  else pPPS

/-- `AL_HEVC_UpdatePPS`, without its result, which forces the set to be written. -/
def update (pPPS : HevcPps) (pChParam : PpsChannel) (pPicStatus : TileStatus) (pHLSInfo : HlsInfo) :
    HevcPps :=
  let pPPS := { pPPS with initQpMinus26 := toInt8 (pPicStatus.iPpsQP - 26) }
  let pPPS := (pPPS.updateTiles pPicStatus).updateIds pPicStatus pHLSInfo
  if pHLSInfo.bLFOffsetChanged then
    pPPS.generateFilterParam pChParam.gdrOn pChParam.eEncTools pChParam.uPpsParam
      pHLSInfo.iLFBetaOffset pHLSInfo.iLFTcOffset
  else pPPS

/-! ## The syntax -/

def bit (flag : ℕ) : SyntaxElement := ⟨.u 1, flag⟩

/-- `PutUE` of an `int`, whose value is converted. -/
def uintElement (x : ℤ) : SyntaxElement := ⟨.ue, toUInt32 x⟩

/-- The elements of `num` explicit sizes. -/
def sizeElements (num : ℕ) (sizes : ℕ → ℕ) : List SyntaxElement :=
  (List.range num).map fun i => uintElement (sizes i - 1)

/-- The elements in front of the tiles, behind the numbers of the sets. -/
def headElements (pPps : HevcPps) : List SyntaxElement :=
  [bit pPps.dependentSliceSegmentsEnabledFlag, bit pPps.outputFlagPresentFlag, ⟨.u 3, 0⟩,
    bit pPps.signDataHidingFlag, bit pPps.cabacInitPresentFlag,
    uintElement pPps.numRefIdxL0DefaultActiveMinus1, uintElement pPps.numRefIdxL1DefaultActiveMinus1,
    ⟨.se, pPps.initQpMinus26⟩, bit pPps.constrainedIntraPredFlag, bit pPps.transformSkipEnabledFlag,
    bit pPps.cuQpDeltaEnabledFlag] ++
  (if pPps.cuQpDeltaEnabledFlag ≠ 0 then [uintElement pPps.diffCuQpDeltaDepth] else []) ++
  [⟨.se, pPps.ppsCbQpOffset⟩, ⟨.se, pPps.ppsCrQpOffset⟩,
    bit pPps.ppsSliceChromaQpOffsetsPresentFlag, bit pPps.weightedPredFlag,
    bit pPps.weightedBipredFlag, bit pPps.transquantBypassEnabledFlag, bit pPps.tilesEnabledFlag,
    bit pPps.entropyCodingSyncEnabledFlag]

/-- The tiles; the sizes are always explicit. -/
def tileElements (pPps : HevcPps) : List SyntaxElement :=
  if pPps.tilesEnabledFlag ≠ 0 then
    [uintElement pPps.numTileColumnsMinus1, uintElement pPps.numTileRowsMinus1, bit 0] ++
      sizeElements pPps.numTileColumnsMinus1 pPps.columnWidth ++
      sizeElements pPps.numTileRowsMinus1 pPps.rowHeight ++
      [bit pPps.loopFilterAcrossTilesEnabledFlag]
  else []

/-- The elements behind the tiles. -/
def restElements (pPps : HevcPps) : List SyntaxElement :=
  [bit pPps.loopFilterAcrossSlicesEnabledFlag, bit pPps.deblockingFilterControlPresentFlag] ++
  (if pPps.deblockingFilterControlPresentFlag ≠ 0 then
    [bit pPps.deblockingFilterOverrideEnabledFlag, bit pPps.ppsDeblockingFilterDisabledFlag] ++
      if pPps.ppsDeblockingFilterDisabledFlag = 0 then
        [⟨.se, pPps.ppsBetaOffsetDiv2⟩, ⟨.se, pPps.ppsTcOffsetDiv2⟩]
      else []
  else []) ++
  [bit pPps.ppsScalingListDataPresentFlag, bit pPps.listsModificationPresentFlag,
    uintElement pPps.log2ParallelMergeLevelMinus2, bit 0, bit pPps.ppsExtensionPresentFlag]

/-- `writePpsData` -/
def elements (pPps : HevcPps) : List SyntaxElement :=
  [uintElement pPps.ppsPicParameterSetId, uintElement pPps.ppsSeqParameterSetId] ++
    pPps.headElements ++ pPps.tileElements ++ pPps.restElements

/-! ## What can be written -/

/-- The flags of a set that are always valid. -/
def flags (pPps : HevcPps) : List ℕ :=
  [pPps.dependentSliceSegmentsEnabledFlag, pPps.outputFlagPresentFlag, pPps.signDataHidingFlag,
    pPps.cabacInitPresentFlag, pPps.constrainedIntraPredFlag, pPps.transformSkipEnabledFlag,
    pPps.cuQpDeltaEnabledFlag, pPps.ppsSliceChromaQpOffsetsPresentFlag, pPps.weightedPredFlag,
    pPps.weightedBipredFlag, pPps.transquantBypassEnabledFlag, pPps.tilesEnabledFlag,
    pPps.entropyCodingSyncEnabledFlag, pPps.loopFilterAcrossTilesEnabledFlag,
    pPps.loopFilterAcrossSlicesEnabledFlag, pPps.deblockingFilterControlPresentFlag,
    pPps.listsModificationPresentFlag]

/-- The fields that are written are in their ranges; a set and its sequence parameter set
have one number. -/
structure Coded (pPps : HevcPps) : Prop where
  same_id : pPps.ppsPicParameterSetId = pPps.ppsSeqParameterSetId
  id_lt : pPps.ppsPicParameterSetId < 2 ^ 8
  flag_lt : ∀ f ∈ pPps.flags, f < 2
  refL0 : 0 ≤ pPps.numRefIdxL0DefaultActiveMinus1 ∧ pPps.numRefIdxL0DefaultActiveMinus1 < 2 ^ 8
  refL1 : 0 ≤ pPps.numRefIdxL1DefaultActiveMinus1 ∧ pPps.numRefIdxL1DefaultActiveMinus1 < 2 ^ 8
  qp : FitsInt8 pPps.initQpMinus26
  depth : 0 ≤ pPps.diffCuQpDeltaDepth ∧ pPps.diffCuQpDeltaDepth < 2 ^ 8
  cb : FitsInt8 pPps.ppsCbQpOffset
  cr : FitsInt8 pPps.ppsCrQpOffset
  filter : pPps.deblockingFilterControlPresentFlag ≠ 0 →
    pPps.deblockingFilterOverrideEnabledFlag < 2 ∧ pPps.ppsDeblockingFilterDisabledFlag < 2
  offsets : pPps.deblockingFilterControlPresentFlag ≠ 0 → pPps.ppsDeblockingFilterDisabledFlag = 0 →
    FitsInt8 pPps.ppsBetaOffsetDiv2 ∧ FitsInt8 pPps.ppsTcOffsetDiv2
  scaling : pPps.ppsScalingListDataPresentFlag = 0
  level : pPps.log2ParallelMergeLevelMinus2 = 0
  extension : pPps.ppsExtensionPresentFlag = 0

theorem flagOf_lt (c : Prop) [Decidable c] : flagOf c < 2 := by
  unfold flagOf
  split <;> decide

theorem ppsBit_lt (uPpsParam k : ℕ) : ppsBit uPpsParam k < 2 := by
  unfold ppsBit
  rw [Nat.shiftRight_eq_div_pow, Nat.and_two_pow]
  have hbit := Bool.toNat_lt (uPpsParam.testBit k)
  rw [Nat.mul_div_cancel _ (Nat.two_pow_pos k)]
  exact hbit

theorem encTool_lt (eEncTools opt : ℕ) : encTool eEncTools opt < 2 := flagOf_lt _

theorem toInt8_fits (x : ℤ) : FitsInt8 (toInt8 x) := by
  constructor
  · exact Int.le_bmod (by decide)
  · exact Int.bmod_lt (by decide)

variable {pPPS : HevcPps}

theorem Coded.generateFilterParam (h : pPPS.Coded) (bIsGDR : Bool)
    (eEncTools uPPSParam : ℕ) {iBetaOffset iTcOffset : ℤ} (hbeta : FitsInt8 iBetaOffset)
    (htc : FitsInt8 iTcOffset) :
    (pPPS.generateFilterParam bIsGDR eEncTools uPPSParam iBetaOffset iTcOffset).Coded where
  same_id := h.same_id
  id_lt := h.id_lt
  flag_lt := by
    have hflags := h.flag_lt
    simp only [flags, List.forall_mem_cons] at hflags ⊢
    simp only [HevcPps.generateFilterParam, flagOf_lt, hflags, true_and]
    exact List.forall_mem_nil _
  refL0 := h.refL0
  refL1 := h.refL1
  qp := h.qp
  depth := h.depth
  cb := h.cb
  cr := h.cr
  filter hpresent := by
    simp only [HevcPps.generateFilterParam] at hpresent ⊢
    rw [if_pos hpresent, if_pos hpresent]
    exact ⟨ppsBit_lt _ _, ppsBit_lt _ _⟩
  offsets hpresent henabled := by
    simp only [HevcPps.generateFilterParam] at hpresent henabled ⊢
    rw [if_pos hpresent] at henabled
    rw [if_pos ⟨hpresent, henabled⟩, if_pos ⟨hpresent, henabled⟩]
    exact ⟨hbeta, htc⟩
  scaling := h.scaling
  level := h.level
  extension := h.extension

theorem coded_generate (pPPS : HevcPps) (pChParam : PpsChannel) (iMaxRef : ℤ) :
    (pPPS.generate pChParam iMaxRef).Coded where
  same_id := rfl
  id_lt := Nat.two_pow_pos 8
  flag_lt := by
    simp only [flags, List.forall_mem_cons, generate, HevcPps.generateFilterParam, flagOf_lt,
      encTool_lt, ppsCabacInitPresFlag, ppsSliceChromaQpOffsetPresFlag, ppsEnableReordering,
      ppsBit_lt, true_and]
    decide
  refL0 := ⟨Int.emod_nonneg _ (by decide), Int.emod_lt_of_pos _ (by decide)⟩
  refL1 := ⟨Int.emod_nonneg _ (by decide), Int.emod_lt_of_pos _ (by decide)⟩
  qp := toInt8_fits 0
  depth := ⟨Int.natCast_nonneg _, Int.ofNat_lt.mpr pChParam.depth_lt⟩
  cb := pChParam.cb_fits
  cr := pChParam.cr_fits
  filter hpresent := by
    simp only [generate, HevcPps.generateFilterParam] at hpresent ⊢
    rw [if_pos hpresent, if_pos hpresent]
    exact ⟨ppsBit_lt _ _, ppsBit_lt _ _⟩
  offsets hpresent henabled := by
    simp only [generate, HevcPps.generateFilterParam] at hpresent henabled ⊢
    rw [if_pos hpresent] at henabled
    rw [if_pos ⟨hpresent, henabled⟩, if_pos ⟨hpresent, henabled⟩]
    exact ⟨pChParam.beta_fits, pChParam.tc_fits⟩
  scaling := rfl
  level := rfl
  extension := rfl

theorem Coded.updateTiles (h : pPPS.Coded) (pPicStatus : TileStatus) :
    (pPPS.updateTiles pPicStatus).Coded := by
  have hflags := h.flag_lt
  simp only [flags, List.forall_mem_cons] at hflags
  unfold HevcPps.updateTiles
  dsimp only
  split
  · refine { h with flag_lt := ?_ }
    simp only [flags, List.forall_mem_cons, hflags, true_and]
    exact ⟨by decide, List.forall_mem_nil _⟩
  · refine { h with flag_lt := ?_ }
    simp only [flags, List.forall_mem_cons, hflags, true_and]
    exact ⟨by decide, List.forall_mem_nil _⟩

theorem Coded.updateIds (h : pPPS.Coded) (pPicStatus : TileStatus)
    (pHLSInfo : HlsInfo) : (pPPS.updateIds pPicStatus pHLSInfo).Coded := by
  have hdepth : 0 ≤ (pPicStatus.uCuQpDeltaDepth : ℤ) ∧ (pPicStatus.uCuQpDeltaDepth : ℤ) < 2 ^ 8 :=
    ⟨Int.natCast_nonneg _, Int.ofNat_lt.mpr pPicStatus.depth_lt⟩
  unfold HevcPps.updateIds
  dsimp only
  split
  · exact { h with same_id := rfl, id_lt := pHLSInfo.id_lt, depth := hdepth }
  · exact { h with depth := hdepth }

theorem Coded.update (h : pPPS.Coded) (pChParam : PpsChannel)
    (pPicStatus : TileStatus) (pHLSInfo : HlsInfo) :
    (pPPS.update pChParam pPicStatus pHLSInfo).Coded := by
  have hqp : Coded { pPPS with initQpMinus26 := toInt8 (pPicStatus.iPpsQP - 26) } :=
    { h with qp := toInt8_fits _ }
  have hids := (hqp.updateTiles pPicStatus).updateIds pPicStatus pHLSInfo
  unfold HevcPps.update
  dsimp only
  split
  · exact hids.generateFilterParam _ _ _ pHLSInfo.beta_fits pHLSInfo.tc_fits
  · exact hids

/-- The set of a channel behind the statuses of its pictures. -/
def updates (pPPS : HevcPps) (l : List (PpsChannel × TileStatus × HlsInfo)) : HevcPps :=
  l.foldl (fun pPPS e => pPPS.update e.1 e.2.1 e.2.2) pPPS

theorem Coded.updates (h : pPPS.Coded)
    (l : List (PpsChannel × TileStatus × HlsInfo)) : (pPPS.updates l).Coded := by
  induction l generalizing pPPS with
  | nil => exact h
  | cons e l ih => exact ih (h.update e.1 e.2.1 e.2.2)

end HevcPps

end VcuCodec
