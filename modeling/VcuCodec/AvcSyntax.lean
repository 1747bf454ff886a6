import VcuCodec.MachineInts

/-!
# AVC parameter sets and slice headers

The fields of `AL_TAvcSps` and `AL_TAvcSliceHdr` that the picture manager and
the decoded picture buffer read.  The arrays of the slice header have 32
entries and are cleared before the header is parsed.
-/

namespace VcuCodec

/-- `AL_TAvcSps` -/
structure AvcSps where
  log2MaxFrameNumMinus4 : ℕ
  picOrderCntType : ℕ
  log2MaxPicOrderCntLsbMinus4 : ℕ
  offsetForNonRefPic : ℤ
  offsetForTopToBottomField : ℤ
  offsetForRefFrame : List ℤ
  maxNumRefFrames : ℕ
  gapsInFrameNumValueAllowedFlag : Bool

def AvcSps.numRefFramesInPicOrderCntCycle (sps : AvcSps) : ℕ := sps.offsetForRefFrame.length

/-- `MaxFrameNum`, as `1 << (log2_max_frame_num_minus4 + 4)` -/
def AvcSps.maxFrameNum (sps : AvcSps) : ℕ := 2 ^ (sps.log2MaxFrameNumMinus4 + 4)

/-- `MaxPicOrderCntLsb`, as `1u << (log2_max_pic_order_cnt_lsb_minus4 + 4)` -/
def AvcSps.maxPicOrderCntLsb (sps : AvcSps) : ℕ := 2 ^ (sps.log2MaxPicOrderCntLsbMinus4 + 4)

/-- `AL_AVC_NUT_VCL_IDR` -/
def avcNutVclIdr : ℕ := 5

/-- `AL_TAvcSliceHdr` -/
structure AvcSliceHdr where
  sps : AvcSps
  nalUnitType : ℕ
  nalRefIdc : ℕ
  frameNum : ℕ
  picOrderCntLsb : ℕ
  deltaPicOrderCntBottom : ℤ
  deltaPicOrderCnt : ℤ × ℤ
  longTermReferenceFlag : Bool
  adaptiveRefPicMarkingModeFlag : Bool
  memoryManagementControlOperation : List ℕ
  differenceOfPicNumsMinus1 : List ℤ
  longTermPicNum : List ℤ
  longTermFrameIdx : List ℤ
  maxLongTermFrameIdxPlus1 : List ℤ

/-- `AL_AVC_IsIDR` -/
def AvcSliceHdr.isIDR (slice : AvcSliceHdr) : Bool := slice.nalUnitType == avcNutVclIdr

/-- The list of memory-management operations ends inside its array. -/
def AvcSliceHdr.MmcoTerminated (slice : AvcSliceHdr) : Prop :=
  0 ∈ slice.memoryManagementControlOperation
deriving Decidable

end VcuCodec
