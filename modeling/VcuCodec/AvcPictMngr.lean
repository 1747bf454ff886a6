import VcuCodec.DpbMarking
import VcuCodec.PocLsb
import VcuCodec.TracedRuns

/-!
# The AVC picture manager

`lib_parsing/Avc_PictMngr.c` and the calls `AvcDecoder.c` makes of it for each
picture: the order counts of the current picture, the frames inferred in a gap
of frame numbers, and the insertion and marking of the decoded picture.
-/

namespace VcuCodec

open LinkedLists

/-! ## What is read of a slice header -/

/-- The slice header of an inferred frame. -/
def AvcSliceHdr.unused (slice : AvcSliceHdr) (frameNum : ℕ) : AvcSliceHdr :=
  { slice with frameNum := frameNum, adaptiveRefPicMarkingModeFlag := false }

/-- The marking that `updatePictManager` inserts a picture with. -/
def AvcSliceHdr.markingFlag (slice : AvcSliceHdr) : MarkingRef :=
  if slice.nalRefIdc ≠ 0 ∨ slice.isIDR then
    if slice.longTermReferenceFlag then .longTermRef else .shortTermRef
  else .unusedForRef

/-! ## The context -/

/-- The part of `AL_TPictMngrCtx` that is kept from picture to picture. -/
structure PictMngr where
  dpb : Dpb
  bFirstInit : Bool
  uRecID : ℕ
  uMvID : ℕ
  iCurFramePOC : ℤ
  iPrevPocMSB : ℤ
  uPrevPocLSB : ℕ
  iPrevFrameNumOffset : ℤ
  iPrevFrameNum : ℤ
  iTopFieldOrderCnt : ℤ
  iBotFieldOrderCnt : ℤ

namespace PictMngr

def setDpb (m : PictMngr) (dpb : Dpb) : PictMngr := { m with dpb := dpb }

def setCurFramePOC (m : PictMngr) (iCurFramePOC : ℤ) : PictMngr :=
  { m with iCurFramePOC := iCurFramePOC }

def setPrevFrameNum (m : PictMngr) (iPrevFrameNum : ℤ) : PictMngr :=
  { m with iPrevFrameNum := iPrevFrameNum }

/-- The buffers of the current picture, from `AL_PictMngr_BeginFrame`. -/
def setBuffers (m : PictMngr) (uRecID uMvID : ℕ) : PictMngr :=
  { m with uRecID := uRecID, uMvID := uMvID }

/-! ## Picture order counts -/

/-- The memory of `AL_sGetPocType0`: the previous MSB and LSB. -/
def prevPoc (m : PictMngr) (slice : AvcSliceHdr) : ℤ × ℕ :=
  if slice.isIDR then (0, 0)
  else if m.dpb.bLastHasMMCO5 then (0, toUInt32 m.iTopFieldOrderCnt)
  else (m.iPrevPocMSB, m.uPrevPocLSB)

/-- `AL_sGetPocType0` -/
def getPocType0 (m : PictMngr) (slice : AvcSliceHdr) : PictMngr :=
  let uMaxPocLSB := slice.sps.maxPicOrderCntLsb
  let (iPrevPocMSB, uPrevPocLSB) := m.prevPoc slice
  let iPrevPocMSB := nextPocMsb uMaxPocLSB iPrevPocMSB uPrevPocLSB slice.picOrderCntLsb
  let iTopFieldOrderCnt := toInt32 (iPrevPocMSB + slice.picOrderCntLsb)
  { m with
    iTopFieldOrderCnt := iTopFieldOrderCnt
    iBotFieldOrderCnt := toInt32 (iTopFieldOrderCnt + slice.deltaPicOrderCntBottom)
    uPrevPocLSB := if slice.nalRefIdc ≠ 0 then slice.picOrderCntLsb else m.uPrevPocLSB
    iPrevPocMSB := if slice.nalRefIdc ≠ 0 then iPrevPocMSB else m.iPrevPocMSB }

/-- The reset of the frame numbers behind a picture with operation 5, which
`AL_sGetPocType1` and `AL_sGetPocType2` share. -/
def forgetFrameNum (m : PictMngr) (slice : AvcSliceHdr) : PictMngr :=
  if !slice.isIDR && m.dpb.bLastHasMMCO5 then
    { m with iPrevFrameNumOffset := 0, iPrevFrameNum := 0 }
  else m

/-- `iFrameNumOffset`, which the same two functions share. -/
def frameNumOffset (m : PictMngr) (slice : AvcSliceHdr) : ℤ :=
  if slice.isIDR then 0
  else if (slice.frameNum : ℤ) < m.iPrevFrameNum then
    toInt32 (m.iPrevFrameNumOffset + slice.sps.maxFrameNum)
  else m.iPrevFrameNumOffset

/-- A loop `iSum += offset` over `offsets`. -/
def addOffsets (iSum : ℤ) (offsets : List ℤ) : ℤ :=
  offsets.foldl (fun iSum offset => toInt32 (iSum + offset)) iSum

/-- `iExpectedPicOrderCnt` before the offset of a picture that is no reference. -/
def expectedPicOrderCnt (sps : AvcSps) (iAbsFrameNum : ℤ) : ℤ :=
  if 0 < iAbsFrameNum then
    let iPicOrderCntCycleCnt := (iAbsFrameNum - 1) / sps.numRefFramesInPicOrderCntCycle
    let iFrameNumInPicOrderCntCycle := (iAbsFrameNum - 1) % sps.numRefFramesInPicOrderCntCycle
    addOffsets (toInt32 (iPicOrderCntCycleCnt * addOffsets 0 sps.offsetForRefFrame))
      (sps.offsetForRefFrame.take (iFrameNumInPicOrderCntCycle.toNat + 1))
  else 0

/-- `AL_sGetPocType1` -/
def getPocType1 (m : PictMngr) (slice : AvcSliceHdr) : PictMngr :=
  let m := m.forgetFrameNum slice
  let iFrameNumOffset := m.frameNumOffset slice
  let iAbsFrameNum :=
    if slice.sps.numRefFramesInPicOrderCntCycle ≠ 0 then
      toInt32 (iFrameNumOffset + slice.frameNum)
    else 0
  let iAbsFrameNum :=
    if slice.nalRefIdc = 0 ∧ 0 < iAbsFrameNum then iAbsFrameNum - 1 else iAbsFrameNum
  let iExpectedPicOrderCnt := expectedPicOrderCnt slice.sps iAbsFrameNum
  let iExpectedPicOrderCnt :=
    if slice.nalRefIdc = 0 then toInt32 (iExpectedPicOrderCnt + slice.sps.offsetForNonRefPic)
    else iExpectedPicOrderCnt
  let iTopFieldOrderCnt := toInt32 (iExpectedPicOrderCnt + slice.deltaPicOrderCnt.1)
  { m with
    iPrevFrameNumOffset := iFrameNumOffset
    iTopFieldOrderCnt := iTopFieldOrderCnt
    iBotFieldOrderCnt := toInt32 (iTopFieldOrderCnt + slice.sps.offsetForTopToBottomField +
      slice.deltaPicOrderCnt.2) }

/-- `AL_sGetPocType2` -/
def getPocType2 (m : PictMngr) (slice : AvcSliceHdr) : PictMngr :=
  let m := m.forgetFrameNum slice
  let iFrameNumOffset := m.frameNumOffset slice
  let iTempPicOrderCnt :=
    if slice.isIDR then 0
    else if slice.nalRefIdc = 0 then toInt32 (2 * (iFrameNumOffset + slice.frameNum) - 1)
    else toInt32 (2 * (iFrameNumOffset + slice.frameNum))
  { m with
    iPrevFrameNumOffset := iFrameNumOffset
    iTopFieldOrderCnt := iTempPicOrderCnt
    iBotFieldOrderCnt := iTempPicOrderCnt }

/-- `AL_sCalculatePOC`: the context it leaves and the POC it returns. -/
def calculatePOC (m : PictMngr) (slice : AvcSliceHdr) : PictMngr × ℤ :=
  let withPOC (m : PictMngr) := (m, min m.iTopFieldOrderCnt m.iBotFieldOrderCnt)
  match slice.sps.picOrderCntType with
  | 0 => withPOC (m.getPocType0 slice)
  | 1 => withPOC (m.getPocType1 slice)
  | 2 => withPOC (m.getPocType2 slice)
  | _ => (m, toInt32 0xBAADF00D)

def setCurrentPOC (m : PictMngr) (slice : AvcSliceHdr) : PictMngr :=
  let (m, iCurPoc) := m.calculatePOC slice
  m.setCurFramePOC iCurPoc

/-! ## Inserting pictures -/

end PictMngr

/-- `AL_Dpb_GetNextFreeNode`, which does not end where no node is free -/
def Dpb.getNextFreeNode (d : Dpb) : Option ℕ :=
  (List.range maxDpbSize).find? fun i =>
    (d.nodes i).eMarkingFlag = .unusedForRef ∧ (d.nodes i).picOutputFlag = false

def Dpb.searchPOC (d : Dpb) (iPOC : ℤ) : Option ℕ :=
  whileLinked uEndOfList (fun uParse uFound =>
    let n := d.nodes uParse
    if n.iFramePOC = iPOC ∧ n.eMarkingFlag ≠ .unusedForRef ∧ n.nonExisting = false then
      some (uParse, uEndOfList)
    else some (uFound, n.uNextPOC)) walkFuel d.uHeadPOC uEndOfList

/-- The loop of `AL_AVC_PictMngr_EndParsing` over the present pictures. -/
def Dpb.incrementPicLatencies (d : Dpb) (iCurFramePOC : ℤ) : Option Dpb :=
  whileLinked uEndOfList (fun uNode d =>
    some (d.incrementPicLatency uNode iCurFramePOC, (d.nodes uNode).uNextPOC))
    walkFuel d.uHeadPOC d

/-- The part of `AL_AVC_PictMngr_EndParsing` that drops a picture with the same
POC. -/
def Dpb.dropSamePOC (d : Dpb) (iCurFramePOC : ℤ) : Option Dpb := do
  let uDelete ← d.searchPOC iCurFramePOC
  if uDelete ≠ uEndOfList then do
    let d ← d.displayIf (d.nodes uDelete).picOutputFlag uDelete
    some (d.remove uDelete)
  else some d

/-- `AL_PictMngr_Insert`, which puts the picture of `a` into a free node -/
def Dpb.insertFree (d : Dpb) (a : InsertArgs) : Option Dpb := do
  let uNode ← d.getNextFreeNode
  let d := if (d.nodes uNode).bIsReset then d else d.remove uNode
  d.insert { a with uNode := uNode }

namespace PictMngr

def flush (m : PictMngr) : Option PictMngr :=
  if m.bFirstInit then m.dpb.flush.map fun d => m.setDpb d.beginNewSeq else some m

/-- A call of `AL_PictMngr_Flush` under the condition `b`. -/
def flushIf (m : PictMngr) (b : Bool) : Option PictMngr := if b then m.flush else some m

/-- The decoded picture, as `AL_AVC_PictMngr_EndParsing` inserts it. -/
def currentPicture (m : PictMngr) (eMarkingFlag : MarkingRef) : InsertArgs where
  iFramePOC := m.iCurFramePOC
  uPocLsb := 0
  uNode := uEndOfList
  uFrmID := m.uRecID
  uMvID := m.uMvID
  picOutputFlag := true
  eMarkingFlag := eMarkingFlag
  nonExisting := false
  eNUT := 0

def endParsing (m : PictMngr) (bClearRef : Bool) (eMarkingFlag : MarkingRef) :
    Option PictMngr := do
  let m ← m.flushIf bClearRef
  let d ← m.dpb.incrementPicLatencies m.iCurFramePOC
  let d ← d.dropSamePOC m.iCurFramePOC
  let d ← d.insertFree (m.currentPicture eMarkingFlag)
  some (m.setDpb (d.setLastHasMMCO5 false))

/-! ## Gaps in the frame numbers -/

/-- What is computed for one picture. -/
structure OrderCounts where
  frameNumOffset : ℤ
  topFieldOrderCnt : ℤ
  bottomFieldOrderCnt : ℤ
  deriving DecidableEq, Repr

def orderCounts (m : PictMngr) : OrderCounts :=
  ⟨m.iPrevFrameNumOffset, m.iTopFieldOrderCnt, m.iBotFieldOrderCnt⟩

/-- A frame inferred by `AL_AVC_PictMngr_Fill_Gap_In_FrameNum`. -/
def inferredPicture (iFramePOC : ℤ) : InsertArgs where
  iFramePOC := iFramePOC
  uPocLsb := 0
  uNode := uEndOfList
  uFrmID := uEndOfList
  uMvID := uEndOfList
  picOutputFlag := false
  eMarkingFlag := .shortTermRef
  nonExisting := true
  eNUT := 0

/-- One turn of the loop of `AL_AVC_PictMngr_Fill_Gap_In_FrameNum`. -/
def inferFrame (m : PictMngr) (slice : AvcSliceHdr) (unusedShortTermFrameNum : ℕ) :
    Option PictMngr := do
  let unusedSlice := slice.unused unusedShortTermFrameNum
  let (m, iFramePOC) := m.calculatePOC unusedSlice
  let d ← m.dpb.insertFree (inferredPicture iFramePOC)
  let d ← d.markingProcess unusedSlice
  let d ← d.avcCleanup
  some ((m.setDpb d).setPrevFrameNum unusedShortTermFrameNum)

/-- The loop of `AL_AVC_PictMngr_Fill_Gap_In_FrameNum` for at most `n` turns,
with the order counts of the frames it infers. -/
def inferFrames (slice : AvcSliceHdr) : ℕ → ℕ → PictMngr → Option (PictMngr × List OrderCounts)
  | 0, _, _ => none
  | n + 1, unusedShortTermFrameNum, m =>
    if slice.frameNum = unusedShortTermFrameNum then some (m, [])
    else do
      let m ← m.inferFrame slice unusedShortTermFrameNum
      let (m', counts) ←
        inferFrames slice n ((unusedShortTermFrameNum + 1) % slice.sps.maxFrameNum) m
      some (m', m.orderCounts :: counts)

/-- The frame number behind the previous one. -/
def nextFrameNum (m : PictMngr) (slice : AvcSliceHdr) : ℕ :=
  toUInt32 (m.iPrevFrameNum + 1) % slice.sps.maxFrameNum

/-- The test of `AL_AVC_PictMngr_Fill_Gap_In_FrameNum`. -/
def hasGap (m : PictMngr) (slice : AvcSliceHdr) : Bool :=
  !slice.isIDR && (slice.frameNum : ℤ) != m.iPrevFrameNum &&
    slice.frameNum != m.nextFrameNum slice && slice.sps.gapsInFrameNumValueAllowedFlag

def fillGapInFrameNum (m : PictMngr) (slice : AvcSliceHdr) :
    Option (PictMngr × List OrderCounts) :=
  if m.hasGap slice then
    inferFrames slice (slice.sps.maxFrameNum + 1) (m.nextFrameNum slice) m
  else some (m, [])

/-! ## Decoding a picture -/

/-- The marking of a reference picture in `updatePictManager`. -/
def markReference (m : PictMngr) (slice : AvcSliceHdr) : Option PictMngr :=
  if slice.nalRefIdc ≠ 0 then do
    let d ← m.dpb.markingProcess slice
    let m := m.setDpb d
    some (if d.bLastHasMMCO5 then (m.setPrevFrameNum 0).setCurFramePOC 0 else m)
  else some m

def updatePictManager (m : PictMngr) (slice : AvcSliceHdr) : Option PictMngr := do
  let m ← (m.setPrevFrameNum slice.frameNum).endParsing slice.isIDR slice.markingFlag
  let m ← m.markReference slice
  let d ← m.dpb.avcCleanup
  some (m.setDpb d)

end PictMngr

/-- A picture of the stream: the header of its first slice and the buffers it
is decoded into. -/
structure AvcPicture where
  slice : AvcSliceHdr
  uRecID : ℕ
  uMvID : ℕ

namespace PictMngr

/-- The order counts of one picture and of the frames inferred in front of it. -/
structure PictureCounts where
  own : OrderCounts
  inferred : List OrderCounts
  deriving DecidableEq, Repr

/-- One picture, in the order of `decodeSliceData` and `reallyEndFrame`: the
current POC is set before the gap in front of the picture is filled. -/
def decodePicture (m : PictMngr) (p : AvcPicture) : Option (PictMngr × PictureCounts) := do
  let m := m.setCurrentPOC p.slice
  let own := m.orderCounts
  let (m, inferred) ← m.fillGapInFrameNum p.slice
  let m ← (m.setBuffers p.uRecID p.uMvID).updatePictManager p.slice
  some (m, ⟨own, inferred⟩)

/-- What `AL_PictMngr_BasicInit` writes to a context that holds `m`. -/
def init (m : PictMngr) (iNumDPBRef : ℕ) (eDPBMode : DpbMode) : PictMngr :=
  { m with
    dpb := m.dpb.init iNumDPBRef eDPBMode
    bFirstInit := true
    uRecID := undefID
    uMvID := undefID
    iCurFramePOC := 0
    iPrevPocMSB := 0
    uPrevPocLSB := 0
    iPrevFrameNum := -1 }

/-- The order counts of a stream, picture by picture. -/
def decode (m : PictMngr) (ps : List AvcPicture) : Option (List PictureCounts) :=
  TracedRuns.trace decodePicture ps m

end PictMngr

end VcuCodec
