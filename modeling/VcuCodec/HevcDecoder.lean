import VcuCodec.PocLsb

/-!
# The order count of an HEVC slice

The part of `lib_decode/HevcDecoder.c` that the order count depends on:
`calculatePOC`, its call in `initSlice`, and the flags that `decodeSliceData`
and the end of a frame keep from slice to slice.  What the rest of the decoder
finds out about a slice segment is an input.
-/

namespace VcuCodec

/-- `AL_ESliceType` -/
inductive SliceType
  | b
  | p
  | i
  deriving DecidableEq, Repr

/-- The fields of `AL_THevcSliceHdr` that the order count depends on. -/
structure HevcSliceHdr where
  nalUnitType : ℕ
  temporalIdPlus1 : ℕ
  dependentSliceSegmentFlag : Bool
  sliceType : SliceType
  slicePicOrderCntLsb : ℕ
  maxPicOrderCntLsb : ℕ

/-- `AL_HEVC_IsRASL_RADL_SLNR` -/
def hevcIsRaslRadlSlnr (eNUT : ℕ) : Bool := eNUT ∈ [0, 2, 4, 6, 7, 8, 9, 10, 12, 14]

/-- `AL_HEVC_IsBLA` -/
def hevcIsBLA (eNUT : ℕ) : Bool := eNUT ∈ [16, 17, 18]

/-- `AL_HEVC_IsIDR` -/
def hevcIsIDR (eNUT : ℕ) : Bool := eNUT ∈ [19, 20]

/-- `AL_HEVC_IsCRA` -/
def hevcIsCRA (eNUT : ℕ) : Bool := eNUT = 21

/-- `AL_HEVC_IsRASL` -/
def hevcIsRASL (eNUT : ℕ) : Bool := eNUT ∈ [8, 9]

def isRandomAccessPoint (eNUT : ℕ) : Bool :=
  hevcIsCRA eNUT || hevcIsBLA eNUT || hevcIsIDR eNUT || eNUT ∈ [22, 23]

def isSliceData (nut : ℕ) : Bool := nut ≤ 9 ∨ 16 ≤ nut ∧ nut ≤ 21

/-- What the rest of the decoder finds out about a slice segment. -/
structure SliceOutcome where
  /-- There is a recovery count or `AL_HEVC_PictMngr_HasPictInDPB`. -/
  hasPictInDPB : Bool
  /-- The reference picture set has a current picture, or the buffer still holds
  one. -/
  hasCurrPict : Bool
  /-- The checks between `initSlice` and the slice parameters succeed. -/
  isValid : Bool
  /-- `isValidSyncPoint` for a picture that is no random access point -/
  isSyncPoint : Bool
  /-- There is a recovery count or `AL_HEVC_PictMngr_BuildPictureList`. -/
  hasPictureList : Bool
  deriving DecidableEq, Repr

/-- The part of `AL_TDecCtx` and its picture manager that the order count
depends on. -/
structure HevcCtx where
  iCurFramePOC : ℤ
  uPrevPocLSB : ℕ
  iPrevPocMSB : ℤ
  uNoRaslOutputFlag : Bool
  bIsFirstPicture : Bool
  bValidFrame : Bool
  bFirstIsValid : Bool
  deriving DecidableEq, Repr

namespace HevcCtx

/-- What the creation of the decoder writes to a context that holds `c`. -/
def init (c : HevcCtx) : HevcCtx :=
  { c with
    iCurFramePOC := 0
    uPrevPocLSB := 0
    iPrevPocMSB := 0
    uNoRaslOutputFlag := true
    bIsFirstPicture := true
    bValidFrame := false
    bFirstIsValid := false }

/-- `POCMsb` in `calculatePOC` -/
def pocMsb (c : HevcCtx) (slice : HevcSliceHdr) (uNoRaslOutputFlag : Bool) : ℤ :=
  let eNUT := slice.nalUnitType
  if (!hevcIsBLA eNUT && !hevcIsCRA eNUT && !hevcIsIDR eNUT) || !uNoRaslOutputFlag then
    nextPocMsb slice.maxPicOrderCntLsb c.iPrevPocMSB c.uPrevPocLSB slice.slicePicOrderCntLsb
  else 0

/-- `calculatePOC`, with the store of its result in `initSlice` -/
def calculatePOC (c : HevcCtx) (slice : HevcSliceHdr) (uNoRaslOutputFlag : Bool) : HevcCtx :=
  let pocMsb := c.pocMsb slice uNoRaslOutputFlag
  let c :=
    if slice.temporalIdPlus1 = 1 ∧ hevcIsRaslRadlSlnr slice.nalUnitType = false then
      { c with uPrevPocLSB := slice.slicePicOrderCntLsb, iPrevPocMSB := pocMsb }
    else c
  { c with iCurFramePOC := toInt32 (slice.slicePicOrderCntLsb + pocMsb) }

/-- The part of `initSlice` that sets the order count. -/
def setPOC (c : HevcCtx) (slice : HevcSliceHdr) : HevcCtx :=
  if hevcIsIDR slice.nalUnitType then
    { c with iCurFramePOC := 0, uPrevPocLSB := 0, iPrevPocMSB := 0 }
  else if c.bValidFrame then c
  else c.calculatePOC slice c.uNoRaslOutputFlag

def updateContextAtEndOfFrame (c : HevcCtx) : HevcCtx :=
  { c with bIsFirstPicture := false, bValidFrame := false }

/-- `initSlice`: whether it gets to the order count, and whether it succeeds. -/
def initSlice (c : HevcCtx) (slice : HevcSliceHdr) (o : SliceOutcome) : HevcCtx × Bool × Bool :=
  if slice.dependentSliceSegmentFlag then (c, true, true)
  else if slice.sliceType ≠ .i ∧ o.hasPictInDPB = false then (c, false, false)
  else
    (c.setPOC slice, true,
      c.bValidFrame || slice.sliceType = .i || o.hasCurrPict)

/-- The end of `decodeSliceData`, behind `initSlice`. -/
def finishSlice (c : HevcCtx) (slice : HevcSliceHdr) (o : SliceOutcome) (bIsLastAUNal : Bool) :
    HevcCtx :=
  let endFrame (c : HevcCtx) := if bIsLastAUNal then c.updateContextAtEndOfFrame else c
  if o.isValid ∧ (slice.sliceType = .i ∨ o.hasPictInDPB) then
    if c.bFirstIsValid = false ∧ isRandomAccessPoint slice.nalUnitType = false ∧
        o.isSyncPoint = false then c
    else
      endFrame { c with
        bFirstIsValid := true
        bValidFrame := c.bValidFrame || o.hasPictureList }
  else endFrame c

/-- The flag of a random access point, which `decodeSliceData` sets first. -/
def setNoRaslOutputFlag (c : HevcCtx) (eNUT : ℕ) : HevcCtx :=
  if isRandomAccessPoint eNUT then
    { c with uNoRaslOutputFlag := c.bIsFirstPicture || hevcIsBLA eNUT || hevcIsIDR eNUT }
  else c

/-- `decodeSliceData`: the context behind a slice segment, and the order count
it is decoded with, if any. -/
def decodeSliceData (c : HevcCtx) (slice : HevcSliceHdr) (o : SliceOutcome)
    (bIsLastAUNal : Bool) : HevcCtx × Option ℤ :=
  let eNUT := slice.nalUnitType
  if hevcIsRASL eNUT ∧ c.uNoRaslOutputFlag then (c, none)
  else
    let (c, hasPOC, isValid) := (c.setNoRaslOutputFlag eNUT).initSlice slice o
    let poc := if hasPOC then some c.iCurFramePOC else none
    if isValid = false ∧ c.bFirstIsValid = false then (c.updateContextAtEndOfFrame, poc)
    else (c.finishSlice slice { o with isValid := isValid && o.isValid } bIsLastAUNal, poc)

/-- An end-of-sequence NAL unit. -/
def endOfSequence (c : HevcCtx) : HevcCtx := { c with bIsFirstPicture := true }

end HevcCtx

end VcuCodec
