import VcuCodec.AvcPictMngr
import VcuCodec.HevcDecoder

/-!
# The reference picture set of an HEVC slice

`AL_HEVC_PictMngr_InitRefPictSet` of `lib_parsing/Hevc_PictMngr.c`, and the
counts that `InitRefPictSet` of `lib_parsing/SliceHdrParsing.c` puts into the
slice header for it.  The arrays of picture order counts are lists here.  The
pictures that an IRAP picture drops from the buffer leave it later, in
`AL_HEVC_PictMngr_ClearDPB`.
-/

namespace VcuCodec

open LinkedLists

/-! ## What is read of the headers -/

/-- The fields of `AL_THevcSps` that the reference picture set depends on: row
`StRpsIdx` of a table is the short-term set of that index. -/
structure HevcRefSps where
  numShortTermRefPicSets : ℕ
  numNegativePics : ℕ → ℕ
  deltaPocS0 : ℕ → ℕ → ℤ
  usedByCurrPicS0 : ℕ → ℕ → Bool
  numPositivePics : ℕ → ℕ
  deltaPocS1 : ℕ → ℕ → ℤ
  usedByCurrPicS1 : ℕ → ℕ → Bool
  maxPicOrderCntLsb : ℕ

/-- The fields of `AL_THevcSliceHdr` that the reference picture set depends on. -/
structure HevcRefSlice where
  sps : HevcRefSps
  nalUnitType : ℕ
  slicePicOrderCntLsb : ℕ
  shortTermRefPicSetSpsFlag : Bool
  shortTermRefPicSetIdx : ℕ
  numLongTermSps : ℕ
  numLongTermPics : ℕ
  pocLsbLt : ℕ → ℕ
  usedByCurrPicLt : ℕ → Bool
  deltaPocMsbPresentFlag : ℕ → Bool
  deltaPocMSBCycleLt : ℕ → ℕ

namespace HevcRefSlice

def stRpsIdx (slice : HevcRefSlice) : ℕ :=
  if slice.shortTermRefPicSetSpsFlag then slice.shortTermRefPicSetIdx
  else slice.sps.numShortTermRefPicSets

/-! ## The counts in the slice header -/

def numNegative (slice : HevcRefSlice) : ℕ := slice.sps.numNegativePics slice.stRpsIdx

def numPositive (slice : HevcRefSlice) : ℕ := slice.sps.numPositivePics slice.stRpsIdx

/-- The values that one of the loops stores where it meets the flag `b`. -/
def select {α : Type*} (slice : HevcRefSlice) (n : ℕ) (flag : ℕ → Bool) (b : Bool)
    (value : ℕ → α) : List α :=
  if hevcIsIDR slice.nalUnitType then []
  else ((List.range n).filter fun i => flag i = b).map value

end HevcRefSlice

namespace HevcRefSlice

end HevcRefSlice

/-! ## Searching and marking -/

/-- The five `RefPicSet` arrays: node numbers, with `uEndOfList` for a picture
that is missing. -/
structure RefPicSets where
  stCurrBefore : List ℕ
  stCurrAfter : List ℕ
  stFoll : List ℕ
  ltCurr : List ℕ
  ltFoll : List ℕ
  deriving DecidableEq, Repr

/-- The part of `AL_TPictMngrCtx` that the reference picture set is kept in. -/
structure HevcPictMngr where
  dpb : Dpb
  iCurFramePOC : ℤ
  sets : RefPicSets

namespace HevcPictMngr

end HevcPictMngr

end VcuCodec
