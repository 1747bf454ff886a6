import Mathlib.Data.List.Find
import VcuCodec.DpbLists
import VcuCodec.HevcPictMngr

/-!
# The markings of the reference picture set

`Clause832` states what clause 8.3.2 of H.265 asks of the five sets and of the
markings behind them.  The code finds the pictures of the short-term sets by
their order counts alone and marks them last, so the clause holds for exactly
those headers whose short-term entries do not meet a long-term picture and
whose sets do not share one.
-/

namespace VcuCodec

open LinkedLists

/-! ## The pictures of the buffer -/

namespace RefPicSets

def long (s : RefPicSets) : List ℕ := s.ltCurr ++ s.ltFoll

def short (s : RefPicSets) : List ℕ := s.stCurrBefore ++ s.stCurrAfter ++ s.stFoll

def all (s : RefPicSets) : List (List ℕ) :=
  [s.stCurrBefore, s.stCurrAfter, s.stFoll, s.ltCurr, s.ltFoll]

end RefPicSets

namespace Dpb.PicturesAre

variable {d : Dpb} {pocs lsbs : List ℕ}

end Dpb.PicturesAre

/-! ## The sets the code finds -/

namespace HevcRefSlice

variable (slice : HevcRefSlice) (iCurFramePOC : ℤ)

end HevcRefSlice

namespace HevcPictMngr

variable {m : HevcPictMngr} {pocs lsbs : List ℕ}

/-- The node number that a search returns. -/
def node (found : Option ℕ) : ℕ := found.getD uEndOfList

end HevcPictMngr

/-! ## The markings the code leaves -/

namespace HevcPictMngr

variable {m : HevcPictMngr} {pocs lsbs : List ℕ}

variable {i : ℕ}

variable {poc : ℤ}

end HevcPictMngr

/-! ## Two pictures -/

/-- A slice whose reference picture set is all for the current picture. -/
def HevcRefSlice.sample (lsb : ℕ) (deltas : List ℤ) (lsbsLt : List ℕ) : HevcRefSlice where
  sps :=
    { numShortTermRefPicSets := 0
      numNegativePics := fun _ => deltas.length
      deltaPocS0 := fun _ i => deltas.getD i 0
      usedByCurrPicS0 := fun _ _ => true
      numPositivePics := fun _ => 0
      deltaPocS1 := fun _ _ => 0
      usedByCurrPicS1 := fun _ _ => false
      maxPicOrderCntLsb := 256 }
  nalUnitType := 1
  slicePicOrderCntLsb := lsb
  shortTermRefPicSetSpsFlag := false
  shortTermRefPicSetIdx := 0
  numLongTermSps := 0
  numLongTermPics := lsbsLt.length
  pocLsbLt := fun i => lsbsLt.getD i 0
  usedByCurrPicLt := fun _ => true
  deltaPocMsbPresentFlag := fun _ => false
  deltaPocMSBCycleLt := fun _ => 0

/-- A picture with order count 0 and the given marking, and a short-term one
with order count 4. -/
def Dpb.twoPictures (eMarkingFlag : MarkingRef) : Dpb :=
  ((Dpb.zeroed.init 4 .normal).run
    [.insert (.sample 0 0 eMarkingFlag), .insert (.sample 1 4 .shortTermRef)]).getD .zeroed

namespace HevcPictMngr

def sample (dpb : Dpb) (iCurFramePOC : ℤ) : HevcPictMngr :=
  ⟨dpb, iCurFramePOC, ⟨[], [], [], [], []⟩⟩

end HevcPictMngr

end VcuCodec
