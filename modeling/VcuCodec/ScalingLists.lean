import VcuCodec.AvcSliceParsing

/-!
# Scaling lists

`hevc_scaling_list_data` of `lib_parsing/common_syntax.c` with the tables of
`lib_common/ScalingList.h`.  An array of the list parameters is the function of its
indices.
-/

namespace VcuCodec

open CheckedRuns Checked Parse

/-- `AL_TSCLParam`. -/
structure SclParam where
  scalingListPredModeFlag : ℕ → ℕ → ℕ
  scalingListPredMatrixIdDelta : ℕ → ℕ → ℕ
  scalingListDcCoeff : ℕ → ℕ → ℕ
  scalingList : ℕ → ℕ → ℕ → ℕ
  useDefaultScalingMatrixFlag : ℕ → ℕ

def hevcScanOrder4x4 : List ℕ := [0, 4, 1, 8, 5, 2, 12, 9, 6, 3, 13, 10, 7, 14, 11, 15]

def hevcScanOrder8x8 : List ℕ :=
  [0, 8, 1, 16, 9, 2, 24, 17,
   10, 3, 32, 25, 18, 11, 4, 40,
   33, 26, 19, 12, 5, 48, 41, 34,
   27, 20, 13, 6, 56, 49, 42, 35,
   28, 21, 14, 7, 57, 50, 43, 36,
   29, 22, 15, 58, 51, 44, 37, 30,
   23, 59, 52, 45, 38, 31, 60, 53,
   46, 39, 61, 54, 47, 62, 55, 63]

/-- `AL_HEVC_DefaultScalingLists4x4`, the same for intra and inter. -/
def hevcDefaultScalingLists4x4 : List ℕ := List.replicate 16 16

/-- `AL_HEVC_DefaultScalingLists8x8`: intra, then inter. -/
def hevcDefaultScalingLists8x8 : List (List ℕ) :=
  [[16, 16, 16, 16, 17, 18, 21, 24,
    16, 16, 16, 16, 17, 19, 22, 25,
    16, 16, 17, 18, 20, 22, 25, 29,
    16, 16, 18, 21, 24, 27, 31, 36,
    17, 17, 20, 24, 30, 35, 41, 47,
    18, 19, 22, 27, 35, 44, 54, 65,
    21, 22, 25, 31, 41, 54, 70, 88,
    24, 25, 29, 36, 47, 65, 88, 115],
   [16, 16, 16, 16, 17, 18, 20, 24,
    16, 16, 16, 17, 18, 20, 24, 25,
    16, 16, 17, 18, 20, 24, 25, 28,
    16, 17, 18, 20, 24, 25, 28, 33,
    17, 18, 20, 24, 25, 28, 33, 41,
    18, 20, 24, 25, 28, 33, 41, 54,
    20, 24, 25, 28, 33, 41, 54, 71,
    24, 25, 28, 33, 41, 54, 71, 91]]

namespace SclParam

variable (s : SclParam) (uSizeID uMatrixID : ℕ)

/-- An entry of a table of two indices. -/
def update2 (t : ℕ → ℕ → ℕ) (i j v : ℕ) : ℕ → ℕ → ℕ :=
  Function.update t i (Function.update (t i) j v)

def setCoeff (k v : ℕ) : SclParam :=
  { s with
    scalingList := Function.update s.scalingList uSizeID
      (update2 (s.scalingList uSizeID) uMatrixID k v) }

/-- The copy of the 16 or 64 coefficients of a list. -/
def copyList (list : ℕ → ℕ) : SclParam :=
  let length := if uSizeID ≠ 0 then 64 else 16
  { s with
    scalingList := Function.update s.scalingList uSizeID
      (Function.update (s.scalingList uSizeID) uMatrixID
        fun k => if k < length then list k else s.scalingList uSizeID uMatrixID k) }

def setDcCoeff (v : ℕ) : SclParam :=
  if 1 < uSizeID then
    { s with scalingListDcCoeff := update2 s.scalingListDcCoeff (uSizeID - 2) uMatrixID v }
  else s

/-- A list that is the default one, or that of another matrix. -/
def copyPred : SclParam :=
  let delta := s.scalingListPredMatrixIdDelta uSizeID uMatrixID
  if delta = 0 then
    (s.setDcCoeff uSizeID uMatrixID 16).copyList uSizeID uMatrixID fun k =>
      if uSizeID ≠ 0 then (hevcDefaultScalingLists8x8.getD (uMatrixID / 3) []).getD k 0
      else hevcDefaultScalingLists4x4.getD k 0
  else
    let uPredMatrixID := (clip3 (uMatrixID - delta) 0 (if uSizeID = 3 then 0 else 4)).toNat
    (s.setDcCoeff uSizeID uMatrixID (s.scalingListDcCoeff (uSizeID - 2) uPredMatrixID)).copyList
      uSizeID uMatrixID (s.scalingList uSizeID uPredMatrixID)

/-- The coefficients of a list, each coded as the difference to the one before. -/
def readCoeffs : Parse SclParam := do
  let uCoeffNum := min 64 (1 <<< (4 + uSizeID <<< 1))
  let pScanOrder := if uCoeffNum = 64 then hevcScanOrder8x8 else hevcScanOrder4x4
  let dc ← readIf (1 < uSizeID) se 0
  let uNextCoeff : ℤ := if 1 < uSizeID then clip3 dc (-7) 247 + 8 else 8
  let s := s.setDcCoeff uSizeID uMatrixID uNextCoeff.toNat
  let r ← forBelow uCoeffNum (s, uNextCoeff) fun uCoeff r => do
    let delta ← se
    let uNextCoeff := (r.2 + clip3 delta (-128) 127 + 256) % 256
    return (r.1.setCoeff uSizeID uMatrixID (pScanOrder.getD uCoeff 0) uNextCoeff.toNat, uNextCoeff)
  return r.1

def readList : Parse SclParam := do
  let flag ← u 1
  let s := { s with
    scalingListPredModeFlag := update2 s.scalingListPredModeFlag uSizeID uMatrixID flag }
  if flag = 0 then
    let delta ← ue
    let s := { s with
      scalingListPredMatrixIdDelta :=
        update2 s.scalingListPredMatrixIdDelta uSizeID uMatrixID (delta % 2 ^ 8) }
    return s.copyPred uSizeID uMatrixID
  s.readCoeffs uSizeID uMatrixID

end SclParam

def hevcScalingListData (pSCLParam : SclParam) : Parse SclParam :=
  forBelow 4 pSCLParam fun uSizeID s =>
    let uIncr := if uSizeID = 3 then 3 else 1
    forBelow (6 / uIncr) s fun i s => s.readList uSizeID (i * uIncr)

end VcuCodec
