import Mathlib.Logic.Function.Basic
import VcuCodec.AvcSliceParsing
import VcuCodec.DpbModel

/-!
# The short-term reference picture sets of HEVC

`AL_HEVC_short_term_ref_pic_set` and `AL_HEVC_sComputeRefPicSetVariables` of
`lib_parsing/HevcParser.c`, and the loop of `AL_HEVC_ParseSPS` over the sets.
Arrays are functions of the index, and `check` stops a run in front of an access
outside of an array.  The distances stay far from the ends of `int32_t`: there
are 65 sets, and each adds at most 2^20.
-/

namespace VcuCodec

open CheckedRuns Checked Parse

def maxRefPicSet : ℕ := 64

/-! ## The data -/

/-- The pictures on one side of the current one, as they are coded: for the
negative ones `num_negative_pics`, `delta_poc_s0_minus1` and
`used_by_curr_pic_s0_flag`. -/
structure CodedPics where
  numPics : ℕ
  deltaPocMinus1 : ℕ → ℕ
  usedByCurrPicFlag : ℕ → Bool

/-- `AL_TRefPicSet` -/
structure RefPicSet where
  interRefPicSetPredictionFlag : Bool
  deltaIdxMinus1 : ℕ
  deltaRpsSign : ℕ
  absDeltaRpsMinus1 : ℕ
  usedByCurrPicFlag : ℕ → Bool
  useDeltaFlag : ℕ → Bool
  s0 : CodedPics
  s1 : CodedPics

/-- One side of the variables of all sets: `NumNegativePics`, `DeltaPocS0` and
`UsedByCurrPicS0`, or the positive ones. -/
structure PocTable where
  numPics : ℕ → ℕ
  deltaPoc : ℕ → ℕ → ℤ
  usedByCurrPic : ℕ → ℕ → Bool

/-- The fields of `AL_THevcSps` that the short-term sets depend on;
`spsMaxDecPicBufferingMinus1` is the entry of the highest sub-layer. -/
structure HevcStSps where
  spsMaxDecPicBufferingMinus1 : ℕ
  numShortTermRefPicSets : ℕ
  shortTermRefPicSet : ℕ → RefPicSet
  s0 : PocTable
  s1 : PocTable
  numDeltaPocs : ℕ → ℕ

/-! ## The variables of a set -/

namespace PocTable

variable {σ : Type}

/-- Writing entry `k` of the row of a set. -/
def write (t : PocTable) (refIdx k : ℕ) (deltaPoc : ℤ) (used : Bool) : Checked σ PocTable := do
  check (k < maxRef)
  return { t with
    deltaPoc := Function.update t.deltaPoc refIdx (Function.update (t.deltaPoc refIdx) k deltaPoc)
    usedByCurrPic :=
      Function.update t.usedByCurrPic refIdx (Function.update (t.usedByCurrPic refIdx) k used) }

def setNumPics (t : PocTable) (refIdx n : ℕ) : PocTable :=
  { t with numPics := Function.update t.numPics refIdx n }

/-- One entry of a predicted set, `keep` being the test of its sign; the second
component counts the entries that are written. -/
def select (set : RefPicSet) (refIdx : ℕ) (keep : ℤ → Bool) (deltaPoc : ℤ) (i : ℕ)
    (t : PocTable × ℕ) : Checked σ (PocTable × ℕ) := do
  if keep deltaPoc then
    check (i < maxRef)
    if set.useDeltaFlag i then
      let t' ← t.1.write refIdx t.2 deltaPoc (set.usedByCurrPicFlag i)
      return (t', t.2 + 1)
    else return t
  else return t

/-- One side of a predicted set: the other side of set `rIdx` backwards, the
distance itself, and the same side of set `rIdx`.  The flags of the three parts
start at `otherAt`, `zeroAt` and `ownAt`. -/
def predict (own other : PocTable) (set : RefPicSet) (refIdx rIdx : ℕ) (keep : ℤ → Bool)
    (deltaRPS : ℤ) (otherAt zeroAt ownAt : ℕ) : Checked σ PocTable := do
  let t ← forBelow (other.numPics rIdx) (own, 0) fun k t =>
    let j := other.numPics rIdx - 1 - k
    select set refIdx keep (other.deltaPoc rIdx j + deltaRPS) (otherAt + j) t
  let t ← select set refIdx keep deltaRPS zeroAt t
  let t ← forBelow (own.numPics rIdx) t fun j t =>
    select set refIdx keep (t.1.deltaPoc rIdx j + deltaRPS) (ownAt + j) t
  return t.1.setNumPics refIdx t.2

/-- One side of a set that is coded explicitly.  Entry 0 is written even if there
is none. -/
def setCoded (t : PocTable) (refIdx : ℕ) (sign : ℤ) (s : CodedPics) : Checked σ PocTable := do
  let t := t.setNumPics refIdx s.numPics
  let t ← t.write refIdx 0 (sign * (s.deltaPocMinus1 0 + 1)) (s.usedByCurrPicFlag 0)
  forBelow (s.numPics - 1) t fun i t =>
    t.write refIdx (i + 1) (t.deltaPoc refIdx i + sign * (s.deltaPocMinus1 (i + 1) + 1))
      (s.usedByCurrPicFlag (i + 1))

end PocTable

/-- The `uint8_t` index of the set that set `refIdx` is predicted from. -/
def RefPicSet.rIdx (set : RefPicSet) (refIdx : ℕ) : ℕ :=
  (((refIdx : ℤ) - (set.deltaIdxMinus1 + 1)) % 256).toNat

def RefPicSet.deltaRPS (set : RefPicSet) : ℤ :=
  (1 - 2 * (set.deltaRpsSign : ℤ)) * (set.absDeltaRpsMinus1 + 1)

namespace HevcStSps

/-- `AL_HEVC_sComputeRefPicSetVariables`.  The rows of set `RIdx` are read up to
their numbers of pictures. -/
def computeRefPicSetVariables {σ : Type} (sps : HevcStSps) (refIdx : ℕ) : Checked σ HevcStSps := do
  let set := sps.shortTermRefPicSet refIdx
  let rIdx := set.rIdx refIdx
  let (s0, s1) ←
    if set.interRefPicSetPredictionFlag then do
      check (rIdx ≤ maxRefPicSet ∧ sps.s0.numPics rIdx ≤ maxRef ∧ sps.s1.numPics rIdx ≤ maxRef)
      let s0 ← sps.s0.predict sps.s1 set refIdx rIdx (fun d => d < 0) set.deltaRPS
        (sps.s0.numPics rIdx) (sps.numDeltaPocs rIdx) 0
      let s1 ← sps.s1.predict s0 set refIdx rIdx (fun d => 0 < d) set.deltaRPS
        0 (sps.numDeltaPocs rIdx) (s0.numPics rIdx)
      pure (s0, s1)
    else do
      let s0 ← sps.s0.setCoded refIdx (-1) set.s0
      let s1 ← sps.s1.setCoded refIdx 1 set.s1
      pure (s0, s1)
  return { sps with
    s0
    s1
    numDeltaPocs :=
      Function.update sps.numDeltaPocs refIdx (s0.numPics refIdx + s1.numPics refIdx) }

end HevcStSps

/-! ## Parsing -/

/-- One of the two loops over the pictures that are coded explicitly. -/
def CodedPics.read (s : CodedPics) : Parse CodedPics :=
  forBelow s.numPics s fun j s => do
    check (j < maxRef)
    let delta ← ue
    let used ← u 1
    return { s with
      deltaPocMinus1 := Function.update s.deltaPocMinus1 j (delta % 2 ^ 16)
      usedByCurrPicFlag := Function.update s.usedByCurrPicFlag j (used != 0) }

/-- The flags of a predicted set, `n` of them. -/
def RefPicSet.readFlags (set : RefPicSet) (n : ℕ) : Parse RefPicSet :=
  forBelow n set fun j set => do
    check (j < maxRef)
    let used ← u 1
    let set := { set with
      useDeltaFlag := Function.update set.useDeltaFlag j true
      usedByCurrPicFlag := Function.update set.usedByCurrPicFlag j (used != 0) }
    if used != 0 then return set
    let use ← u 1
    return { set with useDeltaFlag := Function.update set.useDeltaFlag j (use != 0) }

namespace HevcStSps

/-- `Clip3` of a number of pictures. -/
def clipNumPics (sps : HevcStSps) (v : ℕ) : ℕ :=
  (clip3 (toInt32 v) 0 sps.spsMaxDecPicBufferingMinus1).toNat

def setRefPicSet (sps : HevcStSps) (refIdx : ℕ) (set : RefPicSet) : HevcStSps :=
  { sps with shortTermRefPicSet := Function.update sps.shortTermRefPicSet refIdx set }

/-- The part of `AL_HEVC_short_term_ref_pic_set` for a predicted set. -/
def readPredicted (sps : HevcStSps) (refIdx : ℕ) (set : RefPicSet) : Parse RefPicSet := do
  let deltaIdx ← readIf (refIdx = sps.numShortTermRefPicSets) ue set.deltaIdxMinus1
  let sign ← u 1
  let abs ← ue
  let set := { set with
    deltaIdxMinus1 := deltaIdx % 256
    deltaRpsSign := sign
    absDeltaRpsMinus1 := abs % 2 ^ 16 }
  check (set.rIdx refIdx ≤ maxRefPicSet)
  set.readFlags (sps.numDeltaPocs (set.rIdx refIdx) + 1)

/-- The part for a set that is coded explicitly. -/
def readCoded (sps : HevcStSps) (set : RefPicSet) : Parse RefPicSet := do
  let numNegative ← ue
  let numPositive ← ue
  let s0 ← { set.s0 with numPics := sps.clipNumPics numNegative }.read
  let s1 ← { set.s1 with numPics := sps.clipNumPics numPositive }.read
  return { set with s0, s1 }

/-- `AL_HEVC_short_term_ref_pic_set` -/
def readShortTermRefPicSet (sps : HevcStSps) (refIdx : ℕ) : Parse HevcStSps := do
  check (refIdx ≤ maxRefPicSet)
  let inter ← readIf (refIdx ≠ 0) (u 1) 0
  let set := { sps.shortTermRefPicSet refIdx with
    deltaIdxMinus1 := 0
    interRefPicSetPredictionFlag := inter != 0 }
  let set ← if inter != 0 then sps.readPredicted refIdx set else sps.readCoded set
  (sps.setRefPicSet refIdx set).computeRefPicSetVariables refIdx

/-- The rounds of the loop of `AL_HEVC_ParseSPS` from set `i` on; the result is
false where the NAL ends in front of a set. -/
def readSets : (rounds i : ℕ) → HevcStSps → Parse (Bool × HevcStSps)
  | 0, _, sps => return (true, sps)
  | rounds + 1, i, sps => do
    let more ← moreRbspData
    if !more then return (false, sps)
    let sps ← sps.readShortTermRefPicSet i
    readSets rounds (i + 1) sps

/-- `AL_HEVC_ParseSPS` from `num_short_term_ref_pic_sets` to the end of the sets. -/
def readShortTermRefPicSets (sps : HevcStSps) : Parse (Bool × HevcStSps) := do
  let n ← ue
  let sps := { sps with numShortTermRefPicSets := n % 256 }
  if sps.numShortTermRefPicSets ≤ maxRefPicSet then readSets sps.numShortTermRefPicSets 0 sps
  else return (false, sps)

end HevcStSps

end VcuCodec
