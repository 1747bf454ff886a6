import VcuCodec.DpbModel

/-!
# The marking process of AVC

`AL_Dpb_PictNumberProcess` and `AL_Dpb_MarkingProcess` with the sliding window
and the six memory-management operations.
-/

namespace VcuCodec

open LinkedLists

/-! ## Picture numbers -/

/-- The numbers of a picture while the picture with header `slice` is decoded. -/
def Node.number (slice : AvcSliceHdr) (n : Node) : Node :=
  match n.eMarkingFlag with
  | .shortTermRef =>
    let iFrameNumWrap :=
      if (slice.frameNum : ℤ) < n.iSliceFrameNum then
        toInt32 (n.iSliceFrameNum - slice.sps.maxFrameNum)
      else n.iSliceFrameNum
    { n with
      iFrameNum := n.iSliceFrameNum
      iFrameNumWrap := iFrameNumWrap
      iPicNum := iFrameNumWrap }
  | .longTermRef => { n with iLongTermPicNum := n.iLongTermFrameIdx }
  | _ => n

def Dpb.pictNumberProcess (d : Dpb) (slice : AvcSliceHdr) : Option Dpb :=
  whileLinked uEndOfList (fun uPicID d =>
    some (d.modNode uPicID (Node.number slice), (d.nodes uPicID).uNextDecOrder))
    walkFuel d.uHeadDecOrder d

/-! ## Sliding window -/

/-- A reference picture is dropped: its marking and the count of references. -/
def Dpb.dropRef (d : Dpb) (uNode : ℕ) : Dpb :=
  (d.modNode uNode (Node.setMarking .unusedForRef)).decCountRef

/-- The picture ID of a node goes back to the pool. -/
def Dpb.giveBackPicID (d : Dpb) (uNode : ℕ) : Dpb :=
  (d.releasePicID (d.nodes uNode).uPicID).modNode uNode (Node.setPicID undefID)

def Dpb.setPicToUnused (d : Dpb) (uNode : ℕ) : Dpb := (d.dropRef uNode).giveBackPicID uNode

/-- What the loop of `AL_Dpb_sSlidingWindowMarking` accumulates. -/
structure SlidingScan where
  uPosMin : ℕ
  iMinFrameNumWrap : ℤ
  uNumShortTerm : ℕ
  uNumLongTerm : ℕ

def SlidingScan.init : SlidingScan := ⟨0, int32Max, 0, 0⟩

def SlidingScan.visit (nodes : ℕ → Node) (s : SlidingScan) (uPic : ℕ) : SlidingScan :=
  let n := nodes uPic
  let s :=
    if n.eMarkingFlag = .shortTermRef then { s with uNumShortTerm := s.uNumShortTerm + 1 }
    else if n.eMarkingFlag = .longTermRef then { s with uNumLongTerm := s.uNumLongTerm + 1 }
    else s
  if n.iFrameNumWrap < s.iMinFrameNumWrap ∧ n.eMarkingFlag = .shortTermRef then
    { s with iMinFrameNumWrap := n.iFrameNumWrap, uPosMin := uPic }
  else s

def Dpb.slidingScan (d : Dpb) : Option SlidingScan :=
  whileLinked uEndOfList (fun uPic s => some (s.visit d.nodes uPic, (d.nodes uPic).uNextDecOrder))
    walkFuel d.uHeadDecOrder SlidingScan.init

/-- The window is full: a picture has to leave it. -/
def Dpb.windowFull (d : Dpb) (slice : AvcSliceHdr) (s : SlidingScan) : Bool :=
  min d.uNumRef slice.sps.maxNumRefFrames < s.uNumShortTerm + s.uNumLongTerm

def Dpb.slidingWindowMarking (d : Dpb) (slice : AvcSliceHdr) : Option Dpb := do
  let s ← d.slidingScan
  if d.windowFull slice s then
    let d := d.dropRef s.uPosMin
    if (d.nodes s.uPosMin).nonExisting then some (d.remove s.uPosMin)
    else some (d.giveBackPicID s.uPosMin)
  else some d

/-! ## Memory-management operations -/

def Dpb.shortTermToUnused (d : Dpb) (slice : AvcSliceHdr) (iIdx : ℕ) : Option Dpb :=
  let iPicNumX := toInt32 ((d.nodes d.uCurRef).iPicNum -
    (slice.differenceOfPicNumsMinus1.getD iIdx 0 + 1))
  whileLinked uEndOfList (fun uPic d =>
    let n := d.nodes uPic
    if n.iPicNum = iPicNumX ∧ n.eMarkingFlag = .shortTermRef then
      some (d.setPicToUnused uPic, uEndOfList)
    else some (d, n.uNextDecOrder)) walkFuel d.uHeadDecOrder d

/-- A walk of the decoding order that drops the long-term pictures `p` selects. -/
def Dpb.dropLongTerm (d : Dpb) (p : Node → Bool) : Option Dpb :=
  whileLinked uEndOfList (fun uPic d =>
    let n := d.nodes uPic
    let d := if p n ∧ n.eMarkingFlag = .longTermRef then d.setPicToUnused uPic else d
    some (d, n.uNextDecOrder)) walkFuel d.uHeadDecOrder d

def Dpb.longTermToUnused (d : Dpb) (slice : AvcSliceHdr) (iIdx : ℕ) : Option Dpb :=
  d.dropLongTerm fun n => n.iLongTermPicNum = slice.longTermPicNum.getD iIdx 0

/-- The first long-term picture in decoding order with a larger picture number. -/
def Dpb.findLongTermPlace (d : Dpb) (iRef : ℕ) : Option ℕ :=
  whileLinked uEndOfList (fun uNode uFound =>
    let n := d.nodes uNode
    if (n.eMarkingFlag = .longTermRef ∧ uNode ≠ iRef) ∧
        (d.nodes iRef).iLongTermPicNum < n.iLongTermPicNum then some (uNode, uEndOfList)
    else some (uFound, n.uNextDecOrder)) walkFuel d.uHeadDecOrder uEndOfList

/-- Linking `iRef` into the decoding order in front of `uNode`. -/
def Dpb.linkInFrontOf (d : Dpb) (iRef uNode : ℕ) : Dpb :=
  let uPrevNode := (d.nodes uNode).uPrevDecOrder
  let d :=
    if uPrevNode ≠ uEndOfList then d.modNode uPrevNode (Order.decOrder.setNext iRef) else d
  let d := d.modNode iRef (Order.decOrder.setPrev uPrevNode)
  let d := d.modNode uNode (Order.decOrder.setPrev iRef)
  let d := d.modNode iRef (Order.decOrder.setNext uNode)
  if uNode = Order.decOrder.head d then Order.decOrder.setHead iRef d else d

/-- Moving `iRef` in front of `uNode` in the decoding order. -/
def Dpb.moveInFrontOf (d : Dpb) (iRef uNode : ℕ) : Dpb :=
  let n := d.nodes iRef
  (d.joinNeighbours .decOrder n.uPrevDecOrder n.uNextDecOrder).linkInFrontOf iRef uNode

def Dpb.switchLongTermPlace (d : Dpb) (iRef : ℕ) : Option Dpb := do
  let uNode ← d.findLongTermPlace iRef
  if uNode = uEndOfList then some d else some (d.moveInFrontOf iRef uNode)

/-- A long-term picture with index `iLongTermFrameIdx`. -/
def Node.longTerm (iLongTermFrameIdx : ℤ) (n : Node) : Node :=
  { n with
    eMarkingFlag := .longTermRef
    iLongTermFrameIdx := iLongTermFrameIdx
    iLongTermPicNum := iLongTermFrameIdx }

def Dpb.makeLongTerm (d : Dpb) (uNode : ℕ) (iLongTermFrameIdx : ℤ) : Dpb :=
  d.modNode uNode (Node.longTerm iLongTermFrameIdx)

/-- The last picture in decoding order that `p` selects. -/
def Dpb.findLastInDecOrder (d : Dpb) (p : Node → Bool) : Option ℕ :=
  whileLinked uEndOfList (fun uPic uFound =>
    some (if p (d.nodes uPic) then uPic else uFound, (d.nodes uPic).uNextDecOrder))
    walkFuel d.uHeadDecOrder uEndOfList

/-- The part of `AL_Dpb_sLongTermFrameIdxToAShortTerm` that frees the index. -/
def Dpb.freeLongTermFrameIdx (d : Dpb) (uPicFrame uPicNum : ℕ) : Dpb :=
  if (uPicFrame ≠ uEndOfList ∧ uPicNum ≠ uEndOfList ∧ uPicFrame ≠ uPicNum) ∧
      (d.nodes uPicFrame).eMarkingFlag ≠ .unusedForRef then d.setPicToUnused uPicFrame
  else d

def Dpb.longTermFrameIdxToAShortTerm (d : Dpb) (slice : AvcSliceHdr)
    (iIdxLongTermFrame iIdxDiffPicNum : ℕ) : Option Dpb := do
  let iDiffPicNum := slice.differenceOfPicNumsMinus1.getD iIdxDiffPicNum 0 + 1
  let iLongTermFrameIdx := slice.longTermFrameIdx.getD iIdxLongTermFrame 0
  let iPicNumX := toInt32 ((d.nodes d.uCurRef).iPicNum - iDiffPicNum)
  let uPicFrame ← d.findLastInDecOrder fun n => n.iLongTermFrameIdx = iLongTermFrameIdx
  let uPicNum ← d.findLastInDecOrder fun n => n.iPicNum = iPicNumX
  let d := d.freeLongTermFrameIdx uPicFrame uPicNum
  if uPicNum ≠ uEndOfList then
    (d.makeLongTerm uPicNum iLongTermFrameIdx).switchLongTermPlace uPicNum
  else some d

def Dpb.setMaxLongTermFrameIdx (d : Dpb) (v : ℤ) : Dpb := { d with maxLongTermFrameIdx := v }

def Dpb.decodingMaxLongTermFrameIdx (d : Dpb) (slice : AvcSliceHdr) (iIdx : ℕ) : Option Dpb := do
  let plus1 := slice.maxLongTermFrameIdxPlus1.getD iIdx 0
  let d ← d.dropLongTerm fun n =>
    n.iLongTermFrameIdx < int32Max ∧ plus1 - 1 < n.iLongTermFrameIdx
  some (d.setMaxLongTermFrameIdx (if plus1 ≠ 0 then plus1 - 1 else int32Max))

/-- The loop of `AL_Dpb_sSetAllPicAsUnused`: every picture of the decoding order
but the current one is displayed and removed. -/
def Dpb.removeAllButCurrent (d : Dpb) : Option Dpb :=
  whileLinked uEndOfList (fun uPic d => do
    let n := d.nodes uPic
    if uPic ≠ d.uCurRef then
      let d ← d.displayIf (!n.nonExisting) uPic
      some (d.remove uPic, n.uNextDecOrder)
    else some (d, n.uNextDecOrder)) walkFuel d.uHeadDecOrder d

/-- The current picture after an operation 5. -/
def Node.restart (n : Node) : Node :=
  { n with iFramePOC := 0, iSliceFrameNum := 0, eNUT := 0xFFFFFFFF }

/-- `AL_Dpb_SetMMCO5` and `AL_Dpb_ResetMMCO5` -/
def Dpb.setLastHasMMCO5 (d : Dpb) (b : Bool) : Dpb := { d with bLastHasMMCO5 := b }

def Dpb.setAllPicAsUnused (d : Dpb) (slice : AvcSliceHdr) : Option Dpb := do
  let d ← d.removeAllButCurrent
  let d := (d.modNode d.uCurRef Node.restart).setMaxLongTermFrameIdx int32Max
  let d := if slice.nalRefIdc ≠ 0 then d.setLastHasMMCO5 true else d
  some d.beginNewSeq

/-- `AL_Dpb_sAssignLongTermFrameIdx`, which keeps the index in a `uint8_t` -/
def Dpb.assignLongTermFrameIdx (d : Dpb) (slice : AvcSliceHdr) (iIdx : ℕ) : Option Dpb := do
  let iLongTermFrameIdx := slice.longTermFrameIdx.getD iIdx 0 % 256
  let d ← d.dropLongTerm fun n => n.iLongTermFrameIdx = iLongTermFrameIdx
  (d.makeLongTerm d.uCurRef iLongTermFrameIdx).switchLongTermPlace d.uCurRef

/-- The positions in the operand arrays of the slice header. -/
structure MmcoIdx where
  idx1 : ℕ
  idx2 : ℕ
  idx3 : ℕ
  idx4 : ℕ

def MmcoIdx.init : MmcoIdx := ⟨0, 0, 0, 0⟩

/-- The operands that one operation consumes. -/
def MmcoIdx.advance (x : MmcoIdx) : ℕ → MmcoIdx
  | 1 => { x with idx1 := x.idx1 + 1 }
  | 2 => { x with idx2 := x.idx2 + 1 }
  | 3 => { x with idx3 := x.idx3 + 1, idx1 := x.idx1 + 1 }
  | 4 => { x with idx4 := x.idx4 + 1 }
  | 6 => { x with idx3 := x.idx3 + 1 }
  | _ => x

/-- One case of the switch of `AL_Dpb_sAdaptiveMemoryControlMarking`. -/
def Dpb.memoryControl (d : Dpb) (slice : AvcSliceHdr) (x : MmcoIdx) : ℕ → Option Dpb
  | 1 => d.shortTermToUnused slice x.idx1
  | 2 => d.longTermToUnused slice x.idx2
  | 3 => d.longTermFrameIdxToAShortTerm slice x.idx3 x.idx1
  | 4 => d.decodingMaxLongTermFrameIdx slice x.idx4
  | 5 => d.setAllPicAsUnused slice
  | 6 => d.assignLongTermFrameIdx slice x.idx3
  | _ => some d

/-- The loop over the operations `ops`, which ends after an operation 0. -/
def Dpb.memoryControlLoop (slice : AvcSliceHdr) : List ℕ → MmcoIdx → Dpb → Option Dpb
  | [], _, _ => none
  | op :: ops, x, d => do
    let d ← d.memoryControl slice x op
    if op = 0 then some d else memoryControlLoop slice ops (x.advance op) d

def Dpb.adaptiveMemoryControlMarking (d : Dpb) (slice : AvcSliceHdr) : Option Dpb :=
  d.memoryControlLoop slice slice.memoryManagementControlOperation .init

/-! ## Marking process -/

/-- The part of `AL_Dpb_MarkingProcess` that the slice header switches on. -/
def Dpb.adaptiveMarking (d : Dpb) (slice : AvcSliceHdr) : Option Dpb :=
  if slice.adaptiveRefPicMarkingModeFlag then d.adaptiveMemoryControlMarking slice else some d

def Node.shortTerm (n : Node) : Node :=
  { n with eMarkingFlag := .shortTermRef, iLongTermFrameIdx := int32Max }

/-- The loop that ends `AL_Dpb_MarkingProcess`: an operation 6 leaves the
current picture a reference. -/
def Dpb.keepCurrentMarked (d : Dpb) (slice : AvcSliceHdr) : Dpb :=
  if 6 ∈ slice.memoryManagementControlOperation ∧
      (d.nodes d.uCurRef).eMarkingFlag ≠ .longTermRef then
    d.modNode d.uCurRef Node.shortTerm
  else d

def Node.setLongTermFrameIdx (v : ℤ) (n : Node) : Node := { n with iLongTermFrameIdx := v }

def Dpb.markIDR (d : Dpb) (slice : AvcSliceHdr) : Dpb :=
  if slice.longTermReferenceFlag then
    (d.modNode d.uCurRef (Node.setLongTermFrameIdx 0)).setMaxLongTermFrameIdx 0
  else d.setMaxLongTermFrameIdx int32Max

/-- What the marking process first writes to the current picture. -/
def Node.setCurrent (uNodeID iSliceFrameNum : ℕ) (n : Node) : Node :=
  { n with iSliceFrameNum := iSliceFrameNum, uNodeID := uNodeID }

def Dpb.markingProcess (d : Dpb) (slice : AvcSliceHdr) : Option Dpb :=
  let d := d.modNode d.uCurRef (Node.setCurrent d.uCurRef slice.frameNum)
  if slice.isIDR then some (d.markIDR slice)
  else do
    let d ← d.pictNumberProcess slice
    let d ← d.adaptiveMarking slice
    let d ← d.slidingWindowMarking slice
    some (d.keepCurrentMarked slice)

end VcuCodec
