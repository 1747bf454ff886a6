import Mathlib.Logic.Function.Basic
import VcuCodec.AvcSyntax
import VcuCodec.LinkedLists

/-!
# The decoded picture buffer

`lib_parsing/DPB.c` up to the marking process: the node array with its three
linked lists, the picture-ID pool, the queue of deleted pictures and the
display FIFO.  Arrays are functions of the index.  A function of the source
that walks a list is an `Option`: it is `none` where the walk leaves the node
array or does not end.  `log` records the buffer callbacks, oldest first, and
with them each entry put on the queue of deleted pictures and each decrement
of a `uint8_t` counter that was already zero.
-/

namespace VcuCodec

open LinkedLists

/-! ## Sizes and markers -/

def maxRef : ℕ := 16
def maxStackSize : ℕ := 16
def recBuf : ℕ := 1
def concealBuf : ℕ := 1
def picIdPoolSize : ℕ := maxRef
def maxDpbSize : ℕ := maxRef + maxStackSize + recBuf + concealBuf
def maxBufHeldByNextComponent : ℕ := maxRef
def frmBufPoolSize : ℕ := maxDpbSize + maxBufHeldByNextComponent
def uEndOfList : ℕ := 0xFF
def undefID : ℕ := 0xFF
def int32Max : ℤ := 2 ^ 31 - 1

/-- `++` and `--` on a `uint8_t` -/
def inc8 (n : ℕ) : ℕ := (n + 1) % 256
def dec8 (n : ℕ) : ℕ := (n + 255) % 256

/-! ## The data -/

/-- `AL_EMarkingRef` -/
inductive MarkingRef
  | shortTermRef
  | longTermRef
  | unusedForRef
  | nonExistingRef
  deriving DecidableEq, Repr

/-- `AL_EPicStatus` -/
inductive PicStatus
  | notNeededForOutput
  | notReadyForOutput
  | readyForOutput
  deriving DecidableEq, Repr

/-- `AL_EDpbMode` -/
inductive DpbMode
  | normal
  | lowRef
  | noReordering
  deriving DecidableEq, Repr

/-- `AL_TDispFifo` -/
structure DispFifo where
  pFrmIDs : ℕ → ℕ
  pPicLatency : ℕ → ℕ
  pFrmStatus : ℕ → PicStatus
  uFirstFrm : ℕ
  uNumFrm : ℕ

/-- `AL_TDpbNode` -/
structure Node where
  uNodeID : ℕ
  uFrmID : ℕ
  uMvID : ℕ
  uPicID : ℕ
  uPrevPOC : ℕ
  uNextPOC : ℕ
  uPrevPocLsb : ℕ
  uNextPocLsb : ℕ
  uPrevDecOrder : ℕ
  uNextDecOrder : ℕ
  iFramePOC : ℤ
  slicePicOrderCntLsb : ℕ
  eMarkingFlag : MarkingRef
  iFrameNum : ℤ
  iSliceFrameNum : ℤ
  iFrameNumWrap : ℤ
  iLongTermFrameIdx : ℤ
  iLongTermPicNum : ℤ
  iPicNum : ℤ
  picOutputFlag : Bool
  bIsReset : Bool
  bIsDisplayed : Bool
  uPicLatency : ℕ
  nonExisting : Bool
  eNUT : ℕ

/-- The picture-ID pool and the picture waiting for an ID. -/
structure PicIds where
  picId2NodeId : ℕ → ℕ
  picId2FrmId : ℕ → ℕ
  picId2MvId : ℕ → ℕ
  freePicIDs : ℕ → ℕ
  freePicIdCnt : ℕ
  bPicWaiting : Bool
  uNodeWaiting : ℕ
  uFrmWaiting : ℕ
  uMvWaiting : ℕ

/-- The queue of deleted pictures. -/
structure DltQueue where
  pDltFrmIDLst : ℕ → ℕ
  pDltMvIDLst : ℕ → ℕ
  iDltFrmLstHead : ℕ
  iDltFrmLstTail : ℕ
  iDltMvLstHead : ℕ
  iDltMvLstTail : ℕ
  iNumDltPic : ℕ

/-- On whose behalf a frame buffer is referenced: a picture of the buffer, or
an entry of the display FIFO. -/
inductive Holder
  | picture
  | display
  deriving DecidableEq, Repr

/-- What a run leaves in the log. -/
inductive Event
  | incrementFrmBuf (holder : Holder) (uFrmID : ℕ)
  | decrementFrmBuf (holder : Holder) (uFrmID : ℕ)
  | outputFrmBuf (uFrmID : ℕ)
  | incrementMvBuf (uMvID : ℕ)
  | decrementMvBuf (uMvID : ℕ)
  | deletePic (uFrmID uMvID : ℕ)
  | counterWrapped
  deriving DecidableEq, Repr

/-- `AL_TDpb` -/
structure Dpb where
  nodes : ℕ → Node
  dispFifo : DispFifo
  ids : PicIds
  dlt : DltQueue
  iLastDisplayedPOC : ℤ
  uNumOutputPic : ℕ
  bNewSeq : Bool
  uNumRef : ℕ
  uHeadPOC : ℕ
  uHeadPocLsb : ℕ
  uLastPOC : ℕ
  uHeadDecOrder : ℕ
  uCurRef : ℕ
  uCountRef : ℕ
  uCountPic : ℕ
  maxLongTermFrameIdx : ℤ
  bLastHasMMCO5 : Bool
  eMode : DpbMode
  log : List Event

/-- A write to fields of one node. -/
def Dpb.modNode (d : Dpb) (i : ℕ) (f : Node → Node) : Dpb :=
  { d with nodes := fun j => if j = i then f (d.nodes i) else d.nodes j }

def Dpb.record (d : Dpb) (es : List Event) : Dpb := { d with log := d.log ++ es }

def Dpb.setIds (d : Dpb) (ids : PicIds) : Dpb := { d with ids := ids }

def Dpb.setFifo (d : Dpb) (dispFifo : DispFifo) : Dpb := { d with dispFifo := dispFifo }

def Dpb.setDlt (d : Dpb) (dlt : DltQueue) : Dpb := { d with dlt := dlt }

def Node.setNodeID (uNodeID : ℕ) (n : Node) : Node := { n with uNodeID := uNodeID }

def Node.setPicID (uPicID : ℕ) (n : Node) : Node := { n with uPicID := uPicID }

def Node.setMarking (eMarkingFlag : MarkingRef) (n : Node) : Node :=
  { n with eMarkingFlag := eMarkingFlag }

/-- `--uCountPic` -/
def Dpb.decCountPic (d : Dpb) : Dpb := { d with uCountPic := dec8 d.uCountPic }

/-- `--uCountRef` -/
def Dpb.decCountRef (d : Dpb) : Dpb :=
  { d with
    uCountRef := dec8 d.uCountRef
    log := if d.uCountRef = 0 then d.log ++ [.counterWrapped] else d.log }

/-- `--uNumOutputPic` -/
def Dpb.decNumOutputPic (d : Dpb) : Dpb :=
  { d with
    uNumOutputPic := dec8 d.uNumOutputPic
    log := if d.uNumOutputPic = 0 then d.log ++ [.counterWrapped] else d.log }

/-- Node `i` holds a picture. -/
def Dpb.InDpb (d : Dpb) (i : ℕ) : Prop := i < maxDpbSize ∧ (d.nodes i).bIsReset = false
deriving Decidable

/-! ## The three orders -/

/-- The orders in which the pictures are linked. -/
inductive Order
  | poc
  | pocLsb
  | decOrder
  deriving DecidableEq, Repr

def Order.prev : Order → Node → ℕ
  | .poc, n => n.uPrevPOC
  | .pocLsb, n => n.uPrevPocLsb
  | .decOrder, n => n.uPrevDecOrder

def Order.next : Order → Node → ℕ
  | .poc, n => n.uNextPOC
  | .pocLsb, n => n.uNextPocLsb
  | .decOrder, n => n.uNextDecOrder

def Order.setPrev (v : ℕ) : Order → Node → Node
  | .poc, n => { n with uPrevPOC := v }
  | .pocLsb, n => { n with uPrevPocLsb := v }
  | .decOrder, n => { n with uPrevDecOrder := v }

def Order.setNext (v : ℕ) : Order → Node → Node
  | .poc, n => { n with uNextPOC := v }
  | .pocLsb, n => { n with uNextPocLsb := v }
  | .decOrder, n => { n with uNextDecOrder := v }

def Order.head : Order → Dpb → ℕ
  | .poc, d => d.uHeadPOC
  | .pocLsb, d => d.uHeadPocLsb
  | .decOrder, d => d.uHeadDecOrder

def Order.setHead (v : ℕ) : Order → Dpb → Dpb
  | .poc, d => { d with uHeadPOC := v }
  | .pocLsb, d => { d with uHeadPocLsb := v }
  | .decOrder, d => { d with uHeadDecOrder := v }

/-! ## The display FIFO -/

def DispFifo.init (f : DispFifo) : DispFifo :=
  { f with
    pFrmIDs := fun i => if i < frmBufPoolSize then undefID else f.pFrmIDs i
    pFrmStatus := fun i => if i < frmBufPoolSize then .notNeededForOutput else f.pFrmStatus i
    uFirstFrm := 0
    uNumFrm := 0 }

def DispFifo.isEmpty (f : DispFifo) : Bool :=
  f.uFirstFrm == (f.uFirstFrm + f.uNumFrm) % frmBufPoolSize && f.uNumFrm != frmBufPoolSize

def DispFifo.queue (f : DispFifo) (uFrmID uPicLatency : ℕ) : DispFifo :=
  let uID := (f.uFirstFrm + f.uNumFrm) % 256
  { f with
    uNumFrm := inc8 f.uNumFrm
    pFrmIDs := Function.update f.pFrmIDs (uID % frmBufPoolSize) uFrmID
    pPicLatency := Function.update f.pPicLatency uFrmID uPicLatency }

def DispFifo.peek (f : DispFifo) : ℕ := f.pFrmIDs f.uFirstFrm

/-- The FIFO after `DispFifo_Dequeue`, which returns `f.peek`. -/
def DispFifo.dequeue (f : DispFifo) : DispFifo :=
  if f.peek = undefID then f
  else
    { f with
      pFrmIDs := Function.update f.pFrmIDs f.uFirstFrm undefID
      uFirstFrm := (f.uFirstFrm + 1) % frmBufPoolSize
      uNumFrm := dec8 f.uNumFrm
      pFrmStatus := Function.update f.pFrmStatus f.peek .notNeededForOutput }

def DispFifo.setStatus (f : DispFifo) (uFrmID : ℕ) (eStatus : PicStatus) : DispFifo :=
  { f with pFrmStatus := Function.update f.pFrmStatus uFrmID eStatus }

/-! ## Nodes and picture IDs -/

def PicIds.resetWaiting (ids : PicIds) : PicIds :=
  { ids with
    uNodeWaiting := uEndOfList
    uFrmWaiting := undefID
    uMvWaiting := undefID
    bPicWaiting := false }

/-- The fields `AL_Dpb_sResetNodeInfo` writes; `uPicID` and `iFrame_num` keep
their values. -/
def Node.reset (n : Node) : Node :=
  { n with
    iFramePOC := -1
    slicePicOrderCntLsb := 0xFFFFFFFF
    uNodeID := uEndOfList
    uPrevPOC := uEndOfList
    uNextPOC := uEndOfList
    uPrevPocLsb := uEndOfList
    uNextPocLsb := uEndOfList
    uPrevDecOrder := uEndOfList
    uNextDecOrder := uEndOfList
    uFrmID := undefID
    uMvID := undefID
    eMarkingFlag := .unusedForRef
    bIsReset := true
    picOutputFlag := false
    bIsDisplayed := false
    uPicLatency := 0
    iPicNum := int32Max
    iFrameNumWrap := int32Max
    iLongTermPicNum := int32Max
    iLongTermFrameIdx := int32Max
    iSliceFrameNum := int32Max
    nonExisting := false
    eNUT := 0xFFFFFFFF }

def Dpb.resetNodeInfo (d : Dpb) (i : ℕ) : Dpb :=
  let ids := if (d.nodes i).uNodeID = d.ids.uNodeWaiting then d.ids.resetWaiting else d.ids
  (d.modNode i Node.reset).setIds ids

def PicIds.release (ids : PicIds) (uPicID : ℕ) : PicIds :=
  if uPicID = undefID then ids
  else
    { ids with
      picId2NodeId := Function.update ids.picId2NodeId uPicID undefID
      freePicIDs := Function.update ids.freePicIDs ids.freePicIdCnt uPicID
      freePicIdCnt := inc8 ids.freePicIdCnt }

def Dpb.releasePicID (d : Dpb) (uPicID : ℕ) : Dpb := d.setIds (d.ids.release uPicID)

/-- The ID on top of the free stack. -/
def PicIds.top (ids : PicIds) : ℕ := ids.freePicIDs (ids.freePicIdCnt - 1)

/-- Popping the free stack for the picture in node `uNode`. -/
def PicIds.take (ids : PicIds) (uNode uFrmID uMvID : ℕ) : PicIds :=
  { ids with
    freePicIdCnt := ids.freePicIdCnt - 1
    picId2NodeId := Function.update ids.picId2NodeId ids.top uNode
    picId2FrmId := Function.update ids.picId2FrmId ids.top uFrmID
    picId2MvId := Function.update ids.picId2MvId ids.top uMvID }

def Dpb.fillWaitingPicture (d : Dpb) : Dpb :=
  let uNode := d.ids.uNodeWaiting
  if (d.nodes uNode).nonExisting then
    (d.modNode uNode (Node.setPicID uEndOfList)).setIds d.ids.resetWaiting
  else
    (d.modNode uNode (Node.setPicID d.ids.top)).setIds
      (d.ids.take uNode d.ids.uFrmWaiting d.ids.uMvWaiting).resetWaiting

/-- The wait of a picture for an ID ends as soon as an ID is free. -/
def Dpb.serveWaitingPicture (d : Dpb) : Dpb :=
  if d.ids.bPicWaiting ∧ d.ids.freePicIdCnt ≠ 0 then d.fillWaitingPicture else d

/-! ## Removing a picture -/

/-- Linking the neighbours of a node that leaves a list to each other. -/
def Dpb.joinNeighbours (o : Order) (d : Dpb) (uPrev uNext : ℕ) : Dpb :=
  let d := if uPrev ≠ uEndOfList then d.modNode uPrev (o.setNext uNext) else d
  if uNext ≠ uEndOfList then d.modNode uNext (o.setPrev uPrev) else d

/-- Taking a node out of one list: what `RemoveFromPocList`,
`RemoveFromPocLsbList` and `RemoveFromDecOrderList` share. -/
def Dpb.removeFromList (o : Order) (d : Dpb) (uNode : ℕ) : Dpb :=
  let uPrev := o.prev (d.nodes uNode)
  let uNext := o.next (d.nodes uNode)
  let d := if o.head d = uNode then o.setHead uNext d else d
  d.joinNeighbours o uPrev uNext

/-- `RemoveFromPocList` also keeps `uLastPOC`. -/
def Dpb.removeFromPocList (d : Dpb) (uNode : ℕ) : Dpb :=
  let uPrev := (d.nodes uNode).uPrevPOC
  let uNext := (d.nodes uNode).uNextPOC
  let d := d.removeFromList .poc uNode
  if uNext ≠ uEndOfList then d else { d with uLastPOC := uPrev }

def Dpb.removeFromPocLsbList (d : Dpb) (uNode : ℕ) : Dpb := d.removeFromList .pocLsb uNode

def Dpb.removeFromDecOrderList (d : Dpb) (uNode : ℕ) : Dpb := d.removeFromList .decOrder uNode

/-- Taking a node out of the three lists. -/
def Dpb.unlinkNode (d : Dpb) (uNode : ℕ) : Dpb :=
  ((d.removeFromPocList uNode).removeFromPocLsbList uNode).removeFromDecOrderList uNode

def DltQueue.push (q : DltQueue) (uFrmID uMvID : ℕ) : DltQueue :=
  { q with
    pDltFrmIDLst := Function.update q.pDltFrmIDLst q.iDltFrmLstTail uFrmID
    pDltMvIDLst := Function.update q.pDltMvIDLst q.iDltMvLstTail uMvID
    iDltFrmLstTail := (q.iDltFrmLstTail + 1) % frmBufPoolSize
    iDltMvLstTail := (q.iDltMvLstTail + 1) % maxDpbSize
    iNumDltPic := q.iNumDltPic + 1 }

def Dpb.deletePic (d : Dpb) (uFrmID uMvID : ℕ) : Dpb :=
  (d.record [.deletePic uFrmID uMvID]).setDlt (d.dlt.push uFrmID uMvID)

def Dpb.remove (d : Dpb) (uNode : ℕ) : Dpb :=
  if uNode = uEndOfList then d
  else
    let n := d.nodes uNode
    let d := (d.unlinkNode uNode).releasePicID n.uPicID
    let d := if n.eMarkingFlag ≠ .unusedForRef then d.decCountRef else d
    let d := (d.decCountPic.resetNodeInfo uNode).serveWaitingPicture
    if n.nonExisting then d else d.deletePic n.uFrmID n.uMvID

/-! ## Displaying pictures -/

def Dpb.addToDisplayList (d : Dpb) (uNode : ℕ) : Dpb :=
  let n := d.nodes uNode
  (d.record [.incrementFrmBuf .display n.uFrmID, .outputFrmBuf n.uFrmID]).setFifo
    (d.dispFifo.queue n.uFrmID n.uPicLatency)

def Node.displayed (n : Node) : Node := { n with bIsDisplayed := true, picOutputFlag := false }

/-- The progress of the output: the last displayed POC and the new-sequence flag. -/
def Dpb.setOutput (d : Dpb) (iLastDisplayedPOC : ℤ) (bNewSeq : Bool) : Dpb :=
  { d with iLastDisplayedPOC := iLastDisplayedPOC, bNewSeq := bNewSeq }

/-- The part of `AL_Dpb_Display` that follows the pictures before `uNode`. -/
def Dpb.displayNode (d : Dpb) (uNode : ℕ) : Dpb :=
  if (d.nodes uNode).picOutputFlag then
    let d :=
      if (d.nodes uNode).nonExisting then d
      else (d.addToDisplayList uNode).setOutput (d.nodes uNode).iFramePOC d.bNewSeq
    ((d.modNode uNode Node.displayed).setOutput d.iLastDisplayedPOC false).decNumOutputPic
  else d

/-- Turns a walk of a list may take before it has left every list. -/
def walkFuel : ℕ := maxDpbSize + 1

/-- One turn of the loop of `AL_Dpb_Display`, which leaves the node array where
`uNode` is not in the POC list. -/
def Dpb.displayTurn (display : ℕ → Dpb → Option Dpb) (uParse : ℕ) (d : Dpb) :
    Option (Dpb × ℕ) :=
  if uParse = uEndOfList then none
  else
    let uNext := (d.nodes uParse).uNextPOC
    if (d.nodes uParse).picOutputFlag then (display uParse d).map fun d' => (d', uNext)
    else some (d, uNext)

/-- `AL_Dpb_Display`, at most `k` calls deep. -/
def Dpb.displayAt : ℕ → ℕ → Dpb → Option Dpb
  | 0, _, _ => none
  | k + 1, uNode, d => do
    let d ← whileLinked uNode (displayTurn fun u d => displayAt k u d) walkFuel d.uHeadPOC d
    some (d.displayNode uNode)

def Dpb.display (d : Dpb) (uNode : ℕ) : Option Dpb := d.displayAt walkFuel uNode

/-- A call of `AL_Dpb_Display` under the condition `b`. -/
def Dpb.displayIf (d : Dpb) (b : Bool) (uNode : ℕ) : Option Dpb :=
  if b then d.display uNode else some d

def Dpb.getDisplayBuffer (d : Dpb) : ℕ :=
  if d.dispFifo.isEmpty then undefID
  else if d.dispFifo.pFrmStatus d.dispFifo.peek ≠ .readyForOutput then undefID
  else d.dispFifo.peek

def Dpb.releaseDisplayBuffer (d : Dpb) : Dpb :=
  if d.dispFifo.peek = undefID then d
  else
    (d.record [.decrementFrmBuf .display d.dispFifo.peek]).setFifo d.dispFifo.dequeue

def Node.clearOutput (n : Node) : Node := { n with picOutputFlag := false }

def Dpb.clearOutput (d : Dpb) : Option Dpb := do
  let d ← whileLinked uEndOfList (fun uNode d =>
    some (d.modNode uNode Node.clearOutput, (d.nodes uNode).uNextPOC)) walkFuel d.uHeadPOC d
  some { d with uNumOutputPic := 0 }

/-! ## Deferred deletion -/

def DltQueue.pop (q : DltQueue) : DltQueue :=
  { q with
    iDltFrmLstHead := (q.iDltFrmLstHead + 1) % frmBufPoolSize
    iDltMvLstHead := (q.iDltMvLstHead + 1) % maxDpbSize
    iNumDltPic := q.iNumDltPic - 1 }

def Dpb.releaseOneBuf (d : Dpb) : Dpb :=
  (d.record [.decrementFrmBuf .picture (d.dlt.pDltFrmIDLst d.dlt.iDltFrmLstHead),
    .decrementMvBuf (d.dlt.pDltMvIDLst d.dlt.iDltMvLstHead)]).setDlt d.dlt.pop

def Dpb.releaseUnusedBuf (d : Dpb) (bAll : Bool) : Dpb :=
  let iNum := if d.dlt.iNumDltPic = 0 then 0 else if bAll then d.dlt.iNumDltPic else 1
  Nat.repeat releaseOneBuf iNum d

/-! ## Initialisation -/

/-- The picture-ID pool: every ID is free. -/
def PicIds.init (ids : PicIds) : PicIds :=
  PicIds.resetWaiting { ids with
    freePicIDs := fun i => if i < picIdPoolSize then i else ids.freePicIDs i
    picId2NodeId := fun i => if i < picIdPoolSize then uEndOfList else ids.picId2NodeId i
    picId2FrmId := fun i => if i < picIdPoolSize then uEndOfList else ids.picId2FrmId i
    picId2MvId := fun i => if i < picIdPoolSize then uEndOfList else ids.picId2MvId i
    freePicIdCnt := picIdPoolSize }

/-- `AL_Dpb_Init` on a context that holds `d`.  `uHeadPocLsb` and
`bLastHasMMCO5` keep what the context held. -/
def Dpb.init (d : Dpb) (uNumRef : ℕ) (eMode : DpbMode) : Dpb :=
  let d := { d with
    ids := d.ids.init
    eMode := eMode
    bNewSeq := true }
  let d := (List.range maxDpbSize).foldl
    (fun d i => (d.modNode i (Node.setNodeID undefID)).resetNodeInfo i) d
  { d with
    uNumRef := uNumRef
    uHeadDecOrder := uEndOfList
    uHeadPOC := uEndOfList
    uLastPOC := uEndOfList
    uCountRef := 0
    uCountPic := 0
    uCurRef := 0
    uNumOutputPic := 0
    iLastDisplayedPOC := -2 ^ 31
    dlt := { d.dlt with
      iDltFrmLstHead := 0
      iDltFrmLstTail := 0
      iDltMvLstHead := 0
      iDltMvLstTail := 0
      iNumDltPic := 0 }
    dispFifo := d.dispFifo.init
    log := [] }

/-! ## Inserting a picture -/

/-- The place of a new picture in a list sorted by `key`: in front of the first
index the key of which is above, or else after the last one. -/
inductive Place
  | before (uCur : ℕ)
  | after (uCur : ℕ)

/-- The walk of `AL_Dpb_Insert` along a sorted list. -/
def findPlace (nextOf : ℕ → ℕ) (above : ℕ → Bool) : ℕ → ℕ → Option Place
  | 0, _ => none
  | n + 1, uCur =>
    if maxDpbSize ≤ uCur then none
    else if above uCur then some (.before uCur)
    else if nextOf uCur = uEndOfList then some (.after uCur)
    else findPlace nextOf above n (nextOf uCur)

/-- Linking a node into one list at its place. -/
def Dpb.linkIn (o : Order) (d : Dpb) (uNode : ℕ) : Place → Dpb
  | .before uCur =>
    let uPrev := o.prev (d.nodes uCur)
    let d := d.modNode uNode fun n => o.setNext uCur (o.setPrev uPrev n)
    let d := d.modNode uCur (o.setPrev uNode)
    let d := if uPrev ≠ uEndOfList then d.modNode uPrev (o.setNext uNode) else d
    if uCur = o.head d then o.setHead uNode d else d
  | .after uCur =>
    let d := d.modNode uNode fun n => o.setPrev uCur (o.setNext uEndOfList n)
    d.modNode uCur (o.setNext uNode)

/-- The POC list also keeps `uLastPOC`. -/
def Dpb.linkPOC (d : Dpb) (uNode : ℕ) : Place → Dpb
  | .before uCurPOC => d.linkIn .poc uNode (.before uCurPOC)
  | .after uCurPOC => { d.linkIn .poc uNode (.after uCurPOC) with uLastPOC := uNode }

/-- The walk of `AL_Dpb_Insert` to the end of the decoding order, from `uCur`. -/
def findLast (nextOf : ℕ → ℕ) : ℕ → ℕ → Option ℕ
  | 0, _ => none
  | n + 1, uCur =>
    if maxDpbSize ≤ uCur then none
    else if nextOf uCur = uEndOfList then some uCur
    else findLast nextOf n (nextOf uCur)

/-- A node without its links. -/
def Node.unlinked (n : Node) : Node :=
  { n with
    uPrevPOC := uEndOfList
    uNextPOC := uEndOfList
    uPrevPocLsb := uEndOfList
    uNextPocLsb := uEndOfList
    uPrevDecOrder := uEndOfList
    uNextDecOrder := uEndOfList }

/-- The first picture of all three lists. -/
def Dpb.linkFirst (d : Dpb) (uNode : ℕ) : Dpb :=
  { d.modNode uNode Node.unlinked with
    uHeadPOC := uNode
    uLastPOC := uNode
    uHeadPocLsb := uNode
    uHeadDecOrder := uNode }

/-- Linking a node into the three lists. -/
def Dpb.linkNode (d : Dpb) (iFramePOC : ℤ) (uPocLsb uNode : ℕ) : Option Dpb :=
  if d.uHeadPOC = uEndOfList then some (d.linkFirst uNode)
  else do
    let uCurPocLsb := d.uHeadPocLsb
    let uCurDecOrder := d.uHeadDecOrder
    let p ← findPlace (fun i => (d.nodes i).uNextPOC) (fun i => iFramePOC < (d.nodes i).iFramePOC)
      walkFuel d.uHeadPOC
    let d := d.linkPOC uNode p
    let p ← findPlace (fun i => (d.nodes i).uNextPocLsb)
      (fun i => uPocLsb < (d.nodes i).slicePicOrderCntLsb) walkFuel uCurPocLsb
    let d := d.linkIn .pocLsb uNode p
    let uLast ← findLast (fun i => (d.nodes i).uNextDecOrder) walkFuel uCurDecOrder
    some (d.linkIn .decOrder uNode (.after uLast))

/-- The arguments of `AL_Dpb_Insert`. -/
structure InsertArgs where
  iFramePOC : ℤ
  uPocLsb : ℕ
  uNode : ℕ
  uFrmID : ℕ
  uMvID : ℕ
  picOutputFlag : Bool
  eMarkingFlag : MarkingRef
  nonExisting : Bool
  eNUT : ℕ

/-- The picture ID of a new picture, if it gets one at once. -/
def Dpb.assignPicID (d : Dpb) (a : InsertArgs) : PicIds × ℕ :=
  if a.nonExisting then (d.ids, uEndOfList)
  else if d.ids.freePicIdCnt ≠ 0 then (d.ids.take a.uNode a.uFrmID a.uMvID, d.ids.top)
  else
    ({ d.ids with
        bPicWaiting := true
        uNodeWaiting := a.uNode
        uFrmWaiting := a.uFrmID
        uMvWaiting := a.uMvID }, uEndOfList)

/-- The node of a new picture before it is linked. -/
def Node.fill (a : InsertArgs) (uPicID : ℕ) (n : Node) : Node :=
  { n with
    iFramePOC := a.iFramePOC
    slicePicOrderCntLsb := a.uPocLsb
    uFrmID := a.uFrmID
    uMvID := a.uMvID
    uPicID := uPicID
    eMarkingFlag := a.eMarkingFlag
    uNodeID := a.uNode
    picOutputFlag := a.picOutputFlag
    bIsReset := false
    nonExisting := a.nonExisting
    eNUT := a.eNUT }

/-- Counters and buffer references of a new picture. -/
def Dpb.countInserted (d : Dpb) (a : InsertArgs) : Dpb :=
  let d := { d with
    uCountRef := if a.eMarkingFlag ≠ .unusedForRef then inc8 d.uCountRef else d.uCountRef
    uCountPic := inc8 d.uCountPic
    uNumOutputPic := if a.picOutputFlag then inc8 d.uNumOutputPic else d.uNumOutputPic }
  let d := if a.uFrmID ≠ uEndOfList then d.record [.incrementFrmBuf .picture a.uFrmID] else d
  if a.uMvID ≠ uEndOfList then d.record [.incrementMvBuf a.uMvID] else d

def Dpb.setCurRef (d : Dpb) (uCurRef : ℕ) : Dpb := { d with uCurRef := uCurRef }

/-- The new picture in its node, not linked yet. -/
def Dpb.fillNode (d : Dpb) (a : InsertArgs) : Dpb :=
  let (ids, uPicID) := d.assignPicID a
  let d := (d.setIds ids).setCurRef a.uNode
  let d := d.modNode a.uNode (Node.fill a uPicID)
  let eStatus : PicStatus := if a.picOutputFlag then .notReadyForOutput else .notNeededForOutput
  if a.uFrmID ≠ uEndOfList then d.setFifo (d.dispFifo.setStatus a.uFrmID eStatus) else d

def Dpb.insert (d : Dpb) (a : InsertArgs) : Option Dpb := do
  let d ← (d.fillNode a).linkNode a.iFramePOC a.uPocLsb a.uNode
  some (d.countInserted a)

/-! ## Flushing and cleaning up -/

def Dpb.beginNewSeq (d : Dpb) : Dpb := d.setOutput (-2 ^ 31) true

def Dpb.removeHead (d : Dpb) : Option Dpb := do
  let d ← d.displayIf (d.nodes d.uHeadPOC).picOutputFlag d.uHeadPOC
  some (d.remove d.uHeadPOC)

def Dpb.flush (d : Dpb) : Option Dpb :=
  whileLinked uEndOfList (fun uHeadPOC d => do
    let d ← d.displayIf (d.nodes uHeadPOC).picOutputFlag uHeadPOC
    let d ← d.removeHead
    some (d, d.uHeadPOC)) walkFuel d.uHeadPOC d

def Dpb.hevcCleanup (d : Dpb) (uMaxLatency maxNumOutput : ℕ) : Option Dpb :=
  whileLinked uEndOfList (fun uNode d => do
    let n := d.nodes uNode
    let bShouldBeDisplayed :=
      n.picOutputFlag && (uMaxLatency ≤ n.uPicLatency || maxNumOutput < d.uNumOutputPic)
    let d ← d.displayIf bShouldBeDisplayed uNode
    let n := d.nodes uNode
    if n.eMarkingFlag = .unusedForRef ∧ n.picOutputFlag = false then
      some (d.remove uNode, n.uNextPOC)
    else some (d, n.uNextPOC)) walkFuel d.uHeadPOC d

/-- The first loop of `AL_Dpb_AVC_Cleanup`. -/
def Dpb.removeUseless (d : Dpb) : Option Dpb :=
  whileLinked uEndOfList (fun uNode d =>
    let n := d.nodes uNode
    if n.eMarkingFlag = .unusedForRef ∧ n.picOutputFlag = false then
      some (d.remove uNode, n.uNextPOC)
    else some (d, n.uNextPOC)) walkFuel d.uHeadPOC d

/-- The second loop of `AL_Dpb_AVC_Cleanup`, which stops once the buffer holds
no more than `uNumRef` pictures. -/
def Dpb.removeUnused (d : Dpb) : Option Dpb :=
  whileLinked uEndOfList (fun uNode d =>
    if d.uNumRef < d.uCountRef ∨ d.uNumRef < d.uCountPic then
      let n := d.nodes uNode
      if n.eMarkingFlag = .unusedForRef then do
        let d ← d.display uNode
        some (d.remove uNode, n.uNextPOC)
      else some (d, n.uNextPOC)
    else some (d, uEndOfList)) walkFuel d.uHeadPOC d

def Dpb.avcCleanup (d : Dpb) : Option Dpb := do
  let d ← d.removeUseless
  let d ← d.removeUnused
  some d.serveWaitingPicture

/-! ## End of decoding and searches -/

def Dpb.getNodeFromFrmID (d : Dpb) (iFrameID : ℕ) : Option ℕ :=
  whileLinked uEndOfList (fun uNode uFound =>
    if (d.nodes uNode).uFrmID = iFrameID then some (uNode, uEndOfList)
    else some (uFound, (d.nodes uNode).uNextDecOrder)) walkFuel d.uHeadDecOrder uEndOfList

def Dpb.endDecoding (d : Dpb) (iFrmID : ℕ) : Option Dpb :=
  let d := d.releaseUnusedBuf false
  if d.dispFifo.pFrmStatus iFrmID = .notReadyForOutput then
    let d := d.setFifo (d.dispFifo.setStatus iFrmID .readyForOutput)
    if d.eMode = .noReordering then do
      let uNode ← d.getNodeFromFrmID iFrmID
      d.displayIf (uNode != uEndOfList && (d.nodes uNode).picOutputFlag) uNode
    else some d
  else some d

def Dpb.terminate (d : Dpb) : Dpb := d.releaseUnusedBuf true

def Node.incrementPicLatency (n : Node) : Node := { n with uPicLatency := n.uPicLatency + 1 }

def Dpb.incrementPicLatency (d : Dpb) (uNode : ℕ) (iCurFramePOC : ℤ) : Dpb :=
  if iCurFramePOC < (d.nodes uNode).iFramePOC then d.modNode uNode Node.incrementPicLatency
  else d

def Dpb.setMarkingFlag (d : Dpb) (uNode : ℕ) (eMarkingFlag : MarkingRef) : Dpb :=
  d.modNode uNode (Node.setMarking eMarkingFlag)

end VcuCodec
