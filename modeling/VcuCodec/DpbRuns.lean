import VcuCodec.DpbMarking
import VcuCodec.GuardedRuns

/-!
# Runs of the decoded picture buffer

The operations that change the buffer, what their callers promise, and the
turns an operation may take that its authors did not mean: `Op.risks` replays
an operation and names them, each in the state in front of the step that takes
it.
-/

namespace VcuCodec

/-! ## Risks -/

/-- The turns that an operation should not take. -/
inductive Risk
  /-- The head of the decoding order moves in front of a picture that does not
  follow it. -/
  | promoteHead
  /-- The sliding window finds no short-term picture and drops one that is not
  marked. -/
  | slideUnmarked
  /-- The same, and the node that holds no picture still has a picture ID. -/
  | slideStaleID
  /-- A picture that is not marked becomes a reference. -/
  | remarkUnmarked
  /-- A picture comes while another one waits for an ID. -/
  | insertWhileWaiting
  /-- A picture comes with a motion-vector buffer that is still referenced. -/
  | sharedMv
  /-- A picture that waits for its output is removed. -/
  | removePending
  /-- The marking of a picture is set from outside. -/
  | setMarking
  deriving DecidableEq, Repr

/-- What the callers of `AL_Dpb_Insert` promise: an existing picture has its two
buffers, an inferred one has none and is not displayed. -/
@[mk_iff]
structure InsertArgs.Valid (a : InsertArgs) : Prop where
  node : a.uNode < maxDpbSize
  marking : a.eMarkingFlag ≠ .nonExistingRef
  frm : a.nonExisting = false → a.uFrmID < frmBufPoolSize
  mv : a.nonExisting = false → a.uMvID < maxDpbSize
  noFrm : a.nonExisting = true → a.uFrmID = uEndOfList
  noMv : a.nonExisting = true → a.uMvID = uEndOfList
  noOutput : a.nonExisting = true → a.picOutputFlag = false

instance (a : InsertArgs) : Decidable a.Valid :=
  decidable_of_iff _ (InsertArgs.valid_iff a).symm

/-- Motion-vector buffer `mv` is referenced neither by a picture of the buffer
nor by the queue of deleted pictures. -/
def Dpb.MvFree (d : Dpb) (mv : ℕ) : Prop :=
  (∀ i < maxDpbSize, (d.nodes i).bIsReset = false → (d.nodes i).nonExisting = false →
    (d.nodes i).uMvID ≠ mv) ∧
  ∀ k < d.dlt.iNumDltPic, d.dlt.pDltMvIDLst ((d.dlt.iDltMvLstHead + k) % maxDpbSize) ≠ mv

instance (d : Dpb) (mv : ℕ) : Decidable (d.MvFree mv) :=
  inferInstanceAs (Decidable (_ ∧ _))

/-! ## The risks of an operation -/

/-- The risk of `AL_Dpb_sSwitchLongTermPlace`. -/
def Dpb.switchRisks (d : Dpb) (iRef : ℕ) : List Risk :=
  match d.findLongTermPlace iRef with
  | some uNode =>
    if uNode ≠ uEndOfList ∧ d.uHeadDecOrder = iRef ∧ (d.nodes iRef).uNextDecOrder ≠ uNode then
      [.promoteHead]
    else []
  | none => []

/-- The risks of making `uNode` a long-term picture. -/
def Dpb.longTermRisks (d : Dpb) (uNode : ℕ) (iLongTermFrameIdx : ℤ) : List Risk :=
  (if (d.nodes uNode).eMarkingFlag = .unusedForRef then [.remarkUnmarked] else []) ++
    (d.makeLongTerm uNode iLongTermFrameIdx).switchRisks uNode

/-- The risks of one memory-management operation. -/
def Dpb.memoryControlRisks (d : Dpb) (slice : AvcSliceHdr) (x : MmcoIdx) : ℕ → List Risk
  | 3 =>
    let iDiffPicNum := slice.differenceOfPicNumsMinus1.getD x.idx1 0 + 1
    let iLongTermFrameIdx := slice.longTermFrameIdx.getD x.idx3 0
    let iPicNumX := toInt32 ((d.nodes d.uCurRef).iPicNum - iDiffPicNum)
    let uPicFrame := (d.findLastInDecOrder fun n => n.iLongTermFrameIdx = iLongTermFrameIdx).getD 0
    let uPicNum := (d.findLastInDecOrder fun n => n.iPicNum = iPicNumX).getD 0
    if uPicNum ≠ uEndOfList then
      (d.freeLongTermFrameIdx uPicFrame uPicNum).longTermRisks uPicNum iLongTermFrameIdx
    else []
  | 6 =>
    let iLongTermFrameIdx := slice.longTermFrameIdx.getD x.idx3 0 % 256
    match d.dropLongTerm fun n => n.iLongTermFrameIdx = iLongTermFrameIdx with
    | some d => d.longTermRisks d.uCurRef iLongTermFrameIdx
    | none => []
  | _ => []

def Dpb.memoryControlLoopRisks (slice : AvcSliceHdr) : List ℕ → MmcoIdx → Dpb → List Risk
  | [], _, _ => []
  | op :: ops, x, d =>
    d.memoryControlRisks slice x op ++
      match d.memoryControl slice x op with
      | some d => if op = 0 then [] else memoryControlLoopRisks slice ops (x.advance op) d
      | none => []

/-- The risks of `AL_Dpb_sSlidingWindowMarking`. -/
def Dpb.slidingRisks (d : Dpb) (slice : AvcSliceHdr) : List Risk :=
  match d.slidingScan with
  | some s =>
    if d.windowFull slice s then
      (if d.InDpb s.uPosMin ∧ (d.nodes s.uPosMin).eMarkingFlag ≠ .unusedForRef then []
        else [.slideUnmarked]) ++
      (if d.InDpb s.uPosMin ∨ (d.nodes s.uPosMin).uPicID = undefID then [] else [.slideStaleID])
    else []
  | none => []

/-- The risk of the loop that ends `AL_Dpb_MarkingProcess`. -/
def Dpb.keepRisks (d : Dpb) (slice : AvcSliceHdr) : List Risk :=
  if 6 ∈ slice.memoryManagementControlOperation ∧
      (d.nodes d.uCurRef).eMarkingFlag ≠ .longTermRef ∧
      ¬ (d.InDpb d.uCurRef ∧ (d.nodes d.uCurRef).eMarkingFlag ≠ .unusedForRef) then
    [.remarkUnmarked]
  else []

/-- The risks of `AL_Dpb_MarkingProcess` after the picture numbers are set. -/
def Dpb.markingRisks (d : Dpb) (slice : AvcSliceHdr) : List Risk :=
  let ops := slice.memoryManagementControlOperation
  (if slice.adaptiveRefPicMarkingModeFlag then memoryControlLoopRisks slice ops .init d else []) ++
  match d.adaptiveMarking slice with
  | some d =>
    d.slidingRisks slice ++
      match d.slidingWindowMarking slice with
      | some d => d.keepRisks slice
      | none => []
  | none => []

/-! ## Operations -/

/-- A call of the buffer's interface. -/
inductive Op
  | insert (a : InsertArgs)
  | remove (uNode : ℕ)
  | display (uNode : ℕ)
  | markingProcess (slice : AvcSliceHdr)
  | flush
  | avcCleanup
  | hevcCleanup (uMaxLatency maxNumOutput : ℕ)
  | endDecoding (iFrmID : ℕ)
  | releaseDisplayBuffer
  | clearOutput
  | setMarkingFlag (uNode : ℕ) (eMarkingFlag : MarkingRef)
  | incrementPicLatency (uNode : ℕ) (iCurFramePOC : ℤ)
  | pictNumberProcess (slice : AvcSliceHdr)
  | beginNewSeq
  | setLastHasMMCO5 (b : Bool)
  | setNumRef (uNumRef : ℕ)

def Dpb.setNumRef (d : Dpb) (uNumRef : ℕ) : Dpb := { d with uNumRef := uNumRef }

def Dpb.step (d : Dpb) : Op → Option Dpb
  | .insert a => d.insert a
  | .remove uNode => some (d.remove uNode)
  | .display uNode => d.display uNode
  | .markingProcess slice => d.markingProcess slice
  | .flush => d.flush
  | .avcCleanup => d.avcCleanup
  | .hevcCleanup uMaxLatency maxNumOutput => d.hevcCleanup uMaxLatency maxNumOutput
  | .endDecoding iFrmID => d.endDecoding iFrmID
  | .releaseDisplayBuffer => some d.releaseDisplayBuffer
  | .clearOutput => d.clearOutput
  | .setMarkingFlag uNode eMarkingFlag => some (d.setMarkingFlag uNode eMarkingFlag)
  | .incrementPicLatency uNode iCurFramePOC => some (d.incrementPicLatency uNode iCurFramePOC)
  | .pictNumberProcess slice => d.pictNumberProcess slice
  | .beginNewSeq => some d.beginNewSeq
  | .setLastHasMMCO5 b => some (d.setLastHasMMCO5 b)
  | .setNumRef uNumRef => some (d.setNumRef uNumRef)

/-- What the callers promise: a new picture goes to a node that holds none, a
picture that is displayed or marked is in the buffer, and the list of
memory-management operations ends. -/
def Op.Pre (d : Dpb) : Op → Prop
  | .insert a => a.Valid ∧ (d.nodes a.uNode).bIsReset = true
  | .remove uNode => uNode = uEndOfList ∨ d.InDpb uNode
  | .display uNode => d.InDpb uNode
  | .markingProcess slice => d.InDpb d.uCurRef ∧ slice.MmcoTerminated
  | _ => True

instance (d : Dpb) : (op : Op) → Decidable (op.Pre d)
  | .insert _ => inferInstanceAs (Decidable (_ ∧ _))
  | .remove _ => inferInstanceAs (Decidable (_ ∨ _))
  | .display _ => inferInstanceAs (Decidable (Dpb.InDpb _ _))
  | .markingProcess _ => inferInstanceAs (Decidable (_ ∧ _))
  | .flush | .avcCleanup | .hevcCleanup _ _ | .endDecoding _ | .releaseDisplayBuffer
  | .clearOutput | .setMarkingFlag _ _ | .incrementPicLatency _ _ | .pictNumberProcess _
  | .beginNewSeq | .setLastHasMMCO5 _ | .setNumRef _ => isTrue trivial

/-- The risks that an operation takes on `d`. -/
def Op.risks (d : Dpb) : Op → List Risk
  | .insert a =>
    (if a.nonExisting = false ∧ d.ids.bPicWaiting then [.insertWhileWaiting] else []) ++
    (if a.nonExisting = false ∧ ¬ d.MvFree a.uMvID then [.sharedMv] else [])
  | .remove uNode =>
    if uNode ≠ uEndOfList ∧ (d.nodes uNode).picOutputFlag ∧ (d.nodes uNode).nonExisting = false then
      [.removePending]
    else []
  | .markingProcess slice =>
    let d := d.modNode d.uCurRef (Node.setCurrent d.uCurRef slice.frameNum)
    if slice.isIDR then []
    else ((d.pictNumberProcess slice).map (Dpb.markingRisks · slice)).getD []
  | .setMarkingFlag _ _ => [.setMarking]
  | _ => []

/-- The operation keeps the callers' promises and takes none of the risks `bad`. -/
def Op.Allowed (bad : List Risk) (d : Dpb) (op : Op) : Prop :=
  op.Pre d ∧ ∀ r ∈ op.risks d, r ∉ bad
deriving Decidable

def Dpb.run (d : Dpb) (ops : List Op) : Option Dpb := GuardedRuns.run Dpb.step ops d

/-- Each operation of the run is allowed. -/
def Dpb.RunAllowed (bad : List Risk) (d : Dpb) (ops : List Op) : Prop :=
  GuardedRuns.Guarded Dpb.step (Op.Allowed bad) ops d
deriving Decidable

/-! ## Sample runs -/

/-- A context cleared by `Rtos_Memset`. -/
def Dpb.zeroed : Dpb where
  nodes _ := ⟨0, 0, 0, 0, 0, 0, 0, 0, 0, 0, 0, 0, .shortTermRef, 0, 0, 0, 0, 0, 0, false, false,
    false, 0, false, 0⟩
  dispFifo := ⟨fun _ => 0, fun _ => 0, fun _ => .notNeededForOutput, 0, 0⟩
  ids := ⟨fun _ => 0, fun _ => 0, fun _ => 0, fun _ => 0, 0, false, 0, 0, 0⟩
  dlt := ⟨fun _ => 0, fun _ => 0, 0, 0, 0, 0, 0⟩
  iLastDisplayedPOC := 0
  uNumOutputPic := 0
  bNewSeq := false
  uNumRef := 0
  uHeadPOC := 0
  uHeadPocLsb := 0
  uLastPOC := 0
  uHeadDecOrder := 0
  uCurRef := 0
  uCountRef := 0
  uCountPic := 0
  maxLongTermFrameIdx := 0
  bLastHasMMCO5 := false
  eMode := .normal
  log := []

/-- A displayed picture in node and buffers `i`. -/
def InsertArgs.sample (i : ℕ) (iFramePOC : ℤ) (eMarkingFlag : MarkingRef) : InsertArgs where
  iFramePOC := iFramePOC
  uPocLsb := iFramePOC.toNat
  uNode := i
  uFrmID := i
  uMvID := i
  picOutputFlag := true
  eMarkingFlag := eMarkingFlag
  nonExisting := false
  eNUT := 1

/-- A slice of a stream with up to `n` reference frames. -/
def AvcSliceHdr.sample (n nalUnitType frameNum : ℕ) : AvcSliceHdr where
  sps := ⟨0, 0, 0, 0, 0, [], n, false⟩
  nalUnitType := nalUnitType
  nalRefIdc := 1
  frameNum := frameNum
  picOrderCntLsb := 0
  deltaPicOrderCntBottom := 0
  deltaPicOrderCnt := (0, 0)
  longTermReferenceFlag := false
  adaptiveRefPicMarkingModeFlag := false
  memoryManagementControlOperation := [0]
  differenceOfPicNumsMinus1 := []
  longTermPicNum := []
  longTermFrameIdx := []
  maxLongTermFrameIdxPlus1 := []

/-- A slice with memory-management operations. -/
def AvcSliceHdr.withMmco (slice : AvcSliceHdr) (ops : List ℕ) (diff lt : List ℤ) : AvcSliceHdr :=
  { slice with
    adaptiveRefPicMarkingModeFlag := true
    memoryManagementControlOperation := ops
    differenceOfPicNumsMinus1 := diff
    longTermFrameIdx := lt }

end VcuCodec
