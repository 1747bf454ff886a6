import VcuCodec.DpbModel
import VcuCodec.GuardedRuns
import VcuCodec.LinkedQueues

/-!
# The frame buffer pool

The part of `lib_parsing/I_PictMngr.c` that passes frame buffers between the
application, the free FIFO and the decoder.  A buffer is a number and a null
pointer is `none`; the index -1 of the source is `none` too.  A failed
assertion is `none`.
-/

namespace VcuCodec

open LinkedQueues

/-- `AL_TFrameFifo` -/
structure FrameFifo where
  pFrame : Option ℕ
  iNext : Option ℕ
  iAccessCnt : ℤ
  bWillBeOutputed : Bool
  bOutEarly : Bool
  deriving DecidableEq, Repr

/-- `AL_TFrmBufPool` -/
structure FrmBufPool where
  array : ℕ → FrameFifo
  iFifoHead : Option ℕ
  iFifoTail : Option ℕ
  iBufNumber : ℕ

namespace FrmBufPool

/-- The free FIFO. -/
def queue (p : FrmBufPool) : Queue ℕ :=
  ⟨p.iFifoHead, p.iFifoTail, fun i => (p.array i).iNext, p.iBufNumber⟩

def modFrame (p : FrmBufPool) (i : ℕ) (f : FrameFifo → FrameFifo) : FrmBufPool :=
  { p with array := Function.update p.array i (f (p.array i)) }

/-- The pool after `sFrmBufPoolFifo_Init`, which leaves `bOutEarly` alone. -/
def init (p : FrmBufPool) : FrmBufPool where
  array := fun i =>
    if i < frmBufPoolSize then
      { p.array i with pFrame := none, iNext := none, iAccessCnt := -1, bWillBeOutputed := false }
    else p.array i
  iFifoHead := none
  iFifoTail := none
  iBufNumber := 0

/-! ## The FIFO -/

def getFrameIDFromDisplay (p : FrmBufPool) (pDisplayBuf : ℕ) : Option ℕ :=
  (List.range frmBufPoolSize).find? fun i => (p.array i).pFrame = some pDisplayBuf

/-- `sFrmBufPoolFifo_IsInFifo`, which does not end where the links have a cycle -/
def isInFifo (p : FrmBufPool) (pDisplayBuf : ℕ) : Option Bool :=
  p.queue.any (fun i => (p.array i).pFrame = some pDisplayBuf) (frmBufPoolSize + 1) p.iFifoHead

/-- `AddBufferToFifo`, without the write of the buffer -/
def linkBuffer (p : FrmBufPool) (iFrameID : ℕ) : Option FrmBufPool :=
  match p.iFifoTail, p.iFifoHead with
  | none, none => some { p with iFifoHead := some iFrameID }
  | some iTail, _ => some (p.modFrame iTail fun f => { f with iNext := some iFrameID })
  | none, some _ => none

def addBufferToFifo (p : FrmBufPool) (iFrameID : ℕ) (pFrame : ℕ) : Option FrmBufPool := do
  let p ← (p.modFrame iFrameID fun f => { f with pFrame := some pFrame }).linkBuffer iFrameID
  some ({ p with iFifoTail := some iFrameID, iBufNumber := p.iBufNumber + 1 }.modFrame iFrameID
    fun f => { f with iAccessCnt := 0, bWillBeOutputed := false })

/-- The test of `sFrmBufPoolFifo_PushBack` for an empty slot. -/
def FrameIsEmpty (f : FrameFifo) : Prop :=
  f.pFrame = none ∧ f.iNext = none ∧ f.iAccessCnt = -1 ∧ f.bWillBeOutputed = false
deriving Decidable

def pushBack (p : FrmBufPool) (pFrame : ℕ) : Option FrmBufPool := do
  let i ← (List.range frmBufPoolSize).find? fun i => FrameIsEmpty (p.array i)
  p.addBufferToFifo i pFrame

/-- `RemoveBufferFromFifo`, which gives the first slot -/
def removeBufferFromFifo (p : FrmBufPool) : Option (FrmBufPool × ℕ) := do
  let iFrameID ← p.iFifoHead
  let iFifoHead := (p.array iFrameID).iNext
  let p := p.modFrame iFrameID fun f => { f with iNext := none, iAccessCnt := 1 }
  some ({ p with
    iFifoHead := iFifoHead
    iFifoTail := if iFifoHead = none then none else p.iFifoTail
    iBufNumber := p.iBufNumber - 1 }, iFrameID)

/-- The assertions of `sFrmBufPoolFifo_Pop` about the first slot. -/
def CanBePopped (f : FrameFifo) : Prop :=
  f.pFrame ≠ none ∧ f.iAccessCnt = 0 ∧ f.bWillBeOutputed = false
deriving Decidable

/-- `sFrmBufPoolFifo_Pop` where the FIFO is not empty -/
def pop (p : FrmBufPool) : Option (FrmBufPool × ℕ) := do
  let iFifoHead ← p.iFifoHead
  if CanBePopped (p.array iFifoHead) then p.removeBufferFromFifo else none

/-! ## The slots -/

def removeID (p : FrmBufPool) (iFrameID : ℕ) : Option FrmBufPool :=
  let f := p.array iFrameID
  if iFrameID < frmBufPoolSize ∧ f.pFrame ≠ none ∧ f.iNext = none ∧ f.iAccessCnt = 0 then
    some (p.modFrame iFrameID fun f =>
      { f with pFrame := none, iAccessCnt := -1, bWillBeOutputed := false, iNext := none })
  else none

/-- The buffer of a slot that was just emptied goes back to the FIFO. -/
def recycle (p : FrmBufPool) (pFrame : ℕ) : Option FrmBufPool := do
  let inFifo ← p.isInFifo pFrame
  if inFifo then none else p.pushBack pFrame

/-- The end of `sFrmBufPool_DecrementBufID`, for a slot that nothing refers to. -/
def freeSlot (p : FrmBufPool) (iFrameID : ℕ) (bForceOutput : Bool) : Option FrmBufPool := do
  let f := p.array iFrameID
  let pFrame ← f.pFrame
  let p ← p.removeID iFrameID
  if (!f.bWillBeOutputed && !bForceOutput) || (!f.bOutEarly && bForceOutput) then p.recycle pFrame
  else some p

def decrementBufID (p : FrmBufPool) (iFrameID : ℕ) (bForceOutput : Bool) : Option FrmBufPool :=
  let f := p.array iFrameID
  if iFrameID < frmBufPoolSize ∧ 1 ≤ f.iAccessCnt then
    let p := p.modFrame iFrameID fun f => { f with iAccessCnt := f.iAccessCnt - 1 }
    if f.iAccessCnt - 1 = 0 ∧ f.bOutEarly = false then p.freeSlot iFrameID bForceOutput else some p
  else none

def outputBufID (p : FrmBufPool) (iFrameID : ℕ) : Option FrmBufPool :=
  if iFrameID < frmBufPoolSize ∧ (p.array iFrameID).bWillBeOutputed = false then
    some (p.modFrame iFrameID fun f => { f with bWillBeOutputed := true })
  else none

def incrementBufID (p : FrmBufPool) (iFrameID : ℕ) : Option FrmBufPool :=
  if iFrameID < frmBufPoolSize ∧ 0 ≤ (p.array iFrameID).iAccessCnt then
    some (p.modFrame iFrameID fun f => { f with iAccessCnt := f.iAccessCnt + 1 })
  else none

/-! ## The display -/

/-- `AL_PictMngr_ForceDisplayBuffer`, with the buffer it returns -/
def forceDisplayBuffer (p : FrmBufPool) (iFrameID : ℕ) : Option (FrmBufPool × ℕ) := do
  let pFrame ← (p.array iFrameID).pFrame
  some (p.modFrame iFrameID fun f => { f with bOutEarly := true }, pFrame)

/-- `sPictMngr_ReleaseDisplayBuffer` -/
def releaseDisplayBuffer (p : FrmBufPool) (iFrameID : ℕ) : Option FrmBufPool :=
  let f := p.array iFrameID
  let recycleSlot (p : FrmBufPool) : Option FrmBufPool := do
    let pFrame ← f.pFrame
    let p ← p.removeID iFrameID
    p.recycle pFrame
  if f.bOutEarly then
    let p := p.modFrame iFrameID fun f => { f with bOutEarly := false }
    if f.iAccessCnt = 0 ∧ f.bWillBeOutputed then
      recycleSlot (p.modFrame iFrameID fun f => { f with bWillBeOutputed := false })
    else some p
  else if f.bWillBeOutputed then
    let p := p.modFrame iFrameID fun f => { f with bWillBeOutputed := false }
    if f.iAccessCnt = 0 then recycleSlot p else some p
  else none

def putDisplayBuffer (p : FrmBufPool) (pBuf : ℕ) : Option FrmBufPool :=
  match p.getFrameIDFromDisplay pBuf with
  | none => p.pushBack pBuf
  | some iFrameID => p.releaseDisplayBuffer iFrameID

/-- `sFrmBufPoolFifo_FlushOneDisplayBuffer` where the FIFO is not empty, with the
buffer it returns -/
def flushOneDisplayBuffer (p : FrmBufPool) : Option (FrmBufPool × ℕ) := do
  let iFifoHead ← p.iFifoHead
  let headBuf := p.array iFifoHead
  if headBuf.iAccessCnt = 0 ∧ (headBuf.bOutEarly ∨ headBuf.bWillBeOutputed = false) then do
    let (p, iFrameID) ← p.removeBufferFromFifo
    let p := p.modFrame iFrameID fun f =>
      { f with iAccessCnt := 0, bWillBeOutputed := if f.bOutEarly then f.bWillBeOutputed else true }
    let pFrame ← (p.array iFrameID).pFrame
    some (p, pFrame)
  else none

def signalCallbackReleaseIsDone (p : FrmBufPool) (pReleasedFrame : ℕ) : Option FrmBufPool := do
  let iFrameID ← p.getFrameIDFromDisplay pReleasedFrame
  let inFifo ← p.isInFifo pReleasedFrame
  let f := p.array iFrameID
  if inFifo = false ∧ (f.bWillBeOutputed ∨ f.bOutEarly) then
    (p.modFrame iFrameID fun f => { f with bWillBeOutputed := false }).removeID iFrameID
  else none

end FrmBufPool

/-! ## The users of the pool -/

/-- What the parties do.  `decrement` is the end of a decoding, of a lock, of a
place in the buffer of pictures or of one in the display FIFO. -/
inductive PoolOp
  | putDisplayBuffer (pBuf : ℕ)
  | beginFrame
  | increment (iFrameID : ℕ)
  | decrement (iFrameID : ℕ)
  | output (iFrameID : ℕ)
  | display (iFrameID : ℕ)
  | forceDisplay (iFrameID : ℕ)
  | releaseUnused
  deriving DecidableEq, Repr

/-- The pool, the buffers the application holds and the slots that wait in the
display FIFO for their display. -/
structure PoolUse where
  pool : FrmBufPool
  bForceOutput : Bool
  app : ℕ → Bool
  waiting : ℕ → Bool

namespace PoolUse

def setPool (s : PoolUse) (pool : FrmBufPool) : PoolUse := { s with pool := pool }

def setApp (s : PoolUse) (b : ℕ) (v : Bool) : PoolUse :=
  { s with app := Function.update s.app b v }

def setWaiting (s : PoolUse) (i : ℕ) (v : Bool) : PoolUse :=
  { s with waiting := Function.update s.waiting i v }

def step (s : PoolUse) : PoolOp → Option PoolUse
  | .putDisplayBuffer b => do
    let p ← s.pool.putDisplayBuffer b
    some ((s.setPool p).setApp b false)
  -- where the FIFO is empty, `AL_PictMngr_BeginFrame` waits
  | .beginFrame =>
    if 0 < s.pool.iBufNumber then s.pool.pop.map fun r => s.setPool r.1 else some s
  | .increment i => (s.pool.incrementBufID i).map s.setPool
  | .decrement i => (s.pool.decrementBufID i s.bForceOutput).map s.setPool
  -- with early output the display FIFO is emptied without a display
  | .output i => do
    let p ← s.pool.outputBufID i
    some ((s.setPool p).setWaiting i !s.bForceOutput)
  | .display i => do
    let b ← (s.pool.array i).pFrame
    some ((s.setWaiting i false).setApp b true)
  | .forceDisplay i => do
    let r ← s.pool.forceDisplayBuffer i
    some ((s.setPool r.1).setApp r.2 true)
  | .releaseUnused =>
    if s.pool.iFifoHead = none then some s
    else do
      let r ← s.pool.flushOneDisplayBuffer
      let p ← r.1.signalCallbackReleaseIsDone r.2
      some ((s.setPool p).setApp r.2 true)

/-- What the parties promise: the application gives back buffers that it holds,
and new ones as long as there is room; a reference is taken on a slot that is
referred to and given up once; a slot waits for its display with a reference of
its own; and a picture is output early once while it is decoded. -/
def Allowed (s : PoolUse) : PoolOp → Prop
  | .putDisplayBuffer b => s.app b = true ∧ (s.pool.getFrameIDFromDisplay b ≠ none ∨
      ∃ i ∈ List.range frmBufPoolSize, (s.pool.array i).pFrame = none)
  | .beginFrame => True
  | .increment i => i < frmBufPoolSize ∧ 1 ≤ (s.pool.array i).iAccessCnt
  | .decrement i => i < frmBufPoolSize ∧
      (if s.waiting i then 2 else 1) ≤ (s.pool.array i).iAccessCnt
  | .output i => i < frmBufPoolSize ∧ 1 ≤ (s.pool.array i).iAccessCnt ∧
      (s.pool.array i).bWillBeOutputed = false
  | .display i => i < frmBufPoolSize ∧ s.waiting i = true
  | .forceDisplay i => s.bForceOutput = true ∧ i < frmBufPoolSize ∧
      1 ≤ (s.pool.array i).iAccessCnt ∧ ∀ b ∈ (s.pool.array i).pFrame, s.app b = false
  | .releaseUnused => True

instance (s : PoolUse) : ∀ op, Decidable (s.Allowed op)
  | .putDisplayBuffer _ => inferInstanceAs (Decidable (_ ∧ _))
  | .beginFrame => isTrue trivial
  | .increment _ => inferInstanceAs (Decidable (_ ∧ _))
  | .decrement _ => inferInstanceAs (Decidable (_ ∧ _))
  | .output _ => inferInstanceAs (Decidable (_ ∧ _))
  | .display _ => inferInstanceAs (Decidable (_ ∧ _))
  | .forceDisplay _ => inferInstanceAs (Decidable (_ ∧ _))
  | .releaseUnused => isTrue trivial

/-- A pool that was just created: the application holds all buffers. -/
def start (bForceOutput : Bool) : PoolUse where
  pool := FrmBufPool.init ⟨fun _ => ⟨none, none, 0, false, false⟩, none, none, 0⟩
  bForceOutput := bForceOutput
  app := fun _ => true
  waiting := fun _ => false

end PoolUse

end VcuCodec
