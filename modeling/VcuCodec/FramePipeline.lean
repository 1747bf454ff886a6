import VcuCodec.DpbModel
import VcuCodec.GuardedRuns
import VcuCodec.RingQueues

/-!
# The frames of the decoder in flight

`lib_decode/SliceDataParsing.c` starts, cancels and launches frames, and
`AL_Default_Decoder_EndDecoding` ends them.  A frame takes a permit and locks its
reference buffers when it starts; the parameters of the frame that is next to be
launched are in the toggle buffers of slot `uToggle`.
-/

namespace VcuCodec

/-- The contents of `PoolPP`, `PoolSP` and `PoolListRefAddr` in one slot. -/
structure ToggleBuffers where
  PoolPP : ℕ
  PoolSP : ℕ
  PoolListRefAddr : ℕ
  deriving DecidableEq

/-- `AL_TDecCtx`, as far as the frames in flight go.  The access counts have what
`AL_PictMngr_LockRefID` and `AL_PictMngr_UnlockRefID` did to them. -/
structure DecCtx where
  iStackSize : ℕ
  Sem : ℕ
  iNumFrmBlk1 : ℕ
  iNumFrmBlk2 : ℕ
  uToggle : ℕ
  toggles : ℕ → ToggleBuffers
  uRefList : ℕ → List (ℕ × ℕ)
  frmAccess : ℕ → ℤ
  mvAccess : ℕ → ℤ
  bBeginFrameIsValid : Bool
  iStreamOffset : ℕ → ℕ
  iCurOffset : ℕ
  iOffset : ℕ
  iAvailSize : ℕ
  uSize : ℕ

/-- The references that `AL_InitRefBuffers` takes from the DPB: frame and MV buffer. -/
def initRefList (d : Dpb) : List (ℕ × ℕ) :=
  (((List.range maxDpbSize).filter fun uNode =>
    (d.nodes uNode).uFrmID ≠ uEndOfList ∧ (d.nodes uNode).uMvID ≠ uEndOfList ∧
      (d.nodes uNode).eMarkingFlag ≠ .unusedForRef ∧
      (d.nodes uNode).eMarkingFlag ≠ .nonExistingRef).take maxRef).map fun uNode =>
        ((d.nodes uNode).uFrmID, (d.nodes uNode).uMvID)

namespace DecCtx

variable (c : DecCtx)

def lockRefID (refs : List (ℕ × ℕ)) : DecCtx :=
  refs.foldl (fun c r => { c with
    frmAccess := Function.update c.frmAccess r.1 (c.frmAccess r.1 + 1)
    mvAccess := Function.update c.mvAccess r.2 (c.mvAccess r.2 + 1) }) c

def unlockRefID (refs : List (ℕ × ℕ)) : DecCtx :=
  refs.foldl (fun c r => { c with
    frmAccess := Function.update c.frmAccess r.1 (c.frmAccess r.1 - 1)
    mvAccess := Function.update c.mvAccess r.2 (c.mvAccess r.2 - 1) }) c

/-- The slot of the toggle buffers gets new contents. -/
def setToggle (b : ToggleBuffers) : DecCtx :=
  { c with toggles := Function.update c.toggles c.uToggle b }

/-- `UpdateContextAtEndOfFrame`: the picture parameters of the slot are cleared. -/
def updateContextAtEndOfFrame : DecCtx := c.setToggle { c.toggles c.uToggle with PoolPP := 0 }

def updateStreamOffset : DecCtx :=
  { c with
    iStreamOffset := Function.update c.iStreamOffset (c.iNumFrmBlk1 % c.iStackSize)
      ((c.iOffset + c.iAvailSize) % c.uSize) }

/-- `AL_LaunchFrameDecoding`, behind the call of the scheduler; `none` is the overflow
of the counter. -/
def launchFrameDecoding : Option DecCtx :=
  let c := c.updateStreamOffset
  if c.iNumFrmBlk1 + 1 < 2 ^ 31 then
    some { c with
      iNumFrmBlk1 := c.iNumFrmBlk1 + 1
      uToggle := (c.iNumFrmBlk1 + 1) % c.iStackSize }
  else none

/-- The launch in `endFrame`. -/
def endFrame : Option DecCtx := do
  let c ← c.launchFrameDecoding
  return { c.updateContextAtEndOfFrame with bBeginFrameIsValid := false }

/-- `finishPreviousFrame`; `PoolSP` is the slice table with the last entry closed. -/
def finishPreviousFrame (PoolSP : ℕ) : Option DecCtx :=
  let c := c.setToggle { c.toggles c.uToggle with PoolSP }
  -- the offset of the previous slot, which the launch writes over
  let c := { c with
    iStreamOffset := Function.update c.iStreamOffset (c.iNumFrmBlk1 % c.iStackSize)
      (c.iStreamOffset ((c.iNumFrmBlk1 + c.iStackSize - 1) % c.iStackSize)) }
  c.endFrame

/-- `AL_InitFrameBuffers`, where the picture manager has a buffer or not. -/
def initFrameBuffers (d : Dpb) (begun : Bool) : DecCtx :=
  let c := { c with Sem := c.Sem - 1 }
  if begun then
    let c := { c with
      uRefList := Function.update c.uRefList (c.iNumFrmBlk1 % maxStackSize) (initRefList d) }
    { c.lockRefID (initRefList d) with bBeginFrameIsValid := true }
  else { c with Sem := c.Sem + 1 }

/-- `AL_CancelFrameBuffers`. -/
def cancelFrameBuffers : DecCtx :=
  let c := c.unlockRefID (c.uRefList (c.iNumFrmBlk1 % maxStackSize))
  let c := c.updateContextAtEndOfFrame
  { c with Sem := c.Sem + 1, bBeginFrameIsValid := false }

/-- `AL_Default_Decoder_EndDecoding`. -/
def endDecoding : Option DecCtx :=
  let c := c.unlockRefID (c.uRefList (c.iNumFrmBlk2 % maxStackSize))
  let c := { c with iCurOffset := c.iStreamOffset (c.iNumFrmBlk2 % c.iStackSize) }
  if c.iNumFrmBlk2 + 1 < 2 ^ 31 then
    some { c with iNumFrmBlk2 := c.iNumFrmBlk2 + 1, Sem := c.Sem + 1 }
  else none

/-- The context of a new decoder. -/
def init (iStackSize uSize : ℕ) : DecCtx where
  iStackSize := iStackSize
  Sem := iStackSize
  iNumFrmBlk1 := 0
  iNumFrmBlk2 := 0
  uToggle := 0
  toggles _ := ⟨0, 0, 0⟩
  uRefList _ := []
  frmAccess _ := 0
  mvAccess _ := 0
  bBeginFrameIsValid := false
  iStreamOffset _ := 0
  iCurOffset := 0
  iOffset := 0
  iAvailSize := 0
  uSize := uSize

end DecCtx

/-! ## The decoder with the hardware and the feeder -/

/-- What the decoder thread, the hardware and the feeder do. -/
inductive FrameOp
  /-- `DecodeOneUnit` comes to the NAL with these bytes of the stream. -/
  | nal (first last : ℕ)
  /-- A slice fills its parameters in. -/
  | fill (b : ToggleBuffers)
  | start (d : Dpb) (begun : Bool)
  /-- The NAL becomes a slice of the frame. -/
  | takeSlice
  /-- `UpdateStreamOffset` behind a slice that does not end the frame. -/
  | launchSlice
  | endFrame
  | finishPreviousFrame (PoolSP : ℕ)
  | cancel
  /-- `UpdateContextAtEndOfFrame` for a slice that is skipped. -/
  | skip
  | resetValidFlags
  /-- The hardware reports one of the frames in flight. -/
  | endDecoding (k : ℕ)
  /-- The feeder gives the bytes up to the published offset back. -/
  | consume
  | flushInput

/-- A frame that is started: the references it locked, and its first byte. -/
structure StartedFrame where
  refs : List (ℕ × ℕ)
  firstByte : Option ℕ
  deriving DecidableEq

/-- A frame that is launched, with its slot, the contents of the slot and the end of
its last NAL. -/
structure LaunchedFrame extends StartedFrame where
  slot : ℕ
  buffers : ToggleBuffers
  lastByte : ℕ

/-- The decoder with its frames: the one that is started, those that were started and
neither launched nor cancelled, and those in flight.  The bytes of the stream are
counted from the last flush; `ends` is `iStreamOffset` before the modulus.  `returned`
has what a frame locked and what was unlocked when it ended. -/
structure FrameUse where
  ctx : DecCtx
  begun : Option StartedFrame
  abandoned : List StartedFrame
  inFlight : List LaunchedFrame
  returned : List (List (ℕ × ℕ) × List (ℕ × ℕ))
  nal : ℕ × ℕ
  inNal : Bool
  launchedInNal : Bool
  ends : ℕ → ℕ
  published : ℕ
  consumed : ℕ

namespace FrameUse

/-- The frame that is started goes to the hardware with the contents of its slot. -/
def launched (s : FrameUse) (c : DecCtx) : List LaunchedFrame :=
  s.begun.toList.map fun f =>
    { f with slot := c.uToggle, buffers := c.toggles c.uToggle, lastByte := s.nal.2 }

def step (s : FrameUse) : FrameOp → Option FrameUse
  | .nal first last => some { s with
      ctx := { s.ctx with iOffset := first % s.ctx.uSize, iAvailSize := last - first }
      nal := (first, last)
      inNal := true
      launchedInNal := false }
  | .fill b => some { s with ctx := s.ctx.setToggle b }
  | .start d begun => some { s with
      ctx := s.ctx.initFrameBuffers d begun
      begun := if begun then some ⟨initRefList d, none⟩ else s.begun }
  | .takeSlice => some { s with
      begun := s.begun.map fun f => { f with firstByte := some (f.firstByte.getD s.nal.1) } }
  | .launchSlice => some { s with
      ctx := s.ctx.updateStreamOffset
      ends := Function.update s.ends (s.ctx.iNumFrmBlk1 % s.ctx.iStackSize) s.nal.2 }
  | .endFrame => do
      let ctx ← s.ctx.endFrame
      return { s with
        ctx
        begun := none
        inFlight := s.inFlight ++ s.launched s.ctx
        launchedInNal := true
        ends := Function.update s.ends (s.ctx.iNumFrmBlk1 % s.ctx.iStackSize) s.nal.2 }
  | .finishPreviousFrame PoolSP => do
      let ctx ← s.ctx.finishPreviousFrame PoolSP
      return { s with
        ctx
        begun := none
        inFlight := s.inFlight ++
          s.launched (s.ctx.setToggle { s.ctx.toggles s.ctx.uToggle with PoolSP })
        launchedInNal := true
        ends := Function.update s.ends (s.ctx.iNumFrmBlk1 % s.ctx.iStackSize) s.nal.2 }
  | .cancel => some { s with
      ctx := s.ctx.cancelFrameBuffers
      begun := none
      returned := s.returned ++ s.begun.toList.map fun f =>
        (f.refs, s.ctx.uRefList (s.ctx.iNumFrmBlk1 % maxStackSize)) }
  | .skip => some { s with ctx := s.ctx.updateContextAtEndOfFrame }
  | .resetValidFlags => some { s with
      ctx := { s.ctx with bBeginFrameIsValid := false }
      begun := none
      abandoned := s.abandoned ++ s.begun.toList }
  | .endDecoding k => do
      let f ← s.inFlight[k]?
      let ctx ← s.ctx.endDecoding
      return { s with
        ctx
        inFlight := s.inFlight.eraseIdx k
        returned := s.returned ++ [(f.refs, s.ctx.uRefList (s.ctx.iNumFrmBlk2 % maxStackSize))]
        published := s.ends (s.ctx.iNumFrmBlk2 % s.ctx.iStackSize) }
  | .consume => some { s with
      consumed := s.consumed +
        (s.ctx.iCurOffset + s.ctx.uSize - s.consumed % s.ctx.uSize) % s.ctx.uSize }
  | .flushInput => some { s with
      ctx := { s.ctx with iCurOffset := 0 }
      nal := (0, 0)
      inNal := false
      launchedInNal := false
      published := 0
      consumed := 0 }

/-- What the parties keep to: the NALs follow each other and are in the stream buffer, a
frame starts in a NAL when there is a permit and none is started, and it is launched or
cancelled once; the hardware reports frames that it has, and the input is flushed when
all permits are there. -/
def Allowed (s : FrameUse) : FrameOp → Prop
  | .nal first last => s.nal.2 ≤ first ∧ first ≤ last ∧ last ≤ s.consumed + s.ctx.uSize
  | .start _ _ => s.inNal = true ∧ s.ctx.bBeginFrameIsValid = false ∧ 0 < s.ctx.Sem
  | .takeSlice => s.ctx.bBeginFrameIsValid = true
  | .launchSlice => s.ctx.bBeginFrameIsValid = true
  | .endFrame => s.ctx.bBeginFrameIsValid = true
  | .finishPreviousFrame _ => s.ctx.bBeginFrameIsValid = true
  | .cancel => s.ctx.bBeginFrameIsValid = true
  | .endDecoding k => k < s.inFlight.length
  | .flushInput => s.ctx.Sem = s.ctx.iStackSize
  | _ => True

/-- The hardware reports the frames in the order of their launches, and the counters do
not overflow. -/
def InOrder (s : FrameUse) : FrameOp → Prop
  | .endFrame => s.ctx.iNumFrmBlk1 + 1 < 2 ^ 31
  | .finishPreviousFrame _ => s.ctx.iNumFrmBlk1 + 1 < 2 ^ 31
  | .endDecoding k => k = 0
  | _ => True

/-- The new decoder. -/
def start (iStackSize uSize : ℕ) : FrameUse :=
  ⟨.init iStackSize uSize, none, [], [], [], (0, 0), false, false, fun _ => 0, 0, 0⟩

instance (s : FrameUse) : ∀ op, Decidable (s.Allowed op)
  | .nal _ _ => inferInstanceAs (Decidable (_ ∧ _ ∧ _))
  | .start _ _ => inferInstanceAs (Decidable (_ ∧ _ ∧ _))
  | .takeSlice => inferInstanceAs (Decidable (_ = _))
  | .launchSlice => inferInstanceAs (Decidable (_ = _))
  | .endFrame => inferInstanceAs (Decidable (_ = _))
  | .finishPreviousFrame _ => inferInstanceAs (Decidable (_ = _))
  | .cancel => inferInstanceAs (Decidable (_ = _))
  | .endDecoding _ => inferInstanceAs (Decidable (_ < _))
  | .flushInput => inferInstanceAs (Decidable (_ = _))
  | .fill _ => isTrue trivial
  | .skip => isTrue trivial
  | .resetValidFlags => isTrue trivial
  | .consume => isTrue trivial

instance (s : FrameUse) : ∀ op, Decidable (s.InOrder op)
  | .endFrame => inferInstanceAs (Decidable (_ < _))
  | .finishPreviousFrame _ => inferInstanceAs (Decidable (_ < _))
  | .endDecoding _ => inferInstanceAs (Decidable (_ = _))
  | .nal _ _ => isTrue trivial
  | .start _ _ => isTrue trivial
  | .takeSlice => isTrue trivial
  | .launchSlice => isTrue trivial
  | .cancel => isTrue trivial
  | .flushInput => isTrue trivial
  | .fill _ => isTrue trivial
  | .skip => isTrue trivial
  | .resetValidFlags => isTrue trivial
  | .consume => isTrue trivial

end FrameUse

end VcuCodec
