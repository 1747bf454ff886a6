import VcuCodec.GuardedRuns
import VcuCodec.MachineInts
import VcuCodec.RingQueues

/-!
# The Patchworker

`lib_decode/Patchworker.c` copies the buffers that `UnsplitBufferFeeder.c` puts
into the FIFO to the circular stream buffer of the decoder, as far as there is
space; the slave of `DecoderFeeder.c` gives the space back.  How much of a buffer
is copied is in metadata that the push attaches to the buffer.
-/

namespace VcuCodec

/-- `AL_TCircMetaData`. -/
structure CircMeta where
  iOffset : ℤ
  iAvailSize : ℤ
  bLastBuffer : Bool
  deriving DecidableEq

/-- A buffer of the application: its bytes, and its circular metadata in the
order they were added. -/
structure InputBuffer where
  data : List UInt8
  metas : List CircMeta

/-- The Patchworker with its FIFO, the buffers and the circular stream buffer. -/
structure Patchworker where
  bufs : ℕ → InputBuffer
  fifo : List ℕ
  workBuf : Option ℕ
  endOfInput : Bool
  endOfOutput : Bool
  zStreamSize : ℕ
  pStreamData : ℕ → UInt8
  iOffset : ℤ
  iAvailSize : ℤ

namespace InputBuffer

/-- `AL_Buffer_GetMetaData`. -/
def getMetaData (b : InputBuffer) : Option CircMeta := b.metas.head?

/-- `AL_Buffer_AddMetaData`. -/
def addMetaData (b : InputBuffer) (m : CircMeta) : InputBuffer := { b with metas := b.metas ++ [m] }

/-- `AL_Buffer_RemoveMetaData` of what `AL_Buffer_GetMetaData` finds: the last one
takes its place. -/
def removeMetaData (b : InputBuffer) : InputBuffer :=
  { b with metas := b.metas.tail.getLast?.toList ++ b.metas.tail.dropLast }

def getBufferOffset (b : InputBuffer) : ℕ :=
  match b.getMetaData with
  | none => 0
  | some m => (m.iOffset % 2 ^ 32).toNat

/-- The bytes of the buffer from `uOffset` on. -/
def bytesAt (b : InputBuffer) (uOffset n : ℕ) : List UInt8 :=
  (List.range n).map fun k => b.data.getD (uOffset + k) 0

end InputBuffer

/-- `Rtos_Memcpy`. -/
def memcpy (mem : ℕ → UInt8) (dst : ℕ) (src : List UInt8) : ℕ → UInt8 :=
  fun i => if dst ≤ i ∧ i < dst + src.length then src.getD (i - dst) 0 else mem i

namespace Patchworker

def getCopiedAreaSize (s : Patchworker) (b : InputBuffer) : ℕ :=
  let unusedAreaSize := toSizeT (s.zStreamSize - s.iAvailSize)
  match b.getMetaData with
  | none => min b.data.length unusedAreaSize
  | some m => min (toSizeT m.iAvailSize) unusedAreaSize

def getNotCopiedAreaSize (b : InputBuffer) (zCopiedSize : ℕ) : ℕ :=
  match b.getMetaData with
  | none => toSizeT (b.data.length - zCopiedSize)
  | some m => toSizeT (m.iAvailSize - zCopiedSize)

/-- The index in the stream buffer behind the bytes that are not consumed; the sum
is an `int32_t`. -/
def uEndStream (s : Patchworker) : ℕ := toSizeT (toInt32 (s.iOffset + s.iAvailSize)) % s.zStreamSize

def copyAreaToStream (s : Patchworker) (src : List UInt8) : ℕ → UInt8 :=
  if s.zStreamSize < s.uEndStream + src.length then
    let spaceLeftBeforeWrapping := s.zStreamSize - s.uEndStream
    memcpy (memcpy s.pStreamData s.uEndStream (src.take spaceLeftBeforeWrapping)) 0
      (src.drop spaceLeftBeforeWrapping)
  else memcpy s.pStreamData s.uEndStream src

/-- `TryCopyBufferToStream`, with the number of bytes to copy. -/
def tryCopyBufferToStream (s : Patchworker) (b : InputBuffer) (zCopySize : ℕ) : Patchworker :=
  if zCopySize = 0 then s
  else { s with
    pStreamData := s.copyAreaToStream (b.bytesAt b.getBufferOffset zCopySize)
    iAvailSize := toInt32 (s.iAvailSize + zCopySize) }

def updateConsumedSpaceInBuffer (b : InputBuffer) (zCopiedSize zNotCopiedSize : ℕ) : InputBuffer :=
  match b.metas with
  | [] => b.addMetaData ⟨toInt32 zCopiedSize, toInt32 zNotCopiedSize, false⟩
  | m :: ms => { b with
    metas := { m with
      iOffset := toInt32 (m.iOffset + zCopiedSize)
      iAvailSize := toInt32 zNotCopiedSize } :: ms }

/-- `AL_Patchworker_CopyBuffer`: the size that is not copied, the size that is, and
the Patchworker. -/
def copyBuffer (s : Patchworker) (i : ℕ) : ℕ × ℕ × Patchworker :=
  let b := s.bufs i
  let zCopiedSize := s.getCopiedAreaSize b
  let s := s.tryCopyBufferToStream b zCopiedSize
  let zNotCopiedSize := getNotCopiedAreaSize b zCopiedSize
  (zNotCopiedSize, zCopiedSize,
    if zNotCopiedSize ≠ 0 then
      { s with
        bufs := Function.update s.bufs i (updateConsumedSpaceInBuffer b zCopiedSize zNotCopiedSize) }
    else
      match b.getMetaData with
      | none => s
      | some m =>
        { s with
          endOfOutput := s.endOfOutput || m.bLastBuffer
          bufs := Function.update s.bufs i b.removeMetaData })

/-- The next buffer becomes the one that is copied. -/
def takeWorkBuf (s : Patchworker) : Patchworker :=
  if s.workBuf = none then { s with workBuf := s.fifo.head?, fifo := s.fifo.tail } else s

/-- `AL_Patchworker_Transfer`: the number of bytes copied, and the Patchworker. -/
def transfer (s : Patchworker) : ℕ × Patchworker :=
  let s := s.takeWorkBuf
  match s.workBuf with
  | none => (0, s)
  | some i =>
    let (zNotCopiedSize, zCopiedSize, s) := s.copyBuffer i
    (zCopiedSize, if zNotCopiedSize ≠ 0 then s else { s with workBuf := none })

/-- `AL_Patchworker_Reset`, with `AL_Patchworker_Drop`. -/
def reset (s : Patchworker) : Patchworker :=
  { s with
    endOfOutput := false
    endOfInput := false
    workBuf := none
    fifo := []
    iOffset := 0
    iAvailSize := 0 }

/-- `pushBuffer`, once the application has written `data` into the buffer. -/
def push (s : Patchworker) (i : ℕ) (data : List UInt8) (uSize : ℕ) (bLastBuffer : Bool) :
    Patchworker :=
  let b : InputBuffer := { s.bufs i with data }
  { s with
    bufs := Function.update s.bufs i (b.addMetaData ⟨0, toInt32 uSize, bLastBuffer⟩)
    fifo := s.fifo ++ [i] }

/-- `CircBuffer_ConsumeUpToOffset`; the assertion fails for `none`. -/
def consumeUpToOffset (s : Patchworker) (iNewOffset : ℤ) : Option Patchworker :=
  let iAvailSize :=
    if iNewOffset < s.iOffset then s.iAvailSize - (iNewOffset + s.zStreamSize - s.iOffset)
    else s.iAvailSize - (iNewOffset - s.iOffset)
  if 0 ≤ iAvailSize then some { s with iAvailSize, iOffset := iNewOffset } else none

def init (bufs : ℕ → InputBuffer) (zStreamSize : ℕ) (pStreamData : ℕ → UInt8) : Patchworker where
  bufs := bufs
  fifo := []
  workBuf := none
  endOfInput := false
  endOfOutput := false
  zStreamSize := zStreamSize
  pStreamData := pStreamData
  iOffset := 0
  iAvailSize := 0

/-- The buffers that the Patchworker holds, in the order of their pushes. -/
def held (s : Patchworker) : List ℕ := s.workBuf.toList ++ s.fifo

end Patchworker

/-! ## The feeder and its parties -/

/-- The steps of the application and of the slave thread. -/
inductive FeederOp
  | push (i : ℕ) (data : List UInt8) (uSize : ℕ) (bLastBuffer : Bool)
  | transfer
  | consume (iNewOffset : ℤ)
  | endOfInput
  | reset

/-- The Patchworker with what was pushed and what was put into the stream buffer
since the last reset.  The latter is read from the stream buffer. -/
structure FeederUse where
  patchworker : Patchworker
  pushed : List UInt8
  placed : List UInt8

namespace FeederUse

/-- The bytes that `t` has and `s` had not behind those not yet consumed. -/
def newBytes (s t : Patchworker) : List UInt8 :=
  RingQueues.contents t.pStreamData t.zStreamSize ((s.iOffset + s.iAvailSize).toNat % t.zStreamSize)
    (t.iAvailSize - s.iAvailSize).toNat

def step (s : FeederUse) : FeederOp → Option FeederUse
  | .push i data uSize bLastBuffer => some { s with
      patchworker := s.patchworker.push i data uSize bLastBuffer
      pushed := s.pushed ++ data.take uSize }
  | .transfer => some { s with
      patchworker := s.patchworker.transfer.2
      placed := s.placed ++ newBytes s.patchworker s.patchworker.transfer.2 }
  | .consume iNewOffset => do
      let p ← s.patchworker.consumeUpToOffset iNewOffset
      return { s with patchworker := p }
  | .endOfInput => some { s with patchworker := { s.patchworker with endOfInput := true } }
  | .reset => some ⟨s.patchworker.reset, [], []⟩

/-- What the parties keep to: a buffer is pushed again once it is released, its
size is not more than its bytes, and the decoder consumes bytes that are there. -/
def Allowed (s : FeederUse) : FeederOp → Prop
  | .push i data uSize _ => i ∉ s.patchworker.held ∧ uSize ≤ data.length
  | .consume iNewOffset => ∃ n ≤ s.patchworker.iAvailSize.toNat,
      iNewOffset = (s.patchworker.iOffset.toNat + n) % s.patchworker.zStreamSize
  | _ => True

/-- The decoder is created with a stream buffer and buffers that carry no circular
metadata. -/
def start (data : ℕ → List UInt8) (zStreamSize : ℕ) (pStreamData : ℕ → UInt8) : FeederUse :=
  ⟨.init (fun i => ⟨data i, []⟩) zStreamSize pStreamData, [], []⟩

end FeederUse

end VcuCodec
