import VcuCodec.GuardedRuns
import VcuCodec.RingQueues
import Mathlib.Data.List.Basic

/-!
# The encoder context

`lib_encode/Com_Encoder.c` keeps a ring of stream buffers for the scheduler to fill,
a pool of picture infos, a table of the source buffers that were sent and a semaphore
that bounds the frames in flight.  There is one layer.
-/

namespace VcuCodec

def alMaxStreamBuffer : ℕ := 320

def alMaxSourceBuffer : ℕ := 38

def encMaxCmd : ℕ := 18

def alEncMaxHeaderSize : ℕ := 12288

/-- What the encoder holds a reference on a buffer for.  `AL_Buffer_Ref` counts them
together. -/
inductive RefUse
  | stream
  | source
  | qpTable
  deriving DecidableEq

/-- The stream buffers in `AL_TLayerCtx`. -/
structure LayerCtx where
  iCurStreamSent : ℕ
  iCurStreamRecv : ℕ
  StreamSent : ℕ → Option ℕ

/-- `AL_TEncCtx`, with the references that the encoder holds and the buffers it gave
to the callback so far.  The pool has the QP tables; the source table has the source
buffer and its picture info. -/
structure EncCtx where
  tLayerCtx : LayerCtx
  bEndOfStreamReceived : Bool
  bQpTableRequired : Bool
  Pool : ℕ → Option ℕ
  iPoolIds : List ℕ
  SourceSent : List (Option (ℕ × ℕ))
  PendingEncodings : ℕ
  refs : RefUse → ℕ → ℤ
  callbacks : List (Option ℕ × Option ℕ)

/-- What the scheduler is given with a frame, and what it gives back. -/
structure EncFrame where
  UserParam : ℕ
  SrcHandle : ℕ
  deriving DecidableEq

/-- `AL_TEncPicStatus`. -/
structure EncPicStatus extends EncFrame where
  bIsLastSlice : Bool

/-- The first free entry of the source table is taken; `none` is the failed assertion. -/
def addSourceSent (pSrc pFI : ℕ) : List (Option (ℕ × ℕ)) → Option (List (Option (ℕ × ℕ)))
  | [] => none
  | none :: t => some (some (pSrc, pFI) :: t)
  | some e :: t => (addSourceSent pSrc pFI t).map (some e :: ·)

/-- The first entry with the source is freed; `none` is the failed assertion. -/
def removeSourceSent (pSrc : ℕ) : List (Option (ℕ × ℕ)) → Option (List (Option (ℕ × ℕ)))
  | [] => none
  | none :: t => (removeSourceSent pSrc t).map (none :: ·)
  | some e :: t =>
    if e.1 = pSrc then some (none :: t) else (removeSourceSent pSrc t).map (some e :: ·)

namespace EncCtx

variable (c : EncCtx)

/-- `AL_Buffer_Ref`. -/
def ref (u : RefUse) (b : ℕ) : EncCtx :=
  { c with refs := fun v x => if v = u ∧ x = b then c.refs v x + 1 else c.refs v x }

/-- `AL_Buffer_Unref`. -/
def unref (u : RefUse) (b : ℕ) : EncCtx :=
  { c with refs := fun v x => if v = u ∧ x = b then c.refs v x - 1 else c.refs v x }

/-- `AL_Buffer_Ref` of a QP table, if there is one. -/
def refQpTable : Option ℕ → EncCtx
  | none => c
  | some pQpTable => c.ref .qpTable pQpTable

/-- `AL_Buffer_Unref` of a QP table, if there is one. -/
def unrefQpTable : Option ℕ → EncCtx
  | none => c
  | some pQpTable => c.unref .qpTable pQpTable

/-- `AL_Common_Encoder_PutStreamBuffer`: the result, the context, and what the
scheduler is given. -/
def putStreamBuffer (pStream size : ℕ) : Bool × EncCtx × Option (ℕ × ℕ) :=
  let curStreamSent := c.tLayerCtx.iCurStreamSent
  let c := { c with tLayerCtx := { c.tLayerCtx with
    StreamSent := Function.update c.tLayerCtx.StreamSent curStreamSent (some pStream)
    iCurStreamSent := (curStreamSent + 1) % alMaxStreamBuffer } }
  let c := c.ref .stream pStream
  if size < alEncMaxHeaderSize then (false, c, none) else (true, c, some (curStreamSent, pStream))

def releaseSource (pSrc pFI : ℕ) : Option EncCtx := do
  let SourceSent ← removeSourceSent pSrc c.SourceSent
  let c := ({ c with SourceSent } : EncCtx).unref .source pSrc
  return c.unrefQpTable (c.Pool pFI)

def giveIdBackToPool (iPoolID : ℕ) : EncCtx :=
  if c.iPoolIds.length < encMaxCmd then { c with iPoolIds := c.iPoolIds ++ [iPoolID] } else c

/-- `AL_Common_Encoder_Process` returns before it takes anything. -/
def refuses (pFrame pQpTable : Option ℕ) (canBeUsed : Bool) : Bool :=
  c.bEndOfStreamReceived || pFrame.isSome && (!canBeUsed || c.bQpTableRequired && pQpTable.isNone)

/-- `AL_Common_Encoder_Process`: the result, the context, and the frame that the
scheduler takes.  `canBeUsed` is the answer of the source buffer checker and `encoded`
that of the scheduler. -/
def process (pFrame pQpTable : Option ℕ) (canBeUsed encoded : Bool) :
    Option (Bool × EncCtx × Option EncFrame) :=
  if c.refuses pFrame pQpTable canBeUsed then some (false, c, none)
  else
    match pFrame with
    | none => some (encoded, { c with bEndOfStreamReceived := true }, none)
    | some pFrame => do
      let c := { c with PendingEncodings := c.PendingEncodings - 1 }
      let iCurPool ← c.iPoolIds.head?
      let c := { c with
        iPoolIds := c.iPoolIds.tail
        Pool := Function.update c.Pool iCurPool pQpTable }
      let c := c.refQpTable pQpTable
      let c := c.ref .source pFrame
      let SourceSent ← addSourceSent pFrame iCurPool c.SourceSent
      let c := { c with SourceSent }
      if encoded then
        return (true, c, some ⟨iCurPool, pFrame⟩)
      else
        let c ← c.releaseSource pFrame iCurPool
        return (false, c, none)

/-- `EndEncoding` with a status. -/
def endEncoding (pPicStatus : EncPicStatus) (streamId : ℕ) : Option EncCtx :=
  if streamId < alMaxStreamBuffer ∧ c.tLayerCtx.iCurStreamRecv = streamId then do
    let c := { c with tLayerCtx := { c.tLayerCtx with
      iCurStreamRecv := (c.tLayerCtx.iCurStreamRecv + 1) % alMaxStreamBuffer } }
    let pStream ← c.tLayerCtx.StreamSent streamId
    let pSrc := pPicStatus.SrcHandle
    let c := { c with callbacks := c.callbacks ++ [(some pStream, some pSrc)] }
    let c ←
      if pPicStatus.bIsLastSlice then do
        let c ← c.releaseSource pSrc pPicStatus.UserParam
        let c := c.giveIdBackToPool pPicStatus.UserParam
        some { c with PendingEncodings := c.PendingEncodings + 1 }
      else some c
    return c.unref .stream pStream
  else none

/-- `EndEncoding` without a status: the end of the stream is reported. -/
def endEncodingNull : EncCtx := { c with callbacks := c.callbacks ++ [(none, none)] }

/-- The entries of the ring from `streamId` to the send index. -/
def streamsFrom (l : LayerCtx) : ℕ → ℕ → List (Option ℕ)
  | 0, _ => []
  | n + 1, streamId =>
    if streamId = l.iCurStreamSent then []
    else l.StreamSent streamId :: streamsFrom l n ((streamId + 1) % alMaxStreamBuffer)

/-- One round of `releaseStreams`. -/
def releaseStream (pStream : Option ℕ) : Option EncCtx := do
  let pStream ← pStream
  return ({ c with callbacks := c.callbacks ++ [(some pStream, none)] } : EncCtx).unref .stream pStream

def releaseStreams : Option EncCtx :=
  (streamsFrom c.tLayerCtx alMaxStreamBuffer c.tLayerCtx.iCurStreamRecv).foldlM releaseStream c

/-- One round of `releaseSources`. -/
def releaseSourceAt (sourceId : ℕ) : Option EncCtx :=
  match c.SourceSent[sourceId]?.join with
  | none => some c
  | some (pSrc, pFI) =>
    ({ c with callbacks := c.callbacks ++ [(none, some pSrc)] } : EncCtx).releaseSource pSrc pFI

def releaseSources : Option EncCtx := (List.range alMaxSourceBuffer).foldlM releaseSourceAt c

/-- `destroyChannels`, behind the scheduler's part. -/
def destroyChannels : Option EncCtx := do
  let c ← c.releaseStreams
  c.releaseSources

/-- The context once the channel is created. -/
def init (bQpTableRequired : Bool) : EncCtx where
  tLayerCtx := ⟨0, 0, fun _ => none⟩
  bEndOfStreamReceived := false
  bQpTableRequired := bQpTableRequired
  Pool _ := none
  iPoolIds := List.range encMaxCmd
  SourceSent := List.replicate alMaxSourceBuffer none
  PendingEncodings := encMaxCmd - 1
  refs _ _ := 0
  callbacks := []

end EncCtx

/-! ## The encoder with its scheduler -/

/-- The calls of the application and of the scheduler. -/
inductive EncoderOp
  | process (pFrame pQpTable : Option ℕ) (canBeUsed encoded : Bool)
  | putStreamBuffer (pStream size : ℕ) (mapped : Bool)
  | endEncoding (pPicStatus : EncPicStatus) (streamUserPtr : ℕ)
  | endOfStream
  | destroy

/-- The encoder with the stream buffers and the frames that the scheduler has, the
stream buffers whose submission returned true, and the context before and after each
call that returned false. -/
structure EncoderUse where
  ctx : EncCtx
  alive : Bool
  streams : List (ℕ × ℕ)
  frames : List EncFrame
  submitted : List ℕ
  refusedFrames : List (EncCtx × EncCtx)
  refusedStreams : List (EncCtx × EncCtx)

namespace EncoderUse

/-- The scheduler takes a stream buffer only if the driver can map it. -/
def step (s : EncoderUse) : EncoderOp → Option EncoderUse
  | .process pFrame pQpTable canBeUsed encoded => do
      let (bRet, ctx, frame) ← s.ctx.process pFrame pQpTable canBeUsed encoded
      return { s with
        ctx
        frames := s.frames ++ frame.toList
        refusedFrames := if bRet then s.refusedFrames else s.refusedFrames ++ [(s.ctx, ctx)] }
  | .putStreamBuffer pStream size mapped =>
      let (bRet, ctx, given) := s.ctx.putStreamBuffer pStream size
      some { s with
        ctx
        streams := if mapped then s.streams ++ given.toList else s.streams
        submitted := if bRet then s.submitted ++ [pStream] else s.submitted
        refusedStreams := if bRet then s.refusedStreams else s.refusedStreams ++ [(s.ctx, ctx)] }
  | .endEncoding pPicStatus streamUserPtr => do
      let ctx ← s.ctx.endEncoding pPicStatus streamUserPtr
      return { s with
        ctx
        streams := s.streams.tail
        frames := if pPicStatus.bIsLastSlice then s.frames.erase pPicStatus.toEncFrame else s.frames }
  | .endOfStream => some { s with ctx := s.ctx.endEncodingNull }
  | .destroy => do
      let ctx ← s.ctx.destroyChannels
      return { s with ctx, alive := false, streams := [], frames := [] }

/-- What the parties keep to: a call that waits for the semaphore goes on when there
is a permit, the scheduler reports frames that it has and fills the stream buffers in
the order they were given, and the encoder is not used once it is destroyed. -/
def Allowed (s : EncoderUse) : EncoderOp → Prop
  | .process pFrame pQpTable canBeUsed _ => s.alive = true ∧
      (s.ctx.refuses pFrame pQpTable canBeUsed = true ∨ pFrame = none ∨ 0 < s.ctx.PendingEncodings)
  | .endEncoding pPicStatus streamUserPtr => s.alive = true ∧
      pPicStatus.toEncFrame ∈ s.frames ∧ s.streams.head?.map Prod.fst = some streamUserPtr
  | _ => s.alive = true

/-- The encoder once its channel is created. -/
def start (bQpTableRequired : Bool) : EncoderUse := ⟨.init bQpTableRequired, true, [], [], [], [], []⟩

instance (s : EncoderUse) : ∀ op, Decidable (s.Allowed op)
  | .process _ _ _ _ => inferInstanceAs (Decidable (_ ∧ _))
  | .endEncoding _ _ => inferInstanceAs (Decidable (_ ∧ _ ∧ _))
  | .putStreamBuffer _ _ _ => inferInstanceAs (Decidable (_ = _))
  | .endOfStream => inferInstanceAs (Decidable (_ = _))
  | .destroy => inferInstanceAs (Decidable (_ = _))

end EncoderUse

end VcuCodec
