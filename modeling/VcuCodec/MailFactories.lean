import VcuCodec.CheckedCopies
import VcuCodec.Mailbox

/-!
# The mails for the MCU

`common/al_mail.c`, `common/al_codec_mails.c`, `al5e/enc_mails_factory.c`,
`al5d/dec_mails_factory.c` and what `al5e/enc_user.c` builds itself.  The sizes of the opaque
parameters come from user space.
-/

namespace VcuCodec

/-! ## Mails under construction -/

/-- `enum al5_mail_uid`, as far as mails of these kinds are built or received. -/
inductive AlMcuMsg
  | init
  | createChannel
  | destroyChannel
  | encodeOneFrm
  | decodeOneFrm
  | searchStartCode
  | quietDestroyChannel
  | pushBufferIntermediate
  | pushBufferReference
  | getReconstructedPicture
  | releaseReconstructedPicture
  | putStreamBuffer
  | trace
  | decodeOneSlice
  deriving DecidableEq

def AlMcuMsg.uid : AlMcuMsg → UInt32
  | .init => 0
  | .createChannel => 5
  | .destroyChannel => 6
  | .encodeOneFrm => 7
  | .decodeOneFrm => 8
  | .searchStartCode => 9
  | .quietDestroyChannel => 10
  | .pushBufferIntermediate => 14
  | .pushBufferReference => 15
  | .getReconstructedPicture => 16
  | .releaseReconstructedPicture => 17
  | .putStreamBuffer => 18
  | .trace => 19
  | .decodeOneSlice => 23

/-- `struct al5_mail`; `body` is all that is allocated behind the structure. -/
structure Al5Mail where
  bodyOffset : UInt32
  msgUid : UInt16
  bodySize : UInt16
  body : List UInt8

/-- The bytes of a word in memory. -/
def wordBytes (word : UInt32) : List UInt8 :=
  [word.toUInt8, (word >>> 8).toUInt8, (word >>> 16).toUInt8, (word >>> 24).toUInt8]

/-- An allocator gives the contents of what it allocates, or `NULL`. -/
abbrev Kmalloc := ℕ → Option (ℕ → UInt8)

variable (kmalloc : Kmalloc)

/-- `al5_mail_create` with `al5_mail_init`. -/
def al5MailCreate (msgUid contentSize : UInt32) : Option Al5Mail :=
  (kmalloc (al5GetMailAllocSize contentSize.toNat)).map fun mem =>
    ⟨0, msgUid.toUInt16, contentSize.toUInt16, (List.range contentSize.toNat).map fun i => mem (16 + i)⟩

/-- `al5_mail_write`; a copy past the end of the content or of the mail is a fault. -/
def al5MailWrite (mail : Al5Mail) (content : List UInt8) (size : UInt32) : Option Al5Mail :=
  (CheckedCopies.copy mail.body mail.bodyOffset.toNat content size.toNat).map fun body =>
    { mail with
      body
      bodyOffset := mail.bodyOffset + size }

def al5MailWriteWord (mail : Al5Mail) (word : UInt32) : Option Al5Mail := al5MailWrite mail (wordBytes word) 4

/-! ## What comes from user space -/

/-- `struct al5_params` -/
structure Al5Params where
  size : UInt32
  opaqueParams : Vector UInt32 128

def Al5Params.bytes (params : Al5Params) : List UInt8 := params.opaqueParams.toList.flatMap wordBytes

/-- `struct al5_encode_msg` -/
structure Al5EncodeMsg where
  params : Al5Params
  addresses : Al5Params

/-- `struct al5_decode_msg` -/
structure Al5DecodeMsg where
  params : Al5Params
  addresses : Al5Params
  sliceParamV : UInt32

/-- `struct al5_search_sc_msg` -/
structure Al5SearchScMsg where
  param : Al5Params
  bufferAddrs : Al5Params

/-- `struct al5_stream_buffer` without its handle. -/
structure Al5StreamBuffer where
  streamBufferPtr : UInt64
  offset : UInt32
  size : UInt32

/-- A buffer of a `struct al5_buffers_pool`. -/
structure Al5DmaBuffer where
  dmaHandle : UInt32
  size : UInt32

/-! ## The factories

The result is `none` after a fault and `some none` if there is no mail. -/

/-- What is written to a mail that is not there is a fault. -/
def derefMail (mail : Option Al5Mail) (write : Al5Mail → Option Al5Mail) : Option (Option Al5Mail) :=
  (mail.bind write).map some

def al5CreateClassicMail (senderUid msgUid : UInt32) (msg : List UInt8) (msgSize : UInt32) :
    Option (Option Al5Mail) :=
  match al5MailCreate kmalloc msgUid (4 + msgSize) with
  | none => some none
  | some mail => do
    let mail ← al5MailWriteWord mail senderUid
    let mail ← al5MailWrite mail msg msgSize
    pure (some mail)

/-- `create_init_msg`; the structure has 7 words. -/
def createInitMsg (chanUid : UInt32) (msg : Vector UInt32 7) : Option (Option Al5Mail) :=
  match al5MailCreate kmalloc AlMcuMsg.init.uid (4 + 28) with
  | none => some none
  | some mail => do
    let mail ← al5MailWriteWord mail chanUid
    let mail ← al5MailWrite mail (msg.toList.flatMap wordBytes) 28
    pure (some mail)

def al5CreateEmptyMail (senderUid msgUid : UInt32) : Option (Option Al5Mail) :=
  derefMail (al5MailCreate kmalloc msgUid 4) fun mail => al5MailWriteWord mail senderUid

/-- The loop of `create_mail_from_bufpool`. -/
def writeBuffers (mail : Al5Mail) : List Al5DmaBuffer → Option Al5Mail
  | [] => some mail
  | buffer :: buffers => do
    let mail ← al5MailWriteWord mail buffer.dmaHandle
    let mail ← al5MailWriteWord mail (buffer.dmaHandle + 0x80000000)
    let mail ← al5MailWriteWord mail buffer.size
    writeBuffers mail buffers

def createMailFromBufpool (msgUid chanUid : UInt32) (bufpool : List Al5DmaBuffer) : Option (Option Al5Mail) :=
  derefMail (al5MailCreate kmalloc msgUid (4 + UInt32.ofNat bufpool.length * 12)) fun mail => do
    let mail ← al5MailWriteWord mail chanUid
    writeBuffers mail bufpool

def al5eCreateEncodeOneFrameMsg (chanUid : UInt32) (msg : Al5EncodeMsg) : Option (Option Al5Mail) :=
  let mailSize := 8 + msg.params.size + msg.addresses.size
  derefMail (al5MailCreate kmalloc AlMcuMsg.encodeOneFrm.uid mailSize) fun mail => do
    let mail ← al5MailWriteWord mail chanUid
    let mail ← al5MailWriteWord mail 0
    let mail ← al5MailWrite mail msg.params.bytes msg.params.size
    al5MailWrite mail msg.addresses.bytes msg.addresses.size

def al5eCreateChannelParamMsg (userUid : UInt32) (msg : Al5Params) : Option (Option Al5Mail) :=
  al5CreateClassicMail kmalloc userUid AlMcuMsg.createChannel.uid msg.bytes msg.size

/-- The mail of `al5e_user_put_stream_buffer`. -/
def putStreamBufferMail (chanUid busAddress externalMvMcuVaddr : UInt32) (buffer : Al5StreamBuffer) :
    Option (Option Al5Mail) :=
  derefMail (al5MailCreate kmalloc AlMcuMsg.putStreamBuffer.uid 32) fun mail => do
    let mail ← al5MailWriteWord mail chanUid
    let mail ← al5MailWriteWord mail busAddress
    let mail ← al5MailWriteWord mail (busAddress + 0x80000000)
    let mail ← al5MailWriteWord mail buffer.size
    let mail ← al5MailWriteWord mail buffer.offset
    let mail ← al5MailWrite mail
      (wordBytes buffer.streamBufferPtr.toUInt32 ++ wordBytes (buffer.streamBufferPtr >>> 32).toUInt32) 8
    al5MailWriteWord mail externalMvMcuVaddr

/-- The mail of `al5e_user_release_rec`. -/
def releaseRecMail (chanUid id : UInt32) : Option (Option Al5Mail) :=
  al5CreateClassicMail kmalloc chanUid AlMcuMsg.releaseReconstructedPicture.uid (wordBytes id) 4

def writeDecodeMail (mail : Al5Mail) (chanUid : UInt32) (msg : Al5DecodeMsg) : Option Al5Mail := do
  let mail ← al5MailWriteWord mail chanUid
  let mail ← al5MailWrite mail msg.params.bytes msg.params.size
  let mail ← al5MailWrite mail msg.addresses.bytes msg.addresses.size
  al5MailWriteWord mail msg.sliceParamV

/-- `al5d_create_decode_one_slice_msg` and `al5d_create_decode_one_frame_msg` differ in the
message. -/
def al5dCreateDecodeMsg (msgUid : AlMcuMsg) (chanUid : UInt32) (msg : Al5DecodeMsg) : Option (Option Al5Mail) :=
  let mailSize := 4 + msg.params.size + msg.addresses.size + 4
  derefMail (al5MailCreate kmalloc msgUid.uid mailSize) fun mail => writeDecodeMail mail chanUid msg

def al5dCreateDecodeOneSliceMsg (chanUid : UInt32) (msg : Al5DecodeMsg) : Option (Option Al5Mail) :=
  al5dCreateDecodeMsg kmalloc .decodeOneSlice chanUid msg

def al5dCreateDecodeOneFrameMsg (chanUid : UInt32) (msg : Al5DecodeMsg) : Option (Option Al5Mail) :=
  al5dCreateDecodeMsg kmalloc .decodeOneFrm chanUid msg

def al5dCreateChannelParamMsg (userUid : UInt32) (msg : Al5Params) : Option (Option Al5Mail) :=
  derefMail (al5MailCreate kmalloc AlMcuMsg.createChannel.uid (4 + msg.size)) fun mail => do
    let mail ← al5MailWriteWord mail userUid
    al5MailWrite mail msg.bytes msg.size

def al5dCreateSearchScMail (userUid : UInt32) (msg : Al5SearchScMsg) : Option (Option Al5Mail) :=
  let mailSize := 4 + msg.param.size + msg.bufferAddrs.size
  derefMail (al5MailCreate kmalloc AlMcuMsg.searchStartCode.uid mailSize) fun mail => do
    let mail ← al5MailWriteWord mail userUid
    let mail ← al5MailWrite mail msg.param.bytes msg.param.size
    al5MailWrite mail msg.bufferAddrs.bytes msg.bufferAddrs.size

/-! ## All mails -/

/-- What a driver builds a mail for. -/
inductive MailRequest
  | init (chanUid : UInt32) (msg : Vector UInt32 7)
  /-- Destruction of a channel, quiet or not, and the request for a reconstructed picture. -/
  | empty (senderUid : UInt32) (msgUid : AlMcuMsg)
  | bufpool (chanUid : UInt32) (msgUid : AlMcuMsg) (buffers : List Al5DmaBuffer)
  | encodeOneFrame (chanUid : UInt32) (msg : Al5EncodeMsg)
  | encoderChannel (userUid : UInt32) (param : Al5Params)
  | putStreamBuffer (chanUid busAddress externalMvMcuVaddr : UInt32) (buffer : Al5StreamBuffer)
  | releaseRec (chanUid id : UInt32)
  | decodeOneSlice (chanUid : UInt32) (msg : Al5DecodeMsg)
  | decodeOneFrame (chanUid : UInt32) (msg : Al5DecodeMsg)
  | decoderChannel (userUid : UInt32) (param : Al5Params)
  | searchStartCode (userUid : UInt32) (msg : Al5SearchScMsg)

namespace MailRequest

def build : MailRequest → Option (Option Al5Mail)
  | .init chanUid msg => createInitMsg kmalloc chanUid msg
  | .empty senderUid msgUid => al5CreateEmptyMail kmalloc senderUid msgUid.uid
  | .bufpool chanUid msgUid buffers => createMailFromBufpool kmalloc msgUid.uid chanUid buffers
  | .encodeOneFrame chanUid msg => al5eCreateEncodeOneFrameMsg kmalloc chanUid msg
  | .encoderChannel userUid param => al5eCreateChannelParamMsg kmalloc userUid param
  | .putStreamBuffer chanUid busAddress externalMvMcuVaddr buffer =>
    putStreamBufferMail kmalloc chanUid busAddress externalMvMcuVaddr buffer
  | .releaseRec chanUid id => releaseRecMail kmalloc chanUid id
  | .decodeOneSlice chanUid msg => al5dCreateDecodeOneSliceMsg kmalloc chanUid msg
  | .decodeOneFrame chanUid msg => al5dCreateDecodeOneFrameMsg kmalloc chanUid msg
  | .decoderChannel userUid param => al5dCreateChannelParamMsg kmalloc userUid param
  | .searchStartCode userUid msg => al5dCreateSearchScMail kmalloc userUid msg

end MailRequest

end VcuCodec
