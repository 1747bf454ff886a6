import VcuCodec.MachineInts
import VcuCodec.RingQueues

/-!
# The mailboxes of the drivers

`common/al_mailbox.c` of the kernel modules: a mail goes into the ring of a mailbox with its
header and its body, and each side moves its own index.  The ring and its indices are
accessed in words of 32 bits.
-/

namespace VcuCodec

/-! ## Mails -/

/-- `struct al5_mail` with its body. -/
structure Mail where
  msgUid : UInt16
  body : List UInt8
  deriving DecidableEq

/-- `al5_get_mail_alloc_size`: the structure takes 16 bytes. -/
def al5GetMailAllocSize (contentSize : ℕ) : ℕ := 16 + contentSize

def headerSize : ℕ := 4

def serializeHeader (msgUid : UInt16) (bodySize : ℕ) : List UInt8 :=
  [UInt8.ofNat (bodySize % 256), UInt8.ofNat (bodySize / 256), UInt8.ofNat (msgUid.toNat % 256),
    UInt8.ofNat (msgUid.toNat / 256)]

def unserializeMsgUid (header : List UInt8) : UInt16 :=
  UInt16.ofNat ((header.getD 2 0).toNat + (header.getD 3 0).toNat * 256)

def unserializeBodySize (header : List UInt8) : ℕ :=
  ((header.getD 0 0).toNat + (header.getD 1 0).toNat * 256) % 2 ^ 16

/-! ## Copies by words -/

def memcpyToio32 (mem : ℕ → UInt8) (pos : ℕ) (src : List UInt8) (size : ℕ) : ℕ → UInt8 :=
  RingQueues.blit mem pos (src.take ((toInt32 size).toNat / 4 * 4))

/-- `memcpy_fromio_32`: the bytes that are copied. -/
def memcpyFromio32 (mem : ℕ → UInt8) (pos size : ℕ) : List UInt8 :=
  RingQueues.slice mem pos ((toInt32 size).toNat / 4 * 4)

/-! ## The ring -/

/-- `struct mailbox` with what it points to. -/
structure Mailbox where
  size : ℕ
  data : ℕ → UInt8
  tail : ℕ
  head : ℕ
  localTail : ℕ

namespace Mailbox

/-- `al5_mailbox_init` -/
def init (size : ℕ) (data : ℕ → UInt8) : Mailbox := ⟨size, data, 0, 0, 0⟩

variable (box : Mailbox)

def notEnoughSpaceInMailbox (mailboxSize usedSize dataSize : ℕ) : Bool :=
  toSizeT (mailboxSize - usedSize) < toSizeT (dataSize + 4)

def mailboxIsWrapping (mailboxSize tailValue dataSize : ℕ) : Bool :=
  mailboxSize < toSizeT (tailValue + dataSize)

/-- How far an index goes behind a block. -/
def advance (value size : ℕ) : ℕ := toSizeT (value + size + 3) / 4 * 4 % box.size

/-- `al5_mailbox_write` goes on with a mail of `totalSize` bytes. -/
def hasSpace (totalSize : ℕ) : Bool :=
  let usedSize := if box.head ≤ box.tail then box.tail - box.head else toSizeT (box.size + box.tail - box.head)
  !notEnoughSpaceInMailbox box.size usedSize totalSize

def pullTail : Mailbox := { box with localTail := box.tail % 2 ^ 16 }

def pushTail : Mailbox := { box with tail := box.localTail }

/-- `write_data` with `write_in_mailbox_until_wrap`; `local_tail` has 16 bits. -/
def writeData (inData : List UInt8) : Mailbox :=
  let left := box.size - box.localTail
  if mailboxIsWrapping box.size box.localTail inData.length then
    { box with
      data := memcpyToio32 (memcpyToio32 box.data box.localTail inData left) 0 (inData.drop left)
        (inData.length - left)
      localTail := box.advance 0 (inData.length - left) % 2 ^ 16 }
  else
    { box with
      data := memcpyToio32 box.data box.localTail inData inData.length
      localTail := box.advance box.localTail inData.length % 2 ^ 16 }

/-- `read_data` with `read_in_mailbox_until_wrap`. -/
def readData (size : ℕ) : List UInt8 × Mailbox :=
  let left := box.size - box.head
  if mailboxIsWrapping box.size box.head size then
    (memcpyFromio32 box.data box.head left ++ memcpyFromio32 box.data 0 (size - left),
      { box with head := box.advance 0 (size - left) % 2 ^ 32 })
  else
    (memcpyFromio32 box.data box.head size, { box with head := box.advance box.head size % 2 ^ 32 })

end Mailbox

/-! ## The two sides -/

/-- Where `al5_mailbox_write` is. -/
inductive Writer
  | idle
  | checked (mail : Mail)
  | header (mail : Mail)
  | body (mail : Mail)
  deriving DecidableEq

/-- Where `al5_mailbox_read` is. -/
inductive Reader
  | idle
  | header (msgUid : UInt16) (bodySize : ℕ)
  deriving DecidableEq

/-- A mailbox with both sides, the mails whose write returned 0 and the mails read;
`mailSize` is what the reader has allocated. -/
structure MailboxUse where
  box : Mailbox
  mailSize : ℕ
  writer : Writer
  reader : Reader
  accepted : List Mail
  received : List Mail

inductive MailboxOp
  /-- A write begins; it returns `-EAGAIN` if there is not enough space. -/
  | check (mail : Mail)
  | writeHeader
  | writeBody
  /-- The write returns 0. -/
  | pushTail
  | readHeader
  | readBody

namespace MailboxUse

def step (s : MailboxUse) : MailboxOp → Option MailboxUse
  | .check mail =>
    match s.writer with
    | .idle =>
      if s.box.hasSpace (mail.body.length % 2 ^ 16 + headerSize) then some { s with writer := .checked mail }
      else some s
    | _ => none
  | .writeHeader =>
    match s.writer with
    | .checked mail => some { s with
        box := s.box.pullTail.writeData (serializeHeader mail.msgUid (mail.body.length % 2 ^ 16))
        writer := .header mail }
    | _ => none
  | .writeBody =>
    match s.writer with
    | .header mail => some { s with
        box := s.box.writeData (mail.body.take (mail.body.length % 2 ^ 16))
        writer := .body mail }
    | _ => none
  | .pushTail =>
    match s.writer with
    | .body mail => some { s with
        box := s.box.pushTail
        writer := .idle
        accepted := s.accepted ++ [mail] }
    | _ => none
  | .readHeader =>
    match s.reader with
    | .idle =>
      let (header, box) := s.box.readData headerSize
      let bodySize := unserializeBodySize header
      -- a mail that cannot be stored is dropped
      if s.mailSize < al5GetMailAllocSize bodySize then some { s with box }
      else some { s with box, reader := .header (unserializeMsgUid header) bodySize }
    | _ => none
  | .readBody =>
    match s.reader with
    | .header msgUid bodySize =>
      let (body, box) := s.box.readData bodySize
      some { s with box, reader := .idle, received := s.received ++ [⟨msgUid, body⟩] }
    | _ => none

/-- Mails are of whole words and fit into their size and the reader's memory, and only a
mailbox that is not empty is read. -/
def Allowed (s : MailboxUse) : MailboxOp → Prop
  | .check mail => mail.body.length % 4 = 0 ∧ mail.body.length < 2 ^ 16 ∧
      al5GetMailAllocSize mail.body.length ≤ s.mailSize
  | .readHeader => s.box.head ≠ s.box.tail
  | _ => True

/-- A mailbox behind `al5_mailbox_init`. -/
def start (size mailSize : ℕ) (data : ℕ → UInt8) : MailboxUse :=
  ⟨.init size data, mailSize, .idle, .idle, [], []⟩

instance (s : MailboxUse) : ∀ op, Decidable (s.Allowed op)
  | .check _ => inferInstanceAs (Decidable (_ ∧ _ ∧ _))
  | .readHeader => inferInstanceAs (Decidable (_ ≠ _))
  | .writeHeader | .writeBody | .pushTail | .readBody => isTrue trivial

end MailboxUse

end VcuCodec
