import VcuCodec.MailFactories

/-!
# Statuses from the MCU to the control library

A status mail is received by `al5_mcu_recv`, its body is copied into the structure of an
ioctl (`al5d/dec_mails_factory.c`, `al5e/enc_mails_factory.c`), and the library copies the
value for its callback out of that (`lib_decode/DecSchedulerMcu.c`,
`lib_encode/EncSchedulerMcu.c`).  Objects are their bytes.
-/

namespace VcuCodec

/-- `sizeof(AL_TDecPicStatus)` -/
def decPicStatusSize : ℕ := 24

/-- `sizeof(AL_TEncPicStatus)` -/
def encPicStatusSize : ℕ := 248

/-- `sizeof(struct al5_scstatus)` -/
def scStatusSize : ℕ := 8

/-- `struct al5_params` of the ioctl, with the bytes of its 128 words. -/
structure StatusParams where
  size : UInt32
  opaqueBytes : List UInt8

/-- `struct al5_params msg = { 0 }` -/
def StatusParams.zero : StatusParams := ⟨0, List.replicate 512 0⟩

/-- An object on the stack, before anything is copied to it. -/
def uninitialised (old : ℕ → UInt8) (size : ℕ) : List UInt8 := (List.range size).map old

/-- The word that begins a block; what is missing is 0. -/
def firstWord (bytes : List UInt8) : ℕ :=
  (bytes.getD 0 0).toNat + 2 ^ 8 * (bytes.getD 1 0).toNat + 2 ^ 16 * (bytes.getD 2 0).toNat +
    2 ^ 24 * (bytes.getD 3 0).toNat

/-! ## The drivers -/

/-- `al5_mcu_recv`: a mail that is larger than the opaque parameters is dropped. -/
def al5McuRecv (body : List UInt8) : Option (List UInt8) :=
  if al5GetMailAllocSize (128 * 4) < al5GetMailAllocSize body.length then none else some body

/-- `al5d_mail_get_status` and `al5e_mail_get_status`; the size is taken modulo 2^32. -/
def al5MailGetStatus (status : StatusParams) (body : List UInt8) : Option StatusParams :=
  let size := UInt32.ofNat body.length - 4
  (CheckedCopies.copy status.opaqueBytes 0 (body.drop 4) size.toNat).map fun bytes => ⟨size, bytes⟩

def al5dMailGetScStatus (scstatus body : List UInt8) : Option (List UInt8) :=
  CheckedCopies.copy scstatus 0 (body.drop 4) scStatusSize

/-! ## The library -/

inductive StatusOutcome
  /-- `al5_mcu_recv` gives no mail. -/
  | dropped
  | assertion
  | endParsing (frameId : List UInt8)
  | endDecoding (status : List UInt8)
  | endEncoding (status : Option (List UInt8)) (streamBufferPtr : List UInt8)
  | endStartCode (status : List UInt8)
  deriving DecidableEq

/-- `processStatusMsg` of the decoder; `iOffset` counts words and is taken from a size in
bytes. -/
def decProcessStatusMsg (old : ℕ → UInt8) (msg : StatusParams) : Option StatusOutcome :=
  let iOffset : UInt32 := 4 / 4
  let src := msg.opaqueBytes.drop (4 * iOffset.toNat)
  if firstWord msg.opaqueBytes = 1 then
    (CheckedCopies.copy (uninitialised old 4) 0 src (msg.size - iOffset).toNat).map .endParsing
  else if firstWord msg.opaqueBytes = 2 then
    (CheckedCopies.copy (uninitialised old decPicStatusSize) 0 src (msg.size - iOffset).toNat).map .endDecoding
  else some .assertion

/-- `processStatusMsg` of the encoder. -/
def encProcessStatusMsg (old : ℕ → UInt8) (msg : StatusParams) : Option StatusOutcome :=
  if msg.size.toNat < 8 then some .assertion
  else
    (CheckedCopies.copy (uninitialised old 8) 0 msg.opaqueBytes 8).bind fun streamBufferPtr =>
      if 8 < msg.size.toNat then
        if msg.size.toNat = 8 + encPicStatusSize then
          (CheckedCopies.copy (uninitialised old encPicStatusSize) 0 (msg.opaqueBytes.drop 8)
            encPicStatusSize).map fun status => .endEncoding (some status) streamBufferPtr
        else some .assertion
      else some (.endEncoding none streamBufferPtr)

/-! ## From the mail to the callback -/

inductive StatusKind
  | decoder
  | encoder
  | startCode
  deriving DecidableEq

/-- `last` is the structure the encoder's thread has received before; the decoder's begins
with zeros. -/
def handOver (old : ℕ → UInt8) (last : StatusParams) (kind : StatusKind) (body : List UInt8) : Option StatusOutcome :=
  match al5McuRecv body with
  | none => some .dropped
  | some body =>
    match kind with
    | .decoder => (al5MailGetStatus .zero body).bind (decProcessStatusMsg old)
    | .encoder => (al5MailGetStatus last body).bind (encProcessStatusMsg old)
    | .startCode => (al5dMailGetScStatus (uninitialised old scStatusSize) body).map .endStartCode

/-- What the firmware sends, and what is to arrive. -/
inductive FirmwareStatus : StatusKind → List UInt8 → StatusOutcome → Prop
  | frame (chan : UInt32) (frameId : List UInt8) : frameId.length = 4 →
      FirmwareStatus .decoder (wordBytes chan ++ (wordBytes 1 ++ frameId)) (.endParsing frameId)
  | picture (chan : UInt32) (status : List UInt8) : status.length = decPicStatusSize →
      FirmwareStatus .decoder (wordBytes chan ++ (wordBytes 2 ++ status)) (.endDecoding status)
  | stream (chan : UInt32) (streamBufferPtr : List UInt8) : streamBufferPtr.length = 8 →
      FirmwareStatus .encoder (wordBytes chan ++ streamBufferPtr) (.endEncoding none streamBufferPtr)
  | encoded (chan : UInt32) (streamBufferPtr status : List UInt8) : streamBufferPtr.length = 8 →
      status.length = encPicStatusSize →
      FirmwareStatus .encoder (wordBytes chan ++ (streamBufferPtr ++ status))
        (.endEncoding (some status) streamBufferPtr)

/-- A status is handed over without a copy past the end of anything, and what the firmware
sends arrives. -/
def HandedOver (kind : StatusKind) (body : List UInt8) : Prop :=
  ∀ (old : ℕ → UInt8) (last : StatusParams), last.opaqueBytes.length = 512 →
    ∃ outcome, handOver old last kind body = some outcome ∧
      ∀ value, FirmwareStatus kind body value → outcome = value

end VcuCodec
