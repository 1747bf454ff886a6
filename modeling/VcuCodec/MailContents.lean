import Mathlib.Data.List.GetD
import VcuCodec.MailFactories
import VcuCodec.MailboxFifo

/-!
# What the mails for the MCU contain

A mail is built and transferred as its request says exactly if the sizes from user space
stay within the parameters and are whole words together.
-/

namespace VcuCodec

/-! ## Parts -/

@[simp] theorem length_wordBytes (word : UInt32) : (wordBytes word).length = 4 := rfl

@[simp] theorem take_wordBytes (word : UInt32) : (wordBytes word).take 4 = wordBytes word := rfl

theorem length_flatMap_wordBytes (words : List UInt32) : (words.flatMap wordBytes).length = 4 * words.length := by
  induction words with
  | nil => rfl
  | cons word words ih =>
    rw [List.flatMap_cons, List.length_append, ih, length_wordBytes, List.length_cons]
    omega

@[simp] theorem Al5Params.length_bytes (params : Al5Params) : params.bytes.length = 512 := by
  unfold Al5Params.bytes
  rw [length_flatMap_wordBytes, Vector.length_toList]

/-- What is written to a mail, each part with its size. -/
abbrev MailParts := List (List UInt8 × UInt32)

/-- The parts with their sizes as numbers. -/
def MailParts.sized (parts : MailParts) : List (List UInt8 × ℕ) := parts.map fun part => (part.1, part.2.toNat)

def writeParts (mail : Al5Mail) : MailParts → Option Al5Mail
  | [] => some mail
  | (content, size) :: parts => (al5MailWrite mail content size).bind fun mail => writeParts mail parts

variable {mail out : Al5Mail}

theorem al5MailWrite_eq_some_iff {content : List UInt8} {size : UInt32} :
    al5MailWrite mail content size = some out ↔
      ∃ body, CheckedCopies.copy mail.body mail.bodyOffset.toNat content size.toNat = some body ∧
        { mail with
          body
          bodyOffset := mail.bodyOffset + size } = out := Option.map_eq_some_iff

theorem offset_of_copy {mail : Al5Mail} {content body : List UInt8} {size : UInt32} (hlt : mail.body.length < 2 ^ 32)
    (h : CheckedCopies.copy mail.body mail.bodyOffset.toNat content size.toNat = some body) :
    (mail.bodyOffset + size).toNat = mail.bodyOffset.toNat + size.toNat := by
  obtain ⟨⟨-, hle⟩, -⟩ := CheckedCopies.copy_eq_some_iff.mp h
  rw [UInt32.toNat_add]
  exact Nat.mod_eq_of_lt (by omega)

variable {parts : MailParts}

theorem writeParts_eq_some_iff (hlt : mail.body.length < 2 ^ 32) :
    writeParts mail parts = some out ↔
      ∃ body, CheckedCopies.fill mail.body mail.bodyOffset.toNat parts.sized = some body ∧
        { mail with
          body
          bodyOffset := (parts.map Prod.snd).foldl (· + ·) mail.bodyOffset } = out := by
  induction parts generalizing mail with
  | nil =>
    show some mail = some out ↔ ∃ body, some mail.body = some body ∧ { mail with body } = out
    rw [Option.some.injEq]
    constructor
    · rintro rfl
      exact ⟨mail.body, rfl, rfl⟩
    · rintro ⟨body, hbody, rfl⟩
      obtain rfl := Option.some.inj hbody
      rfl
  | cons part parts ih =>
    obtain ⟨content, size⟩ := part
    constructor
    · intro h
      obtain ⟨next, hwrite, hrest⟩ := Option.bind_eq_some_iff.mp h
      obtain ⟨body, hcopy, rfl⟩ := al5MailWrite_eq_some_iff.mp hwrite
      have hlen := CheckedCopies.length_copy hcopy
      obtain ⟨last, hfill, rfl⟩ := (ih (hlen ▸ hlt)).mp hrest
      dsimp only at hfill
      rw [offset_of_copy hlt hcopy] at hfill
      exact ⟨last, Option.bind_eq_some_iff.mpr ⟨body, hcopy, hfill⟩, rfl⟩
    · rintro ⟨last, hfill, rfl⟩
      obtain ⟨body, hcopy, hrest⟩ := Option.bind_eq_some_iff.mp hfill
      have hlen := CheckedCopies.length_copy hcopy
      rw [← offset_of_copy hlt hcopy] at hrest
      apply Option.bind_eq_some_iff.mpr
      refine ⟨_, al5MailWrite_eq_some_iff.mpr ⟨body, hcopy, rfl⟩, ?_⟩
      exact (ih (hlen ▸ hlt)).mpr ⟨last, hrest, rfl⟩

/-- How a mail is built. -/
structure MailShape where
  checked : Bool
  msgUid : UInt32
  contentSize : UInt32
  parts : MailParts

namespace MailShape

variable (kmalloc : Kmalloc) (shape : MailShape)

def build : Option (Option Al5Mail) :=
  match al5MailCreate kmalloc shape.msgUid shape.contentSize with
  | none => if shape.checked then some none else none
  | some mail => (writeParts mail shape.parts).map some

end MailShape

namespace MailRequest

def word (w : UInt32) : List UInt8 × UInt32 := (wordBytes w, 4)

def params (p : Al5Params) : List UInt8 × UInt32 := (p.bytes, p.size)

def shape : MailRequest → MailShape
  | .init chanUid msg => ⟨true, AlMcuMsg.init.uid, 4 + 28, [word chanUid, (msg.toList.flatMap wordBytes, 28)]⟩
  | .empty senderUid msgUid => ⟨false, msgUid.uid, 4, [word senderUid]⟩
  | .bufpool chanUid msgUid buffers => ⟨false, msgUid.uid, 4 + UInt32.ofNat buffers.length * 12,
      word chanUid :: buffers.flatMap fun buffer =>
        [word buffer.dmaHandle, word (buffer.dmaHandle + 0x80000000), word buffer.size]⟩
  | .encodeOneFrame chanUid msg => ⟨false, AlMcuMsg.encodeOneFrm.uid, 8 + msg.params.size + msg.addresses.size,
      [word chanUid, word 0, params msg.params, params msg.addresses]⟩
  | .encoderChannel userUid param => ⟨true, AlMcuMsg.createChannel.uid, 4 + param.size, [word userUid, params param]⟩
  | .putStreamBuffer chanUid busAddress externalMvMcuVaddr buffer => ⟨false, AlMcuMsg.putStreamBuffer.uid, 32,
      [word chanUid, word busAddress, word (busAddress + 0x80000000), word buffer.size, word buffer.offset,
        (wordBytes buffer.streamBufferPtr.toUInt32 ++ wordBytes (buffer.streamBufferPtr >>> 32).toUInt32, 8),
        word externalMvMcuVaddr]⟩
  | .releaseRec chanUid id => ⟨true, AlMcuMsg.releaseReconstructedPicture.uid, 4 + 4, [word chanUid, word id]⟩
  | .decodeOneSlice chanUid msg => ⟨false, AlMcuMsg.decodeOneSlice.uid,
      4 + msg.params.size + msg.addresses.size + 4,
      [word chanUid, params msg.params, params msg.addresses, word msg.sliceParamV]⟩
  | .decodeOneFrame chanUid msg => ⟨false, AlMcuMsg.decodeOneFrm.uid,
      4 + msg.params.size + msg.addresses.size + 4,
      [word chanUid, params msg.params, params msg.addresses, word msg.sliceParamV]⟩
  | .decoderChannel userUid param => ⟨false, AlMcuMsg.createChannel.uid, 4 + param.size, [word userUid, params param]⟩
  | .searchStartCode userUid msg => ⟨false, AlMcuMsg.searchStartCode.uid, 4 + msg.param.size + msg.bufferAddrs.size,
      [word userUid, params msg.param, params msg.bufferAddrs]⟩

variable {kmalloc : Kmalloc} {request : MailRequest}

theorem writeParts_singleton {mail : Al5Mail} {content : List UInt8} {size : UInt32} :
    writeParts mail [(content, size)] = al5MailWrite mail content size := Option.bind_fun_some _

theorem writeBuffers_eq {mail : Al5Mail} {buffers : List Al5DmaBuffer} :
    writeBuffers mail buffers = writeParts mail (buffers.flatMap fun buffer =>
      [word buffer.dmaHandle, word (buffer.dmaHandle + 0x80000000), word buffer.size]) := by
  induction buffers generalizing mail with
  | nil => rfl
  | cons buffer buffers ih =>
    unfold writeBuffers
    simp only [ih]
    rfl

theorem derefMail_eq {mail : Option Al5Mail} {write : Al5Mail → Option Al5Mail} {parts : MailParts}
    (h : ∀ mail, write mail = writeParts mail parts) :
    derefMail mail write = match mail with
      | none => none
      | some mail => (writeParts mail parts).map some := by
  cases mail with
  | none => rfl
  | some mail => exact congrArg _ (h mail)

theorem al5CreateClassicMail_eq {senderUid msgUid msgSize : UInt32} {msg : List UInt8} :
    al5CreateClassicMail kmalloc senderUid msgUid msg msgSize =
      MailShape.build kmalloc ⟨true, msgUid, 4 + msgSize, [word senderUid, (msg, msgSize)]⟩ := by
  unfold al5CreateClassicMail MailShape.build
  dsimp only
  cases al5MailCreate kmalloc msgUid (4 + msgSize) with
  | none => rfl
  | some mail =>
    show ((al5MailWriteWord mail senderUid).bind fun mail => (al5MailWrite mail msg msgSize).bind fun mail =>
      some (some mail)) = (((al5MailWriteWord mail senderUid).bind fun mail => writeParts mail [(msg, msgSize)]).map some)
    simp only [writeParts_singleton, Option.map_bind]
    congr 1
    funext mail
    exact (Option.map_eq_bind ..).symm

theorem build_eq : request.build kmalloc = request.shape.build kmalloc := by
  cases request with
  | init chanUid msg => exact al5CreateClassicMail_eq
  | empty senderUid msgUid => exact derefMail_eq fun mail => writeParts_singleton.symm
  | bufpool chanUid msgUid buffers =>
    apply derefMail_eq
    intro mail
    dsimp only [shape, word]
    simp only [writeParts, writeBuffers_eq]
    rfl
  | encodeOneFrame chanUid msg =>
    apply derefMail_eq
    intro mail
    dsimp only [shape, word, params]
    simp only [writeParts, Option.bind_fun_some]
    rfl
  | encoderChannel userUid param => exact al5CreateClassicMail_eq
  | putStreamBuffer chanUid busAddress externalMvMcuVaddr buffer =>
    apply derefMail_eq
    intro mail
    dsimp only [shape, word, params]
    simp only [writeParts, Option.bind_fun_some]
    rfl
  | releaseRec chanUid id => exact al5CreateClassicMail_eq
  | decodeOneSlice chanUid msg | decodeOneFrame chanUid msg =>
    apply derefMail_eq
    intro mail
    dsimp only [shape, word, params]
    simp only [writeParts, Option.bind_fun_some]
    rfl
  | decoderChannel userUid param =>
    apply derefMail_eq
    intro mail
    dsimp only [shape, word, params]
    simp only [writeParts, Option.bind_fun_some]
    rfl
  | searchStartCode userUid msg =>
    apply derefMail_eq
    intro mail
    dsimp only [shape, word, params]
    simp only [writeParts, Option.bind_fun_some]
    rfl

end MailRequest

/-! ## Transfer -/

/-- `al5_mailbox_write` puts all of the content into the ring, whatever the mailbox. -/
def Al5Mail.Transferred (mail : Al5Mail) (content : List UInt8) : Prop :=
  ∀ box : Mailbox, box.Sized → box.localTail < box.size → 4 ∣ box.localTail → content.length ≤ box.size →
    RingQueues.contents (box.writeData (mail.body.take mail.bodySize.toNat)).data box.size box.localTail
      content.length = content

theorem contents_writeData {box : Mailbox} {content : List UInt8} (hb : box.Sized) (hlt : box.localTail < box.size)
    (h4 : 4 ∣ box.localTail) (hlen : content.length ≤ box.size) (hdvd : 4 ∣ content.length) :
    RingQueues.contents (box.writeData content).data box.size box.localTail content.length = content := by
  have hpos : box.localTail = (box.localTail + 0) % box.size := (Nat.mod_eq_of_lt hlt).symm
  have hspec := Mailbox.writeData_spec hb hdvd (by omega) h4 hpos
  rw [Nat.zero_add] at hspec
  exact hspec.1

/-- Of a word that is not complete nothing is written. -/
theorem exists_not_written {content : List UInt8} (hlt : content.length < 2 ^ 16) (h : ¬ 4 ∣ content.length) :
    ∃ box : Mailbox, box.Sized ∧ box.localTail = 0 ∧ content.length ≤ box.size ∧
      RingQueues.contents (box.writeData content).data box.size box.localTail content.length ≠ content := by
  -- a ring whose old bytes differ from the content
  let old : ℕ → UInt8 := fun i => content.getD i 0 + 1
  let box : Mailbox := ⟨2 ^ 16, old, 0, 0, 0⟩
  refine ⟨box, ⟨Nat.two_pow_pos 16, ⟨2 ^ 14, rfl⟩, le_rfl⟩, rfl, hlt.le, fun heq => ?_⟩
  have hk : content.length / 4 * 4 < content.length := by omega
  have hdata : (box.writeData content).data = memcpyToio32 old 0 content content.length := by
    unfold Mailbox.writeData
    rw [Mailbox.mailboxIsWrapping_eq (by show 0 + content.length < 2 ^ 64; omega),
      decide_eq_false (show ¬ 2 ^ 16 < 0 + content.length by omega), if_neg Bool.false_ne_true]
  have hlast : (box.writeData content).data (content.length / 4 * 4) = old (content.length / 4 * 4) := by
    rw [hdata]
    apply RingQueues.blit_outside
    rw [toInt32_of_fits ⟨by omega, by omega⟩, List.length_take]
    omega
  have hget := congrArg (fun xs => xs.getD (content.length / 4 * 4) 0) heq
  have hlen : content.length / 4 * 4 < (RingQueues.contents (box.writeData content).data box.size box.localTail
      content.length).length := by
    rw [RingQueues.length_contents]
    exact hk
  rw [List.getD_eq_getElem _ _ hlen, RingQueues.getElem_contents,
    Nat.mod_eq_of_lt (show 0 + content.length / 4 * 4 < 2 ^ 16 by omega), Nat.zero_add, hlast] at hget
  have hadd := congrArg UInt8.toNat hget
  rw [UInt8.toNat_add, UInt8.toNat_one] at hadd
  have hbyte := (content.getD (content.length / 4 * 4) 0).toNat_lt
  omega

theorem transferred_iff {mail : Al5Mail} {content : List UInt8} (hbody : mail.body = content)
    (hsize : mail.bodySize.toNat = content.length) : mail.Transferred content ↔ 4 ∣ content.length := by
  have htake : mail.body.take mail.bodySize.toNat = content := by rw [hbody, hsize, List.take_length]
  unfold Al5Mail.Transferred
  rw [htake]
  constructor
  · intro h
    by_contra hdvd
    obtain ⟨box, hb, htail, hlen, hne⟩ := exists_not_written (hsize ▸ mail.bodySize.toNat_lt) hdvd
    exact hne (h box hb (htail ▸ hb.pos) (htail ▸ dvd_zero 4) hlen)
  · intro hdvd box hb hlt h4 hlen
    exact contents_writeData hb hlt h4 hlen hdvd

/-! ## Sound mails -/

/-- A mail is refused, or it is as its request says and arrives. -/
def Sound (built : Option (Option Al5Mail)) (content : List UInt8) : Prop :=
  ∃ result, built = some result ∧ ∀ mail, result = some mail →
    mail.body = content ∧ mail.bodySize.toNat = content.length ∧ mail.Transferred content

/-- Every part has its bytes, and all parts are whole words and fit into 16 bits. -/
def MailParts.Fit (parts : MailParts) : Prop :=
  (∀ part ∈ parts.sized, part.2 ≤ part.1.length) ∧ CheckedCopies.total parts.sized < 2 ^ 16 ∧
    4 ∣ CheckedCopies.total parts.sized

theorem MailParts.length_copied (h : ∀ part ∈ parts.sized, part.2 ≤ part.1.length) :
    (CheckedCopies.copied parts.sized).length = CheckedCopies.total parts.sized := by
  unfold CheckedCopies.copied CheckedCopies.total
  rw [List.length_flatMap]
  congr 1
  apply List.map_congr_left
  intro part hpart
  rw [List.length_take]
  exact Nat.min_eq_left (h part hpart)

theorem MailParts.sized_ne_nil (h : parts ≠ []) : parts.sized ≠ [] := mt List.map_eq_nil_iff.mp h

theorem writeParts_new (hlt : mail.body.length < 2 ^ 32)
    (hoffset : mail.bodyOffset = 0) (hne : parts ≠ []) : writeParts mail parts = some out ↔
      ((∀ part ∈ parts.sized, part.2 ≤ part.1.length) ∧ CheckedCopies.total parts.sized ≤ mail.body.length) ∧
        { mail with
          body := CheckedCopies.copied parts.sized ++ mail.body.drop (CheckedCopies.total parts.sized)
          bodyOffset := (parts.map Prod.snd).foldl (· + ·) mail.bodyOffset } = out := by
  have hsized := MailParts.sized_ne_nil hne
  rw [writeParts_eq_some_iff hlt, hoffset]
  constructor
  · rintro ⟨body, hfill, rfl⟩
    obtain ⟨⟨hparts, hroom⟩, rfl⟩ := CheckedCopies.fill_eq_some_iff.mp hfill
    have hle := hroom hsized
    rw [UInt32.toNat_zero, Nat.zero_add] at hle ⊢
    exact ⟨⟨hparts, hle⟩, rfl⟩
  · rintro ⟨⟨hparts, hle⟩, rfl⟩
    refine ⟨_, CheckedCopies.fill_eq_some_iff.mpr ⟨⟨hparts, fun _ => ?_⟩, rfl⟩, ?_⟩
    · rwa [UInt32.toNat_zero, Nat.zero_add]
    · rw [UInt32.toNat_zero, Nat.zero_add]
      rfl

theorem MailShape.sound_build_iff {kmalloc : Kmalloc} {shape : MailShape}
    (hsize : shape.contentSize.toNat = CheckedCopies.total shape.parts.sized % 2 ^ 32) (hne : shape.parts ≠ []) :
    Sound (shape.build kmalloc) (CheckedCopies.copied shape.parts.sized) ↔
      (shape.checked = true ∧ kmalloc (al5GetMailAllocSize shape.contentSize.toNat) = none) ∨
        (kmalloc (al5GetMailAllocSize shape.contentSize.toNat) ≠ none ∧ shape.parts.Fit) := by
  unfold build al5MailCreate
  cases hk : kmalloc (al5GetMailAllocSize shape.contentSize.toNat) with
  | none =>
    dsimp only [Option.map_none]
    constructor
    · rintro ⟨result, hbuilt, -⟩
      rw [Option.ite_none_right_eq_some] at hbuilt
      exact Or.inl ⟨hbuilt.1, rfl⟩
    · rintro (⟨hchecked, -⟩ | ⟨hsome, -⟩)
      · exact ⟨none, if_pos hchecked, nofun⟩
      · exact absurd rfl hsome
  | some mem =>
    let mail₀ : Al5Mail := ⟨0, shape.msgUid.toUInt16, shape.contentSize.toUInt16,
      (List.range shape.contentSize.toNat).map fun i => mem (16 + i)⟩
    have hlen : mail₀.body.length = shape.contentSize.toNat := by
      rw [List.length_map, List.length_range]
    have hlt : mail₀.body.length < 2 ^ 32 := hlen ▸ shape.contentSize.toNat_lt
    have hsize16 : mail₀.bodySize.toNat = shape.contentSize.toNat % 2 ^ 16 := UInt32.toNat_toUInt16 _
    constructor
    · rintro ⟨result, hbuilt, hmail⟩
      obtain ⟨mail, hwrite, rfl⟩ := Option.map_eq_some_iff.mp hbuilt
      obtain ⟨hbody, hbodySize, htransferred⟩ := hmail mail rfl
      have hdvd := (transferred_iff hbody hbodySize).mp htransferred
      obtain ⟨⟨hparts, hle⟩, rfl⟩ := (writeParts_new hlt rfl hne).mp hwrite
      have hcopied := MailParts.length_copied hparts
      have hbodySize : mail₀.bodySize.toNat = _ := hbodySize
      rw [hcopied] at hbodySize hdvd
      exact Or.inr ⟨Option.some_ne_none mem, hparts, by omega, hdvd⟩
    · rintro (⟨-, hnone⟩ | ⟨-, hparts, hlt16, hdvd⟩)
      · exact absurd hnone (Option.some_ne_none mem)
      · have hcopied := MailParts.length_copied hparts
        have hwrite := (writeParts_new hlt rfl hne).mpr ⟨⟨hparts, by omega⟩, rfl⟩
        refine ⟨_, Option.map_eq_some_iff.mpr ⟨_, hwrite, rfl⟩, fun mail hmail => ?_⟩
        obtain rfl := Option.some.inj hmail
        have hbody : CheckedCopies.copied shape.parts.sized ++
            mail₀.body.drop (CheckedCopies.total shape.parts.sized) = CheckedCopies.copied shape.parts.sized := by
          rw [List.drop_eq_nil_of_le (by omega), List.append_nil]
        have hbodySize : mail₀.bodySize.toNat = (CheckedCopies.copied shape.parts.sized).length := by omega
        refine ⟨hbody, hbodySize, (transferred_iff ?_ ?_).mpr (hcopied ▸ hdvd)⟩
        · exact hbody
        · exact hbodySize

namespace Al5Params

/-- The bytes that the size tells. -/
def given (params : Al5Params) : List UInt8 := params.bytes.take params.size.toNat

/-- The size stays within the 128 words. -/
def Fits (params : Al5Params) : Prop := params.size.toNat ≤ 512

end Al5Params

namespace MailRequest

variable {kmalloc : Kmalloc} {request : MailRequest}

/-- What the mail is to contain. -/
def content : MailRequest → List UInt8
  | .init chanUid msg => wordBytes chanUid ++ msg.toList.flatMap wordBytes
  | .empty senderUid _ => wordBytes senderUid
  | .bufpool chanUid _ buffers => wordBytes chanUid ++ buffers.flatMap fun buffer =>
      wordBytes buffer.dmaHandle ++ wordBytes (buffer.dmaHandle + 0x80000000) ++ wordBytes buffer.size
  | .encodeOneFrame chanUid msg => wordBytes chanUid ++ wordBytes 0 ++ msg.params.given ++ msg.addresses.given
  | .encoderChannel userUid param => wordBytes userUid ++ param.given
  | .putStreamBuffer chanUid busAddress externalMvMcuVaddr buffer =>
    wordBytes chanUid ++ wordBytes busAddress ++ wordBytes (busAddress + 0x80000000) ++ wordBytes buffer.size ++
      wordBytes buffer.offset ++ wordBytes buffer.streamBufferPtr.toUInt32 ++
      wordBytes (buffer.streamBufferPtr >>> 32).toUInt32 ++ wordBytes externalMvMcuVaddr
  | .releaseRec chanUid id => wordBytes chanUid ++ wordBytes id
  | .decodeOneSlice chanUid msg | .decodeOneFrame chanUid msg =>
    wordBytes chanUid ++ msg.params.given ++ msg.addresses.given ++ wordBytes msg.sliceParamV
  | .decoderChannel userUid param => wordBytes userUid ++ param.given
  | .searchStartCode userUid msg => wordBytes userUid ++ msg.param.given ++ msg.bufferAddrs.given

/-- The factory checks that the mail was allocated. -/
def checksAllocation : MailRequest → Bool
  | .init _ _ | .encoderChannel _ _ | .releaseRec _ _ => true
  | _ => false

/-- The sizes are within the parameters and of whole words together, and the buffers fit
into a mail. -/
def SizesFit : MailRequest → Prop
  | .bufpool _ _ buffers => 4 + 12 * buffers.length < 2 ^ 16
  | .encodeOneFrame _ msg =>
    msg.params.Fits ∧ msg.addresses.Fits ∧ 4 ∣ msg.params.size.toNat + msg.addresses.size.toNat
  | .decodeOneSlice _ msg | .decodeOneFrame _ msg =>
    msg.params.Fits ∧ msg.addresses.Fits ∧ 4 ∣ msg.params.size.toNat + msg.addresses.size.toNat
  | .encoderChannel _ param | .decoderChannel _ param => param.Fits ∧ 4 ∣ param.size.toNat
  | .searchStartCode _ msg =>
    msg.param.Fits ∧ msg.bufferAddrs.Fits ∧ 4 ∣ msg.param.size.toNat + msg.bufferAddrs.size.toNat
  | .init _ _ | .empty _ _ | .putStreamBuffer _ _ _ _ | .releaseRec _ _ => True

/-- The body that is allocated. -/
def bodySize : MailRequest → ℕ
  | .init _ _ => 32
  | .empty _ _ => 4
  | .bufpool _ _ buffers => (4 + 12 * buffers.length) % 2 ^ 32
  | .encodeOneFrame _ msg => (8 + msg.params.size.toNat + msg.addresses.size.toNat) % 2 ^ 32
  | .encoderChannel _ param | .decoderChannel _ param => (4 + param.size.toNat) % 2 ^ 32
  | .putStreamBuffer _ _ _ _ => 32
  | .releaseRec _ _ => 8
  | .decodeOneSlice _ msg | .decodeOneFrame _ msg =>
    (8 + msg.params.size.toNat + msg.addresses.size.toNat) % 2 ^ 32
  | .searchStartCode _ msg => (4 + msg.param.size.toNat + msg.bufferAddrs.size.toNat) % 2 ^ 32

/-- The mail can be allocated. -/
def Allocates (kmalloc : Kmalloc) (request : MailRequest) : Prop :=
  kmalloc (al5GetMailAllocSize request.bodySize) ≠ none

@[simp] theorem sized_nil : MailParts.sized [] = [] := rfl

variable {parts : MailParts}

@[simp] theorem sized_cons {bytes : List UInt8} {size : UInt32} :
    MailParts.sized ((bytes, size) :: parts) = (bytes, size.toNat) :: parts.sized := rfl

@[simp] theorem sized_word {w : UInt32} :
    MailParts.sized (word w :: parts) = (wordBytes w, 4) :: parts.sized := rfl

@[simp] theorem sized_params {p : Al5Params} :
    MailParts.sized (params p :: parts) = (p.bytes, p.size.toNat) :: parts.sized := rfl

/-- The parts of a pool of buffers. -/
def bufferParts (buffers : List Al5DmaBuffer) : MailParts :=
  buffers.flatMap fun buffer => [word buffer.dmaHandle, word (buffer.dmaHandle + 0x80000000), word buffer.size]

variable {buffers : List Al5DmaBuffer}

theorem bufferParts_cons {buffer : Al5DmaBuffer} :
    bufferParts (buffer :: buffers) = word buffer.dmaHandle :: word (buffer.dmaHandle + 0x80000000) ::
      word buffer.size :: bufferParts buffers := rfl

theorem copied_bufferParts :
    CheckedCopies.copied (bufferParts buffers).sized = buffers.flatMap fun buffer =>
      wordBytes buffer.dmaHandle ++ wordBytes (buffer.dmaHandle + 0x80000000) ++ wordBytes buffer.size := by
  induction buffers with
  | nil => rfl
  | cons buffer buffers ih =>
    rw [bufferParts_cons, List.flatMap_cons, ← ih]
    simp [CheckedCopies.copied]

theorem total_bufferParts :
    CheckedCopies.total (bufferParts buffers).sized = 12 * buffers.length := by
  induction buffers with
  | nil => rfl
  | cons buffer buffers ih =>
    rw [bufferParts_cons, List.length_cons]
    simp only [sized_word, CheckedCopies.total_cons, ih]
    omega

theorem bounds_bufferParts : ∀ part ∈ (bufferParts buffers).sized, part.2 ≤ part.1.length := by
  induction buffers with
  | nil => nofun
  | cons buffer buffers ih =>
    rw [bufferParts_cons]
    simp only [sized_word, List.forall_mem_cons, length_wordBytes]
    exact ⟨le_rfl, le_rfl, le_rfl, ih⟩

@[simp] theorem length_initMsg (msg : Vector UInt32 7) : (msg.toList.flatMap wordBytes).length = 28 := by
  rw [length_flatMap_wordBytes, Vector.length_toList]

@[simp] theorem length_words (w w' : UInt32) : (wordBytes w ++ wordBytes w').length = 8 := rfl

theorem content_eq : request.content = CheckedCopies.copied request.shape.parts.sized := by
  cases request with
  | bufpool chanUid msgUid buffers =>
    show _ = CheckedCopies.copied (MailParts.sized (word chanUid :: bufferParts buffers))
    rw [sized_word, CheckedCopies.copied_cons, copied_bufferParts]
    rfl
  | init chanUid msg =>
    have hmsg : (msg.toList.flatMap wordBytes).take 28 = msg.toList.flatMap wordBytes :=
      List.take_of_length_le (length_initMsg msg).le
    simp [content, shape, hmsg]
  | putStreamBuffer chanUid busAddress externalMvMcuVaddr buffer => rfl
  | _ => simp [content, shape, Al5Params.given]

theorem contentSize_eq : request.shape.contentSize.toNat = request.bodySize := by
  cases request with
  | bufpool chanUid msgUid buffers =>
    show (4 + UInt32.ofNat buffers.length * 12).toNat = (4 + 12 * buffers.length) % 2 ^ 32
    rw [UInt32.toNat_add, UInt32.toNat_mul, UInt32.toNat_ofNat']
    show (4 + buffers.length % 2 ^ 32 * 12 % 2 ^ 32) % 2 ^ 32 = _
    omega
  | init | empty | putStreamBuffer | releaseRec => rfl
  | encoderChannel | decoderChannel => exact UInt32.toNat_add _ _
  | _ =>
    simp only [shape, bodySize, UInt32.toNat_add, UInt32.reduceToNat]
    omega

theorem total_mod : CheckedCopies.total request.shape.parts.sized % 2 ^ 32 = request.bodySize := by
  cases request with
  | bufpool chanUid msgUid buffers =>
    show CheckedCopies.total (MailParts.sized (word chanUid :: bufferParts buffers)) % 2 ^ 32 = _
    rw [sized_word, CheckedCopies.total_cons, total_bufferParts]
    rfl
  | _ =>
    simp only [shape, bodySize, sized_word, sized_params, sized_cons, sized_nil, CheckedCopies.total_cons,
      CheckedCopies.total_nil, UInt32.reduceToNat]
    omega

theorem fit_iff : request.shape.parts.Fit ↔ request.SizesFit := by
  unfold MailParts.Fit
  cases request with
  | bufpool chanUid msgUid buffers =>
    show (∀ part ∈ MailParts.sized (word chanUid :: bufferParts buffers), _) ∧
      CheckedCopies.total (MailParts.sized (word chanUid :: bufferParts buffers)) < 2 ^ 16 ∧
      4 ∣ CheckedCopies.total (MailParts.sized (word chanUid :: bufferParts buffers)) ↔ 4 + 12 * buffers.length < 2 ^ 16
    rw [sized_word, CheckedCopies.total_cons, total_bufferParts, List.forall_mem_cons]
    constructor
    · rintro ⟨-, hlt, -⟩
      exact hlt
    · intro hlt
      exact ⟨⟨le_rfl, bounds_bufferParts⟩, hlt, by omega⟩
  | init | empty | putStreamBuffer | releaseRec => simp [shape, SizesFit]
  | _ =>
    simp only [shape, SizesFit, sized_word, sized_params, sized_nil, CheckedCopies.total_cons,
      CheckedCopies.total_nil, List.forall_mem_cons, List.not_mem_nil, false_imp_iff, implies_true, and_true, length_wordBytes, Al5Params.length_bytes,
      Al5Params.Fits]
    omega

theorem parts_ne_nil : request.shape.parts ≠ [] := by
  cases request <;> exact List.cons_ne_nil _ _

theorem checked_eq : request.shape.checked = request.checksAllocation := by
  cases request <;> rfl

/-- A mail for the MCU is sound exactly if it is not allocated and this is checked, or if it
is allocated and the sizes fit. -/
theorem sound_iff {kmalloc : Kmalloc} {request : MailRequest} : Sound (request.build kmalloc) request.content ↔
    (request.checksAllocation = true ∧ ¬ request.Allocates kmalloc) ∨
      (request.Allocates kmalloc ∧ request.SizesFit) := by
  rw [build_eq, content_eq, MailShape.sound_build_iff (contentSize_eq.trans total_mod.symm) parts_ne_nil,
    contentSize_eq, fit_iff, checked_eq]
  unfold Allocates
  rw [not_not]

/-- 129 words are asked for of the parameters of a channel. -/
theorem not_sound : ¬ ∀ (kmalloc : Kmalloc) (request : MailRequest),
    Sound (request.build kmalloc) request.content := by
  intro h
  have hsound := h (fun _ => some fun _ => 0) (.encoderChannel 0 ⟨516, Vector.replicate 128 0⟩)
  rw [build_eq, content_eq, MailShape.sound_build_iff (contentSize_eq.trans total_mod.symm) parts_ne_nil] at hsound
  rcases hsound with ⟨-, hnone⟩ | ⟨-, hparts, -⟩
  · exact Option.some_ne_none _ hnone
  · have hle := hparts (Al5Params.bytes ⟨516, Vector.replicate 128 0⟩, 516) (List.mem_cons_of_mem _ List.mem_cons_self)
    rw [Al5Params.length_bytes] at hle
    exact absurd hle (by decide)

end MailRequest

end VcuCodec
