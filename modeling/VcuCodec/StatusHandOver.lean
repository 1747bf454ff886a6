import VcuCodec.MailContents
import VcuCodec.StatusMails

/-!
# Which statuses are handed over

The encoder's statuses arrive.  The decoder's library subtracts a number of words from a
size in bytes, so that no status of the firmware is copied within its object.
-/

namespace VcuCodec

open CheckedCopies (copy)

variable {old : ℕ → UInt8} {last status : StatusParams} {body : List UInt8} {kind : StatusKind}

variable {size : ℕ}

@[simp] theorem length_uninitialised : (uninitialised old size).length = size := by
  unfold uninitialised
  rw [List.length_map, List.length_range]

theorem copy_uninitialised {src : List UInt8} (h : size ≤ src.length) :
    copy (uninitialised old size) 0 src size = some (src.take size) := by
  apply CheckedCopies.copy_eq_some_iff.mpr
  rw [length_uninitialised]
  refine ⟨⟨h, (Nat.zero_add size).le⟩, ?_⟩
  rw [List.take_zero, List.nil_append, List.drop_eq_nil_of_le (by rw [length_uninitialised]; omega), List.append_nil]

theorem copy_ne_none {dst src : List UInt8} {pos size : ℕ} (h : copy dst pos src size ≠ none) :
    size ≤ src.length ∧ pos + size ≤ dst.length := by
  obtain ⟨out, hout⟩ := Option.ne_none_iff_exists'.mp h
  exact (CheckedCopies.copy_eq_some_iff.mp hout).1

/-! ## The copy into the ioctl -/

theorem al5McuRecv_of_le (h : body.length ≤ 512) : al5McuRecv body = some body := by
  unfold al5McuRecv al5GetMailAllocSize
  exact if_neg (by omega)

theorem al5McuRecv_of_lt (h : 512 < body.length) : al5McuRecv body = none := by
  unfold al5McuRecv al5GetMailAllocSize
  exact if_pos (by omega)

theorem toNat_statusSize (h4 : 4 ≤ body.length) (hle : body.length ≤ 512) :
    (UInt32.ofNat body.length - 4).toNat = body.length - 4 := by
  rw [UInt32.toNat_sub, UInt32.toNat_ofNat']
  show (2 ^ 32 - 4 + body.length % 2 ^ 32) % 2 ^ 32 = _
  omega

theorem al5MailGetStatus_of_le (hlen : status.opaqueBytes.length = 512) (h4 : 4 ≤ body.length)
    (hle : body.length ≤ 512) : al5MailGetStatus status body =
      some ⟨UInt32.ofNat body.length - 4, body.drop 4 ++ status.opaqueBytes.drop (body.length - 4)⟩ := by
  have hdrop : (body.drop 4).length = body.length - 4 := List.length_drop
  unfold al5MailGetStatus
  dsimp only
  rw [toNat_statusSize h4 hle, Option.map_eq_some_iff]
  refine ⟨_, CheckedCopies.copy_eq_some_iff.mpr ⟨⟨hdrop.ge, by omega⟩, rfl⟩, ?_⟩
  rw [List.take_zero, List.nil_append, Nat.zero_add, ← hdrop, List.take_length]

theorem al5MailGetStatus_of_lt (h4 : body.length < 4) : al5MailGetStatus status body = none := by
  unfold al5MailGetStatus
  rw [Option.map_eq_none_iff]
  by_contra hne
  obtain ⟨hsrc, -⟩ := copy_ne_none hne
  rw [UInt32.toNat_sub, UInt32.toNat_ofNat', List.length_drop] at hsrc
  have hsrc : (2 ^ 32 - 4 + body.length % 2 ^ 32) % 2 ^ 32 ≤ body.length - 4 := hsrc
  omega

/-! ## The copy out of it -/

/-- Where a status is handed over. -/
def StatusMeets : StatusKind → List UInt8 → Prop
  | .decoder, body => 4 ≤ body.length ∧ (firstWord (body.drop 4) = 1 → body.length ≤ 9) ∧
      (firstWord (body.drop 4) = 2 → body.length ≤ 5 + decPicStatusSize)
  | .encoder, body => 4 ≤ body.length
  | .startCode, body => 4 + scStatusSize ≤ body.length

theorem firstWord_append_zeros {bytes : List UInt8} {n : ℕ} :
    firstWord (bytes ++ List.replicate n 0) = firstWord bytes := by
  have hget : ∀ i, (bytes ++ List.replicate n 0).getD i 0 = bytes.getD i 0 := by
    intro i
    rcases Nat.lt_or_ge i bytes.length with hlt | hge
    · exact List.getD_append _ _ _ _ hlt
    · rw [List.getD_append_right _ _ _ _ hge, List.getD_eq_default _ _ hge]
      rw [List.getD_eq_getElem?_getD]
      exact List.getElem?_getD_replicate_default_eq ..
  unfold firstWord
  simp only [hget]

theorem lt_length_of_firstWord (h : firstWord (body.drop 4) ≠ 0) : 4 < body.length := by
  by_contra hle
  rw [List.drop_eq_nil_of_le (by omega)] at h
  exact h rfl

theorem toNat_copySize (h5 : 5 ≤ body.length) (hle : body.length ≤ 512) :
    (UInt32.ofNat body.length - 4 - 4 / 4).toNat = body.length - 5 := by
  rw [UInt32.toNat_sub, toNat_statusSize (by omega) hle]
  show (2 ^ 32 - 1 + (body.length - 4)) % 2 ^ 32 = _
  omega

def decoderMsg (body : List UInt8) : StatusParams :=
  ⟨UInt32.ofNat body.length - 4, body.drop 4 ++ StatusParams.zero.opaqueBytes.drop (body.length - 4)⟩

theorem firstWord_decoderMsg : firstWord (decoderMsg body).opaqueBytes = firstWord (body.drop 4) := by
  show firstWord (body.drop 4 ++ (List.replicate 512 0).drop (body.length - 4)) = _
  rw [List.drop_replicate, firstWord_append_zeros]

theorem handOver_decoder (h4 : 4 ≤ body.length) (hle : body.length ≤ 512) :
    handOver old last .decoder body = decProcessStatusMsg old (decoderMsg body) := by
  unfold handOver
  rw [al5McuRecv_of_le hle]
  dsimp only
  rw [al5MailGetStatus_of_le List.length_replicate h4 hle]
  rfl

/-- The copy of the decoder's library stays in its object exactly if the status has at most
5 bytes more than the object. -/
theorem decoder_copy_ne_none (h5 : 5 ≤ body.length) (hle : body.length ≤ 512) :
    copy (uninitialised old size) 0 ((decoderMsg body).opaqueBytes.drop 4) ((decoderMsg body).size - 4 / 4).toNat ≠
      none ↔ body.length ≤ 5 + size := by
  have hlen : ((decoderMsg body).opaqueBytes.drop 4).length = 508 := by
    show ((body.drop 4 ++ (List.replicate 512 (0 : UInt8)).drop (body.length - 4)).drop 4).length = 508
    rw [List.length_drop, List.length_append, List.length_drop, List.length_drop, List.length_replicate]
    omega
  have hsize : ((decoderMsg body).size - 4 / 4).toNat = body.length - 5 := toNat_copySize h5 hle
  rw [hsize]
  constructor
  · intro h
    obtain ⟨-, hdst⟩ := copy_ne_none h
    rw [length_uninitialised] at hdst
    omega
  · intro h
    unfold copy
    rw [if_pos ⟨by omega, by rw [length_uninitialised]; omega⟩]
    exact Option.some_ne_none _

theorem decoder_ne_none_iff (hle : body.length ≤ 512) :
    handOver old last .decoder body ≠ none ↔ StatusMeets .decoder body := by
  rcases Nat.lt_or_ge body.length 4 with hlt | h4
  · have hnone : handOver old last .decoder body = none := by
      unfold handOver
      rw [al5McuRecv_of_le hle]
      dsimp only
      rw [al5MailGetStatus_of_lt hlt]
      rfl
    rw [hnone]
    exact ⟨fun h => absurd rfl h, fun h => absurd h.1 (by omega)⟩
  · rw [handOver_decoder h4 hle]
    unfold decProcessStatusMsg StatusMeets
    dsimp only
    rw [firstWord_decoderMsg]
    split
    · next h1 =>
      have h5 : 5 ≤ body.length := lt_length_of_firstWord (by omega)
      rw [ne_eq, Option.map_eq_none_iff]
      show copy _ 0 ((decoderMsg body).opaqueBytes.drop 4) _ ≠ none ↔ _
      rw [decoder_copy_ne_none h5 hle, h1]
      constructor
      · intro h9
        exact ⟨h4, fun _ => h9, fun h2 => absurd h2 (by decide)⟩
      · rintro ⟨-, h9, -⟩
        exact h9 rfl
    · split
      · next h1 h2 =>
        have h5 : 5 ≤ body.length := lt_length_of_firstWord (by omega)
        rw [ne_eq, Option.map_eq_none_iff]
        show copy _ 0 ((decoderMsg body).opaqueBytes.drop 4) _ ≠ none ↔ _
        rw [decoder_copy_ne_none h5 hle, h2]
        constructor
        · intro h29
          exact ⟨h4, fun h1 => absurd h1 (by decide), fun _ => h29⟩
        · rintro ⟨-, -, h29⟩
          exact h29 rfl
      · next h1 h2 =>
        constructor
        · intro _
          exact ⟨h4, fun h => absurd h h1, fun h => absurd h h2⟩
        · intro _
          exact Option.some_ne_none _

/-! ## What the firmware sends -/

variable {value : StatusOutcome}

theorem not_meets_of_firmware (h : FirmwareStatus .decoder body value) :
    ¬ StatusMeets .decoder body := by
  rintro ⟨-, h1, h2⟩
  cases h with
  | frame chan frameId hlen =>
    rw [List.length_append, List.length_append, length_wordBytes, length_wordBytes, hlen] at h1
    exact absurd (h1 rfl) (by decide)
  | picture chan status hlen =>
    rw [List.length_append, List.length_append, length_wordBytes, length_wordBytes, hlen] at h2
    exact absurd (h2 rfl) (by decide)

def encoderMsg (last : StatusParams) (body : List UInt8) : StatusParams :=
  ⟨UInt32.ofNat body.length - 4, body.drop 4 ++ last.opaqueBytes.drop (body.length - 4)⟩

theorem length_encoderMsg (hlast : last.opaqueBytes.length = 512) (h4 : 4 ≤ body.length) (hle : body.length ≤ 512) :
    (encoderMsg last body).opaqueBytes.length = 512 := by
  show (body.drop 4 ++ last.opaqueBytes.drop (body.length - 4)).length = 512
  rw [List.length_append, List.length_drop, List.length_drop]
  omega

theorem handOver_encoder (hlast : last.opaqueBytes.length = 512) (h4 : 4 ≤ body.length) (hle : body.length ≤ 512) :
    handOver old last .encoder body = some (
      if body.length < 12 then .assertion
      else if body.length = 12 then .endEncoding none ((encoderMsg last body).opaqueBytes.take 8)
      else if body.length = 12 + encPicStatusSize then
        .endEncoding (some (((encoderMsg last body).opaqueBytes.drop 8).take encPicStatusSize))
          ((encoderMsg last body).opaqueBytes.take 8)
      else .assertion) := by
  have hlen := length_encoderMsg hlast h4 hle
  have hsize : (encoderMsg last body).size.toNat = body.length - 4 := toNat_statusSize h4 hle
  have hget : handOver old last .encoder body = encProcessStatusMsg old (encoderMsg last body) := by
    unfold handOver
    rw [al5McuRecv_of_le hle]
    dsimp only
    rw [al5MailGetStatus_of_le hlast h4 hle]
    rfl
  rw [hget]
  unfold encProcessStatusMsg
  rw [hsize, copy_uninitialised (by omega), Option.bind_some,
    copy_uninitialised (by rw [List.length_drop, hlen]; decide)]
  rcases lt_trichotomy body.length 12 with hlt | heq | hgt
  · rw [if_pos (by omega), if_pos hlt]
  · rw [if_neg (by omega), if_neg (by omega), if_neg (by omega), if_pos heq]
  · rw [if_neg (show ¬ body.length - 4 < 8 by omega), if_pos (show 8 < body.length - 4 by omega),
      if_neg (show ¬ body.length < 12 by omega), if_neg (show ¬ body.length = 12 by omega)]
    by_cases hfull : body.length = 12 + encPicStatusSize
    · rw [if_pos (show body.length - 4 = 8 + encPicStatusSize by omega), if_pos hfull]
      rfl
    · rw [if_neg (show ¬ body.length - 4 = 8 + encPicStatusSize by omega), if_neg hfull]

theorem encoder_arrives (hlast : last.opaqueBytes.length = 512)
    (h : FirmwareStatus .encoder body value) : handOver old last .encoder body = some value := by
  cases h with
  | stream chan ptr hptr =>
    have hlen : (wordBytes chan ++ ptr).length = 12 := by
      rw [List.length_append, length_wordBytes, hptr]
    have htake : (encoderMsg last (wordBytes chan ++ ptr)).opaqueBytes.take 8 = ptr := List.take_left' hptr
    rw [handOver_encoder hlast (by omega) (by omega), if_neg (by omega), if_pos hlen, htake]
  | encoded chan ptr status hptr hstatus =>
    have hlen : (wordBytes chan ++ (ptr ++ status)).length = 12 + encPicStatusSize := by
      rw [List.length_append, List.length_append, length_wordBytes, hptr, hstatus, ← Nat.add_assoc]
    have hsize : encPicStatusSize = 248 := rfl
    have hopaque : (encoderMsg last (wordBytes chan ++ (ptr ++ status))).opaqueBytes =
        ptr ++ (status ++ last.opaqueBytes.drop ((wordBytes chan ++ (ptr ++ status)).length - 4)) := by
      show (ptr ++ status) ++ _ = _
      rw [List.append_assoc]
    rw [handOver_encoder hlast (by omega) (by omega), if_neg (by omega), if_neg (by omega), if_pos hlen, hopaque,
      List.take_left' hptr, List.drop_left' hptr, List.take_left' hstatus]

/-! ## Start codes -/

theorem startCode_ne_none_iff (hle : body.length ≤ 512) :
    handOver old last .startCode body ≠ none ↔ StatusMeets .startCode body := by
  unfold handOver StatusMeets al5dMailGetScStatus
  rw [al5McuRecv_of_le hle]
  dsimp only
  rw [ne_eq, Option.map_eq_none_iff]
  constructor
  · intro h
    obtain ⟨hsrc, -⟩ := copy_ne_none h
    rw [List.length_drop] at hsrc
    have hsize : scStatusSize = 8 := rfl
    omega
  · intro h
    rw [copy_uninitialised (by rw [List.length_drop]; omega)]
    exact Option.some_ne_none _

/-! ## All statuses -/

theorem handOver_of_lt (h : 512 < body.length) : handOver old last kind body = some .dropped := by
  unfold handOver
  rw [al5McuRecv_of_lt h]

theorem length_le_of_firmware (h : FirmwareStatus kind body value) : body.length ≤ 512 := by
  have hdec : decPicStatusSize = 24 := rfl
  have henc : encPicStatusSize = 248 := rfl
  cases h <;> simp only [List.length_append, length_wordBytes] <;> omega

/-- A status is handed over exactly if it is dropped or has a size for which the copies
stay within their objects. -/
theorem handedOver_iff : HandedOver kind body ↔ 512 < body.length ∨ StatusMeets kind body := by
  rcases Nat.lt_or_ge 512 body.length with hlt | hle
  · constructor
    · intro _
      exact Or.inl hlt
    · intro _ old last _
      exact ⟨.dropped, handOver_of_lt hlt, fun value hvalue => absurd (length_le_of_firmware hvalue) (by omega)⟩
  · rw [or_iff_right (by omega)]
    constructor
    · intro h
      obtain ⟨outcome, hout, -⟩ := h (fun _ => 0) .zero List.length_replicate
      have hne := Option.ne_none_iff_exists'.mpr ⟨outcome, hout⟩
      cases kind with
      | decoder => exact (decoder_ne_none_iff hle).mp hne
      | encoder =>
        by_contra hlt
        have hnone : handOver (fun _ => 0) .zero .encoder body = none := by
          unfold handOver
          rw [al5McuRecv_of_le hle]
          dsimp only
          rw [al5MailGetStatus_of_lt (not_le.mp hlt)]
          rfl
        exact hne hnone
      | startCode => exact (startCode_ne_none_iff hle).mp hne
    · intro h old last hlast
      cases kind with
      | decoder =>
        obtain ⟨outcome, hout⟩ := Option.ne_none_iff_exists'.mp ((decoder_ne_none_iff hle).mpr h)
        exact ⟨outcome, hout, fun value hvalue => absurd h (not_meets_of_firmware hvalue)⟩
      | encoder =>
        obtain ⟨outcome, hout⟩ : ∃ outcome, handOver old last .encoder body = some outcome :=
          ⟨_, handOver_encoder hlast h hle⟩
        exact ⟨outcome, hout, fun value hvalue => Option.some.inj (hout.symm.trans (encoder_arrives hlast hvalue))⟩
      | startCode =>
        obtain ⟨outcome, hout⟩ := Option.ne_none_iff_exists'.mp ((startCode_ne_none_iff hle).mpr h)
        exact ⟨outcome, hout, nofun⟩

/-- The end of a picture's parsing writes 7 bytes to the 4 of its frame id. -/
theorem not_handedOver : ¬ ∀ (kind : StatusKind) (body : List UInt8), HandedOver kind body := by
  intro h
  obtain ⟨outcome, hout, -⟩ := h .decoder [0, 0, 0, 0, 1, 0, 0, 0, 5, 0, 0, 0] (fun _ => 0) .zero
    List.length_replicate
  have hnone : handOver (fun _ => 0) .zero .decoder [0, 0, 0, 0, 1, 0, 0, 0, 5, 0, 0, 0] = none := by
    decide +kernel
  rw [hnone] at hout
  exact absurd hout (Option.some_ne_none outcome).symm

end VcuCodec
