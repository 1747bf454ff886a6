import VcuCodec.MailboxFifo

/-!
# Mails that are too large for the reader

`al5_mailbox_read` (`common/al_mailbox.c`) with a buffer of any size, on a mailbox with any
pending mails.
-/

namespace VcuCodec

namespace Mailbox

/-- `al5_mailbox_read`: the mail that is stored, if the read returns `true`.  Only the bytes
that are copied are in its body. -/
def read (box : Mailbox) (mailSize : ℕ) : Option Mail × Mailbox :=
  let (header, box) := box.readData headerSize
  let msgUid := unserializeMsgUid header
  let bodySize := unserializeBodySize header
  -- "we can't store this mail, it will be dropped"
  if mailSize < al5GetMailAllocSize bodySize then (none, box)
  else
    let (body, box) := box.readData bodySize
    (some ⟨msgUid, body⟩, box)

/-! ## Mailbox contents -/

/-- What a mail takes in the ring. -/
def mailRoom (mail : Mail) : ℕ := headerSize + (mail.body.length + 3) / 4 * 4

/-- The mails lie in the ring one after the other, each at a whole word. -/
def Pending (box : Mailbox) : (pos : ℕ) → List Mail → Prop
  | _, [] => True
  | pos, mail :: mails =>
    RingQueues.contents box.data box.size pos headerSize = serializeHeader mail.msgUid mail.body.length ∧
    RingQueues.contents box.data box.size (pos + headerSize) mail.body.length = mail.body ∧
    mail.body.length < 2 ^ 16 ∧ box.Pending (pos + mailRoom mail) mails

/-- A mailbox with its pending mails: the indices are offsets of words, in registers of 32 bits,
and are equal only if the mailbox is empty. -/
structure Content (box : Mailbox) (mails : List Mail) : Prop where
  dvd : 4 ∣ box.size
  le : box.size ≤ 2 ^ 32
  head_lt : box.head < box.size
  head_dvd : 4 ∣ box.head
  room : (mails.map mailRoom).sum + 4 ≤ box.size
  pending : box.Pending box.head mails

/-! ## What is claimed -/

/-- The reads with buffers of the given sizes get the mails one after the other; one that is too
large is dropped as a whole. -/
def ReadsWhole : Mailbox → List Mail → List ℕ → Prop
  | box, mail :: mails, mailSize :: sizes =>
    (box.read mailSize).1 = (if mailSize < al5GetMailAllocSize mail.body.length then none else some mail) ∧
    (box.read mailSize).2.head = (box.head + mailRoom mail) % box.size ∧
    ReadsWhole (box.read mailSize).2 mails sizes
  | _, [], _ => True
  | _, _ :: _, [] => True

/-- Each mail that is too large has an empty body, and each other one a body of whole words. -/
def WholeReads : List Mail → List ℕ → Prop
  | mail :: mails, mailSize :: sizes =>
    (if mailSize < al5GetMailAllocSize mail.body.length then mail.body = [] else 4 ∣ mail.body.length) ∧
    WholeReads mails sizes
  | [], _ => True
  | _ :: _, [] => True

/-! ## One read -/

section Reads

variable {box : Mailbox} {mail : Mail} {mails : List Mail} {mailSize pos : ℕ}

theorem contents_mod {α : Type*} (f : ℕ → α) (size pos n : ℕ) :
    RingQueues.contents f size (pos % size) n = RingQueues.contents f size pos n := by
  unfold RingQueues.contents
  apply List.map_congr_left
  intro k _
  rw [Nat.mod_add_mod]

theorem Pending.moved (h : box.Pending pos mails) {box' : Mailbox} {pos' : ℕ} (hdata : box'.data = box.data)
    (hsize : box'.size = box.size) (hpos : pos' % box.size = pos % box.size) : box'.Pending pos' mails := by
  induction mails generalizing pos pos' with
  | nil => trivial
  | cons mail mails ih =>
    obtain ⟨hheader, hbody, hlt, hrest⟩ := h
    have hmove : ∀ k n, RingQueues.contents box'.data box'.size (pos' + k) n =
        RingQueues.contents box.data box.size (pos + k) n := by
      intro k n
      rw [hdata, hsize, ← contents_mod, Nat.add_mod, hpos, ← Nat.add_mod, contents_mod]
    refine ⟨?_, ?_, hlt, ih hrest ?_⟩
    · rw [← hheader, ← Nat.add_zero pos', ← Nat.add_zero pos]
      exact hmove 0 headerSize
    · rw [hmove, hbody]
    · rw [Nat.add_mod, hpos, ← Nat.add_mod]

theorem Content.header (h : box.Content (mail :: mails)) :
    box.readData headerSize =
      (serializeHeader mail.msgUid mail.body.length, { box with head := (box.head + headerSize) % box.size }) := by
  have hroom := h.room
  rw [List.map_cons, List.sum_cons, mailRoom, headerSize] at hroom
  obtain ⟨hbytes, hbox⟩ := readData_words h.dvd h.le (n := 4) (by omega) (by omega) h.head_lt h.head_dvd
  exact Prod.ext (hbytes.trans h.pending.1) hbox

theorem Content.next (h : box.Content (mail :: mails)) :
    ({ box with head := (box.head + mailRoom mail) % box.size } : Mailbox).Content mails where
  dvd := h.dvd
  le := h.le
  head_lt := Nat.mod_lt _ (Nat.zero_lt_of_lt h.head_lt)
  head_dvd := by
    apply (Nat.dvd_mod_iff h.dvd).mpr
    apply (Nat.dvd_add_right h.head_dvd).mpr
    simp [mailRoom, headerSize]
  room := by
    have hroom := h.room
    rw [List.map_cons, List.sum_cons] at hroom
    exact le_trans (by omega) hroom
  pending := h.pending.2.2.2.moved rfl rfl (Nat.mod_mod _ _)

theorem Content.read_large (h : box.Content (mail :: mails))
    (hlarge : mailSize < al5GetMailAllocSize mail.body.length) :
    box.read mailSize = (none, { box with head := (box.head + headerSize) % box.size }) := by
  unfold read
  rw [h.header]
  dsimp only
  rw [unserializeBodySize_serializeHeader mail.msgUid h.pending.2.2.1, if_pos hlarge]

/-- A mail that fits is read up to its last whole word. -/
theorem Content.read_fits (h : box.Content (mail :: mails))
    (hfits : ¬ mailSize < al5GetMailAllocSize mail.body.length) :
    box.read mailSize = (some ⟨mail.msgUid, mail.body.take (mail.body.length / 4 * 4)⟩,
      { box with head := (box.head + mailRoom mail) % box.size }) := by
  have hroom := h.room
  rw [List.map_cons, List.sum_cons, mailRoom, headerSize] at hroom
  have hnext : (box.head + headerSize) % box.size < box.size := Nat.mod_lt _ (Nat.zero_lt_of_lt h.head_lt)
  have hnext4 : 4 ∣ (box.head + headerSize) % box.size := by
    apply (Nat.dvd_mod_iff h.dvd).mpr
    exact (Nat.dvd_add_right h.head_dvd).mpr (dvd_refl 4)
  have hlt := h.pending.2.2.1
  obtain ⟨hbytes, hbox⟩ := @readData_words { box with head := (box.head + headerSize) % box.size }
    mail.body.length h.dvd h.le (show mail.body.length ≤ box.size by omega) (by omega) hnext hnext4
  have hbody : RingQueues.contents box.data box.size ((box.head + headerSize) % box.size)
      (mail.body.length / 4 * 4) = mail.body.take (mail.body.length / 4 * 4) := by
    rw [contents_mod, ← RingQueues.contents_take (Nat.div_mul_le_self _ 4), h.pending.2.1]
  unfold read
  rw [h.header]
  dsimp only
  rw [unserializeBodySize_serializeHeader mail.msgUid hlt, if_neg hfits, unserializeMsgUid_serializeHeader, hbytes,
    hbox, hbody, Nat.mod_add_mod, Nat.add_assoc, mailRoom]

/-! ## Runs of reads -/

theorem Content.readsWhole_iff (h : box.Content mails) (sizes : List ℕ) :
    box.ReadsWhole mails sizes ↔ WholeReads mails sizes := by
  induction mails generalizing box sizes with
  | nil => simp [ReadsWhole, WholeReads]
  | cons mail mails ih =>
    cases sizes with
    | nil => simp [ReadsWhole, WholeReads]
    | cons mailSize sizes =>
      rw [ReadsWhole, WholeReads]
      by_cases hlarge : mailSize < al5GetMailAllocSize mail.body.length
      · rw [h.read_large hlarge, if_pos hlarge, if_pos hlarge]
        by_cases hempty : mail.body = []
        · have hroom : mailRoom mail = headerSize := by rw [mailRoom, hempty]; rfl
          have hnext := h.next
          rw [hroom] at hnext ⊢
          simp [hempty, ih hnext]
        · -- the head stays at the body
          have hpos : 0 < mail.body.length := List.length_pos_of_ne_nil hempty
          have hroom := h.room
          rw [List.map_cons, List.sum_cons] at hroom
          have hne : (box.head + headerSize) % box.size ≠ (box.head + mailRoom mail) % box.size := by
            apply RingQueues.mod_ne
            · rw [mailRoom]
              omega
            · rw [headerSize]
              omega
          simp [hempty, hne]
      · rw [h.read_fits hlarge, if_neg hlarge, if_neg hlarge, ih h.next]
        have htake : mail.body.take (mail.body.length / 4 * 4) = mail.body ↔ 4 ∣ mail.body.length := by
          constructor
          · intro he
            have hlen := congrArg List.length he
            rw [List.length_take] at hlen
            omega
          · intro h4
            rw [Nat.div_mul_cancel h4, List.take_length]
        have hmail : some (⟨mail.msgUid, mail.body.take (mail.body.length / 4 * 4)⟩ : Mail) = some mail ↔
            4 ∣ mail.body.length := by
          rw [Option.some.injEq, ← htake]
          exact ⟨congrArg Mail.body, fun he => by rw [he]⟩
        rw [hmail]
        simp

/-- A mail that is too large is dropped as a whole if and only if it has no body to drop; the mails
behind it are then read as long as the same holds of them and those that fit are of whole words. -/
theorem read_drops_iff (h : box.Content (mail :: mails)) (hlarge : mailSize < al5GetMailAllocSize mail.body.length)
    (sizes : List ℕ) :
    ((box.read mailSize).1 = none ∧ (box.read mailSize).2.head = (box.head + mailRoom mail) % box.size ∧
        (box.read mailSize).2.ReadsWhole mails sizes) ↔
      mail.body = [] ∧ WholeReads mails sizes := by
  have hrun := h.readsWhole_iff (mailSize :: sizes)
  rwa [ReadsWhole, WholeReads, if_pos hlarge, if_pos hlarge] at hrun

end Reads

/-! ## The mails of the firmware -/

/-- What `al5_mcu_recv` allocates. -/
def mcuRecvSize : ℕ := al5GetMailAllocSize (128 * 4)

/-- A mail of one word more than `mcuRecvSize`. -/
def longMail : Mail := ⟨0, List.replicate 516 0⟩

theorem length_longMail : longMail.body.length = 516 := List.length_replicate

theorem eq_zero_of_mem_longMail : ∀ b ∈ longMail.body, b = 0 := fun _ hb => List.eq_of_mem_replicate hb

/-- `longMail` and a mail without a body behind it. -/
def twoMails : Mailbox :=
  ⟨2040, fun i => if i = 0 then 4 else if i = 1 then 2 else if i = 522 then 1 else 0, 524, 0, 0⟩

theorem content_twoMails : twoMails.Content [longMail, ⟨1, []⟩] where
  dvd := by decide
  le := by decide
  head_lt := by decide
  head_dvd := by decide
  room := by
    simp only [List.map_cons, List.map_nil, List.sum_cons, List.sum_nil, mailRoom, length_longMail]
    decide
  pending := by
    unfold Pending
    rw [length_longMail, mailRoom, length_longMail]
    refine ⟨by decide, ?_, by decide, by decide, rfl, by decide, trivial⟩
    apply List.ext_getElem
    · rw [RingQueues.length_contents, length_longMail]
    · intro k hk hk'
      have hlt : k < 516 := length_longMail ▸ hk'
      have hpos : (twoMails.head + headerSize + k) % twoMails.size = k + 4 := by
        show (0 + 4 + k) % 2040 = k + 4
        omega
      rw [RingQueues.getElem_contents, eq_zero_of_mem_longMail _ (List.getElem_mem hk'), hpos]
      show (if k + 4 = 0 then 4 else if k + 4 = 1 then 2 else if k + 4 = 522 then 1 else 0 : UInt8) = 0
      rw [if_neg (by omega), if_neg (by omega), if_neg (by omega)]

theorem mcuRecvSize_lt : mcuRecvSize < al5GetMailAllocSize longMail.body.length := by
  rw [length_longMail]
  decide

theorem read_drops_iff_twoMails :
    ((twoMails.read mcuRecvSize).1 = none ∧
        (twoMails.read mcuRecvSize).2.head = (twoMails.head + mailRoom longMail) % twoMails.size ∧
        (twoMails.read mcuRecvSize).2.ReadsWhole [⟨1, []⟩] [mcuRecvSize]) ↔
      longMail.body = [] ∧ WholeReads [⟨1, []⟩] [mcuRecvSize] :=
  read_drops_iff content_twoMails mcuRecvSize_lt [mcuRecvSize]

/-- The first read returns `false` and leaves the head at the body, so that the next read takes the
first word of the body for a mail. -/
theorem not_read_drops :
    twoMails.Content [longMail, ⟨1, []⟩] ∧ mcuRecvSize < al5GetMailAllocSize longMail.body.length ∧
      (twoMails.read mcuRecvSize).1 = none ∧ (twoMails.read mcuRecvSize).2.head = 4 ∧
      ((twoMails.read mcuRecvSize).2.read mcuRecvSize).1 = some ⟨0, []⟩ ∧
      ¬ (twoMails.read mcuRecvSize).2.ReadsWhole [⟨1, []⟩] [mcuRecvSize] := by
  have hnext : ((twoMails.read mcuRecvSize).2.read mcuRecvSize).1 = some ⟨0, []⟩ := by decide
  refine ⟨content_twoMails, mcuRecvSize_lt, by decide, by decide, hnext, fun hwhole => ?_⟩
  have hmail := hnext.symm.trans hwhole.1
  exact absurd hmail (by decide)

end Mailbox

end VcuCodec
