import VcuCodec.GuardedRuns
import VcuCodec.Mailbox

/-!
# A mailbox is a FIFO

The mails that are read are the mails accepted, in order, whatever the interleaving of the
two sides, as long as the index that the writer keeps in 16 bits holds every offset of the
mailbox.
-/

namespace VcuCodec

/-! ## Headers -/

section Header

variable (msgUid : UInt16) {bodySize : ℕ}

@[simp] theorem length_serializeHeader : (serializeHeader msgUid bodySize).length = 4 := rfl

theorem unserializeBodySize_serializeHeader (h : bodySize < 2 ^ 16) :
    unserializeBodySize (serializeHeader msgUid bodySize) = bodySize := by
  unfold unserializeBodySize serializeHeader
  simp only [List.getD_cons_zero, List.getD_cons_succ, UInt8.toNat_ofNat']
  omega

theorem unserializeMsgUid_serializeHeader :
    unserializeMsgUid (serializeHeader msgUid bodySize) = msgUid := by
  have hlt := msgUid.toNat_lt
  unfold unserializeMsgUid serializeHeader
  apply UInt16.toNat_inj.mp
  simp only [List.getD_cons_zero, List.getD_cons_succ, UInt8.toNat_ofNat', UInt16.toNat_ofNat']
  omega

end Header

/-- A mail as it lies in the ring. -/
def Mail.bytes (mail : Mail) : List UInt8 := serializeHeader mail.msgUid mail.body.length ++ mail.body

/-! ## Blocks of words -/

section Words

variable {mem : ℕ → UInt8} {pos size : ℕ}

theorem wordCount_eq (h4 : 4 ∣ size) (hlt : size < 2 ^ 31) : (toInt32 size).toNat / 4 * 4 = size := by
  rw [toInt32_of_fits ⟨by omega, by omega⟩]
  omega

theorem memcpyToio32_eq {src : List UInt8} (h4 : 4 ∣ size) (hlt : size < 2 ^ 31) :
    memcpyToio32 mem pos src size = RingQueues.blit mem pos (src.take size) := by
  unfold memcpyToio32
  rw [wordCount_eq h4 hlt]

end Words

namespace Mailbox

variable {box : Mailbox} {head n size : ℕ} {inData : List UInt8}

/-- The sizes of a mailbox whose indices fit into 16 bits. -/
structure Sized (box : Mailbox) : Prop where
  pos : 0 < box.size
  dvd : 4 ∣ box.size
  le : box.size ≤ 2 ^ 16

@[simp] theorem size_writeData : (box.writeData inData).size = box.size := by
  unfold writeData
  dsimp only
  split <;> rfl

@[simp] theorem head_writeData : (box.writeData inData).head = box.head := by
  unfold writeData
  dsimp only
  split <;> rfl

@[simp] theorem size_readData : (box.readData size).2.size = box.size := by
  unfold readData
  dsimp only
  split <;> rfl

theorem mailboxIsWrapping_eq {mailboxSize value : ℕ} (hlt : value + n < 2 ^ 64) :
    mailboxIsWrapping mailboxSize value n = decide (mailboxSize < value + n) := by
  unfold mailboxIsWrapping
  rw [show ((value : ℤ) + n) = ((value + n : ℕ) : ℤ) by omega, toSizeT_of_lt hlt]

theorem advance_eq {value : ℕ} (h4 : 4 ∣ value + n) (hlt : value + n + 3 < 2 ^ 64) :
    box.advance value n = (value + n) % box.size := by
  unfold advance
  rw [show ((value : ℤ) + n + 3) = ((value + n + 3 : ℕ) : ℤ) by omega, toSizeT_of_lt hlt]
  congr 1
  omega

/-- Words written behind the queue are appended to it. -/
theorem writeData_spec (hb : box.Sized) (h4 : 4 ∣ inData.length) (hlen : n + inData.length ≤ box.size)
    (hpos4 : 4 ∣ box.localTail) (hpos : box.localTail = (head + n) % box.size) :
    RingQueues.contents (box.writeData inData).data box.size head (n + inData.length) =
        RingQueues.contents box.data box.size head n ++ inData ∧
      (box.writeData inData).localTail = (head + (n + inData.length)) % box.size ∧
      (box.writeData inData).size = box.size ∧ (box.writeData inData).tail = box.tail ∧
      (box.writeData inData).head = box.head := by
  have hsize := hb.le
  have hdvd := hb.dvd
  have hlt : box.localTail < box.size := hpos ▸ Nat.mod_lt _ hb.pos
  have hnext : (box.localTail + inData.length) % box.size = (head + (n + inData.length)) % box.size := by
    rw [hpos, Nat.mod_add_mod, Nat.add_assoc]
  have hmod := Nat.mod_lt (box.localTail + inData.length) hb.pos
  rw [← RingQueues.contents_blitWrapped hpos hlen, ← hnext]
  unfold writeData RingQueues.blitWrapped
  rw [mailboxIsWrapping_eq (by omega)]
  by_cases hwrap : box.size < box.localTail + inData.length
  · have hrest : (inData.drop (box.size - box.localTail)).length = inData.length - (box.size - box.localTail) :=
      List.length_drop
    rw [decide_eq_true hwrap, if_pos rfl, if_pos hwrap]
    refine ⟨?_, ?_, rfl, rfl, rfl⟩
    · rw [memcpyToio32_eq (by omega) (by omega), memcpyToio32_eq (by omega) (by omega), ← hrest, List.take_length]
    · show box.advance 0 (inData.length - (box.size - box.localTail)) % 2 ^ 16 = _
      rw [advance_eq (by omega) (by omega), Nat.zero_add,
        show box.localTail + inData.length = inData.length - (box.size - box.localTail) + box.size by omega,
        Nat.add_mod_right]
      exact Nat.mod_eq_of_lt ((Nat.mod_lt _ hb.pos).trans_le hsize)
  · rw [decide_eq_false hwrap, if_neg Bool.false_ne_true, if_neg hwrap]
    refine ⟨?_, ?_, rfl, rfl, rfl⟩
    · rw [memcpyToio32_eq h4 (by omega), List.take_length]
    · show box.advance box.localTail inData.length % 2 ^ 16 = _
      rw [advance_eq (by omega) (by omega)]
      exact Nat.mod_eq_of_lt (hmod.trans_le hsize)

theorem localTail_writeData (h4 : 4 ∣ box.localTail + inData.length) (hle : box.localTail + inData.length ≤ box.size)
    (hlt : box.localTail + inData.length < 2 ^ 32) :
    (box.writeData inData).localTail = (box.localTail + inData.length) % box.size % 2 ^ 16 := by
  unfold writeData
  rw [mailboxIsWrapping_eq (by omega), decide_eq_false (not_lt.mpr hle), if_neg Bool.false_ne_true,
    ← advance_eq h4 (by omega)]

/-- A block is read from the start of the queue up to its last whole word, and the head goes on
with the word behind it. -/
theorem readData_words (hdvd : 4 ∣ box.size) (hmax : box.size ≤ 2 ^ 32) (hlen : n ≤ box.size) (hn : n < 2 ^ 31)
    (hhead : box.head < box.size) (hhead4 : 4 ∣ box.head) :
    (box.readData n).1 = RingQueues.contents box.data box.size box.head (n / 4 * 4) ∧
      (box.readData n).2 = { box with head := (box.head + (n + 3) / 4 * 4) % box.size } := by
  have hpos : 0 < box.size := by omega
  have hbytes : ∀ pos size, size < 2 ^ 31 → memcpyFromio32 box.data pos size =
      RingQueues.slice box.data pos (size / 4 * 4) := by
    intro pos size hlt
    unfold memcpyFromio32
    rw [toInt32_of_fits ⟨by omega, by omega⟩, Int.toNat_natCast]
  have hadvance : ∀ value size, value + size + 3 < 2 ^ 64 →
      box.advance value size % 2 ^ 32 = (value + size + 3) / 4 * 4 % box.size := by
    intro value size hlt
    unfold advance
    rw [show ((value : ℤ) + size + 3) = ((value + size + 3 : ℕ) : ℤ) by omega, toSizeT_of_lt hlt]
    exact Nat.mod_eq_of_lt ((Nat.mod_lt _ hpos).trans_le hmax)
  unfold readData
  rw [mailboxIsWrapping_eq (by omega)]
  by_cases hwrap : box.size < box.head + n
  · rw [decide_eq_true hwrap, if_pos rfl, hbytes _ _ (by omega), hbytes _ _ (by omega)]
    have hnext : (n - (box.size - box.head) + 3) / 4 * 4 + box.size = box.head + (n + 3) / 4 * 4 := by omega
    constructor
    · rcases Nat.lt_or_ge box.size (box.head + n / 4 * 4) with hlt | hge
      · rw [RingQueues.contents_eq_slices hhead hlt (by omega),
          show (box.size - box.head) / 4 * 4 = box.size - box.head by omega,
          show (n - (box.size - box.head)) / 4 * 4 = n / 4 * 4 - (box.size - box.head) by omega]
      · -- only bytes of the last word lie behind the end
        rw [RingQueues.contents_eq_slice hge, show (n - (box.size - box.head)) / 4 * 4 = 0 by omega,
          show (box.size - box.head) / 4 * 4 = n / 4 * 4 by omega]
        exact List.append_nil _
    · dsimp only
      rw [hadvance _ _ (by omega), Nat.zero_add, ← hnext, Nat.add_mod_right]
  · rw [decide_eq_false hwrap, if_neg Bool.false_ne_true, hbytes _ _ hn, RingQueues.contents_eq_slice (by omega)]
    refine ⟨rfl, ?_⟩
    dsimp only
    rw [hadvance _ _ (by omega)]
    congr 2
    omega

theorem readData_spec (hb : box.Sized) (h4 : 4 ∣ size) (hlen : size ≤ box.size) (hhead : box.head < box.size)
    (hhead4 : 4 ∣ box.head) :
    (box.readData size).1 = RingQueues.contents box.data box.size box.head size ∧
      (box.readData size).2 = { box with head := (box.head + size) % box.size } := by
  have hsize := hb.le
  have hwords := readData_words hb.dvd (by omega) hlen (by omega) hhead hhead4
  rwa [show size / 4 * 4 = size by omega, show (size + 3) / 4 * 4 = size by omega] at hwords

/-- The space that is checked is what the queue leaves, less the word that tells a full
mailbox from an empty one. -/
theorem hasSpace_iff (hb : box.Sized) (hhead : box.head < box.size) (hn : n < box.size)
    (htail : box.tail = (box.head + n) % box.size) {total : ℕ} (htotal : total < 2 ^ 32) :
    box.hasSpace total = true ↔ n + total + 4 ≤ box.size := by
  have hsize := hb.le
  have hused : (if box.head ≤ box.tail then box.tail - box.head
      else toSizeT (box.size + box.tail - box.head)) = n := by
    rcases Nat.lt_or_ge (box.head + n) box.size with hlt | hge
    · rw [Nat.mod_eq_of_lt hlt] at htail
      rw [if_pos (by omega)]
      omega
    · rw [Nat.mod_eq_sub_mod hge, Nat.mod_eq_of_lt (by omega)] at htail
      rw [if_neg (by omega), show ((box.size : ℤ) + box.tail - box.head) = (n : ℕ) by omega,
        toSizeT_of_lt (by omega)]
  unfold hasSpace notEnoughSpaceInMailbox
  dsimp only
  rw [hused, show ((box.size : ℤ) - n) = ((box.size - n : ℕ) : ℤ) by omega,
    show ((total : ℤ) + 4) = ((total + 4 : ℕ) : ℤ) by omega, toSizeT_of_lt (by omega), toSizeT_of_lt (by omega),
    Bool.not_eq_true', decide_eq_false_iff_not]
  omega

/-- The bytes between the indices, and those the writer put behind them. -/
structure Holds (box : Mailbox) (unread ahead : List UInt8) : Prop where
  sized : box.Sized
  head_lt : box.head < box.size
  head_dvd : 4 ∣ box.head
  unread_dvd : 4 ∣ unread.length
  ahead_dvd : 4 ∣ ahead.length
  tail_eq : box.tail = (box.head + unread.length) % box.size
  room : unread.length + ahead.length + 4 ≤ box.size
  contents : RingQueues.contents box.data box.size box.head (unread.length + ahead.length) = unread ++ ahead
  localTail : ahead ≠ [] → box.localTail = (box.head + (unread.length + ahead.length)) % box.size

variable {unread ahead xs : List UInt8}

theorem Holds.index_dvd (h : box.Holds unread ahead) (hn : 4 ∣ n) : 4 ∣ (box.head + n) % box.size := by
  apply (Nat.dvd_mod_iff h.sized.dvd).mpr
  exact (Nat.dvd_add_right h.head_dvd).mpr hn

theorem Holds.writeFirst (h : box.Holds unread []) (hxs : 4 ∣ xs.length)
    (hroom : unread.length + xs.length + 4 ≤ box.size) : (box.pullTail.writeData xs).Holds unread xs := by
  have hpull : box.pullTail.localTail = (box.head + unread.length) % box.size := by
    show box.tail % 2 ^ 16 = _
    rw [Nat.mod_eq_of_lt, h.tail_eq]
    rw [h.tail_eq]
    exact (Nat.mod_lt _ h.sized.pos).trans_le h.sized.le
  have hsized : box.pullTail.Sized := ⟨h.sized.pos, h.sized.dvd, h.sized.le⟩
  obtain ⟨hcontents, hlocal, hsize, htail, hhead⟩ := writeData_spec hsized hxs
    (show unread.length + xs.length ≤ box.size by omega) (hpull ▸ h.index_dvd h.unread_dvd) hpull
  have hold := h.contents
  rw [List.length_nil, Nat.add_zero, List.append_nil] at hold
  refine ⟨?_, ?_, ?_, h.unread_dvd, hxs, ?_, ?_, ?_, fun _ => ?_⟩
  · exact ⟨hsize ▸ h.sized.pos, hsize ▸ h.sized.dvd, hsize ▸ h.sized.le⟩
  · rw [hhead, hsize]
    exact h.head_lt
  · rw [hhead]
    exact h.head_dvd
  · rw [htail, hhead, hsize]
    exact h.tail_eq
  · rw [hsize]
    exact hroom
  · rw [hsize, hhead]
    exact hcontents.trans (congrArg (· ++ xs) hold)
  · rw [hlocal, hhead, hsize]
    rfl

theorem Holds.write (h : box.Holds unread ahead) (hne : ahead ≠ []) (hxs : 4 ∣ xs.length)
    (hroom : unread.length + (ahead ++ xs).length + 4 ≤ box.size) : (box.writeData xs).Holds unread (ahead ++ xs) := by
  have happ : (ahead ++ xs).length = ahead.length + xs.length := List.length_append
  have hlast := h.localTail hne
  have hahead : 4 ∣ unread.length + ahead.length := (Nat.dvd_add_right h.unread_dvd).mpr h.ahead_dvd
  obtain ⟨hcontents, hlocal, hsize, htail, hhead⟩ := writeData_spec h.sized hxs
    (show unread.length + ahead.length + xs.length ≤ box.size by omega) (hlast ▸ h.index_dvd hahead) hlast
  refine ⟨?_, ?_, ?_, h.unread_dvd, ?_, ?_, ?_, ?_, fun _ => ?_⟩
  · exact ⟨hsize ▸ h.sized.pos, hsize ▸ h.sized.dvd, hsize ▸ h.sized.le⟩
  · rw [hhead, hsize]
    exact h.head_lt
  · rw [hhead]
    exact h.head_dvd
  · rw [happ]
    exact (Nat.dvd_add_right h.ahead_dvd).mpr hxs
  · rw [htail, hhead, hsize]
    exact h.tail_eq
  · rw [hsize]
    exact hroom
  · rw [hsize, hhead, happ, ← Nat.add_assoc, hcontents, h.contents, List.append_assoc]
  · rw [hlocal, hhead, hsize, happ, Nat.add_assoc]

theorem Holds.push (h : box.Holds unread ahead) (hne : ahead ≠ []) : box.pushTail.Holds (unread ++ ahead) [] := by
  have happ : (unread ++ ahead).length = unread.length + ahead.length := List.length_append
  refine ⟨⟨h.sized.pos, h.sized.dvd, h.sized.le⟩, h.head_lt, h.head_dvd, ?_, dvd_zero 4, ?_, ?_, ?_,
    fun hnil => absurd rfl hnil⟩
  · rw [happ]
    exact (Nat.dvd_add_right h.unread_dvd).mpr h.ahead_dvd
  · rw [happ]
    exact h.localTail hne
  · rw [happ]
    exact h.room
  · rw [happ, List.append_nil]
    exact h.contents

theorem Holds.read (h : box.Holds unread ahead) (hn : n ≤ unread.length) (h4 : 4 ∣ n) :
    (box.readData n).1 = unread.take n ∧ (box.readData n).2.Holds (unread.drop n) ahead := by
  have hroom := h.room
  obtain ⟨hbytes, hbox⟩ := readData_spec h.sized h4 (show n ≤ box.size by omega) h.head_lt h.head_dvd
  have hlen : (unread.drop n).length = unread.length - n := List.length_drop
  have hfirst : RingQueues.contents box.data box.size box.head n = unread.take n := by
    have htake := congrArg (List.take n) h.contents
    rwa [RingQueues.contents_take (by omega), List.take_append_of_le_length hn] at htake
  rw [hbytes, hbox]
  refine ⟨hfirst, ⟨h.sized.pos, h.sized.dvd, h.sized.le⟩, Nat.mod_lt _ h.sized.pos, h.index_dvd h4, ?_,
    h.ahead_dvd, ?_, ?_, ?_, fun hne => ?_⟩
  · rw [hlen]
    exact Nat.dvd_sub h.unread_dvd h4
  · dsimp only
    rw [hlen, Nat.mod_add_mod, h.tail_eq]
    congr 1
    omega
  · dsimp only
    omega
  · dsimp only
    rw [hlen, show unread.length - n + ahead.length = unread.length + ahead.length - n by omega,
      RingQueues.contents_drop, h.contents, List.drop_append_of_le_length hn]
  · dsimp only
    rw [hlen, Nat.mod_add_mod, h.localTail hne]
    congr 1
    omega

end Mailbox

/-! ## The mailbox as a queue of mails -/

/-- The mail that is being written. -/
def Writer.held : Writer → List Mail
  | .idle => []
  | .checked mail | .header mail | .body mail => [mail]

/-- The bytes of it that are in the ring. -/
def Writer.ahead : Writer → List UInt8
  | .idle | .checked _ => []
  | .header mail => serializeHeader mail.msgUid mail.body.length
  | .body mail => mail.bytes

namespace MailboxUse

/-- The mails that are accepted and not read. -/
def pending (s : MailboxUse) : List Mail := s.accepted.drop s.received.length

/-- The bytes that are not read, of which the reader may have the first header. -/
def unread (s : MailboxUse) : List UInt8 :=
  match s.reader with
  | .idle => s.pending.flatMap Mail.bytes
  | .header _ _ => (s.pending.flatMap Mail.bytes).drop headerSize

/-- What the claim of a FIFO is in a state. -/
structure Fifo (s : MailboxUse) : Prop where
  inOrder : s.received <+: s.accepted
  kept : RingQueues.contents s.box.data s.box.size s.box.head
    ((s.box.tail + s.box.size - s.box.head) % s.box.size) = s.unread
  empty_iff : s.reader = .idle → (s.box.head = s.box.tail ↔ s.received = s.accepted)
  head_lt : s.box.head < s.box.size
  tail_lt : s.box.tail < s.box.size
  head_dvd : 4 ∣ s.box.head
  tail_dvd : 4 ∣ s.box.tail
  refused : ∀ mail, s.writer = .idle → s.box.hasSpace (mail.body.length % 2 ^ 16 + headerSize) = false →
    ∃ s', s.step (.check mail) = some s' ∧ s'.box = s.box ∧ s'.accepted = s.accepted

/-- A mail that may be written. -/
def Fits (s : MailboxUse) (mail : Mail) : Prop :=
  mail.body.length % 4 = 0 ∧ mail.body.length < 2 ^ 16 ∧ al5GetMailAllocSize mail.body.length ≤ s.mailSize

/-- The invariant of both sides. -/
structure Inv (s : MailboxUse) : Prop where
  holds : s.box.Holds s.unread s.writer.ahead
  inOrder : s.accepted = s.received ++ s.pending
  room : ∀ mail ∈ s.writer.held, s.unread.length + mail.bytes.length + 4 ≤ s.box.size
  fits : ∀ mail ∈ s.pending ++ s.writer.held, s.Fits mail
  reading : ∀ msgUid bodySize, s.reader = .header msgUid bodySize →
    ∃ mail rest, s.pending = mail :: rest ∧ msgUid = mail.msgUid ∧ bodySize = mail.body.length

variable {s s' : MailboxUse} {mail : Mail}

theorem length_bytes : mail.bytes.length = 4 + mail.body.length := by
  rw [Mail.bytes, List.length_append, length_serializeHeader]

theorem unread_idle (h : s.reader = .idle) : s.unread = s.pending.flatMap Mail.bytes := by
  unfold unread
  rw [h]

theorem Inv.empty_iff (h : s.Inv) (hidle : s.reader = .idle) : s.box.head = s.box.tail ↔ s.pending = [] := by
  have hroom := h.holds.room
  have hlt := h.holds.head_lt
  have hunread := unread_idle hidle
  rw [h.holds.tail_eq]
  constructor
  · intro heq
    cases hp : s.pending with
    | nil => rfl
    | cons mail rest =>
      -- an unread mail keeps the indices apart
      have hpos : 4 ≤ s.unread.length := by
        rw [hunread, hp, List.flatMap_cons, List.length_append, length_bytes]
        omega
      have hne : (s.box.head + 0) % s.box.size ≠ (s.box.head + s.unread.length) % s.box.size :=
        RingQueues.mod_ne (by omega) (by omega)
      rw [Nat.add_zero, Nat.mod_eq_of_lt hlt] at hne
      exact absurd heq hne
  · intro hnil
    rw [hunread, hnil, List.flatMap_nil, List.length_nil, Nat.add_zero, Nat.mod_eq_of_lt hlt]

theorem Inv.fifo (h : s.Inv) : s.Fifo := by
  have hroom := h.holds.room
  have hlt := h.holds.head_lt
  have hused : (s.box.tail + s.box.size - s.box.head) % s.box.size = s.unread.length := by
    have hdist := RingQueues.distance_mod s.box.head s.unread.length s.box.size
    rwa [Nat.mod_eq_of_lt hlt, ← h.holds.tail_eq, Nat.mod_eq_of_lt (a := s.unread.length) (by omega)] at hdist
  refine ⟨⟨s.pending, h.inOrder.symm⟩, ?_, fun hidle => ?_, hlt, ?_, h.holds.head_dvd, ?_, ?_⟩
  · have hcontents := congrArg (List.take s.unread.length) h.holds.contents
    rwa [List.take_left' rfl, RingQueues.contents_take (Nat.le_add_right _ _), ← hused] at hcontents
  · rw [h.empty_iff hidle]
    constructor
    · intro hnil
      rw [h.inOrder, hnil, List.append_nil]
    · intro heq
      have hlen := congrArg List.length h.inOrder
      rw [List.length_append, heq] at hlen
      exact List.eq_nil_of_length_eq_zero (by omega)
  · rw [h.holds.tail_eq]
    exact Nat.mod_lt _ h.holds.sized.pos
  · rw [h.holds.tail_eq]
    exact h.holds.index_dvd h.holds.unread_dvd
  · intro mail hidle hno
    refine ⟨s, ?_, rfl, rfl⟩
    unfold step
    rw [hidle]
    dsimp only
    rw [hno]
    rfl

/-! ## The writer -/

theorem Inv.check (h : s.Inv) (ha : s.Allowed (.check mail)) (hs : s.step (.check mail) = some s') : s'.Inv := by
  have hroom := h.holds.room
  obtain ⟨h4, hlt, hsize⟩ := ha
  unfold step at hs
  dsimp only at hs
  split at hs
  · next hidle =>
    split at hs
    · next hspace =>
      obtain rfl := Option.some.inj hs
      have hholds := h.holds
      have hfits := h.fits
      rw [hidle] at hholds hfits
      rw [Nat.mod_eq_of_lt hlt, Mailbox.hasSpace_iff h.holds.sized h.holds.head_lt (by omega) h.holds.tail_eq
        (by unfold headerSize; omega)] at hspace
      refine ⟨hholds, h.inOrder, fun m hm => ?_, fun m hm => ?_, h.reading⟩
      · obtain rfl := List.mem_singleton.mp hm
        rw [length_bytes]
        unfold headerSize at hspace
        show s.unread.length + _ + 4 ≤ s.box.size
        omega
      · rcases List.mem_append.mp hm with hm | hm
        · exact hfits m (List.mem_append_left _ hm)
        · obtain rfl := List.mem_singleton.mp hm
          exact ⟨h4, hlt, hsize⟩
    · obtain rfl := Option.some.inj hs
      exact h
  · exact absurd hs (Option.some_ne_none s').symm

theorem Inv.writeHeader (h : s.Inv) (hs : s.step .writeHeader = some s') : s'.Inv := by
  unfold step at hs
  dsimp only at hs
  split at hs
  · next mail hw =>
    obtain rfl := Option.some.inj hs
    have hmem : mail ∈ s.writer.held := by
      rw [hw]
      exact List.mem_singleton_self mail
    have hholds := h.holds
    have hroom := h.room
    have hfits := h.fits
    have hlen := (h.fits mail (List.mem_append_right _ hmem)).2.1
    have hspace := h.room mail hmem
    rw [hw] at hholds hroom hfits
    rw [length_bytes] at hspace
    rw [Nat.mod_eq_of_lt hlen]
    refine ⟨?_, h.inOrder, fun m hm => ?_, hfits, h.reading⟩
    · apply hholds.writeFirst
      · exact dvd_refl 4
      · rw [length_serializeHeader]
        omega
    · dsimp only
      rw [Mailbox.size_writeData]
      exact hroom m hm
  · exact absurd hs (Option.some_ne_none s').symm

theorem Inv.writeBody (h : s.Inv) (hs : s.step .writeBody = some s') : s'.Inv := by
  unfold step at hs
  dsimp only at hs
  split at hs
  · next mail hw =>
    obtain rfl := Option.some.inj hs
    have hmem : mail ∈ s.writer.held := by
      rw [hw]
      exact List.mem_singleton_self mail
    have hholds := h.holds
    have hroom := h.room
    have hfits := h.fits
    have hfit := h.fits mail (List.mem_append_right _ hmem)
    have hspace := h.room mail hmem
    rw [hw] at hholds hroom hfits
    rw [Nat.mod_eq_of_lt hfit.2.1, List.take_length]
    refine ⟨?_, h.inOrder, fun m hm => ?_, hfits, h.reading⟩
    · apply hholds.write
      · exact List.cons_ne_nil _ _
      · exact Nat.dvd_of_mod_eq_zero hfit.1
      · exact hspace
    · dsimp only
      rw [Mailbox.size_writeData]
      exact hroom m hm
  · exact absurd hs (Option.some_ne_none s').symm

theorem Inv.pushTail (h : s.Inv) (hs : s.step .pushTail = some s') : s'.Inv := by
  unfold step at hs
  dsimp only at hs
  split at hs
  · next mail hw =>
    obtain rfl := Option.some.inj hs
    have hholds := h.holds
    have hfits := h.fits
    rw [hw] at hholds hfits
    have hpending : (s.accepted ++ [mail]).drop s.received.length = s.pending ++ [mail] := by
      apply List.drop_append_of_le_length
      rw [h.inOrder, List.length_append]
      exact Nat.le_add_right _ _
    have hunread : unread { s with
        box := s.box.pushTail
        writer := .idle
        accepted := s.accepted ++ [mail] } = s.unread ++ mail.bytes := by
      unfold unread pending
      dsimp only
      rw [hpending]
      cases hr : s.reader with
      | idle =>
        dsimp only
        rw [List.flatMap_append, List.flatMap_singleton]
        rfl
      | header msgUid bodySize =>
        obtain ⟨first, rest, hp, -, -⟩ := h.reading msgUid bodySize hr
        dsimp only
        rw [List.flatMap_append, List.flatMap_singleton, List.drop_append_of_le_length]
        · rfl
        · rw [hp, List.flatMap_cons, List.length_append, length_bytes]
          unfold headerSize
          omega
    refine ⟨?_, ?_, nofun, fun m hm => ?_, fun msgUid bodySize hr => ?_⟩
    · rw [hunread]
      apply hholds.push
      exact List.cons_ne_nil _ _
    · show s.accepted ++ [mail] = s.received ++ (s.accepted ++ [mail]).drop s.received.length
      rw [hpending, ← List.append_assoc, ← h.inOrder]
    · apply hfits
      have hm : m ∈ (s.accepted ++ [mail]).drop s.received.length := by simpa [Writer.held, pending] using hm
      rwa [hpending] at hm
    · obtain ⟨first, rest, hp, huid, hlen⟩ := h.reading msgUid bodySize hr
      refine ⟨first, rest ++ [mail], ?_, huid, hlen⟩
      show (s.accepted ++ [mail]).drop s.received.length = _
      rw [hpending, hp, List.cons_append]
  · exact absurd hs (Option.some_ne_none s').symm

/-! ## The reader -/

theorem Inv.readHeader (h : s.Inv) (ha : s.Allowed .readHeader) (hs : s.step .readHeader = some s') : s'.Inv := by
  unfold step at hs
  dsimp only at hs
  split at hs
  · next hidle =>
    have hne : s.pending ≠ [] := mt (h.empty_iff hidle).mpr ha
    obtain ⟨mail, rest, hp⟩ := List.exists_cons_of_ne_nil hne
    have hunread := unread_idle hidle
    rw [hp, List.flatMap_cons] at hunread
    have hfit := h.fits mail (by rw [hp]; exact List.mem_append_left _ List.mem_cons_self)
    have hlen : headerSize ≤ s.unread.length := by
      rw [hunread, List.length_append, length_bytes]
      unfold headerSize
      omega
    obtain ⟨hheader, hholds⟩ := h.holds.read hlen (dvd_refl 4)
    have hfirst : s.unread.take headerSize = serializeHeader mail.msgUid mail.body.length := by
      rw [hunread]
      rfl
    rw [hheader, hfirst, unserializeBodySize_serializeHeader mail.msgUid hfit.2.1,
      unserializeMsgUid_serializeHeader, if_neg (not_lt.mpr hfit.2.2)] at hs
    obtain rfl := Option.some.inj hs
    refine ⟨?_, h.inOrder, fun m hm => ?_, h.fits, fun msgUid bodySize hr => ?_⟩
    · show (s.box.readData headerSize).2.Holds ((s.pending.flatMap Mail.bytes).drop headerSize) _
      rw [← unread_idle hidle]
      exact hholds
    · have hroom := h.room m hm
      show ((s.pending.flatMap Mail.bytes).drop headerSize).length + _ + 4 ≤ (s.box.readData headerSize).2.size
      rw [← unread_idle hidle, List.length_drop, Mailbox.size_readData]
      omega
    · obtain ⟨rfl, rfl⟩ := Reader.header.inj hr
      exact ⟨mail, rest, hp, rfl, rfl⟩
  · exact absurd hs (Option.some_ne_none s').symm

theorem Inv.readBody (h : s.Inv) (hs : s.step .readBody = some s') : s'.Inv := by
  unfold step at hs
  dsimp only at hs
  split at hs
  · next msgUid bodySize hr =>
    obtain rfl := Option.some.inj hs
    obtain ⟨mail, rest, hp, rfl, rfl⟩ := h.reading msgUid bodySize hr
    have hunread : s.unread = mail.body ++ rest.flatMap Mail.bytes := by
      unfold unread
      rw [hr, hp]
      rfl
    have hfit := h.fits mail (by rw [hp]; exact List.mem_append_left _ List.mem_cons_self)
    have hlen : mail.body.length ≤ s.unread.length := by
      rw [hunread, List.length_append]
      exact Nat.le_add_right _ _
    obtain ⟨hbody, hholds⟩ := h.holds.read hlen (Nat.dvd_of_mod_eq_zero hfit.1)
    rw [hunread, List.take_left' rfl] at hbody
    rw [hunread, List.drop_left' rfl] at hholds
    have hreceived : s.received ++ [⟨mail.msgUid, (s.box.readData mail.body.length).1⟩] = s.received ++ [mail] := by
      rw [hbody]
    have hinOrder : s.accepted = (s.received ++ [mail]) ++ rest := by
      rw [h.inOrder, hp, List.append_cons]
    have hpending : s.accepted.drop (s.received ++ [mail]).length = rest := by
      rw [hinOrder, List.drop_left' rfl]
    refine ⟨?_, ?_, fun m hm => ?_, fun m hm => ?_, nofun⟩
    · show (s.box.readData mail.body.length).2.Holds ((s.accepted.drop _).flatMap Mail.bytes) _
      rw [hreceived, hpending]
      exact hholds
    · show s.accepted = (s.received ++ [_]) ++ s.accepted.drop _
      rw [hreceived, hpending]
      exact hinOrder
    · have hroom := h.room m hm
      show ((s.accepted.drop _).flatMap Mail.bytes).length + _ + 4 ≤ (s.box.readData mail.body.length).2.size
      rw [hreceived, hpending, Mailbox.size_readData]
      rw [hunread, List.length_append] at hroom
      omega
    · apply h.fits
      have hm : m ∈ s.accepted.drop (s.received ++ [_]).length ++ s.writer.held := hm
      rw [hreceived, hpending] at hm
      rw [hp, List.cons_append]
      exact List.mem_cons_of_mem mail hm
  · exact absurd hs (Option.some_ne_none s').symm

/-! ## Every run -/

theorem Inv.step (h : s.Inv) {op : MailboxOp} (ha : s.Allowed op) (hs : s.step op = some s') : s'.Inv := by
  cases op with
  | check mail => exact h.check ha hs
  | writeHeader => exact h.writeHeader hs
  | writeBody => exact h.writeBody hs
  | pushTail => exact h.pushTail hs
  | readHeader => exact h.readHeader ha hs
  | readBody => exact h.readBody hs

theorem start_inv {size : ℕ} (mailSize : ℕ) (data : ℕ → UInt8) (hpos : 0 < size) (h4 : 4 ∣ size)
    (hle : size ≤ 2 ^ 16) : (start size mailSize data).Inv := by
  have hroom : 0 + 0 + 4 ≤ size := by omega
  exact ⟨⟨⟨hpos, h4, hle⟩, hpos, dvd_zero 4, dvd_zero 4, dvd_zero 4, (Nat.zero_mod size).symm, hroom, rfl,
    fun h => absurd rfl h⟩, rfl, nofun, nofun, nofun⟩

/-- What a whole call of `al5_mailbox_write` leaves of the mailbox. -/
def written (box : Mailbox) (mail : Mail) : Mailbox :=
  ((box.pullTail.writeData (serializeHeader mail.msgUid (mail.body.length % 2 ^ 16))).writeData
    (mail.body.take (mail.body.length % 2 ^ 16))).pushTail

variable {box : Mailbox}

theorem size_written : (written box mail).size = box.size := by
  show ((box.pullTail.writeData _).writeData _).size = box.size
  rw [Mailbox.size_writeData, Mailbox.size_writeData]
  rfl

theorem head_written : (written box mail).head = box.head := by
  show ((box.pullTail.writeData _).writeData _).head = box.head
  rw [Mailbox.head_writeData, Mailbox.head_writeData]
  rfl

theorem tail_written {next : ℕ} (hlt : mail.body.length < 2 ^ 16) (h4 : 4 ∣ mail.body.length)
    (htail4 : 4 ∣ box.tail) (htail : box.tail < 2 ^ 16) (hheader : box.tail + 4 ≤ box.size)
    (hnext : (box.tail + 4) % box.size % 2 ^ 16 = next) (hnext4 : 4 ∣ next)
    (hbody : next + mail.body.length ≤ box.size) :
    (written box mail).tail = (next + mail.body.length) % box.size % 2 ^ 16 := by
  have hpull : box.pullTail.localTail = box.tail := Nat.mod_eq_of_lt htail
  have hfirst : (box.pullTail.writeData (serializeHeader mail.msgUid mail.body.length)).localTail = next := by
    rw [Mailbox.localTail_writeData, hpull, length_serializeHeader]
    · exact hnext
    · rw [hpull, length_serializeHeader]
      omega
    · rw [hpull, length_serializeHeader]
      exact hheader
    · rw [hpull, length_serializeHeader]
      omega
  show ((box.pullTail.writeData _).writeData _).localTail = _
  rw [Nat.mod_eq_of_lt hlt, List.take_length, Mailbox.localTail_writeData, hfirst, Mailbox.size_writeData]
  · rfl
  · rw [hfirst]
    omega
  · rw [hfirst, Mailbox.size_writeData]
    exact hbody
  · rw [hfirst]
    have hmod := Nat.mod_lt ((box.tail + 4) % box.size) (show 0 < 2 ^ 16 by decide)
    omega

/-- The state behind such a call. -/
def wrote (s : MailboxUse) (mail : Mail) : MailboxUse :=
  { s with
    box := written s.box mail
    accepted := s.accepted ++ [mail] }

/-- The four steps of a call of `al5_mailbox_write`. -/
def writeCall (mail : Mail) : List MailboxOp := [.check mail, .writeHeader, .writeBody, .pushTail]

theorem step_check (hidle : s.writer = .idle)
    (hspace : s.box.hasSpace (mail.body.length % 2 ^ 16 + headerSize) = true) :
    s.step (.check mail) = some { s with writer := .checked mail } := by
  unfold step
  rw [hidle]
  dsimp only
  rw [hspace, if_pos rfl]

variable {ops : List MailboxOp}

theorem run_writeCall (hidle : s.writer = .idle)
    (hspace : s.box.hasSpace (mail.body.length % 2 ^ 16 + headerSize) = true) :
    GuardedRuns.run step (writeCall mail ++ ops) s = GuardedRuns.run step ops (s.wrote mail) := by
  have hcheck := step_check hidle hspace
  obtain ⟨box, mailSize, writer, reader, accepted, received⟩ := s
  obtain rfl : writer = .idle := hidle
  show (step _ (.check mail)).bind _ = _
  rw [hcheck]
  rfl

theorem guarded_writeCall (hidle : s.writer = .idle) (hfits : s.Fits mail)
    (hspace : s.box.hasSpace (mail.body.length % 2 ^ 16 + headerSize) = true)
    (h : GuardedRuns.Guarded step Allowed ops (s.wrote mail)) :
    GuardedRuns.Guarded step Allowed (writeCall mail ++ ops) s := by
  have hcheck := step_check hidle hspace
  obtain ⟨box, mailSize, writer, reader, accepted, received⟩ := s
  obtain rfl : writer = .idle := hidle
  refine ⟨hfits, fun s₁ h₁ => ⟨trivial, fun s₂ h₂ => ⟨trivial, fun s₃ h₃ => ⟨trivial, fun s₄ h₄ => ?_⟩⟩⟩⟩
  rw [hcheck] at h₁
  obtain rfl := Option.some.inj h₁
  obtain rfl := Option.some.inj h₂
  obtain rfl := Option.some.inj h₃
  obtain rfl := Option.some.inj h₄
  exact h

theorem hasSpace_of_le {total : ℕ} (hle : box.head ≤ box.tail)
    (hroom : box.tail - box.head + total + 4 ≤ box.size) (hsize : box.size < 2 ^ 64) :
    box.hasSpace total = true := by
  unfold Mailbox.hasSpace Mailbox.notEnoughSpaceInMailbox
  dsimp only
  rw [if_pos hle,
    show ((box.size : ℤ) - (box.tail - box.head : ℕ)) = ((box.size - (box.tail - box.head) : ℕ) : ℤ) by omega,
    show ((total : ℤ) + 4) = ((total + 4 : ℕ) : ℤ) by omega, toSizeT_of_lt (by omega), toSizeT_of_lt (by omega),
    Bool.not_eq_true', decide_eq_false_iff_not]
  omega

section LongMails

variable {size mailSize : ℕ} (data : ℕ → UInt8)

theorem tail_longMail (hlen : mail.body.length = 65528) (hlt : 65540 ≤ size) :
    (written (.init size data) mail).tail = 65532 := by
  have hmod : (0 + 4) % size % 2 ^ 16 = 4 := by
    rw [Nat.zero_add, Nat.mod_eq_of_lt (a := 4) (by omega)]
    rfl
  rw [tail_written (by omega) (by omega) (dvd_zero 4) (Nat.two_pow_pos 16) (show 0 + 4 ≤ size by omega) hmod (dvd_refl 4),
    hlen]
  · show 65532 % size % 2 ^ 16 = 65532
    rw [Nat.mod_eq_of_lt (a := 65532) (by omega)]
    rfl
  · rw [hlen]
    show 4 + 65528 ≤ size
    omega

/-- A mail without a body, whose header ends at 2^16. -/
def emptyMail : Mail := ⟨0, []⟩

theorem tail_emptyMail {box : Mailbox} (htail : box.tail = 65532) (hlt : 65540 ≤ box.size) :
    (written box emptyMail).tail = 0 := by
  have hmod : (box.tail + 4) % box.size % 2 ^ 16 = 0 := by
    rw [htail, Nat.mod_eq_of_lt (a := 65532 + 4) (by omega)]
    rfl
  rw [@tail_written emptyMail box 0 (Nat.two_pow_pos 16) (dvd_zero 4) (by omega) (by omega) (by omega) hmod (dvd_zero 4)
    (Nat.zero_le _)]
  show (0 + 0) % box.size % 2 ^ 16 = 0
  rw [Nat.zero_mod, Nat.zero_mod]

/-- In a mailbox of more than 2^16 bytes the writer loses an offset. -/
theorem longMails_end (hlen : mail.body.length = 65528) (hlt : 65540 ≤ size) (hsize : size < 2 ^ 64)
    (hmail : al5GetMailAllocSize 65528 ≤ mailSize) :
    GuardedRuns.Guarded step Allowed (writeCall mail ++ (writeCall emptyMail ++ [])) (start size mailSize data) ∧
      ∃ s, GuardedRuns.run step (writeCall mail ++ (writeCall emptyMail ++ [])) (start size mailSize data) = some s ∧
        s.reader = .idle ∧ s.box.head = s.box.tail ∧ s.received ≠ s.accepted := by
  have hfirst := tail_longMail data hlen hlt
  have hroom₁ : (Mailbox.init size data).hasSpace (mail.body.length % 2 ^ 16 + headerSize) = true := by
    apply hasSpace_of_le le_rfl _ hsize
    rw [hlen]
    show 0 - 0 + (65528 % 2 ^ 16 + 4) + 4 ≤ size
    omega
  have hroom₂ : (written (.init size data) mail).hasSpace (emptyMail.body.length % 2 ^ 16 + headerSize) = true := by
    apply hasSpace_of_le
    · rw [head_written]
      exact Nat.zero_le _
    · rw [head_written, hfirst, size_written]
      show 65532 - 0 + (0 % 2 ^ 16 + 4) + 4 ≤ size
      omega
    · rw [size_written]
      exact hsize
  have hfits : (start size mailSize data).Fits mail := by
    unfold Fits
    rw [hlen]
    exact ⟨rfl, by omega, hmail⟩
  have hempty : ((start size mailSize data).wrote mail).Fits emptyMail :=
    ⟨rfl, Nat.two_pow_pos 16, (Nat.le_add_right 16 65528).trans hmail⟩
  have hidle : (start size mailSize data).writer = .idle := rfl
  have hidle' : ((start size mailSize data).wrote mail).writer = .idle := rfl
  constructor
  · apply guarded_writeCall hidle hfits hroom₁
    apply guarded_writeCall hidle' hempty hroom₂
    trivial
  · refine ⟨((start size mailSize data).wrote mail).wrote emptyMail, ?_, rfl, ?_, ?_⟩
    · rw [run_writeCall hidle hroom₁, run_writeCall hidle' hroom₂]
      rfl
    · have htail : (written (written (.init size data) mail) emptyMail).tail = 0 := by
        apply tail_emptyMail hfirst
        rw [size_written]
        exact hlt
      show (written (written (.init size data) mail) emptyMail).head = _
      rw [head_written, head_written]
      exact htail.symm
    · exact (List.cons_ne_nil _ _).symm

end LongMails

/-- A mailbox is a FIFO in every run exactly if its offsets fit into 16 bits. -/
theorem fifo_iff {size : ℕ} (h4 : 4 ∣ size) (hsize : size < 2 ^ 64) :
    (∀ (mailSize : ℕ) (data : ℕ → UInt8) (ops : List MailboxOp) (s : MailboxUse),
      GuardedRuns.Guarded step Allowed ops (start size mailSize data) →
      GuardedRuns.run step ops (start size mailSize data) = some s → s.Fifo) ↔
      0 < size ∧ size ≤ 2 ^ 16 := by
  constructor
  · intro h
    constructor
    · exact (Nat.zero_le _).trans_lt (h 0 (fun _ => 0) [] _ trivial rfl).head_lt
    · by_contra hlt
      have hlen : (Mail.mk 0 (List.replicate 65528 0)).body.length = 65528 := List.length_replicate
      obtain ⟨hg, s, hrun, hidle, heq, hne⟩ := longMails_end (fun _ => 0) hlen (by omega) hsize le_rfl
      exact hne (((h _ _ _ s hg hrun).empty_iff hidle).mp heq)
  · rintro ⟨hpos, hle⟩ mailSize data ops s hg hrun
    have hinv : s.Inv := GuardedRuns.invariant_of_run (fun s op s' hi ha hs => Inv.step hi ha hs)
      (start_inv mailSize data hpos h4 hle) hg hrun
    exact hinv.fifo

theorem fifo_sixtyFour : (∀ (mailSize : ℕ) (data : ℕ → UInt8) (ops : List MailboxOp) (s : MailboxUse),
    GuardedRuns.Guarded step Allowed ops (start 64 mailSize data) →
    GuardedRuns.run step ops (start 64 mailSize data) = some s → s.Fifo) ↔ 0 < 64 ∧ 64 ≤ 2 ^ 16 :=
  fifo_iff (by decide) (by decide)

/-- With 65540 bytes the mailbox looks empty when two mails are pending. -/
theorem not_fifo : ¬ ∀ (size mailSize : ℕ) (data : ℕ → UInt8) (ops : List MailboxOp) (s : MailboxUse),
    4 ∣ size → GuardedRuns.Guarded step Allowed ops (start size mailSize data) →
    GuardedRuns.run step ops (start size mailSize data) = some s → s.Fifo := by
  intro h
  have hlen : (Mail.mk 0 (List.replicate 65528 0)).body.length = 65528 := List.length_replicate
  obtain ⟨hg, s, hrun, hidle, heq, hne⟩ := longMails_end (fun _ => 0) hlen le_rfl (by decide) le_rfl
  exact hne (((h _ _ _ _ s (by decide) hg hrun).empty_iff hidle).mp heq)

end MailboxUse

end VcuCodec
