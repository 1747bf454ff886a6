import VcuCodec.SyntaxElements
import Mathlib.Data.List.DropRight
import Mathlib.Data.List.Infix

/-!
# The hand-over of the stream to the hardware

`lib_decode/NalUnitParser.c`.  Behind the slice header the decoder moves the
circular buffer on: the header is as long as its payload bytes and the emulation
prevention bytes among them, and the last three bytes stay, with the number of
their bits that are parsed.  The scratch memory of the other NAL units is as long
as the NAL unit up to the next start code.
-/

namespace VcuCodec

/-! ## The code -/

/-- The loop of `AL_sCount_AntiEmulBytes`, `remaining` bytes before `uEnd`. -/
def countAntiEmulLoop (read : ℕ → UInt8) (remaining uRead uZeroBytesCount uSCDetect : ℕ) : ℕ :=
  if remaining = 0 then 0
  else if uZeroBytesCount = 2 ∧ read uRead = 3 then
    -- `++uEnd` goes with `++uRead`
    1 + countAntiEmulLoop read remaining (uRead + 1) 0 uSCDetect
  else
    let uSCDetect :=
      if 2 ≤ uZeroBytesCount ∧ read uRead = 1 then (uSCDetect + 1) % 2 ^ 8 else uSCDetect
    if 2 ≤ uZeroBytesCount ∧ read uRead = 1 ∧ uSCDetect = 2 then 0
    else
      countAntiEmulLoop read (remaining - 1) (uRead + 1)
        (if read uRead = 0 then uZeroBytesCount + 1 else 0) uSCDetect
termination_by 2 * remaining + if uZeroBytesCount = 2 then 1 else 0
decreasing_by
  · simp_all
  · split <;> split <;> omega

/-- `pBuf[uRead % uSize]`. -/
def CircBuffer.byteAt (pStream : CircBuffer) (uRead : ℕ) : UInt8 :=
  pStream.pVirtualAddr (uRead % pStream.uSize)

/-- `AL_sCount_AntiEmulBytes`. -/
def countAntiEmulBytes (pStream : CircBuffer) (uLength : ℕ) : ℕ :=
  countAntiEmulLoop pStream.byteAt uLength pStream.iOffset 0 0

def getSliceHdrSize (pRP : RbspParser) (pBufStream : CircBuffer) : ℕ :=
  let uLengthNAL := (pRP.iTotalBitIndex + 7) / 8
  uLengthNAL + countAntiEmulBytes pBufStream uLengthNAL

/-- `UpdateCircBuffer`: the buffer and `*pSliceHdrLength`. -/
def updateCircBuffer (pRP : RbspParser) (pBufStream : CircBuffer) : CircBuffer × ℕ :=
  let uLengthNAL := getSliceHdrSize pRP pBufStream
  let sliceHdrLength := if pRP.iTotalBitIndex % 8 ≠ 0 then 16 + pRP.iTotalBitIndex % 8 else 24
  let uLengthNAL := uLengthNAL - (sliceHdrLength + 7) / 8
  ({ pBufStream with
    iAvailSize := pBufStream.iAvailSize - uLengthNAL
    iOffset := (pBufStream.iOffset + uLengthNAL) % pBufStream.uSize }, sliceHdrLength)

/-- The loop of `GetNonVclSize`. -/
def nonVclLoop (read : ℕ → UInt8) : (left i iNumZeros iNumNALFound uLengthNAL : ℕ) → ℕ
  | 0, _, _, _, uLengthNAL => uLengthNAL
  | left + 1, i, iNumZeros, iNumNALFound, uLengthNAL =>
    if 2 ≤ iNumZeros ∧ read i = 1 then
      if iNumNALFound + 1 = 2 then uLengthNAL - iNumZeros
      else nonVclLoop read left (i + 1) 0 (iNumNALFound + 1) (uLengthNAL + 1)
    else
      nonVclLoop read left (i + 1) (if read i = 0 then iNumZeros + 1 else 0) iNumNALFound
        (uLengthNAL + 1)

def getNonVclSize (pBufStream : CircBuffer) : ℕ :=
  let uLengthNAL := nonVclLoop pBufStream.byteAt pBufStream.iAvailSize pBufStream.iOffset 0 0 0
  (uLengthNAL + ANTI_EMUL_GRANULARITY - 1) / ANTI_EMUL_GRANULARITY * ANTI_EMUL_GRANULARITY

/-! ## Positions in the raw data -/

/-- The bytes from the offset on. -/
def CircBuffer.raw (pStream : CircBuffer) : List UInt8 :=
  (List.range pStream.iAvailSize).map fun k => pStream.byteAt (pStream.iOffset + k)

theorem CircBuffer.length_raw (pStream : CircBuffer) :
    pStream.raw.length = pStream.iAvailSize := by
  simp [raw]

theorem CircBuffer.getElem_raw (pStream : CircBuffer) {k : ℕ} (h : k < pStream.raw.length) :
    pStream.raw[k] = pStream.byteAt (pStream.iOffset + k) := by
  simp [raw]

theorem RbspParser.pending_init (pStream : CircBuffer) (pBuffer : ℕ → UInt8) :
    (init pStream pBuffer true).pending = deemulate true 0 0 pStream.raw :=
  pending_eq (Nat.zero_le 1)

/-- The fetch stores byte `k` of the raw data as byte `i` of the payload. -/
structure StoredAs (raw : List UInt8) (k i : ℕ) : Prop where
  inside : k < raw.length
  fetched : i < (deemulate true 0 0 raw).length
  before : deemulate true 0 0 (raw.take k) = (deemulate true 0 0 raw).take i
  behind : deemulate true 0 0 (raw.take (k + 1)) = (deemulate true 0 0 raw).take (i + 1)

/-- `zeros` zero bytes and then `bs`: the run of zero bytes fits in the counter of
the fetch. -/
def NoLongRun (zeros : ℕ) (bs : List UInt8) : Prop :=
  ¬List.replicate 256 0 <:+: List.replicate zeros 0 ++ bs

namespace NoLongRun

variable {zeros : ℕ} {b : UInt8} {bs : List UInt8}

theorem zeros_lt (h : NoLongRun zeros bs) : zeros < 256 := by
  by_contra hge
  apply h
  obtain ⟨n, rfl⟩ : ∃ n, zeros = 256 + n := ⟨zeros - 256, by omega⟩
  rw [List.replicate_add, List.append_assoc]
  exact (List.prefix_append _ _).isInfix

theorem afterZero (h : NoLongRun zeros (0 :: bs)) : NoLongRun (zeros + 1) bs := by
  have hsplit : List.replicate (zeros + 1) 0 ++ bs = List.replicate zeros 0 ++ 0 :: bs := by
    rw [List.replicate_succ', List.append_assoc, List.singleton_append]
  unfold NoLongRun
  rwa [hsplit]

theorem afterOther (h : NoLongRun zeros (b :: bs)) : NoLongRun 0 bs := by
  intro hrun
  apply h
  have hsuffix : bs <:+ List.replicate zeros 0 ++ b :: bs :=
    (List.suffix_cons b bs).trans (List.suffix_append _ _)
  exact hrun.trans hsuffix.isInfix

theorem after (h : NoLongRun zeros (b :: bs)) : NoLongRun (if b = 0 then zeros + 1 else 0) bs := by
  split
  · next hb =>
    subst hb
    exact h.afterZero
  · exact h.afterOther

end NoLongRun

theorem zeros_mod {zeros : ℕ} {b : UInt8} {bs : List UInt8} (h : NoLongRun zeros (b :: bs)) :
    (if b = 0 then (zeros + 1) % 2 ^ 8 else 0) = if b = 0 then zeros + 1 else 0 := by
  split
  · next hb =>
    subst hb
    exact Nat.mod_eq_of_lt h.afterZero.zeros_lt
  · rfl

/-- The count sees the emulation prevention bytes that the fetch removes: behind
`remaining` stored bytes it is as far in the raw data as the fetch is. -/
theorem countAntiEmulLoop_spec (read : ℕ → UInt8) {bs : List UInt8} {zeros : ℕ}
    (starts uRead remaining : ℕ) (hrun : NoLongRun zeros bs)
    (hread : ∀ i (h : i < bs.length), read (uRead + i) = bs[i])
    (hfetched : remaining + 1 ≤ (deemulate true zeros starts bs).length) :
    ∃ k, k < bs.length ∧
      remaining + countAntiEmulLoop read (remaining + 1) uRead zeros starts = k ∧
      deemulate true zeros starts (bs.take k) = (deemulate true zeros starts bs).take remaining ∧
      deemulate true zeros starts (bs.take (k + 1)) =
        (deemulate true zeros starts bs).take (remaining + 1) := by
  induction bs generalizing zeros starts uRead remaining with
  | nil => simp [deemulate] at hfetched
  | cons b bs ih =>
    have hb : read uRead = b := hread 0 (Nat.succ_pos _)
    have hnext : ∀ i (h : i < bs.length), read (uRead + 1 + i) = bs[i] := by
      intro i h
      have := hread (i + 1) (Nat.succ_lt_succ h)
      rwa [List.getElem_cons_succ, Nat.add_comm i, ← Nat.add_assoc] at this
    unfold countAntiEmulLoop
    rw [if_neg (Nat.succ_ne_zero _), hb]
    by_cases hep : zeros = 2 ∧ b = 3
    · -- an emulation prevention byte
      have hskip : ∀ rest, deemulate true zeros starts (b :: rest) = deemulate true 0 starts rest :=
        fun rest => by rw [deemulate, if_pos ⟨rfl, hep.1, hep.2⟩]
      rw [hskip] at hfetched
      obtain ⟨k, hk, hcount, hbefore, hbehind⟩ := ih _ _ _ hrun.afterOther hnext hfetched
      rw [if_pos hep]
      refine ⟨k + 1, Nat.succ_lt_succ hk, by omega, ?_, ?_⟩
      · rw [List.take_succ_cons, hskip, hskip, hbefore]
      · rw [List.take_succ_cons, hskip, hskip, hbehind]
    · rw [if_neg hep]
      dsimp only
      generalize hstarts :
        (if 2 ≤ zeros ∧ b = 1 then (starts + 1) % 2 ^ 8 else starts) = starts' at *
      have hstore : ∀ rest, deemulate true zeros starts (b :: rest) =
          if 2 ≤ zeros ∧ b = 1 ∧ starts' = 2 then []
          else b :: deemulate true (if b = 0 then (zeros + 1) % 2 ^ 8 else 0) starts' rest := by
        intro rest
        rw [deemulate, if_neg (by simpa using hep)]
        simp only [true_and, if_true, hstarts]
      by_cases hend : 2 ≤ zeros ∧ b = 1 ∧ starts' = 2
      · -- nothing is fetched behind the next start code
        rw [hstore, if_pos hend] at hfetched
        exact absurd hfetched (Nat.not_succ_le_zero _)
      · rw [if_neg hend]
        simp only [hstore, if_neg hend, zeros_mod hrun] at hfetched ⊢
        cases remaining with
        | zero =>
          refine ⟨0, Nat.succ_pos _, ?_, by simp [deemulate], ?_⟩
          · unfold countAntiEmulLoop
            rfl
          · rw [List.take_succ_cons, hstore, if_neg hend]
            simp [deemulate]
        | succ remaining =>
          obtain ⟨k, hk, hcount, hbefore, hbehind⟩ :=
            ih _ _ _ hrun.after hnext (Nat.le_of_succ_le_succ hfetched)
          refine ⟨k + 1, Nat.succ_lt_succ hk, ?_, ?_, ?_⟩
          · rw [Nat.add_sub_cancel]
            omega
          · rw [List.take_succ_cons, hstore, if_neg hend, zeros_mod hrun, hbefore, List.take_succ_cons]
          · rw [List.take_succ_cons, hstore, if_neg hend, zeros_mod hrun, hbehind, List.take_succ_cons]

/-! ## The scratch memory -/

/-- The loop does not lose a byte but the zero bytes in front of the next start
code: `fetched` is stored already and ends with the zero bytes counted. -/
theorem nonVclLoop_ge (read : ℕ → UInt8) {bs : List UInt8} {zeros starts : ℕ} (i len : ℕ)
    (front : List UInt8) (hrun : NoLongRun zeros bs) (hstarts : starts ≤ 1)
    (hread : ∀ k (h : k < bs.length), read (i + k) = bs[k])
    (hlen : front.length + zeros ≤ len) :
    ((front ++ List.replicate zeros 0 ++ deemulate true zeros starts bs).rdropWhile
      (· == 0)).length ≤ nonVclLoop read bs.length i zeros starts len := by
  induction bs generalizing zeros starts i len front with
  | nil =>
    unfold nonVclLoop deemulate
    apply (List.rdropWhile_prefix _ _).length_le.trans
    simpa using hlen
  | cons b bs ih =>
    have hb : read i = b := hread 0 (Nat.succ_pos _)
    have hnext : ∀ k (h : k < bs.length), read (i + 1 + k) = bs[k] := by
      intro k h
      have := hread (k + 1) (Nat.succ_lt_succ h)
      rwa [List.getElem_cons_succ, Nat.add_comm k, ← Nat.add_assoc] at this
    rw [List.length_cons, nonVclLoop, hb, deemulate]
    by_cases hep : zeros = 2 ∧ b = 3
    · obtain ⟨rfl, rfl⟩ := hep
      rw [if_pos ⟨rfl, rfl, rfl⟩, if_neg (by decide), if_neg (by decide)]
      have := ih (i + 1) (len + 1) (front ++ List.replicate 2 0) hrun.afterOther hstarts hnext
        (by simp only [List.length_append, List.length_replicate]; omega)
      simpa using this
    rw [if_neg (by simpa using hep)]
    simp only [true_and, if_true, zeros_mod hrun]
    by_cases hsc : 2 ≤ zeros ∧ b = 1
    · rw [if_pos hsc, if_pos hsc, if_neg (show b ≠ 0 by rw [hsc.2]; decide)]
      obtain rfl | rfl : starts = 0 ∨ starts = 1 := by omega
      · rw [if_neg (by simp), if_neg (by simp)]
        have := ih (i + 1) (len + 1) (front ++ List.replicate zeros 0 ++ [b]) hrun.afterOther le_rfl
          hnext
          (by simp only [List.length_append, List.length_replicate, List.length_singleton]; omega)
        simpa using this
      · rw [if_pos ⟨hsc.1, hsc.2, rfl⟩, if_pos rfl]
        have hdrop : (front ++ List.replicate zeros 0).rdropWhile (· == 0) <+: front := by
          rw [List.rdropWhile, List.reverse_append, List.reverse_replicate,
            List.dropWhile_append_of_pos (by simp)]
          exact List.rdropWhile_prefix _ _
        rw [List.append_nil]
        have := hdrop.length_le
        omega
    · rw [if_neg hsc, if_neg hsc, if_neg (by tauto)]
      split
      · next hb0 =>
        subst hb0
        have := ih (i + 1) (len + 1) front hrun.afterZero hstarts hnext (by omega)
        rw [List.replicate_succ'] at this
        simpa using this
      · have := ih (i + 1) (len + 1) (front ++ List.replicate zeros 0 ++ [b]) hrun.afterOther
          hstarts hnext
          (by simp only [List.length_append, List.length_replicate, List.length_singleton]; omega)
        simpa using this

/-! ## The hand-over -/

/-- The buffer behind the hand-over begins two bytes in front of the last parsed byte. -/
theorem updateCircBuffer_raw (c : CircBuffer) (p : RbspParser) {k : ℕ}
    (hk : getSliceHdrSize p c = k + 1) (htwo : 2 ≤ k) :
    (updateCircBuffer p c).1.iOffset = (c.iOffset + (k - 2)) % c.uSize ∧
      (updateCircBuffer p c).1.raw = c.raw.drop (k - 2) ∧
      8 * (k - 2) + (updateCircBuffer p c).2 = 8 * k + ((p.iTotalBitIndex + 7) % 8 + 1) := by
  have hhdr : ∀ bits : ℕ, ((if bits % 8 ≠ 0 then 16 + bits % 8 else 24) + 7) / 8 = 3 := by
    intro bits
    split <;> omega
  have hoffset : (updateCircBuffer p c).1.iOffset = (c.iOffset + (k - 2)) % c.uSize := by
    unfold updateCircBuffer
    dsimp only
    rw [hk, hhdr]
    rfl
  have havail : (updateCircBuffer p c).1.iAvailSize = c.iAvailSize - (k - 2) := by
    unfold updateCircBuffer
    dsimp only
    rw [hk, hhdr]
    rfl
  refine ⟨hoffset, ?_, ?_⟩
  · apply List.ext_getElem
    · rw [List.length_drop, CircBuffer.length_raw, CircBuffer.length_raw, havail]
    · intro i h1 h2
      rw [List.getElem_drop, CircBuffer.getElem_raw, CircBuffer.getElem_raw, hoffset]
      unfold CircBuffer.byteAt
      rw [show (updateCircBuffer p c).1.uSize = c.uSize from rfl, Nat.mod_add_mod, Nat.add_assoc]
      rfl
  · unfold updateCircBuffer
    dsimp only
    split <;> omega

/-- Behind a slice header that ends inside the NAL unit the hardware gets the raw
data from two bytes in front of the last parsed byte on, with the number of its
bits that are parsed; and the scratch memory holds the payload up to its trailing
zero bytes. -/
theorem updateCircBuffer_handsOver (c : CircBuffer) (pBuffer : ℕ → UInt8)
    (hrun : NoLongRun 0 c.raw) :
    (∀ p : RbspParser, 24 ≤ p.iTotalBitIndex →
      p.iTotalBitIndex ≤ 8 * (RbspParser.init c pBuffer true).pending.length →
      ∃ k, StoredAs c.raw k ((p.iTotalBitIndex + 7) / 8 - 1) ∧ 2 ≤ k ∧
        (updateCircBuffer p c).1.iOffset = (c.iOffset + (k - 2)) % c.uSize ∧
        (updateCircBuffer p c).1.raw = c.raw.drop (k - 2) ∧
        8 * (k - 2) + (updateCircBuffer p c).2 = 8 * k + ((p.iTotalBitIndex + 7) % 8 + 1)) ∧
      ((RbspParser.init c pBuffer true).pending.rdropWhile (· == 0)).length ≤ getNonVclSize c := by
  rw [RbspParser.pending_init]
  constructor
  · intro p hlo hhi
    obtain ⟨remaining, hr⟩ : ∃ remaining, (p.iTotalBitIndex + 7) / 8 = remaining + 1 :=
      ⟨(p.iTotalBitIndex + 7) / 8 - 1, by omega⟩
    obtain ⟨k, hk, hcount, hbefore, hbehind⟩ :=
      countAntiEmulLoop_spec c.byteAt 0 c.iOffset remaining hrun
        (fun i h => (c.getElem_raw h).symm) (by omega)
    have hsize : getSliceHdrSize p c = k + 1 := by
      unfold getSliceHdrSize countAntiEmulBytes
      dsimp only
      rw [hr]
      omega
    refine ⟨k, ⟨hk, by omega, ?_, ?_⟩, by omega, updateCircBuffer_raw c p hsize (by omega)⟩
    · rw [hr, Nat.add_sub_cancel]
      exact hbefore
    · rw [hr, Nat.add_sub_cancel]
      exact hbehind
  · have hge := nonVclLoop_ge c.byteAt c.iOffset 0 [] hrun (Nat.zero_le 1)
      (fun k h => (c.getElem_raw h).symm) le_rfl
    rw [c.length_raw] at hge
    apply hge.trans
    unfold getNonVclSize ANTI_EMUL_GRANULARITY
    dsimp only
    omega

/-- An IDR slice: its header of 17 bits (`first_mb_in_slice`, `slice_type` 7,
`pic_parameter_set_id`, four bits of `frame_num`, `idr_pic_id`, the two flags of
`dec_ref_pic_marking` and `slice_qp_delta`) ends in byte 6. -/
def shortSlice : CircBuffer where
  pVirtualAddr i := [0, 0, 1, 0x65, 0x88, 0x84, 0xA0, 0x80].getD i 0
  uSize := 16
  iOffset := 0
  iAvailSize := 8

/-- The parser behind the slice header. -/
def behindShortHeader : RbspParser :=
  { RbspParser.init shortSlice (fun _ => 0) true with iTotalBitIndex := 49 }

theorem noLongRun_shortSlice : NoLongRun 0 shortSlice.raw := by
  intro hrun
  have hlen := hrun.length_le
  rw [List.length_replicate, List.replicate_zero, List.nil_append, CircBuffer.length_raw] at hlen
  exact absurd hlen (by decide)

theorem handsOver_shortSlice :
    ∃ k, StoredAs shortSlice.raw k 6 ∧ 2 ≤ k ∧
      (updateCircBuffer behindShortHeader shortSlice).1.iOffset = (0 + (k - 2)) % 16 := by
  have hlength : (RbspParser.init shortSlice (fun _ => 0) true).pending.length = 8 := by
    decide +kernel
  obtain ⟨k, hk, htwo, hoffset, -⟩ :=
    (updateCircBuffer_handsOver shortSlice (fun _ => 0) noLongRun_shortSlice).1 behindShortHeader
      (by decide) (by rw [hlength]; decide)
  exact ⟨k, hk, htwo, hoffset⟩

/-- The first bit that is not parsed is in byte 6 of the raw data; the offset is 4. -/
theorem not_offset_firstUnparsed : ¬∀ (c : CircBuffer) (pBuffer : ℕ → UInt8) (p : RbspParser),
    24 ≤ p.iTotalBitIndex →
    p.iTotalBitIndex < 8 * (RbspParser.init c pBuffer true).pending.length →
    ∀ k, StoredAs c.raw k (p.iTotalBitIndex / 8) →
      (updateCircBuffer p c).1.iOffset = (c.iOffset + k) % c.uSize := by
  intro hall
  have hlength : (RbspParser.init shortSlice (fun _ => 0) true).pending.length = 8 := by
    decide +kernel
  have hstored : StoredAs shortSlice.raw 6 6 :=
    ⟨by decide +kernel, by decide +kernel, by decide +kernel, by decide +kernel⟩
  have hoffset := hall shortSlice (fun _ => 0) behindShortHeader (by decide)
    (by rw [hlength]; decide) 6 hstored
  revert hoffset
  decide +kernel

end VcuCodec
