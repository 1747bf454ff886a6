import VcuCodec.BitStrings
import VcuCodec.RbspParser

/-!
# What the RBSP parser fetches

`pending` is what the parser will still fetch: the rest of the stream buffer
without its emulation prevention bytes, up to the next start code.  A fetch moves
a part of it to the end of the fetched bytes, whatever the chunk begins or ends
with.
-/

namespace VcuCodec

/-- The bytes that `fetch_data` stores, from the zero bytes and the start codes
seen so far: an emulation prevention byte is left out, and the second start code
is the end. -/
def deemulate (hasSC : Bool) : (zeros starts : ℕ) → List UInt8 → List UInt8
  | _, _, [] => []
  | zeros, starts, b :: bs =>
    if hasSC ∧ zeros = 2 ∧ b = 3 then deemulate hasSC 0 starts bs
    else
      let starts := if hasSC ∧ 2 ≤ zeros ∧ b = 1 then (starts + 1) % 2 ^ 8 else starts
      if hasSC ∧ 2 ≤ zeros ∧ b = 1 ∧ starts = 2 then []
      else
        b :: deemulate hasSC
          (if hasSC then if b = 0 then (zeros + 1) % 2 ^ 8 else 0 else zeros) starts bs

namespace RbspParser

/-- The bytes of the stream buffer that have not been taken. -/
def input (p : RbspParser) : List UInt8 :=
  (List.range p.iBufInAvailSize).map fun k => p.pBufIn ((p.iBufInOffset + k) % p.iBufInSize)

/-- The bytes that the parser will still fetch. -/
def pending (p : RbspParser) : List UInt8 :=
  if p.uNumScDetect = 2 then []
  else deemulate p.bHasSC p.uZeroBytesCount p.uNumScDetect p.input

theorem input_eq_nil {p : RbspParser} (h : p.iBufInAvailSize = 0) : p.input = [] := by
  simp [input, h]

theorem input_eq_cons {p : RbspParser} (h : p.iBufInAvailSize ≠ 0) :
    p.input = p.pBufIn (p.iBufInOffset % p.iBufInSize) :: p.takeByte.input := by
  obtain ⟨n, hn⟩ : ∃ n, p.iBufInAvailSize = n + 1 := ⟨p.iBufInAvailSize - 1, by omega⟩
  simp only [input, takeByte, hn, List.range_succ_eq_map, List.map_cons, List.map_map,
    Nat.add_zero, Nat.add_sub_cancel]
  congr 1
  apply List.map_congr_left
  intro k _
  simp only [Function.comp_apply, Nat.mod_add_mod, Nat.succ_eq_add_one, Nat.add_assoc,
    Nat.add_comm 1 k]

/-- What is still needed of the zero bytes in front of an emulation prevention byte. -/
def zeroCredit (p : RbspParser) : ℕ := min p.uZeroBytesCount 2

/-- A fetch that stored `taken` from index `out` on: at most every third byte it
took was left out, unless it came to the end. -/
structure Fetches (p : RbspParser) (rounds out : ℕ) (taken : List UInt8) (q : RbspParser) :
    Prop where
  pending : p.pending = taken ++ q.pending
  buffer : ∀ i, q.pBuffer i =
    if h : out ≤ i ∧ i - out < taken.length then taken[i - out] else p.pBuffer i
  trailing : q.iTrailingBitOneIndex = p.iTrailingBitOneIndex + 8 * taken.length
  conceal : q.iTrailingBitOneIndexConceal = p.iTrailingBitOneIndexConceal + 8 * taken.length
  total : q.iTotalBitIndex = p.iTotalBitIndex
  pByte : q.pByte = p.pByte
  starts : q.uNumScDetect ≤ 2
  progress : q.finishedFetching = false →
    2 * rounds + q.zeroCredit ≤ 3 * taken.length + p.zeroCredit

namespace Fetches

variable {p q : RbspParser} {rounds out : ℕ} {taken : List UInt8}

theorem nil (hbuf : q.pBuffer = p.pBuffer) (ht : q.iTrailingBitOneIndex = p.iTrailingBitOneIndex)
    (hc : q.iTrailingBitOneIndexConceal = p.iTrailingBitOneIndexConceal)
    (htot : q.iTotalBitIndex = p.iTotalBitIndex) (hb : q.pByte = p.pByte)
    (hs : q.uNumScDetect ≤ 2) (hpend : p.pending = q.pending)
    (hprog : q.finishedFetching = false → 2 * rounds + q.zeroCredit ≤ p.zeroCredit) :
    p.Fetches rounds out [] q where
  pending := hpend
  buffer i := by simp [hbuf]
  trailing := by simp [ht]
  conceal := by simp [hc]
  total := htot
  pByte := hb
  starts := hs
  progress hf := by
    have := hprog hf
    simpa using this

theorem drop (h : p.takeByte.clearZeros.Fetches rounds out taken q)
    (hpend : p.pending = p.takeByte.clearZeros.pending) (hz : p.uZeroBytesCount = 2) :
    p.Fetches (rounds + 1) out taken q where
  pending := hpend.trans h.pending
  buffer := h.buffer
  trailing := h.trailing
  conceal := h.conceal
  total := h.total
  pByte := h.pByte
  starts := h.starts
  progress hf := by
    have hprog := h.progress hf
    have hcredit : p.zeroCredit = 2 := by simp [zeroCredit, hz]
    have hcredit' : p.takeByte.clearZeros.zeroCredit = 0 := rfl
    omega

theorem store {p' : RbspParser} {read : UInt8} (h : p'.Fetches rounds (out + 1) taken q)
    (hpend : p.pending = read :: p'.pending) (hbuf : p'.pBuffer = Function.update p.pBuffer out read)
    (ht : p'.iTrailingBitOneIndex = p.iTrailingBitOneIndex + 8)
    (hc : p'.iTrailingBitOneIndexConceal = p.iTrailingBitOneIndexConceal + 8)
    (htot : p'.iTotalBitIndex = p.iTotalBitIndex) (hb : p'.pByte = p.pByte)
    (hcredit : p'.zeroCredit ≤ p.zeroCredit + 1) :
    p.Fetches (rounds + 1) out (read :: taken) q where
  pending := by rw [hpend, h.pending, List.cons_append]
  buffer i := by
    rw [h.buffer i, hbuf]
    by_cases hi : out + 1 ≤ i ∧ i - (out + 1) < taken.length
    · have hi' : out ≤ i ∧ i - out < (read :: taken).length := by
        simp only [List.length_cons]
        omega
      rw [dif_pos hi, dif_pos hi']
      simp only [show i - out = (i - (out + 1)) + 1 by omega, List.getElem_cons_succ]
    · rw [dif_neg hi]
      by_cases hio : i = out
      · subst hio
        rw [Function.update_self, dif_pos (by simp)]
        simp
      · rw [Function.update_of_ne hio, dif_neg]
        simp only [List.length_cons]
        omega
  trailing := by
    rw [h.trailing, ht, List.length_cons]
    omega
  conceal := by
    rw [h.conceal, hc, List.length_cons]
    omega
  total := h.total.trans htot
  pByte := h.pByte.trans hb
  starts := h.starts
  progress hf := by
    have hprog := h.progress hf
    rw [List.length_cons]
    omega

end Fetches

/-! ## The bytes of one round -/

section Round

variable {p : RbspParser} {read : UInt8}

theorem countStartCode_uNumScDetect (p : RbspParser) (read : UInt8) :
    (p.countStartCode read).uNumScDetect =
      if p.bHasSC ∧ 2 ≤ p.uZeroBytesCount ∧ read = 1 then (p.uNumScDetect + 1) % 2 ^ 8
      else p.uNumScDetect := by
  unfold countStartCode
  split <;> rfl

theorem countStartCode_eq :
    p.countStartCode read = { p with uNumScDetect := (p.countStartCode read).uNumScDetect } := by
  unfold countStartCode
  split <;> rfl

theorem countZero_eq : p.countZero read = { p with
    uZeroBytesCount :=
      if p.bHasSC then if read = 0 then (p.uZeroBytesCount + 1) % 2 ^ 8 else 0
      else p.uZeroBytesCount } := by
  unfold countZero
  split <;> rfl

theorem storeByte_eq (out : ℕ) : ((p.takeByte.countStartCode read).countZero read).storeByte out read =
    { p.takeByte with
      uNumScDetect := (p.takeByte.countStartCode read).uNumScDetect
      uZeroBytesCount :=
        if p.bHasSC then if read = 0 then (p.uZeroBytesCount + 1) % 2 ^ 8 else 0
        else p.uZeroBytesCount
      iTrailingBitOneIndex := p.iTrailingBitOneIndex + 8
      iTrailingBitOneIndexConceal := p.iTrailingBitOneIndexConceal + 8
      pBuffer := Function.update p.pBuffer out read } := by
  rw [countZero_eq, countStartCode_eq]
  rfl

theorem pending_of_finished (h : p.finishedFetching = true) : p.pending = [] := by
  unfold pending
  rcases Bool.or_eq_true_iff.mp h with hs | ha
  · rw [if_pos (of_decide_eq_true hs)]
  · rw [input_eq_nil (of_decide_eq_true ha)]
    simp [deemulate]

theorem pending_eq (hs : p.uNumScDetect ≤ 1) :
    p.pending = deemulate p.bHasSC p.uZeroBytesCount p.uNumScDetect p.input := by
  unfold pending
  rw [if_neg (by omega)]

end Round

theorem fetchLoop_fetches (rounds uRead out : ℕ) {p : RbspParser} (hs : p.uNumScDetect ≤ 1)
    (hread : uRead % p.iBufInSize = p.iBufInOffset % p.iBufInSize) :
    ∃ taken, p.Fetches rounds out taken (fetchLoop rounds uRead out p) := by
  induction rounds generalizing uRead out p with
  | zero => exact ⟨[], .nil rfl rfl rfl rfl rfl (by unfold fetchLoop; omega) rfl (by simp [fetchLoop])⟩
  | succ rounds ih =>
    unfold fetchLoop
    by_cases ha : p.iBufInAvailSize = 0
    · rw [if_pos ha]
      have hfin : p.finishedFetching = true := by simp [finishedFetching, ha]
      exact ⟨[], .nil rfl rfl rfl rfl rfl (by omega) rfl (by simp [hfin])⟩
    rw [if_neg ha]
    have hpend := pending_eq hs
    rw [input_eq_cons ha, ← hread] at hpend
    have hnext : (uRead + 1) % p.iBufInSize =
        (p.iBufInOffset + 1) % p.iBufInSize % p.iBufInSize := by
      rw [Nat.mod_mod, Nat.add_mod, hread, ← Nat.add_mod]
    dsimp only
    generalize p.pBufIn (uRead % p.iBufInSize) = read at *
    have hsc : p.takeByte.bHasSC = p.bHasSC := rfl
    have hz : p.takeByte.uZeroBytesCount = p.uZeroBytesCount := rfl
    have hn : p.takeByte.uNumScDetect = p.uNumScDetect := rfl
    rw [hsc, hz]
    by_cases hep : p.bHasSC ∧ p.uZeroBytesCount = 2 ∧ read = 3
    · -- an emulation prevention byte
      rw [if_pos hep]
      rw [deemulate, if_pos hep] at hpend
      obtain ⟨taken, h⟩ := ih (uRead + 1) out (p := p.takeByte.clearZeros) hs hnext
      exact ⟨taken, h.drop (hpend.trans (pending_eq (p := p.takeByte.clearZeros) hs).symm) hep.2.1⟩
    rw [if_neg hep]
    rw [deemulate, if_neg hep] at hpend
    dsimp only at hpend
    have hstart := countStartCode_uNumScDetect p.takeByte read
    rw [hsc, hz, hn] at hstart
    rw [← hstart] at hpend
    by_cases hend : p.bHasSC ∧ 2 ≤ p.uZeroBytesCount ∧ read = 1 ∧
        (p.takeByte.countStartCode read).uNumScDetect = 2
    · -- the next start code
      rw [if_pos hend]
      rw [if_pos hend] at hpend
      have hfin : (p.takeByte.countStartCode read).finishedFetching = true := by
        simp only [finishedFetching, hend.2.2.2, decide_true, Bool.true_or]
      refine ⟨[], .nil ?_ ?_ ?_ ?_ ?_ hend.2.2.2.le ?_ (by simp [hfin])⟩
      · rw [countStartCode_eq]; rfl
      · rw [countStartCode_eq]; rfl
      · rw [countStartCode_eq]; rfl
      · rw [countStartCode_eq]; rfl
      · rw [countStartCode_eq]; rfl
      · rw [hpend, pending_of_finished hfin]
    · -- the byte is stored
      rw [if_neg hend]
      rw [if_neg hend] at hpend
      have hone : (p.takeByte.countStartCode read).uNumScDetect ≤ 1 := by
        by_contra hc
        rw [hstart] at hc
        split at hc
        · next hs1 => exact hend ⟨hs1.1, hs1.2.1, hs1.2.2, by rw [hstart, if_pos hs1]; omega⟩
        · omega
      rw [storeByte_eq]
      generalize (p.takeByte.countStartCode read).uNumScDetect = starts at *
      obtain ⟨taken, h⟩ := ih (uRead + 1) (out + 1) (p := { p.takeByte with
        uNumScDetect := starts
        uZeroBytesCount :=
          if p.bHasSC then if read = 0 then (p.uZeroBytesCount + 1) % 2 ^ 8 else 0
          else p.uZeroBytesCount
        iTrailingBitOneIndex := p.iTrailingBitOneIndex + 8
        iTrailingBitOneIndexConceal := p.iTrailingBitOneIndexConceal + 8
        pBuffer := Function.update p.pBuffer out read }) hone hnext
      refine ⟨read :: taken, h.store ?_ rfl rfl rfl rfl rfl ?_⟩
      · rw [hpend, pending_eq hone]
        rfl
      · unfold zeroCredit
        dsimp only
        split
        · split <;> omega
        · omega

end RbspParser

end VcuCodec
