import VcuCodec.CheckedRuns
import VcuCodec.SyntaxElements

/-!
# Parsing as checked runs

The descriptors of the RBSP parser as steps of a checked run, and the start code
that a NAL unit begins with.
-/

namespace VcuCodec

open CheckedRuns Checked

/-- A parsing function: its state is the RBSP parser. -/
abbrev Parse (α : Type) : Type := Checked RbspParser α

namespace Parse

def u (iNumBits : ℕ) : Parse ℕ := step fun p => p.u iNumBits

def ue : Parse ℕ := step fun p => p.ue

def se : Parse ℤ := step fun p => p.se

def moreRbspData : Parse Bool := step fun p => p.moreRbspData

def skipAllZerosAndTheNextByte : (fuel : ℕ) → Parse Unit
  | 0 => stuck .unfinished
  | fuel + 1 => do
    let byte ← u 8
    if byte = 0 then skipAllZerosAndTheNextByte fuel else pure ()

end Parse

/-! ## The start code -/

namespace RbspParser

/-- The parser behind the three bytes of the start code. -/
def behindStartCode (p : RbspParser) : RbspParser := (((p.u 8).2.u 8).2.u 8).2

theorem fetchLoop_trailing_le (rounds uRead out : ℕ) (p : RbspParser) :
    (fetchLoop rounds uRead out p).iTrailingBitOneIndex ≤ p.iTrailingBitOneIndex + 8 * rounds := by
  induction rounds generalizing uRead out p with
  | zero => simp [fetchLoop]
  | succ rounds ih =>
    unfold fetchLoop
    split
    · omega
    dsimp only
    split
    · have := ih (uRead + 1) out p.takeByte.clearZeros
      simp only [takeByte, clearZeros] at this ⊢
      omega
    split
    · rw [countStartCode_eq]
      simp only [takeByte]
      omega
    · apply (ih (uRead + 1) (out + 1) _).trans
      rw [storeByte_eq]
      dsimp only
      omega

theorem trailingBitOne_ge {p : RbspParser} {i n : ℕ} (hin : i ≤ n)
    (hbit : BitStrings.bitAt p.pBuffer i = true) : i ≤ p.trailingBitOne n := by
  induction n with
  | zero => omega
  | succ n ih =>
    unfold trailingBitOne
    split
    · next h =>
      rcases Nat.lt_or_eq_of_le hin with hlt | rfl
      · exact ih (by omega)
      · rw [readBit_eq_zero] at h
        simp [h] at hbit
    · exact hin

theorem u_byte {p q : RbspParser} (hmore : p.moreRbspDataConceal = true)
    (hq : (if p.bitsAhead < 32 then p.fetchData.2 else p) = q) (hal : q.iTotalBitIndex % 8 = 0) :
    p.u 8 = ((q.pBuffer (q.iTotalBitIndex / 8)).toNat, q.skip 8) := by
  have hb : ∀ b : UInt8, b.toNat < 2 ^ 8 := fun b => b.toNat_lt
  unfold u
  rw [if_neg (by simp [hmore]), if_neg (by decide), if_pos (by decide)]
  unfold getCache24
  dsimp only
  rw [hq, hal, or_bytes (hb _) (hb _) (hb _)]
  refine Prod.ext ?_ rfl
  have h0 := hb (q.pBuffer (q.iTotalBitIndex / 8 + 0))
  have h1 := hb (q.pBuffer (q.iTotalBitIndex / 8 + 1))
  have h2 := hb (q.pBuffer (q.iTotalBitIndex / 8 + 2))
  have h3 := hb (q.pBuffer (q.iTotalBitIndex / 8 + 3))
  simp only [Nat.add_zero] at *
  simp only [show (0x00FFFFFF : ℕ) = 2 ^ 24 - 1 by decide, show 1 <<< 8 - 1 = 2 ^ 8 - 1 by decide,
    Nat.and_two_pow_sub_one_eq_mod, Nat.shiftRight_eq_div_pow]
  omega

/-- The three bytes of the start code are fetched, and what follows them does
not matter. -/
structure AtStartCode (p : RbspParser) : Prop where
  fetched : p.finishedFetching = true ∨ 64 ≤ p.iTrailingBitOneIndex
  trailing_ge : 23 ≤ p.iTrailingBitOneIndex
  trailing_le : p.iTrailingBitOneIndex ≤ 256
  conceal : 24 ≤ p.iTrailingBitOneIndexConceal
  zero : ∀ i < 2, p.pBuffer i = 0
  one : p.pBuffer 2 = 1

theorem deemulate_startCode (body : List UInt8) :
    deemulate true 0 0 (0 :: 0 :: 1 :: body) = 0 :: 0 :: 1 :: deemulate true 0 1 body := by
  simp [deemulate]

theorem atStartCode_fetchData {c : CircBuffer} {body : List UInt8} (hc : c.Holds (0 :: 0 :: 1 :: body))
    (scratch : ℕ → UInt8) : (init c scratch true).fetchData.2.AtStartCode := by
  have hpend : (init c scratch true).pending = 0 :: 0 :: 1 :: deemulate true 0 1 body := by
    rw [pending_eq (Nat.zero_le 1), hc.input]
    exact deemulate_startCode body
  have hunf : (init c scratch true).finishedFetching = false := by
    simp [finishedFetching, init, hc.avail]
  obtain ⟨taken, hq⟩ := fetchLoop_fetches ANTI_EMUL_GRANULARITY (init c scratch true).iBufInOffset
    ((init c scratch true).iTrailingBitOneIndex / 8) (Nat.zero_le 1) rfl
  have htr := fetchLoop_trailing_le ANTI_EMUL_GRANULARITY (init c scratch true).iBufInOffset
    ((init c scratch true).iTrailingBitOneIndex / 8) (init c scratch true)
  unfold fetchData
  rw [if_neg (by simp [hunf])]
  dsimp only
  generalize fetchLoop ANTI_EMUL_GRANULARITY (init c scratch true).iBufInOffset
    ((init c scratch true).iTrailingBitOneIndex / 8) (init c scratch true) = q at *
  have hlen : 3 ≤ taken.length ∧ (q.finishedFetching = false → 8 ≤ taken.length) := by
    cases hfin : q.finishedFetching with
    | true =>
      have := congrArg List.length hq.pending
      rw [hpend, pending_of_finished hfin, List.append_nil] at this
      simp only [List.length_cons] at this
      simp only [reduceCtorEq, false_implies, and_true]
      omega
    | false =>
      have := hq.progress hfin
      have hz : (init c scratch true).zeroCredit = 0 := rfl
      unfold ANTI_EMUL_GRANULARITY at this
      omega
  have hbyte : ∀ i (h : i < taken.length), q.pBuffer i = (init c scratch true).pending.getD i 0 := by
    intro i hi
    rw [hq.buffer, dif_pos ⟨(Nat.zero_div 8).trans_le (Nat.zero_le i), by simpa [init] using hi⟩, hq.pending,
      List.getD_eq_getElem _ _ (by rw [List.length_append]; omega), List.getElem_append_left hi]
    simp [init]
  have htrail : q.iTrailingBitOneIndex = 8 * taken.length := by
    rw [hq.trailing]
    simp [init]
  have hle : q.iTrailingBitOneIndex ≤ 256 := by
    simpa [init, ANTI_EMUL_GRANULARITY] using htr
  have hzero : ∀ i < 2, q.pBuffer i = 0 := by
    intro i hi
    rw [hbyte i (by omega), hpend]
    rcases (show i = 0 ∨ i = 1 by omega) with rfl | rfl <;> rfl
  have hone : q.pBuffer 2 = 1 := by
    rw [hbyte 2 (by omega), hpend]
    rfl
  cases hfin : q.finishedFetching with
  | false =>
    rw [if_neg (by simp)]
    have := hlen.2 hfin
    refine ⟨.inr (by omega), by omega, hle, ?_, hzero, hone⟩
    rw [hq.conceal]
    omega
  | true =>
    rw [if_pos rfl]
    have hbit : 23 ≤ q.trailingBitOne q.iTrailingBitOneIndex := by
      apply trailingBitOne_ge (by omega)
      simp [BitStrings.bitAt, hone]
    have hup := q.trailingBitOne_le q.iTrailingBitOneIndex
    have htot : q.iTotalBitIndex = 0 := hq.total
    unfold removeTrailingBits
    dsimp only
    rw [htot, if_neg (by omega)]
    exact ⟨.inl hfin, hbit, hup.trans hle, by dsimp only; omega, hzero, hone⟩

namespace AtStartCode

variable {p : RbspParser} {k : ℕ}

theorem moreRbspDataConceal (h : p.AtStartCode) (ht : p.iTotalBitIndex = 8 * k) (hk : k ≤ 2) :
    p.moreRbspDataConceal = true := by
  have := h.conceal
  exact decide_eq_true (by omega)

theorem bitsAhead_eq (h : p.AtStartCode) (ht : p.iTotalBitIndex = 8 * k) (hk : k ≤ 2) :
    p.bitsAhead = p.iTrailingBitOneIndex - 8 * k := by
  have := h.trailing_ge
  have := h.trailing_le
  unfold bitsAhead
  omega

theorem u_eq (h : p.AtStartCode) (ht : p.iTotalBitIndex = 8 * k) (hk : k ≤ 2) :
    p.u 8 = ((p.pBuffer k).toNat, p.skip 8) := by
  have hk8 : p.iTotalBitIndex / 8 = k := by omega
  rw [← hk8]
  apply u_byte (h.moreRbspDataConceal ht hk) ?_ (by omega)
  -- a fetch that is not over has brought enough
  rw [h.bitsAhead_eq ht hk]
  rcases h.fetched with hf | hf
  · rw [Carries.fetchData_of_finished hf]
    exact ite_self p
  · exact if_neg (by omega)

theorem skip_eq (h : p.AtStartCode) (ht : p.iTotalBitIndex = 8 * k) (hk : k ≤ 1) :
    p.skip 8 = { p with iTotalBitIndex := 8 * (k + 1), pByte := 8 * (k + 1) / 8 } := by
  have hbits := h.bitsAhead_eq ht (by omega)
  have htr := h.trailing_ge
  have hround : skipRound 8 (true, p) = .inr (true, p) := if_neg (by simp; omega)
  rw [Carries.skip_eq (MeasuredLoops.run_of_inr _ hround), ht,
    Nat.mod_eq_of_lt (by omega), Nat.mul_add_one]

theorem skip (h : p.AtStartCode) (ht : p.iTotalBitIndex = 8 * k) (hk : k ≤ 1) :
    (p.skip 8).AtStartCode ∧ (p.skip 8).iTotalBitIndex = 8 * (k + 1) := by
  rw [h.skip_eq ht hk]
  exact ⟨⟨h.fetched, h.trailing_ge, h.trailing_le, h.conceal, h.zero, h.one⟩, rfl⟩

end AtStartCode

end RbspParser

theorem skipAllZeros_succ (fuel : ℕ) (p : RbspParser) :
    Parse.skipAllZerosAndTheNextByte (fuel + 1) p =
      if (p.u 8).1 = 0 then Parse.skipAllZerosAndTheNextByte fuel (p.u 8).2
      else .ok ((), (p.u 8).2) := by
  rw [Parse.skipAllZerosAndTheNextByte, Parse.u, step_bind_apply]
  split
  · rfl
  · rfl

theorem skipAllZeros_mono {fuel : ℕ} (k : ℕ) {p : RbspParser} {r : Unit × RbspParser}
    (h : Parse.skipAllZerosAndTheNextByte fuel p = .ok r) :
    Parse.skipAllZerosAndTheNextByte (fuel + k) p = .ok r := by
  induction fuel generalizing p with
  | zero => simp [Parse.skipAllZerosAndTheNextByte, stuck] at h
  | succ fuel ih =>
    rw [skipAllZeros_succ] at h
    rw [Nat.add_right_comm, skipAllZeros_succ]
    split
    · next hb => exact ih (by rwa [if_pos hb] at h)
    · next hb => rwa [if_neg hb] at h

/-- The loop over the zero bytes ends behind the start code. -/
theorem skipAllZeros_startCode {c : CircBuffer} {body : List UInt8}
    (hc : c.Holds (0 :: 0 :: 1 :: body)) (scratch : ℕ → UInt8) (fuel : ℕ) :
    Parse.skipAllZerosAndTheNextByte (fuel + 3) (.init c scratch true) =
      .ok ((), (RbspParser.init c scratch true).behindStartCode) := by
  have hstart := RbspParser.atStartCode_fetchData hc scratch
  have hinit : (RbspParser.init c scratch true).iTotalBitIndex = 0 := rfl
  have htot : (RbspParser.init c scratch true).fetchData.2.iTotalBitIndex = 8 * 0 := by
    cases hf : (RbspParser.init c scratch true).fetchData.1 with
    | true => rw [(RbspParser.fetchData_progress hf).1, hinit]
    | false => rw [RbspParser.fetchData_fail hf, hinit]
  have hfirst : (RbspParser.init c scratch true).u 8 =
      (((RbspParser.init c scratch true).fetchData.2.pBuffer 0).toNat,
        (RbspParser.init c scratch true).fetchData.2.skip 8) := by
    have hmore : (RbspParser.init c scratch true).moreRbspDataConceal = true := by
      simp [RbspParser.moreRbspDataConceal, RbspParser.init]
    have hahead : (RbspParser.init c scratch true).bitsAhead < 32 := by
      simp [RbspParser.bitsAhead, RbspParser.init]
    rw [RbspParser.u_byte hmore (if_pos hahead) (by omega), htot]
  generalize (RbspParser.init c scratch true).fetchData.2 = q at hstart htot hfirst
  obtain ⟨h1, ht1⟩ := hstart.skip htot (by omega)
  obtain ⟨h2, ht2⟩ := h1.skip ht1 (by omega)
  have hsecond := h1.u_eq ht1 (by omega)
  have hthird := h2.u_eq ht2 (by omega)
  rw [RbspParser.behindStartCode, skipAllZeros_succ, hfirst, if_pos (by simp [hstart.zero]), skipAllZeros_succ, hsecond,
    if_pos (by simp [h1.zero]), skipAllZeros_succ, hthird, if_neg (by simp [h2.one])]

theorem skipAllZeros_eq {c : CircBuffer} {body : List UInt8} (hc : c.Holds (0 :: 0 :: 1 :: body))
    {scratch : ℕ → UInt8} {fuel : ℕ} {a : Unit} {q : RbspParser}
    (h : Parse.skipAllZerosAndTheNextByte fuel (.init c scratch true) = .ok (a, q)) :
    q = (RbspParser.init c scratch true).behindStartCode := by
  have h3 := skipAllZeros_mono 3 h
  rw [skipAllZeros_startCode hc] at h3
  simp only [Except.ok.injEq, Prod.mk.injEq] at h3
  exact h3.2.symm

end VcuCodec
