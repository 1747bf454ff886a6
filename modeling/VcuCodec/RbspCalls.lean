import VcuCodec.RbspPrimitives

/-!
# Runs of the RBSP parser

What a run of calls of `lib_common_dec/RbspParser.h` does to the bit cursor.  The
cursor goes forward, stays inside the payload, and the counts of the bits ahead do
not wrap, as long as no call asks for a bit or a byte that the refill does not bring.
-/

namespace VcuCodec

open BitStrings CheckedRuns Checked

namespace RbspParser

variable {p q : RbspParser} {n k i : ℕ}

/-! ## Bytes and trailing bits -/

/-- A byte is there for the cursor, or the data is at its end and nothing is left
behind the cursor. -/
def ByteReady (p : RbspParser) : Prop :=
  p.iTotalBitIndex % 8 = 0 ∧
    if p.iTrailingBitOneIndex < p.iTotalBitIndex + 8 then
      if p.fetchData.1 then p.iTotalBitIndex + 8 ≤ p.fetchData.2.iTrailingBitOneIndex
      else p.iTrailingBitOneIndexConceal ≤ p.iTrailingBitOneIndex
    else True
deriving Decidable

theorem Within.getByte (h : p.Within n) (hready : p.ByteReady) :
    ∃ v q, Moves p q n ∧ Parse.getByte p = .ok (v, q) := by
  obtain ⟨haligned, hbyte⟩ := hready
  have hconceal := h.conceal_ge
  have htotal := h.total_le
  unfold Parse.getByte
  rw [if_neg (not_not.mpr haligned)]
  by_cases hfetch : p.iTrailingBitOneIndex < p.iTotalBitIndex + 8
  · rw [if_pos hfetch] at hbyte ⊢
    dsimp only
    cases hf : p.fetchData.1 with
    | true =>
      rw [hf, if_pos rfl] at hbyte
      obtain ⟨hw, hcursor⟩ := h.fetchData
      have hlow := hw.total_le
      rw [if_neg (by decide), if_neg (by omega)]
      refine ⟨_, _, ⟨hw.move ?_, ?_⟩, rfl⟩
      · rw [hcursor]
        exact hbyte
      · dsimp only
        omega
    | false =>
      rw [hf, if_neg (by decide)] at hbyte
      rw [if_pos (by decide), fetchData_fail hf]
      exact ⟨_, _, ⟨h.move hbyte, htotal.trans hconceal⟩, rfl⟩
  · rw [if_neg hfetch]
    dsimp only
    rw [if_neg (by decide), if_neg (by omega)]
    exact ⟨_, _, ⟨h.move (by omega), Nat.le_add_right _ _⟩, rfl⟩

theorem alignmentZeros_succ (fuel : ℕ) (p : RbspParser) :
    Parse.alignmentZeros (fuel + 1) p =
      if p.iTotalBitIndex % 8 = 0 then .ok (true, p)
      else if (p.u 1).1 ≠ 0 then .ok (false, (p.u 1).2)
      else Parse.alignmentZeros fuel (p.u 1).2 := by
  rw [Parse.alignmentZeros, Parse.byteAligned, step_bind_apply]
  by_cases haligned : p.iTotalBitIndex % 8 = 0
  · simp only [haligned, decide_true, if_true]
    rfl
  · simp only [haligned, decide_false, if_false, Bool.false_eq_true]
    rw [Parse.u, step_bind_apply]
    split
    · rfl
    · rfl

/-- The zero bits up to the next byte: there are at most seven of them. -/
theorem Within.alignmentZeros (h : p.Within n) (hready : zerosVisits BitReady Anywhere k p)
    (hk : p.iTotalBitIndex % 8 = 0 ∨ 8 ≤ p.iTotalBitIndex % 8 + k) :
    zerosVisits Anywhere Refills k p ∧
      ∃ v q, Moves p q n ∧ ∀ fuel, k < fuel → Parse.alignmentZeros fuel p = .ok (v, q) := by
  induction k generalizing p with
  | zero =>
    refine ⟨trivial, true, p, h.moves, fun fuel hfuel => ?_⟩
    obtain ⟨fuel, rfl⟩ := Nat.exists_eq_succ_of_ne_zero hfuel.ne'
    rw [alignmentZeros_succ, if_pos (by omega)]
  | succ k ih =>
    by_cases haligned : p.iTotalBitIndex % 8 = 0
    · refine ⟨fun hne => absurd haligned hne, true, p, h.moves, fun fuel hfuel => ?_⟩
      obtain ⟨fuel, rfl⟩ := Nat.exists_eq_succ_of_ne_zero (by omega : fuel ≠ 0)
      rw [alignmentZeros_succ, if_pos haligned]
    · obtain ⟨hbit, hrest⟩ := hready haligned
      obtain ⟨hm, hcount⟩ := h.u hbit
      by_cases hzero : (p.u 1).1 = 0
      · have hu : p.u 1 = p.getNextBit := by
          unfold RbspParser.u
          rw [if_neg (by simp [h.moreRbspDataConceal]), if_pos rfl]
        have htotal : (p.u 1).2.iTotalBitIndex = p.iTotalBitIndex + 1 := by
          rw [hu] at hzero ⊢
          exact h.getNextBit_total (by omega)
        obtain ⟨hcounts, v, q, hq, hrun⟩ := ih hm.within (hrest hzero) (by omega)
        refine ⟨fun _ => ⟨hcount, fun _ => hcounts⟩, v, q, hm.trans hq, fun fuel hfuel => ?_⟩
        obtain ⟨fuel, rfl⟩ := Nat.exists_eq_succ_of_ne_zero (by omega : fuel ≠ 0)
        rw [alignmentZeros_succ, if_neg haligned, if_neg (not_not.mpr hzero)]
        exact hrun fuel (by omega)
      · refine ⟨fun _ => ⟨hcount, fun hz => absurd hz hzero⟩, false, _, hm, fun fuel hfuel => ?_⟩
        obtain ⟨fuel, rfl⟩ := Nat.exists_eq_succ_of_ne_zero (by omega : fuel ≠ 0)
        rw [alignmentZeros_succ, if_neg haligned, if_pos hzero]

theorem byteAlignment_eq (fuel : ℕ) (p : RbspParser) :
    Parse.byteAlignment fuel p =
      if (p.u 1).1 = 0 then .ok (false, (p.u 1).2) else Parse.alignmentZeros fuel (p.u 1).2 := by
  rw [Parse.byteAlignment, Parse.u, step_bind_apply]
  split
  · rfl
  · rfl

theorem Within.byteAlignment (h : p.Within n) (hready : alignmentVisits BitReady Anywhere p) :
    alignmentVisits Anywhere Refills p ∧
      ∃ v q, Moves p q n ∧ ∀ fuel, 8 < fuel → Parse.byteAlignment fuel p = .ok (v, q) := by
  obtain ⟨hbit, hrest⟩ := hready
  obtain ⟨hm, hcount⟩ := h.u hbit
  by_cases hzero : (p.u 1).1 = 0
  · refine ⟨⟨hcount, fun hne => absurd hzero hne⟩, false, _, hm, fun fuel _ => ?_⟩
    rw [byteAlignment_eq, if_pos hzero]
  · obtain ⟨hcounts, v, q, hq, hrun⟩ := hm.within.alignmentZeros (hrest hzero) (by omega)
    refine ⟨⟨hcount, fun _ => hcounts⟩, v, q, hm.trans hq, fun fuel hfuel => ?_⟩
    rw [byteAlignment_eq, if_neg hzero]
    exact hrun fuel hfuel

/-- `rbsp_trailing_bits` in front of the stop bit: the byte of the stop bit is read. -/
def atStopBit (p : RbspParser) : RbspParser :=
  { p.removeTrailingBits with
    iTrailingBitOneIndex := p.removeTrailingBits.iTrailingBitOneIndexConceal }

theorem rbspTrailingBits_eq (fuel : ℕ) (p : RbspParser) :
    Parse.rbspTrailingBits fuel p =
      if p.removeTrailingBits.iTotalBitIndex = p.removeTrailingBits.iTrailingBitOneIndex then
        Parse.byteAlignment fuel p.atStopBit
      else .ok (false, p.removeTrailingBits) := by
  rw [Parse.rbspTrailingBits, step_bind_apply]
  by_cases hstop : p.removeTrailingBits.iTotalBitIndex = p.removeTrailingBits.iTrailingBitOneIndex
  · simp only [hstop, decide_true, if_true]
    rfl
  · simp only [hstop, decide_false, if_false]
    rfl

/-- The stop bit is a bit of the payload of `n` bytes. -/
def StopReady (n : ℕ) (p : RbspParser) : Prop :=
  p.removeTrailingBits.iTotalBitIndex = p.removeTrailingBits.iTrailingBitOneIndex →
    p.atStopBit.iTrailingBitOneIndex + 8 * p.pending.length ≤ 8 * n

theorem Within.atStopBit (h : p.Within n) (hready : StopReady n p)
    (hstop : p.removeTrailingBits.iTotalBitIndex = p.removeTrailingBits.iTrailingBitOneIndex) :
    Moves p p.atStopBit n := by
  have hw := h.removeTrailingBits
  refine ⟨⟨?_, hready hstop, le_rfl, h.starts, h.small⟩, le_rfl⟩
  exact hw.total_le.trans hw.conceal_ge

/-- The trailing bits are visited behind the stop bit. -/
def trailingVisits (bit count : RbspParser → Prop) (p : RbspParser) : Prop :=
  p.removeTrailingBits.iTotalBitIndex = p.removeTrailingBits.iTrailingBitOneIndex →
    alignmentVisits bit count p.atStopBit

theorem Within.rbspTrailingBits (h : p.Within n) (hstop : StopReady n p)
    (hready : trailingVisits BitReady Anywhere p) :
    trailingVisits Anywhere Refills p ∧
      ∃ v q, Moves p q n ∧ ∀ fuel, 8 < fuel → Parse.rbspTrailingBits fuel p = .ok (v, q) := by
  by_cases heq : p.removeTrailingBits.iTotalBitIndex = p.removeTrailingBits.iTrailingBitOneIndex
  · have hm := h.atStopBit hstop heq
    obtain ⟨hcounts, v, q, hq, hrun⟩ := hm.within.byteAlignment (hready heq)
    refine ⟨fun _ => hcounts, v, q, hm.trans hq, fun fuel hfuel => ?_⟩
    rw [rbspTrailingBits_eq, if_pos heq]
    exact hrun fuel hfuel
  · refine ⟨fun he => absurd he heq, false, _, ⟨h.removeTrailingBits, le_rfl⟩, fun fuel _ => ?_⟩
    rw [rbspTrailingBits_eq, if_neg heq]

/-! ## The skip to the next start code -/

/-- The payload as it is seen from the parser: what is in the scratch buffer, and
behind it what is still to be fetched. -/
def payload (p : RbspParser) : ℕ → UInt8 := fun k =>
  if k < p.iTrailingBitOneIndex / 8 then p.pBuffer k
  else p.pending.getD (k - p.iTrailingBitOneIndex / 8) 0

/-- Bit `i` is a one that the cursor has not passed. -/
structure OneAt (p : RbspParser) (i : ℕ) : Prop where
  ahead : p.iTotalBitIndex ≤ i
  fetched : p.finishedFetching = true → i ≤ p.iTrailingBitOneIndex ∧ bitAt p.pBuffer i = true
  pending : p.finishedFetching = false → p.iTrailingBitOneIndex % 8 = 0 ∧ bitAt p.payload i = true

theorem Fetches.payload {rounds : ℕ} {taken : List UInt8}
    (h : p.Fetches rounds (p.iTrailingBitOneIndex / 8) taken q) (k : ℕ) :
    q.payload k = p.payload k := by
  have hlen : q.iTrailingBitOneIndex / 8 = p.iTrailingBitOneIndex / 8 + taken.length := by
    rw [h.trailing]
    omega
  unfold RbspParser.payload
  rw [hlen, h.buffer, h.pending]
  by_cases hold : k < p.iTrailingBitOneIndex / 8
  · rw [if_pos (by omega), if_pos hold, dif_neg (by omega)]
  rw [if_neg hold]
  by_cases hnew : k < p.iTrailingBitOneIndex / 8 + taken.length
  · rw [if_pos hnew, dif_pos ⟨by omega, by omega⟩, List.getD_append _ _ _ _ (by omega)]
    exact (List.getD_eq_getElem taken 0 (by omega)).symm
  · rw [if_neg hnew, List.getD_append_right _ _ _ _ (by omega)]
    apply congrArg (q.pending.getD · 0)
    omega

/-- A fetch brings at least 20 more bytes, or the rest, and the one bit stays. -/
theorem OneAt.fetchData (h : p.OneAt i) (hw : p.Within n) :
    p.fetchData.2.OneAt i ∧
      (p.fetchData.2.finishedFetching = true ∨
        p.iTrailingBitOneIndex + 160 ≤ p.fetchData.2.iTrailingBitOneIndex) := by
  unfold RbspParser.fetchData
  cases hfin : p.finishedFetching with
  | true =>
    rw [if_pos rfl]
    exact ⟨h, .inl hfin⟩
  | false =>
    obtain ⟨hal, hone⟩ := h.pending hfin
    have hstarts : p.uNumScDetect ≤ 1 := by
      have hne : p.uNumScDetect ≠ 2 := fun he => by simp [finishedFetching, he] at hfin
      have := hw.starts
      omega
    obtain ⟨taken, hf⟩ := fetchLoop_fetches ANTI_EMUL_GRANULARITY p.iBufInOffset
      (p.iTrailingBitOneIndex / 8) hstarts rfl
    rw [if_neg (by decide)]
    dsimp only
    generalize fetchLoop ANTI_EMUL_GRANULARITY p.iBufInOffset (p.iTrailingBitOneIndex / 8) p = q at *
    have hone' : bitAt q.payload i = true := (bitAt_congr (hf.payload _)).trans hone
    cases hq : q.finishedFetching with
    | false =>
      rw [if_neg (by decide)]
      refine ⟨⟨hf.total.trans_le h.ahead, fun hc => absurd hc (by simp [hq]), fun _ => ⟨?_, hone'⟩⟩,
        .inr ?_⟩
      · rw [hf.trailing]
        omega
      · have hprogress := hf.progress hq
        have hcredit : p.zeroCredit ≤ 2 := Nat.min_le_right _ _
        unfold ANTI_EMUL_GRANULARITY at hprogress
        rw [hf.trailing]
        omega
    | true =>
      rw [if_pos rfl]
      -- nothing is left, so that the one bit is in the buffer
      have hin : i / 8 < q.iTrailingBitOneIndex / 8 := by
        by_contra hout
        have hzero : q.payload (i / 8) = 0 := by
          unfold RbspParser.payload
          rw [if_neg hout, pending_of_finished hq]
          rfl
        unfold bitAt at hone'
        rw [hzero] at hone'
        exact absurd hone' (by simp)
      have hbit : bitAt q.pBuffer i = true := by
        rw [← hone']
        apply bitAt_congr
        exact (if_pos hin).symm
      have hlow := trailingBitOne_ge (p := q) (n := q.iTrailingBitOneIndex) (by omega) hbit
      have htotal := h.ahead
      refine ⟨⟨hf.total.trans_le htotal, fun _ => ⟨?_, hbit⟩, fun hc => absurd hq (by
        rw [show q.finishedFetching = false from hc]; decide)⟩, .inl hq⟩
      unfold removeTrailingBits
      dsimp only
      split <;> omega

theorem OneAt.getCache24 (h : p.OneAt i) (hw : p.Within n) :
    p.getCache24.2.OneAt i ∧ p.getCache24.2.iTotalBitIndex = p.iTotalBitIndex ∧
      (p.getCache24.2.finishedFetching = true ∨ 32 ≤ p.getCache24.2.bitsAhead) := by
  unfold RbspParser.getCache24
  dsimp only
  split
  · obtain ⟨hone, hmore⟩ := h.fetchData hw
    obtain ⟨hwf, htotal⟩ := hw.fetchData
    have := hw.total_le
    refine ⟨hone, htotal, hmore.imp_right fun hge => ?_⟩
    rw [hwf.bitsAhead_eq, htotal]
    omega
  · exact ⟨h, rfl, .inr (by omega)⟩

theorem value_ne_zero {l : List Bool} (h : true ∈ l) : value l ≠ 0 := by
  induction l with
  | nil => exact absurd h List.not_mem_nil
  | cons b l ih =>
    intro hzero
    simp only [value, Nat.add_eq_zero_iff, Nat.mul_eq_zero] at hzero
    rcases List.mem_cons.mp h with rfl | hl
    · exact absurd hzero.1 (by simp)
    · exact ih hl hzero.2

theorem true_mem_window {mem : ℕ → UInt8} {pos n : ℕ} (hlo : pos ≤ i) (hhi : i < pos + n)
    (hbit : bitAt mem i = true) : true ∈ window mem pos n := by
  have hk : i - pos < (window mem pos n).length := by
    rw [length_window]
    omega
  have hget := getElem_window mem pos n hk
  rw [show pos + (i - pos) = i by omega, hbit] at hget
  exact hget ▸ List.getElem_mem hk

theorem u_eight (hmore : p.moreRbspDataConceal = true) :
    p.u 8 = (value (window p.getCache24.2.pBuffer p.getCache24.2.iTotalBitIndex 8),
      p.getCache24.2.skip 8) := by
  have hcache : p.getCache24.1 =
      value (window p.getCache24.2.pBuffer p.getCache24.2.iTotalBitIndex 24) := cache_eq _ _
  have hhead : value (window p.getCache24.2.pBuffer p.getCache24.2.iTotalBitIndex 8) =
      p.getCache24.1 / 2 ^ 16 := by
    rw [hcache, show (24 : ℕ) = 8 + 16 by rfl, window_add, value_append, length_window]
    have hlow := value_lt (window p.getCache24.2.pBuffer (p.getCache24.2.iTotalBitIndex + 8) 16)
    rw [length_window] at hlow
    omega
  have hlt := value_lt (window p.getCache24.2.pBuffer p.getCache24.2.iTotalBitIndex 8)
  rw [length_window] at hlt
  unfold RbspParser.u
  rw [if_neg (by simp [hmore]), if_neg (by decide), if_pos (by decide)]
  refine Prod.ext ?_ rfl
  dsimp only
  rw [show 1 <<< 8 - 1 = 2 ^ 8 - 1 by decide, Nat.and_two_pow_sub_one_eq_mod,
    Nat.shiftRight_eq_div_pow, ← hhead, Nat.mod_eq_of_lt hlt]

theorem OneAt.move (h : p.OneAt i) {j b : ℕ} (hj : j ≤ i) :
    OneAt { p with iTotalBitIndex := j, pByte := b } i := by
  cases p
  exact ⟨hj, h.fetched, h.pending⟩

theorem skipRound_last (h : k ≤ p.bitsAhead) : skipRound k (true, p) = .inr (true, p) :=
  if_neg fun hc => absurd h hc.2.not_ge

theorem OneAt.zeroByte (h : p.OneAt i) (hw : p.Within n) (hzero : (p.u 8).1 = 0) :
    (p.u 8).2.OneAt i ∧ (p.u 8).2.iTotalBitIndex = p.iTotalBitIndex + 8 := by
  rw [u_eight hw.moreRbspDataConceal] at hzero ⊢
  dsimp only at hzero ⊢
  obtain ⟨hone, htotal, hahead⟩ := h.getCache24 hw
  have hq := hw.getCache24.within
  generalize p.getCache24.2 = q at *
  rw [hq.bitsAhead_eq] at hahead
  have hlow := hq.total_le
  have htrailing := hq.trailing_le
  have hsmall := hq.small
  -- the byte is fetched, so that a one bit in it would be read
  have hbehind : q.iTotalBitIndex + 8 ≤ i := by
    by_contra hin
    have hbit : bitAt q.pBuffer i = true := by
      cases hfin : q.finishedFetching with
      | true => exact (hone.fetched hfin).2
      | false =>
        have hge := hahead.resolve_left (by simp [hfin])
        rw [← (hone.pending hfin).2]
        apply bitAt_congr
        exact (if_pos (by omega)).symm
    exact value_ne_zero (true_mem_window hone.ahead (by omega) hbit) hzero
  have hfetched : 8 ≤ q.bitsAhead := by
    rw [hq.bitsAhead_eq]
    cases hfin : q.finishedFetching with
    | true =>
      have := (hone.fetched hfin).1
      omega
    | false =>
      have := hahead.resolve_left (by simp [hfin])
      omega
  rw [Carries.skip_eq (MeasuredLoops.run_of_inr (skipRound_lt 8) (skipRound_last hfetched)),
    Nat.mod_eq_of_lt (by omega)]
  refine ⟨hone.move hbehind, ?_⟩
  dsimp only
  rw [htotal]

theorem Within.u_eight (h : p.Within n) : Moves p (p.u 8).2 n ∧ uVisits Anywhere Refills 8 p :=
  h.u fun _ => ⟨trivial, trivial, trivial⟩

/-- The loop over the zero bytes ends if there is a one bit in front of it. -/
theorem OneAt.skipAllZeros (h : p.OneAt i) (hw : p.Within n) {rounds : ℕ}
    (hi : i < p.iTotalBitIndex + 8 * rounds) :
    ∃ q, Moves p q n ∧ ∀ fuel, rounds ≤ fuel →
      Parse.skipAllZerosAndTheNextByte fuel p = .ok ((), q) := by
  induction rounds generalizing p with
  | zero =>
    have := h.ahead
    omega
  | succ rounds ih =>
    by_cases hzero : (p.u 8).1 = 0
    · obtain ⟨hone, htotal⟩ := h.zeroByte hw hzero
      obtain ⟨q, hq, hrun⟩ := ih hone hw.u_eight.1.within (by omega)
      refine ⟨q, hw.u_eight.1.trans hq, fun fuel hfuel => ?_⟩
      obtain ⟨fuel, rfl⟩ := Nat.exists_eq_succ_of_ne_zero (by omega : fuel ≠ 0)
      rw [skipAllZeros_succ, if_pos hzero]
      exact hrun fuel (by omega)
    · refine ⟨_, hw.u_eight.1, fun fuel hfuel => ?_⟩
      obtain ⟨fuel, rfl⟩ := Nat.exists_eq_succ_of_ne_zero (by omega : fuel ≠ 0)
      rw [skipAllZeros_succ, if_neg hzero]

theorem Within.zeroBytes (h : p.Within n) (j : ℕ) :
    uVisits Anywhere Refills 8 ((fun q : RbspParser => (q.u 8).2)^[j] p) := by
  have hw : Within ((fun q : RbspParser => (q.u 8).2)^[j] p) n := by
    induction j with
    | zero => exact h
    | succ j ih =>
      rw [Function.iterate_succ_apply']
      exact ih.u_eight.1.within
  exact hw.u_eight.2

/-! ## Calls -/

/-- A call of the parser. -/
inductive Call
  | getNextBit
  | u (iNumBits : ℕ)
  | i (iNumBits : ℕ)
  | ue
  | se
  | skip (iNumBits : ℕ)
  | getCache24
  | moreRbspData
  | getByte
  | byteAlignment
  | rbspTrailingBits
  | skipAllZerosAndTheNextByte
  deriving DecidableEq, Repr

namespace Call

/-- The call, without its value. -/
def run (fuel : ℕ) : Call → Parse Unit
  | getNextBit => do let _ ← Parse.getNextBit
  | u iNumBits => do let _ ← Parse.u iNumBits
  | .i iNumBits => do let _ ← Parse.i iNumBits
  | ue => do let _ ← Parse.ue
  | se => do let _ ← Parse.se
  | skip iNumBits => Parse.skip iNumBits
  | getCache24 => do let _ ← step fun p => p.getCache24
  | moreRbspData => do let _ ← Parse.moreRbspData
  | getByte => do let _ ← Parse.getByte
  | byteAlignment => do let _ ← Parse.byteAlignment fuel
  | rbspTrailingBits => do let _ ← Parse.rbspTrailingBits fuel
  | skipAllZerosAndTheNextByte => Parse.skipAllZerosAndTheNextByte fuel

/-- The states at which the call reads a single bit, or counts the bits ahead. -/
def Visits (bit count : RbspParser → Prop) : Call → RbspParser → Prop
  | getNextBit, p => bit p
  | u iNumBits, p => uVisits bit count iNumBits p
  | .i iNumBits, p => uVisits bit count iNumBits p
  | ue, p => ueVisits bit count p
  | se, p => ueVisits bit count p
  | skip _, p => count p
  | getCache24, p => count p
  | moreRbspData, _ => True
  | getByte, _ => True
  | byteAlignment, p => alignmentVisits bit count p
  | rbspTrailingBits, p => trailingVisits bit count p
  | skipAllZerosAndTheNextByte, p =>
    ∀ j, uVisits bit count 8 ((fun q : RbspParser => (q.u 8).2)^[j] p)

/-- The call asks for nothing that is not there: every single bit and the byte come
with the refill, or the data is at its end; the trailing bits are in the payload, and
a one bit is in front of the skip over the zero bytes. -/
def Ready (n : ℕ) (c : Call) (p : RbspParser) : Prop :=
  c.Visits BitReady Anywhere p ∧
    match c with
    | getByte => p.ByteReady
    | rbspTrailingBits => StopReady n p
    | skipAllZerosAndTheNextByte => ∃ i, p.OneAt i
    | _ => True

/-- With enough fuel the call goes from `p` to `q`. -/
def Leads (c : Call) (p q : RbspParser) : Prop :=
  ∃ need, ∀ fuel, need ≤ fuel → c.run fuel p = .ok ((), q)

/-- No count of the bits ahead wraps. -/
def Exact (c : Call) (p : RbspParser) : Prop := c.Visits Anywhere Refills p

theorem Leads.unique {c : Call} {p q r : RbspParser} (h : c.Leads p q) (h' : c.Leads p r) :
    q = r := by
  obtain ⟨need, hrun⟩ := h
  obtain ⟨need', hrun'⟩ := h'
  have heq := (hrun (max need need') (le_max_left _ _)).symm.trans
    (hrun' (max need need') (le_max_right _ _))
  simpa using heq

theorem leads_step {c : Call} {p : RbspParser} (q : RbspParser)
    (h : ∀ fuel, c.run fuel p = .ok ((), q)) : c.Leads p q :=
  ⟨0, fun fuel _ => h fuel⟩

theorem andThen_ok {α β : Type} {m : Parse α} {f : α → Parse β} {p q : RbspParser} {a : α}
    (h : m p = .ok (a, q)) : (m >>= f) p = f a q := by
  have hb : (m >>= f) p = andThen m f p := rfl
  rw [hb, andThen, h]

theorem leads_of_ready {c : Call} {p : RbspParser} {n : ℕ} (h : p.Within n) (hready : c.Ready n p) :
    c.Exact p ∧ ∃ q, c.Leads p q ∧ Moves p q n := by
  obtain ⟨hvisits, hcall⟩ := hready
  cases c with
  | getNextBit => exact ⟨trivial, _, leads_step _ fun _ => rfl, h.getNextBit hvisits⟩
  | u k =>
    obtain ⟨hm, hcount⟩ := h.u hvisits
    exact ⟨hcount, _, leads_step _ fun _ => rfl, hm⟩
  | i k =>
    obtain ⟨hm, hcount⟩ := h.u hvisits
    exact ⟨hcount, _, leads_step _ fun _ => rfl, hm⟩
  | ue =>
    obtain ⟨hm, hcount⟩ := h.ue hvisits
    exact ⟨hcount, _, leads_step _ fun _ => rfl, hm⟩
  | se =>
    obtain ⟨hm, hcount⟩ := h.se hvisits
    exact ⟨hcount, _, leads_step _ fun _ => rfl, hm⟩
  | skip k => exact ⟨h.refills, _, leads_step _ fun _ => rfl, h.skip k⟩
  | getCache24 => exact ⟨h.refills, _, leads_step _ fun _ => rfl, h.getCache24⟩
  | moreRbspData => exact ⟨trivial, _, leads_step _ fun _ => rfl, h.moreRbspData⟩
  | getByte =>
    obtain ⟨v, q, hm, hrun⟩ := h.getByte hcall
    refine ⟨trivial, q, leads_step _ fun fuel => ?_, hm⟩
    exact (andThen_ok hrun).trans rfl
  | byteAlignment =>
    obtain ⟨hcounts, v, q, hm, hrun⟩ := h.byteAlignment hvisits
    exact ⟨hcounts, q, ⟨9, fun fuel hfuel => (andThen_ok (hrun fuel hfuel)).trans rfl⟩, hm⟩
  | rbspTrailingBits =>
    obtain ⟨hcounts, v, q, hm, hrun⟩ := h.rbspTrailingBits hcall hvisits
    exact ⟨hcounts, q, ⟨9, fun fuel hfuel => (andThen_ok (hrun fuel hfuel)).trans rfl⟩, hm⟩
  | skipAllZerosAndTheNextByte =>
    obtain ⟨i, hone⟩ := hcall
    obtain ⟨q, hm, hrun⟩ := hone.skipAllZeros h (show i < p.iTotalBitIndex + 8 * (i + 1) by omega)
    exact ⟨h.zeroBytes, q, ⟨i + 1, hrun⟩, hm⟩

end Call

/-! ## Runs -/

/-- The states of a run of calls that are all allowed. -/
inductive Run (allowed : Call → RbspParser → Prop) (p : RbspParser) : RbspParser → Prop
  | start : Run allowed p p
  | call {q r : RbspParser} (c : Call) (run : Run allowed p q) (ok : allowed c q)
    (leads : c.Leads q r) : Run allowed p r

/-- The call ends, with the cursor no further back and inside the `n` bytes of the
payload, and no count of the bits ahead wraps. -/
def Call.Inside (n : ℕ) (c : Call) (p : RbspParser) : Prop :=
  c.Exact p ∧ ∃ q, c.Leads p q ∧ p.iTotalBitIndex ≤ q.iTotalBitIndex ∧ q.iTotalBitIndex ≤ 8 * n

theorem within_init (pStream : CircBuffer) (pBuffer : ℕ → UInt8) (bHasSC : Bool)
    (hsmall : 8 * ((init pStream pBuffer bHasSC).pending.length + 1) < 2 ^ 32) :
    (init pStream pBuffer bHasSC).Within (init pStream pBuffer bHasSC).pending.length where
  total_le := le_rfl
  trailing_le := (Nat.zero_add _).le
  conceal_ge := le_rfl
  starts := Nat.zero_le _
  small := hsmall

theorem Run.moves (h : p.Within n) (hrun : Run (Call.Ready n) p q) : Moves p q n := by
  induction hrun with
  | start => exact h.moves
  | call c _ ready leads ih =>
    obtain ⟨-, r, hr, hm⟩ := Call.leads_of_ready ih.within ready
    obtain rfl := leads.unique hr
    exact ih.trans hm

/-- From the beginning of any payload, behind any run of ready calls: the cursor is
inside the payload, and so it is behind a ready call. -/
theorem ready_inside (pStream : CircBuffer) (pBuffer : ℕ → UInt8) (bHasSC : Bool)
    (hsmall : 8 * ((init pStream pBuffer bHasSC).pending.length + 1) < 2 ^ 32) (p : RbspParser)
    (hrun : Run (Call.Ready (init pStream pBuffer bHasSC).pending.length)
      (init pStream pBuffer bHasSC) p) :
    p.iTotalBitIndex ≤ 8 * (init pStream pBuffer bHasSC).pending.length ∧
      ∀ c : Call, c.Ready (init pStream pBuffer bHasSC).pending.length p →
        c.Inside (init pStream pBuffer bHasSC).pending.length p := by
  have hm := hrun.moves (within_init pStream pBuffer bHasSC hsmall)
  refine ⟨hm.within.total_le_payload, fun c hc => ?_⟩
  obtain ⟨hexact, q, hq, hmq⟩ := Call.leads_of_ready hm.within hc
  exact ⟨hexact, q, hq, hmq.le, hmq.within.total_le_payload⟩

/-! ## A message that is cut off -/

/-- A supplemental message that ends behind its type. -/
def cutMessage : CircBuffer := ⟨memOf [0, 0, 1, 0x4E, 1, 5], 6, 0, 6⟩

/-- The parser behind the start code and the header of the message. -/
def behindHeader : RbspParser := ((init cutMessage (fun _ => 0) true).behindStartCode.u 16).2

theorem run_behindHeader {allowed : Call → RbspParser → Prop}
    (hskip : allowed .skipAllZerosAndTheNextByte (init cutMessage (fun _ => 0) true))
    (hu : allowed (.u 16) (init cutMessage (fun _ => 0) true).behindStartCode) :
    Run allowed (init cutMessage (fun _ => 0) true) behindHeader := by
  have hholds : cutMessage.Holds [0, 0, 1, 0x4E, 1, 5] := ⟨rfl, by decide⟩
  apply Run.call (.u 16) _ hu (Call.leads_step _ fun _ => rfl)
  apply Run.call .skipAllZerosAndTheNextByte .start hskip
  refine ⟨3, fun fuel hfuel => ?_⟩
  obtain ⟨k, rfl⟩ := Nat.exists_eq_add_of_le' hfuel
  exact skipAllZeros_startCode hholds _ k

/-- Behind the header the cursor is inside the six bytes. -/
theorem ready_inside_cutMessage :
    behindHeader.iTotalBitIndex ≤ 48 ∧ Call.Inside 6 .ue behindHeader := by
  have hlength : (init cutMessage (fun _ => 0) true).pending.length = 6 := by decide +kernel
  have hinside := ready_inside cutMessage (fun _ => 0) true (by rw [hlength]; decide) behindHeader
    (run_behindHeader
      ⟨fun _ _ => ⟨trivial, trivial, trivial⟩, 23, by decide, by decide +kernel, by decide +kernel⟩
      ⟨fun _ => ⟨trivial, trivial, trivial⟩, trivial⟩)
  rw [hlength] at hinside
  refine ⟨hinside.1, hinside.2 .ue ⟨fun _ => ⟨trivial, ?_⟩, trivial⟩⟩
  dsimp only
  rw [if_neg (by decide +kernel)]
  exact ⟨trivial, fun _ _ _ => ⟨trivial, trivial, trivial⟩⟩

/-- The last byte of the message is asked for: its stop bit is in front of the cursor
then, and the next count of the bits ahead wraps. -/
theorem not_inside : ¬∀ (pStream : CircBuffer) (pBuffer : ℕ → UInt8) (bHasSC : Bool),
    8 * ((init pStream pBuffer bHasSC).pending.length + 1) < 2 ^ 32 → ∀ p,
      Run (fun _ _ => True) (init pStream pBuffer bHasSC) p →
        p.iTotalBitIndex ≤ 8 * (init pStream pBuffer bHasSC).pending.length ∧
          ∀ c : Call, c.Inside (init pStream pBuffer bHasSC).pending.length p := by
  intro hall
  have hlength : (init cutMessage (fun _ => 0) true).pending.length = 6 := by decide +kernel
  have hbyte : ∃ v q, Parse.getByte behindHeader = .ok (v, q) ∧ q.iTotalBitIndex = 48 ∧
      q.iTrailingBitOneIndex = 47 ∧ q.iTrailingBitOneIndexConceal = 48 := by
    unfold Parse.getByte
    rw [if_neg (by decide +kernel), if_pos (by decide +kernel)]
    rw [if_pos (by decide +kernel)]
    exact ⟨_, _, rfl, by decide +kernel, by decide +kernel, by decide +kernel⟩
  obtain ⟨v, q, hget, htotal, htrailing, hconceal⟩ := hbyte
  have hrun : Run (fun _ _ => True) (init cutMessage (fun _ => 0) true) q := by
    apply Run.call .getByte (run_behindHeader trivial trivial) trivial
    exact Call.leads_step q fun _ => (Call.andThen_ok hget).trans rfl
  obtain ⟨hexact, -⟩ := (hall cutMessage (fun _ => 0) true (by rw [hlength]; decide) q hrun).2 (.u 8)
  have hmore : q.moreRbspDataConceal = true := by
    unfold moreRbspDataConceal
    rw [htotal, hconceal]
    decide
  have hcount : q.iTotalBitIndex ≤ q.iTrailingBitOneIndex := (hexact hmore).1 0
  rw [htotal, htrailing] at hcount
  exact absurd hcount (by decide)

end RbspParser

end VcuCodec
