import VcuCodec.RbspFetch

/-!
# What the RBSP parser reads

`p.Carries bytes stop`: the parser stands in front of the payload `bytes`, whose
last one bit, the RBSP stop bit, is bit `stop`.  A part of the payload is in the
scratch buffer, the rest is still in the stream.  Up to the stop bit every
descriptor reads the bits of the payload, whatever the chunks of the fetch and
the old content of the scratch buffer.
-/

namespace VcuCodec

open BitStrings

def memOf (bytes : List UInt8) : ℕ → UInt8 := fun i => bytes.getD i 0

theorem memOf_of_lt {bytes : List UInt8} {i : ℕ} (h : i < bytes.length) : memOf bytes i = bytes[i] := by
  simp [memOf, h]

namespace RbspParser

/-! ## Bits of the buffer -/

variable {p q : RbspParser} {bytes : List UInt8} {stop n : ℕ}

theorem readBit_eq_zero {i : ℕ} : p.readBit i = 0 ↔ bitAt p.pBuffer i = false := by
  unfold readBit bitAt
  rw [Nat.one_shiftLeft, Nat.and_two_pow]
  cases (p.pBuffer (i / 8)).toNat.testBit (7 - i % 8) <;> simp

theorem trailingBitOne_eq {i n : ℕ} (hin : i ≤ n) (hbit : bitAt p.pBuffer i = true)
    (hzero : ∀ j, i < j → j ≤ n → bitAt p.pBuffer j = false) : p.trailingBitOne n = i := by
  induction n with
  | zero => simp [trailingBitOne, Nat.le_zero.mp hin]
  | succ n ih =>
    unfold trailingBitOne
    by_cases hn : i = n + 1
    · subst hn
      rw [if_neg]
      rw [readBit_eq_zero, hbit]
      decide
    · rw [if_pos (readBit_eq_zero.mpr (hzero _ (by omega) le_rfl))]
      exact ih (by omega) fun j hlo hhi => hzero j hlo (by omega)

theorem or_bytes {a b c d : ℕ} (hb : b < 2 ^ 8) (hc : c < 2 ^ 8) (hd : d < 2 ^ 8) :
    a <<< 24 ||| b <<< 16 ||| c <<< 8 ||| d = ((a * 2 ^ 8 + b) * 2 ^ 8 + c) * 2 ^ 8 + d := by
  have hab : a <<< 24 ||| b <<< 16 = (a * 2 ^ 8 + b) <<< 16 := by
    rw [← Nat.shiftLeft_add_eq_or_of_lt (by rw [Nat.shiftLeft_eq]; omega)]
    simp only [Nat.shiftLeft_eq]
    ring
  have habc : (a * 2 ^ 8 + b) <<< 16 ||| c <<< 8 = ((a * 2 ^ 8 + b) * 2 ^ 8 + c) <<< 8 := by
    rw [← Nat.shiftLeft_add_eq_or_of_lt (by rw [Nat.shiftLeft_eq]; omega)]
    simp only [Nat.shiftLeft_eq]
    ring
  rw [hab, habc, ← Nat.shiftLeft_add_eq_or_of_lt hd, Nat.shiftLeft_eq]

theorem cache_eq (mem : ℕ → UInt8) (i : ℕ) :
    ((mem (i / 8 + 0)).toNat <<< 24 ||| (mem (i / 8 + 1)).toNat <<< 16 |||
        (mem (i / 8 + 2)).toNat <<< 8 ||| (mem (i / 8 + 3)).toNat) >>> (8 - i % 8) &&& 0x00FFFFFF =
      value (window mem i 24) := by
  have hword : value (window mem (8 * (i / 8)) 32) =
      (((mem (i / 8 + 0)).toNat * 2 ^ 8 + (mem (i / 8 + 1)).toNat) * 2 ^ 8 +
        (mem (i / 8 + 2)).toNat) * 2 ^ 8 + (mem (i / 8 + 3)).toNat := by
    rw [show 32 = 8 + 8 + 8 + 8 by rfl, window_add, window_add, window_add,
      show 8 * (i / 8) + (8 + 8 + 8) = 8 * (i / 8 + 3) by ring,
      show 8 * (i / 8) + (8 + 8) = 8 * (i / 8 + 2) by ring,
      show 8 * (i / 8) + 8 = 8 * (i / 8 + 1) by ring]
    simp only [window_byte, value_append, length_fixed]
    simp only [value_fixed_of_lt (UInt8.toNat_lt _), Nat.add_zero]
  have hsplit : window mem (8 * (i / 8)) 32 =
      window mem (8 * (i / 8)) (i % 8) ++ (window mem i 24 ++ window mem (i + 24) (8 - i % 8)) := by
    rw [show 32 = i % 8 + (24 + (8 - i % 8)) by omega, window_add, window_add,
      show 8 * (i / 8) + i % 8 = i by omega]
  have hlow := value_lt (window mem (i + 24) (8 - i % 8))
  have hmid := value_lt (window mem i 24)
  rw [length_window] at hlow hmid
  rw [or_bytes (UInt8.toNat_lt _) (UInt8.toNat_lt _) (UInt8.toNat_lt _), ← hword, hsplit,
    value_append, value_append, List.length_append, length_window, length_window,
    Nat.shiftRight_eq_div_pow, show 0x00FFFFFF = 2 ^ 24 - 1 by rfl, Nat.and_two_pow_sub_one_eq_mod]
  have hdiv : (value (window mem (8 * (i / 8)) (i % 8)) * 2 ^ (24 + (8 - i % 8)) +
      (value (window mem i 24) * 2 ^ (8 - i % 8) + value (window mem (i + 24) (8 - i % 8)))) /
        2 ^ (8 - i % 8) =
      value (window mem (8 * (i / 8)) (i % 8)) * 2 ^ 24 + value (window mem i 24) := by
    rw [pow_add, ← Nat.mul_assoc, ← Nat.add_assoc, ← Nat.add_mul, Nat.mul_comm _ (2 ^ (8 - i % 8)),
      Nat.mul_add_div (Nat.two_pow_pos _), Nat.div_eq_of_lt hlow, Nat.add_zero]
  rw [hdiv, Nat.mul_add_mod_self_right, Nat.mod_eq_of_lt hmid]

/-! ## The parser in front of a payload -/

/-- The rest of the payload is in the stream. -/
structure Fetching (p : RbspParser) (bytes : List UInt8) : Prop where
  unfinished : p.finishedFetching = false
  starts : p.uNumScDetect ≤ 1
  got : ∃ got, bytes = got ++ p.pending ∧ p.iTrailingBitOneIndex = 8 * got.length ∧
    p.iTrailingBitOneIndexConceal = 8 * got.length ∧ ∀ i (h : i < got.length), p.pBuffer i = got[i]
  total : p.iTotalBitIndex ≤ p.iTrailingBitOneIndex

/-- The payload is in the scratch buffer.  The search for its last one bit begins
one bit behind it: an old one bit there is taken for it. -/
structure Fetched (p : RbspParser) (bytes : List UInt8) (stop : ℕ) : Prop where
  finished : p.finishedFetching = true
  buffer : ∀ i < bytes.length, p.pBuffer i = memOf bytes i
  trailing : p.iTrailingBitOneIndex = stop ∨
    p.iTrailingBitOneIndex = 8 * bytes.length ∧ bitAt p.pBuffer (8 * bytes.length) = true
  conceal : p.iTrailingBitOneIndexConceal = (p.iTrailingBitOneIndex + 8) / 8 * 8

/-- The parser has not passed the stop bit of the payload. -/
structure Carries (p : RbspParser) (bytes : List UInt8) (stop : ℕ) : Prop where
  small : 8 * bytes.length < 2 ^ 32
  last : stop / 8 + 1 = bytes.length
  one : bitAt (memOf bytes) stop = true
  zeros : ∀ i, stop < i → i < 8 * bytes.length → bitAt (memOf bytes) i = false
  total : p.iTotalBitIndex ≤ stop
  pByte : p.pByte = p.iTotalBitIndex / 8
  fetch : p.Fetching bytes ∨ p.Fetched bytes stop

theorem Fetching.trailing_le (h : p.Fetching bytes) : p.iTrailingBitOneIndex ≤ 8 * bytes.length := by
  obtain ⟨got, hb, ht, -⟩ := h.got
  rw [ht, hb, List.length_append]
  omega

namespace Carries

theorem le_trailing (h : p.Carries bytes stop) : p.iTotalBitIndex ≤ p.iTrailingBitOneIndex := by
  rcases h.fetch with hf | hf
  · exact hf.total
  · have := h.total
    have := h.last
    rcases hf.trailing with ht | ht <;> omega

theorem trailing_le (h : p.Carries bytes stop) : p.iTrailingBitOneIndex ≤ 8 * bytes.length := by
  rcases h.fetch with hf | hf
  · exact hf.trailing_le
  · have := h.last
    rcases hf.trailing with ht | ht <;> omega

theorem moreRbspDataConceal (h : p.Carries bytes stop) : p.moreRbspDataConceal = true := by
  have hle := h.le_trailing
  have hc : p.iTrailingBitOneIndex ≤ p.iTrailingBitOneIndexConceal := by
    rcases h.fetch with hf | hf
    · obtain ⟨got, -, ht, hc, -⟩ := hf.got
      omega
    · rw [hf.conceal]
      omega
  exact decide_eq_true (hle.trans hc)

theorem bitsAhead_eq (h : p.Carries bytes stop) :
    p.bitsAhead = p.iTrailingBitOneIndex - p.iTotalBitIndex := by
  have h1 := h.le_trailing
  have h2 := h.trailing_le
  have h3 := h.small
  unfold bitsAhead
  omega

theorem bitAt_eq (h : p.Carries bytes stop) {i : ℕ} (hi : i ≤ stop)
    (hin : i < p.iTrailingBitOneIndex ∨ p.finishedFetching = true) :
    bitAt p.pBuffer i = bitAt (memOf bytes) i := by
  have hlast := h.last
  apply bitAt_congr
  rcases h.fetch with hf | hf
  · have hin := hin.resolve_right (by simp [hf.unfinished])
    obtain ⟨got, hb, ht, -, hbuf⟩ := hf.got
    have hlt : i / 8 < got.length := by omega
    rw [hbuf _ hlt, memOf_of_lt (by omega)]
    simp only [hb, List.getElem_append_left hlt]
  · exact hf.buffer _ (by omega)

theorem move (h : p.Carries bytes stop) {i : ℕ} (hi : i ≤ stop) (ht : i ≤ p.iTrailingBitOneIndex) :
    Carries { p with iTotalBitIndex := i, pByte := i / 8 } bytes stop where
  small := h.small
  last := h.last
  one := h.one
  zeros := h.zeros
  total := hi
  pByte := rfl
  fetch := by
    refine h.fetch.imp (fun hf => ?_) fun hf => ?_
    · exact ⟨hf.unfinished, hf.starts, hf.got, ht⟩
    · exact ⟨hf.finished, hf.buffer, hf.trailing, hf.conceal⟩

/-- The scratch buffer behind the payload stays as it is. -/
structure Same (p q : RbspParser) (bytes : List UInt8) : Prop where
  total : q.iTotalBitIndex = p.iTotalBitIndex
  behind : ∀ i, bytes.length ≤ i → q.pBuffer i = p.pBuffer i

theorem Same.rfl : Same p p bytes := ⟨Eq.refl _, fun _ _ => Eq.refl _⟩

/-- A fetch brings at least 20 more bytes, or the rest. -/
theorem fetchData (h : p.Carries bytes stop) :
    p.fetchData.2.Carries bytes stop ∧ Same p p.fetchData.2 bytes ∧
      (p.fetchData.2.finishedFetching = true ∨
        p.fetchData.1 = true ∧ p.iTrailingBitOneIndex + 160 ≤ p.fetchData.2.iTrailingBitOneIndex) := by
  rcases h.fetch with hf | hf
  · obtain ⟨got, hb, ht, hc, hbuf⟩ := hf.got
    obtain ⟨taken, hq⟩ := fetchLoop_fetches ANTI_EMUL_GRANULARITY p.iBufInOffset
      (p.iTrailingBitOneIndex / 8) hf.starts rfl
    unfold RbspParser.fetchData
    rw [if_neg (by simp [hf.unfinished])]
    dsimp only
    generalize fetchLoop ANTI_EMUL_GRANULARITY p.iBufInOffset (p.iTrailingBitOneIndex / 8) p = q at *
    rw [show p.iTrailingBitOneIndex / 8 = got.length by omega] at hq
    have hbytes : bytes = (got ++ taken) ++ q.pending := by
      rw [List.append_assoc, ← hq.pending, ← hb]
    have hbuf' : ∀ i (hi : i < (got ++ taken).length), q.pBuffer i = (got ++ taken)[i] := by
      intro i hi
      rw [hq.buffer i]
      rw [List.length_append] at hi
      by_cases hig : i < got.length
      · rw [dif_neg (by omega), hbuf i hig, List.getElem_append_left hig]
      · rw [dif_pos ⟨by omega, by omega⟩, List.getElem_append_right (by omega)]
    have hsame : ∀ i, bytes.length ≤ i → q.pBuffer i = p.pBuffer i := by
      intro i hi
      rw [hq.buffer, dif_neg]
      rw [hbytes, List.length_append, List.length_append] at hi
      omega
    cases hfin : q.finishedFetching with
    | false =>
      rw [if_neg (by simp)]
      have hstarts : q.uNumScDetect ≤ 1 := by
        have := hq.starts
        have hne : q.uNumScDetect ≠ 2 := by
          intro h2
          simp [finishedFetching, h2] at hfin
        omega
      refine ⟨⟨h.small, h.last, h.one, h.zeros, hq.total.trans_le h.total, ?_, .inl ⟨hfin, hstarts,
        ⟨got ++ taken, hbytes, ?_, ?_, hbuf'⟩, ?_⟩⟩, ⟨hq.total, hsame⟩, .inr ⟨rfl, ?_⟩⟩
      · rw [hq.pByte, hq.total, h.pByte]
      · rw [hq.trailing, ht, List.length_append]
        omega
      · rw [hq.conceal, hc, List.length_append]
        omega
      · rw [hq.total, hq.trailing]
        have := hf.total
        omega
      · have := hq.progress hfin
        have hz : p.zeroCredit ≤ 2 := Nat.min_le_right _ _
        unfold ANTI_EMUL_GRANULARITY at this
        rw [hq.trailing]
        omega
    | true =>
      rw [if_pos rfl]
      rw [pending_of_finished hfin, List.append_nil] at hbytes
      subst hbytes
      have hmem : ∀ i < (got ++ taken).length, q.pBuffer i = memOf (got ++ taken) i := by
        intro i hi
        rw [hbuf' i hi, memOf_of_lt hi]
      have htr : q.iTrailingBitOneIndex = 8 * (got ++ taken).length := by
        rw [hq.trailing, ht, List.length_append]
        omega
      have hbit : ∀ i < 8 * (got ++ taken).length,
          bitAt q.pBuffer i = bitAt (memOf (got ++ taken)) i := by
        intro i hi
        exact bitAt_congr (hmem _ (by omega))
      have hlast := h.last
      have htot := h.total
      -- the last one bit in the buffer, from one bit behind the payload on
      have hone : q.trailingBitOne q.iTrailingBitOneIndex = stop ∨
          q.trailingBitOne q.iTrailingBitOneIndex = 8 * (got ++ taken).length ∧
            bitAt q.pBuffer (8 * (got ++ taken).length) = true := by
        rw [htr]
        cases hold : bitAt q.pBuffer (8 * (got ++ taken).length) with
        | true => exact .inr ⟨trailingBitOne_eq le_rfl hold (by omega), rfl⟩
        | false =>
          left
          apply trailingBitOne_eq (by omega) ((hbit _ (by omega)).trans h.one)
          intro j hlo hhi
          rcases Nat.lt_or_ge j (8 * (got ++ taken).length) with hj | hj
          · rw [hbit j hj, h.zeros j hlo hj]
          · rwa [show j = 8 * (got ++ taken).length by omega]
      have hge : ¬q.trailingBitOne q.iTrailingBitOneIndex < q.iTotalBitIndex := by
        rw [hq.total]
        rcases hone with h1 | h1 <;> omega
      unfold removeTrailingBits
      dsimp only
      rw [if_neg hge]
      refine ⟨⟨h.small, h.last, h.one, h.zeros, hq.total.trans_le htot, ?_,
        .inr ⟨hfin, hmem, hone, rfl⟩⟩, ⟨hq.total, hsame⟩, .inl hfin⟩
      dsimp only
      rw [hq.pByte, hq.total, h.pByte]
  · have hfail : p.fetchData = (false, p) := if_pos hf.finished
    rw [hfail]
    exact ⟨h, .rfl, .inl hf.finished⟩

theorem fetchData_of_finished (hf : p.finishedFetching = true) : p.fetchData = (false, p) :=
  if_pos hf

/-! ## Reading -/

theorem takeBit (h : p.Carries bytes stop) (hn : p.iTotalBitIndex + 1 ≤ stop)
    (hin : p.iTotalBitIndex + 1 ≤ p.iTrailingBitOneIndex) :
    p.takeBit.1 = (bitAt (memOf bytes) p.iTotalBitIndex).toNat ∧
      p.takeBit.2.Carries bytes stop ∧ p.takeBit.2.iTotalBitIndex = p.iTotalBitIndex + 1 ∧
      p.takeBit.2.pBuffer = p.pBuffer := by
  have hbit := h.bitAt_eq (i := p.iTotalBitIndex) (by omega) (.inl (by omega))
  have hmask : 0x80 >>> (p.iTotalBitIndex % 8) = 2 ^ (7 - p.iTotalBitIndex % 8) := by
    have : ∀ k < 8, 0x80 >>> k = 2 ^ (7 - k) := by decide
    exact this _ (Nat.mod_lt _ (by omega))
  have hmove : p.takeBit.2 =
      { p with iTotalBitIndex := p.iTotalBitIndex + 1, pByte := (p.iTotalBitIndex + 1) / 8 } := by
    have hb : (if p.iTotalBitIndex % 8 = 7 then p.pByte + 1 else p.pByte) =
        (p.iTotalBitIndex + 1) / 8 := by
      rw [h.pByte]
      split <;> omega
    unfold RbspParser.takeBit
    dsimp only
    rw [hb]
  refine ⟨?_, hmove ▸ h.move hn hin, hmove ▸ rfl, hmove ▸ rfl⟩
  rw [← hbit]
  unfold RbspParser.takeBit bitAt
  dsimp only
  rw [hmask, Nat.and_two_pow, h.pByte]
  cases (p.pBuffer (p.iTotalBitIndex / 8)).toNat.testBit (7 - p.iTotalBitIndex % 8) <;> simp

/-- `q` is `p` behind `n` more bits. -/
structure Advances (p q : RbspParser) (bytes : List UInt8) (stop n : ℕ) : Prop where
  carries : q.Carries bytes stop
  total : q.iTotalBitIndex = p.iTotalBitIndex + n
  behind : ∀ i, bytes.length ≤ i → q.pBuffer i = p.pBuffer i

theorem getNextBit (h : p.Carries bytes stop) (hn : p.iTotalBitIndex + 1 ≤ stop) :
    p.getNextBit.1 = (bitAt (memOf bytes) p.iTotalBitIndex).toNat ∧
      Advances p p.getNextBit.2 bytes stop 1 := by
  unfold RbspParser.getNextBit
  split
  · next ht =>
    obtain ⟨hq, hsame, hprog⟩ := h.fetchData
    have hsucc : p.fetchData.1 = true := by
      cases hf : p.fetchData.1 with
      | true => rfl
      | false =>
        rw [fetchData_fail hf, hf] at hprog
        have hfin := hprog.resolve_right (by simp)
        have hfd := h.fetch.resolve_left (fun hfg => by simp [hfg.unfinished] at hfin)
        have := h.last
        rcases hfd.trailing with h1 | h1 <;> omega
    have hin : p.fetchData.2.iTotalBitIndex + 1 ≤ p.fetchData.2.iTrailingBitOneIndex := by
      rw [hsame.total]
      have hle := h.le_trailing
      rcases hprog with hfin | ⟨-, hge⟩
      · have hfd := hq.fetch.resolve_left (fun hfg => by simp [hfg.unfinished] at hfin)
        have := hq.last
        rcases hfd.trailing with h1 | h1 <;> omega
      · omega
    have hbit := hq.takeBit (by rw [hsame.total]; exact hn) hin
    rw [hsame.total] at hbit
    dsimp only
    rw [if_pos hsucc]
    refine ⟨hbit.1, hbit.2.1, hbit.2.2.1, fun i hi => ?_⟩
    rw [hbit.2.2.2, hsame.behind i hi]
  · obtain ⟨hbit, hc, ht, hb⟩ := h.takeBit hn (by omega)
    exact ⟨hbit, hc, ht, fun i _ => by rw [hb]⟩

/-- The cache: the next 24 bits, as far as the payload goes. -/
theorem getCache24 (h : p.Carries bytes stop) :
    p.getCache24.1 = value (window p.getCache24.2.pBuffer p.iTotalBitIndex 24) ∧
      Advances p p.getCache24.2 bytes stop 0 ∧
      ∀ i, i < p.iTotalBitIndex + 32 → i ≤ stop →
        bitAt p.getCache24.2.pBuffer i = bitAt (memOf bytes) i := by
  have hq : ∀ q : RbspParser, q = (if p.bitsAhead < 32 then p.fetchData.2 else p) →
      q.Carries bytes stop ∧ Same p q bytes ∧
        (q.finishedFetching = true ∨ p.iTotalBitIndex + 32 ≤ q.iTrailingBitOneIndex) := by
    rintro q rfl
    have hle := h.le_trailing
    have hah := h.bitsAhead_eq
    split
    · obtain ⟨hq, hsame, hprog⟩ := h.fetchData
      exact ⟨hq, hsame, hprog.imp_right fun hge => by omega⟩
    · exact ⟨h, .rfl, .inr (by omega)⟩
  unfold RbspParser.getCache24
  dsimp only
  generalize hqe : (if p.bitsAhead < 32 then p.fetchData.2 else p) = q
  obtain ⟨hqc, hsame, hin⟩ := hq q hqe.symm
  refine ⟨?_, ⟨hqc, hsame.total, hsame.behind⟩, fun i hi hs => ?_⟩
  · rw [hsame.total]
    exact cache_eq q.pBuffer p.iTotalBitIndex
  · exact hqc.bitAt_eq hs (hin.symm.imp_left fun hge => by omega)

theorem skip_eq {iNumBits : ℕ}
    (h : MeasuredLoops.run (skipRound iNumBits) skipMeasure (skipRound_lt iNumBits) (true, p) = (true, q)) :
    p.skip iNumBits = { q with
      iTotalBitIndex := (q.iTotalBitIndex + iNumBits) % 2 ^ 32
      pByte := (q.iTotalBitIndex + iNumBits) % 2 ^ 32 / 8 } := by
  unfold RbspParser.skip
  rw [h]
  simp only [if_true]

theorem skip (h : p.Carries bytes stop) (hn : p.iTotalBitIndex + n ≤ stop) :
    Advances p (p.skip n) bytes stop n := by
  have hrun := MeasuredLoops.run_rule (skipRound_lt n)
    (fun t => t.1 = true ∧ t.2.Carries bytes stop ∧ Same p t.2 bytes)
    (fun t => t.1 = true ∧ t.2.Carries bytes stop ∧ Same p t.2 bytes ∧ n ≤ t.2.bitsAhead)
    ?_ ?_ (s := (true, p)) ⟨rfl, h, .rfl⟩
  · obtain ⟨⟨bRes, q⟩, ht⟩ : ∃ t, MeasuredLoops.run (skipRound n) skipMeasure (skipRound_lt n)
        (true, p) = t := ⟨_, rfl⟩
    rw [ht] at hrun
    obtain ⟨rfl, hq, hsame, hah⟩ := hrun
    dsimp only at hq hsame hah
    have hsmall := h.small
    have hlast := h.last
    rw [hq.bitsAhead_eq, hsame.total] at hah
    have hqle := hq.le_trailing
    rw [hsame.total] at hqle
    have hmod : (q.iTotalBitIndex + n) % 2 ^ 32 = p.iTotalBitIndex + n := by
      rw [hsame.total, Nat.mod_eq_of_lt (by omega)]
    rw [skip_eq ht, hmod]
    exact ⟨hq.move hn (by omega), rfl, hsame.behind⟩
  · -- a round fetches: at the end of the stream the payload is long enough
    rintro ⟨bRes, q⟩ t' ⟨hb, hq, hsame⟩ ht
    dsimp only at hb hq hsame
    subst hb
    simp only [skipRound] at ht
    split at ht
    · next hc =>
      obtain rfl := Sum.inl.inj ht
      obtain ⟨hq', hsame', hprog⟩ := hq.fetchData
      refine ⟨?_, hq', hsame'.total.trans hsame.total, 
        fun i hi => (hsame'.behind i hi).trans (hsame.behind i hi)⟩
      cases hf : q.fetchData.1 with
      | true => rfl
      | false =>
        rw [fetchData_fail hf, hf] at hprog
        have hfin := hprog.resolve_right (by simp)
        have hfd := hq.fetch.resolve_left (fun hfg => by simp [hfg.unfinished] at hfin)
        have hah := hc.2
        rw [hq.bitsAhead_eq, hsame.total] at hah
        have := h.last
        rcases hfd.trailing with h1 | h1 <;> omega
    · simp at ht
  · rintro ⟨bRes, q⟩ t ⟨hb, hq, hsame⟩ ht
    dsimp only at hb hq hsame
    subst hb
    simp only [skipRound] at ht
    split at ht
    · simp at ht
    · next hc =>
      obtain rfl := Sum.inr.inj ht
      exact ⟨rfl, hq, hsame, by simpa using hc⟩

end Carries

end RbspParser

end VcuCodec
