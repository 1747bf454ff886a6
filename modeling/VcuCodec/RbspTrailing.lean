import VcuCodec.RbspCalls

/-!
# The end of a payload

Behind the last element of a payload that is fetched as a whole, `rbsp_trailing_bits`
finds the stop bit and the zeros up to the next byte.  A payload that has been fetched
stays so, whatever is read from it.
-/

namespace VcuCodec

open BitStrings CheckedRuns Checked

namespace RbspParser

variable {p q : RbspParser}

/-! ## A payload that has been fetched -/

theorem getNextBit_finished (h : p.finishedFetching = true) :
    p.getNextBit.2.finishedFetching = true := by
  unfold getNextBit
  rw [Carries.fetchData_of_finished h]
  split
  · exact h
  · exact h

theorem getCache24_finished (h : p.finishedFetching = true) :
    p.getCache24.2.finishedFetching = true := by
  unfold getCache24
  rw [Carries.fetchData_of_finished h]
  dsimp only
  split
  · exact h
  · exact h

theorem finishedFetching_move (p : RbspParser) (i j : ℕ) :
    finishedFetching { p with iTotalBitIndex := i, pByte := j } = p.finishedFetching := rfl

theorem skip_finished (h : p.finishedFetching = true) (n : ℕ) :
    (p.skip n).finishedFetching = true := by
  have hrun := MeasuredLoops.run_rule (skipRound_lt n) (fun t => t.2.finishedFetching = true)
    (fun t => t.2.finishedFetching = true) ?_ ?_ (s := (true, p)) h
  · unfold skip
    dsimp only
    rw [finishedFetching_move]
    exact hrun
  · rintro ⟨bRes, q⟩ t' hq ht
    simp only [skipRound] at ht
    split at ht
    · obtain rfl := Sum.inl.inj ht
      rw [Carries.fetchData_of_finished hq]
      exact hq
    · cases ht
  · rintro ⟨bRes, q⟩ t' hq ht
    simp only [skipRound] at ht
    split at ht
    · cases ht
    · obtain rfl := Sum.inr.inj ht
      exact hq

theorem uLoop_finished (h : p.finishedFetching = true) (n val : ℕ) :
    (uLoop n (val, p)).2.finishedFetching = true := by
  induction n generalizing p val with
  | zero => exact h
  | succ n ih => exact ih (getNextBit_finished h) _

theorem u_finished (h : p.finishedFetching = true) (n : ℕ) : (p.u n).2.finishedFetching = true := by
  unfold u
  have hcache := getCache24_finished h
  split
  · exact h
  split
  · exact getNextBit_finished h
  split
  · exact skip_finished hcache n
  · exact uLoop_finished (skip_finished hcache 24) _ _

theorem ueSuffix_finished (h : p.finishedFetching = true) (n : ℕ) :
    (p.ueSuffix n).2.finishedFetching = true := by
  unfold ueSuffix
  split
  · exact h
  split
  · exact h
  · exact u_finished h n

theorem ue_finished (h : p.finishedFetching = true) : p.ue.2.finishedFetching = true := by
  have hcache := getCache24_finished h
  have hrun := MeasuredLoops.run_rule ueRound_lt (fun t => t.1.finishedFetching = true)
    (fun t => t.2.finishedFetching = true) ?_ ?_ (s := (p.getCache24.2, 0)) hcache
  · unfold ue
    split
    · exact h
    dsimp only
    split
    · generalize MeasuredLoops.run ueRound (fun t => t.1.remaining) ueRound_lt
        (p.getCache24.2, 0) = t at hrun
      obtain ⟨zeros, q⟩ := t
      cases zeros with
      | some n => exact ueSuffix_finished hrun n
      | none => exact hrun
    · exact ueSuffix_finished (skip_finished hcache _) _
  · rintro ⟨q, n⟩ t' hq ht
    simp only [ueRound] at ht
    split at ht
    · cases ht
    split at ht
    · cases ht
    · obtain rfl := Sum.inl.inj ht
      exact getNextBit_finished hq
  · rintro ⟨q, n⟩ t' hq ht
    simp only [ueRound] at ht
    split at ht
    · obtain rfl := Sum.inr.inj ht
      exact getNextBit_finished hq
    split at ht
    · obtain rfl := Sum.inr.inj ht
      exact getNextBit_finished hq
    · cases ht

theorem se_finished (h : p.finishedFetching = true) : p.se.2.finishedFetching = true := by
  unfold se
  split
  · exact h
  · exact ue_finished h

/-- There is more in front of a bit of the payload, whatever the scratch buffer holds. -/
theorem Ahead.moreRbspData_true {clean : Prop} {r : List Bool} (h : p.Ahead clean r) (hr : r ≠ []) :
    p.moreRbspData.1 = true ∧ p.moreRbspData.2.Ahead clean r := by
  obtain ⟨bytes, stop, hc, hclean, hw⟩ := h
  obtain ⟨hq, hsame, hprog⟩ := hc.fetchData
  have hlen := congrArg List.length hw
  rw [length_window] at hlen
  have hpos := List.length_pos_iff.mpr hr
  refine ⟨?_, bytes, stop, hq, fun hcl => (bitAt_behind hsame.behind).trans (hclean hcl), ?_⟩
  · have hlast := hc.last
    have htotal := hsame.total
    apply decide_eq_true
    rw [htotal]
    rcases hq.fetch with hf | hf
    · -- the fetch brought more than the last byte, so the stop bit is ahead
      have hge := hprog.resolve_left (by simp [hf.unfinished])
      have hle := hc.le_trailing
      omega
    · rcases hf.trailing with ht | ⟨ht, -⟩
      · omega
      · omega
  · change window (memOf bytes) p.fetchData.2.iTotalBitIndex (stop - p.fetchData.2.iTotalBitIndex) = r
    rw [hsame.total, hw]

theorem Ahead.moreRbspData_finished {clean : Prop} {r : List Bool} (h : p.Ahead clean r)
    (hr : r.length < 150) :
    p.moreRbspData.2.finishedFetching = true := by
  obtain ⟨bytes, stop, hc, -, hw⟩ := h
  obtain ⟨hq, -, hprog⟩ := hc.fetchData
  rcases hprog with hfin | ⟨-, hmore⟩
  · exact hfin
  · have hlen := congrArg List.length hw
    rw [length_window] at hlen
    have hle := hc.le_trailing
    have htop := hq.trailing_le
    have hlast := hc.last
    have htotal := hc.total
    omega

/-! ## Single bits -/

theorem u_one (hbyte : p.pByte = p.iTotalBitIndex / 8) (hin : p.iTotalBitIndex < p.iTrailingBitOneIndex)
    (hconceal : p.iTrailingBitOneIndex ≤ p.iTrailingBitOneIndexConceal) :
    p.u 1 = ((bitAt p.pBuffer p.iTotalBitIndex).toNat,
      { p with iTotalBitIndex := p.iTotalBitIndex + 1, pByte := (p.iTotalBitIndex + 1) / 8 }) := by
  have hmore : p.moreRbspDataConceal = true := decide_eq_true (hin.le.trans hconceal)
  have hmask : 0x80 >>> (p.iTotalBitIndex % 8) = 2 ^ (7 - p.iTotalBitIndex % 8) := by
    have : ∀ k < 8, 0x80 >>> k = 2 ^ (7 - k) := by decide
    exact this _ (Nat.mod_lt _ (by omega))
  have hnext : (if p.iTotalBitIndex % 8 = 7 then p.pByte + 1 else p.pByte) =
      (p.iTotalBitIndex + 1) / 8 := by
    rw [hbyte]
    split <;> omega
  unfold u getNextBit
  rw [if_neg (by simp [hmore]), if_pos rfl, if_neg (by omega)]
  unfold takeBit bitAt
  dsimp only
  rw [hmask, Nat.and_two_pow, hbyte]
  rw [hbyte] at hnext
  rw [hnext]
  cases (p.pBuffer (p.iTotalBitIndex / 8)).toNat.testBit (7 - p.iTotalBitIndex % 8) <;> simp

theorem alignmentZeros_true {k : ℕ} (hbyte : p.pByte = p.iTotalBitIndex / 8)
    (hk : p.iTotalBitIndex + k = p.iTrailingBitOneIndex) (haligned : p.iTrailingBitOneIndex % 8 = 0)
    (hconceal : p.iTrailingBitOneIndex ≤ p.iTrailingBitOneIndexConceal)
    (hzero : ∀ i, p.iTotalBitIndex ≤ i → i < p.iTrailingBitOneIndex → bitAt p.pBuffer i = false)
    {fuel : ℕ} (hfuel : k < fuel) :
    ∃ q, Parse.alignmentZeros fuel p = .ok (true, q) := by
  induction k generalizing p fuel with
  | zero =>
    obtain ⟨fuel, rfl⟩ := Nat.exists_eq_succ_of_ne_zero (by omega : fuel ≠ 0)
    rw [alignmentZeros_succ, if_pos (by omega)]
    exact ⟨p, rfl⟩
  | succ k ih =>
    obtain ⟨fuel, rfl⟩ := Nat.exists_eq_succ_of_ne_zero (by omega : fuel ≠ 0)
    rw [alignmentZeros_succ]
    split
    · exact ⟨p, rfl⟩
    · rw [u_one hbyte (by omega) hconceal, hzero _ le_rfl (by omega), if_neg (fun hne => hne rfl)]
      apply ih (p := { p with
        iTotalBitIndex := p.iTotalBitIndex + 1, pByte := (p.iTotalBitIndex + 1) / 8 }) rfl
      · change p.iTotalBitIndex + 1 + k = p.iTrailingBitOneIndex
        omega
      · exact haligned
      · exact hconceal
      · exact fun i hlo => hzero i ((Nat.le_succ _).trans hlo)
      · omega

/-- The trailing bits behind the last element: they are found if the scratch buffer goes
on with a zero bit. -/
theorem Ahead.rbspTrailingBits {clean : Prop} (h : p.Ahead clean [])
    (hfin : p.finishedFetching = true) {fuel : ℕ} (hfuel : 8 < fuel) :
    ∃ found q, Parse.rbspTrailingBits fuel p = .ok (found, q) ∧ (clean → found = true) := by
  obtain ⟨bytes, stop, hc, hclean, hw⟩ := h
  have hstop : p.iTotalBitIndex = stop := by
    have hlen := congrArg List.length hw
    rw [length_window] at hlen
    have := hc.total
    simp only [List.length_nil] at hlen
    omega
  have hf := hc.fetch.resolve_left fun hf => by simp [hf.unfinished] at hfin
  have hlast := hc.last
  have hbuffer : ∀ i < 8 * bytes.length, bitAt p.pBuffer i = bitAt (memOf bytes) i := fun i hi =>
    bitAt_congr (hf.buffer _ (by omega))
  rcases hf.trailing with htrailing | ⟨htrailing, hbehind⟩
  · have hone : bitAt p.pBuffer stop = true := by
      rw [hbuffer stop (by omega)]
      exact hc.one
    have hstay : p.trailingBitOne p.iTrailingBitOneIndex = stop := by
      rw [htrailing]
      exact trailingBitOne_eq le_rfl hone fun j hlo hhi => absurd hlo (by omega)
    have hremove : p.removeTrailingBits =
        { p with
          iTrailingBitOneIndex := stop, iTrailingBitOneIndexConceal := (stop + 8) / 8 * 8 } := by
      unfold removeTrailingBits
      dsimp only
      rw [hstay, if_neg (by omega)]
    have htotal : p.atStopBit.iTotalBitIndex = stop := hstop
    have hbyte : p.atStopBit.pByte = p.atStopBit.iTotalBitIndex / 8 := hc.pByte
    have hend : p.atStopBit.iTrailingBitOneIndex = (stop + 8) / 8 * 8 := by
      unfold atStopBit
      rw [hremove]
    have hconceal : p.atStopBit.iTrailingBitOneIndexConceal = (stop + 8) / 8 * 8 := by
      unfold atStopBit
      rw [hremove]
    have hsame : p.atStopBit.pBuffer = p.pBuffer := rfl
    rw [rbspTrailingBits_eq, hremove, if_pos hstop, byteAlignment_eq,
      u_one hbyte (by omega) (by omega)]
    dsimp only
    rw [hsame, htotal, hone, if_neg (by decide)]
    have hzeros (i : ℕ) (hlo : stop + 1 ≤ i) (hhi : i < p.atStopBit.iTrailingBitOneIndex) :
        bitAt p.atStopBit.pBuffer i = false := by
      rw [hsame, hbuffer i (by omega)]
      exact hc.zeros i (by omega) (by omega)
    have hrest : ∃ q, Parse.alignmentZeros fuel { p.atStopBit with
        iTotalBitIndex := stop + 1, pByte := (stop + 1) / 8 } = .ok (true, q) := by
      apply alignmentZeros_true (k := (stop + 8) / 8 * 8 - (stop + 1)) rfl
      · dsimp only
        omega
      · dsimp only
        omega
      · dsimp only
        omega
      · exact hzeros
      · omega
    obtain ⟨q, hq⟩ := hrest
    exact ⟨true, q, hq, fun _ => rfl⟩
  · -- the search for the stop bit does not leave the bit behind the payload
    have hstay : p.trailingBitOne p.iTrailingBitOneIndex = 8 * bytes.length := by
      rw [htrailing]
      exact trailingBitOne_eq le_rfl hbehind fun j hlo hhi => absurd hlo (by omega)
    have hne : p.removeTrailingBits.iTotalBitIndex ≠ p.removeTrailingBits.iTrailingBitOneIndex := by
      unfold removeTrailingBits
      dsimp only
      rw [hstay, if_neg (by omega)]
      omega
    rw [rbspTrailingBits_eq, if_neg hne]
    refine ⟨false, _, rfl, fun hcl => ?_⟩
    rw [hclean hcl] at hbehind
    cases hbehind

end RbspParser

end VcuCodec
