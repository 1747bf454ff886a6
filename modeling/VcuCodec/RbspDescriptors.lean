import VcuCodec.RbspReads

/-!
# Descriptors

What `u`, `ue` and `se` read from a payload.
-/

namespace VcuCodec

open BitStrings

/-! ## The logarithm -/

theorem getD_tabLog2 {i : ℕ} (h : i < 256) : tabLog2.getD i 0 = i.log2 := by
  have key : ∀ i < 256, tabLog2.getD i 0 = i.log2 := by decide +kernel
  exact key i h

theorem and_shiftLeft (x m k : ℕ) : x &&& m <<< k = (x >>> k &&& m) <<< k := by
  apply Nat.eq_of_testBit_eq
  intro i
  simp only [Nat.testBit_and, Nat.testBit_shiftLeft, Nat.testBit_shiftRight]
  by_cases h : k ≤ i
  · simp [h]
  · simp [h]

theorem log2_of_shiftRight {x k : ℕ} (h : x >>> k ≠ 0) : x.log2 = k + (x >>> k).log2 := by
  have hx : x ≠ 0 := by
    rintro rfl
    simp at h
  rw [Nat.log2_eq_iff hx]
  have hlo := Nat.log2_self_le h
  have hhi : x >>> k < 2 ^ ((x >>> k).log2 + 1) := Nat.lt_log2_self
  rw [Nat.shiftRight_eq_div_pow] at *
  constructor
  · rw [pow_add, Nat.mul_comm]
    exact (Nat.le_div_iff_mul_le (Nat.two_pow_pos k)).mp hlo
  · rw [Nat.add_assoc, pow_add, Nat.mul_comm]
    exact (Nat.div_lt_iff_lt_mul (Nat.two_pow_pos k)).mp hhi

theorem alLog2_eq {c : ℕ} (h : c < 2 ^ 24) : alLog2 c = c.log2 := by
  have hbyte : ∀ k, (c >>> k &&& 0xFF) = c >>> k % 2 ^ 8 := fun k =>
    Nat.and_two_pow_sub_one_eq_mod _ 8
  have hshift : ∀ k, c >>> k = c / 2 ^ k := fun k => Nat.shiftRight_eq_div_pow c k
  have h3 : c &&& 0xFF000000 = 0 := by
    rw [show 0xFF000000 = 0xFF <<< 24 by rfl, and_shiftLeft, hbyte, hshift,
      Nat.div_eq_of_lt h, Nat.zero_mod, Nat.zero_shiftLeft]
  have h2 : c &&& 0x00FF0000 = 0 ↔ c >>> 16 = 0 := by
    rw [show 0x00FF0000 = 0xFF <<< 16 by rfl, and_shiftLeft, hbyte, Nat.shiftLeft_eq, hshift]
    omega
  have h1 : c &&& 0x0000FF00 = 0 ↔ c >>> 8 % 2 ^ 8 = 0 := by
    rw [show 0x0000FF00 = 0xFF <<< 8 by rfl, and_shiftLeft, hbyte, Nat.shiftLeft_eq, hshift]
    omega
  unfold alLog2
  rw [if_neg (not_not.mpr h3)]
  split
  · next hc =>
    have hne : c >>> 16 ≠ 0 := fun hz => hc (h2.mpr hz)
    rw [getD_tabLog2 (by rw [hshift]; omega), ← log2_of_shiftRight hne]
  · next hc =>
    have hz := h2.mp (not_not.mp hc)
    rw [hshift] at hz
    split
    · next hc' =>
      have hne : c >>> 8 ≠ 0 := fun hz => hc' (h1.mpr (by rw [hz, Nat.zero_mod]))
      rw [getD_tabLog2 (by rw [hshift]; omega), ← log2_of_shiftRight hne]
    · next hc' =>
      have hz' := h1.mp (not_not.mp hc')
      rw [hshift] at hz'
      exact getD_tabLog2 (by omega)

/-- The code number of a signed value. -/
def signedCode (v : ℤ) : ℕ := if 0 < v then (2 * v - 1).toNat else (-2 * v).toNat

namespace RbspParser

variable {p q : RbspParser} {bytes : List UInt8} {stop n : ℕ}

namespace Carries

theorem cache_take (h : p.Carries bytes stop) (hn24 : n ≤ 24) (hn : p.iTotalBitIndex + n ≤ stop + 1) :
    window p.getCache24.2.pBuffer p.iTotalBitIndex n = window (memOf bytes) p.iTotalBitIndex n := by
  apply window_congr
  intro i hlo hhi
  exact h.getCache24.2.2 i (by omega) (by omega)

theorem Advances.refl (h : p.Carries bytes stop) : Advances p p bytes stop 0 :=
  ⟨h, Eq.refl _, fun _ _ => Eq.refl _⟩

theorem Advances.trans {r : RbspParser} {m : ℕ} (h : Advances p q bytes stop m)
    (h' : Advances q r bytes stop n) : Advances p r bytes stop (m + n) where
  carries := h'.carries
  total := by rw [h'.total, h.total, Nat.add_assoc]
  behind i hi := (h'.behind i hi).trans (h.behind i hi)

theorem getCache24_skip (h : p.Carries bytes stop) (hn : p.iTotalBitIndex + n ≤ stop) :
    Advances p (p.getCache24.2.skip n) bytes stop n := by
  have hc := h.getCache24.2.1
  have hs := hc.carries.skip (n := n) (by rw [hc.total]; exact hn)
  have := hc.trans hs
  rwa [Nat.zero_add] at this

theorem double_or {val : ℕ} (hval : val * 2 < 2 ^ 32) (b : Bool) :
    val * 2 % 2 ^ 32 ||| b.toNat = val * 2 + b.toNat := by
  have h := Nat.shiftLeft_add_eq_or_of_lt (i := 1) (Bool.toNat_lt b) val
  rw [Nat.shiftLeft_eq, pow_one] at h
  rw [Nat.mod_eq_of_lt hval, h]

theorem uLoop (h : p.Carries bytes stop) {k val : ℕ} (hk : p.iTotalBitIndex + k ≤ stop)
    (hval : (val + 1) * 2 ^ k ≤ 2 ^ 32) :
    (RbspParser.uLoop k (val, p)).1 = val * 2 ^ k + value (window (memOf bytes) p.iTotalBitIndex k) ∧
      Advances p (RbspParser.uLoop k (val, p)).2 bytes stop k := by
  induction k generalizing p val with
  | zero => exact ⟨by simp [RbspParser.uLoop, window, value], .refl h⟩
  | succ k ih =>
    obtain ⟨hbit, hadv⟩ := h.getNextBit (by omega)
    generalize hb : bitAt (memOf bytes) p.iTotalBitIndex = b at hbit
    have hle := Nat.le_mul_of_pos_right (val + 1) (Nat.two_pow_pos k)
    have hpow : (val + 1) * 2 ^ (k + 1) = (val + 1) * 2 ^ k * 2 := by ring
    have hor := double_or (by omega : val * 2 < 2 ^ 32) b
    have hnext : (val * 2 + b.toNat + 1) * 2 ^ k ≤ 2 ^ 32 := by
      calc (val * 2 + b.toNat + 1) * 2 ^ k ≤ ((val + 1) * 2) * 2 ^ k :=
            Nat.mul_le_mul_right _ (by have := Bool.toNat_lt b; omega)
        _ = (val + 1) * 2 ^ (k + 1) := by ring
        _ ≤ 2 ^ 32 := hval
    obtain ⟨hval', hadv'⟩ := ih hadv.carries (by rw [hadv.total]; omega) hnext
    unfold RbspParser.uLoop
    dsimp only
    rw [hbit, hor]
    refine ⟨?_, by simpa only [Nat.add_comm 1 k] using hadv.trans hadv'⟩
    rw [hval', hadv.total]
    simp only [window, value, length_window, hb]
    ring

theorem u (h : p.Carries bytes stop) (hn32 : n ≤ 32) (hn : p.iTotalBitIndex + n ≤ stop) :
    (p.u n).1 = value (window (memOf bytes) p.iTotalBitIndex n) ∧
      Advances p (p.u n).2 bytes stop n := by
  unfold RbspParser.u
  rw [if_neg (by simp [h.moreRbspDataConceal])]
  split
  · next h1 =>
    subst h1
    obtain ⟨hbit, hadv⟩ := h.getNextBit hn
    refine ⟨?_, hadv⟩
    rw [hbit]
    simp [window, value]
  · split
    · next h24 =>
      refine ⟨?_, h.getCache24_skip hn⟩
      dsimp only
      have hlt := value_lt (window p.getCache24.2.pBuffer p.iTotalBitIndex n)
      rw [length_window] at hlt
      rw [h.getCache24.1, ← h.cache_take h24 (by omega), Nat.one_shiftLeft,
        Nat.and_two_pow_sub_one_eq_mod, Nat.shiftRight_eq_div_pow,
        show window p.getCache24.2.pBuffer p.iTotalBitIndex 24 = _ from
          (congrArg (window p.getCache24.2.pBuffer p.iTotalBitIndex)
            (show 24 = n + (24 - n) by omega)).trans (window_add _ _ n (24 - n)),
        value_append, length_window]
      have hlow := value_lt (window p.getCache24.2.pBuffer (p.iTotalBitIndex + n) (24 - n))
      rw [length_window] at hlow
      rw [Nat.mul_comm, Nat.mul_add_div (Nat.two_pow_pos _), Nat.div_eq_of_lt hlow, Nat.add_zero,
        Nat.mod_eq_of_lt hlt]
    · next h24 =>
      have hadv := h.getCache24_skip (n := 24) (by omega)
      have hval := h.getCache24.1
      rw [h.cache_take le_rfl (by omega)] at hval
      have hlt := value_lt (window (memOf bytes) p.iTotalBitIndex 24)
      rw [length_window] at hlt
      have hbound : (p.getCache24.1 + 1) * 2 ^ (n - 24) ≤ 2 ^ 32 := by
        calc (p.getCache24.1 + 1) * 2 ^ (n - 24) ≤ 2 ^ 24 * 2 ^ 8 :=
              Nat.mul_le_mul (by omega) (Nat.pow_le_pow_right (by omega) (by omega))
          _ = 2 ^ 32 := by norm_num
      obtain ⟨hrest, hadv'⟩ := hadv.carries.uLoop (by rw [hadv.total]; omega) hbound
      have hboth := hadv.trans hadv'
      rw [show 24 + (n - 24) = n by omega] at hboth
      refine ⟨?_, hboth⟩
      dsimp only
      rw [hrest, hval, hadv.total]
      have hsplit := window_add (memOf bytes) p.iTotalBitIndex 24 (n - 24)
      rw [show 24 + (n - 24) = n by omega] at hsplit
      rw [hsplit, value_append, length_window]

/-! ## Exp-Golomb codes -/

theorem ueLoop (h : p.Carries bytes stop) {k : ℕ} (hk : p.iTotalBitIndex + k + 1 ≤ stop)
    (hzero : ∀ i < k, bitAt (memOf bytes) (p.iTotalBitIndex + i) = false)
    (hone : bitAt (memOf bytes) (p.iTotalBitIndex + k) = true) :
    ∃ q, MeasuredLoops.run ueRound (fun t => t.1.remaining) ueRound_lt (p, 0) = (some k, q) ∧
      Advances p q bytes stop (k + 1) := by
  apply MeasuredLoops.run_rule ueRound_lt
    (fun t => t.2 ≤ k ∧ Advances p t.1 bytes stop t.2)
    (fun t => ∃ q, t = (some k, q) ∧ Advances p q bytes stop (k + 1))
    _ _ ⟨Nat.zero_le k, .refl h⟩
  · rintro ⟨q, n⟩ t ⟨hn, hadv⟩ ht
    dsimp only at hn hadv
    obtain ⟨hbit, hadv'⟩ := hadv.carries.getNextBit (by rw [hadv.total]; omega)
    rw [hadv.total] at hbit
    simp only [ueRound] at ht
    rcases hn.lt_or_eq with hlt | rfl
    · rw [hzero n hlt] at hbit
      rw [hbit] at ht
      obtain rfl := Sum.inl.inj ht
      exact ⟨hlt, hadv.trans hadv'⟩
    · rw [hone] at hbit
      rw [hbit] at ht
      simp at ht
  · rintro ⟨q, n⟩ t ⟨hn, hadv⟩ ht
    dsimp only at hn hadv
    obtain ⟨hbit, hadv'⟩ := hadv.carries.getNextBit (by rw [hadv.total]; omega)
    rw [hadv.total] at hbit
    simp only [ueRound] at ht
    rcases hn.lt_or_eq with hlt | rfl
    · rw [hzero n hlt] at hbit
      rw [hbit] at ht
      simp at ht
    · rw [hone] at hbit
      rw [hbit] at ht
      obtain rfl := Sum.inr.inj ht
      exact ⟨_, Eq.refl _, hadv.trans hadv'⟩

theorem ueSuffix (h : p.Carries bytes stop) {v k : ℕ} (hk : k < 32)
    (hn : p.iTotalBitIndex + k ≤ stop) (hv : v + 1 < 2 ^ 32) (hlo : 2 ^ k ≤ v + 1)
    (hhi : v + 1 < 2 ^ (k + 1))
    (hbits : window (memOf bytes) p.iTotalBitIndex k = fixed k (v + 1 - 2 ^ k)) :
    (p.ueSuffix k).1 = v ∧ Advances p (p.ueSuffix k).2 bytes stop k := by
  rw [pow_succ] at hhi
  unfold RbspParser.ueSuffix
  split
  · next h0 =>
    subst h0
    exact ⟨by dsimp only; omega, .refl h⟩
  · rw [if_neg (by omega)]
    obtain ⟨hu, hadv⟩ := h.u (n := k) (by omega) hn
    refine ⟨?_, hadv⟩
    dsimp only
    rw [hu, hbits, value_fixed_of_lt (by omega),
      show 2 ^ k - 1 + (v + 1 - 2 ^ k) = v by have := Nat.two_pow_pos k; omega,
      Nat.mod_eq_of_lt (by omega)]

theorem ue (h : p.Carries bytes stop) {v : ℕ} (hv : v + 1 < 2 ^ 32)
    (hn : p.iTotalBitIndex + (golomb v).length ≤ stop)
    (hbits : window (memOf bytes) p.iTotalBitIndex (golomb v).length = golomb v) :
    p.ue.1 = v ∧ Advances p p.ue.2 bytes stop (golomb v).length := by
  have hlo : 2 ^ (v + 1).log2 ≤ v + 1 := Nat.log2_self_le (Nat.succ_ne_zero v)
  have hhi : v + 1 < 2 ^ ((v + 1).log2 + 1) := Nat.lt_log2_self
  have hk : (v + 1).log2 < 32 := (Nat.log2_lt (Nat.succ_ne_zero v)).mpr hv
  have hcode := golomb_eq v
  have hlen := length_golomb v
  generalize (v + 1).log2 = k at *
  -- the three parts of the code in the payload
  have hzero : ∀ i < k, bitAt (memOf bytes) (p.iTotalBitIndex + i) = false := by
    intro i hi
    have := window_eq_iff.mp hbits i (by omega)
    rw [this]
    simp [hcode, hi]
  have hone : bitAt (memOf bytes) (p.iTotalBitIndex + k) = true := by
    have := window_eq_iff.mp hbits k (by omega)
    rw [this]
    simp [hcode]
  have hrest : window (memOf bytes) (p.iTotalBitIndex + (k + 1)) k = fixed k (v + 1 - 2 ^ k) := by
    have hsplit := window_add (memOf bytes) p.iTotalBitIndex (k + 1) k
    rw [show k + 1 + k = (golomb v).length by omega, hbits, hcode,
      show List.replicate k false ++ true :: fixed k (v + 1 - 2 ^ k) =
        (List.replicate k false ++ [true]) ++ fixed k (v + 1 - 2 ^ k) by simp] at hsplit
    exact (List.append_inj hsplit (by simp)).2.symm
  have hsuffix : ∀ q, Advances p q bytes stop (k + 1) →
      (q.ueSuffix k).1 = v ∧ Advances p (q.ueSuffix k).2 bytes stop (golomb v).length := by
    intro q hq
    obtain ⟨hval, hadv⟩ := hq.carries.ueSuffix hk (by rw [hq.total]; omega) hv hlo hhi
      (by rw [hq.total]; exact hrest)
    have := hq.trans hadv
    rw [show k + 1 + k = (golomb v).length by omega] at this
    exact ⟨hval, this⟩
  have hcache := h.getCache24.1
  have hc24 := value_lt (window p.getCache24.2.pBuffer p.iTotalBitIndex 24)
  rw [length_window, ← hcache] at hc24
  unfold RbspParser.ue
  rw [if_neg (by simp [h.moreRbspDataConceal])]
  dsimp only
  rw [alLog2_eq hc24]
  by_cases hshort : k ≤ 22
  · -- the leading one is in the cache
    have hlead : p.getCache24.1.log2 = 23 - k := by
      have hwin : window p.getCache24.2.pBuffer p.iTotalBitIndex 24 =
          List.replicate k false ++ true ::
            window p.getCache24.2.pBuffer (p.iTotalBitIndex + (k + 1)) (23 - k) := by
        have hpre := h.cache_take (n := k) (by omega) (by omega)
        rw [window_eq_replicate hzero] at hpre
        have hlead : bitAt p.getCache24.2.pBuffer (p.iTotalBitIndex + k) = true := by
          rw [h.getCache24.2.2 _ (by omega) (by omega), hone]
        rw [show 24 = k + (23 - k + 1) by omega, window_add, hpre, window, hlead]
        rfl
      have hlow := value_lt (window p.getCache24.2.pBuffer (p.iTotalBitIndex + (k + 1)) (23 - k))
      rw [length_window] at hlow
      have hval : p.getCache24.1 = 2 ^ (23 - k) +
          value (window p.getCache24.2.pBuffer (p.iTotalBitIndex + (k + 1)) (23 - k)) := by
        rw [hcache, hwin, value_append, value_replicate_false, value, length_window]
        simp
      have hne : p.getCache24.1 ≠ 0 := by
        have := Nat.two_pow_pos (23 - k)
        omega
      rw [Nat.log2_eq_iff hne, pow_succ]
      omega
    rw [hlead, show 23 - (23 - k) = k by omega, if_neg (by omega)]
    exact hsuffix _ (h.getCache24_skip (by omega))
  · -- the cache holds only zeros, or a one at its end
    have hsmall : p.getCache24.1.log2 = 0 := by
      have hpre := h.cache_take (n := 23) (by omega) (by omega)
      rw [window_eq_replicate fun i hi => hzero i (by omega)] at hpre
      have hsplit := window_add p.getCache24.2.pBuffer p.iTotalBitIndex 23 1
      rw [hpre] at hsplit
      have hlow := value_lt (window p.getCache24.2.pBuffer (p.iTotalBitIndex + 23) 1)
      rw [length_window] at hlow
      rw [hcache, hsplit, value_append, value_replicate_false]
      generalize value (window p.getCache24.2.pBuffer (p.iTotalBitIndex + 23) 1) = x at *
      have hx : x = 0 ∨ x = 1 := by omega
      rcases hx with rfl | rfl <;> rfl
    rw [hsmall, if_pos (show 23 - 0 = 23 by rfl)]
    have hcadv := h.getCache24.2.1
    have htot := hcadv.total
    rw [Nat.add_zero] at htot
    obtain ⟨q, hrun, hq⟩ := hcadv.carries.ueLoop (k := k) (by rw [htot]; omega)
      (by rw [htot]; exact hzero) (by rw [htot]; exact hone)
    rw [hrun]
    have := hcadv.trans hq
    rw [Nat.zero_add] at this
    exact hsuffix q this

theorem se (h : p.Carries bytes stop) {v : ℤ} (hlo : -2 ^ 31 < v) (hhi : v < 2 ^ 31)
    (hn : p.iTotalBitIndex + (golomb (signedCode v)).length ≤ stop)
    (hbits : window (memOf bytes) p.iTotalBitIndex (golomb (signedCode v)).length =
      golomb (signedCode v)) :
    p.se.1 = v ∧ Advances p p.se.2 bytes stop (golomb (signedCode v)).length := by
  have hcode : signedCode v + 1 < 2 ^ 32 := by
    unfold signedCode
    split <;> omega
  obtain ⟨hval, hadv⟩ := h.ue hcode hn hbits
  unfold RbspParser.se
  rw [if_neg (by simp [h.moreRbspDataConceal])]
  refine ⟨?_, hadv⟩
  dsimp only
  rw [hval]
  unfold signedCode at *
  split
  · next hpos => omega
  · next hpos => omega

end Carries

/-! ## The bits ahead -/

/-- The bits `r` are ahead of the parser, up to the stop bit; when `clean` holds,
the scratch buffer goes on with a zero bit behind the payload. -/
def Ahead (p : RbspParser) (clean : Prop) (r : List Bool) : Prop :=
  ∃ bytes stop, p.Carries bytes stop ∧ (clean → bitAt p.pBuffer (8 * bytes.length) = false) ∧
    window (memOf bytes) p.iTotalBitIndex (stop - p.iTotalBitIndex) = r

namespace Ahead

variable {clean : Prop} {r bs : List Bool}

theorem bitAt_behind (h : ∀ i, bytes.length ≤ i → q.pBuffer i = p.pBuffer i) :
    bitAt q.pBuffer (8 * bytes.length) = bitAt p.pBuffer (8 * bytes.length) :=
  bitAt_congr (h _ (by omega))

theorem advance (h : p.Ahead clean (bs ++ r))
    (hread : ∀ bytes stop, p.Carries bytes stop → p.iTotalBitIndex + bs.length ≤ stop →
      window (memOf bytes) p.iTotalBitIndex bs.length = bs →
        Carries.Advances p q bytes stop bs.length) :
    q.Ahead clean r ∧ q.iTotalBitIndex = p.iTotalBitIndex + bs.length := by
  obtain ⟨bytes, stop, hc, hclean, hw⟩ := h
  have hlen := congrArg List.length hw
  rw [length_window, List.length_append] at hlen
  have htot := hc.total
  rw [show stop - p.iTotalBitIndex = bs.length + r.length from hlen, window_add] at hw
  obtain ⟨hbs, hr⟩ := List.append_inj hw (by simp)
  have hadv := hread bytes stop hc (by omega) hbs
  refine ⟨⟨bytes, stop, hadv.carries, fun hcl => (bitAt_behind hadv.behind).trans (hclean hcl),
    ?_⟩, hadv.total⟩
  rw [hadv.total, show stop - (p.iTotalBitIndex + bs.length) = r.length by omega, hr]

theorem exists_carries (h : p.Ahead clean (bs ++ r)) :
    ∃ bytes stop, p.Carries bytes stop ∧ p.iTotalBitIndex + bs.length ≤ stop ∧
      window (memOf bytes) p.iTotalBitIndex bs.length = bs := by
  obtain ⟨bytes, stop, hc, -, hw⟩ := h
  have hlen := congrArg List.length hw
  rw [length_window, List.length_append] at hlen
  have htot := hc.total
  rw [show stop - p.iTotalBitIndex = bs.length + r.length from hlen, window_add] at hw
  exact ⟨bytes, stop, hc, by omega, (List.append_inj hw (by simp)).1⟩

theorem u {v : ℕ} (h : p.Ahead clean (fixed n v ++ r)) (hn : n ≤ 32) (hv : v < 2 ^ n) :
    (p.u n).1 = v ∧ (p.u n).2.Ahead clean r ∧ (p.u n).2.iTotalBitIndex = p.iTotalBitIndex + n := by
  obtain ⟨bytes, stop, hc, hle, hw⟩ := h.exists_carries
  rw [length_fixed] at hle hw
  have hread := h.advance (q := (p.u n).2) fun bytes stop hc hle _ => by
    rw [length_fixed] at hle ⊢
    exact (hc.u hn hle).2
  rw [length_fixed] at hread
  refine ⟨?_, hread⟩
  rw [(hc.u hn hle).1, hw, value_fixed_of_lt hv]

theorem ue {v : ℕ} (h : p.Ahead clean (golomb v ++ r)) (hv : v + 1 < 2 ^ 32) :
    p.ue.1 = v ∧ p.ue.2.Ahead clean r ∧
      p.ue.2.iTotalBitIndex = p.iTotalBitIndex + (golomb v).length := by
  obtain ⟨bytes, stop, hc, hle, hw⟩ := h.exists_carries
  exact ⟨(hc.ue hv hle hw).1,
    h.advance fun bytes stop hc hle hw => (hc.ue hv hle hw).2⟩

theorem se {v : ℤ} (h : p.Ahead clean (golomb (signedCode v) ++ r)) (hlo : -2 ^ 31 < v)
    (hhi : v < 2 ^ 31) :
    p.se.1 = v ∧ p.se.2.Ahead clean r ∧
      p.se.2.iTotalBitIndex = p.iTotalBitIndex + (golomb (signedCode v)).length := by
  obtain ⟨bytes, stop, hc, hle, hw⟩ := h.exists_carries
  exact ⟨(hc.se hlo hhi hle hw).1,
    h.advance fun bytes stop hc hle hw => (hc.se hlo hhi hle hw).2⟩

/-- With a clean scratch buffer the parser knows the end of the payload. -/
theorem moreRbspData (h : p.Ahead True r) :
    p.moreRbspData.1 = decide (r ≠ []) ∧ p.moreRbspData.2.Ahead True r ∧
      p.moreRbspData.2.iTotalBitIndex = p.iTotalBitIndex := by
  obtain ⟨bytes, stop, hc, hclean, hw⟩ := h
  obtain ⟨hq, hsame, hprog⟩ := hc.fetchData
  have hlen := congrArg List.length hw
  rw [length_window] at hlen
  refine ⟨?_, ⟨bytes, stop, hq, fun hcl => (bitAt_behind hsame.behind).trans (hclean hcl),
    ?_⟩, hsame.total⟩
  · have htot := hq.total
    unfold RbspParser.moreRbspData
    dsimp only
    rw [decide_eq_decide, ← List.length_pos_iff, ← hlen, ← hsame.total]
    rcases hq.fetch with hf | hf
    · -- the fetch brought more than the last byte, so the stop bit is ahead
      obtain ⟨got, hb, ht, -⟩ := hf.got
      have hlast := hq.last
      have hge := hprog.resolve_left (by simp [hf.unfinished])
      have hle := hc.le_trailing
      rw [hsame.total] at *
      have hgot := congrArg List.length hb
      rw [List.length_append] at hgot
      omega
    · rcases hf.trailing with ht | ht
      · omega
      · rw [bitAt_behind hsame.behind, hclean trivial] at ht
        simp at ht
  · dsimp only [RbspParser.moreRbspData]
    rw [hsame.total, hw]

end Ahead

end RbspParser

end VcuCodec
