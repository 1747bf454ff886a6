import VcuCodec.CabacCoding

/-!
# The bits of the CABAC encoder are decoded

The arithmetic decoding engine of H.264 9.3.1.2 and H.265 9.3.4.3, with the tables of the
encoder, reads the bins that were encoded, the last of them a terminate bin that is set.
-/

namespace VcuCodec

open BitStrings IntervalCoding

/-! ## The arithmetic decoding engine -/

/-- The initialisation, with nine bits. -/
def initDecodingEngine (bits : List Bool) : Option Decoder :=
  if 9 ≤ bits.length then some ⟨510, value (bits.take 9), bits.drop 9⟩ else none

/-- `DecodeDecision`.  No range needs more than eight rounds of `RenormD`. -/
def decodeDecision (state : ContextState) (d : Decoder) : Option (Bool × ContextState × Decoder) :=
  let codIRangeLPS := rangeLPS state.pState (d.range >>> 6 &&& 3)
  let codIRange := d.range - codIRangeLPS
  if codIRange ≤ d.offset then
    (Decoder.renorm 8 8 { d with range := codIRangeLPS, offset := d.offset - codIRange }).map fun d =>
      (!state.valMPS, state.toLPS, d)
  else (Decoder.renorm 8 8 { d with range := codIRange }).map fun d => (state.valMPS, state.toMPS, d)

def decodeTerminate (d : Decoder) : Option (Bool × Decoder) :=
  let codIRange := d.range - 2
  if codIRange ≤ d.offset then some (true, { d with range := codIRange })
  else (Decoder.renorm 8 8 { d with range := codIRange }).map fun d => (false, d)

/-- The context of a bin; a terminate bin has none. -/
def CabacBin.ctxIdx : CabacBin → Option ℕ
  | .context ctxIdx _ => some ctxIdx
  | .terminate _ => none

def CabacBin.binVal : CabacBin → Bool
  | .context _ binVal => binVal
  | .terminate binVal => binVal

/-- The bins with the given contexts. -/
def decodeBins : List (Option ℕ) → (ℕ → ContextState) → Decoder → Option (List Bool × (ℕ → ContextState) × Decoder)
  | [], states, d => some ([], states, d)
  | some ctxIdx :: kinds, states, d =>
    (decodeDecision (states ctxIdx) d).bind fun (binVal, state, d) =>
      (decodeBins kinds (Function.update states ctxIdx state) d).map fun (binVals, t) => (binVal :: binVals, t)
  | none :: kinds, states, d =>
    (decodeTerminate d).bind fun (binVal, d) =>
      (decodeBins kinds states d).map fun (binVals, t) => (binVal :: binVals, t)

def decode (kinds : List (Option ℕ)) (states : ℕ → ContextState) (bits : List Bool) :
    Option (List Bool × (ℕ → ContextState) × Decoder) :=
  (initDecodingEngine bits).bind (decodeBins kinds states)

variable {a : Coder} {d : Decoder} {w : List Bool} {states : ℕ → ContextState} {bin : CabacBin} {bins : List CabacBin}

/-! ## One bin -/

theorem decodeDecision_eq {ctxIdx : ℕ} {binVal : Bool} (h : Follows 8 w a d) (hnormal : Normal a)
    (hc : Contains 8 w (codeBin (states, a) (.context ctxIdx binVal)).2) :
    ∃ state d', decodeDecision (states ctxIdx) d = some (binVal, state, d') ∧
      Function.update states ctxIdx state = (codeBin (states, a) (.context ctxIdx binVal)).1 ∧
      Follows 8 w (codeBin (states, a) (.context ctxIdx binVal)).2 d' := by
  have hfits := splitBin_fits hnormal (.context ctxIdx binVal) states
  have hpart := hc.of_renorm hfits
  unfold decodeDecision
  unfold codeBin splitBin at *
  dsimp only at *
  rw [h.range]
  by_cases hlps : (states ctxIdx).valMPS ≠ binVal
  · rw [if_pos hlps] at hfits hpart hc
    simp only [if_pos hlps]
    obtain ⟨hle, hfollows⟩ := h.upper hpart
    obtain ⟨d', hd', hnext⟩ := hfollows.renorm hfits hc
    rw [h.range] at hle hd'
    refine ⟨(states ctxIdx).toLPS, d', ?_, rfl, hnext⟩
    rw [if_pos hle, hd', Option.map_some, Bool.not_eq.mpr hlps]
  · rw [if_neg hlps] at hfits hpart hc
    simp only [if_neg hlps]
    obtain ⟨hlt, hfollows⟩ := h.lower hpart
    obtain ⟨d', hd', hnext⟩ := hfollows.renorm hfits hc
    rw [h.range] at hlt hd'
    refine ⟨(states ctxIdx).toMPS, d', ?_, rfl, hnext⟩
    rw [if_neg hlt, hd', Option.map_some, not_not.mp hlps]

theorem decodeTerminate_false (h : Follows 8 w a d) (hnormal : Normal a)
    (hc : Contains 8 w (codeBin (states, a) (.terminate false)).2) :
    ∃ d', decodeTerminate d = some (false, d') ∧ Follows 8 w (codeBin (states, a) (.terminate false)).2 d' := by
  have hfits := splitBin_fits hnormal (.terminate false) states
  obtain ⟨hlt, hfollows⟩ := h.lower (hc.of_renorm hfits)
  obtain ⟨d', hd', hnext⟩ := hfollows.renorm hfits hc
  refine ⟨d', ?_, hnext⟩
  unfold decodeTerminate
  dsimp only
  rw [if_neg hlt, hd', Option.map_some]

theorem decodeTerminate_true (h : Follows 8 w a d) (hc : Contains 8 w (a.upper 2)) :
    decodeTerminate d = some (true, { d with range := d.range - 2 }) := if_pos (h.upper hc).1

/-! ## All bins -/

theorem contains_of_codeBin (hnormal : Normal a) (hc : Contains 8 w (codeBin (states, a) bin).2) : Contains 8 w a := by
  have hpart := hc.of_renorm (splitBin_fits hnormal bin states)
  have hlong := hnormal.long
  obtain ⟨width, -, hhi, heq | heq⟩ := splitBin_cases bin states a
  · exact (heq ▸ hpart).of_lower
  · exact (heq ▸ hpart).of_upper (by omega)

theorem contains_of_codeBins (hnormal : Normal a) (hc : Contains 8 w (codeBins bins (states, a)).2) :
    Contains 8 w a := by
  induction bins generalizing a states with
  | nil => exact hc
  | cons bin bins ih => exact contains_of_codeBin hnormal (ih hnormal.codeBin hc)

/-- The bins of a sequence and a terminate bin that is set. -/
theorem decodeBins_eq (h : Follows 8 w a d) (hnormal : Normal a) (hopen : ∀ bin ∈ bins, bin ≠ .terminate true)
    (hc : Contains 8 w ((codeBins bins (states, a)).2.upper 2)) :
    ∃ d', decodeBins ((bins ++ [CabacBin.terminate true]).map CabacBin.ctxIdx) states d =
        some ((bins ++ [CabacBin.terminate true]).map CabacBin.binVal, (codeBins bins (states, a)).1, d') ∧
      d'.rest = w.drop ((codeBins bins (states, a)).2.place + 8 + 2) := by
  induction bins generalizing a d states with
  | nil =>
    have hlast := decodeTerminate_true h hc
    refine ⟨{ d with range := d.range - 2 }, ?_, h.rest⟩
    show decodeBins [none] states d = _
    unfold decodeBins
    rw [hlast, Option.bind_some]
    rfl
  | cons bin bins ih =>
    have hlast : Normal (codeBins bins ((codeBin (states, a) bin).1, (codeBin (states, a) bin).2)).2 :=
      hnormal.codeBin.codeBins
    have hnext : Contains 8 w (codeBin (states, a) bin).2 := by
      refine contains_of_codeBins hnormal.codeBin (hc.of_upper ?_)
      exact (by decide : 2 ≤ 256).trans hlast.long
    have hrest := fun bin hmem => hopen bin (List.mem_cons_of_mem _ hmem)
    cases bin with
    | context ctxIdx binVal =>
      obtain ⟨state, d₁, hdecode, hstates, hfollows⟩ := decodeDecision_eq h hnormal hnext
      obtain ⟨d', hbins, hd'⟩ := ih hfollows hnormal.codeBin hrest hc
      refine ⟨d', ?_, hd'⟩
      show decodeBins (some ctxIdx :: (bins ++ [CabacBin.terminate true]).map CabacBin.ctxIdx) states d = _
      unfold decodeBins
      rw [hdecode, Option.bind_some]
      dsimp only
      rw [hstates]
      exact congrArg (Option.map fun t => (binVal :: t.1, t.2)) hbins
    | terminate binVal =>
      cases binVal with
      | true => exact absurd rfl (hopen _ List.mem_cons_self)
      | false =>
        obtain ⟨d₁, hdecode, hfollows⟩ := decodeTerminate_false h hnormal hnext
        obtain ⟨d', hbins, hd'⟩ := ih hfollows hnormal.codeBin hrest hc
        refine ⟨d', ?_, hd'⟩
        show decodeBins (none :: (bins ++ [CabacBin.terminate true]).map CabacBin.ctxIdx) states d = _
        unfold decodeBins
        rw [hdecode, Option.bind_some]
        exact congrArg (Option.map fun t => (false :: t.1, t.2)) hbins

/-! ## The code word -/

/-- The bits between `AL_Cabac_Init` and the alignment. -/
def codeWord (states : ℕ → ContextState) (bins : List CabacBin) : List Bool :=
  ((codeBins bins (states, initCoder)).2.flush 8).tail

theorem flush_eq_cons (hnormal : Normal a) {n : ℕ} (hn : 7 ≤ n) :
    (Coder.renorm 8 n (a.upper 2)).flush 8 = false :: ((Coder.renorm 8 n (a.upper 2)).flush 8).tail := by
  have hlong := hnormal.long
  obtain ⟨hc, hlength⟩ := contains_flush [] (by decide : 0 < 8) hn hnormal.fits (by omega)
  have hbounded : a.Bounded 8 := hnormal.bounded
  rw [List.append_nil] at hc
  have hlt := hc.lt
  rw [← hlength, List.take_length, Contains.number_upper] at hlt
  generalize (Coder.renorm 8 n (a.upper 2)).flush 8 = l at hlt hlength ⊢
  cases l with
  | nil => exact absurd hlength (by simp)
  | cons b l =>
    cases b with
    | false => rfl
    | true =>
      -- with the bit set the number would be too high
      have hplace : l.length = a.place + 8 + 1 := Nat.succ.inj hlength
      have hbound : a.number 8 + a.range ≤ 2 ^ (a.place + 8 + 1) := hbounded
      have hvalue : 2 ^ l.length ≤ value (true :: l) := by
        rw [value, Bool.toNat_true, Nat.one_mul]
        exact Nat.le_add_right _ _
      have hlt' : value (true :: l) < a.number 8 + (a.range - 2) + 2 := hlt
      rw [hplace] at hvalue
      omega

theorem follows_init (l : List Bool) : Follows 8 (false :: l) initCoder ⟨510, value (l.take 9), l.drop 9⟩ := by
  have hnumber : initCoder.number 8 = 0 := by decide
  have hvalue : value (false :: l.take 9) = value (l.take 9) := by
    rw [value, Bool.toNat_false, Nat.zero_mul, Nat.zero_add]
  refine ⟨rfl, ?_, rfl⟩
  show value (l.take 9) + initCoder.number 8 = value (false :: l.take 9)
  rw [hnumber, hvalue, Nat.add_zero]

/-- The engine reads the bins of a code word, and no bit behind it. -/
theorem decode_codeWord (states : ℕ → ContextState) (hopen : ∀ bin ∈ bins, bin ≠ .terminate true) (rest : List Bool) :
    ∃ d', decode ((bins ++ [CabacBin.terminate true]).map CabacBin.ctxIdx) states
        (codeWord states (bins ++ [CabacBin.terminate true]) ++ rest) =
      some ((bins ++ [CabacBin.terminate true]).map CabacBin.binVal,
        (codeBins (bins ++ [CabacBin.terminate true]) (states, initCoder)).1, d') ∧ d'.rest = rest := by
  have hnormal : Normal (codeBins bins (states, initCoder)).2 := initCoder_normal.codeBins
  have hlast : codeBins (bins ++ [CabacBin.terminate true]) (states, initCoder) =
      ((codeBins bins (states, initCoder)).1, Coder.renorm 8 8 ((codeBins bins (states, initCoder)).2.upper 2)) :=
    codeBins_append _
  have hrange := hnormal.long
  obtain ⟨hc, hlength⟩ := contains_flush rest (by decide : 0 < 8) (by decide : 8 - 1 ≤ 8) hnormal.fits (by omega)
  have hcons := flush_eq_cons hnormal (by decide : 7 ≤ 8)
  have hword : codeWord states (bins ++ [CabacBin.terminate true]) =
      ((Coder.renorm 8 8 ((codeBins bins (states, initCoder)).2.upper 2)).flush 8).tail := by
    unfold codeWord
    rw [hlast]
  rw [← hword] at hcons
  rw [hcons, List.cons_append] at hc
  rw [hcons] at hlength
  have hplace : (codeBins bins (states, initCoder)).2.place + 8 + 2 =
      (codeWord states (bins ++ [CabacBin.terminate true])).length + 1 := hlength.symm
  have hinit : initDecodingEngine (codeWord states (bins ++ [CabacBin.terminate true]) ++ rest) =
      some ⟨510, value ((codeWord states (bins ++ [CabacBin.terminate true]) ++ rest).take 9),
        (codeWord states (bins ++ [CabacBin.terminate true]) ++ rest).drop 9⟩ := by
    apply if_pos
    rw [List.length_append]
    omega
  obtain ⟨d', hdecode, hrest⟩ := decodeBins_eq (follows_init _) initCoder_normal hopen hc
  refine ⟨d', ?_, ?_⟩
  · unfold decode
    rw [hinit, Option.bind_some, hdecode, hlast]
  · rw [hrest, hplace, List.drop_succ_cons, List.drop_left]

/-! ## The registers -/

namespace CabacCtx

theorem putOutstanding_registers {s s' : BitStreamLite} {c c' : CabacCtx} {b : ℕ}
    (h : c.putOutstanding s b = some (s', c')) : c'.uLow = c.uLow ∧ c'.uRange = c.uRange := by
  unfold putOutstanding at h
  by_cases hzero : c.uOut = 0
  · rw [if_pos hzero] at h
    obtain ⟨-, rfl⟩ := Prod.mk.inj (Option.some.inj h)
    exact ⟨rfl, rfl⟩
  · -- the numbers are named so that the loop of `PutBit` is not evaluated
    obtain ⟨uValue, hvalue⟩ : ∃ uValue, toUInt32 ((1 - (b : ℤ)) * -1) = uValue := ⟨_, rfl⟩
    obtain ⟨iNumBits, hbits⟩ : ∃ iNumBits, toInt32 (c.uOut : ℤ) = iNumBits := ⟨_, rfl⟩
    rw [if_neg hzero, hvalue, hbits] at h
    dsimp only at h
    obtain ⟨-, h⟩ := Option.ite_none_right_eq_some.mp h
    obtain ⟨-, rfl⟩ := Prod.mk.inj (Option.some.inj h)
    exact ⟨rfl, rfl⟩

theorem putBit_registers {s s' : BitStreamLite} {c c' : CabacCtx} {b : ℕ} (h : c.putBit s b = some (s', c')) :
    c'.uLow = c.uLow ∧ c'.uRange = c.uRange := by
  unfold putBit at h
  by_cases hfirst : c.uFirst ≠ 0
  · rw [if_pos hfirst] at h
    have hput := putOutstanding_registers h
    exact hput
  · rw [if_neg hfirst] at h
    exact putOutstanding_registers h

/-- The interval is inside of the register and not empty. -/
def LowFits (c : CabacCtx) : Prop := c.uLow + c.uRange ≤ 1024 ∧ 0 < c.uRange

/-- A round of `RenormE` that goes on. -/
def RenormStep (t t' : BitStreamLite × CabacCtx) : Prop := renormRound t = .inl t'

theorem LowFits.round {t t' : BitStreamLite × CabacCtx} (h : t.2.LowFits) (ht : RenormStep t t') : t'.2.LowFits := by
  obtain ⟨s, c⟩ := t
  obtain ⟨hhigh, hpos⟩ : c.uLow + c.uRange ≤ 1024 ∧ 0 < c.uRange := h
  unfold RenormStep renormRound at ht
  dsimp only at ht
  by_cases hshort : c.uRange < 0x100
  · rw [if_pos hshort] at ht
    by_cases hsend : 0x200 ≤ c.uLow ∨ c.uLow < 0x100
    · rw [if_pos hsend] at ht
      cases hput : c.putBit s (c.uLow >>> 9 % 2 ^ 8) with
      | none =>
        rw [hput] at ht
        exact absurd ht Sum.inr_ne_inl
      | some t =>
        obtain ⟨s', c'⟩ := t
        rw [hput] at ht
        obtain ⟨hlow, hrange⟩ := putBit_registers hput
        obtain rfl := Sum.inl.inj ht
        show (c'.uLow &&& 0x1ff) <<< 1 % 2 ^ 32 + c'.uRange <<< 1 % 2 ^ 32 ≤ 1024 ∧ 0 < c'.uRange <<< 1 % 2 ^ 32
        rw [and_mask, hlow, hrange, Nat.shiftLeft_eq, Nat.shiftLeft_eq]
        omega
    · rw [if_neg hsend] at ht
      obtain rfl := Sum.inl.inj ht
      show (c.uLow - 0x100) <<< 1 % 2 ^ 32 + c.uRange <<< 1 % 2 ^ 32 ≤ 1024 ∧ 0 < c.uRange <<< 1 % 2 ^ 32
      rw [Nat.shiftLeft_eq, Nat.shiftLeft_eq]
      omega
  · rw [if_neg hshort] at ht
    exact absurd ht Sum.inr_ne_inl

theorem LowFits.rounds {t t' : BitStreamLite × CabacCtx} (h : t.2.LowFits)
    (ht : Relation.ReflTransGen RenormStep t t') : t'.2.uLow < 1024 := by
  have hfits : t'.2.LowFits := by
    induction ht with
    | refl => exact h
    | tail _ hstep ih => exact ih.round hstep
  obtain ⟨hhigh, hpos⟩ := hfits
  omega

/-- The registers between two bins. -/
def InRange (c : CabacCtx) : Prop := (256 ≤ c.uRange ∧ c.uRange ≤ 510) ∧ c.uLow < 1024

/-- The registers for a bin, before the renormalisation. -/
def step (c : CabacCtx) (states : ℕ → ContextState) : CabacBin → CabacCtx
  | .context ctxIdx binVal => (c.writeBinStep (states ctxIdx) binVal).1
  | .terminate binVal => c.terminateStep binVal

theorem Mirrors.inRange {s₀ s : BitStreamLite} {c : CabacCtx} (h : Mirrors s₀ (s, c) a) (hnormal : Normal a) :
    c.InRange := by
  have hrange : c.uRange = a.range := h.range
  have hlow : c.uLow = a.low := h.low
  unfold InRange
  rw [hrange, hlow]
  exact ⟨⟨hnormal.long, hnormal.short⟩, lt_of_fits hnormal.fits⟩

theorem Mirrors.step {s₀ s : BitStreamLite} {c : CabacCtx} (h : Mirrors s₀ (s, c) a) (hnormal : Normal a) :
    (c.step states bin).LowFits := by
  have hmirrors : Mirrors s₀ (s, c.step states bin) (splitBin bin (states, a)).2 := by
    cases bin with
    | context ctxIdx binVal => exact (h.writeBinStep hnormal states ctxIdx binVal).1
    | terminate binVal => exact h.terminateStep hnormal states binVal
  have hrange : (c.step states bin).uRange = (splitBin bin (states, a)).2.range := hmirrors.range
  have hlow : (c.step states bin).uLow = (splitBin bin (states, a)).2.low := hmirrors.low
  have hfits := splitBin_fits hnormal bin states
  unfold LowFits
  rw [hrange, hlow]
  exact ⟨hfits.high, hfits.pos⟩

end CabacCtx

/-! ## The round trip -/

/-- The bits between `AL_Cabac_Init` and the end of `AL_Cabac_Finish` give the bins and the
contexts back, and the registers stay in their ranges. -/
structure RoundTrip (fuel : ℕ) (pBS : BitStreamLite) (states : ℕ → ContextState) (bins : List CabacBin) : Prop where
  decoded : ∃ pBS₁ c states' pBS₂ d, writeBins fuel bins pBS .init states = some (pBS₁, c, states') ∧
    c.finish pBS₁ = some pBS₂ ∧ pBS₂.bits.take pBS.iBitCount = pBS.bits ∧
      decode (bins.map CabacBin.ctxIdx) states (pBS₂.bits.drop pBS.iBitCount) = some (bins.map CabacBin.binVal, states', d)
  registers : ∀ bins', bins' <+: bins → ∃ s c states', writeBins fuel bins' pBS .init states = some (s, c, states') ∧
    c.InRange
  rounds : ∀ bins' bin, bins' ++ [bin] <+: bins → ∀ s c states', writeBins fuel bins' pBS .init states =
    some (s, c, states') → ∀ t, Relation.ReflTransGen CabacCtx.RenormStep (s, c.step states' bin) t → t.2.uLow < 1024

/-- The bits of the code word, filled up to a byte, fit into the buffer. -/
def HasRoom (pBS : BitStreamLite) (states : ℕ → ContextState) (bins : List CabacBin) : Prop :=
  pBS.iMaxBits < 2 ^ 31 ∧ (pBS.iBitCount + (codeWord states bins).length + 7) / 8 * 8 ≤ pBS.iMaxBits
deriving Decidable

theorem length_codeWord (states : ℕ → ContextState) (bins : List CabacBin) :
    (codeWord states bins).length = (codeBins bins (states, initCoder)).2.place + 2 := by
  unfold codeWord Coder.flush
  rw [List.length_tail, List.length_append, length_fixed, Coder.length_send]
  omega

theorem writeBins_mirrors {fuel : ℕ} {pBS : BitStreamLite} {bins' : List CabacBin} (hfuel : 8 < fuel) (htidy : pBS.Tidy)
    (hroom : HasRoom pBS states bins) (hstart : bins' <+: bins) :
    ∃ s c, writeBins fuel bins' pBS .init states = some (s, c, (codeBins bins' (states, initCoder)).1) ∧
      CabacCtx.Mirrors pBS (s, c) (codeBins bins' (states, initCoder)).2 := by
  obtain ⟨rest, rfl⟩ := hstart
  obtain ⟨hmax, hlength⟩ := hroom
  rw [length_codeWord, codeBins_append] at hlength
  have hplace : (codeBins bins' (states, initCoder)).2.place ≤ (codeBins rest (codeBins bins' (states, initCoder))).2.place :=
    place_codeBins_le rest _ _
  have hinit : CabacCtx.Mirrors pBS (pBS, .init) initCoder := ⟨rfl, rfl, rfl, rfl, BitStreamLite.Extends.nil htidy⟩
  exact hinit.writeBins initCoder_normal hfuel hmax (by omega)

/-- A sequence that ends with a terminate bin that is set, its only one. -/
theorem roundTrip_terminated {fuel : ℕ} {pBS : BitStreamLite} (hfuel : 8 < fuel) (htidy : pBS.Tidy)
    (hopen : ∀ bin ∈ bins, bin ≠ .terminate true) (hroom : HasRoom pBS states (bins ++ [.terminate true])) :
    RoundTrip fuel pBS states (bins ++ [.terminate true]) := by
  refine ⟨?_, fun bins' hstart => ?_, fun bins' bin hstart s c states' hwrite t ht => ?_⟩
  · obtain ⟨pBS₁, c, hwrite, hmirrors⟩ := writeBins_mirrors hfuel htidy hroom (List.prefix_refl _)
    have hnormal : Normal (codeBins (bins ++ [.terminate true]) (states, initCoder)).2 := initCoder_normal.codeBins
    obtain ⟨pBS₂, hfinish, hext⟩ := hmirrors.finish hnormal.fits hroom.1 hroom.2
    obtain ⟨d, hdecode, -⟩ := decode_codeWord states hopen (List.replicate _ false)
    have hbits := hext.bits_eq
    have hlength : pBS.bits.length = pBS.iBitCount := length_window ..
    refine ⟨pBS₁, c, _, pBS₂, d, hwrite, hfinish, ?_, ?_⟩
    · rw [hbits, ← hlength, List.take_left]
    · rw [hbits, ← hlength, List.drop_left]
      exact hdecode
  · obtain ⟨s, c, hwrite, hmirrors⟩ := writeBins_mirrors hfuel htidy hroom hstart
    exact ⟨s, c, _, hwrite, hmirrors.inRange initCoder_normal.codeBins⟩
  · have hshorter := (List.prefix_append bins' [bin]).trans hstart
    obtain ⟨s₁, c₁, hwrite₁, hmirrors⟩ := writeBins_mirrors hfuel htidy hroom hshorter
    obtain ⟨rfl, hrest⟩ := Prod.mk.inj (Option.some.inj (hwrite₁.symm.trans hwrite))
    obtain ⟨rfl, -⟩ := Prod.mk.inj hrest
    exact CabacCtx.LowFits.rounds (hmirrors.step initCoder_normal.codeBins) ht

theorem init_tidy (pBuf : ℕ → UInt8) (iMaxSize : ℕ) : (BitStreamLite.init pBuf iMaxSize).Tidy :=
  ⟨rfl, fun hne => absurd rfl hne⟩

/-- Two macroblocks that are skipped, and the end of the slice. -/
theorem roundTrip_terminated_skips : RoundTrip 9 (.init (fun _ => 0) 16) (fun _ => ⟨14, true⟩)
    ([.context 0 true, .terminate false, .context 0 true] ++ [.terminate true]) :=
  roundTrip_terminated (by decide) (init_tidy _ _) (by decide) (by decide +kernel)

/-- Without the terminate bin the last bits are not enough: two bins that are set come back
as one that is set and one that is not. -/
theorem not_roundTrip : ¬ ∀ (fuel : ℕ) (pBS : BitStreamLite) (states : ℕ → ContextState) (bins : List CabacBin),
    8 < fuel → pBS.Tidy → HasRoom pBS states bins → RoundTrip fuel pBS states bins := by
  intro h
  have htrip := h 9 (.init (fun _ => 0) 16) (fun _ => ⟨42, false⟩) [.context 0 true, .context 0 true] (by decide)
    (init_tidy _ _) (by decide +kernel)
  obtain ⟨pBS₁, c, states', pBS₂, d, hwrite, hfinish, -, hdecode⟩ := htrip.decoded
  have hread : ((writeBins 9 [.context 0 true, .context 0 true] (.init (fun _ => 0) 16) .init fun _ => ⟨42, false⟩).bind
      fun t => (t.2.1.finish t.1).bind fun pBS₂ =>
        (decode [some 0, some 0] (fun _ => ⟨42, false⟩) pBS₂.bits).map Prod.fst) = some [true, false] := by
    decide +kernel
  rw [hwrite, Option.bind_some, hfinish, Option.bind_some] at hread
  have hbins : (decode [some 0, some 0] (fun _ => ⟨42, false⟩) pBS₂.bits).map Prod.fst = some [true, true] :=
    congrArg (Option.map Prod.fst) hdecode
  exact absurd (hbins.symm.trans hread) (by decide)

end VcuCodec
