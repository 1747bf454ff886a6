import VcuCodec.BitWrites

/-!
# Sequences of bit writes

What the bit writer leaves in a buffer of a declared size, for any fields from
any bit offset on, also where they run past the end.
-/

namespace VcuCodec

open BitStrings

/-- The arguments of one `AL_BitStreamLite_PutBits`. -/
structure BitField where
  iNumBits : ℕ
  uValue : ℕ
  width : 1 ≤ iNumBits ∧ iNumBits ≤ 32
  value : uValue < 2 ^ 32

namespace BitField

/-- The assertion of `AL_BitStreamLite_PutBits`. -/
def Fits (f : BitField) : Prop := f.iNumBits = 32 ∨ f.uValue >>> f.iNumBits = 0
deriving Decidable

theorem Fits.lt {f : BitField} (h : f.Fits) : f.uValue < 2 ^ f.iNumBits := by
  rcases h with h | h
  · rw [h]
    exact f.value
  · rw [Nat.shiftRight_eq_div_pow] at h
    exact (Nat.div_eq_zero_iff_lt (Nat.two_pow_pos _)).mp h

/-- The fields one after the other, most significant bit first. -/
def bits (fs : List BitField) : List Bool := fs.flatMap fun f => fixed f.iNumBits f.uValue

end BitField

namespace BitStreamLite

/-! ## The calls -/

theorem skipBits_iBitCount (s : BitStreamLite) (numBits : ℕ) :
    (s.skipBits numBits).iBitCount = s.iBitCount + numBits := by
  unfold skipBits
  dsimp only
  split <;> rfl

/-- `AL_BitStreamLite_PutBits` with its assertion; `none` is a failed assertion or
a bit count that leaves its `int`. -/
def putField (s : BitStreamLite) (f : BitField) : Option BitStreamLite :=
  if f.Fits ∧ FitsInt32 (s.iBitCount + f.iNumBits) then some (s.putBits f.iNumBits f.uValue)
  else none

def putFields (s : BitStreamLite) (fs : List BitField) : Option BitStreamLite :=
  fs.foldlM putField s

/-- A sequence of writes from the bit `iStart` on: `AL_BitStreamLite_Init`,
`AL_BitStreamLite_SkipBits` and the fields. -/
def putFieldsAt (pBuf : ℕ → UInt8) (iMaxSize iStart : ℕ) (fs : List BitField) :
    Option BitStreamLite :=
  if FitsInt32 (iMaxSize * 8) ∧ FitsInt32 iStart then
    ((init pBuf iMaxSize).skipBits iStart).putFields fs
  else none

/-- What is in a buffer of `iMaxSize` bytes after the bits `bs` were written from
the bit `iStart` on. -/
structure Wrote (pBuf : ℕ → UInt8) (iMaxSize iStart : ℕ) (bs : List Bool)
    (s : BitStreamLite) : Prop where
  count : s.iBitCount = iStart + bs.length
  new : ∀ k (h : k < bs.length), iStart + k < iMaxSize * 8 → bitAt s.pData (iStart + k) = bs[k]
  old : ∀ i < iStart, bitAt s.pData i = bitAt pBuf i
  beyond : ∀ i, iMaxSize ≤ i → s.pData i = pBuf i
  overflow : s.isOverflow = true ↔ iMaxSize * 8 < iStart + bs.length

/-- The rest of the byte that the first write adds to is zero. -/
def CleanFrom (pBuf : ℕ → UInt8) (iMaxSize iStart : ℕ) : Prop :=
  iStart % 8 ≠ 0 → iStart < iMaxSize * 8 →
    ∀ i, iStart ≤ i → i / 8 = iStart / 8 → bitAt pBuf i = false

/-! ## One step -/

/-- A writer of `iMaxSize` bytes between two writes, also one that has run over. -/
structure Ready (iMaxSize : ℕ) (s : BitStreamLite) : Prop where
  max : s.iMaxBits = iMaxSize * 8
  overflow : s.isOverflow = true ↔ iMaxSize * 8 < s.iBitCount
  clean : CleanFrom s.pData iMaxSize s.iBitCount

/-- From `s` to `s'` the writer writes those bits of `bs` that its buffer has room for. -/
structure Puts (iMaxSize : ℕ) (s : BitStreamLite) (bs : List Bool) (s' : BitStreamLite) :
    Prop where
  ready : s'.Ready iMaxSize
  wrote : Wrote s.pData iMaxSize s.iBitCount bs s'

variable {iMaxSize n v : ℕ} {s s' s'' : BitStreamLite} {bs cs : List Bool}

theorem Ready.tidy (h : s.Ready iMaxSize) (hin : s.iBitCount < iMaxSize * 8) : s.Tidy where
  fits := by
    have : ¬s.isOverflow = true := fun hc => absurd (h.overflow.mp hc) (by omega)
    simpa using this
  rest hz := h.clean hz hin

namespace Puts

theorem nil (h : s.Ready iMaxSize) : Puts iMaxSize s [] s where
  ready := h
  wrote := ⟨rfl, fun _ hk => absurd hk (Nat.not_lt_zero _), fun _ _ => rfl, fun _ _ => rfl,
    h.overflow⟩

theorem append (h : Puts iMaxSize s bs s') (h' : Puts iMaxSize s' cs s'') :
    Puts iMaxSize s (bs ++ cs) s'' := by
  have hcount := h.wrote.count
  have hcount' := h'.wrote.count
  refine ⟨h'.ready, ⟨?_, fun k hk hin => ?_, fun i hi => ?_, fun i hi => ?_, ?_⟩⟩
  · rw [hcount', hcount, List.length_append, Nat.add_assoc]
  · by_cases hlt : k < bs.length
    · rw [List.getElem_append_left hlt, h'.wrote.old _ (by omega), h.wrote.new k hlt hin]
    · have hk' : k - bs.length < cs.length := by
        rw [List.length_append] at hk
        omega
      have hpos : s.iBitCount + k = s'.iBitCount + (k - bs.length) := by omega
      rw [List.getElem_append_right (by omega), ← h'.wrote.new _ hk' (by omega), hpos]
  · rw [h'.wrote.old i (by omega), h.wrote.old i hi]
  · rw [h'.wrote.beyond i hi, h.wrote.beyond i hi]
  · rw [h'.wrote.overflow, hcount, List.length_append, Nat.add_assoc]

end Puts

theorem putInByte_puts_of_le (h : s.Ready iMaxSize) (hn0 : 0 < n) (hn : s.iBitCount % 8 + n ≤ 8)
    (hv : s.iBitCount % 8 = 0 ∨ v < 2 ^ n) (hmax : s.iBitCount + n ≤ iMaxSize * 8) :
    Puts iMaxSize s (fixed n v) (s.putInByte n v) := by
  have hext := putInByte_extends (h.tidy (by omega)) hn0 hn hv (h.max ▸ hmax)
  have hcount : (s.putInByte n v).iBitCount = s.iBitCount + n := by
    rw [hext.count, length_fixed]
  have hover : (s.putInByte n v).isOverflow = false := hext.tidy.fits
  constructor
  · refine ⟨hext.max.trans h.max, ?_, fun hz _ => hext.tidy.rest hz⟩
    rw [hover, hcount]
    simpa using hmax
  · refine ⟨hext.count, fun k hk _ => window_eq_iff.mp hext.new k hk, hext.old, fun i hi => ?_, ?_⟩
    · rw [putInByte_eq (h.max ▸ hmax)]
      exact Function.update_of_ne (by omega) _ _
    · rw [hover, length_fixed]
      simpa using hmax

theorem putInByte_puts_of_lt (h : s.Ready iMaxSize) (hn : s.iBitCount % 8 + n ≤ 8)
    (hmax : iMaxSize * 8 < s.iBitCount + n) : Puts iMaxSize s (fixed n v) (s.putInByte n v) := by
  have hpast : iMaxSize * 8 ≤ s.iBitCount := by omega
  have heq : s.putInByte n v = ⟨s.pData, s.iBitCount + n, s.iMaxBits, true⟩ := by
    unfold putInByte
    rw [if_neg (by rw [h.max]; omega)]
  rw [heq]
  constructor
  · exact ⟨h.max, ⟨fun _ => hmax, fun _ => rfl⟩, fun _ hin => absurd hin (by dsimp only; omega)⟩
  · refine ⟨by rw [length_fixed], fun k _ hin => absurd hin (by omega), fun _ _ => rfl,
      fun _ _ => rfl, ?_⟩
    rw [length_fixed]
    exact ⟨fun _ => hmax, fun _ => rfl⟩

theorem putInByte_puts (h : s.Ready iMaxSize) (hn0 : 0 < n) (hn : s.iBitCount % 8 + n ≤ 8)
    (hv : s.iBitCount % 8 = 0 ∨ v < 2 ^ n) : Puts iMaxSize s (fixed n v) (s.putInByte n v) := by
  by_cases hmax : s.iBitCount + n ≤ iMaxSize * 8
  · exact putInByte_puts_of_le h hn0 hn hv hmax
  · exact putInByte_puts_of_lt h hn (by omega)

/-- As `putBits_extends_congr`, wherever the buffer ends. -/
theorem putBits_puts_congr (h : s.Ready iMaxSize) {v₀ : ℕ} (hn0 : 0 < n) (hn : n ≤ 32)
    (hmod : v % 2 ^ n = v₀ % 2 ^ n) (hv : s.iBitCount % 8 = 0 ∨ v < 2 ^ n) :
    Puts iMaxSize s (fixed n v₀) (s.putBits n v) := by
  induction n using Nat.strongRecOn generalizing s v with
  | ind n ih =>
    by_cases hlt : 8 - s.iBitCount % 8 < n
    · rw [putBits_of_lt hlt]
      have hw0 : 0 < 8 - s.iBitCount % 8 := by omega
      generalize hw : 8 - s.iBitCount % 8 = w at *
      have hfst : Puts iMaxSize s (fixed w (v₀ >>> (n - w)))
          (s.putInByte w (v >>> (n - w) % 2 ^ 8)) := by
        rw [← fixed_congr (leading_congr (by omega) hlt hmod)]
        exact putInByte_puts h hw0 (by omega) (hv.imp_right (leading_lt hlt))
      have halign : (s.putInByte w (v >>> (n - w) % 2 ^ 8)).iBitCount % 8 = 0 := by
        rw [hfst.wrote.count, length_fixed]
        omega
      have hsnd := ih (n - w) (by omega) hfst.ready (by omega) (by omega)
        (trailing_congr (by omega) hlt hn hmod) (.inl halign)
      have := hfst.append hsnd
      rwa [← fixed_add, show w + (n - w) = n by omega] at this
    · rw [putBits_of_le (by omega), ← fixed_congr hmod]
      exact putInByte_puts h hn0 (by omega) hv

theorem putField_puts (h : s.Ready iMaxSize) {f : BitField} (hf : f.Fits)
    (hcount : FitsInt32 (s.iBitCount + f.iNumBits)) :
    ∃ s', s.putField f = some s' ∧ Puts iMaxSize s (fixed f.iNumBits f.uValue) s' :=
  ⟨_, if_pos ⟨hf, hcount⟩, putBits_puts_congr h f.width.1 f.width.2 rfl (.inr hf.lt)⟩

/-! ## Any sequence -/

theorem putFields_puts {fs : List BitField} (h : s.Ready iMaxSize) (hf : ∀ f ∈ fs, f.Fits)
    (hcount : FitsInt32 (s.iBitCount + (BitField.bits fs).length)) :
    ∃ s', s.putFields fs = some s' ∧ Puts iMaxSize s (BitField.bits fs) s' := by
  induction fs generalizing s with
  | nil => exact ⟨s, rfl, Puts.nil h⟩
  | cons f fs ih =>
    have hlen : (BitField.bits (f :: fs)).length =
        f.iNumBits + (BitField.bits fs).length := by
      simp [BitField.bits]
    obtain ⟨hlo, hhi⟩ := hcount
    rw [hlen] at hhi
    push_cast at hhi
    obtain ⟨s', hs', hput⟩ := putField_puts h (hf f List.mem_cons_self) ⟨by omega, by omega⟩
    have hc : s'.iBitCount = s.iBitCount + f.iNumBits := by
      rw [hput.wrote.count, length_fixed]
    obtain ⟨s'', hs'', hputs⟩ := ih hput.ready (fun g hg => hf g (List.mem_cons_of_mem f hg))
      ⟨by omega, by rw [hc]; push_cast; omega⟩
    refine ⟨s'', ?_, hput.append hputs⟩
    simp only [putFields, List.foldlM_cons, hs', Option.bind_eq_bind, Option.bind_some]
    exact hs''

theorem init_skipBits_ready {pBuf : ℕ → UInt8} {iStart : ℕ} (hclean : CleanFrom pBuf iMaxSize iStart) :
    ((init pBuf iMaxSize).skipBits iStart).Ready iMaxSize ∧
      ((init pBuf iMaxSize).skipBits iStart).iBitCount = iStart ∧
      ((init pBuf iMaxSize).skipBits iStart).pData = pBuf := by
  unfold skipBits init
  dsimp only
  rw [Nat.zero_add]
  split
  · next hlt => exact ⟨⟨rfl, ⟨fun _ => hlt, fun _ => rfl⟩, hclean⟩, rfl, rfl⟩
  · next hle =>
    refine ⟨⟨rfl, ⟨fun hc => absurd hc (by simp), fun hc => absurd hc hle⟩, hclean⟩, rfl, rfl⟩

/-- Any fields from any bit offset on: the buffer holds their bits one after the
other as far as it reaches, and nothing else of it or after it changes. -/
theorem putFieldsAt_wrote (pBuf : ℕ → UInt8) (iMaxSize iStart : ℕ) (fs : List BitField)
    (hsize : FitsInt32 (iMaxSize * 8)) (hclean : CleanFrom pBuf iMaxSize iStart)
    (hfits : ∀ f ∈ fs, f.Fits) (hcount : FitsInt32 (iStart + (BitField.bits fs).length)) :
    ∃ s, putFieldsAt pBuf iMaxSize iStart fs = some s ∧
      Wrote pBuf iMaxSize iStart (BitField.bits fs) s := by
  obtain ⟨hready, hstart, hdata⟩ := init_skipBits_ready hclean
  obtain ⟨s, hs, hputs⟩ := putFields_puts hready hfits (hstart.symm ▸ hcount)
  have hwrote := hputs.wrote
  rw [hstart, hdata] at hwrote
  have hstarts : FitsInt32 iStart := by
    obtain ⟨-, hhi⟩ := hcount
    constructor <;> omega
  refine ⟨s, ?_, hwrote⟩
  unfold putFieldsAt
  rw [if_pos ⟨hsize, hstarts⟩, hs]

/-- A field over two bytes from the fourth bit on, and one that runs over. -/
theorem putFieldsAt_wrote_twoFields :
    ∃ s, putFieldsAt (fun _ => 0) 2 3
        [⟨9, 0x155, by decide, by decide⟩, ⟨5, 0x1F, by decide, by decide⟩] = some s ∧
      Wrote (fun _ => 0) 2 3 (BitField.bits
        [⟨9, 0x155, by decide, by decide⟩, ⟨5, 0x1F, by decide, by decide⟩]) s :=
  putFieldsAt_wrote (fun _ => 0) 2 3 _ (by decide) (fun _ _ i _ _ => by simp [bitAt])
    (by decide) (by decide)

/-- Over set bits the addition carries into the bit before the start; a value
that is too wide fails the assertion; and the count may leave its `int`. -/
theorem not_putFieldsAt_wrote :
    (¬∃ s, putFieldsAt (fun _ => 0x7F) 1 1 [⟨7, 1, by decide, by decide⟩] = some s ∧
      Wrote (fun _ => 0x7F) 1 1 (BitField.bits [⟨7, 1, by decide, by decide⟩]) s) ∧
    (¬∃ s, putFieldsAt (fun _ => 0) 1 0 [⟨1, 2, by decide, by decide⟩] = some s ∧
      Wrote (fun _ => 0) 1 0 (BitField.bits [⟨1, 2, by decide, by decide⟩]) s) ∧
    ¬∃ s, putFieldsAt (fun _ => 0) 1 (2 ^ 31 - 1) [⟨1, 0, by decide, by decide⟩] = some s ∧
      Wrote (fun _ => 0) 1 (2 ^ 31 - 1) (BitField.bits [⟨1, 0, by decide, by decide⟩]) s := by
  refine ⟨?_, ?_, ?_⟩
  · rintro ⟨s, hs, hw⟩
    have hput : ((init (fun _ => 0x7F) 1).skipBits 1).putBits 7 1 =
        ((init (fun _ => 0x7F) 1).skipBits 1).putInByte 7 1 := putBits_of_le (by decide)
    have hrun : putFieldsAt (fun _ => 0x7F) 1 1 [⟨7, 1, by decide, by decide⟩] =
        some (((init (fun _ => 0x7F) 1).skipBits 1).putBits 7 1) := by
      simp [putFieldsAt, putFields, putField, BitField.Fits, FitsInt32, skipBits_iBitCount, init]
    rw [hrun, hput, Option.some_inj] at hs
    have hold := hw.old 0 (by decide)
    rw [← hs] at hold
    exact absurd hold (by decide)
  · rintro ⟨s, hs, -⟩
    exact absurd hs (by simp [putFieldsAt, putFields, putField, BitField.Fits])
  · rintro ⟨s, hs, -⟩
    exact absurd hs (by
      simp [putFieldsAt, putFields, putField, FitsInt32, skipBits_iBitCount, init])

end BitStreamLite

end VcuCodec
