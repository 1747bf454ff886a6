import VcuCodec.BitStrings
import VcuCodec.MachineInts
import VcuCodec.MeasuredLoops
import Mathlib.Logic.Function.Basic

/-!
# The bit writer

`lib_bitstream/BitStreamLite.c`.  A loop of the writer that may not end takes the
number of rounds it is given.
-/

namespace VcuCodec

/-- `AL_TBitStreamLite`. -/
structure BitStreamLite where
  pData : ℕ → UInt8
  iBitCount : ℕ
  iMaxBits : ℕ
  isOverflow : Bool

namespace BitStreamLite

def init (pBuf : ℕ → UInt8) (iMaxSize : ℕ) : BitStreamLite :=
  { pData := pBuf, iBitCount := 0, iMaxBits := iMaxSize * 8, isOverflow := false }

def reset (s : BitStreamLite) : BitStreamLite := { s with iBitCount := 0 }

def skipBits (s : BitStreamLite) (numBits : ℕ) : BitStreamLite :=
  let s := { s with iBitCount := s.iBitCount + numBits }
  if s.iMaxBits < s.iBitCount then { s with isOverflow := true } else s

def writeData (s : BitStreamLite) (iNumBits uValue : ℕ) : BitStreamLite :=
  let byteNum := s.iBitCount / 8
  let byteOffset := s.iBitCount % 8
  let byte :=
    if byteOffset = 0 then UInt8.ofNat (uValue <<< (8 - iNumBits))
    else s.pData byteNum + UInt8.ofNat (uValue <<< (8 - byteOffset - iNumBits))
  { s with pData := Function.update s.pData byteNum byte }

def putInByte (s : BitStreamLite) (iNumBits uValue : ℕ) : BitStreamLite :=
  let s :=
    if s.iBitCount + iNumBits ≤ s.iMaxBits then s.writeData iNumBits uValue
    else { s with isOverflow := true }
  { s with iBitCount := s.iBitCount + iNumBits }

/-- The loop of `AL_BitStreamLite_PutBits`: a round fills the current byte, and
the last one writes what is left. -/
def putBitsRound : BitStreamLite × ℕ × ℕ → (BitStreamLite × ℕ × ℕ) ⊕ BitStreamLite
  | (s, iNumBits, uValue) =>
    let numBitsToWrite := 8 - s.iBitCount % 8
    if numBitsToWrite < iNumBits then
      let byteValue := uValue >>> (iNumBits - numBitsToWrite) % 2 ^ 8
      .inl (s.putInByte numBitsToWrite byteValue, iNumBits - numBitsToWrite,
        uValue &&& (0xFFFFFFFF >>> numBitsToWrite))
    else .inr (s.putInByte iNumBits uValue)

theorem putBitsRound_lt (t t' : BitStreamLite × ℕ × ℕ) (h : putBitsRound t = .inl t') :
    t'.2.1 < t.2.1 := by
  obtain ⟨s, n, v⟩ := t
  have hw : 0 < 8 - s.iBitCount % 8 := by omega
  simp only [putBitsRound] at h
  split at h
  · obtain rfl := Sum.inl.inj h
    dsimp only
    omega
  · simp at h

/-- `AL_BitStreamLite_PutBits`, also `AL_BitStreamLite_PutU`. -/
def putBits (s : BitStreamLite) (iNumBits uValue : ℕ) : BitStreamLite :=
  MeasuredLoops.run putBitsRound (·.2.1) putBitsRound_lt (s, iNumBits, uValue)

def putBit (s : BitStreamLite) (iBit : ℕ) : BitStreamLite := s.putBits 1 iBit

def putVclBits (s : BitStreamLite) (uCodeLength uValue : ℕ) : BitStreamLite :=
  if uCodeLength = 1 then s.putBits 1 1
  else
    let uInfoLength := (uCodeLength - 1) / 2
    let iBits := toInt32 ((uValue : ℤ) + 1 - 2 ^ uInfoLength)
    ((s.putBits uInfoLength 0).putBits 1 1).putBits uInfoLength (toUInt32 iBits)

/-- The loop of `bit_scan_reverse_soft`; the shift of an `int32_t` keeps its sign. -/
def bitScanReverseRound : ℤ × ℤ → (ℤ × ℤ) ⊕ ℤ
  | (NN, i) => if NN ≠ 0 then .inl (NN / 2, i + 1) else .inr i

def bitScanReverseSoft (fuel : ℕ) (NN : ℤ) : Option ℤ :=
  MeasuredLoops.loop bitScanReverseRound fuel (NN, -1)

def putUE (fuel : ℕ) (s : BitStreamLite) (uValue : ℕ) : Option BitStreamLite := do
  let n ← bitScanReverseSoft fuel (toInt32 (uValue + 1))
  let uCodeLength := toUInt32 (1 + 2 * n)
  return s.putVclBits uCodeLength uValue

def putSE (fuel : ℕ) (s : BitStreamLite) (iValue : ℤ) : Option BitStreamLite :=
  let iAbs := if 0 < iValue then iValue else -iValue
  s.putUE fuel (toUInt32 (toInt32 (2 * iAbs) - (if 0 < iValue then 1 else 0)))

theorem putBit_iBitCount (s : BitStreamLite) (iBit : ℕ) :
    (s.putBit iBit).iBitCount = s.iBitCount + 1 := by
  have hr : putBitsRound (s, 1, iBit) = .inr (s.putInByte 1 iBit) := by
    simp only [putBitsRound]
    rw [if_neg (by omega)]
  simp only [putBit, putBits, MeasuredLoops.run_of_inr putBitsRound_lt hr, putInByte]
  split <;> rfl

/-- The loop of `AL_BitStreamLite_AlignWithBits`. -/
def alignRound (iBit : ℕ) (s : BitStreamLite) : BitStreamLite ⊕ BitStreamLite :=
  if s.iBitCount % 8 ≠ 0 then .inl (s.putBit iBit) else .inr s

theorem alignRound_lt (iBit : ℕ) (s s' : BitStreamLite) (h : alignRound iBit s = .inl s') :
    (8 - s'.iBitCount % 8) % 8 < (8 - s.iBitCount % 8) % 8 := by
  unfold alignRound at h
  split at h
  · next hn =>
    obtain rfl := Sum.inl.inj h
    rw [putBit_iBitCount]
    omega
  · simp at h

def alignWithBits (s : BitStreamLite) (iBit : ℕ) : BitStreamLite :=
  MeasuredLoops.run (alignRound iBit) (fun s => (8 - s.iBitCount % 8) % 8) (alignRound_lt iBit) s

def endOfSEIPayload (s : BitStreamLite) : BitStreamLite :=
  if s.iBitCount % 8 ≠ 0 then (s.putBits 1 1).alignWithBits 0 else s

end BitStreamLite

end VcuCodec
