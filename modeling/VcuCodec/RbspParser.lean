import VcuCodec.MeasuredLoops
import Mathlib.Logic.Function.Basic
import Mathlib.Tactic.Linarith

/-!
# The RBSP parser

`lib_common_dec/RbspParser.c`: the fetch of a NAL unit from the circular stream
buffer with the removal of the emulation prevention bytes, and the descriptors
that read the result.  The bit counters are natural numbers, except where
`skip` and `get_cache_24` take differences and sums of `uint32_t`, which wrap.
-/

namespace VcuCodec

/-- `TCircBuffer`. -/
structure CircBuffer where
  pVirtualAddr : ℕ → UInt8
  uSize : ℕ
  iOffset : ℕ
  iAvailSize : ℕ

/-- `AL_TRbspParser`; `pByte` is an index into `pBuffer`. -/
structure RbspParser where
  iTrailingBitOneIndex : ℕ
  iTotalBitIndex : ℕ
  iTrailingBitOneIndexConceal : ℕ
  uNumScDetect : ℕ
  uZeroBytesCount : ℕ
  pBuffer : ℕ → UInt8
  pByte : ℕ
  pBufIn : ℕ → UInt8
  iBufInSize : ℕ
  iBufInOffset : ℕ
  iBufInAvailSize : ℕ
  bHasSC : Bool

def ANTI_EMUL_GRANULARITY : ℕ := 32

def tabLog2 : List ℕ :=
  List.replicate 2 0 ++ List.replicate 2 1 ++ List.replicate 4 2 ++ List.replicate 8 3 ++
    List.replicate 16 4 ++ List.replicate 32 5 ++ List.replicate 64 6 ++ List.replicate 128 7

def alLog2 (value : ℕ) : ℕ :=
  if value &&& 0xFF000000 ≠ 0 then 24 + tabLog2.getD (value >>> 24) 0
  else if value &&& 0x00FF0000 ≠ 0 then 16 + tabLog2.getD (value >>> 16) 0
  else if value &&& 0x0000FF00 ≠ 0 then 8 + tabLog2.getD (value >>> 8) 0
  else tabLog2.getD value 0

namespace RbspParser

/-- `InitRbspParser`. -/
def init (pStream : CircBuffer) (pBuffer : ℕ → UInt8) (bHasSC : Bool) : RbspParser where
  pBuffer := pBuffer
  iTotalBitIndex := 0
  iTrailingBitOneIndex := 0
  iTrailingBitOneIndexConceal := 0
  uNumScDetect := 0
  uZeroBytesCount := 0
  pByte := 0
  pBufIn := pStream.pVirtualAddr
  iBufInSize := pStream.uSize
  iBufInOffset := pStream.iOffset
  iBufInAvailSize := pStream.iAvailSize
  bHasSC := bHasSC

/-! ## Fetching -/

def readBit (p : RbspParser) (iBitIndex : ℕ) : ℕ :=
  (p.pBuffer (iBitIndex / 8)).toNat &&& 1 <<< (7 - iBitIndex % 8)

/-- The loop of `remove_trailing_bits`. -/
def trailingBitOne (p : RbspParser) : ℕ → ℕ
  | 0 => 0
  | i + 1 => if p.readBit (i + 1) = 0 then p.trailingBitOne i else i + 1

def removeTrailingBits (p : RbspParser) : RbspParser :=
  let i := p.trailingBitOne p.iTrailingBitOneIndex
  let i := if i < p.iTotalBitIndex then p.iTotalBitIndex else i
  { p with iTrailingBitOneIndex := i, iTrailingBitOneIndexConceal := (i + 8) / 8 * 8 }

def finishedFetching (p : RbspParser) : Bool :=
  p.uNumScDetect = 2 || p.iBufInAvailSize = 0

/-- The next byte of the stream buffer is taken. -/
def takeByte (p : RbspParser) : RbspParser :=
  { p with
    iBufInOffset := (p.iBufInOffset + 1) % p.iBufInSize
    iBufInAvailSize := p.iBufInAvailSize - 1 }

def clearZeros (p : RbspParser) : RbspParser := { p with uZeroBytesCount := 0 }

/-- Start codes and zero bytes are counted when the stream has start codes. -/
def countStartCode (p : RbspParser) (read : UInt8) : RbspParser :=
  if p.bHasSC ∧ 2 ≤ p.uZeroBytesCount ∧ read = 1 then
    { p with uNumScDetect := (p.uNumScDetect + 1) % 2 ^ 8 }
  else p

def countZero (p : RbspParser) (read : UInt8) : RbspParser :=
  if p.bHasSC then
    { p with uZeroBytesCount := if read = 0 then (p.uZeroBytesCount + 1) % 2 ^ 8 else 0 }
  else p

/-- A byte is stored behind those fetched so far. -/
def storeByte (p : RbspParser) (index : ℕ) (read : UInt8) : RbspParser :=
  { p with
    iTrailingBitOneIndex := p.iTrailingBitOneIndex + 8
    iTrailingBitOneIndexConceal := p.iTrailingBitOneIndexConceal + 8
    pBuffer := Function.update p.pBuffer index read }

/-- The loop of `fetch_data`; `rounds` is `uEnd - uRead`, and `pBufOut` the index
of the next byte to store. -/
def fetchLoop : (rounds uRead pBufOut : ℕ) → RbspParser → RbspParser
  | 0, _, _, p => p
  | rounds + 1, uRead, pBufOut, p =>
    if p.iBufInAvailSize = 0 then p
    else
      let read := p.pBufIn (uRead % p.iBufInSize)
      let p := p.takeByte
      if p.bHasSC ∧ p.uZeroBytesCount = 2 ∧ read = 3 then
        fetchLoop rounds (uRead + 1) pBufOut p.clearZeros
      else
        let q := p.countStartCode read
        if p.bHasSC ∧ 2 ≤ p.uZeroBytesCount ∧ read = 1 ∧ q.uNumScDetect = 2 then q
        else fetchLoop rounds (uRead + 1) (pBufOut + 1) ((q.countZero read).storeByte pBufOut read)

/-- `fetch_data`; `NON_VCL_NAL_SIZE` does not cut the chunk, since it is larger. -/
def fetchData (p : RbspParser) : Bool × RbspParser :=
  if p.finishedFetching then (false, p)
  else
    let q := fetchLoop ANTI_EMUL_GRANULARITY p.iBufInOffset (p.iTrailingBitOneIndex / 8) p
    (true, if q.finishedFetching then q.removeTrailingBits else q)

/-! ## Reading -/

def moreRbspData (p : RbspParser) : Bool × RbspParser :=
  let p := p.fetchData.2
  (p.iTotalBitIndex < p.iTrailingBitOneIndex, p)

def moreRbspDataConceal (p : RbspParser) : Bool :=
  p.iTotalBitIndex ≤ p.iTrailingBitOneIndexConceal

/-- `iTrailingBitOneIndex - iTotalBitIndex`. -/
def bitsAhead (p : RbspParser) : ℕ :=
  (p.iTrailingBitOneIndex + 2 ^ 32 - p.iTotalBitIndex) % 2 ^ 32

/-- The end of `get_next_bit`: the bit at `pByte`. -/
def takeBit (p : RbspParser) : ℕ × RbspParser :=
  let bitOffset := p.iTotalBitIndex % 8
  let bit := if (p.pBuffer p.pByte).toNat &&& 0x80 >>> bitOffset ≠ 0 then 1 else 0
  (bit, { p with
    iTotalBitIndex := p.iTotalBitIndex + 1
    pByte := if bitOffset = 7 then p.pByte + 1 else p.pByte })

/-- `get_next_bit`; `return -1` is 255. -/
def getNextBit (p : RbspParser) : ℕ × RbspParser :=
  if p.iTrailingBitOneIndex < p.iTotalBitIndex + 1 then
    let f := p.fetchData
    if f.1 then f.2.takeBit else (255, f.2)
  else p.takeBit

def getCache24 (p : RbspParser) : ℕ × RbspParser :=
  let p := if p.bitsAhead < 32 then p.fetchData.2 else p
  let bitOffset := p.iTotalBitIndex % 8
  let byteOffset := p.iTotalBitIndex / 8
  let b0 := (p.pBuffer (byteOffset + 0)).toNat <<< 24
  let b1 := (p.pBuffer (byteOffset + 1)).toNat <<< 16
  let b2 := (p.pBuffer (byteOffset + 2)).toNat <<< 8
  let b3 := (p.pBuffer (byteOffset + 3)).toNat
  let aligned := b0 ||| b1 ||| b2 ||| b3
  (aligned >>> (8 - bitOffset) &&& 0x00FFFFFF, p)

/-! ## Progress

Every fetch takes a byte of the stream, and what it makes readable is not more
than what it takes.  The loops of the parser end because of this. -/

theorem fetchLoop_progress (rounds uRead pBufOut : ℕ) (p : RbspParser) :
    (fetchLoop rounds uRead pBufOut p).iTotalBitIndex = p.iTotalBitIndex ∧
      (fetchLoop rounds uRead pBufOut p).iBufInAvailSize ≤ p.iBufInAvailSize ∧
      (fetchLoop rounds uRead pBufOut p).iTrailingBitOneIndex +
          8 * (fetchLoop rounds uRead pBufOut p).iBufInAvailSize ≤
        p.iTrailingBitOneIndex + 8 * p.iBufInAvailSize := by
  induction rounds generalizing uRead pBufOut p with
  | zero => simp [fetchLoop]
  | succ rounds ih =>
    unfold fetchLoop
    split
    · simp
    · next ha =>
      dsimp only
      split
      · have := ih (uRead + 1) pBufOut p.takeByte.clearZeros
        simp only [takeByte, clearZeros] at this ⊢
        omega
      · split
        · unfold countStartCode
          split <;> refine ⟨rfl, ?_, ?_⟩ <;> dsimp only [takeByte] <;> omega
        · have := ih (uRead + 1) (pBufOut + 1)
            (((p.takeByte.countStartCode (p.pBufIn (uRead % p.iBufInSize))).countZero
              (p.pBufIn (uRead % p.iBufInSize))).storeByte pBufOut
                (p.pBufIn (uRead % p.iBufInSize)))
          generalize fetchLoop rounds _ _ _ = q at this ⊢
          unfold storeByte countZero countStartCode takeByte at this
          split at this <;> split at this <;> dsimp only at this <;> omega

variable {p : RbspParser}

theorem fetchLoop_lt {rounds : ℕ} (hr : 0 < rounds) (uRead pBufOut : ℕ)
    (ha : p.iBufInAvailSize ≠ 0) :
    (fetchLoop rounds uRead pBufOut p).iBufInAvailSize < p.iBufInAvailSize := by
  obtain ⟨rounds, rfl⟩ : ∃ r, rounds = r + 1 := ⟨rounds - 1, by omega⟩
  unfold fetchLoop
  rw [if_neg ha]
  dsimp only
  split
  · have := (fetchLoop_progress rounds (uRead + 1) pBufOut p.takeByte.clearZeros).2.1
    simp only [takeByte, clearZeros] at this ⊢
    omega
  · split
    · unfold countStartCode
      split <;> simp only [takeByte] <;> omega
    · have := (fetchLoop_progress rounds (uRead + 1) (pBufOut + 1)
        (((p.takeByte.countStartCode (p.pBufIn (uRead % p.iBufInSize))).countZero
          (p.pBufIn (uRead % p.iBufInSize))).storeByte pBufOut
            (p.pBufIn (uRead % p.iBufInSize)))).2.1
      generalize fetchLoop rounds _ _ _ = q at this ⊢
      unfold storeByte countZero countStartCode takeByte at this
      split at this <;> split at this <;> dsimp only at this <;> omega

theorem trailingBitOne_le (p : RbspParser) (i : ℕ) : p.trailingBitOne i ≤ i := by
  induction i with
  | zero => rfl
  | succ i ih =>
    unfold trailingBitOne
    split <;> omega

theorem fetchData_fail (h : p.fetchData.1 = false) : p.fetchData.2 = p := by
  unfold fetchData at h ⊢
  split <;> simp_all

theorem fetchData_progress (h : p.fetchData.1 = true) :
    p.fetchData.2.iTotalBitIndex = p.iTotalBitIndex ∧
      p.fetchData.2.iBufInAvailSize < p.iBufInAvailSize ∧
      (p.fetchData.2.iTrailingBitOneIndex ≤ p.iTotalBitIndex ∨
        p.fetchData.2.iTrailingBitOneIndex + 8 * p.fetchData.2.iBufInAvailSize ≤
          p.iTrailingBitOneIndex + 8 * p.iBufInAvailSize) := by
  unfold fetchData at h ⊢
  split
  · simp_all
  · next hf =>
    have ha : p.iBufInAvailSize ≠ 0 := by
      intro hz
      simp [finishedFetching, hz] at hf
    obtain ⟨htot, -, hle⟩ := fetchLoop_progress ANTI_EMUL_GRANULARITY p.iBufInOffset
      (p.iTrailingBitOneIndex / 8) p
    have hlt := fetchLoop_lt (show 0 < ANTI_EMUL_GRANULARITY by decide) p.iBufInOffset
      (p.iTrailingBitOneIndex / 8) ha
    generalize fetchLoop ANTI_EMUL_GRANULARITY _ _ _ = q at *
    dsimp only
    split
    · have := q.trailingBitOne_le q.iTrailingBitOneIndex
      unfold removeTrailingBits
      dsimp only
      split <;> omega
    · omega

/-- The bits that `get_next_bit` can still be asked for, and the fetches for them. -/
def remaining (p : RbspParser) : ℕ :=
  9 * p.iBufInAvailSize + (p.iTrailingBitOneIndex + 1 - p.iTotalBitIndex)

theorem getNextBit_remaining (h : p.getNextBit.1 ≠ 255) :
    p.getNextBit.2.remaining < p.remaining := by
  unfold getNextBit at h ⊢
  split
  · next ht =>
    rw [if_pos ht] at h
    cases hf : p.fetchData.1 with
    | true =>
      obtain ⟨htot, hlt, hle⟩ := fetchData_progress hf
      dsimp only
      rw [if_pos hf]
      dsimp only [takeBit, remaining]
      omega
    | false => simp [hf] at h
  · simp only [takeBit, remaining]
    omega

/-- The loop of `skip`. -/
def skipRound (iNumBits : ℕ) : Bool × RbspParser → (Bool × RbspParser) ⊕ (Bool × RbspParser)
  | (bRes, p) => if bRes ∧ p.bitsAhead < iNumBits then .inl p.fetchData else .inr (bRes, p)

def skipMeasure : Bool × RbspParser → ℕ
  | (bRes, p) => p.iBufInAvailSize + bRes.toNat

theorem skipRound_lt (iNumBits : ℕ) (t t' : Bool × RbspParser) (h : skipRound iNumBits t = .inl t') :
    skipMeasure t' < skipMeasure t := by
  obtain ⟨bRes, p⟩ := t
  simp only [skipRound] at h
  split at h
  · next hc =>
    obtain rfl := Sum.inl.inj h
    obtain ⟨rfl, -⟩ := hc
    cases hf : p.fetchData.1 with
    | true =>
      have := (fetchData_progress hf).2.1
      simp only [skipMeasure, hf, Bool.toNat_true]
      omega
    | false =>
      simp only [skipMeasure, hf, fetchData_fail hf, Bool.toNat_true, Bool.toNat_false]
      omega
  · simp at h

def skip (p : RbspParser) (iNumBits : ℕ) : RbspParser :=
  let t := MeasuredLoops.run (skipRound iNumBits) skipMeasure (skipRound_lt iNumBits) (true, p)
  let i := if t.1 then (t.2.iTotalBitIndex + iNumBits) % 2 ^ 32 else t.2.iTrailingBitOneIndex
  { t.2 with iTotalBitIndex := i, pByte := i / 8 }

/-! ## Descriptors -/

/-- The bits that `u` reads one by one behind the first 24. -/
def uLoop : ℕ → ℕ × RbspParser → ℕ × RbspParser
  | 0, t => t
  | n + 1, (val, p) =>
    let (bit, p) := p.getNextBit
    uLoop n (val * 2 % 2 ^ 32 ||| bit, p)

def u (p : RbspParser) (iNumBits : ℕ) : ℕ × RbspParser :=
  if !p.moreRbspDataConceal then (0, p)
  else if iNumBits = 1 then p.getNextBit
  else if iNumBits ≤ 24 then
    let (c, p) := p.getCache24
    (c >>> (24 - iNumBits) &&& (1 <<< iNumBits - 1), p.skip iNumBits)
  else
    let (val, p) := p.getCache24
    uLoop (iNumBits - 24) (val, p.skip 24)

/-- The loop of `ue`: the zeros in front of the leading one, or `none` at the end
of the data. -/
def ueRound : RbspParser × ℕ → (RbspParser × ℕ) ⊕ (Option ℕ × RbspParser)
  | (p, n) =>
    let (bit, p) := p.getNextBit
    if bit = 1 then .inr (some n, p) else if bit = 255 then .inr (none, p) else .inl (p, n + 1)

theorem ueRound_lt (t t' : RbspParser × ℕ) (h : ueRound t = .inl t') :
    t'.1.remaining < t.1.remaining := by
  obtain ⟨p, n⟩ := t
  simp only [ueRound] at h
  split at h
  · simp at h
  · split at h
    · simp at h
    · next hb =>
      obtain rfl := Sum.inl.inj h
      exact getNextBit_remaining hb

/-- The end of `ue`: the `n` bits behind the leading one. -/
def ueSuffix (p : RbspParser) (n : ℕ) : ℕ × RbspParser :=
  if n = 0 then (0, p)
  else if 32 ≤ n then (0, p)
  else
    let (v, p) := p.u n
    ((2 ^ n - 1 + v) % 2 ^ 32, p)

def ue (p : RbspParser) : ℕ × RbspParser :=
  if !p.moreRbspDataConceal then (0, p)
  else
    let (c, p) := p.getCache24
    let n := 23 - alLog2 c
    if n = 23 then
      -- the code is longer than the cache
      match MeasuredLoops.run ueRound (fun t => t.1.remaining) ueRound_lt (p, 0) with
      | (some n, p) => p.ueSuffix n
      | (none, p) => (0, p)
    else (p.skip (n + 1)).ueSuffix n

def se (p : RbspParser) : ℤ × RbspParser :=
  if !p.moreRbspDataConceal then (0, p)
  else
    let (k, p) := p.ue
    let iValue : ℤ := (k + 1) % 2 ^ 32 / 2
    (if (k + 1) % 2 = 0 then iValue else -iValue, p)

end RbspParser

end VcuCodec
