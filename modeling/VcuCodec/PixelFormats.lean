import VcuCodec.EncCropping

/-!
# The formats of pixel buffers

The table of `lib_common/FourCC.c`, the pitch of `lib_common/BufCommon.c`, and the bytes of a
plane: its lines and how many bytes of a line belong to the picture.
-/

namespace VcuCodec

/-- `AL_EFbStorageMode` -/
inductive FbStorageMode
  | raster
  | tile32x4
  | tile64x4
  deriving DecidableEq

/-- `AL_EChromaOrder` -/
inductive ChromaOrder
  | noChroma
  | uv
  | vu
  | semiplanar
  deriving DecidableEq

/-- `AL_TPicFormat` -/
structure PicFormat where
  eChromaMode : ChromaMode
  uBitDepth : ℕ
  eStorageMode : FbStorageMode
  eChromaOrder : ChromaOrder
  bCompressed : Bool
  b10bPacked : Bool
  deriving DecidableEq

/-! ## The table -/

def fourCC2 (a b c d : Char) : ℕ := a.toNat + b.toNat * 2 ^ 8 + c.toNat * 2 ^ 16 + d.toNat * 2 ^ 24

def fourCCMappings : List (ℕ × PicFormat) :=
  [(fourCC2 'I' '4' '2' '0', ⟨.c420, 8, .raster, .uv, false, false⟩),
    (fourCC2 'I' 'Y' 'U' 'V', ⟨.c420, 8, .raster, .uv, false, false⟩),
    (fourCC2 'Y' 'V' '1' '2', ⟨.c420, 8, .raster, .vu, false, false⟩),
    (fourCC2 'I' '4' '2' '2', ⟨.c422, 8, .raster, .uv, false, false⟩),
    (fourCC2 'Y' 'V' '1' '6', ⟨.c422, 8, .raster, .vu, false, false⟩),
    (fourCC2 'I' '4' '4' '4', ⟨.c444, 8, .raster, .uv, false, false⟩),
    (fourCC2 'I' '0' 'A' 'L', ⟨.c420, 10, .raster, .uv, false, false⟩),
    (fourCC2 'I' '2' 'A' 'L', ⟨.c422, 10, .raster, .uv, false, false⟩),
    (fourCC2 'I' '4' 'A' 'L', ⟨.c444, 10, .raster, .uv, false, false⟩),
    (fourCC2 'I' '0' 'C' 'L', ⟨.c420, 12, .raster, .uv, false, false⟩),
    (fourCC2 'I' '2' 'C' 'L', ⟨.c422, 12, .raster, .uv, false, false⟩),
    (fourCC2 'I' '4' 'C' 'L', ⟨.c444, 12, .raster, .uv, false, false⟩),
    (fourCC2 'N' 'V' '1' '2', ⟨.c420, 8, .raster, .semiplanar, false, false⟩),
    (fourCC2 'N' 'V' '1' '6', ⟨.c422, 8, .raster, .semiplanar, false, false⟩),
    (fourCC2 'P' '0' '1' '0', ⟨.c420, 10, .raster, .semiplanar, false, false⟩),
    (fourCC2 'P' '2' '1' '0', ⟨.c422, 10, .raster, .semiplanar, false, false⟩),
    (fourCC2 'Y' '8' '0' '0', ⟨.mono, 8, .raster, .noChroma, false, false⟩),
    (fourCC2 'Y' '0' '1' '0', ⟨.mono, 10, .raster, .noChroma, false, false⟩),
    (fourCC2 'T' '6' '0' '8', ⟨.c420, 8, .tile64x4, .semiplanar, false, false⟩),
    (fourCC2 'T' '6' '2' '8', ⟨.c422, 8, .tile64x4, .semiplanar, false, false⟩),
    (fourCC2 'T' '6' 'm' '8', ⟨.mono, 8, .tile64x4, .noChroma, false, false⟩),
    (fourCC2 'T' '6' '0' 'A', ⟨.c420, 10, .tile64x4, .semiplanar, false, false⟩),
    (fourCC2 'T' '6' '2' 'A', ⟨.c422, 10, .tile64x4, .semiplanar, false, false⟩),
    (fourCC2 'T' '6' 'm' 'A', ⟨.mono, 10, .tile64x4, .noChroma, false, false⟩),
    (fourCC2 'T' '5' '0' '8', ⟨.c420, 8, .tile32x4, .semiplanar, false, false⟩),
    (fourCC2 'T' '5' '2' '8', ⟨.c422, 8, .tile32x4, .semiplanar, false, false⟩),
    (fourCC2 'T' '5' 'm' '8', ⟨.mono, 8, .tile32x4, .noChroma, false, false⟩),
    (fourCC2 'T' '5' '0' 'A', ⟨.c420, 10, .tile32x4, .semiplanar, false, false⟩),
    (fourCC2 'T' '5' '2' 'A', ⟨.c422, 10, .tile32x4, .semiplanar, false, false⟩),
    (fourCC2 'T' '5' 'm' 'A', ⟨.mono, 10, .tile32x4, .noChroma, false, false⟩),
    (fourCC2 'X' 'V' '1' '0', ⟨.mono, 10, .raster, .noChroma, false, true⟩),
    (fourCC2 'X' 'V' '1' '5', ⟨.c420, 10, .raster, .semiplanar, false, true⟩),
    (fourCC2 'X' 'V' '2' '0', ⟨.c422, 10, .raster, .semiplanar, false, true⟩)]

/-- `AL_GetPicFormat`; an unknown code fails an assertion. -/
def getPicFormat (tFourCC : ℕ) : Option PicFormat :=
  (fourCCMappings.find? fun e => e.1 = tFourCC).map Prod.snd

/-- `AL_GetFourCC`; an unknown format fails an assertion. -/
def getFourCC (tPictFormat : PicFormat) : Option ℕ :=
  (fourCCMappings.find? fun e => e.2 = tPictFormat).map Prod.fst

theorem getPicFormat_mapping : ∀ e ∈ fourCCMappings, getPicFormat e.1 = some e.2 := by
  decide +kernel

theorem mem_of_getFourCC {tPictFormat : PicFormat} {tFourCC : ℕ}
    (h : getFourCC tPictFormat = some tFourCC) : (tFourCC, tPictFormat) ∈ fourCCMappings := by
  obtain ⟨e, he, rfl⟩ := Option.map_eq_some_iff.mp h
  have hformat : e.2 = tPictFormat := by simpa using List.find?_some he
  rw [← hformat]
  exact List.mem_of_find?_eq_some he

theorem getPicFormat_getFourCC {tPictFormat : PicFormat} {tFourCC : ℕ}
    (h : getFourCC tPictFormat = some tFourCC) : getPicFormat tFourCC = some tPictFormat :=
  getPicFormat_mapping (tFourCC, tPictFormat) (mem_of_getFourCC h)

/-! ## The pitch -/

def roundUp (iVal iRnd : ℤ) : ℤ :=
  if 0 ≤ iVal then (iVal + iRnd - 1).tdiv iRnd * iRnd else iVal.tdiv iRnd * iRnd

/-- `AL_GetNumLinesInPitch` -/
def getNumLinesInPitch : FbStorageMode → ℕ
  | .raster => 1
  | .tile32x4 => 4
  | .tile64x4 => 4

def getWidthRound : FbStorageMode → ℕ
  | .raster => 1
  | .tile64x4 => 64
  | .tile32x4 => 32

/-- The bits of a sample in a tile. -/
def tileDepth (uBitDepth : ℕ) : ℕ := if 8 < uBitDepth then 10 else 8

def computeRndPitch (iWidth : ℤ) (uBitDepth : ℕ) (eStorageMode : FbStorageMode) (iBurstAlignment : ℤ) :
    ℤ :=
  let iRndWidth := roundUp iWidth (getWidthRound eStorageMode)
  let iVal := match eStorageMode with
    | .raster => if uBitDepth = 8 then iRndWidth else (iRndWidth + 2).tdiv 3 * 4
    | .tile32x4 | .tile64x4 =>
      (iRndWidth * getNumLinesInPitch eStorageMode * tileDepth uBitDepth).tdiv 8
  roundUp iVal iBurstAlignment

def hwIpBurstAlignment : ℤ := 32

/-- `AL_EncGetMinPitch` -/
def encGetMinPitch (iWidth : ℤ) (uBitDepth : ℕ) (eStorageMode : FbStorageMode) : ℤ :=
  computeRndPitch iWidth uBitDepth eStorageMode hwIpBurstAlignment

/-! ## The bytes of a plane -/

/-- The bytes of a line of `samples` samples; in a tiled format a line has four rows. -/
def lineBytes (eStorageMode : FbStorageMode) (uBitDepth samples : ℕ) : ℕ :=
  match eStorageMode with
  | .raster => if uBitDepth = 8 then samples else (samples + 2) / 3 * 4
  | .tile32x4 => (samples + 31) / 32 * 32 * 4 * tileDepth uBitDepth / 8
  | .tile64x4 => (samples + 63) / 64 * 64 * 4 * tileDepth uBitDepth / 8

/-- The lines of `rows` rows of samples. -/
def lineCount (eStorageMode : FbStorageMode) (rows : ℕ) : ℕ :=
  (rows + getNumLinesInPitch eStorageMode - 1) / getNumLinesInPitch eStorageMode

theorem lineBytes_zero (eStorageMode : FbStorageMode) (uBitDepth : ℕ) :
    lineBytes eStorageMode uBitDepth 0 = 0 := by
  unfold lineBytes
  cases eStorageMode with
  | raster => simp
  | tile32x4 => simp
  | tile64x4 => simp

theorem roundUp_of_nonneg {iVal iRnd : ℤ} (h : 0 ≤ iVal) (hrnd : 0 < iRnd) :
    roundUp iVal iRnd = (iVal + iRnd - 1) / iRnd * iRnd := by
  unfold roundUp
  rw [if_pos h, Int.tdiv_eq_ediv_of_nonneg (by omega)]

theorem tile_pitch {width tile depth : ℕ} (htile : 0 < tile) :
    ((roundUp width tile * (4 : ℕ) * depth).tdiv 8 : ℤ) =
      ((width + tile - 1) / tile * tile * 4 * depth / 8 : ℕ) := by
  have hround : roundUp width tile = ((width + tile - 1) / tile * tile : ℕ) := by
    rw [roundUp_of_nonneg (Int.natCast_nonneg _) (by omega)]
    push_cast [show 1 ≤ width + tile by omega]
    rfl
  rw [hround, ← Nat.cast_mul, ← Nat.cast_mul, Int.tdiv_eq_ediv_of_nonneg (Int.natCast_nonneg _)]
  rfl

theorem le_roundUp {x : ℤ} (h : 0 ≤ x) : x ≤ roundUp x hwIpBurstAlignment := by
  rw [roundUp_of_nonneg h (by decide)]
  unfold hwIpBurstAlignment
  omega

/-- The lines of a picture fit in the pitch, also those of its chroma, which have a sample
more if the width is odd. -/
theorem lineBytes_le_minPitch (eStorageMode : FbStorageMode) {uBitDepth : ℕ}
    (hdepth : uBitDepth = 8 ∨ uBitDepth = 10) (width : ℕ) :
    (lineBytes eStorageMode uBitDepth width : ℤ) ≤ encGetMinPitch width uBitDepth eStorageMode ∧
      (lineBytes eStorageMode uBitDepth ((width + 1) / 2 * 2) : ℤ) ≤
        encGetMinPitch width uBitDepth eStorageMode := by
  unfold encGetMinPitch computeRndPitch
  cases eStorageMode with
  | raster =>
    have hround : roundUp width (getWidthRound .raster) = width := by
      rw [roundUp_of_nonneg (Int.natCast_nonneg _) (by decide)]
      simp only [getWidthRound]
      omega
    dsimp only
    rw [hround]
    unfold hwIpBurstAlignment
    rcases hdepth with rfl | rfl
    · rw [if_pos rfl, roundUp_of_nonneg (by omega) (by decide)]
      simp only [lineBytes, if_true]
      omega
    · have hline (samples : ℕ) : lineBytes .raster 10 samples = (samples + 2) / 3 * 4 := rfl
      -- one more word only behind an odd number of words, which has to be padded anyway
      have hwords : ((width + 1) / 2 * 2 + 2) / 3 ≤ (width + 2) / 3 ∨
          ((width + 1) / 2 * 2 + 2) / 3 = (width + 2) / 3 + 1 ∧ (width + 2) / 3 % 2 = 1 := by
        omega
      rw [if_neg (by decide), Int.tdiv_eq_ediv_of_nonneg (by omega),
        roundUp_of_nonneg (by omega) (by decide), hline, hline]
      generalize ((width + 1) / 2 * 2 + 2) / 3 = chroma at hwords ⊢
      omega
  | tile32x4 =>
    have hsame : ((width + 1) / 2 * 2 + 31) / 32 = (width + 31) / 32 := by omega
    dsimp only [getNumLinesInPitch, getWidthRound, lineBytes]
    rw [hsame, tile_pitch (by decide)]
    exact ⟨le_roundUp (Int.natCast_nonneg _), le_roundUp (Int.natCast_nonneg _)⟩
  | tile64x4 =>
    have hsame : ((width + 1) / 2 * 2 + 63) / 64 = (width + 63) / 64 := by omega
    dsimp only [getNumLinesInPitch, getWidthRound, lineBytes]
    rw [hsame, tile_pitch (by decide)]
    exact ⟨le_roundUp (Int.natCast_nonneg _), le_roundUp (Int.natCast_nonneg _)⟩

end VcuCodec
