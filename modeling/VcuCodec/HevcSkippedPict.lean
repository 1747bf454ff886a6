import VcuCodec.Cabac

/-!
# The HEVC skipped picture

`lib_bitstream/HEVC_SkippedPict.c`.  The bins go to the CABAC encoder in the order in which
they are listed.  The sizes are natural numbers: a picture has far fewer than `2 ^ 31` luma samples.
-/

namespace VcuCodec

/-- The calls of `AL_Cabac_WriteBin` and `AL_Cabac_Terminate`, and the bins that are counted. -/
structure BinWrites where
  bins : List CabacBin
  uBins : ℕ

namespace BinWrites

def nothing : BinWrites := ⟨[], 0⟩

def one (bin : CabacBin) : BinWrites := ⟨[bin], 1⟩

def next (w w' : BinWrites) : BinWrites := ⟨w.bins ++ w'.bins, w.uBins + w'.uBins⟩

/-- The call that is made on a condition. -/
def callIf (c : Prop) [Decidable c] (w : BinWrites) : BinWrites := if c then w else nothing

end BinWrites

open BinWrites

/-- `AL_sHEVC_WriteSkippedCU` -/
def writeSkippedCU (iAvailA iAvailB iSplit : Bool) : BinWrites :=
  let iCtx := 1
  let iCtx := if iAvailA then iCtx + 1 else iCtx
  let iCtx := if iAvailB then iCtx + 1 else iCtx
  ((callIf (iSplit = false) (one (.context 0 false))).next (one (.context iCtx true))).next (one (.context 4 false))

/-- `AL_sHEVC_WriteSkippedCuRight`, with the mask `1 << k`. -/
def writeSkippedCuRight (iMod : ℕ) : ℕ → (iAvailB : Bool) → BinWrites
  | 0, iAvailB => (writeSkippedCU true iAvailB true).next (writeSkippedCU true true true)
  | k + 1, iAvailB =>
    (((callIf (iMod &&& 1 <<< (k + 1) ≠ 0) (writeSkippedCU true iAvailB false)).next
      (callIf (iMod &&& (1 <<< (k + 1) - 1) ≠ 0) (writeSkippedCuRight iMod k iAvailB))).next
      (callIf (iMod &&& 1 <<< (k + 1) ≠ 0) (writeSkippedCU true true false))).next
      (callIf (iMod &&& (1 <<< (k + 1) - 1) ≠ 0) (writeSkippedCuRight iMod k true))

/-- `AL_sHEVC_WriteSkippedCuBottom`, with the mask `1 << k`. -/
def writeSkippedCuBottom (iMod : ℕ) : ℕ → (iAvailA : Bool) → BinWrites
  | 0, iAvailA => (writeSkippedCU iAvailA true true).next (writeSkippedCU true true true)
  | k + 1, iAvailA =>
    (callIf (iMod &&& 1 <<< (k + 1) ≠ 0) ((writeSkippedCU iAvailA true false).next (writeSkippedCU true true false))).next
      (callIf (iMod &&& (1 <<< (k + 1) - 1) ≠ 0)
        ((writeSkippedCuBottom iMod k iAvailA).next (writeSkippedCuBottom iMod k true)))

/-- `AL_sHEVC_WriteSkippedCuBotRight`, with the mask `1 << k`. -/
def writeSkippedCuBotRight (iModW iModH : ℕ) : ℕ → BinWrites
  | 0 => writeSkippedCU true true true
  | k + 1 =>
    (callIf (iModH &&& 1 <<< (k + 1) ≠ 0)
      ((callIf (iModW &&& 1 <<< (k + 1) ≠ 0) (writeSkippedCU true true false)).next
        (callIf (iModW &&& (1 <<< (k + 1) - 1) ≠ 0) (writeSkippedCuRight iModW k true)))).next
      (callIf (iModH &&& (1 <<< (k + 1) - 1) ≠ 0)
        ((callIf (iModW &&& 1 <<< (k + 1) ≠ 0) (writeSkippedCuBottom iModH k true)).next
          (callIf (iModW &&& (1 <<< (k + 1) - 1) ≠ 0) (writeSkippedCuBotRight iModW iModH k))))

/-- The sizes that `AL_sHEVC_GenerateSkippedTileCabac` is given. -/
structure SkippedTile where
  bLastTile : Bool
  iWidth : ℕ
  iHeight : ℕ
  uNumLCU : ℕ
  deriving DecidableEq

section Tile

variable (uMaxCuSize uMinCuSize : ℕ) (t : SkippedTile)

/-- A round of the loop of `AL_sHEVC_GenerateSkippedTileCabac`.  A part of a coding tree block
is only there if it is larger than the smallest coding block; the mask is `iT >> 1`. -/
def skippedLCU (uLCU : ℕ) : BinWrites :=
  let uWidthLCU := (t.iWidth + 1 <<< uMaxCuSize - 1) >>> uMaxCuSize
  let uHeightLCU := t.iHeight >>> uMaxCuSize
  let iW := (t.iWidth % 1 <<< uMaxCuSize) >>> uMinCuSize
  let iH := (t.iHeight % 1 <<< uMaxCuSize) >>> uMinCuSize
  let k := uMaxCuSize - uMinCuSize - 1
  let iRightColumn := uLCU % uWidthLCU = uWidthLCU - 1
  let iBottomRow := uLCU / uWidthLCU = uHeightLCU
  let cus :=
    if iRightColumn ∧ iW ≠ 0 ∧ iBottomRow ∧ iH ≠ 0 then writeSkippedCuBotRight iW iH k
    else if iRightColumn ∧ iW ≠ 0 then writeSkippedCuRight iW k (uWidthLCU ≤ uLCU)
    else if iBottomRow ∧ iH ≠ 0 then writeSkippedCuBottom iH k (uLCU % uWidthLCU ≠ 0)
    else writeSkippedCU (uWidthLCU ≤ uLCU) (uLCU % uWidthLCU ≠ 0) false
  let bLastLCU := decide (uLCU = t.uNumLCU - 1)
  (cus.next (one (.terminate (t.bLastTile && bLastLCU)))).next
    (callIf (t.bLastTile = false ∧ bLastLCU = true) (one (.terminate true)))

/-- The bins of `AL_sHEVC_GenerateSkippedTileCabac`. -/
def skippedTileBins : BinWrites :=
  (List.range t.uNumLCU).foldl (fun w uLCU => w.next (skippedLCU uMaxCuSize uMinCuSize t uLCU)) nothing

local instance neZero_sixtyFour : NeZero 64 := ⟨by decide⟩

/-- `pState` and `pValMPS` -/
def skippedStates (ctxIdx : ℕ) : ContextState :=
  [⟨16, false⟩, ⟨15, false⟩, ⟨8, true⟩, ⟨16, true⟩, ⟨16, false⟩].getD ctxIdx ⟨0, false⟩

/-- `AL_sHEVC_GenerateSkippedTileCabac` -/
def generateSkippedTileCabac (fuel : ℕ) (pBS : BitStreamLite) : Option (BitStreamLite × ℕ) :=
  let w := skippedTileBins uMaxCuSize uMinCuSize t
  (writeBins fuel w.bins pBS .init skippedStates).bind fun (pBS, c, _) =>
    (c.finish pBS).map fun pBS => (pBS, w.uBins)

end Tile

/-- What the loops of `AL_HEVC_GenerateSkippedPicture` give to the tiles of a row, with the
columns behind the given ones. -/
def skippedRow (uMaxCuSize iTileHeight uTileHeight : ℕ) (lastRow : Bool) : (W : ℕ) → List ℕ → List SkippedTile
  | _, [] => []
  | W, w :: pTileWidths =>
    ⟨pTileWidths.isEmpty && lastRow, min (w <<< uMaxCuSize) W, iTileHeight, w * uTileHeight⟩ ::
      skippedRow uMaxCuSize iTileHeight uTileHeight lastRow (W - w <<< uMaxCuSize) pTileWidths

/-- The calls for all tiles, with the rows behind the given ones. -/
def skippedTiles (uMaxCuSize iWidth : ℕ) (pTileWidths : List ℕ) : (H : ℕ) → List ℕ → List SkippedTile
  | _, [] => []
  | H, h :: pTileHeights =>
    skippedRow uMaxCuSize (min (h <<< uMaxCuSize) H) h pTileHeights.isEmpty iWidth pTileWidths ++
      skippedTiles uMaxCuSize iWidth pTileWidths (H - h <<< uMaxCuSize) pTileHeights

/-- `AL_TSkippedPicture`, with the data that was written. -/
structure SkippedPicture where
  pData : BitStreamLite
  iNumBits : ℕ
  iNumBins : ℕ
  iNumTiles : ℕ
  uTileSizes : List ℕ

/-- The variables of the loops. -/
structure SkipState where
  BS : BitStreamLite
  iPrevBitsCount : ℕ
  iBitsCount : ℕ
  iBinsCount : ℕ
  uTileSizes : List ℕ

/-- The body of the loops. -/
def SkipState.round (fuel uMaxCuSize uMinCuSize : ℕ) (s : SkipState) (t : SkippedTile) : Option SkipState :=
  (generateSkippedTileCabac uMaxCuSize uMinCuSize t fuel s.BS).map fun (BS, iBinsCount) =>
    { BS
      iPrevBitsCount := BS.iBitCount
      iBitsCount := BS.iBitCount
      iBinsCount
      uTileSizes := s.uTileSizes ++ [(BS.iBitCount - s.iPrevBitsCount) / 8] }

/-- `AL_HEVC_GenerateSkippedPicture`, which refuses a picture without data before. -/
def generateSkippedPicture (fuel : ℕ) (pData : ℕ → UInt8) (iBufSize iWidth iHeight uMaxCuSize uMinCuSize : ℕ)
    (pTileWidths pTileHeights : List ℕ) : Option SkippedPicture :=
  let s : SkipState := ⟨.init pData iBufSize, 0, 0, 0, []⟩
  ((skippedTiles uMaxCuSize iWidth pTileWidths iHeight pTileHeights).foldlM (SkipState.round fuel uMaxCuSize uMinCuSize) s).map
    fun s => ⟨s.BS, s.iBitsCount, s.iBinsCount, pTileWidths.length * pTileHeights.length, s.uTileSizes⟩

end VcuCodec
