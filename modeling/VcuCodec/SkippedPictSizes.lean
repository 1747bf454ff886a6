import VcuCodec.CabacRoundTrip
import VcuCodec.SkippedPictSyntax
import Mathlib.Algebra.BigOperators.Ring.List

/-!
# The data of the HEVC skipped picture

What `AL_HEVC_GenerateSkippedPicture` writes for the tiles, and what it records of them.
-/

namespace VcuCodec

open BitStrings IntervalCoding TiledPicture

/-! ## The bins are counted -/

/-- Every bin is counted once. -/
def BinWrites.Counted (w : BinWrites) : Prop := w.uBins = w.bins.length

namespace BinWrites

theorem Counted.next {w w' : BinWrites} (h : w.Counted) (h' : w'.Counted) : (w.next w').Counted := by
  show w.uBins + w'.uBins = (w.bins ++ w'.bins).length
  rw [List.length_append, h, h']

theorem counted_one (bin : CabacBin) : (one bin).Counted := rfl

theorem Counted.callIf {w : BinWrites} (c : Prop) [Decidable c] (h : w.Counted) : (callIf c w).Counted := by
  unfold BinWrites.callIf
  split
  · exact h
  · rfl

end BinWrites

open BinWrites

theorem counted_cu (a b split : Bool) : (writeSkippedCU a b split).Counted :=
  (((counted_one _).callIf _).next (counted_one _)).next (counted_one _)

theorem counted_right (iMod k : ℕ) (b : Bool) : (writeSkippedCuRight iMod k b).Counted := by
  induction k generalizing b with
  | zero => exact (counted_cu _ _ _).next (counted_cu _ _ _)
  | succ k ih =>
    exact ((((counted_cu _ _ _).callIf _).next ((ih b).callIf _)).next ((counted_cu _ _ _).callIf _)).next ((ih true).callIf _)

theorem counted_bottom (iMod k : ℕ) (a : Bool) : (writeSkippedCuBottom iMod k a).Counted := by
  induction k generalizing a with
  | zero => exact (counted_cu _ _ _).next (counted_cu _ _ _)
  | succ k ih =>
    exact (((counted_cu _ _ _).next (counted_cu _ _ _)).callIf _).next (((ih a).next (ih true)).callIf _)

theorem counted_botRight (iModW iModH k : ℕ) : (writeSkippedCuBotRight iModW iModH k).Counted := by
  induction k with
  | zero => exact counted_cu _ _ _
  | succ k ih =>
    exact ((((counted_cu _ _ _).callIf _).next ((counted_right _ _ _).callIf _)).callIf _).next
      ((((counted_bottom _ _ _).callIf _).next (ih.callIf _)).callIf _)

variable {c m : ℕ} {t : SkippedTile}

theorem counted_lcu (c m : ℕ) (t : SkippedTile) (i : ℕ) : (skippedLCU c m t i).Counted := by
  refine (Counted.next ?_ (counted_one _)).next ((counted_one _).callIf _)
  split
  · exact counted_botRight _ _ _
  · split
    · exact counted_right _ _ _
    · split
      · exact counted_bottom _ _ _
      · exact counted_cu _ _ _

theorem counted_foldl {f : ℕ → BinWrites} (hf : ∀ i, (f i).Counted) (l : List ℕ) {w : BinWrites} (h : w.Counted) :
    (l.foldl (fun w i => w.next (f i)) w).Counted := by
  induction l generalizing w with
  | nil => exact h
  | cons i l ih => exact ih (h.next (hf i))

theorem counted_tile (c m : ℕ) (t : SkippedTile) : (skippedTileBins c m t).Counted := counted_foldl (counted_lcu c m t) _ rfl

theorem bins_tile_ne_nil (h : 0 < t.uNumLCU) : (skippedTileBins c m t).bins ≠ [] := by
  obtain ⟨n, hn⟩ : ∃ n, t.uNumLCU = n + 1 := ⟨t.uNumLCU - 1, (Nat.sub_add_cancel h).symm⟩
  unfold skippedTileBins
  rw [hn, List.range_succ, List.foldl_append]
  refine List.append_ne_nil_of_right_ne_nil _ (List.append_ne_nil_of_left_ne_nil ?_ _)
  exact List.append_ne_nil_of_right_ne_nil _ (List.cons_ne_nil _ _)

/-! ## The bits of a tile -/

/-- The code word of a tile, filled up to a byte. -/
def tileBits (c m : ℕ) (t : SkippedTile) : List Bool :=
  codeWord skippedStates (skippedTileBins c m t).bins ++
    List.replicate ((8 - (codeWord skippedStates (skippedTileBins c m t).bins).length % 8) % 8) false

theorem length_tileBits (c m : ℕ) (t : SkippedTile) : (tileBits c m t).length % 8 = 0 := by
  unfold tileBits
  rw [List.length_append, List.length_replicate]
  omega

theorem generateSkippedTileCabac_eq {fuel : ℕ} {pBS : BitStreamLite} (hfuel : 8 < fuel) (htidy : pBS.Tidy)
    (haligned : pBS.iBitCount % 8 = 0) (hmax : pBS.iMaxBits < 2 ^ 31)
    (hroom : pBS.iBitCount + (tileBits c m t).length ≤ pBS.iMaxBits) :
    ∃ pBS', generateSkippedTileCabac c m t fuel pBS = some (pBS', (skippedTileBins c m t).bins.length) ∧
      pBS.Extends (tileBits c m t) pBS' := by
  have hlength : (tileBits c m t).length = (codeWord skippedStates (skippedTileBins c m t).bins).length +
      (8 - (codeWord skippedStates (skippedTileBins c m t).bins).length % 8) % 8 := by
    unfold tileBits
    rw [List.length_append, List.length_replicate]
  have hhas : HasRoom pBS skippedStates (skippedTileBins c m t).bins := ⟨hmax, by omega⟩
  obtain ⟨s, c', hwrite, hmirrors⟩ := writeBins_mirrors hfuel htidy hhas (List.prefix_refl _)
  have hnormal : Normal (codeBins (skippedTileBins c m t).bins (skippedStates, initCoder)).2 := initCoder_normal.codeBins
  obtain ⟨s', hfinish, hext⟩ := hmirrors.finish hnormal.fits hhas.1 hhas.2
  have hpad : (pBS.iBitCount + (codeWord skippedStates (skippedTileBins c m t).bins).length) % 8 =
      (codeWord skippedStates (skippedTileBins c m t).bins).length % 8 := by omega
  refine ⟨s', ?_, ?_⟩
  · unfold generateSkippedTileCabac
    dsimp only
    rw [hwrite, Option.bind_some, hfinish, Option.map_some, counted_tile]
  · unfold tileBits
    rw [← hpad]
    exact hext

/-! ## The tiles of a picture -/

def lastBins (c m : ℕ) (ts : List SkippedTile) (iBinsCount : ℕ) : ℕ :=
  (ts.getLast?.map fun t => (skippedTileBins c m t).bins.length).getD iBinsCount

/-- The loops write the tiles one after the other; the bins are those of the last one. -/
theorem foldlM_round {fuel : ℕ} (hfuel : 8 < fuel) (ts : List SkippedTile) (s : SkipState) (htidy : s.BS.Tidy)
    (haligned : s.BS.iBitCount % 8 = 0) (hprev : s.iPrevBitsCount = s.BS.iBitCount) (hcount : s.iBitsCount = s.BS.iBitCount)
    (hmax : s.BS.iMaxBits < 2 ^ 31) (hroom : s.BS.iBitCount + (ts.flatMap (tileBits c m)).length ≤ s.BS.iMaxBits) :
    ∃ s', ts.foldlM (SkipState.round fuel c m) s = some s' ∧ s.BS.Extends (ts.flatMap (tileBits c m)) s'.BS ∧
      s'.iBitsCount = s'.BS.iBitCount ∧ s'.iBinsCount = lastBins c m ts s.iBinsCount ∧
      s'.uTileSizes = s.uTileSizes ++ ts.map fun t => (tileBits c m t).length / 8 := by
  induction ts generalizing s with
  | nil => exact ⟨s, rfl, BitStreamLite.Extends.nil htidy, hcount, rfl, (List.append_nil _).symm⟩
  | cons t ts ih =>
    rw [List.flatMap_cons, List.length_append] at hroom
    have hbytes := length_tileBits c m t
    obtain ⟨pBS', hgenerate, hext⟩ := generateSkippedTileCabac_eq (c := c) (m := m) (t := t) hfuel htidy haligned hmax (by omega)
    have hcount' := hext.count
    have hmax' := hext.max
    let s₁ : SkipState := ⟨pBS', pBS'.iBitCount, pBS'.iBitCount, (skippedTileBins c m t).bins.length,
      s.uTileSizes ++ [(pBS'.iBitCount - s.iPrevBitsCount) / 8]⟩
    have hround : s.round fuel c m t = some s₁ := by
      unfold SkipState.round
      rw [hgenerate]
      rfl
    obtain ⟨s', hloop, hall, hbits, hbins, hsizes⟩ := ih s₁ hext.tidy (by show pBS'.iBitCount % 8 = 0; omega) rfl rfl
      (by show pBS'.iMaxBits < 2 ^ 31; omega) (by show pBS'.iBitCount + _ ≤ pBS'.iMaxBits; omega)
    refine ⟨s', ?_, hext.append hall, hbits, ?_, ?_⟩
    · rw [List.foldlM_cons, hround]
      exact hloop
    · rw [hbins]
      unfold lastBins
      cases ts with
      | nil => rfl
      | cons t' ts => rw [List.getLast?_cons_cons]; rfl
    · have hlength : (pBS'.iBitCount - s.iPrevBitsCount) / 8 = (tileBits c m t).length / 8 := by
        rw [hcount', hprev, Nat.add_sub_cancel_left]
      rw [hsizes, List.map_cons, ← hlength, List.append_assoc]
      rfl

/-- The tiles that the loops of the generator go over. -/
def calls (pic : TiledPicture) : List SkippedTile :=
  skippedTiles pic.ctbLog2SizeY pic.picWidth pic.colWidth pic.picHeight pic.rowHeight

/-- The data of the tiles fits into the buffer. -/
def DataFits (pic : TiledPicture) (iBufSize : ℕ) : Prop :=
  iBufSize * 8 < 2 ^ 31 ∧ ((calls pic).flatMap (tileBits pic.ctbLog2SizeY pic.minCbLog2SizeY)).length ≤ iBufSize * 8

instance (pic : TiledPicture) (iBufSize : ℕ) : Decidable (DataFits pic iBufSize) := inferInstanceAs (Decidable (_ ∧ _))

/-- The picture is that of the syntax, and what is recorded is what was written. -/
structure SkippedPictureRight (fuel : ℕ) (pData : ℕ → UInt8) (iBufSize : ℕ) (pic : TiledPicture) : Prop where
  bins : (calls pic).map (fun t => (skippedTileBins pic.ctbLog2SizeY pic.minCbLog2SizeY t).syntaxBins) =
    pic.sliceSegmentData.map (·.bins)
  covered : ∀ t ∈ pic.tiles, ∀ lastTile px py, px < pic.picWidth → py < pic.picHeight →
    t.colBd * 2 ^ pic.ctbLog2SizeY ≤ px → px < (t.colBd + t.columns) * 2 ^ pic.ctbLog2SizeY →
    t.rowBd * 2 ^ pic.ctbLog2SizeY ≤ py → py < (t.rowBd + t.rows) * 2 ^ pic.ctbLog2SizeY →
      (pic.tileData lastTile t).codingUnits.countP (fun cu => decide (cu.Covers px py)) = 1
  recorded : ∃ skip, generateSkippedPicture fuel pData iBufSize pic.picWidth pic.picHeight pic.ctbLog2SizeY
      pic.minCbLog2SizeY pic.colWidth pic.rowHeight = some skip ∧
    skip.pData.bits = (calls pic).flatMap (tileBits pic.ctbLog2SizeY pic.minCbLog2SizeY) ∧
    skip.iNumBits = skip.pData.bits.length ∧
    skip.uTileSizes.map (· * 8) = (calls pic).map (fun t => (tileBits pic.ctbLog2SizeY pic.minCbLog2SizeY t).length) ∧
    skip.uTileSizes.sum * 8 = skip.iNumBits ∧
    skip.iNumBins = ((calls pic).map fun t => (skippedTileBins pic.ctbLog2SizeY pic.minCbLog2SizeY t).bins.length).sum

variable {pic : TiledPicture}

/-- What is recorded, for any tiles; only the bins are those of the last tile. -/
theorem generateSkippedPicture_eq {fuel iBufSize : ℕ} (pData : ℕ → UInt8) (hfuel : 8 < fuel) (hfits : DataFits pic iBufSize) :
    ∃ skip, generateSkippedPicture fuel pData iBufSize pic.picWidth pic.picHeight pic.ctbLog2SizeY
        pic.minCbLog2SizeY pic.colWidth pic.rowHeight = some skip ∧
      skip.pData.bits = (calls pic).flatMap (tileBits pic.ctbLog2SizeY pic.minCbLog2SizeY) ∧
      skip.iNumBits = skip.pData.bits.length ∧
      skip.uTileSizes.map (· * 8) = (calls pic).map (fun t => (tileBits pic.ctbLog2SizeY pic.minCbLog2SizeY t).length) ∧
      skip.uTileSizes.sum * 8 = skip.iNumBits ∧
      skip.iNumBins = lastBins pic.ctbLog2SizeY pic.minCbLog2SizeY (calls pic) 0 := by
  obtain ⟨s', hloop, hext, hbits, hbins, hsizes⟩ := foldlM_round hfuel (calls pic) ⟨.init pData iBufSize, 0, 0, 0, []⟩
    (init_tidy pData iBufSize) rfl rfl rfl hfits.1 (by
      show 0 + _ ≤ iBufSize * 8
      rw [Nat.zero_add]
      exact hfits.2)
  have hall : s'.BS.bits = (calls pic).flatMap (tileBits pic.ctbLog2SizeY pic.minCbLog2SizeY) := by
    rw [hext.bits_eq]
    rfl
  have hbytes : s'.uTileSizes.map (· * 8) =
      (calls pic).map fun t => (tileBits pic.ctbLog2SizeY pic.minCbLog2SizeY t).length := by
    rw [hsizes, List.nil_append, List.map_map]
    refine List.map_congr_left fun t _ => ?_
    have haligned := length_tileBits pic.ctbLog2SizeY pic.minCbLog2SizeY t
    show (tileBits pic.ctbLog2SizeY pic.minCbLog2SizeY t).length / 8 * 8 = _
    omega
  have hcount : s'.iBitsCount = s'.BS.bits.length := by
    rw [hbits]
    exact (length_window ..).symm
  refine ⟨⟨s'.BS, s'.iBitsCount, s'.iBinsCount, pic.colWidth.length * pic.rowHeight.length, s'.uTileSizes⟩, ?_, hall, hcount, hbytes, ?_, hbins⟩
  · unfold generateSkippedPicture
    have hcalls : skippedTiles pic.ctbLog2SizeY pic.picWidth pic.colWidth pic.picHeight pic.rowHeight = calls pic := rfl
    dsimp only
    rw [hcalls, hloop]
    rfl
  · have hsum : s'.uTileSizes.sum * 8 = (s'.uTileSizes.map (· * 8)).sum := by
      have hmul := List.sum_map_mul_right s'.uTileSizes id 8
      rw [List.map_id] at hmul
      exact hmul.symm
    show s'.uTileSizes.sum * 8 = s'.iBitsCount
    rw [hsum, hbytes, hcount, hall, List.length_flatMap]

/-! ## When the picture is right -/

theorem length_skippedRow (u h uh : ℕ) (last : Bool) (W : ℕ) (ws : List ℕ) : (skippedRow u h uh last W ws).length = ws.length := by
  induction ws generalizing W with
  | nil => rfl
  | cons w ws ih => exact congrArg Nat.succ (ih _)

theorem length_skippedTiles (u W : ℕ) (ws : List ℕ) (H : ℕ) (hs : List ℕ) :
    (skippedTiles u W ws H hs).length = hs.length * ws.length := by
  induction hs generalizing H with
  | nil => exact (Nat.zero_mul _).symm
  | cons h hs ih =>
    unfold skippedTiles
    rw [List.length_append, length_skippedRow, ih, List.length_cons, Nat.succ_mul, Nat.add_comm]

theorem uNumLCU_pos_row {u h uh : ℕ} {last : Bool} {W : ℕ} {ws : List ℕ} {t : SkippedTile} (huh : 0 < uh)
    (hws : ∀ w ∈ ws, 0 < w) (ht : t ∈ skippedRow u h uh last W ws) : 0 < t.uNumLCU := by
  induction ws generalizing W with
  | nil => cases ht
  | cons w ws ih =>
    rcases List.mem_cons.mp ht with rfl | ht
    · exact Nat.mul_pos (hws w List.mem_cons_self) huh
    · exact ih (fun w hw => hws w (List.mem_cons_of_mem _ hw)) ht

theorem uNumLCU_pos {u W : ℕ} {ws : List ℕ} {H : ℕ} {hs : List ℕ} {t : SkippedTile} (hws : ∀ w ∈ ws, 0 < w)
    (hhs : ∀ h ∈ hs, 0 < h) (ht : t ∈ skippedTiles u W ws H hs) : 0 < t.uNumLCU := by
  induction hs generalizing H with
  | nil => cases ht
  | cons h hs ih =>
    rcases List.mem_append.mp ht with ht | ht
    · exact uNumLCU_pos_row (hhs h List.mem_cons_self) hws ht
    · exact ih (fun h hh => hhs h (List.mem_cons_of_mem _ hh)) ht

theorem lastBins_lt {ts : List SkippedTile} (hts : ∀ t ∈ ts, 0 < t.uNumLCU) (hlong : 1 < ts.length) :
    lastBins c m ts 0 < (ts.map fun t => (skippedTileBins c m t).bins.length).sum := by
  obtain ⟨ts', t, rfl⟩ : ∃ ts' t, ts = ts' ++ [t] :=
    ⟨ts.dropLast, ts.getLast (List.ne_nil_of_length_pos (by omega)), (List.dropLast_append_getLast _).symm⟩
  have hlast : lastBins c m (ts' ++ [t]) 0 = (skippedTileBins c m t).bins.length := by
    unfold lastBins
    rw [List.getLast?_concat]
    rfl
  rw [hlast, List.map_append, List.sum_append, List.map_singleton, List.sum_singleton]
  cases ts' with
  | nil => exact absurd hlong (by simp)
  | cons t' ts' =>
    have hpos := List.length_pos_iff.mpr (bins_tile_ne_nil (c := c) (m := m) (hts t' (by simp)))
    rw [List.map_cons, List.sum_cons]
    omega

theorem whole_side {unit size border : ℕ} (hunit : 0 < unit) (hsize : unit ∣ size) (hpos : 0 < size) (hborder : 0 < border)
    (hdvd : unit ∣ border) :
    tileLength size border 0 ((border + size - 1) / size) = border ∧
      ((border % size / unit ≠ 0 → 1 < (border + size - 1) / size) ↔ size ≤ border) := by
  have hcount : border ≤ (border + size - 1) / size * size := by
    have hsplit := Nat.div_add_mod (border + size - 1) size
    have hlt := Nat.mod_lt (border + size - 1) hpos
    rw [Nat.mul_comm] at hsplit
    omega
  refine ⟨?_, fun himp => ?_, fun hle hcut => ?_⟩
  · unfold tileLength
    rw [Nat.zero_mul, Nat.sub_zero]
    exact min_eq_right hcount
  · by_contra! hless
    have hone : (border + size - 1) / size = 1 := Nat.div_eq_of_lt_le (by omega) (by omega)
    have hcut : border % size / unit ≠ 0 := by
      rw [Nat.mod_eq_of_lt hless]
      exact (Nat.div_pos (Nat.le_of_dvd hborder hdvd) hunit).ne'
    have hlt := himp hcut
    omega
  · have hne : border ≠ size := by
      rintro rfl
      rw [Nat.mod_self, Nat.zero_div] at hcut
      exact hcut rfl
    rw [Nat.lt_iff_add_one_le, Nat.le_div_iff_mul_le hpos]
    omega

theorem tileRight_whole {w h : ℕ} (hcolumns : pic.colWidth = [w]) (hrows : pic.rowHeight = [h]) :
    TileRight pic ⟨0, 0, w, h⟩ ↔ pic.minCbLog2SizeY < pic.ctbLog2SizeY ∧
      2 ^ pic.ctbLog2SizeY ≤ pic.picWidth ∧ 2 ^ pic.ctbLog2SizeY ≤ pic.picHeight := by
  have hw := pic.colWidth_sum
  have hh := pic.rowHeight_sum
  rw [hcolumns, List.sum_singleton] at hw
  rw [hrows, List.sum_singleton] at hh
  have hunit := Nat.two_pow_pos pic.minCbLog2SizeY
  have hsize : 2 ^ pic.minCbLog2SizeY ∣ 2 ^ pic.ctbLog2SizeY := Nat.pow_dvd_pow 2 pic.min_le_ctb
  obtain ⟨hwidth, hwIff⟩ := whole_side hunit hsize (Nat.two_pow_pos _) pic.width_pos pic.dvd_width
  obtain ⟨hheight, hhIff⟩ := whole_side hunit hsize (Nat.two_pow_pos _) pic.height_pos pic.dvd_height
  have hcutW : cutWidth pic ⟨0, 0, w, h⟩ = pic.picWidth % 2 ^ pic.ctbLog2SizeY / 2 ^ pic.minCbLog2SizeY := by
    unfold cutWidth
    dsimp only
    rw [hw, hwidth]
  have hcutH : cutHeight pic ⟨0, 0, w, h⟩ = pic.picHeight % 2 ^ pic.ctbLog2SizeY / 2 ^ pic.minCbLog2SizeY := by
    unfold cutHeight
    dsimp only
    rw [hh, hheight]
  have hlevels : 0 < pic.levels ↔ pic.minCbLog2SizeY < pic.ctbLog2SizeY := Nat.sub_pos_iff_lt
  rw [← hw] at hwIff
  rw [← hh] at hhIff
  constructor
  · intro hright
    have hcolumns' := hright.columns
    have hrows' := hright.rows
    rw [hcutW] at hcolumns'
    rw [hcutH] at hrows'
    exact ⟨hlevels.mp hright.levels, hwIff.mp hcolumns', hhIff.mp hrows'⟩
  · rintro ⟨hlt, hwide, hhigh⟩
    refine ⟨hlevels.mpr hlt, ?_, ?_⟩
    · rw [hcutW]
      exact hwIff.mpr hwide
    · rw [hcutH]
      exact hhIff.mpr hhigh

theorem calls_one {w h : ℕ} (hcolumns : pic.colWidth = [w]) (hrows : pic.rowHeight = [h]) :
    calls pic = [skippedTile pic true ⟨0, 0, w, h⟩] := by
  unfold calls skippedTile tileLength
  rw [hcolumns, hrows]
  unfold skippedTiles skippedTiles skippedRow skippedRow
  rw [Nat.shiftLeft_eq, Nat.shiftLeft_eq, Nat.zero_mul, Nat.sub_zero, Nat.sub_zero]
  rfl

theorem sliceSegmentData_one {w h : ℕ} (hcolumns : pic.colWidth = [w]) (hrows : pic.rowHeight = [h]) :
    pic.tiles = [⟨0, 0, w, h⟩] ∧ pic.sliceSegmentData = [pic.tileData true ⟨0, 0, w, h⟩] := by
  have htiles : pic.tiles = [⟨0, 0, w, h⟩] := by
    unfold tiles
    rw [hcolumns, hrows]
    rfl
  refine ⟨htiles, ?_⟩
  unfold sliceSegmentData
  rw [htiles]
  rfl

theorem bins_one_iff {w h : ℕ} (hcolumns : pic.colWidth = [w]) (hrows : pic.rowHeight = [h]) :
    (calls pic).map (fun t => (skippedTileBins pic.ctbLog2SizeY pic.minCbLog2SizeY t).syntaxBins) =
      pic.sliceSegmentData.map (·.bins) ↔ pic.minCbLog2SizeY < pic.ctbLog2SizeY ∧
        2 ^ pic.ctbLog2SizeY ≤ pic.picWidth ∧ 2 ^ pic.ctbLog2SizeY ≤ pic.picHeight := by
  obtain ⟨htiles, hdata⟩ := sliceSegmentData_one hcolumns hrows
  have hinside : TileInside pic ⟨0, 0, w, h⟩ := tileInside (by rw [htiles]; exact List.mem_singleton_self _)
  rw [calls_one hcolumns hrows, hdata, List.map_singleton, List.map_singleton, List.singleton_inj,
    syntaxBins_tile_iff hinside, tileRight_whole hcolumns hrows]

theorem calls_of_right {fuel iBufSize : ℕ} {pData : ℕ → UInt8} (hfuel : 8 < fuel) (hfits : DataFits pic iBufSize)
    (hright : SkippedPictureRight fuel pData iBufSize pic) : (calls pic).length ≤ 1 := by
  obtain ⟨skip, hrun, -, -, -, -, hlast⟩ := generateSkippedPicture_eq pData hfuel hfits
  obtain ⟨skip', hrun', -, -, -, -, htotal⟩ := hright.recorded
  obtain rfl : skip = skip' := Option.some.inj (hrun.symm.trans hrun')
  rw [hlast] at htotal
  have hpos : ∀ t ∈ calls pic, 0 < t.uNumLCU := fun t ht => uNumLCU_pos pic.colWidth_pos pic.rowHeight_pos ht
  by_contra! hlong
  exact (lastBins_lt hpos hlong).ne htotal

theorem length_pos_of_sum {sizes : List ℕ} {border size : ℕ} (hsize : 0 < size) (hborder : 0 < border)
    (hsum : sizes.sum = (border + size - 1) / size) : 0 < sizes.length := by
  cases sizes with
  | nil =>
    have hpos : 0 < (border + size - 1) / size := Nat.div_pos (by omega) hsize
    rw [← hsum] at hpos
    exact absurd hpos (lt_irrefl 0)
  | cons x xs => exact Nat.succ_pos _

/-- The picture is right exactly if it is one tile, its coding tree blocks can be split, and
it has a whole one. -/
theorem skippedPictureRight_iff {fuel iBufSize : ℕ} {pData : ℕ → UInt8} (hfuel : 8 < fuel) (hfits : DataFits pic iBufSize) :
    SkippedPictureRight fuel pData iBufSize pic ↔
      (pic.colWidth.length = 1 ∧ pic.rowHeight.length = 1) ∧ pic.minCbLog2SizeY < pic.ctbLog2SizeY ∧
        2 ^ pic.ctbLog2SizeY ≤ pic.picWidth ∧ 2 ^ pic.ctbLog2SizeY ≤ pic.picHeight := by
  constructor
  · intro hright
    have hfew := calls_of_right hfuel hfits hright
    have hcolumns := length_pos_of_sum (Nat.two_pow_pos _) pic.width_pos pic.colWidth_sum
    have hrows := length_pos_of_sum (Nat.two_pow_pos _) pic.height_pos pic.rowHeight_sum
    have hlength : (calls pic).length = pic.rowHeight.length * pic.colWidth.length := length_skippedTiles ..
    rw [hlength] at hfew
    have hmul := Nat.mul_pos hrows hcolumns
    have hone : pic.rowHeight.length * pic.colWidth.length = 1 := le_antisymm hfew hmul
    have hrow := Nat.eq_one_of_mul_eq_one_right hone
    have hcolumn := Nat.eq_one_of_mul_eq_one_left hone
    obtain ⟨w, hw⟩ := List.length_eq_one_iff.mp hcolumn
    obtain ⟨h, hh⟩ := List.length_eq_one_iff.mp hrow
    exact ⟨⟨hcolumn, hrow⟩, (bins_one_iff hw hh).mp hright.bins⟩
  · rintro ⟨⟨hcolumns, hrows⟩, hblocks⟩
    obtain ⟨w, hw⟩ := List.length_eq_one_iff.mp hcolumns
    obtain ⟨h, hh⟩ := List.length_eq_one_iff.mp hrows
    obtain ⟨skip, hrun, hbits, hnum, hbytes, hsum, hlast⟩ := generateSkippedPicture_eq pData hfuel hfits
    refine ⟨(bins_one_iff hw hh).mpr hblocks, fun t ht lastTile px py hpx hpy hx hx' hy hy' => ?_, ?_⟩
    · exact countP_codingUnits (tileInside ht) lastTile hpx hpy hx hx' hy hy'
    · refine ⟨skip, hrun, hbits, hnum, hbytes, hsum, ?_⟩
      rw [hlast, calls_one hw hh]
      rfl

/-- A picture of the given size with coding tree blocks of 16 samples and coding blocks of 8. -/
def smallPicture : TiledPicture where
  picWidth := 24
  picHeight := 16
  ctbLog2SizeY := 4
  minCbLog2SizeY := 3
  colWidth := [2]
  rowHeight := [1]
  min_le_ctb := by decide
  width_pos := by decide
  height_pos := by decide
  dvd_width := by decide
  dvd_height := by decide
  colWidth_pos := by decide
  rowHeight_pos := by decide
  colWidth_sum := by decide
  rowHeight_sum := by decide

/-- The same picture with a tile for each column. -/
def smallTiles : TiledPicture where
  picWidth := 24
  picHeight := 16
  ctbLog2SizeY := 4
  minCbLog2SizeY := 3
  colWidth := [1, 1]
  rowHeight := [1]
  min_le_ctb := by decide
  width_pos := by decide
  height_pos := by decide
  dvd_width := by decide
  dvd_height := by decide
  colWidth_pos := by decide
  rowHeight_pos := by decide
  colWidth_sum := by decide
  rowHeight_sum := by decide

theorem skippedPictureRight_small : SkippedPictureRight 9 (fun _ => 0) 16 smallPicture :=
  (skippedPictureRight_iff (by decide) (by decide +kernel)).mpr (by decide)

/-- With two tiles the bins of the last one are recorded only. -/
theorem not_skippedPictureRight : ¬ ∀ (fuel iBufSize : ℕ) (pData : ℕ → UInt8) (pic : TiledPicture), 8 < fuel →
    DataFits pic iBufSize → SkippedPictureRight fuel pData iBufSize pic := by
  intro h
  have hfits : DataFits smallTiles 16 := by decide +kernel
  have hfew := calls_of_right (by decide) hfits (h 9 16 (fun _ => 0) smallTiles (by decide) hfits)
  exact absurd hfew (by decide)

end VcuCodec
