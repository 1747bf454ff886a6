import VcuCodec.HevcPps
import Mathlib.Algebra.BigOperators.Group.Finset.Basic
import Mathlib.Algebra.Order.BigOperators.Group.Finset

/-!
# The tiles of an HEVC picture

The columns and rows of a picture parameter set that has been accepted cut the
picture into tiles.  The sums in front of a tile are taken in a `uint8_t`: the table
of first blocks is right if and only if the last tile begins below 256 in both
directions, and explicit sizes have to be positive as `uint16_t`.
-/

namespace VcuCodec

open CheckedRuns Checked Parse Finset

/-! ## Narrow sums -/

theorem sizesBefore_eq (sizes : ℕ → ℕ) (i : ℕ) :
    HevcPps.sizesBefore sizes i = (∑ k ∈ range i, sizes k) % 2 ^ 8 := by
  induction i with
  | zero => rfl
  | succ i ih => rw [HevcPps.sizesBefore, ih, Finset.sum_range_succ, Nat.mod_add_mod]

/-- Addresses from narrow sums are right up to the last row and column if and only if
the last sums have not wrapped. -/
theorem narrow_addresses_iff (rows columns : ℕ → ℕ) {width : ℕ} (hwidth : 0 < width) (m n : ℕ) :
    (∀ i ≤ m, ∀ j ≤ n, (∑ k ∈ range i, rows k) % 2 ^ 8 * width + (∑ k ∈ range j, columns k) % 2 ^ 8 =
        (∑ k ∈ range i, rows k) * width + ∑ k ∈ range j, columns k) ↔
      ∑ k ∈ range m, rows k < 2 ^ 8 ∧ ∑ k ∈ range n, columns k < 2 ^ 8 := by
  constructor
  · intro h
    have hrow := h m le_rfl 0 (Nat.zero_le n)
    have hcolumn := h 0 (Nat.zero_le m) n le_rfl
    simp only [Finset.range_zero, Finset.sum_empty, Nat.zero_mod, Nat.zero_mul, Nat.zero_add,
      Nat.add_zero] at hrow hcolumn
    have hrow := Nat.eq_of_mul_eq_mul_right hwidth hrow
    have hrows := Nat.mod_lt (∑ k ∈ range m, rows k) (Nat.two_pow_pos 8)
    have hcolumns := Nat.mod_lt (∑ k ∈ range n, columns k) (Nat.two_pow_pos 8)
    exact ⟨by omega, by omega⟩
  · rintro ⟨hrows, hcolumns⟩ i hi j hj
    have hri : ∑ k ∈ range i, rows k ≤ ∑ k ∈ range m, rows k :=
      Finset.sum_le_sum_of_subset (Finset.range_mono hi)
    have hcj : ∑ k ∈ range j, columns k ≤ ∑ k ∈ range n, columns k :=
      Finset.sum_le_sum_of_subset (Finset.range_mono hj)
    rw [Nat.mod_eq_of_lt (hri.trans_lt hrows), Nat.mod_eq_of_lt (hcj.trans_lt hcolumns)]

/-! ## Tables that are filled row by row -/

section Fill

variable {α : Type} (t : ℕ → α)

theorem fillRow_apply (base : ℕ) (v : ℕ → α) (columns x : ℕ) :
    (List.range columns).foldl (fun t j => Function.update t (base + j) (v j)) t x =
      if base ≤ x ∧ x < base + columns then v (x - base) else t x := by
  induction columns with
  | zero => rw [if_neg (by omega), List.range_zero, List.foldl_nil]
  | succ columns ih =>
    rw [List.range_succ, List.foldl_append, List.foldl_cons, List.foldl_nil]
    by_cases hx : x = base + columns
    · rw [hx, Function.update_self, if_pos (by omega), Nat.add_sub_cancel_left]
    · rw [Function.update_of_ne hx, ih]
      apply if_congr _ rfl rfl
      omega

theorem fillRows_apply (v : ℕ → ℕ → α) {columns rows i j : ℕ} (hj : j < columns) (hi : i < rows) :
    (List.range rows).foldl (fun t i => (List.range columns).foldl
      (fun t j => Function.update t (i * columns + j) (v i j)) t) t (i * columns + j) = v i j := by
  induction rows with
  | zero => omega
  | succ rows ih =>
    rw [List.range_succ, List.foldl_append, List.foldl_cons, List.foldl_nil, fillRow_apply]
    rcases Nat.lt_succ_iff_lt_or_eq.mp hi with hlt | rfl
    · -- a later row does not reach back
      have hrow : i * columns + columns ≤ rows * columns := by
        rw [← Nat.succ_mul]
        exact Nat.mul_le_mul_right columns hlt
      rw [if_neg (by omega), ih hlt]
    · rw [if_pos (by omega), Nat.add_sub_cancel_left]

end Fill

/-! ## The partition -/

/-- What a picture of `width` by `height` blocks is cut into. -/
structure HevcPps.TilePartition (pps : HevcPps) (width height : ℕ) : Prop where
  column_pos : ∀ i ≤ pps.numTileColumnsMinus1, 0 < pps.columnWidth i
  row_pos : ∀ i ≤ pps.numTileRowsMinus1, 0 < pps.rowHeight i
  columns : ∑ i ∈ range (pps.numTileColumnsMinus1 + 1), pps.columnWidth i = width
  rows : ∑ i ∈ range (pps.numTileRowsMinus1 + 1), pps.rowHeight i = height
  topology : ∀ i ≤ pps.numTileRowsMinus1, ∀ j ≤ pps.numTileColumnsMinus1,
    pps.tileTopology (i * (pps.numTileColumnsMinus1 + 1) + j) =
      (∑ k ∈ range i, pps.rowHeight k) * width + ∑ k ∈ range j, pps.columnWidth k

/-- Code `i` of the Exp-Golomb codes in front of the parser. -/
def RbspParser.behindCodes (p : RbspParser) (i : ℕ) : RbspParser := (fun q : RbspParser => q.ue.2)^[i] p

def RbspParser.code (p : RbspParser) (i : ℕ) : ℕ := (p.behindCodes i).ue.1

/-- The syntax elements of the tiles. -/
structure TileSyntax where
  numTileColumnsMinus1 : ℕ
  numTileRowsMinus1 : ℕ
  uniformSpacingFlag : ℕ
  columnWidthMinus1 : ℕ → ℕ
  rowHeightMinus1 : ℕ → ℕ

/-- The elements in front of the parser. -/
def RbspParser.tileSyntax (p : RbspParser) : TileSyntax :=
  let sizes := (p.ue.2.ue.2.u 1).2
  { numTileColumnsMinus1 := p.ue.1 % 2 ^ 16
    numTileRowsMinus1 := p.ue.2.ue.1 % 2 ^ 16
    uniformSpacingFlag := (p.ue.2.ue.2.u 1).1
    columnWidthMinus1 := sizes.code
    rowHeightMinus1 := (sizes.behindCodes (p.ue.1 % 2 ^ 16)).code }

/-- Explicit sizes, as `uint16_t`. -/
def explicitSize (sizes : ℕ → ℕ) (i : ℕ) : ℕ := (sizes i + 1) % 2 ^ 16

/-- The last tile begins below 256 in both directions, and every explicit size is one. -/
def TileSyntax.Fits (t : TileSyntax) (width height : ℕ) : Prop :=
  if t.uniformSpacingFlag = 0 then
    (∀ i < t.numTileColumnsMinus1, explicitSize t.columnWidthMinus1 i ≠ 0) ∧
      (∀ i < t.numTileRowsMinus1, explicitSize t.rowHeightMinus1 i ≠ 0) ∧
      ∑ i ∈ range t.numTileRowsMinus1, explicitSize t.rowHeightMinus1 i < 2 ^ 8 ∧
      ∑ i ∈ range t.numTileColumnsMinus1, explicitSize t.columnWidthMinus1 i < 2 ^ 8
  else
    t.numTileRowsMinus1 * height / (t.numTileRowsMinus1 + 1) < 2 ^ 8 ∧
      t.numTileColumnsMinus1 * width / (t.numTileColumnsMinus1 + 1) < 2 ^ 8

namespace HevcPps

theorem topology_registerTopology (pps : HevcPps) (width : ℕ) {i j : ℕ}
    (hi : i ≤ pps.numTileRowsMinus1) (hj : j ≤ pps.numTileColumnsMinus1) :
    (pps.registerTopology width).tileTopology (i * (pps.numTileColumnsMinus1 + 1) + j) =
      (∑ k ∈ range i, pps.rowHeight k) % 2 ^ 8 * width +
        (∑ k ∈ range j, pps.columnWidth k) % 2 ^ 8 := by
  rw [← sizesBefore_eq, ← sizesBefore_eq]
  exact fillRows_apply pps.tileTopology
    (fun i j => sizesBefore pps.rowHeight i * width + sizesBefore pps.columnWidth j)
    (Nat.lt_succ_of_le hj) (Nat.lt_succ_of_le hi)

variable {width height : ℕ}

theorem TilePartition.narrow {pps : HevcPps} (hwidth : 0 < width)
    (h : (pps.registerTopology width).TilePartition width height) :
    ∑ k ∈ range pps.numTileRowsMinus1, pps.rowHeight k < 2 ^ 8 ∧
      ∑ k ∈ range pps.numTileColumnsMinus1, pps.columnWidth k < 2 ^ 8 := by
  apply (narrow_addresses_iff _ _ hwidth _ _).mp
  intro i hi j hj
  rw [← pps.topology_registerTopology width hi hj]
  exact h.topology i hi j hj

/-- The registered tiles are a partition if the sizes are one and the sums fit. -/
theorem tilePartition_of_narrow (pps : HevcPps) (hwidth : 0 < width)
    (hcolumns : (∀ i ≤ pps.numTileColumnsMinus1, 0 < pps.columnWidth i) ∧
      ∑ i ∈ range (pps.numTileColumnsMinus1 + 1), pps.columnWidth i = width)
    (hrows : (∀ i ≤ pps.numTileRowsMinus1, 0 < pps.rowHeight i) ∧
      ∑ i ∈ range (pps.numTileRowsMinus1 + 1), pps.rowHeight i = height)
    (hnarrow : ∑ k ∈ range pps.numTileRowsMinus1, pps.rowHeight k < 2 ^ 8 ∧
      ∑ k ∈ range pps.numTileColumnsMinus1, pps.columnWidth k < 2 ^ 8) :
    (pps.registerTopology width).TilePartition width height where
  column_pos := hcolumns.1
  row_pos := hrows.1
  columns := hcolumns.2
  rows := hrows.2
  topology i hi j hj := (pps.topology_registerTopology width hi hj).trans
    ((narrow_addresses_iff _ _ hwidth _ _).mpr hnarrow i hi j hj)

/-! ## Uniform spacing -/

theorem uniformSize_eq {size num i : ℕ} (hsize : size < 2 ^ 16) (hnum : 0 < num) (hle : num ≤ size) :
    0 < uniformSize size num i ∧
      i * size / num + uniformSize size num i = (i + 1) * size / num := by
  have hlow : i * size / num + 1 ≤ (i + 1) * size / num := by
    rw [← Nat.add_div_right _ hnum]
    apply Nat.div_le_div_right
    rw [Nat.succ_mul]
    exact Nat.add_le_add_left hle _
  have hhigh : (i + 1) * size / num ≤ i * size / num + size := by
    calc (i + 1) * size / num ≤ (i * size + size * num) / num := by
          apply Nat.div_le_div_right
          rw [Nat.succ_mul]
          exact Nat.add_le_add_left (Nat.le_mul_of_pos_right size hnum) _
      _ = i * size / num + size := Nat.add_mul_div_right _ _ hnum
  unfold uniformSize
  rw [Nat.mod_eq_of_lt (by omega)]
  omega

theorem sum_uniformSizes {size num : ℕ} (hsize : size < 2 ^ 16) (hnum : 0 < num) (hle : num ≤ size)
    (sizes : ℕ → ℕ) {i : ℕ} (hi : i ≤ num) :
    ∑ k ∈ range i, uniformSizes size num sizes k = i * size / num := by
  induction i with
  | zero => simp
  | succ i ih =>
    rw [Finset.sum_range_succ, ih (by omega), uniformSizes, if_pos (by omega)]
    exact (uniformSize_eq hsize hnum hle).2

theorem uniformSizes_spec {size num : ℕ} (hsize : size < 2 ^ 16) (hle : num + 1 ≤ size)
    (sizes : ℕ → ℕ) :
    (∀ i ≤ num, 0 < uniformSizes size (num + 1) sizes i) ∧
      ∑ i ∈ range (num + 1), uniformSizes size (num + 1) sizes i = size := by
  constructor
  · intro i hi
    rw [uniformSizes, if_pos (by omega)]
    exact (uniformSize_eq hsize (Nat.succ_pos num) hle).1
  · rw [sum_uniformSizes hsize (Nat.succ_pos num) hle sizes le_rfl]
    exact Nat.mul_div_cancel_left size (Nat.succ_pos num)

/-! ## Explicit spacing -/

theorem readSizes_ends (num : ℕ) (sizes : ℕ → ℕ) (p : RbspParser) :
    Ends (readSizes num sizes) p fun r q =>
      (∀ i < num, r.1 i = explicitSize p.code i) ∧
        r.2 = (∑ i ∈ range num, explicitSize p.code i) % 2 ^ 16 ∧ q = p.behindCodes num := by
  unfold readSizes
  apply forBelow_ends fun i (r : (ℕ → ℕ) × ℕ) q =>
    (∀ k < i, r.1 k = explicitSize p.code k) ∧
      r.2 = (∑ k ∈ range i, explicitSize p.code k) % 2 ^ 16 ∧ q = p.behindCodes i
  · rintro i ⟨sizes, sum⟩ q - ⟨hsizes, hsum, rfl⟩
    simp only [ends_bind, ends_pure, Parse.ue, ends_step] at hsizes hsum ⊢
    refine ⟨fun k hk => ?_, ?_, ?_⟩
    · rcases Nat.lt_succ_iff_lt_or_eq.mp hk with hlt | rfl
      · rw [Function.update_of_ne hlt.ne]
        exact hsizes k hlt
      · exact Function.update_self _ _ _
    · rw [hsum, Nat.mod_add_mod, Finset.sum_range_succ]
      rfl
    · exact (Function.iterate_succ_apply' (fun q : RbspParser => q.ue.2) i p).symm
  · exact ⟨fun k hk => absurd hk (Nat.not_lt_zero k), rfl, rfl⟩

/-- The sizes of explicit spacing with the rest for the last one: they are positive
and add up if and only if no size is zero and the sum in front of the last has not
wrapped. -/
theorem explicit_spec {total sum num : ℕ} {sizes read : ℕ → ℕ}
    (hread : ∀ i < num, read i = explicitSize sizes i)
    (hsum : sum = (∑ i ∈ range num, explicitSize sizes i) % 2 ^ 16) (hlt : sum < total)
    (hfits : ∑ i ∈ range num, explicitSize sizes i < 2 ^ 8)
    (hpos : ∀ i < num, explicitSize sizes i ≠ 0) :
    (∀ i ≤ num, 0 < Function.update read num (total - sum) i) ∧
      ∑ i ∈ range (num + 1), Function.update read num (total - sum) i = total := by
  have hbefore : ∑ i ∈ range num, Function.update read num (total - sum) i =
      ∑ i ∈ range num, explicitSize sizes i := by
    apply Finset.sum_congr rfl
    intro i hi
    rw [Function.update_of_ne (Finset.mem_range.mp hi).ne]
    exact hread i (Finset.mem_range.mp hi)
  rw [Nat.mod_eq_of_lt (hfits.trans (by decide))] at hsum
  constructor
  · intro i hi
    rcases Nat.lt_or_eq_of_le hi with hi | rfl
    · rw [Function.update_of_ne hi.ne, hread i hi]
      exact Nat.pos_of_ne_zero (hpos i hi)
    · rw [Function.update_self]
      omega
  · rw [Finset.sum_range_succ, hbefore, Function.update_self]
    omega

/-! ## The tiles of a set -/

variable {columns rows : ℕ → ℕ}

theorem tilePartition_uniform (pps : HevcPps) (sps : HevcSps)
    (hcolumns : pps.numTileColumnsMinus1 < sps.picWidthInCtbs)
    (hrows : pps.numTileRowsMinus1 < sps.picHeightInCtbs)
    (hcolumn : pps.columnWidth = uniformSizes sps.picWidthInCtbs (pps.numTileColumnsMinus1 + 1) columns)
    (hrow : pps.rowHeight = uniformSizes sps.picHeightInCtbs (pps.numTileRowsMinus1 + 1) rows) :
    (pps.registerTopology sps.picWidthInCtbs).TilePartition sps.picWidthInCtbs sps.picHeightInCtbs ↔
      pps.numTileRowsMinus1 * sps.picHeightInCtbs / (pps.numTileRowsMinus1 + 1) < 2 ^ 8 ∧
        pps.numTileColumnsMinus1 * sps.picWidthInCtbs / (pps.numTileColumnsMinus1 + 1) < 2 ^ 8 := by
  have hwidth : 0 < sps.picWidthInCtbs := Nat.zero_lt_of_lt hcolumns
  rw [← sum_uniformSizes sps.height_lt (Nat.succ_pos _) hrows rows (Nat.le_succ _),
    ← sum_uniformSizes sps.width_lt (Nat.succ_pos _) hcolumns columns (Nat.le_succ _), ← hcolumn,
    ← hrow]
  constructor
  · exact TilePartition.narrow hwidth
  · apply tilePartition_of_narrow pps hwidth
    · rw [hcolumn]
      exact uniformSizes_spec sps.width_lt hcolumns columns
    · rw [hrow]
      exact uniformSizes_spec sps.height_lt hrows rows

theorem tilePartition_explicit (pps : HevcPps) (sps : HevcSps) {columnWidth rowHeight : ℕ → ℕ}
    (hcolumn : ∀ i < pps.numTileColumnsMinus1, columnWidth i = explicitSize columns i)
    (hwidth : width = (∑ i ∈ range pps.numTileColumnsMinus1, explicitSize columns i) % 2 ^ 16)
    (hrow : ∀ i < pps.numTileRowsMinus1, rowHeight i = explicitSize rows i)
    (hheight : height = (∑ i ∈ range pps.numTileRowsMinus1, explicitSize rows i) % 2 ^ 16)
    (hlt : width < sps.picWidthInCtbs) (hlt' : height < sps.picHeightInCtbs)
    (hcolumns : pps.columnWidth =
      Function.update columnWidth pps.numTileColumnsMinus1 (sps.picWidthInCtbs - width))
    (hrows : pps.rowHeight =
      Function.update rowHeight pps.numTileRowsMinus1 (sps.picHeightInCtbs - height)) :
    (pps.registerTopology sps.picWidthInCtbs).TilePartition sps.picWidthInCtbs sps.picHeightInCtbs ↔
      (∀ i < pps.numTileColumnsMinus1, explicitSize columns i ≠ 0) ∧
        (∀ i < pps.numTileRowsMinus1, explicitSize rows i ≠ 0) ∧
        ∑ i ∈ range pps.numTileRowsMinus1, explicitSize rows i < 2 ^ 8 ∧
        ∑ i ∈ range pps.numTileColumnsMinus1, explicitSize columns i < 2 ^ 8 := by
  have hpos : 0 < sps.picWidthInCtbs := Nat.zero_lt_of_lt hlt
  have hcolumn' (i : ℕ) (hi : i < pps.numTileColumnsMinus1) :
      pps.columnWidth i = explicitSize columns i := by
    rw [hcolumns, Function.update_of_ne hi.ne]
    exact hcolumn i hi
  have hrow' (i : ℕ) (hi : i < pps.numTileRowsMinus1) : pps.rowHeight i = explicitSize rows i := by
    rw [hrows, Function.update_of_ne hi.ne]
    exact hrow i hi
  have hcolumnSum := Finset.sum_congr rfl fun i hi => hcolumn' i (Finset.mem_range.mp hi)
  have hrowSum := Finset.sum_congr rfl fun i hi => hrow' i (Finset.mem_range.mp hi)
  rw [← hrowSum, ← hcolumnSum]
  constructor
  · intro h
    refine ⟨fun i hi => ?_, fun i hi => ?_, h.narrow hpos⟩
    · rw [← hcolumn' i hi]
      exact (h.column_pos i hi.le).ne'
    · rw [← hrow' i hi]
      exact (h.row_pos i hi.le).ne'
  · rintro ⟨hcolumnPos, hrowPos, hrowFits, hcolumnFits⟩
    apply tilePartition_of_narrow pps hpos _ _ ⟨hrowFits, hcolumnFits⟩
    · rw [hcolumns]
      exact explicit_spec hcolumn hwidth hlt (hcolumnSum ▸ hcolumnFits) hcolumnPos
    · rw [hrows]
      exact explicit_spec hrow hheight hlt' (hrowSum ▸ hrowFits) hrowPos

theorem readTiles_ends (pps : HevcPps) (sps : HevcSps) (p : RbspParser) :
    Ends (pps.readTiles sps) p fun r _ => ∀ pps', r = .inr pps' →
      (pps'.TilePartition sps.picWidthInCtbs sps.picHeightInCtbs ↔
        p.tileSyntax.Fits sps.picWidthInCtbs sps.picHeightInCtbs) := by
  unfold readTiles
  simp only [ends_bind, ends_ite, ends_pure, Parse.ue, Parse.u, ends_step]
  refine ⟨fun _ _ h => (by cases h), fun hbounds => ⟨fun hspacing => ?_, fun hspacing => ?_⟩⟩
  · refine (readSizes_ends _ _ _).imp fun columns q hcolumns => ?_
    refine (readSizes_ends _ _ q).imp fun rows q' hrows => ?_
    obtain ⟨hcolumn, hwidth, rfl⟩ := hcolumns
    obtain ⟨hrow, hheight, -⟩ := hrows
    refine ⟨fun _ _ h => (by cases h), fun hoffsets pps' h => ?_⟩
    obtain rfl := Sum.inr.inj h
    rw [TileSyntax.Fits, if_pos (show p.tileSyntax.uniformSpacingFlag = 0 from hspacing)]
    apply tilePartition_explicit _ sps hcolumn hwidth hrow hheight _ _ rfl rfl
    · omega
    · omega
  · intro pps' h
    obtain rfl := Sum.inr.inj h
    rw [TileSyntax.Fits, if_neg (show p.tileSyntax.uniformSpacingFlag ≠ 0 from hspacing)]
    apply tilePartition_uniform _ sps _ _ rfl rfl
    · dsimp only
      omega
    · dsimp only
      omega

/-! ## What is kept -/

/-- What the tiles are read behind. -/
def head (pps : HevcPps) : Bool × Option ℕ × ℕ := (pps.bConceal, pps.pSPS, pps.tilesEnabledFlag)

/-- What the tiles are read into. -/
def tiles (pps : HevcPps) : ℕ × ℕ × (ℕ → ℕ) × (ℕ → ℕ) × (ℕ → ℕ) :=
  (pps.numTileColumnsMinus1, pps.numTileRowsMinus1, pps.columnWidth, pps.rowHeight, pps.tileTopology)

variable {pps pps' : HevcPps}

theorem TilePartition.of_tiles (heq : pps'.tiles = pps.tiles)
    (h : pps.TilePartition width height) : pps'.TilePartition width height := by
  simp only [tiles, Prod.mk.injEq] at heq
  obtain ⟨hcolumns, hrows, hwidth, hheight, htopology⟩ := heq
  constructor
  · rw [hcolumns, hwidth]
    exact h.column_pos
  · rw [hrows, hheight]
    exact h.row_pos
  · rw [hcolumns, hwidth]
    exact h.columns
  · rw [hrows, hheight]
    exact h.rows
  · rw [hcolumns, hrows, hwidth, hheight, htopology]
    exact h.topology

theorem tilePartition_congr (heq : pps'.tiles = pps.tiles) :
    pps'.TilePartition width height ↔ pps.TilePartition width height :=
  ⟨.of_tiles heq.symm, .of_tiles heq⟩

/-- A part keeps the tiles and what they are read behind. -/
def Keeps (pps : HevcPps) (m : Parse HevcPps) : Prop :=
  Results m fun pps' => pps'.head = pps.head ∧ pps'.tiles = pps.tiles

theorem Keeps.trans {pps : HevcPps} {m : Parse HevcPps} {f : HevcPps → Parse HevcPps}
    (hm : pps.Keeps m) (hf : ∀ pps' : HevcPps, pps'.Keeps (f pps')) : pps.Keeps (m >>= f) :=
  hm.bind fun pps' h r pps'' t hrun =>
    have h' := hf pps' r pps'' t hrun
    ⟨h'.1.trans h.1, h'.2.trans h.2⟩

theorem keeps_readDeblocking (pps : HevcPps) : pps.Keeps pps.readDeblocking := by
  unfold readDeblocking
  apply Results.behind
  intro lf
  apply Results.behind
  intro control
  apply Results.ite
  · exact fun _ => .pure ⟨rfl, rfl⟩
  · intro _
    apply Results.behind
    intro override
    apply Results.behind
    intro disabled
    apply Results.ite
    · exact fun _ => .pure ⟨rfl, rfl⟩
    · exact fun _ => .behind fun _ => .behind fun _ => .pure ⟨rfl, rfl⟩

theorem keeps_readScaling (pps : HevcPps) (sps : HevcSps) : pps.Keeps (pps.readScaling sps) := by
  unfold readScaling
  apply Results.behind
  intro present
  apply Results.behind
  intro lists
  apply Results.behind
  intro modification
  apply Results.behind
  intro level
  apply Results.behind
  intro header
  apply Results.behind
  intro ext
  apply Results.ite
  · exact fun _ => .pure ⟨rfl, rfl⟩
  · exact fun _ => .behind fun _ => .behind fun _ => .pure ⟨rfl, rfl⟩

theorem keeps_readQpOffsetLists (pps : HevcPps) : pps.Keeps pps.readQpOffsetLists := by
  unfold readQpOffsetLists
  apply Results.behind
  intro depth
  apply Results.behind
  intro len
  apply Results.forBelow
  · intro i pps' h
    unfold readQpOffset
    exact .behind fun _ => .behind fun _ => .behind fun _ => .pure h
  · exact ⟨rfl, rfl⟩

theorem keeps_readRangeExtension (pps : HevcPps) : pps.Keeps pps.readRangeExtension := by
  unfold readRangeExtension
  apply Results.behind
  intro size
  apply Results.behind
  intro prediction
  apply Results.behind
  intro enabled
  have hlists (pps' : HevcPps) (hhead : pps'.head = pps.head) (htiles : pps'.tiles = pps.tiles) :
      pps.Keeps (readIf (enabled ≠ 0) pps'.readQpOffsetLists pps') :=
    Results.readIf (fun _ r a t hrun => have h := keeps_readQpOffsetLists pps' r a t hrun
      ⟨h.1.trans hhead, h.2.trans htiles⟩) fun _ => ⟨hhead, htiles⟩
  refine Keeps.trans (hlists _ rfl rfl) fun pps' => ?_
  exact .behind fun _ => .behind fun _ => .pure ⟨rfl, rfl⟩

theorem results_readRest (fuel : ℕ) (pps : HevcPps) (sps : HevcSps) :
    Results (pps.readRest fuel sps) fun pps' => pps'.head.2 = pps.head.2 ∧ pps'.tiles = pps.tiles := by
  unfold readRest
  refine Results.bind (keeps_readDeblocking pps) fun pps1 h1 => ?_
  refine Results.bind (keeps_readScaling pps1 sps) fun pps2 h2 => ?_
  have hrange : pps2.Keeps (readIf (pps2.ppsRangeExtensionFlag ≠ 0) pps2.readRangeExtension pps2) :=
    Results.readIf (fun _ => keeps_readRangeExtension pps2) fun _ => ⟨rfl, rfl⟩
  refine Results.bind hrange fun pps3 h3 => ?_
  refine Results.behind fun _ => Results.behind fun trailing => Results.pure ?_
  have hhead : pps3.head.2 = pps.head.2 := congrArg Prod.snd (h3.1.trans (h2.1.trans h1.1))
  exact ⟨hhead, h3.2.trans (h2.2.trans h1.2)⟩

theorem results_readAt {α : Type} {n : ℕ} (v : Vector α n) (i : ℕ) :
    Results (readAt v i : Parse α) fun a => v[i]? = some a := by
  apply Results.of_ends
  intro p hret
  obtain ⟨h, -⟩ := ends_readAt.mp hret
  apply ends_readAt.mpr
  refine ⟨h, ?_⟩
  have hi : i < n := by omega
  rw [Vector.getElem?_eq_getElem hi]
  rfl

theorem results_toTiles (pps : HevcPps) (aup : HevcAup) :
    Results (pps.toTiles aup) (GoesOn (fun pps' => pps'.bConceal = pps.bConceal) fun r =>
      r.1.bConceal = pps.bConceal ∧ ∃ id, r.1.pSPS = some id ∧ aup.pSPS[id]? = some r.2) := by
  unfold toTiles
  apply Results.next (P := fun r : HevcPps × HevcSps =>
    r.1.bConceal = pps.bConceal ∧ ∃ id, r.1.pSPS = some id ∧ aup.pSPS[id]? = some r.2)
  · unfold readSps
    apply Results.behind
    intro spsId
    apply Results.ite
    · exact fun _ => .pure rfl
    intro _
    refine Results.bind (results_readAt _ _) fun sps hsps => Results.ite (fun _ => ?_) fun _ => ?_
    · exact .pure rfl
    · exact .pure ⟨rfl, _, rfl, hsps⟩
  · rintro ⟨pps', sps⟩ ⟨hconceal, hsps⟩
    have hflags : Results (pps'.readFlags sps) fun r =>
        r.bConceal = pps'.bConceal ∧ r.pSPS = pps'.pSPS := by
      unfold readFlags
      iterate 20 refine Results.behind fun _ => ?_
      exact .pure ⟨rfl, rfl⟩
    refine Results.bind hflags fun r hr => ?_
    unfold checkMore
    refine Results.behind fun more => Results.ite (fun _ => ?_) fun _ => ?_
    · exact .pure (hr.1.trans hconceal)
    · rw [← hr.2] at hsps
      exact .pure ⟨hr.1.trans hconceal, hsps⟩

theorem results_readTiles (pps : HevcPps) (sps : HevcSps) :
    Results (pps.readTiles sps)
      (GoesOn (fun pps' => pps'.head = pps.head) fun pps' => pps'.head = pps.head) := by
  unfold readTiles
  refine Results.behind fun columns => Results.behind fun rows => Results.behind fun spacing => ?_
  refine Results.ite (fun _ => .pure rfl) fun _ => Results.ite (fun _ => ?_) fun _ => .pure rfl
  refine Results.behind fun _ => Results.behind fun _ => ?_
  exact Results.ite (fun _ => .pure rfl) fun _ => .pure rfl

theorem results_readTilesIf (pps : HevcPps) (sps : HevcSps) :
    Results (pps.readTilesIf sps)
      (GoesOn (fun pps' => pps'.head = pps.head) fun r => r.1.head = pps.head ∧ r.2 = sps) := by
  unfold readTilesIf
  refine Results.next (P := fun pps' : HevcPps => pps'.head = pps.head) ?_ fun pps' h => ?_
  · refine Results.readIf (fun _ => ?_) fun _ => rfl
    refine Results.next (results_readTiles pps sps) fun pps' h => ?_
    exact Results.behind fun _ => .pure h
  · unfold checkMore
    refine Results.behind fun more => Results.ite (fun _ => ?_) fun _ => ?_
    · exact .pure h
    · exact .pure ⟨h, rfl⟩

theorem readTilesIf_ends {pps : HevcPps} (henabled : pps.tilesEnabledFlag ≠ 0) (sps : HevcSps)
    (p : RbspParser) :
    Ends (pps.readTilesIf sps) p fun r _ => ∀ r', r = .inr r' →
      (r'.1.TilePartition sps.picWidthInCtbs sps.picHeightInCtbs ↔
        p.tileSyntax.Fits sps.picWidthInCtbs sps.picHeightInCtbs) := by
  unfold readTilesIf
  rw [ends_next, readIf, if_pos henabled, ends_next]
  refine (readTiles_ends pps sps p).imp fun r q htiles => ?_
  cases r with
  | inl pps' => exact fun _ h => by cases h
  | inr pps' =>
    simp only [ends_bind, ends_pure, Parse.u, ends_step, checkMore, Parse.moreRbspData, ends_ite]
    refine ⟨fun _ _ h => (by cases h), fun _ r' h => ?_⟩
    have hr := Sum.inr.inj h
    rw [← htiles pps' rfl]
    apply tilePartition_congr
    rw [← hr]
    rfl

/-- The parser in front of the tiles of the set. -/
def AtTiles (pps : HevcPps) (aup : HevcAup) (p t : RbspParser) : Prop :=
  ∃ r, pps.toTiles aup p = .ok (.inr r, t)

theorem parse_tiles {fuel : ℕ} {aup : HevcAup} {p q : RbspParser}
    (hrun : pps.parse fuel aup p = .ok (pps', q)) (hinit : pps.bConceal = true)
    (haccepted : pps'.bConceal = false) (henabled : pps'.tilesEnabledFlag ≠ 0) :
    ∃ t sps id, pps.AtTiles aup p t ∧ pps'.pSPS = some id ∧ aup.pSPS[id]? = some sps ∧
      (pps'.TilePartition sps.picWidthInCtbs sps.picHeightInCtbs ↔
        t.tileSyntax.Fits sps.picWidthInCtbs sps.picHeightInCtbs) := by
  have hends : Ends (pps.parse fuel aup) p fun a _ => a = pps' := ⟨pps', q, hrun, rfl⟩
  unfold parse at hends
  rw [ends_bind, ends_next, ends_next] at hends
  obtain ⟨r, t, hto, hrest⟩ := hends
  have hhead := results_toTiles pps aup p r t hto
  cases r with
  | inl pps1 =>
    dsimp only at hrest
    rw [ends_pure] at hrest
    obtain rfl : pps1 = pps' := hrest
    exact absurd ((Eq.trans hhead hinit).symm.trans haccepted) (by decide)
  | inr r =>
    obtain ⟨pps1, sps⟩ := r
    obtain ⟨hconceal, id, hid, hsps⟩ := hhead
    obtain ⟨r2, t2, htiles, hrest⟩ := hrest
    have hkept := results_readTilesIf pps1 sps t r2 t2 htiles
    cases r2 with
    | inl pps2 =>
      dsimp only at hrest
      rw [ends_pure] at hrest
      obtain rfl : pps2 = pps' := hrest
      have hsame : pps2.bConceal = pps1.bConceal := congrArg Prod.fst hkept
      exact absurd ((hsame.trans (hconceal.trans hinit)).symm.trans haccepted) (by decide)
    | inr r2 =>
      obtain ⟨pps2, sps2⟩ := r2
      obtain ⟨hkept, rfl⟩ := hkept
      dsimp only at hrest
      rw [ends_bind] at hrest
      obtain ⟨pps3, t3, hread, hlast⟩ := hrest
      rw [ends_pure, ends_pure] at hlast
      obtain rfl : pps3 = pps' := hlast
      obtain ⟨hhead, hsame⟩ := results_readRest fuel pps2 sps2 t2 pps3 t3 hread
      have hhead : pps3.head.2 = pps1.head.2 := hhead.trans (congrArg Prod.snd hkept)
      have hflag : pps3.tilesEnabledFlag = pps1.tilesEnabledFlag := congrArg Prod.snd hhead
      have hactive : pps3.pSPS = pps1.pSPS := congrArg Prod.fst hhead
      rw [hflag] at henabled
      have hfits := (ends_of_eq htiles).mp (readTilesIf_ends henabled sps2 t)
      exact ⟨t, sps2, id, ⟨_, hto⟩, hactive.trans hid, hsps,
        (tilePartition_congr hsame).trans (hfits _ rfl)⟩

end HevcPps

/-- The parser in front of the tiles of the set that is parsed. -/
def HevcAup.AtTiles (fuel : ℕ) (aup : HevcAup) (p t : RbspParser) : Prop :=
  ∃ ppsId p' pps, readPpsId fuel p = .ok (ppsId, p') ∧ aup.pPPS[ppsId]? = some pps ∧
    HevcPps.AtTiles { pps.initPps with ppsPicParameterSetId := ppsId } aup p' t

/-- A set that is parsed, and its place in the table. -/
theorem HevcAup.parsePPS_ok {fuel : ℕ} {aup aup' : HevcAup} {p q : RbspParser} {ppsId : ℕ}
    (hrun : aup.parsePPS fuel p = .ok ((aup', some ppsId), q)) :
    ∃ p' old pps, readPpsId fuel p = .ok (ppsId, p') ∧ aup.pPPS[ppsId]? = some old ∧
      HevcPps.parse fuel { old.initPps with ppsPicParameterSetId := ppsId } aup p' = .ok (pps, q) ∧
      aup'.pPPS[ppsId]? = some pps := by
  have hends : Ends (aup.parsePPS fuel) p fun a t => a = (aup', some ppsId) ∧ t = q :=
    ⟨_, q, hrun, rfl, rfl⟩
  unfold HevcAup.parsePPS at hends
  rw [ends_bind] at hends
  obtain ⟨id, p', hid, hrest⟩ := hends
  by_cases hmax : hevcMaxPps ≤ id
  · rw [if_pos hmax, ends_pure] at hrest
    exact absurd (congrArg Prod.snd hrest.1) (by simp)
  rw [if_neg hmax, ends_bind, ends_readAt] at hrest
  obtain ⟨hbound, hrest⟩ := hrest
  rw [ends_bind] at hrest
  obtain ⟨pps, q', hparse, hrest⟩ := hrest
  rw [ends_bind, ends_writeAt] at hrest
  obtain ⟨hset, hrest⟩ := hrest
  rw [ends_pure] at hrest
  obtain ⟨heq, rfl⟩ := hrest
  have hlt : id < hevcMaxPps := by omega
  obtain rfl : id = ppsId := Option.some.inj (congrArg Prod.snd heq)
  refine ⟨p', _, pps, hid, Vector.getElem?_eq_getElem hlt, hparse, ?_⟩
  have haup := congrArg Prod.fst heq
  dsimp only at haup
  rw [← haup]
  exact Vector.getElem?_set_self hlt

/-- The tiles of an accepted set are a partition of the picture of its active sequence
parameter set if and only if they fit. -/
theorem HevcAup.tilePartition_iff {fuel : ℕ} {aup aup' : HevcAup} {p q : RbspParser} {ppsId id : ℕ}
    {pps : HevcPps} {sps : HevcSps} (hrun : aup.parsePPS fuel p = .ok ((aup', some ppsId), q))
    (hpps : aup'.pPPS[ppsId]? = some pps) (haccepted : pps.bConceal = false)
    (henabled : pps.tilesEnabledFlag ≠ 0) (hactive : pps.pSPS = some id)
    (hsps : aup.pSPS[id]? = some sps) :
    ∃ t, aup.AtTiles fuel p t ∧
      (pps.TilePartition sps.picWidthInCtbs sps.picHeightInCtbs ↔
        t.tileSyntax.Fits sps.picWidthInCtbs sps.picHeightInCtbs) := by
  obtain ⟨p', old, pps', hid, hold, hparse, hset⟩ := HevcAup.parsePPS_ok hrun
  obtain rfl : pps' = pps := Option.some.inj (hset.symm.trans hpps)
  obtain ⟨t, sps', id', hat, hactive', hsps', hiff⟩ :=
    HevcPps.parse_tiles hparse rfl haccepted henabled
  obtain rfl : id' = id := Option.some.inj (hactive'.symm.trans hactive)
  obtain rfl : sps' = sps := Option.some.inj (hsps'.symm.trans hsps)
  exact ⟨t, ⟨ppsId, p', old, hid, hold, hat⟩, hiff⟩

/-! ## Streams -/

def SclParam.cleared : SclParam := ⟨fun _ _ => 0, fun _ _ => 0, fun _ _ => 0, fun _ _ _ => 0, fun _ => 0⟩

/-- A table entry that has not been written. -/
def HevcPps.cleared : HevcPps where
  ppsPicParameterSetId := 0
  ppsSeqParameterSetId := 0
  dependentSliceSegmentsEnabledFlag := 0
  outputFlagPresentFlag := 0
  numExtraSliceHeaderBits := 0
  signDataHidingFlag := 0
  cabacInitPresentFlag := 0
  numRefIdxL0DefaultActiveMinus1 := 0
  numRefIdxL1DefaultActiveMinus1 := 0
  initQpMinus26 := 0
  constrainedIntraPredFlag := 0
  transformSkipEnabledFlag := 0
  cuQpDeltaEnabledFlag := 0
  diffCuQpDeltaDepth := 0
  ppsCbQpOffset := 0
  ppsCrQpOffset := 0
  ppsSliceChromaQpOffsetsPresentFlag := 0
  weightedPredFlag := 0
  weightedBipredFlag := 0
  transquantBypassEnabledFlag := 0
  tilesEnabledFlag := 0
  entropyCodingSyncEnabledFlag := 0
  numTileColumnsMinus1 := 0
  numTileRowsMinus1 := 0
  uniformSpacingFlag := 0
  columnWidth _ := 0
  rowHeight _ := 0
  tileTopology _ := 0
  loopFilterAcrossTilesEnabledFlag := 0
  loopFilterAcrossSlicesEnabledFlag := 0
  deblockingFilterControlPresentFlag := 0
  deblockingFilterOverrideEnabledFlag := 0
  ppsDeblockingFilterDisabledFlag := 0
  ppsBetaOffsetDiv2 := 0
  ppsTcOffsetDiv2 := 0
  ppsScalingListDataPresentFlag := 0
  scalingListParam := .cleared
  listsModificationPresentFlag := 0
  log2ParallelMergeLevelMinus2 := 0
  sliceSegmentHeaderExtensionPresentFlag := 0
  ppsExtensionPresentFlag := 0
  ppsRangeExtensionFlag := 0
  ppsExtension7bits := 0
  log2TransformSkipBlockSizeMinus2 := 0
  crossComponentPredictionEnabledFlag := 0
  chromaQpOffsetListEnabledFlag := 0
  diffCuChromaQpOffsetDepth := 0
  chromaQpOffsetListLenMinus1 := 0
  cbQpOffsetList _ := 0
  crQpOffsetList _ := 0
  log2SaoOffsetScaleLuma := 0
  log2SaoOffsetScaleChroma := 0
  pSPS := none
  bConceal := true

/-- Pictures of 272 by 2 blocks of 16 by 16 samples. -/
def HevcSps.wide : HevcSps where
  bitDepthLumaMinus8 := 0
  log2DiffMaxMinLumaCodingBlockSize := 1
  log2CtbSize := 4
  picWidthInCtbs := 272
  picHeightInCtbs := 2
  scalingListParam := .cleared
  bConceal := false
  width_lt := by decide
  height_lt := by decide

def HevcAup.wide : HevcAup := ⟨.replicate _ .cleared, .replicate _ .wide⟩

/-- A set with two columns and two rows. -/
def fourTiles : RbspParser :=
  .init ⟨memOf [0, 0, 1, 68, 1, 192, 113, 132, 150, 18], 10, 0, 10⟩ (fun _ => 0) true

/-- A set with twenty columns. -/
def twentyColumns : RbspParser :=
  .init ⟨memOf [0, 0, 1, 68, 1, 192, 113, 132, 20, 225, 32], 11, 0, 11⟩ (fun _ => 0) true

/-- The set 0 is parsed and passes the test. -/
def HevcAup.passes (aup : HevcAup) (fuel : ℕ) (p : RbspParser) (test : HevcPps → Bool) : Bool :=
  match aup.parsePPS fuel p with
  | .ok ((aup', some 0), _) => (aup'.pPPS[0]?).any test
  | _ => false

theorem HevcAup.run_of_passes {aup : HevcAup} {fuel : ℕ} {p : RbspParser} {test : HevcPps → Bool}
    (h : aup.passes fuel p test = true) :
    ∃ aup' q pps, aup.parsePPS fuel p = .ok ((aup', some 0), q) ∧ aup'.pPPS[0]? = some pps ∧
      test pps = true := by
  unfold HevcAup.passes at h
  split at h
  · next aup' q hrun =>
    obtain ⟨pps, hpps, htest⟩ := (Option.any_eq_true _ _).mp h
    exact ⟨aup', q, pps, hrun, hpps, htest⟩
  · cases h

def HevcPps.acceptedWithTiles (pps : HevcPps) : Bool :=
  !pps.bConceal && pps.tilesEnabledFlag != 0 && pps.pSPS == some 0

theorem HevcAup.wide_sps : HevcAup.wide.pSPS[0]? = some .wide := by
  unfold HevcAup.wide
  rw [Vector.getElem?_eq_getElem (by decide), Vector.getElem_replicate]

/-- The tiles of a set that fit. -/
theorem tilePartition_fourTiles : ∃ pps t, HevcPps.acceptedWithTiles pps = true ∧
    HevcAup.wide.AtTiles 9 fourTiles t ∧ (pps.TilePartition 272 2 ↔ t.tileSyntax.Fits 272 2) := by
  obtain ⟨aup', q, pps, hrun, hpps, htest⟩ := HevcAup.run_of_passes
    (show HevcAup.wide.passes 9 fourTiles HevcPps.acceptedWithTiles = true by decide +kernel)
  have hfields := htest
  simp only [HevcPps.acceptedWithTiles, Bool.and_eq_true, Bool.not_eq_true', bne_iff_ne, beq_iff_eq]
    at hfields
  obtain ⟨⟨haccepted, henabled⟩, hactive⟩ := hfields
  obtain ⟨t, hat, hiff⟩ :=
    HevcAup.tilePartition_iff hrun hpps haccepted henabled hactive HevcAup.wide_sps
  exact ⟨pps, t, htest, hat, hiff⟩

/-- The last of twenty columns begins at block 258, and the table has block 2. -/
theorem not_tilePartition : ¬∀ (fuel : ℕ) (aup aup' : HevcAup) (p q : RbspParser) (ppsId id : ℕ)
    (pps : HevcPps) (sps : HevcSps), aup.parsePPS fuel p = .ok ((aup', some ppsId), q) →
      aup'.pPPS[ppsId]? = some pps → pps.bConceal = false → pps.tilesEnabledFlag ≠ 0 →
      pps.pSPS = some id → aup.pSPS[id]? = some sps →
      pps.TilePartition sps.picWidthInCtbs sps.picHeightInCtbs := by
  intro hall
  obtain ⟨aup', q, pps, hrun, hpps, htest⟩ := HevcAup.run_of_passes
    (show HevcAup.wide.passes 9 twentyColumns (fun pps => pps.acceptedWithTiles &&
      pps.numTileColumnsMinus1 == 19 && pps.tileTopology 19 == 2) = true by decide +kernel)
  simp only [HevcPps.acceptedWithTiles, Bool.and_eq_true, Bool.not_eq_true', bne_iff_ne, beq_iff_eq]
    at htest
  obtain ⟨⟨⟨⟨haccepted, henabled⟩, hactive⟩, hcolumns⟩, htopology⟩ := htest
  have hpart := hall 9 .wide aup' twentyColumns q 0 0 pps .wide hrun hpps haccepted henabled hactive
    HevcAup.wide_sps
  -- nineteen columns in front of the last one are at least nineteen blocks
  have hlast := hpart.topology 0 (Nat.zero_le _) 19 hcolumns.ge
  rw [Nat.zero_mul, Nat.zero_add, htopology, Finset.sum_range_zero, Nat.zero_mul, Nat.zero_add]
    at hlast
  have hge : ∑ _k ∈ range 19, 1 ≤ ∑ k ∈ range 19, pps.columnWidth k := by
    apply Finset.sum_le_sum
    intro k hk
    have := Finset.mem_range.mp hk
    exact hpart.column_pos k (by omega)
  rw [← hlast, Finset.sum_const, Finset.card_range] at hge
  exact absurd hge (by decide)

end VcuCodec
