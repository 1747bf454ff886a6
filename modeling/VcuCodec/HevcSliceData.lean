import VcuCodec.QuadTrees

/-!
# The slice data of a skipped picture

The syntax of H.265 7.3.8.1 to 7.3.8.5 for a picture that is one slice segment, where every
coding unit is as large as it can be and is skipped with the first merging candidate.  There
are several merging candidates and no lossless coding units.
-/

namespace VcuCodec

open QuadTrees

/-- The context of a syntax element, with its increment. -/
inductive SyntaxContext
  | splitCuFlag (ctxInc : ℕ)
  | cuSkipFlag (ctxInc : ℕ)
  | mergeIdx
  deriving DecidableEq

inductive SyntaxBin
  | context (ctx : SyntaxContext) (binVal : Bool)
  | terminate (binVal : Bool)
  deriving DecidableEq

structure CodingUnit where
  x0 : ℕ
  y0 : ℕ
  log2CbSize : ℕ
  ctDepth : ℕ
  cuSkipFlag : Bool
  deriving DecidableEq

/-- The luma location is in the coding unit. -/
def CodingUnit.Covers (cu : CodingUnit) (xY yY : ℤ) : Prop :=
  ((cu.x0 : ℤ) ≤ xY ∧ xY < cu.x0 + 2 ^ cu.log2CbSize) ∧ (cu.y0 : ℤ) ≤ yY ∧ yY < cu.y0 + 2 ^ cu.log2CbSize
deriving Decidable

/-- The bins of a tile, and its coding units. -/
structure SliceData where
  bins : List SyntaxBin
  codingUnits : List CodingUnit

/-- A picture and its tiles, whose columns and rows are in coding tree blocks. -/
structure TiledPicture where
  picWidth : ℕ
  picHeight : ℕ
  ctbLog2SizeY : ℕ
  minCbLog2SizeY : ℕ
  colWidth : List ℕ
  rowHeight : List ℕ
  min_le_ctb : minCbLog2SizeY ≤ ctbLog2SizeY
  width_pos : 0 < picWidth
  height_pos : 0 < picHeight
  dvd_width : 2 ^ minCbLog2SizeY ∣ picWidth
  dvd_height : 2 ^ minCbLog2SizeY ∣ picHeight
  colWidth_pos : ∀ w ∈ colWidth, 0 < w
  rowHeight_pos : ∀ h ∈ rowHeight, 0 < h
  colWidth_sum : colWidth.sum = (picWidth + 2 ^ ctbLog2SizeY - 1) / 2 ^ ctbLog2SizeY
  rowHeight_sum : rowHeight.sum = (picHeight + 2 ^ ctbLog2SizeY - 1) / 2 ^ ctbLog2SizeY

/-- The first column and row of a tile, and how many it has. -/
structure Tile where
  colBd : ℕ
  rowBd : ℕ
  columns : ℕ
  rows : ℕ

namespace SliceData

variable (s : SliceData)

def push (bin : SyntaxBin) : SliceData := { s with bins := s.bins ++ [bin] }

/-- A neighbour is available if it is decoded and in the same tile (6.4.1). -/
def neighbour (xNbY yNbY : ℤ) : Option CodingUnit := s.codingUnits.find? fun cu => cu.Covers xNbY yNbY

/-- The increment from the neighbours on the left and above (9.3.4.2.2). -/
def ctxInc (x0 y0 : ℕ) (cond : CodingUnit → Bool) : ℕ :=
  ((s.neighbour (x0 - 1) y0).any cond).toNat + ((s.neighbour x0 (y0 - 1)).any cond).toNat

def codingUnit (x0 y0 log2CbSize cqtDepth : ℕ) : SliceData where
  bins := s.bins ++ [.context (.cuSkipFlag (s.ctxInc x0 y0 (·.cuSkipFlag))) true, .context .mergeIdx false]
  codingUnits := s.codingUnits ++ [⟨x0, y0, log2CbSize, cqtDepth, true⟩]

end SliceData

namespace TiledPicture

variable (pic : TiledPicture)

/-- `coding_quadtree`, for the logarithm of the block over that of the smallest coding block. -/
def codingQuadtree : ℕ → ℕ → ℕ → ℕ → SliceData → SliceData
  | 0, x0, y0, cqtDepth, s => s.codingUnit x0 y0 pic.minCbLog2SizeY cqtDepth
  | n + 1, x0, y0, cqtDepth, s =>
    let log2CbSize := pic.minCbLog2SizeY + (n + 1)
    if x0 + 2 ^ log2CbSize ≤ pic.picWidth ∧ y0 + 2 ^ log2CbSize ≤ pic.picHeight then
      let s := s.push (.context (.splitCuFlag (s.ctxInc x0 y0 fun cu => cqtDepth < cu.ctDepth)) false)
      s.codingUnit x0 y0 log2CbSize cqtDepth
    else
      -- the flag is inferred to be set
      let x1 := x0 + 2 ^ (log2CbSize - 1)
      let y1 := y0 + 2 ^ (log2CbSize - 1)
      let s := codingQuadtree n x0 y0 (cqtDepth + 1) s
      let s := if x1 < pic.picWidth then codingQuadtree n x1 y0 (cqtDepth + 1) s else s
      let s := if y1 < pic.picHeight then codingQuadtree n x0 y1 (cqtDepth + 1) s else s
      if x1 < pic.picWidth ∧ y1 < pic.picHeight then codingQuadtree n x1 y1 (cqtDepth + 1) s else s

/-- The coding tree unit of a tile in tile scan, with the bins behind it. -/
def codingTreeUnit (lastTile : Bool) (t : Tile) (s : SliceData) (ctbAddr : ℕ) : SliceData :=
  let xCtb := (t.colBd + ctbAddr % t.columns) * 2 ^ pic.ctbLog2SizeY
  let yCtb := (t.rowBd + ctbAddr / t.columns) * 2 ^ pic.ctbLog2SizeY
  let lastCtb := decide (ctbAddr + 1 = t.columns * t.rows)
  let s := pic.codingQuadtree (pic.ctbLog2SizeY - pic.minCbLog2SizeY) xCtb yCtb 0 s
  -- `end_of_slice_segment_flag` and `end_of_subset_one_bit`
  let s := s.push (.terminate (lastTile && lastCtb))
  if !lastTile && lastCtb then s.push (.terminate true) else s

/-- The bins of a tile, behind which the bytes are aligned. -/
def tileData (lastTile : Bool) (t : Tile) : SliceData :=
  (List.range (t.columns * t.rows)).foldl (pic.codingTreeUnit lastTile t) ⟨[], []⟩

/-- The columns or rows of the tiles, with the first of each. -/
def bounds : ℕ → List ℕ → List (ℕ × ℕ)
  | _, [] => []
  | bd, size :: sizes => (bd, size) :: bounds (bd + size) sizes

def tiles : List Tile :=
  (bounds 0 pic.rowHeight).flatMap fun (rowBd, rows) => (bounds 0 pic.colWidth).map fun (colBd, columns) =>
    ⟨colBd, rowBd, columns, rows⟩

/-- The tiles of `slice_segment_data`. -/
def sliceSegmentData : List SliceData :=
  pic.tiles.zipIdx.map fun (t, i) => pic.tileData (i + 1 = pic.tiles.length) t

/-! ## Every tile is a list of leaves -/

/-- The plane of the luma samples with the smallest coding blocks. -/
def plane : Plane := ⟨2 ^ pic.minCbLog2SizeY, pic.picWidth, pic.picHeight⟩

/-- The levels of a coding tree block. -/
def levels : ℕ := pic.ctbLog2SizeY - pic.minCbLog2SizeY

theorem side_plane (n : ℕ) : pic.plane.side n = 2 ^ (pic.minCbLog2SizeY + n) := (pow_add 2 _ n).symm

theorem side_levels : pic.plane.side pic.levels = 2 ^ pic.ctbLog2SizeY := by
  rw [side_plane]
  unfold levels
  rw [Nat.add_sub_cancel' pic.min_le_ctb]

/-- The coding unit of a leaf at a depth below the given one. -/
def unitOf (depth : ℕ) (b : Block) : CodingUnit :=
  ⟨b.x, b.y, pic.minCbLog2SizeY + b.level, depth - b.level, true⟩

/-- What is coded for a leaf. -/
def codeLeaf (depth : ℕ) (s : SliceData) (b : Block) : SliceData :=
  let s := if b.level = 0 then s
    else s.push (.context (.splitCuFlag (s.ctxInc b.x b.y fun cu => depth - b.level < cu.ctDepth)) false)
  s.codingUnit b.x b.y (pic.minCbLog2SizeY + b.level) (depth - b.level)

variable {pic}

theorem fits_iff {n x y : ℕ} : pic.plane.Fits n x y ↔
    x + 2 ^ (pic.minCbLog2SizeY + n) ≤ pic.picWidth ∧ y + 2 ^ (pic.minCbLog2SizeY + n) ≤ pic.picHeight := by
  rw [← side_plane]
  exact Iff.rfl

theorem foldl_ite {α β : Type*} (f : β → α → β) (c : Prop) [Decidable c] (l : List α) (s : β) :
    (if c then l else []).foldl f s = if c then l.foldl f s else s := by
  split <;> rfl

/-- The coding units of a coding tree block are its leaves. -/
theorem codingQuadtree_eq (pic : TiledPicture) (n x y cqtDepth : ℕ) (s : SliceData) :
    pic.codingQuadtree n x y cqtDepth s = (leaves pic.plane n x y).foldl (pic.codeLeaf (cqtDepth + n)) s := by
  induction n generalizing x y cqtDepth s with
  | zero => rfl
  | succ n ih =>
    have hdepth : cqtDepth + 1 + n = cqtDepth + (n + 1) := by omega
    have hself : cqtDepth + (n + 1) - (n + 1) = cqtDepth := Nat.add_sub_cancel ..
    unfold codingQuadtree
    dsimp only
    by_cases hfits : pic.plane.Fits (n + 1) x y
    · rw [if_pos (fits_iff.mp hfits), leaves_of_fits hfits]
      unfold List.foldl codeLeaf
      dsimp only
      rw [if_neg (Nat.succ_ne_zero n), hself]
      rfl
    · have hhalf : 2 ^ (pic.minCbLog2SizeY + (n + 1) - 1) = pic.plane.side n := (side_plane pic n).symm
      rw [if_neg (fun h => hfits (fits_iff.mpr h)), leaves_split hfits, List.foldl_append, List.foldl_append,
        List.foldl_append, foldl_ite, foldl_ite, foldl_ite, hhalf]
      simp only [ih, hdepth]
      rfl

/-! ## The neighbours of a leaf -/

/-- The bins of a leaf of a tile that begins at the given point. -/
def leafBins (left above : Bool) (level : ℕ) : List SyntaxBin :=
  (if level = 0 then [] else [.context (.splitCuFlag 0) false]) ++
    [.context (.cuSkipFlag (left.toNat + above.toNat)) true, .context .mergeIdx false]

/-- The coding units are those of the leaves, none of which is in front of the tile. -/
structure Decoded (pic : TiledPicture) (x₀ y₀ : ℕ) (before : List Block) (s : SliceData) : Prop where
  units : s.codingUnits = before.map (pic.unitOf pic.levels)
  inside : ∀ b ∈ before, x₀ ≤ b.x ∧ y₀ ≤ b.y

theorem unitOf_covers {b : Block} {depth : ℕ} {px py : ℕ} :
    (pic.unitOf depth b).Covers px py ↔ b.Covers pic.plane px py := by
  have hside : ((pic.plane.side b.level : ℕ) : ℤ) = 2 ^ (pic.minCbLog2SizeY + b.level) := by
    rw [side_plane, Nat.cast_pow]
    rfl
  unfold CodingUnit.Covers Block.Covers
  show ((b.x : ℤ) ≤ px ∧ (px : ℤ) < b.x + 2 ^ (pic.minCbLog2SizeY + b.level)) ∧
    (b.y : ℤ) ≤ py ∧ (py : ℤ) < b.y + 2 ^ (pic.minCbLog2SizeY + b.level) ↔ _
  rw [← hside]
  omega

variable {x₀ y₀ : ℕ} {before : List Block} {s : SliceData}

/-- A condition that is the same for every coding unit at the place. -/
theorem any_neighbour (h : Decoded pic x₀ y₀ before s) {xNbY yNbY : ℤ} {available v : Bool} {cond : CodingUnit → Bool}
    (hout : available = false → xNbY < x₀ ∨ yNbY < y₀)
    (hin : available = true → ∃ px py : ℕ, xNbY = px ∧ yNbY = py ∧ QuadTrees.Reaches pic.plane before px py)
    (hcond : ∀ a ∈ before, ∀ px py : ℕ, xNbY = px → yNbY = py → a.Covers pic.plane px py →
      cond (pic.unitOf pic.levels a) = v) : (s.neighbour xNbY yNbY).any cond = (available && v) := by
  unfold SliceData.neighbour
  rw [h.units]
  cases available with
  | false =>
    have hnone : (before.map (pic.unitOf pic.levels)).find? (fun cu => cu.Covers xNbY yNbY) = none := by
      apply List.find?_eq_none.mpr
      intro cu hcu hcovers
      obtain ⟨b, hb, rfl⟩ := List.mem_map.mp hcu
      obtain ⟨⟨hx, -⟩, hy, -⟩ := of_decide_eq_true hcovers
      obtain ⟨hxb, hyb⟩ := h.inside b hb
      have hx' : (b.x : ℤ) ≤ xNbY := hx
      have hy' : (b.y : ℤ) ≤ yNbY := hy
      have hor := hout rfl
      omega
    rw [hnone]
    rfl
  | true =>
    obtain ⟨px, py, rfl, rfl, b, hb, hcovers⟩ := hin rfl
    cases hfind : (before.map (pic.unitOf pic.levels)).find? (fun cu => cu.Covers px py) with
    | none =>
      have hnot := List.find?_eq_none.mp hfind _ (List.mem_map_of_mem hb)
      exact absurd (decide_eq_true (unitOf_covers.mpr hcovers)) hnot
    | some cu =>
      obtain ⟨a, ha, rfl⟩ := List.mem_map.mp (List.mem_of_find?_eq_some hfind)
      have hfound := List.find?_some hfind
      rw [Option.any_some, Bool.true_and]
      exact hcond a ha px py rfl rfl (unitOf_covers.mp (of_decide_eq_true hfound))

/-- The increment for a leaf, from the leaves in front of it. -/
theorem ctxInc_leaf {b : Block} {v : Bool} {cond : CodingUnit → Bool} (h : Decoded pic x₀ y₀ before s)
    (hx : x₀ ≤ b.x) (hy : y₀ ≤ b.y) (hallowed : Allowed pic.plane x₀ y₀ before b)
    (hcond : ∀ a ∈ before, ∀ px py, px ≤ b.x → py ≤ b.y → a.Covers pic.plane px py →
      cond (pic.unitOf pic.levels a) = v) :
    s.ctxInc b.x b.y cond = (decide (x₀ < b.x) && v).toNat + (decide (y₀ < b.y) && v).toNat := by
  have hleft : (s.neighbour (b.x - 1) b.y).any cond = (decide (x₀ < b.x) && v) := by
    refine any_neighbour h (fun hno => ?_) (fun hyes => ?_) fun a ha px py hpx hpy => hcond a ha px py (by omega) (by omega)
    · have hle := of_decide_eq_false hno
      omega
    · have hlt := of_decide_eq_true hyes
      exact ⟨b.x - 1, b.y, by omega, rfl, hallowed.1 hlt⟩
  have habove : (s.neighbour b.x (b.y - 1)).any cond = (decide (y₀ < b.y) && v) := by
    refine any_neighbour h (fun hno => ?_) (fun hyes => ?_) fun a ha px py hpx hpy => hcond a ha px py (by omega) (by omega)
    · have hle := of_decide_eq_false hno
      omega
    · have hlt := of_decide_eq_true hyes
      exact ⟨b.x, b.y - 1, rfl, by omega, hallowed.2 hlt⟩
  unfold SliceData.ctxInc
  rw [hleft, habove]

/-- The bins of a leaf of a tile that begins at the given point. -/
def tileBins (x₀ y₀ : ℕ) (b : Block) : List SyntaxBin := leafBins (x₀ < b.x) (y₀ < b.y) b.level

/-- The step for a leaf: no neighbour is smaller, and all of them are skipped. -/
theorem Decoded.codeLeaf {b : Block} (h : Decoded pic x₀ y₀ before s) (hx : x₀ ≤ b.x) (hy : y₀ ≤ b.y)
    (hallowed : Allowed pic.plane x₀ y₀ before b)
    (hlevel : ∀ a ∈ before, ∀ px py, px ≤ b.x → py ≤ b.y → a.Covers pic.plane px py → b.level ≤ a.level) :
    Decoded pic x₀ y₀ (before ++ [b]) (pic.codeLeaf pic.levels s b) ∧
      (pic.codeLeaf pic.levels s b).bins = s.bins ++ tileBins x₀ y₀ b := by
  have hskip : s.ctxInc b.x b.y (·.cuSkipFlag) = (decide (x₀ < b.x)).toNat + (decide (y₀ < b.y)).toNat := by
    rw [ctxInc_leaf (v := true) h hx hy hallowed fun a _ px py _ _ _ => rfl, Bool.and_true, Bool.and_true]
  have hsplit : s.ctxInc b.x b.y (fun cu => pic.levels - b.level < cu.ctDepth) = 0 := by
    have hsmaller : ∀ a ∈ before, ∀ px py, px ≤ b.x → py ≤ b.y → a.Covers pic.plane px py →
        decide (pic.levels - b.level < (pic.unitOf pic.levels a).ctDepth) = false := by
      intro a ha px py hpx hpy hcovers
      have hle := hlevel a ha px py hpx hpy hcovers
      apply decide_eq_false
      show ¬ pic.levels - b.level < pic.levels - a.level
      omega
    rw [ctxInc_leaf h hx hy hallowed hsmaller, Bool.and_false, Bool.and_false]
    rfl
  have hinside : ∀ a ∈ before ++ [b], x₀ ≤ a.x ∧ y₀ ≤ a.y := by
    intro a ha
    rcases List.mem_append.mp ha with ha | ha
    · exact h.inside a ha
    · obtain rfl := List.mem_singleton.mp ha
      exact ⟨hx, hy⟩
  have hunits : s.codingUnits ++ [pic.unitOf pic.levels b] = (before ++ [b]).map (pic.unitOf pic.levels) := by
    rw [h.units, List.map_append]
    rfl
  unfold TiledPicture.codeLeaf
  dsimp only
  by_cases hzero : b.level = 0
  · rw [if_pos hzero]
    refine ⟨⟨hunits, hinside⟩, ?_⟩
    unfold SliceData.codingUnit tileBins leafBins
    dsimp only
    rw [if_pos hzero, hskip]
    rfl
  · rw [if_neg hzero, hsplit]
    refine ⟨⟨hunits, hinside⟩, ?_⟩
    have hpush : (s.push (.context (.splitCuFlag 0) false)).ctxInc b.x b.y (·.cuSkipFlag) =
        s.ctxInc b.x b.y (·.cuSkipFlag) := rfl
    unfold SliceData.codingUnit tileBins leafBins
    dsimp only
    rw [if_neg hzero, hpush, hskip, ← List.append_assoc]
    rfl

/-- The leaves of a tile are coded one after the other. -/
theorem Decoded.leaves {bs : List Block} (h : Decoded pic x₀ y₀ before s)
    (hordered : Ordered (Allowed pic.plane x₀ y₀) before bs) (hinside : ∀ b ∈ bs, x₀ ≤ b.x ∧ y₀ ≤ b.y)
    (hlevel : ∀ a ∈ before ++ bs, ∀ b ∈ bs, ∀ px py, px ≤ b.x → py ≤ b.y → a.Covers pic.plane px py → b.level ≤ a.level) :
    Decoded pic x₀ y₀ (before ++ bs) (bs.foldl (pic.codeLeaf pic.levels) s) ∧
      (bs.foldl (pic.codeLeaf pic.levels) s).bins = s.bins ++ bs.flatMap (tileBins x₀ y₀) := by
  induction bs generalizing before s with
  | nil =>
    rw [List.append_nil, List.flatMap_nil, List.append_nil]
    exact ⟨h, rfl⟩
  | cons b bs ih =>
    obtain ⟨hallowed, hrest⟩ := hordered
    obtain ⟨hx, hy⟩ := hinside b List.mem_cons_self
    obtain ⟨hdecoded, hbins⟩ := h.codeLeaf hx hy hallowed fun a ha =>
      hlevel a (List.mem_append_left _ ha) b List.mem_cons_self
    have happend : before ++ b :: bs = (before ++ [b]) ++ bs := List.append_cons ..
    rw [happend] at hlevel ⊢
    obtain ⟨hall, hallBins⟩ := ih hdecoded hrest (fun b' hb' => hinside b' (List.mem_cons_of_mem _ hb'))
      fun a ha b' hb' => hlevel a ha b' (List.mem_cons_of_mem _ hb')
    refine ⟨hall, ?_⟩
    rw [List.foldl_cons, hallBins, hbins, List.append_assoc]
    rfl

/-! ## The bins of a tile -/

/-- The tile is a part of the picture. -/
structure TileInside (pic : TiledPicture) (t : Tile) : Prop where
  columns_pos : 0 < t.columns
  rows_pos : 0 < t.rows
  columns_le : t.colBd + t.columns ≤ (pic.picWidth + 2 ^ pic.ctbLog2SizeY - 1) / 2 ^ pic.ctbLog2SizeY
  rows_le : t.rowBd + t.rows ≤ (pic.picHeight + 2 ^ pic.ctbLog2SizeY - 1) / 2 ^ pic.ctbLog2SizeY

theorem bounds_inside {bd size : ℕ} {sizes : List ℕ} {b : ℕ} (h : (bd, size) ∈ bounds b sizes) (hpos : ∀ w ∈ sizes, 0 < w) :
    0 < size ∧ bd + size ≤ b + sizes.sum := by
  induction sizes generalizing b with
  | nil => cases h
  | cons w ws ih =>
    rw [List.sum_cons]
    rcases List.mem_cons.mp h with heq | hmem
    · obtain ⟨rfl, rfl⟩ := Prod.mk.inj heq
      exact ⟨hpos size List.mem_cons_self, by omega⟩
    · obtain ⟨hsize, hle⟩ := ih hmem fun w hw => hpos w (List.mem_cons_of_mem _ hw)
      exact ⟨hsize, by omega⟩

theorem tileInside {t : Tile} (ht : t ∈ pic.tiles) : TileInside pic t := by
  obtain ⟨⟨rowBd, rows⟩, hrows, ht⟩ := List.mem_flatMap.mp ht
  obtain ⟨⟨colBd, columns⟩, hcolumns, rfl⟩ := List.mem_map.mp ht
  obtain ⟨hcpos, hcle⟩ := bounds_inside hcolumns pic.colWidth_pos
  obtain ⟨hrpos, hrle⟩ := bounds_inside hrows pic.rowHeight_pos
  rw [pic.colWidth_sum, Nat.zero_add] at hcle
  rw [pic.rowHeight_sum, Nat.zero_add] at hrle
  exact ⟨hcpos, hrpos, hcle, hrle⟩

theorem mul_lt_of_lt {k size n : ℕ} (hsize : 0 < size) (h : k < (n + size - 1) / size) : k * size < n := by
  have hle := (Nat.le_div_iff_mul_le hsize).mp (Nat.succ_le_of_lt h)
  rw [Nat.succ_mul] at hle
  omega

/-- The first luma location of a tile. -/
def tileX (pic : TiledPicture) (t : Tile) : ℕ := t.colBd * 2 ^ pic.ctbLog2SizeY

def tileY (pic : TiledPicture) (t : Tile) : ℕ := t.rowBd * 2 ^ pic.ctbLog2SizeY

/-- The leaves of a coding tree block, and of those in front of it. -/
def ctbLeaves (pic : TiledPicture) (t : Tile) (ctbAddr : ℕ) : List Block :=
  gridLeaves pic.plane pic.levels (pic.tileX t) (pic.tileY t) t.columns ctbAddr

def leavesBefore (pic : TiledPicture) (t : Tile) (ctbAddr : ℕ) : List Block :=
  QuadTrees.before pic.plane pic.levels (pic.tileX t) (pic.tileY t) t.columns ctbAddr

/-- The flags behind a coding tree unit. -/
def endBins (lastTile lastCtb : Bool) : List SyntaxBin :=
  .terminate (lastTile && lastCtb) :: if !lastTile && lastCtb then [.terminate true] else []

/-- The bins of a coding tree unit. -/
def ctuBins (pic : TiledPicture) (lastTile : Bool) (t : Tile) (ctbAddr : ℕ) : List SyntaxBin :=
  (pic.ctbLeaves t ctbAddr).flatMap (tileBins (pic.tileX t) (pic.tileY t)) ++
    endBins lastTile (ctbAddr + 1 = t.columns * t.rows)

theorem unit_pos : 0 < pic.plane.unit := Nat.two_pow_pos _

section Tiles

variable {t : Tile} {i : ℕ}

theorem ctb_inside (h : TileInside pic t) (hi : i < t.columns * t.rows) :
    pic.tileX t + i % t.columns * pic.plane.side pic.levels < pic.plane.width ∧
      pic.tileY t + i / t.columns * pic.plane.side pic.levels < pic.plane.height := by
  have hsize := Nat.two_pow_pos pic.ctbLog2SizeY
  have hcolumn := Nat.mod_lt i h.columns_pos
  have hrow : i / t.columns < t.rows := Nat.div_lt_of_lt_mul hi
  have hcolumns := (Nat.add_lt_add_left hcolumn t.colBd).trans_le h.columns_le
  have hrows := (Nat.add_lt_add_left hrow t.rowBd).trans_le h.rows_le
  unfold tileX tileY
  rw [side_levels, ← Nat.add_mul, ← Nat.add_mul]
  exact ⟨mul_lt_of_lt hsize hcolumns, mul_lt_of_lt hsize hrows⟩

theorem ctb_aligned (pic : TiledPicture) (t : Tile) (i : ℕ) :
    pic.plane.side pic.levels ∣ pic.tileX t + i % t.columns * pic.plane.side pic.levels ∧
      pic.plane.side pic.levels ∣ pic.tileY t + i / t.columns * pic.plane.side pic.levels := by
  unfold tileX tileY
  rw [side_levels]
  exact ⟨Nat.dvd_add (Nat.dvd_mul_left _ _) (Nat.dvd_mul_left _ _), Nat.dvd_add (Nat.dvd_mul_left _ _) (Nat.dvd_mul_left _ _)⟩

theorem level_le_of_ctb (h : TileInside pic t) (hi : i < t.columns * t.rows) {a b : Block} {px py : ℕ}
    (ha : a ∈ pic.leavesBefore t (i + 1)) (hb : b ∈ pic.ctbLeaves t i) (hpx : px ≤ b.x) (hpy : py ≤ b.y)
    (hcovers : a.Covers pic.plane px py) : b.level ≤ a.level := by
  obtain ⟨j, hj, ha⟩ := List.mem_flatMap.mp ha
  have hji : j < t.columns * t.rows := lt_of_le_of_lt (Nat.lt_succ_iff.mp (List.mem_range.mp hj)) hi
  obtain ⟨hxj, hyj⟩ := ctb_inside h hji
  obtain ⟨hxi, hyi⟩ := ctb_inside h hi
  obtain ⟨hxdj, hydj⟩ := ctb_aligned pic t j
  obtain ⟨hxdi, hydi⟩ := ctb_aligned pic t i
  exact level_le_of_covers unit_pos hxj hyj hxdj hydj ha hxi hyi hxdi hydi hb hcovers hpx hpy

theorem codingTreeUnit_eq (lastTile : Bool) (t : Tile) (s : SliceData) (i : ℕ) :
    pic.codingTreeUnit lastTile t s i =
      ⟨((pic.ctbLeaves t i).foldl (pic.codeLeaf pic.levels) s).bins ++ endBins lastTile (i + 1 = t.columns * t.rows),
        ((pic.ctbLeaves t i).foldl (pic.codeLeaf pic.levels) s).codingUnits⟩ := by
  have hleaves : leaves pic.plane pic.levels ((t.colBd + i % t.columns) * 2 ^ pic.ctbLog2SizeY)
      ((t.rowBd + i / t.columns) * 2 ^ pic.ctbLog2SizeY) = pic.ctbLeaves t i := by
    unfold ctbLeaves gridLeaves tileX tileY
    rw [side_levels, ← Nat.add_mul, ← Nat.add_mul]
  have hquadtree := codingQuadtree_eq pic pic.levels ((t.colBd + i % t.columns) * 2 ^ pic.ctbLog2SizeY)
    ((t.rowBd + i / t.columns) * 2 ^ pic.ctbLog2SizeY) 0 s
  rw [hleaves, Nat.zero_add] at hquadtree
  unfold codingTreeUnit
  dsimp only
  show (if _ then _ else _) = _
  unfold levels at hquadtree
  rw [hquadtree]
  unfold endBins SliceData.push
  by_cases hlast : (!lastTile && decide (i + 1 = t.columns * t.rows)) = true
  · rw [if_pos hlast, if_pos hlast]
    dsimp only
    rw [List.append_assoc]
    rfl
  · rw [if_neg hlast, if_neg hlast]
    rfl

/-- The coding tree units of a tile, up to one of them. -/
theorem codingTreeUnits_eq (h : TileInside pic t) (lastTile : Bool) (hi : i ≤ t.columns * t.rows) :
    Decoded pic (pic.tileX t) (pic.tileY t) (pic.leavesBefore t i)
      ((List.range i).foldl (pic.codingTreeUnit lastTile t) ⟨[], []⟩) ∧
      ((List.range i).foldl (pic.codingTreeUnit lastTile t) ⟨[], []⟩).bins =
        (List.range i).flatMap (pic.ctuBins lastTile t) := by
  induction i with
  | zero => exact ⟨⟨rfl, fun b hb => absurd hb List.not_mem_nil⟩, rfl⟩
  | succ i ih =>
    obtain ⟨hdecoded, hbins⟩ := ih (Nat.le_of_succ_le hi)
    have hnext : pic.leavesBefore t (i + 1) = pic.leavesBefore t i ++ pic.ctbLeaves t i := before_succ ..
    obtain ⟨hx, hy⟩ := ctb_inside h hi
    have hordered : Ordered (Allowed pic.plane (pic.tileX t) (pic.tileY t)) (pic.leavesBefore t i) (pic.ctbLeaves t i) := by
      have hgrid : Ordered (Allowed pic.plane (pic.tileX t) (pic.tileY t)) [] (pic.leavesBefore t (i + 1)) := by
        refine ordered_grid unit_pos h.columns_pos (i + 1) (fun j hj => ?_) fun j hj => ?_
        · exact (ctb_inside h (lt_of_lt_of_le hj hi)).1
        · exact (ctb_inside h (lt_of_lt_of_le hj hi)).2
      rw [hnext, ordered_append] at hgrid
      exact hgrid.2
    have hinside : ∀ b ∈ pic.ctbLeaves t i, pic.tileX t ≤ b.x ∧ pic.tileY t ≤ b.y := by
      intro b hb
      obtain ⟨⟨hxb, -⟩, ⟨hyb, -⟩, -⟩ := leaf_inside hb hx hy
      exact ⟨(Nat.le_add_right _ _).trans hxb, (Nat.le_add_right _ _).trans hyb⟩
    obtain ⟨hall, hallBins⟩ := hdecoded.leaves hordered hinside fun a ha b hb px py hpx hpy hcovers =>
      level_le_of_ctb h hi (hnext ▸ ha) hb hpx hpy hcovers
    rw [List.range_succ, List.foldl_append, List.foldl_cons, List.foldl_nil, codingTreeUnit_eq, hnext]
    refine ⟨⟨hall.units, hall.inside⟩, ?_⟩
    rw [List.flatMap_append, List.flatMap_singleton, hallBins, hbins, List.append_assoc]
    rfl

theorem bins_tileData (h : TileInside pic t) (lastTile : Bool) :
    (pic.tileData lastTile t).bins = (List.range (t.columns * t.rows)).flatMap (pic.ctuBins lastTile t) :=
  (codingTreeUnits_eq h lastTile le_rfl).2

/-- Every luma location of a tile is in exactly one of its coding units. -/
theorem countP_codingUnits (h : TileInside pic t) (lastTile : Bool) {px py : ℕ} (hpx : px < pic.picWidth)
    (hpy : py < pic.picHeight) (hx : t.colBd * 2 ^ pic.ctbLog2SizeY ≤ px)
    (hx' : px < (t.colBd + t.columns) * 2 ^ pic.ctbLog2SizeY) (hy : t.rowBd * 2 ^ pic.ctbLog2SizeY ≤ py)
    (hy' : py < (t.rowBd + t.rows) * 2 ^ pic.ctbLog2SizeY) :
    (pic.tileData lastTile t).codingUnits.countP (fun cu => decide (cu.Covers px py)) = 1 := by
  have hunits : (pic.tileData lastTile t).codingUnits = (pic.leavesBefore t (t.columns * t.rows)).map (pic.unitOf pic.levels) :=
    (codingTreeUnits_eq h lastTile le_rfl).1.units
  have hcovers : ∀ b : Block, decide ((pic.unitOf pic.levels b).Covers px py) = decide (b.Covers pic.plane px py) :=
    fun b => decide_eq_decide.mpr unitOf_covers
  rw [Nat.add_mul] at hx' hy'
  rw [hunits, List.countP_map]
  refine (List.countP_congr fun b _ => ?_).trans (countP_grid (Plane.side_pos unit_pos) hpx hpy hx ?_ hy ?_)
  · rw [Function.comp_apply, hcovers]
  · rw [side_levels]
    exact hx'
  · rw [side_levels]
    exact hy'

end Tiles

end TiledPicture

end VcuCodec
