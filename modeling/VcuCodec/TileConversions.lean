import VcuCodec.PixelConversions

/-!
# Conversions of tiled pictures

The routines of `lib_app/convert.cpp` for the tiles of 64 times 4 samples of ten bits.  A row of
tiles is a row of blocks of 4 times 4 samples.  Where the last row of tiles is cropped, the T60A
routines move their pointer too far, and every routine stores whole blocks.
-/

namespace VcuCodec

open RasterStores

/-! ## The loops -/

section Loops

variable (convert : ℕ → ℕ) (pSrc : ℕ → ℕ) (block : ℕ → ℕ → ℕ → List (ℕ × ℕ))
  (iPitchSrc iPitchDst iWidth iHeight : ℕ)

/-- The stores of a block at `pIn` that goes to a row and a column. -/
def lumaBlock (pIn H W : ℕ) : List (ℕ × ℕ) :=
  untile4x4Block10b (fun j => pSrc (pIn + j)) (H * iPitchDst + W) iPitchDst convert

/-- The same for chroma that goes to U and V. -/
def chromaBlock (offsetU offsetV pIn H W : ℕ) : List (ℕ × ℕ) :=
  untile4x4ChromaBlock10bToPlanar (fun j => pSrc (pIn + j)) (offsetU + H * iPitchDst + W / 2)
    (offsetV + H * iPitchDst + W / 2) iPitchDst convert

/-- The row of tiles at `H` in the T60A routines. -/
def untileRow (H iCropH pIn : ℕ) : List (ℕ × ℕ) :=
  (walk (fun pIn i =>
    let W := i * 64
    let iCropW := W + 64 - iWidth
    let tile := walk (fun pIn j =>
      let h := j * 4
      let blocks := walk (fun pIn k =>
        let w := k * 4
        (pIn + 10, block pIn (H + h) (W + w))) pIn (List.range ((64 - iCropW + 3) / 4))
      (blocks.1 + 5 * iCropW / 2, blocks.2)) pIn (List.range ((4 - iCropH + 3) / 4))
    (tile.1 + iCropH * 64 * 5 / 4 / 2, tile.2)) pIn (List.range ((iWidth + 63) / 64))).2

/-- The loops of the T60A routines. -/
def untilePlane : List (ℕ × ℕ) :=
  (List.range ((iHeight + 3) / 4)).flatMap fun i =>
    let H := i * 4
    untileRow block iWidth H (H + 4 - iHeight) (H / 4 * iPitchSrc)

/-- The loops of the T62A routines, which go through the whole plane with one pointer. -/
def untileAll (iJump : ℕ) : List (ℕ × ℕ) :=
  (walk (fun pIn i =>
    let h := i * 4
    let blocks := walk (fun pIn k =>
      let w := k * 4
      (pIn + 10, block pIn h w)) pIn (List.range ((iWidth + 3) / 4))
    (blocks.1 + iJump, blocks.2)) 0 (List.range ((iHeight + 3) / 4))).2

end Loops

/-! ## The blocks that are stored -/

section Blocks

variable {convert : ℕ → ℕ} {pSrc : ℕ → ℕ} {block : ℕ → ℕ → ℕ → List (ℕ × ℕ)}
  {iPitchSrc iPitchDst iWidth iHeight : ℕ}

variable {x : ℕ × ℕ}

theorem mem_blocks {n pIn : ℕ} (stores : ℕ → ℕ → List (ℕ × ℕ)) :
    x ∈ (walk (fun pIn k => (pIn + 10, stores pIn k)) pIn (List.range n)).2 ↔
      ∃ k < n, x ∈ stores (pIn + 10 * k) k :=
  mem_walk (p := fun k => pIn + 10 * k) fun _ _ => rfl

theorem blocks_fst {n pIn : ℕ} (stores : ℕ → ℕ → List (ℕ × ℕ)) :
    (walk (fun pIn k => (pIn + 10, stores pIn k)) pIn (List.range n)).1 = pIn + 10 * n :=
  walk_fst (p := fun k => pIn + 10 * k) fun _ _ => rfl

/-- A tile in a row: its blocks, and where the pointer is behind it. -/
def tileRound (block : ℕ → ℕ → ℕ → List (ℕ × ℕ)) (iWidth H iCropH pIn i : ℕ) : ℕ × List (ℕ × ℕ) :=
  let blocks := walk (fun pIn k => (pIn + 10, block pIn H (i * 64 + k * 4))) pIn
    (List.range ((64 - (i * 64 + 64 - iWidth) + 3) / 4))
  (blocks.1 + 5 * (i * 64 + 64 - iWidth) / 2 + iCropH * 64 * 5 / 4 / 2, blocks.2)

theorem untileRow_eq {H iCropH pIn : ℕ} (hcropH : iCropH < 4) :
    untileRow block iWidth H iCropH pIn =
      (walk (tileRound block iWidth H iCropH) pIn (List.range ((iWidth + 63) / 64))).2 := by
  have hone : (4 - iCropH + 3) / 4 = 1 := by omega
  unfold untileRow tileRound
  rw [hone]
  simp only [List.range_one, walk, Nat.zero_mul, Nat.add_zero, List.append_nil]

/-- Without cropped rows, or with one tile, the blocks are read one after the other. -/
theorem mem_untileRow {H iCropH pIn : ℕ} (hcropH : iCropH < 4)
    (hpointer : iCropH = 0 ∨ iWidth ≤ 64) : x ∈ untileRow block iWidth H iCropH pIn ↔
      ∃ k < (iWidth + 3) / 4, x ∈ block (pIn + 10 * k) H (k * 4) := by
  have hround (j : ℕ) (hj : j + 1 < (iWidth + 63) / 64) :
      (tileRound block iWidth H iCropH (pIn + 160 * j) j).1 = pIn + 160 * (j + 1) := by
    have hcrop : j * 64 + 64 - iWidth = 0 := by omega
    have hcropH : iCropH = 0 := by omega
    unfold tileRound
    dsimp only
    rw [blocks_fst fun pIn k => block pIn H (j * 64 + k * 4), hcrop, hcropH]
    omega
  have hmem : x ∈ (walk (tileRound block iWidth H iCropH) pIn (List.range ((iWidth + 63) / 64))).2 ↔ _ :=
    mem_walk (p := fun j => pIn + 160 * j) hround
  rw [untileRow_eq hcropH, hmem]
  unfold tileRound
  simp only [mem_blocks fun pIn k => block pIn H (_ + k * 4)]
  constructor
  · rintro ⟨j, hj, k, hk, hx⟩
    refine ⟨16 * j + k, by omega, ?_⟩
    have hpIn : pIn + 10 * (16 * j + k) = pIn + 160 * j + 10 * k := by omega
    have hcol : (16 * j + k) * 4 = j * 64 + k * 4 := by omega
    rw [hpIn, hcol]
    exact hx
  · rintro ⟨k, hk, hx⟩
    refine ⟨k / 16, by omega, k % 16, by omega, ?_⟩
    have hpIn : pIn + 160 * (k / 16) + 10 * (k % 16) = pIn + 10 * k := by omega
    have hcol : k / 16 * 64 + k % 16 * 4 = k * 4 := by omega
    rw [hpIn, hcol]
    exact hx

theorem mem_untilePlane (hpointer : iHeight % 4 = 0 ∨ iWidth ≤ 64) :
    x ∈ untilePlane block iPitchSrc iWidth iHeight ↔ ∃ i < (iHeight + 3) / 4,
      ∃ k < (iWidth + 3) / 4, x ∈ block (i * iPitchSrc + 10 * k) (i * 4) (k * 4) := by
  unfold untilePlane
  rw [List.mem_flatMap]
  apply exists_congr
  intro i
  rw [List.mem_range]
  apply and_congr_right
  intro hi
  dsimp only
  rw [mem_untileRow (by omega) (by omega), Nat.mul_div_cancel i (by decide)]

/-- A row of blocks, and the jump behind it. -/
def jumpRound (block : ℕ → ℕ → ℕ → List (ℕ × ℕ)) (iWidth iJump pIn i : ℕ) : ℕ × List (ℕ × ℕ) :=
  let blocks := walk (fun pIn k => (pIn + 10, block pIn (i * 4) (k * 4))) pIn
    (List.range ((iWidth + 3) / 4))
  (blocks.1 + iJump, blocks.2)

theorem mem_untileAll {iJump : ℕ}
    (hjump : 10 * ((iWidth + 3) / 4) + iJump = iPitchSrc ∨ iHeight ≤ 4) :
    x ∈ untileAll block iWidth iHeight iJump ↔ ∃ i < (iHeight + 3) / 4,
      ∃ k < (iWidth + 3) / 4, x ∈ block (i * iPitchSrc + 10 * k) (i * 4) (k * 4) := by
  have hround (j : ℕ) (hj : j + 1 < (iHeight + 3) / 4) :
      (jumpRound block iWidth iJump (j * iPitchSrc) j).1 = (j + 1) * iPitchSrc := by
    have hjump := hjump.resolve_right (by omega)
    unfold jumpRound
    dsimp only
    rw [blocks_fst fun pIn k => block pIn (j * 4) (k * 4), Nat.add_assoc, hjump, Nat.succ_mul]
  have hmem : x ∈ (walk (jumpRound block iWidth iJump) (0 * iPitchSrc)
      (List.range ((iHeight + 3) / 4))).2 ↔ _ := mem_walk (p := fun j => j * iPitchSrc) hround
  rw [Nat.zero_mul] at hmem
  refine hmem.trans (exists_congr fun i => and_congr_right fun _ => ?_)
  exact mem_blocks fun pIn k => block pIn (i * 4) (k * 4)

/-- The picture that whole blocks paint. -/
def blockPicture (convert : ℕ → ℕ) (pSrc : ℕ → ℕ) (iPitchSrc r c : ℕ) : ℕ :=
  convert (tileSample (fun j => pSrc (r / 4 * iPitchSrc + j)) (c / 4 * 16 + r % 4 * 4 + c % 4))

theorem blockPicture_block {i k e : ℕ} (he : e < 16) :
    blockPicture convert pSrc iPitchSrc (i * 4 + e / 4) (k * 4 + e % 4) =
      convert (tileSample (fun j => pSrc (i * iPitchSrc + 10 * k + j)) e) := by
  have hrow : (i * 4 + e / 4) / 4 = i := by omega
  have hsample : (k * 4 + e % 4) / 4 * 16 + (i * 4 + e / 4) % 4 * 4 + (k * 4 + e % 4) % 4 =
      16 * k + e := by omega
  have hadd := tileSample_add (fun j => pSrc (i * iPitchSrc + j)) k e
  unfold blockPicture
  rw [hrow, hsample, ← hadd]
  simp only [Nat.add_assoc]

theorem mem_lumaBlock (hword : ∀ i, pSrc i < 2 ^ 16) {i k : ℕ} :
    x ∈ lumaBlock convert pSrc iPitchDst (i * iPitchSrc + 10 * k) (i * 4) (k * 4) ↔
      ∃ r c, r / 4 = i ∧ c / 4 = k ∧
        x = (r * iPitchDst + c, blockPicture convert pSrc iPitchSrc r c) := by
  unfold lumaBlock
  rw [untile4x4Block10b_eq fun j => hword _, List.mem_map]
  simp only [List.mem_range]
  constructor
  · rintro ⟨e, he, rfl⟩
    refine ⟨i * 4 + e / 4, k * 4 + e % 4, by omega, by omega, ?_⟩
    rw [blockPicture_block he, Nat.add_mul]
    congr 1
    omega
  · rintro ⟨r, c, rfl, rfl, rfl⟩
    have he : r % 4 * 4 + c % 4 < 16 := by omega
    refine ⟨r % 4 * 4 + c % 4, he, ?_⟩
    have hr : r / 4 * 4 + (r % 4 * 4 + c % 4) / 4 = r := by omega
    have hc : c / 4 * 4 + (r % 4 * 4 + c % 4) % 4 = c := by omega
    rw [← @blockPicture_block convert pSrc iPitchSrc (r / 4) (c / 4) _ he, hr, hc]
    congr 1
    have hplace : (r / 4 * 4 + (r % 4 * 4 + c % 4) / 4) * iPitchDst = r * iPitchDst := by rw [hr]
    rw [Nat.add_mul] at hplace
    omega

/-- Every block of a plane is read where it is. -/
def Walks (stores : (ℕ → ℕ → ℕ → List (ℕ × ℕ)) → List (ℕ × ℕ)) (iPitchSrc iWidth iHeight : ℕ) :
    Prop :=
  ∀ block x, x ∈ stores block ↔ ∃ i < (iHeight + 3) / 4, ∃ k < (iWidth + 3) / 4,
    x ∈ block (i * iPitchSrc + 10 * k) (i * 4) (k * 4)

variable {stores : (ℕ → ℕ → ℕ → List (ℕ × ℕ)) → List (ℕ × ℕ)}

theorem lumaBlock_paints
    (hwalks : Walks stores iPitchSrc iWidth iHeight) (hword : ∀ i, pSrc i < 2 ^ 16)
    (hwidth : (iWidth + 3) / 4 * 4 ≤ iPitchDst) :
    Paints (stores (lumaBlock convert pSrc iPitchDst)) iPitchDst iHeight iWidth
      (blockPicture convert pSrc iPitchSrc) := by
  constructor
  · intro x hx
    obtain ⟨i, -, k, hk, hx⟩ := (hwalks _ x).mp hx
    obtain ⟨r, c, -, rfl, rfl⟩ := (mem_lumaBlock hword).mp hx
    exact ⟨r, c, by omega, rfl⟩
  · intro r hr c hc
    exact (hwalks _ _).mpr ⟨r / 4, by omega, c / 4, by omega,
      (mem_lumaBlock hword).mpr ⟨r, c, rfl, rfl, rfl⟩⟩

theorem mem_chromaBlock (hword : ∀ i, pSrc i < 2 ^ 16) {offsetU offsetV i k : ℕ} :
    x ∈ chromaBlock convert pSrc iPitchDst offsetU offsetV (i * iPitchSrc + 10 * k) (i * 4) (k * 4) ↔
      ∃ r c, r / 4 = i ∧ c / 2 = k ∧
        (x = (offsetU + r * iPitchDst + c, blockPicture convert pSrc iPitchSrc r (2 * c)) ∨
          x = (offsetV + r * iPitchDst + c, blockPicture convert pSrc iPitchSrc r (2 * c + 1))) := by
  have hplace (base r c e : ℕ) (hr : r = i * 4 + e / 4) (hc : c = k * 2 + e % 4 / 2) :
      base + i * 4 * iPitchDst + k * 4 / 2 + e / 4 * iPitchDst + e % 4 / 2 =
        base + r * iPitchDst + c := by
    rw [hr, hc, Nat.add_mul]
    omega
  unfold chromaBlock
  rw [untile4x4ChromaBlock10bToPlanar_eq fun j => hword _, List.mem_map]
  simp only [List.mem_range]
  constructor
  · rintro ⟨e, he, rfl⟩
    refine ⟨i * 4 + e / 4, k * 2 + e % 4 / 2, by omega, by omega, ?_⟩
    rw [← @blockPicture_block convert pSrc iPitchSrc i k e he]
    by_cases heven : e % 2 = 0
    · have hcol : k * 4 + e % 4 = 2 * (k * 2 + e % 4 / 2) := by omega
      rw [if_pos heven, hplace _ _ _ e rfl rfl, hcol]
      exact .inl rfl
    · have hcol : k * 4 + e % 4 = 2 * (k * 2 + e % 4 / 2) + 1 := by omega
      rw [if_neg heven, hplace _ _ _ e rfl rfl, hcol]
      exact .inr rfl
  · rintro ⟨r, c, rfl, rfl, rfl | rfl⟩
    · have he : r % 4 * 4 + c % 2 * 2 < 16 := by omega
      refine ⟨r % 4 * 4 + c % 2 * 2, he, ?_⟩
      have hr : r / 4 * 4 + (r % 4 * 4 + c % 2 * 2) / 4 = r := by omega
      have hc : c / 2 * 4 + (r % 4 * 4 + c % 2 * 2) % 4 = 2 * c := by omega
      rw [← @blockPicture_block convert pSrc iPitchSrc (r / 4) (c / 2) _ he, hr, hc,
        if_pos (by omega), hplace _ r c _ (by omega) (by omega)]
    · have he : r % 4 * 4 + c % 2 * 2 + 1 < 16 := by omega
      refine ⟨r % 4 * 4 + c % 2 * 2 + 1, he, ?_⟩
      have hr : r / 4 * 4 + (r % 4 * 4 + c % 2 * 2 + 1) / 4 = r := by omega
      have hc : c / 2 * 4 + (r % 4 * 4 + c % 2 * 2 + 1) % 4 = 2 * c + 1 := by omega
      rw [← @blockPicture_block convert pSrc iPitchSrc (r / 4) (c / 2) _ he, hr, hc,
        if_neg (by omega), hplace _ r c _ (by omega) (by omega)]

/-- Where no row is cropped, U and V are painted one behind the other. -/
theorem chromaBlock_paints
    (hwalks : Walks stores iPitchSrc iWidth iHeight) (hword : ∀ i, pSrc i < 2 ^ 16)
    (hheight : iHeight % 4 = 0) (hwidth : (iWidth + 3) / 4 * 2 ≤ iPitchDst) :
    Paints (stores (chromaBlock convert pSrc iPitchDst 0 (iPitchDst * iHeight))) iPitchDst
        (2 * iHeight) (iWidth / 2)
        (stacked iHeight (fun r c => blockPicture convert pSrc iPitchSrc r (2 * c))
          fun r c => blockPicture convert pSrc iPitchSrc r (2 * c + 1)) ∧
      Paints (stores (chromaBlock convert pSrc iPitchDst (iPitchDst * iHeight) 0)) iPitchDst
        (2 * iHeight) (iWidth / 2)
        (stacked iHeight (fun r c => blockPicture convert pSrc iPitchSrc r (2 * c + 1))
          fun r c => blockPicture convert pSrc iPitchSrc r (2 * c)) := by
  have hmem (offsetU offsetV : ℕ) (x : ℕ × ℕ) :
      x ∈ stores (chromaBlock convert pSrc iPitchDst offsetU offsetV) ↔
        ∃ i < (iHeight + 3) / 4, ∃ k < (iWidth + 3) / 4, ∃ r c, r / 4 = i ∧ c / 2 = k ∧
          (x = (offsetU + r * iPitchDst + c, blockPicture convert pSrc iPitchSrc r (2 * c)) ∨
            x = (offsetV + r * iPitchDst + c,
              blockPicture convert pSrc iPitchSrc r (2 * c + 1))) := by
    rw [hwalks]
    simp only [mem_chromaBlock hword]
  have hfirst (r c : ℕ) : 0 + r * iPitchDst + c = r * iPitchDst + c := by rw [Nat.zero_add]
  have hsecond (r c : ℕ) : iPitchDst * iHeight + r * iPitchDst + c =
      r * iPitchDst + iPitchDst * iHeight + c := by
    rw [Nat.add_comm (iPitchDst * iHeight)]
  constructor
  · refine stacked_paints_of_reach (fun w hw => ?_) fun r hr c hc => ?_
    · obtain ⟨i, hi, k, hk, r, c, rfl, rfl, hw⟩ := (hmem _ _ w).mp hw
      rw [hfirst, hsecond] at hw
      exact ⟨r, by omega, c, by omega, hw⟩
    · have hblock := (hmem 0 (iPitchDst * iHeight))
      rw [← hfirst r c, ← hsecond r c]
      exact ⟨(hblock _).mpr ⟨r / 4, by omega, c / 2, by omega, r, c, rfl, rfl, .inl rfl⟩,
        (hblock _).mpr ⟨r / 4, by omega, c / 2, by omega, r, c, rfl, rfl, .inr rfl⟩⟩
  · refine stacked_paints_of_reach (fun w hw => ?_) fun r hr c hc => ?_
    · obtain ⟨i, hi, k, hk, r, c, rfl, rfl, hw⟩ := (hmem _ _ w).mp hw
      rw [hfirst, hsecond] at hw
      exact ⟨r, by omega, c, by omega, hw.symm⟩
    · have hblock := (hmem (iPitchDst * iHeight) 0)
      rw [← hfirst r c, ← hsecond r c]
      exact ⟨(hblock _).mpr ⟨r / 4, by omega, c / 2, by omega, r, c, rfl, rfl, .inr rfl⟩,
        (hblock _).mpr ⟨r / 4, by omega, c / 2, by omega, r, c, rfl, rfl, .inl rfl⟩⟩

theorem untilePlane_walks (hpointer : iHeight % 4 = 0 ∨ iWidth ≤ 64) :
    Walks (fun block => untilePlane block iPitchSrc iWidth iHeight) iPitchSrc iWidth iHeight :=
  fun _ _ => mem_untilePlane hpointer

theorem untileAll_walks {iJump : ℕ}
    (hjump : 10 * ((iWidth + 3) / 4) + iJump = iPitchSrc ∨ iHeight ≤ 4) :
    Walks (fun block => untileAll block iWidth iHeight iJump) iPitchSrc iWidth iHeight :=
  fun _ _ => mem_untileAll hjump

end Blocks

/-! ## The routines -/

/-- The sample of ten bits in a row and a column of a tiled plane. -/
def SamplePlane.tileCell (p : SamplePlane) (r c : ℕ) : ℕ :=
  blockPicture id p.data (p.iPitch / 2) r c

/-- A picture of ten bits in tiles of 64 times 4 samples. -/
structure TileShows (buf : SampleBuffer) (pic : YuvPicture) : Prop where
  wordY : ∀ i, buf.y.data i < 2 ^ 16
  wordUV : ∀ i, buf.uv.data i < 2 ^ 16
  pitchUV : buf.uv.iPitch % 2 = 0 ∧ pic.width * 5 ≤ buf.uv.iPitch
  luma : Shows buf.y.tileCell pic.height pic.width pic.y
  chroma : Shows buf.uv.tileCell pic.heightC pic.width pic.chroma

def t60aToY800 (pSrc pDst : SampleBuffer) (iWidth iHeight : ℕ) : SampleBuffer :=
  { pDst with
    y := pDst.y.storeAll (untilePlane (lumaBlock rnd10bTo8b pSrc.y.data pDst.y.iPitch)
      (pSrc.y.iPitch / 2) iWidth iHeight) }

def t62aToY800 : SampleBuffer → SampleBuffer → ℕ → ℕ → SampleBuffer := t60aToY800

def t60aToPlanar8b (bDstUFirst : Bool) (pSrc pDst : SampleBuffer) (iWidth iHeight : ℕ) :
    SampleBuffer :=
  let iHeightC := iHeight >>> 1
  let iOffsetC := pDst.uv.iPitch * iHeightC
  { t60aToY800 pSrc pDst iWidth iHeight with
    uv := pDst.uv.storeAll (untilePlane
      (chromaBlock rnd10bTo8b pSrc.uv.data pDst.uv.iPitch (if bDstUFirst then 0 else iOffsetC)
        (if bDstUFirst then iOffsetC else 0)) (pSrc.uv.iPitch / 2) iWidth iHeightC) }

def t60aToI420 : SampleBuffer → SampleBuffer → ℕ → ℕ → SampleBuffer := t60aToPlanar8b true

def t60aToYv12 : SampleBuffer → SampleBuffer → ℕ → ℕ → SampleBuffer := t60aToPlanar8b false

def t60aToNv12 (pSrc pDst : SampleBuffer) (iWidth iHeight : ℕ) : SampleBuffer :=
  { t60aToY800 pSrc pDst iWidth iHeight with
    uv := pDst.uv.storeAll (untilePlane (lumaBlock rnd10bTo8b pSrc.uv.data pDst.uv.iPitch)
      (pSrc.uv.iPitch / 2) iWidth (iHeight >>> 1)) }

def t62aToI422 (pSrc pDst : SampleBuffer) (iWidth iHeight : ℕ) : SampleBuffer :=
  let iJump := (pSrc.uv.iPitch - iWidth * 5) / 2
  { t60aToY800 pSrc pDst iWidth iHeight with
    uv := pDst.uv.storeAll (untileAll (chromaBlock rnd10bTo8b pSrc.uv.data pDst.uv.iPitch 0
      (pDst.uv.iPitch * iHeight)) iWidth iHeight iJump) }

/-- The stores of the chroma in `T62A_To_NV16`: the destination goes back by three rows behind each
block, as if the block had moved it. -/
def nv16Stores (pSrc : ℕ → ℕ) (iJump iPitchDst iWidth iHeight : ℕ) : List (ℤ × ℕ) :=
  (walk (fun (p : ℕ × ℤ) (_ : ℕ) =>
    let blocks := walk (fun (p : ℕ × ℤ) (_ : ℕ) =>
      ((p.1 + 10, p.2 - (3 * (iPitchDst : ℤ) - 4)),
        (untile4x4Block10b (fun j => pSrc (p.1 + j)) 0 iPitchDst rnd10bTo8b).map fun w =>
          (p.2 + w.1, w.2))) p (List.range ((iWidth + 3) / 4))
    ((blocks.1.1 + iJump, blocks.1.2 + ((iPitchDst : ℤ) * 4 - iWidth)), blocks.2))
    (0, 0) (List.range ((iHeight + 3) / 4))).2

/-- A store in front of the plane does not reach its elements. -/
def inPlane (w : ℤ × ℕ) : Option (ℕ × ℕ) := if 0 ≤ w.1 then some (w.1.toNat, w.2) else none

def t62aToNv16 (pSrc pDst : SampleBuffer) (iWidth iHeight : ℕ) : SampleBuffer :=
  let iJump := (pSrc.uv.iPitch - iWidth * 5) / 2
  { t60aToY800 pSrc pDst iWidth iHeight with
    uv := pDst.uv.storeAll
      ((nv16Stores pSrc.uv.data iJump pDst.uv.iPitch iWidth iHeight).filterMap inPlane) }

/-! ## What they show -/

section Conversions

variable {pSrc pDst : SampleBuffer} {pic : YuvPicture}

variable {stores : (ℕ → ℕ → ℕ → List (ℕ × ℕ)) → List (ℕ × ℕ)}

/-- Blocks of luma show the converted picture of a tiled plane. -/
theorem lumaBlock_shows {f : ℕ → ℕ}
    {src : SamplePlane} {picture : ℕ → ℕ → ℕ} {pitch rows cols : ℕ} (a : ℕ → ℕ)
    (hwalks : Walks stores (src.iPitch / 2) cols rows) (hword : ∀ i, src.data i < 2 ^ 16)
    (hwidth : (cols + 3) / 4 * 4 ≤ pitch) (hsrc : Shows src.tileCell rows cols picture) :
    Shows (cell (storeAll a (stores (lumaBlock f src.data pitch))) pitch) rows cols
      fun r c => f (picture r c) := by
  intro r hr c hc
  refine ((lumaBlock_paints hwalks hword hwidth).shows (by omega) a r hr c hc).trans ?_
  exact congrArg f (hsrc r hr c hc)

theorem t60aToY800_shows (hsrc : TileShows pSrc pic)
    (hpointer : pic.height % 4 = 0 ∨ pic.width ≤ 64)
    (hpitch : (pic.width + 3) / 4 * 4 ≤ pDst.y.iPitch) :
    RasterShows 1 .none (t60aToY800 pSrc pDst pic.width pic.height) (pic.map rnd10bTo8b) := by
  unfold RasterShows
  simp only [Nat.div_one]
  exact ⟨lumaBlock_shows _ (untilePlane_walks hpointer) hsrc.wordY hpitch hsrc.luma, trivial⟩

theorem t60aToNv12_shows (hscale : pic.uVrtCScale = 2) (hsrc : TileShows pSrc pic)
    (hpointer : pic.height % 4 = 0 ∧ pic.heightC % 4 = 0 ∨ pic.width ≤ 64)
    (hpitch : (pic.width + 3) / 4 * 4 ≤ pDst.y.iPitch ∧ (pic.width + 3) / 4 * 4 ≤ pDst.uv.iPitch) :
    RasterShows 1 .semiPlanar (t60aToNv12 pSrc pDst pic.width pic.height) (pic.map rnd10bTo8b) := by
  have hluma := t60aToY800_shows hsrc (hpointer.imp_left And.left) hpitch.1
  unfold RasterShows at hluma ⊢
  simp only [Nat.div_one] at hluma ⊢
  refine ⟨hluma.1, fun r hr c hc => ?_⟩
  unfold t60aToNv12
  rw [pic.height_half hscale]
  refine (lumaBlock_shows pDst.uv.data (untilePlane_walks (hpointer.imp_left And.right)) hsrc.wordUV
    hpitch.2 hsrc.chroma r hr c hc).trans ?_
  exact alternate_map rnd10bTo8b _ _ c

theorem tileCell_chroma (hsrc : TileShows pSrc pic) {r c : ℕ} (hr : r < pic.heightC)
    (hc : c < pic.widthC) : pSrc.uv.tileCell r (2 * c) = pic.u r c ∧
      pSrc.uv.tileCell r (2 * c + 1) = pic.v r c := by
  have hlt : 2 * c + 1 < pic.width := by
    unfold YuvPicture.width
    omega
  exact ⟨(hsrc.chroma r hr _ (by omega)).trans (alternate_even _ _ _),
    (hsrc.chroma r hr _ hlt).trans (alternate_odd _ _ _)⟩

theorem chromaBlock_shows {f : ℕ → ℕ}
    {pitch : ℕ} (a : ℕ → ℕ) (hwalks : Walks stores (pSrc.uv.iPitch / 2) pic.width pic.heightC)
    (hsrc : TileShows pSrc pic) (hheight : pic.heightC % 4 = 0)
    (hpitch : (pic.width + 3) / 4 * 2 ≤ pitch) :
    Shows (cell (storeAll a (stores (chromaBlock f pSrc.uv.data pitch 0 (pitch * pic.heightC))))
        pitch) (2 * pic.heightC) pic.widthC
        (stacked pic.heightC (fun r c => f (pic.u r c)) fun r c => f (pic.v r c)) ∧
      Shows (cell (storeAll a (stores (chromaBlock f pSrc.uv.data pitch (pitch * pic.heightC) 0)))
        pitch) (2 * pic.heightC) pic.widthC
        (stacked pic.heightC (fun r c => f (pic.v r c)) fun r c => f (pic.u r c)) := by
  have hpaints := @chromaBlock_paints f pSrc.uv.data _ pitch _ _ _ hwalks hsrc.wordUV hheight hpitch
  have hcols : pic.width / 2 ≤ pitch := by omega
  constructor
  · intro r hr c hc
    refine (hpaints.1.shows hcols a r hr c (by rw [pic.width_div]; exact hc)).trans ?_
    exact stacked_congr hr (fun q hq => congrArg f (tileCell_chroma hsrc hq hc).1)
      fun q hq => congrArg f (tileCell_chroma hsrc hq hc).2
  · intro r hr c hc
    refine (hpaints.2.shows hcols a r hr c (by rw [pic.width_div]; exact hc)).trans ?_
    exact stacked_congr hr (fun q hq => congrArg f (tileCell_chroma hsrc hq hc).2)
      fun q hq => congrArg f (tileCell_chroma hsrc hq hc).1

theorem t60aToI420_shows (hscale : pic.uVrtCScale = 2) (hsrc : TileShows pSrc pic)
    (hheight : pic.heightC % 4 = 0)
    (hpitch : (pic.width + 3) / 4 * 4 ≤ pDst.y.iPitch ∧ (pic.width + 3) / 4 * 2 ≤ pDst.uv.iPitch) :
    RasterShows 1 .uFirst (t60aToI420 pSrc pDst pic.width pic.height) (pic.map rnd10bTo8b) := by
  have hpointer : pic.height % 4 = 0 := by
    unfold YuvPicture.height
    rw [hscale]
    omega
  have hluma := t60aToY800_shows hsrc (.inl hpointer) hpitch.1
  unfold RasterShows at hluma ⊢
  simp only [Nat.div_one] at hluma ⊢
  refine ⟨hluma.1, fun r hr c hc => ?_⟩
  unfold t60aToI420 t60aToPlanar8b
  rw [pic.height_half hscale]
  exact (chromaBlock_shows pDst.uv.data (untilePlane_walks (.inl hheight)) hsrc hheight
    hpitch.2).1 r hr c hc

theorem t60aToYv12_shows (hscale : pic.uVrtCScale = 2) (hsrc : TileShows pSrc pic)
    (hheight : pic.heightC % 4 = 0)
    (hpitch : (pic.width + 3) / 4 * 4 ≤ pDst.y.iPitch ∧ (pic.width + 3) / 4 * 2 ≤ pDst.uv.iPitch) :
    RasterShows 1 .vFirst (t60aToYv12 pSrc pDst pic.width pic.height) (pic.map rnd10bTo8b) := by
  have hpointer : pic.height % 4 = 0 := by
    unfold YuvPicture.height
    rw [hscale]
    omega
  have hluma := t60aToY800_shows hsrc (.inl hpointer) hpitch.1
  unfold RasterShows at hluma ⊢
  simp only [Nat.div_one] at hluma ⊢
  refine ⟨hluma.1, fun r hr c hc => ?_⟩
  unfold t60aToYv12 t60aToPlanar8b
  rw [pic.height_half hscale]
  exact (chromaBlock_shows pDst.uv.data (untilePlane_walks (.inl hheight)) hsrc hheight
    hpitch.2).2 r hr c hc

theorem t62aToI422_shows (hscale : pic.uVrtCScale = 1) (hsrc : TileShows pSrc pic)
    (hheight : pic.height % 4 = 0) (hjump : pic.width % 4 = 0 ∨ pic.height ≤ 4)
    (hpitch : (pic.width + 3) / 4 * 4 ≤ pDst.y.iPitch ∧ (pic.width + 3) / 4 * 2 ≤ pDst.uv.iPitch) :
    RasterShows 1 .uFirst (t62aToI422 pSrc pDst pic.width pic.height) (pic.map rnd10bTo8b) := by
  have hsame : pic.height = pic.heightC := by
    unfold YuvPicture.height
    rw [hscale, Nat.one_mul]
  have hluma := t60aToY800_shows hsrc (.inl hheight) hpitch.1
  unfold RasterShows at hluma ⊢
  simp only [Nat.div_one] at hluma ⊢
  refine ⟨hluma.1, fun r hr c hc => ?_⟩
  have hwalks : Walks (fun block => untileAll block pic.width pic.height
      ((pSrc.uv.iPitch - pic.width * 5) / 2)) (pSrc.uv.iPitch / 2) pic.width pic.height := by
    have hwide := hsrc.pitchUV
    exact untileAll_walks (hjump.imp_left fun h => by omega)
  unfold t62aToI422
  rw [hsame] at hheight hwalks ⊢
  exact (chromaBlock_shows pDst.uv.data hwalks hsrc hheight hpitch.2).1 r hr c hc

theorem nv16Stores_single {iJump iPitchDst iWidth iHeight : ℕ} (p : ℕ → ℕ) (hwidth : 0 < iWidth)
    (hwidth' : iWidth ≤ 4) (hheight : 0 < iHeight) (hheight' : iHeight ≤ 4) :
    (nv16Stores p iJump iPitchDst iWidth iHeight).filterMap inPlane =
      lumaBlock rnd10bTo8b p iPitchDst 0 0 0 := by
  have hcols : (iWidth + 3) / 4 = 1 := by omega
  have hrows : (iHeight + 3) / 4 = 1 := by omega
  unfold nv16Stores
  rw [hcols, hrows]
  simp only [List.range_one, walk, List.append_nil]
  have hplane : (inPlane ∘ fun w : ℕ × ℕ => ((0 : ℤ) + (w.1 : ℤ), w.2)) = some := by
    funext w
    have hplace : 0 ≤ (0 : ℤ) + (w.1 : ℤ) := by omega
    unfold inPlane
    rw [Function.comp_apply, if_pos hplace, zero_add, Int.toNat_natCast]
  rw [List.filterMap_map, hplane, List.filterMap_some]
  unfold lumaBlock
  rw [Nat.zero_mul]

/-- With one block the destination does not have to go on. -/
theorem t62aToNv16_shows (hscale : pic.uVrtCScale = 1) (hsrc : TileShows pSrc pic)
    (hone : pic.width ≤ 4 ∧ pic.height ≤ 4)
    (hpitch : (pic.width + 3) / 4 * 4 ≤ pDst.y.iPitch ∧ (pic.width + 3) / 4 * 4 ≤ pDst.uv.iPitch) :
    RasterShows 1 .semiPlanar (t62aToNv16 pSrc pDst pic.width pic.height) (pic.map rnd10bTo8b) := by
  have hsame : pic.height = pic.heightC := by
    unfold YuvPicture.height
    rw [hscale, Nat.one_mul]
  have hluma := t60aToY800_shows hsrc (.inr (by omega)) hpitch.1
  unfold RasterShows at hluma ⊢
  simp only [Nat.div_one] at hluma ⊢
  refine ⟨hluma.1, fun r hr c hc => ?_⟩
  have hr : r < pic.heightC := hr
  have hc : c < pic.width := hc
  have hwalks : Walks (fun block => block 0 0 0) (pSrc.uv.iPitch / 2) pic.width pic.heightC := by
    intro block x
    have hcols : (pic.width + 3) / 4 = 1 := by omega
    have hrows : (pic.heightC + 3) / 4 = 1 := by omega
    rw [hcols, hrows]
    simp
  unfold t62aToNv16
  dsimp only
  rw [nv16Stores_single pSrc.uv.data (by omega) hone.1 (by omega) hone.2]
  refine (lumaBlock_shows pDst.uv.data hwalks hsrc.wordUV hpitch.2 hsrc.chroma r hr c hc).trans ?_
  exact alternate_map rnd10bTo8b _ _ c

end Conversions

end VcuCodec
