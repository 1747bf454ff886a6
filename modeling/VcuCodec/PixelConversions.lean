import VcuCodec.PackedSamples

/-!
# Conversions between pixel formats

The routines of `lib_app/convert.cpp` for 10-bit formats in rasters and words.  A plane has its
elements (bytes, words of 16 or of 32 bits) from its address on; the pitch is in bytes.  The stores
of a routine are listed in their order.
-/

namespace VcuCodec

open RasterStores

structure SamplePlane where
  data : ℕ → ℕ
  iPitch : ℕ

/-- The planes of a pixel buffer. -/
structure SampleBuffer where
  y : SamplePlane
  uv : SamplePlane

def SamplePlane.storeAll (p : SamplePlane) (ws : List (ℕ × ℕ)) : SamplePlane :=
  { p with data := RasterStores.storeAll p.data ws }

/-! ## Depths -/

def rnd10bTo8b (val : ℕ) : ℕ := if 0x3FC ≤ val then 0xFF else (val + 2) >>> 2 % 2 ^ 8

/-- The conversion that the other routines write out. -/
def castTo8b (val : ℕ) : ℕ := (2 + val) >>> 2 % 2 ^ 8

/-! ## Rows -/

variable (convert : ℕ → ℕ) (put get : ℕ → ℕ → ℕ) (pSrc : ℕ → ℕ)
  (iPitchSrc iPitchDst iWidth iHeight : ℕ)

/-- Rows whose samples are converted one by one. -/
def convertRows : List (ℕ × ℕ) :=
  (List.range iHeight).flatMap fun iH => (List.range iWidth).map fun iW =>
    (iH * iPitchDst + iW, convert (pSrc (iH * iPitchSrc + iW)))

/-- Rows whose samples go to U and V in turns, with V behind all rows of U. -/
def splitRows : List (ℕ × ℕ) :=
  (List.range iHeight).flatMap fun iH => (List.range iWidth).flatMap fun iW =>
    [(iH * iPitchDst + iW, convert (pSrc (iH * iPitchSrc + 2 * iW))),
      (iPitchDst * iHeight + (iH * iPitchDst + iW), convert (pSrc (iH * iPitchSrc + 2 * iW + 1)))]

/-- Rows that take their samples from U and V in turns. -/
def mergeRows : List (ℕ × ℕ) :=
  (List.range iHeight).flatMap fun iH => (List.range iWidth).flatMap fun iW =>
    [(iH * iPitchDst + 2 * iW, convert (pSrc (iH * iPitchSrc + iW))),
      (iH * iPitchDst + 2 * iW + 1, convert (pSrc (iPitchSrc * iHeight + (iH * iPitchSrc + iW))))]

/-- Elements that are stored at a pointer that moves on. -/
def storeRow (pDst : ℕ) (values : List ℕ) : List (ℕ × ℕ) :=
  values.mapIdx fun i x => (pDst + i, x)

def storeRows : ℕ → ℕ → List (Bool × ℕ) → List (ℕ × ℕ)
  | _, _, [] => []
  | pDstU, pDstV, (true, x) :: values => (pDstU, x) :: storeRows (pDstU + 1) pDstV values
  | pDstU, pDstV, (false, x) :: values => (pDstV, x) :: storeRows pDstU (pDstV + 1) values

def unpackRows : List (ℕ × ℕ) :=
  (List.range iHeight).flatMap fun h =>
    storeRow (h * iPitchDst) (unpackRow get iWidth fun k => pSrc (h * iPitchSrc + k))

/-- Rows of words of chroma whose samples go to U and V. -/
def unpackChromaRows (offsetU offsetV : ℕ) : List (ℕ × ℕ) :=
  (List.range iHeight).flatMap fun h =>
    storeRows (h * iPitchDst + offsetU) (h * iPitchDst + offsetV)
      (unpackChromaRow get iWidth fun k => pSrc (h * iPitchSrc + k))

/-! ## What they paint -/

section Paints

variable {convert put get pSrc iPitchSrc iPitchDst iWidth iHeight}

theorem convertRows_paints (hwidth : iWidth ≤ iPitchDst) :
    Paints (convertRows convert pSrc iPitchSrc iPitchDst iWidth iHeight) iPitchDst iHeight iWidth
      fun r c => convert (cell pSrc iPitchSrc r c) := by
  unfold convertRows
  constructor
  · intro w hw
    obtain ⟨r, -, hw⟩ := List.mem_flatMap.mp hw
    obtain ⟨c, hc, rfl⟩ := List.mem_map.mp hw
    exact ⟨r, c, lt_of_lt_of_le (List.mem_range.mp hc) hwidth, rfl⟩
  · intro r hr c hc
    exact List.mem_flatMap.mpr ⟨r, List.mem_range.mpr hr,
      List.mem_map.mpr ⟨c, List.mem_range.mpr hc, rfl⟩⟩

variable {top bottom : ℕ → ℕ → ℕ} {ws : List (ℕ × ℕ)}

/-- Stores to U and V, one of which is behind all rows of the other. -/
theorem stacked_paints_of_reach
    (hin : ∀ w ∈ ws, ∃ r < iHeight, ∃ c < iPitchDst, w = (r * iPitchDst + c, top r c) ∨
      w = (r * iPitchDst + iPitchDst * iHeight + c, bottom r c))
    (hreach : ∀ r < iHeight, ∀ c < iWidth, (r * iPitchDst + c, top r c) ∈ ws ∧
      (r * iPitchDst + iPitchDst * iHeight + c, bottom r c) ∈ ws) :
    Paints ws iPitchDst (2 * iHeight) iWidth (stacked iHeight top bottom) := by
  have hlower (r c : ℕ) : r * iPitchDst + iPitchDst * iHeight + c = (iHeight + r) * iPitchDst + c := by
    ring
  constructor
  · intro w hw
    obtain ⟨r, hr, c, hc, rfl | rfl⟩ := hin w hw
    · exact ⟨r, c, hc, by rw [stacked_top hr]⟩
    · exact ⟨iHeight + r, c, hc, by rw [stacked_bottom, hlower]⟩
  · intro r hr c hc
    by_cases htop : r < iHeight
    · rw [stacked_top htop]
      exact (hreach r htop c hc).1
    · obtain ⟨q, rfl⟩ := Nat.exists_eq_add_of_le (Nat.le_of_not_lt htop)
      rw [stacked_bottom, ← hlower]
      exact (hreach q (by omega) c hc).2

theorem stacked_paints (hwidth : iWidth ≤ iPitchDst)
    (hmem : ∀ w, w ∈ ws ↔ ∃ r < iHeight, ∃ c < iWidth, w = (r * iPitchDst + c, top r c) ∨
      w = (r * iPitchDst + iPitchDst * iHeight + c, bottom r c)) :
    Paints ws iPitchDst (2 * iHeight) iWidth (stacked iHeight top bottom) := by
  refine stacked_paints_of_reach (fun w hw => ?_) fun r hr c hc => ?_
  · obtain ⟨r, hr, c, hc, hw⟩ := (hmem w).mp hw
    exact ⟨r, hr, c, lt_of_lt_of_le hc hwidth, hw⟩
  · exact ⟨(hmem _).mpr ⟨r, hr, c, hc, .inl rfl⟩, (hmem _).mpr ⟨r, hr, c, hc, .inr rfl⟩⟩

theorem splitRows_paints (hwidth : iWidth ≤ iPitchDst) :
    Paints (splitRows convert pSrc iPitchSrc iPitchDst iWidth iHeight) iPitchDst (2 * iHeight) iWidth
      (stacked iHeight (fun r c => convert (cell pSrc iPitchSrc r (2 * c)))
        fun r c => convert (cell pSrc iPitchSrc r (2 * c + 1))) := by
  refine stacked_paints hwidth fun w => ?_
  have hlower (r c : ℕ) : iPitchDst * iHeight + (r * iPitchDst + c) =
      r * iPitchDst + iPitchDst * iHeight + c := by ring
  unfold splitRows cell
  simp only [List.mem_flatMap, List.mem_range, List.mem_cons, List.not_mem_nil, or_false, hlower,
    Nat.add_assoc]

theorem mergeRows_paints (hwidth : 2 * iWidth ≤ iPitchDst) :
    Paints (mergeRows convert pSrc iPitchSrc iPitchDst iWidth iHeight) iPitchDst iHeight (2 * iWidth)
      fun r => alternate (fun c => convert (cell pSrc iPitchSrc r c))
        fun c => convert (cell pSrc iPitchSrc (iHeight + r) c) := by
  have hlower (r c : ℕ) : iPitchSrc * iHeight + (r * iPitchSrc + c) =
      (iHeight + r) * iPitchSrc + c := by ring
  have hmem (w : ℕ × ℕ) : w ∈ mergeRows convert pSrc iPitchSrc iPitchDst iWidth iHeight ↔
      ∃ r < iHeight, ∃ c < iWidth,
        w = (r * iPitchDst + 2 * c, convert (cell pSrc iPitchSrc r c)) ∨
        w = (r * iPitchDst + (2 * c + 1), convert (cell pSrc iPitchSrc (iHeight + r) c)) := by
    unfold mergeRows cell
    simp only [List.mem_flatMap, List.mem_range, List.mem_cons, List.not_mem_nil, or_false, hlower,
      Nat.add_assoc]
  constructor
  · intro w hw
    obtain ⟨r, hr, c, hc, rfl | rfl⟩ := (hmem w).mp hw
    · exact ⟨r, 2 * c, by omega, by rw [alternate_even]⟩
    · exact ⟨r, 2 * c + 1, by omega, by rw [alternate_odd]⟩
  · intro r hr c hc
    rw [hmem]
    obtain ⟨k, rfl | rfl⟩ := Nat.even_or_odd' c
    · exact ⟨r, hr, k, by omega, .inl (by rw [alternate_even])⟩
    · exact ⟨r, hr, k, by omega, .inr (by rw [alternate_odd])⟩

theorem storeRow_map (pDst n : ℕ) (g : ℕ → ℕ) :
    storeRow pDst ((List.range n).map g) = (List.range n).map fun i => (pDst + i, g i) := by
  apply List.ext_getElem
  · simp [storeRow]
  · intro i hi hi'
    simp [storeRow]

theorem storeRow_paints {values : ℕ → List ℕ} {picture : ℕ → ℕ → ℕ} (hwidth : iWidth ≤ iPitchDst)
    (hvalues : ∀ r < iHeight, values r = (List.range iWidth).map (picture r)) :
    Paints ((List.range iHeight).flatMap fun h => storeRow (h * iPitchDst) (values h)) iPitchDst
      iHeight iWidth picture := by
  have hmem (w : ℕ × ℕ) :
      (w ∈ (List.range iHeight).flatMap fun h => storeRow (h * iPitchDst) (values h)) ↔
        ∃ r < iHeight, ∃ c < iWidth, (r * iPitchDst + c, picture r c) = w := by
    rw [List.mem_flatMap]
    apply exists_congr
    intro r
    rw [List.mem_range]
    apply and_congr_right
    intro hr
    rw [hvalues r hr, storeRow_map]
    simp only [List.mem_map, List.mem_range]
  constructor
  · intro w hw
    obtain ⟨r, -, c, hc, rfl⟩ := (hmem w).mp hw
    exact ⟨r, c, lt_of_lt_of_le hc hwidth, rfl⟩
  · intro r hr c hc
    exact (hmem _).mpr ⟨r, hr, c, hc, rfl⟩

theorem unpackRows_paints (hwidth : iWidth ≤ iPitchDst) :
    Paints (unpackRows get pSrc iPitchSrc iPitchDst iWidth iHeight) iPitchDst iHeight iWidth
      fun r c => get (c % 3) (cell pSrc iPitchSrc r (c / 3)) :=
  storeRow_paints hwidth fun _ _ => unpackRow_eq _

theorem storeRows_pairs (pDstU pDstV i n : ℕ) (g : ℕ → ℕ) :
    storeRows (pDstU + i) (pDstV + i)
        ((List.range' i n).flatMap fun k => [(true, g (2 * k)), (false, g (2 * k + 1))]) =
      (List.range' i n).flatMap fun k => [(pDstU + k, g (2 * k)), (pDstV + k, g (2 * k + 1))] := by
  induction n generalizing i with
  | zero => rfl
  | succ n ih =>
    rw [List.range'_succ, List.flatMap_cons, List.flatMap_cons]
    simp only [List.cons_append, List.nil_append, storeRows]
    rw [Nat.add_assoc, Nat.add_assoc, ih]

theorem mem_unpackChromaRows (heven : iWidth % 2 = 0) {offsetU offsetV : ℕ} (w : ℕ × ℕ) :
    w ∈ unpackChromaRows get pSrc iPitchSrc iPitchDst iWidth iHeight offsetU offsetV ↔
      ∃ r < iHeight, ∃ c < iWidth / 2,
        w = (r * iPitchDst + offsetU + c, get (2 * c % 3) (cell pSrc iPitchSrc r (2 * c / 3))) ∨
        w = (r * iPitchDst + offsetV + c,
          get ((2 * c + 1) % 3) (cell pSrc iPitchSrc r ((2 * c + 1) / 3))) := by
  have hpairs (g : ℕ → ℕ) : ((List.range iWidth).map fun c => (decide (c % 2 = 0), g c)) =
      (List.range' 0 (iWidth / 2)).flatMap fun k => [(true, g (2 * k)), (false, g (2 * k + 1))] := by
    have hsplit : iWidth = 2 * (iWidth / 2) := by omega
    rw [← List.range_eq_range', flatMap_rounds (fun c => (decide (c % 2 = 0), g c)), ← hsplit]
    intro k _
    have htrue : decide ((2 * k + 0) % 2 = 0) = true := decide_eq_true (by omega)
    have hfalse : decide ((2 * k + 1) % 2 = 0) = false := decide_eq_false (by omega)
    show _ = [(decide ((2 * k + 0) % 2 = 0), g (2 * k + 0)),
      (decide ((2 * k + 1) % 2 = 0), g (2 * k + 1))]
    rw [htrue, hfalse]
    rfl
  unfold unpackChromaRows
  rw [List.mem_flatMap]
  apply exists_congr
  intro r
  rw [List.mem_range]
  apply and_congr_right
  intro _
  have hstore := storeRows_pairs (r * iPitchDst + offsetU) (r * iPitchDst + offsetV) 0 (iWidth / 2)
    fun c => get (c % 3) (cell pSrc iPitchSrc r (c / 3))
  rw [Nat.add_zero, Nat.add_zero] at hstore
  rw [unpackChromaRow_eq heven]
  have hrow : storeRows (r * iPitchDst + offsetU) (r * iPitchDst + offsetV)
      ((List.range iWidth).map fun c =>
        (decide (c % 2 = 0), get (c % 3) (cell pSrc iPitchSrc r (c / 3)))) = _ :=
    (congrArg _ (hpairs _)).trans hstore
  show w ∈ storeRows _ _ ((List.range iWidth).map fun c =>
    (decide (c % 2 = 0), get (c % 3) (cell pSrc iPitchSrc r (c / 3)))) ↔ _
  rw [hrow]
  simp only [List.mem_flatMap, List.mem_range'_1, Nat.zero_le, true_and, Nat.zero_add, List.mem_cons,
    List.not_mem_nil, or_false]

theorem unpackChromaRows_paints (heven : iWidth % 2 = 0) (hwidth : iWidth / 2 ≤ iPitchDst) :
    Paints (unpackChromaRows get pSrc iPitchSrc iPitchDst iWidth iHeight 0 (iPitchDst * iHeight))
      iPitchDst (2 * iHeight) (iWidth / 2)
      (stacked iHeight (fun r c => get (2 * c % 3) (cell pSrc iPitchSrc r (2 * c / 3)))
        fun r c => get ((2 * c + 1) % 3) (cell pSrc iPitchSrc r ((2 * c + 1) / 3))) :=
  stacked_paints hwidth fun w => mem_unpackChromaRows heven w

theorem unpackChromaRows_paints_vFirst (heven : iWidth % 2 = 0) (hwidth : iWidth / 2 ≤ iPitchDst) :
    Paints (unpackChromaRows get pSrc iPitchSrc iPitchDst iWidth iHeight (iPitchDst * iHeight) 0)
      iPitchDst (2 * iHeight) (iWidth / 2)
      (stacked iHeight (fun r c => get ((2 * c + 1) % 3) (cell pSrc iPitchSrc r ((2 * c + 1) / 3)))
        fun r c => get (2 * c % 3) (cell pSrc iPitchSrc r (2 * c / 3))) := by
  refine stacked_paints hwidth fun w => ?_
  rw [mem_unpackChromaRows heven w]
  apply exists_congr
  intro r
  apply and_congr_right
  intro _
  apply exists_congr
  intro c
  apply and_congr_right
  intro _
  exact or_comm

end Paints

/-! ## Pictures in buffers -/

/-- A picture with chroma of half the width, and of the height or of half of it. -/
structure YuvPicture where
  widthC : ℕ
  heightC : ℕ
  uVrtCScale : ℕ
  scale : uVrtCScale = 1 ∨ uVrtCScale = 2
  y : ℕ → ℕ → ℕ
  u : ℕ → ℕ → ℕ
  v : ℕ → ℕ → ℕ

namespace YuvPicture

variable (pic : YuvPicture)

def width : ℕ := 2 * pic.widthC

def height : ℕ := pic.uVrtCScale * pic.heightC

/-- Every sample is converted. -/
def map (f : ℕ → ℕ) : YuvPicture :=
  { pic with
    y := fun r c => f (pic.y r c)
    u := fun r c => f (pic.u r c)
    v := fun r c => f (pic.v r c) }

/-- The row of chroma in which U and V take turns. -/
def chroma (r : ℕ) : ℕ → ℕ := alternate (pic.u r) (pic.v r)

theorem width_div : pic.width / 2 = pic.widthC := Nat.mul_div_cancel_left _ (by decide)

theorem width_mod : pic.width % 2 = 0 := Nat.mul_mod_right 2 _

theorem scale_dvd : pic.uVrtCScale ∣ pic.height := Dvd.intro _ rfl

theorem height_div : pic.height / pic.uVrtCScale = pic.heightC := by
  have hpos : 0 < pic.uVrtCScale := by
    rcases pic.scale with h | h
    · omega
    · omega
  exact Nat.mul_div_cancel_left _ hpos

theorem height_half (h : pic.uVrtCScale = 2) : pic.height >>> 1 = pic.heightC := by
  rw [Nat.shiftRight_eq_div_pow, pow_one, ← h, pic.height_div]

end YuvPicture

/-- What follows the luma: nothing, rows of U and V in turns, or U and V one behind the other. -/
inductive ChromaLayout
  | none
  | semiPlanar
  | uFirst
  | vFirst

/-- A picture in rasters of elements of `bytes` bytes. -/
def RasterShows (bytes : ℕ) (layout : ChromaLayout) (buf : SampleBuffer) (pic : YuvPicture) : Prop :=
  Shows (cell buf.y.data (buf.y.iPitch / bytes)) pic.height pic.width pic.y ∧
    match layout with
    | .none => True
    | .semiPlanar => Shows (cell buf.uv.data (buf.uv.iPitch / bytes)) pic.heightC pic.width pic.chroma
    | .uFirst => Shows (cell buf.uv.data (buf.uv.iPitch / bytes)) (2 * pic.heightC) pic.widthC
        (stacked pic.heightC pic.u pic.v)
    | .vFirst => Shows (cell buf.uv.data (buf.uv.iPitch / bytes)) (2 * pic.heightC) pic.widthC
        (stacked pic.heightC pic.v pic.u)

/-- The rows of a picture fit in the pitches. -/
def RasterFits (bytes : ℕ) (layout : ChromaLayout) (buf : SampleBuffer) (pic : YuvPicture) : Prop :=
  pic.width ≤ buf.y.iPitch / bytes ∧
    match layout with
    | .none => True
    | .semiPlanar => pic.width ≤ buf.uv.iPitch / bytes
    | .uFirst | .vFirst => pic.widthC ≤ buf.uv.iPitch / bytes

/-- The sample of ten bits in a column of a plane of words. -/
def SamplePlane.xvCell (p : SamplePlane) (r c : ℕ) : ℕ :=
  getTen (c % 3) (cell p.data (p.iPitch / 4) r (c / 3))

/-- A picture of ten bits in words of three samples. -/
structure XvShows (buf : SampleBuffer) (pic : YuvPicture) : Prop where
  pitchY : buf.y.iPitch % 4 = 0
  pitchUV : buf.uv.iPitch % 4 = 0
  luma : Shows buf.y.xvCell pic.height pic.width pic.y
  chroma : Shows buf.uv.xvCell pic.heightC pic.width pic.chroma

/-! ## The routines to eight bits -/

/-- A conversion of a buffer with these dimensions; `none` is a failed assertion. -/
abbrev Conversion : Type := SampleBuffer → SampleBuffer → ℕ → ℕ → Option SampleBuffer

def i0alToY800 (pSrc pDst : SampleBuffer) (iWidth iHeight : ℕ) : SampleBuffer :=
  { pDst with
    y := pDst.y.storeAll (convertRows castTo8b pSrc.y.data (pSrc.y.iPitch / 2) pDst.y.iPitch iWidth
      iHeight) }

def p010ToY800 : SampleBuffer → SampleBuffer → ℕ → ℕ → SampleBuffer := i0alToY800

def px10ToI42x (uHrzCScale uVrtCScale : ℕ) (pSrc pDst : SampleBuffer) (iWidth iHeight : ℕ) :
    SampleBuffer where
  y := pDst.y.storeAll (convertRows castTo8b pSrc.y.data (pSrc.y.iPitch / 2) pDst.y.iPitch iWidth
    iHeight)
  uv := pDst.uv.storeAll (splitRows castTo8b pSrc.uv.data (pSrc.uv.iPitch / 2) pDst.uv.iPitch
    (iWidth / uHrzCScale) (iHeight / uVrtCScale))

def p010ToI420 : SampleBuffer → SampleBuffer → ℕ → ℕ → SampleBuffer := px10ToI42x 2 2

def p210ToI422 : SampleBuffer → SampleBuffer → ℕ → ℕ → SampleBuffer := px10ToI42x 2 1

/-- `P010_To_YV12`, which has one row of all samples, whatever the pitches are. -/
def p010ToYv12 (pSrc pDst : SampleBuffer) (iWidth iHeight : ℕ) : SampleBuffer :=
  let iLumaSize := iWidth * iHeight
  let iChromaSize := iLumaSize >>> 2
  { y := pDst.y.storeAll ((List.range iLumaSize).map fun i => (i, castTo8b (pSrc.y.data i)))
    uv := pDst.uv.storeAll ((List.range iChromaSize).flatMap fun i =>
      [(iChromaSize + i, castTo8b (pSrc.uv.data (2 * i))),
        (i, castTo8b (pSrc.uv.data (2 * i + 1)))]) }

def p010ToNv12 (pSrc pDst : SampleBuffer) (iWidth iHeight : ℕ) : SampleBuffer where
  y := pDst.y.storeAll (convertRows castTo8b pSrc.y.data (pSrc.y.iPitch / 2) pDst.y.iPitch iWidth
    iHeight)
  uv := pDst.uv.storeAll (convertRows castTo8b pSrc.uv.data (pSrc.uv.iPitch / 2) pDst.uv.iPitch iWidth
    (iHeight >>> 1))

def ixalToI4xx (iHScale iVScale : ℕ) (pSrc pDst : SampleBuffer) (iWidth iHeight : ℕ) : SampleBuffer :=
  { i0alToY800 pSrc pDst iWidth iHeight with
    uv := pDst.uv.storeAll (convertRows castTo8b pSrc.uv.data (pSrc.uv.iPitch / 2) pDst.uv.iPitch
      (iWidth / iHScale) (iHeight * 2 / iVScale)) }

def i0alToI420 : SampleBuffer → SampleBuffer → ℕ → ℕ → SampleBuffer := ixalToI4xx 2 2

def ixalToNv1x (uHrzCScale uVrtCScale : ℕ) (pSrc pDst : SampleBuffer) (iWidth iHeight : ℕ) :
    SampleBuffer :=
  { i0alToY800 pSrc pDst iWidth iHeight with
    uv := pDst.uv.storeAll (mergeRows castTo8b pSrc.uv.data (pSrc.uv.iPitch / 2) pDst.uv.iPitch
      (iWidth / uHrzCScale) (iHeight / uVrtCScale)) }

def i0alToNv12 : SampleBuffer → SampleBuffer → ℕ → ℕ → SampleBuffer := ixalToNv1x 2 2

def i2alToNv16 : SampleBuffer → SampleBuffer → ℕ → ℕ → SampleBuffer := ixalToNv1x 2 1

def xv15ToY800 : Conversion := fun pSrc pDst iWidth iHeight =>
  if pSrc.y.iPitch % 4 = 0 then some
    { pDst with
      y := pDst.y.storeAll (unpackRows getEight pSrc.y.data (pSrc.y.iPitch / 4) pDst.y.iPitch iWidth
        iHeight) }
  else none

def xvxxToI42x (uVrtCScale : ℕ) : Conversion := fun pSrc pDst iWidth iHeight =>
  (xv15ToY800 pSrc pDst iWidth iHeight).bind fun pDst =>
    let iHeightC := iHeight / uVrtCScale
    if pSrc.uv.iPitch % 4 = 0 then some
      { pDst with
        uv := pDst.uv.storeAll (unpackChromaRows getEight pSrc.uv.data (pSrc.uv.iPitch / 4)
          pDst.uv.iPitch iWidth iHeightC 0 (pDst.uv.iPitch * iHeightC)) }
    else none

def xv15ToI420 : Conversion := xvxxToI42x 2

def xv20ToI422 : Conversion := xvxxToI42x 1

def xv15ToYv12 : Conversion := fun pSrc pDst iWidth iHeight =>
  (xv15ToY800 pSrc pDst iWidth iHeight).bind fun pDst =>
    let iHeightC := iHeight / 2
    if pSrc.uv.iPitch % 4 = 0 then some
      { pDst with
        uv := pDst.uv.storeAll (unpackChromaRows getEight pSrc.uv.data (pSrc.uv.iPitch / 4)
          pDst.uv.iPitch iWidth iHeightC (pDst.uv.iPitch * iHeightC) 0) }
    else none

def xvxxToNv1x (uVrtCScale : ℕ) : Conversion := fun pSrc pDst iWidth iHeight =>
  (xv15ToY800 pSrc pDst iWidth iHeight).bind fun pDst =>
    if pSrc.uv.iPitch % 4 = 0 then some
      { pDst with
        uv := pDst.uv.storeAll (unpackRows getEight pSrc.uv.data (pSrc.uv.iPitch / 4) pDst.uv.iPitch
          iWidth (iHeight / uVrtCScale)) }
    else none

def xv15ToNv12 : Conversion := xvxxToNv1x 2

def xv20ToNv16 : Conversion := xvxxToNv1x 1

/-! ## What they show -/

section Conversions

variable {pSrc pDst : SampleBuffer} {pic : YuvPicture} {f : ℕ → ℕ}

/-- Rows that are converted one by one show the converted picture. -/
theorem convertRows_shows {bytes rows cols : ℕ} {picture : ℕ → ℕ → ℕ} {src dst : SamplePlane}
    (hsrc : Shows (cell src.data (src.iPitch / bytes)) rows cols picture)
    (hfits : cols ≤ dst.iPitch) :
    Shows (cell (dst.storeAll (convertRows f src.data (src.iPitch / bytes) dst.iPitch cols rows)).data
      dst.iPitch) rows cols fun r c => f (picture r c) := by
  intro r hr c hc
  refine ((convertRows_paints hfits).shows hfits dst.data r hr c hc).trans ?_
  exact congrArg f (hsrc r hr c hc)

theorem i0alToY800_shows {layout : ChromaLayout} (hsrc : RasterShows 2 layout pSrc pic)
    (hdst : RasterFits 1 .none pDst pic) :
    RasterShows 1 .none (i0alToY800 pSrc pDst pic.width pic.height) (pic.map castTo8b) := by
  unfold RasterFits at hdst
  unfold RasterShows
  simp only [Nat.div_one] at hdst ⊢
  exact ⟨convertRows_shows hsrc.1 hdst.1, trivial⟩

theorem px10ToI42x_shows (hsrc : RasterShows 2 .semiPlanar pSrc pic)
    (hdst : RasterFits 1 .uFirst pDst pic) :
    RasterShows 1 .uFirst (px10ToI42x 2 pic.uVrtCScale pSrc pDst pic.width pic.height)
      (pic.map castTo8b) := by
  unfold RasterFits at hdst
  unfold RasterShows
  simp only [Nat.div_one] at hdst ⊢
  refine ⟨convertRows_shows hsrc.1 hdst.1, fun r hr c hc => ?_⟩
  unfold px10ToI42x
  rw [pic.width_div, pic.height_div]
  refine ((splitRows_paints hdst.2).shows hdst.2 pDst.uv.data r hr c hc).trans ?_
  have hc' : 2 * c + 1 < pic.width := by
    have hc' : c < pic.widthC := hc
    unfold YuvPicture.width
    omega
  refine stacked_congr hr (fun q hq => ?_) fun q hq => ?_
  · exact congrArg castTo8b ((hsrc.2 q hq _ (by omega)).trans (alternate_even _ _ _))
  · exact congrArg castTo8b ((hsrc.2 q hq _ hc').trans (alternate_odd _ _ _))

theorem p010ToNv12_shows (hscale : pic.uVrtCScale = 2) (hsrc : RasterShows 2 .semiPlanar pSrc pic)
    (hdst : RasterFits 1 .semiPlanar pDst pic) :
    RasterShows 1 .semiPlanar (p010ToNv12 pSrc pDst pic.width pic.height) (pic.map castTo8b) := by
  unfold RasterFits at hdst
  unfold RasterShows
  simp only [Nat.div_one] at hdst ⊢
  refine ⟨convertRows_shows hsrc.1 hdst.1, fun r hr c hc => ?_⟩
  unfold p010ToNv12
  rw [pic.height_half hscale]
  refine (convertRows_shows hsrc.2 hdst.2 r hr c hc).trans ?_
  exact alternate_map castTo8b _ _ c

theorem ixalToI4xx_shows (hsrc : RasterShows 2 .uFirst pSrc pic)
    (hdst : RasterFits 1 .uFirst pDst pic) :
    RasterShows 1 .uFirst (ixalToI4xx 2 pic.uVrtCScale pSrc pDst pic.width pic.height)
      (pic.map castTo8b) := by
  unfold RasterFits at hdst
  unfold RasterShows
  simp only [Nat.div_one] at hdst ⊢
  have hheight : pic.height * 2 / pic.uVrtCScale = 2 * pic.heightC := by
    rw [Nat.mul_comm, Nat.mul_div_assoc _ pic.scale_dvd, pic.height_div]
  refine ⟨convertRows_shows hsrc.1 hdst.1, fun r hr c hc => ?_⟩
  unfold ixalToI4xx
  rw [pic.width_div, hheight]
  refine (convertRows_shows hsrc.2 hdst.2 r hr c hc).trans ?_
  exact stacked_map castTo8b _ r c _ _

theorem ixalToNv1x_shows (hsrc : RasterShows 2 .uFirst pSrc pic)
    (hdst : RasterFits 1 .semiPlanar pDst pic) :
    RasterShows 1 .semiPlanar (ixalToNv1x 2 pic.uVrtCScale pSrc pDst pic.width pic.height)
      (pic.map castTo8b) := by
  unfold RasterFits at hdst
  unfold RasterShows
  simp only [Nat.div_one] at hdst ⊢
  refine ⟨convertRows_shows hsrc.1 hdst.1, fun r hr c hc => ?_⟩
  have hr : r < pic.heightC := hr
  have htop : ∀ k < pic.widthC, cell pSrc.uv.data (pSrc.uv.iPitch / 2) r k = pic.u r k := by
    intro k hk
    refine (hsrc.2 r (by omega) k hk).trans ?_
    rw [stacked_top hr]
  have hbottom : ∀ k < pic.widthC,
      cell pSrc.uv.data (pSrc.uv.iPitch / 2) (pic.heightC + r) k = pic.v r k := by
    intro k hk
    refine (hsrc.2 _ (by omega) k hk).trans ?_
    rw [stacked_bottom]
  unfold ixalToNv1x
  rw [pic.width_div, pic.height_div]
  refine ((mergeRows_paints hdst.2).shows hdst.2 pDst.uv.data r hr c hc).trans ?_
  exact alternate_congr hc (fun k hk => congrArg castTo8b (htop k hk))
    fun k hk => congrArg castTo8b (hbottom k hk)

/-- The pitches are those of rows without gaps. -/
structure Compact (pSrc pDst : SampleBuffer) (pic : YuvPicture) : Prop where
  srcY : pSrc.y.iPitch / 2 = pic.width
  srcUV : pSrc.uv.iPitch / 2 = pic.width
  dstY : pDst.y.iPitch = pic.width
  dstUV : pDst.uv.iPitch = pic.widthC

theorem p010ToYv12_shows (hscale : pic.uVrtCScale = 2) (hsrc : RasterShows 2 .semiPlanar pSrc pic)
    (hcompact : Compact pSrc pDst pic) :
    RasterShows 1 .vFirst (p010ToYv12 pSrc pDst pic.width pic.height) (pic.map castTo8b) := by
  have hsize : (pic.width * pic.height) >>> 2 = pic.widthC * pic.heightC := by
    unfold YuvPicture.width YuvPicture.height
    rw [hscale, Nat.shiftRight_eq_div_pow]
    apply Nat.div_eq_of_eq_mul_right (by decide)
    ring
  have hluma : Paints ((List.range (pic.width * pic.height)).map fun i =>
      (i, castTo8b (pSrc.y.data i))) pic.width pic.height pic.width
      fun r c => castTo8b (cell pSrc.y.data pic.width r c) := by
    have hmem (w : ℕ × ℕ) : (w ∈ (List.range (pic.width * pic.height)).map fun i =>
        (i, castTo8b (pSrc.y.data i))) ↔ ∃ r < pic.height, ∃ c < pic.width,
          (r * pic.width + c, castTo8b (cell pSrc.y.data pic.width r c)) = w := by
      rw [List.mem_map]
      simp only [List.mem_range]
      exact exists_place
    constructor
    · intro w hw
      obtain ⟨r, -, c, hc, rfl⟩ := (hmem w).mp hw
      exact ⟨r, c, hc, rfl⟩
    · intro r hr c hc
      exact (hmem _).mpr ⟨r, hr, c, hc, rfl⟩
  have hchroma : Paints ((List.range (pic.widthC * pic.heightC)).flatMap fun i =>
      [(pic.widthC * pic.heightC + i, castTo8b (pSrc.uv.data (2 * i))),
        (i, castTo8b (pSrc.uv.data (2 * i + 1)))]) pic.widthC (2 * pic.heightC) pic.widthC
      (stacked pic.heightC (fun r c => castTo8b (cell pSrc.uv.data pic.width r (2 * c + 1)))
        fun r c => castTo8b (cell pSrc.uv.data pic.width r (2 * c))) := by
    have heven (r c : ℕ) : 2 * (r * pic.widthC + c) = r * pic.width + 2 * c := by
      unfold YuvPicture.width
      ring
    refine stacked_paints le_rfl fun w => ?_
    rw [List.mem_flatMap]
    simp only [List.mem_range]
    refine exists_place.trans (exists_congr fun r => and_congr_right fun _ =>
      exists_congr fun c => and_congr_right fun _ => ?_)
    rw [heven, Nat.add_assoc, List.mem_cons, List.mem_singleton, or_comm, Nat.add_comm _ (r * _ + c),
      Nat.add_right_comm]
    rfl
  unfold RasterShows
  simp only [Nat.div_one]
  constructor
  · intro r hr c hc
    unfold p010ToYv12
    show cell (storeAll _ _) pDst.y.iPitch r c = _
    rw [hcompact.dstY]
    refine (hluma.shows le_rfl pDst.y.data r hr c hc).trans (congrArg castTo8b ?_)
    rw [← hcompact.srcY]
    exact hsrc.1 r hr c hc
  · intro r hr c hc
    unfold p010ToYv12
    show cell (storeAll _ _) pDst.uv.iPitch r c = _
    rw [hcompact.dstUV, hsize]
    have hc' : 2 * c + 1 < pic.width := by
      have hc' : c < pic.widthC := hc
      unfold YuvPicture.width
      omega
    refine (hchroma.shows le_rfl pDst.uv.data r hr c hc).trans ?_
    refine stacked_congr hr (fun q hq => congrArg castTo8b ?_) fun q hq => congrArg castTo8b ?_
    · rw [← hcompact.srcUV]
      exact (hsrc.2 q hq _ hc').trans (alternate_odd _ _ _)
    · rw [← hcompact.srcUV]
      exact (hsrc.2 q hq _ (by omega)).trans (alternate_even _ _ _)

theorem xv15ToY800_shows (hsrc : XvShows pSrc pic) (hdst : RasterFits 1 .none pDst pic) :
    ∃ out, xv15ToY800 pSrc pDst pic.width pic.height = some out ∧
      RasterShows 1 .none out (pic.map (· / 4)) ∧ out.uv = pDst.uv := by
  unfold RasterFits at hdst
  unfold RasterShows
  simp only [Nat.div_one] at hdst ⊢
  unfold xv15ToY800
  rw [if_pos hsrc.pitchY]
  refine ⟨_, rfl, ⟨fun r hr c hc => ?_, trivial⟩, rfl⟩
  refine ((unpackRows_paints hdst.1).shows hdst.1 pDst.y.data r hr c hc).trans ?_
  rw [getEight_eq]
  exact congrArg (· / 4) (hsrc.luma r hr c hc)

theorem xvCell_chroma (hsrc : XvShows pSrc pic) {r c : ℕ} (hr : r < pic.heightC)
    (hc : c < pic.widthC) : pSrc.uv.xvCell r (2 * c) = pic.u r c ∧
      pSrc.uv.xvCell r (2 * c + 1) = pic.v r c := by
  have hlt : 2 * c + 1 < pic.width := by
    unfold YuvPicture.width
    omega
  exact ⟨(hsrc.chroma r hr _ (by omega)).trans (alternate_even _ _ _),
    (hsrc.chroma r hr _ hlt).trans (alternate_odd _ _ _)⟩

theorem xvxxToI42x_shows (hsrc : XvShows pSrc pic) (hdst : RasterFits 1 .uFirst pDst pic) :
    ∃ out, xvxxToI42x pic.uVrtCScale pSrc pDst pic.width pic.height = some out ∧
      RasterShows 1 .uFirst out (pic.map (· / 4)) := by
  obtain ⟨luma, hluma, hshows, huv⟩ := xv15ToY800_shows hsrc ⟨hdst.1, trivial⟩
  unfold RasterFits at hdst
  simp only [Nat.div_one] at hdst
  unfold xvxxToI42x
  rw [hluma, Option.bind_some, pic.height_div, if_pos hsrc.pitchUV, huv]
  refine ⟨_, rfl, hshows.1, fun r hr c hc => ?_⟩
  simp only [Nat.div_one]
  have hc : c < pic.widthC := hc
  have hpaints := @unpackChromaRows_paints getEight pSrc.uv.data (pSrc.uv.iPitch / 4) pDst.uv.iPitch
    pic.width pic.heightC pic.width_mod (by rw [pic.width_div]; exact hdst.2)
  rw [pic.width_div] at hpaints
  refine (hpaints.shows hdst.2 pDst.uv.data r hr c hc).trans ?_
  refine stacked_congr hr (fun q hq => ?_) fun q hq => ?_
  · rw [getEight_eq]
    exact congrArg (· / 4) (xvCell_chroma hsrc hq hc).1
  · rw [getEight_eq]
    exact congrArg (· / 4) (xvCell_chroma hsrc hq hc).2

theorem xv15ToYv12_shows (hscale : pic.uVrtCScale = 2) (hsrc : XvShows pSrc pic)
    (hdst : RasterFits 1 .vFirst pDst pic) :
    ∃ out, xv15ToYv12 pSrc pDst pic.width pic.height = some out ∧
      RasterShows 1 .vFirst out (pic.map (· / 4)) := by
  obtain ⟨luma, hluma, hshows, huv⟩ := xv15ToY800_shows hsrc ⟨hdst.1, trivial⟩
  unfold RasterFits at hdst
  simp only [Nat.div_one] at hdst
  unfold xv15ToYv12
  rw [hluma, Option.bind_some, ← hscale, pic.height_div, if_pos hsrc.pitchUV, huv]
  refine ⟨_, rfl, hshows.1, fun r hr c hc => ?_⟩
  simp only [Nat.div_one]
  have hc : c < pic.widthC := hc
  have hpaints := @unpackChromaRows_paints_vFirst getEight pSrc.uv.data (pSrc.uv.iPitch / 4)
    pDst.uv.iPitch pic.width pic.heightC pic.width_mod (by rw [pic.width_div]; exact hdst.2)
  rw [pic.width_div] at hpaints
  refine (hpaints.shows hdst.2 pDst.uv.data r hr c hc).trans ?_
  refine stacked_congr hr (fun q hq => ?_) fun q hq => ?_
  · rw [getEight_eq]
    exact congrArg (· / 4) (xvCell_chroma hsrc hq hc).2
  · rw [getEight_eq]
    exact congrArg (· / 4) (xvCell_chroma hsrc hq hc).1

theorem xvxxToNv1x_shows (hsrc : XvShows pSrc pic) (hdst : RasterFits 1 .semiPlanar pDst pic) :
    ∃ out, xvxxToNv1x pic.uVrtCScale pSrc pDst pic.width pic.height = some out ∧
      RasterShows 1 .semiPlanar out (pic.map (· / 4)) := by
  obtain ⟨luma, hluma, hshows, huv⟩ := xv15ToY800_shows hsrc ⟨hdst.1, trivial⟩
  unfold RasterFits at hdst
  simp only [Nat.div_one] at hdst
  unfold xvxxToNv1x
  rw [hluma, Option.bind_some, pic.height_div, if_pos hsrc.pitchUV, huv]
  refine ⟨_, rfl, hshows.1, fun r hr c hc => ?_⟩
  simp only [Nat.div_one]
  refine ((unpackRows_paints hdst.2).shows hdst.2 pDst.uv.data r hr c hc).trans ?_
  rw [getEight_eq]
  exact (congrArg (· / 4) (hsrc.chroma r hr c hc)).trans (alternate_map (· / 4) _ _ c)

end Conversions

end VcuCodec
