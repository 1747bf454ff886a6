import VcuCodec.MachineInts
import VcuCodec.PixelFormats

/-!
# The source buffers of the encoder

`lib_encode/SourceBufferChecker.c`, with the allocation sizes of `lib_common_enc/EncBuffers.c`.
The checker adds up the sizes of the planes of a chunk and does not look at their offsets: the
planes of the accepted frames lie in their chunks if and only if they end within these sums.
-/

namespace VcuCodec

/-- `AL_ESrcMode` -/
inductive SrcMode
  | nvx
  | tile64x4
  | comp64x4
  | tile32x4
  | comp32x4
  deriving DecidableEq

/-- `AL_GetSrcStorageMode` -/
def getSrcStorageMode : SrcMode → FbStorageMode
  | .tile64x4 | .comp64x4 => .tile64x4
  | .tile32x4 | .comp32x4 => .tile32x4
  | .nvx => .raster

/-- `AL_IsSrcCompressed` -/
def isSrcCompressed (_eSrcMode : SrcMode) : Bool := false

/-- `AL_EncGetSrcPicFormat` -/
def encGetSrcPicFormat (eChromaMode : ChromaMode) (uBitDepth : ℕ) (eStorageMode : FbStorageMode)
    (bIsCompressed : Bool) : PicFormat where
  eChromaMode := eChromaMode
  uBitDepth := uBitDepth
  eStorageMode := eStorageMode
  eChromaOrder := if eChromaMode = .mono then .noChroma else .semiplanar
  bCompressed := bIsCompressed
  b10bPacked := decide (eStorageMode = .raster ∧ uBitDepth = 10)

/-- `AL_EPlaneId` -/
inductive PlaneId
  | y
  | uv
  | mapY
  | mapUV
  deriving DecidableEq

/-- `AL_TPlane` -/
structure PixPlane where
  iChunkIdx : ℤ
  iOffset : ℤ
  iPitch : ℤ

/-- `AL_TPixMapMetaData` -/
structure PixMap where
  tDim : Dimension
  tFourCC : ℕ
  tPlanes : PlaneId → PixPlane

def bufferBadChunk : ℤ := -1
def bufferMaxChunk : ℕ := 3

/-- The parts of `AL_TBuffer` that are checked; a chunk that is not there has no bytes. -/
structure SrcBuffer where
  pixMap : Option PixMap
  sizeChunk : ℕ → ℕ

/-- `AL_PixMapBuffer_GetPlanePitch` -/
def PixMap.planePitch (m : PixMap) (ePlaneId : PlaneId) : ℤ :=
  if (m.tPlanes ePlaneId).iChunkIdx = bufferBadChunk then 0 else (m.tPlanes ePlaneId).iPitch

/-! ## Sizes -/

/-- `AL_GetAllocSizeSrc_Y` -/
def getAllocSizeSrcY (eSrcFmt : SrcMode) (iPitch iStrideHeight : ℤ) : ℕ :=
  toUInt32 ((toInt32 (iStrideHeight * iPitch)).tdiv (getNumLinesInPitch (getSrcStorageMode eSrcFmt)))

def getChromaAllocSize (eChromaMode : ChromaMode) (uAllocSizeY : ℕ) : Option ℕ :=
  match eChromaMode with
  | .mono => some 0
  | .c420 => some (uAllocSizeY >>> 1)
  | .c422 => some uAllocSizeY
  | .c444 => none

/-- `AL_GetAllocSizeSrc_UV` -/
def getAllocSizeSrcUV (eSrcFmt : SrcMode) (iPitch iStrideHeight : ℤ) (eChromaMode : ChromaMode) :
    Option ℕ :=
  getChromaAllocSize eChromaMode (getAllocSizeSrcY eSrcFmt iPitch iStrideHeight)

/-- `GetSrcPlaneSize`; the other planes fail an assertion. -/
def getSrcPlaneSize (eChromaMode : ChromaMode) (eSrcFmt : SrcMode) (iPitchY iStrideHeight : ℤ) :
    PlaneId → Option ℕ
  | .y => some (getAllocSizeSrcY eSrcFmt iPitchY iStrideHeight)
  | .uv => getAllocSizeSrcUV eSrcFmt iPitchY iStrideHeight eChromaMode
  | .mapY | .mapUV => none

/-! ## The checker -/

/-- The parameters of a channel that describe its source. -/
structure SrcChannel where
  uSrcWidth : ℕ
  uSrcHeight : ℕ
  eChromaMode : ChromaMode
  uSrcBitDepth : ℕ
  eSrcMode : SrcMode
  width_lt : uSrcWidth < 2 ^ 16
  height_lt : uSrcHeight < 2 ^ 16

/-- `AL_TSrcBufferChecker`, with what its functions keep. -/
structure SrcBufferChecker where
  currentDim : Dimension
  maxDim : Dimension
  picFmt : PicFormat
  fourCC : ℕ
  srcMode : SrcMode
  current_le : currentDim.iWidth ≤ maxDim.iWidth ∧ currentDim.iHeight ≤ maxDim.iHeight
  max_lt : maxDim.iWidth < 2 ^ 16 ∧ maxDim.iHeight < 2 ^ 16
  known : getFourCC picFmt = some fourCC
  format : ∃ eChromaMode uBitDepth, picFmt = encGetSrcPicFormat eChromaMode uBitDepth
    (getSrcStorageMode srcMode) (isSrcCompressed srcMode)

namespace SrcBufferChecker

def init (pChParam : SrcChannel) : Option SrcBufferChecker :=
  let maxDim : Dimension := ⟨pChParam.uSrcWidth, pChParam.uSrcHeight⟩
  let picFmt := encGetSrcPicFormat pChParam.eChromaMode pChParam.uSrcBitDepth
    (getSrcStorageMode pChParam.eSrcMode) (isSrcCompressed pChParam.eSrcMode)
  match h : getFourCC picFmt with
  | none => none
  | some fourCC => some
    { currentDim := maxDim
      maxDim
      picFmt
      fourCC
      srcMode := pChParam.eSrcMode
      current_le := ⟨le_rfl, le_rfl⟩
      max_lt := ⟨Int.ofNat_lt.mpr pChParam.width_lt, Int.ofNat_lt.mpr pChParam.height_lt⟩
      known := h
      format := ⟨_, _, rfl⟩ }

def updateResolution (pCtx : SrcBufferChecker) (tNewDim : Dimension) : Bool × SrcBufferChecker :=
  if h : pCtx.maxDim.iWidth < tNewDim.iWidth ∨ pCtx.maxDim.iHeight < tNewDim.iHeight then
    (false, pCtx)
  else
    (true, { pCtx with
      currentDim := tNewDim
      current_le := ⟨Int.not_lt.mp fun hw => h (.inl hw), Int.not_lt.mp fun hh => h (.inr hh)⟩ })

def checkPlanes (pCtx : SrcBufferChecker) (m : PixMap) : Option Bool := do
  let fmt ← getPicFormat m.tFourCC
  let iPitchY := m.planePitch .y
  if m.tDim.iWidth ≠ pCtx.currentDim.iWidth then return false
  if m.tDim.iHeight ≠ pCtx.currentDim.iHeight then return false
  if m.tFourCC ≠ pCtx.fourCC then return false
  let iMinPitchY := encGetMinPitch m.tDim.iWidth fmt.uBitDepth fmt.eStorageMode
  if iPitchY < iMinPitchY then return false
  if iPitchY.tmod hwIpBurstAlignment ≠ 0 then return false
  if fmt.eChromaMode ≠ .mono ∧ m.planePitch .uv ≠ iPitchY then return false
  return true

/-- The planes, in the order of their numbers. -/
def planes : List PlaneId := [.y, .uv, .mapY, .mapUV]

/-- A round of the first loop of `CheckSize`; `none` is a failed assertion or an index outside
the array. -/
def addPlaneSize (pCtx : SrcBufferChecker) (m : PixMap) (eChromaMode : ChromaMode)
    (uChunkSizes : ℕ → ℕ) (ePlaneId : PlaneId) : Option (ℕ → ℕ) :=
  let iChunkIdx := (m.tPlanes ePlaneId).iChunkIdx
  if iChunkIdx = bufferBadChunk then some uChunkSizes
  else if 0 ≤ iChunkIdx ∧ iChunkIdx < bufferMaxChunk then
    (getSrcPlaneSize eChromaMode pCtx.srcMode (m.planePitch .y) (roundUp m.tDim.iHeight 8)
      ePlaneId).map fun size =>
        Function.update uChunkSizes iChunkIdx.toNat ((uChunkSizes iChunkIdx.toNat + size) % 2 ^ 32)
  else none

/-- `uChunkSizes` of `CheckSize`. -/
def chunkSizes (pCtx : SrcBufferChecker) (m : PixMap) : Option (ℕ → ℕ) := do
  let fmt ← getPicFormat m.tFourCC
  planes.foldlM (pCtx.addPlaneSize m fmt.eChromaMode) fun _ => 0

def checkSize (pCtx : SrcBufferChecker) (m : PixMap) (sizeChunk : ℕ → ℕ) : Option Bool :=
  (pCtx.chunkSizes m).map fun uChunkSizes =>
    (List.range bufferMaxChunk).all fun i =>
      !(uChunkSizes i != 0 && decide (sizeChunk i < uChunkSizes i))

def canBeUsed (pCtx : SrcBufferChecker) (pBuf : Option SrcBuffer) : Option Bool :=
  match pBuf with
  | none => some false
  | some buf =>
    match buf.pixMap with
    | none => some false
    | some m => do
      let planesOk ← pCtx.checkPlanes m
      if !planesOk then return false
      pCtx.checkSize m buf.sizeChunk

end SrcBufferChecker

/-! ## What is read -/

/-- The samples in a row of a plane; the two components of the chroma alternate. -/
def PlaneId.rowSamples (width : ℕ) : PlaneId → ℕ
  | .y => width
  | .uv => (width + 1) / 2 * 2
  | .mapY | .mapUV => 0

/-- The rows of a plane. -/
def PicFormat.rows (fmt : PicFormat) (height : ℕ) : PlaneId → ℕ
  | .y => height
  | .uv => match fmt.eChromaMode with
    | .mono => 0
    | .c420 => (height + 1) / 2
    | .c422 | .c444 => height
  | .mapY | .mapUV => 0

namespace PixMap

variable (m : PixMap) (fmt : PicFormat) (eSrcFmt : SrcMode)

/-- The bytes that are read from a line of a plane. -/
def lineBytes (p : PlaneId) : ℕ :=
  VcuCodec.lineBytes fmt.eStorageMode fmt.uBitDepth (p.rowSamples m.tDim.iWidth.toNat)

/-- The lines that are read from a plane. -/
def lineCount (p : PlaneId) : ℕ :=
  VcuCodec.lineCount fmt.eStorageMode (fmt.rows m.tDim.iHeight.toNat p)

/-- Every byte that is read lies in the chunk of its plane; the pitch of the luma is that of
both planes. -/
def Inside (sizeChunk : ℕ → ℕ) : Prop :=
  ∀ p, ∀ line < m.lineCount fmt p, ∀ byte < m.lineBytes fmt p, ∃ i : ℕ,
    (m.tPlanes p).iChunkIdx = i ∧ 0 ≤ (m.tPlanes p).iOffset + line * m.planePitch .y + byte ∧
      (m.tPlanes p).iOffset + line * m.planePitch .y + byte < sizeChunk i

/-- The size that is asked for a plane in chunk `i`. -/
def sizeIn (i : ℕ) (p : PlaneId) : ℕ :=
  if (m.tPlanes p).iChunkIdx = i then
    (getSrcPlaneSize fmt.eChromaMode eSrcFmt (m.planePitch .y) (roundUp m.tDim.iHeight 8) p).getD 0
  else 0

/-- The sum of the sizes in chunk `i`, as a `uint32_t`. -/
def room (i : ℕ) : ℕ := (m.sizeIn fmt eSrcFmt i .y + m.sizeIn fmt eSrcFmt i .uv) % 2 ^ 32

/-- A plane has no chunk or one of the array. -/
def InArray (p : PlaneId) : Prop :=
  (m.tPlanes p).iChunkIdx = -1 ∨ ∃ i < 3, (m.tPlanes p).iChunkIdx = (i : ℕ)

/-- Luma and chroma have no chunk or one of the array, and there are no maps. -/
structure Addressable : Prop where
  y : m.InArray .y
  uv : m.InArray .uv
  mapY : (m.tPlanes .mapY).iChunkIdx = -1
  mapUV : (m.tPlanes .mapUV).iChunkIdx = -1

/-- Every plane that is read ends within the sum of the sizes of its chunk. -/
def Placed : Prop :=
  ∀ p, 0 < m.lineCount fmt p → 0 < m.lineBytes fmt p → ∃ i : ℕ, (m.tPlanes p).iChunkIdx = i ∧
    0 ≤ (m.tPlanes p).iOffset ∧
    (m.tPlanes p).iOffset + ((m.lineCount fmt p : ℤ) - 1) * m.planePitch .y + m.lineBytes fmt p ≤
      m.room fmt eSrcFmt i

end PixMap

/-! ## What is accepted -/

namespace SrcBufferChecker

variable {pCtx : SrcBufferChecker} {m : PixMap}

theorem getPicFormat_fourCC (pCtx : SrcBufferChecker) :
    getPicFormat pCtx.fourCC = some pCtx.picFmt := getPicFormat_getFourCC pCtx.known

theorem picFmt_source (pCtx : SrcBufferChecker) :
    pCtx.picFmt.eChromaMode ≠ .c444 ∧ (pCtx.picFmt.uBitDepth = 8 ∨ pCtx.picFmt.uBitDepth = 10) := by
  have htable : ∀ e ∈ fourCCMappings,
      e.2.eChromaOrder = .noChroma ∨ e.2.eChromaOrder = .semiplanar →
        e.2.eChromaMode ≠ .c444 ∧ (e.2.uBitDepth = 8 ∨ e.2.uBitDepth = 10) := by
    decide +kernel
  apply htable _ (mem_of_getFourCC pCtx.known)
  obtain ⟨eChromaMode, uBitDepth, hformat⟩ := pCtx.format
  rw [hformat]
  unfold encGetSrcPicFormat
  dsimp only
  split
  · exact .inl rfl
  · exact .inr rfl

theorem checkPlanes_true (h : pCtx.checkPlanes m = some true) :
    m.tFourCC = pCtx.fourCC ∧ m.tDim.iWidth = pCtx.currentDim.iWidth ∧
      m.tDim.iHeight = pCtx.currentDim.iHeight ∧
      encGetMinPitch m.tDim.iWidth pCtx.picFmt.uBitDepth pCtx.picFmt.eStorageMode ≤ m.planePitch .y ∧
      (pCtx.picFmt.eChromaMode ≠ .mono → m.planePitch .uv = m.planePitch .y) := by
  unfold checkPlanes at h
  simp only [Option.bind_eq_bind, Option.bind_eq_some_iff] at h
  obtain ⟨fmt, hfmt, h⟩ := h
  split at h
  · cases h
  next hwidth =>
  split at h
  · cases h
  next hheight =>
  split at h
  · cases h
  next hfourCC =>
  split at h
  · cases h
  next hpitch =>
  split at h
  · cases h
  split at h
  · cases h
  next hchroma =>
  have hfourCC := not_not.mp hfourCC
  rw [hfourCC, getPicFormat_fourCC] at hfmt
  obtain rfl := Option.some.inj hfmt
  refine ⟨hfourCC, not_not.mp hwidth, not_not.mp hheight, not_lt.mp hpitch, fun hne => ?_⟩
  by_contra hpitches
  exact hchroma ⟨hne, hpitches⟩

/-- A round adds the size of its plane to the sum of its chunk. -/
theorem addPlaneSize_eq_some {f g : ℕ → ℕ} {p : PlaneId} {size : ℕ} {fmt : PicFormat}
    (hsize : getSrcPlaneSize fmt.eChromaMode pCtx.srcMode (m.planePitch .y)
      (roundUp m.tDim.iHeight 8) p = some size) (hf : ∀ i, f i < 2 ^ 32) :
    pCtx.addPlaneSize m fmt.eChromaMode f p = some g ↔
      m.InArray p ∧ g = fun i => (f i + m.sizeIn fmt pCtx.srcMode i p) % 2 ^ 32 := by
  have hin (i : ℕ) : m.sizeIn fmt pCtx.srcMode i p =
      if (m.tPlanes p).iChunkIdx = i then size else 0 := by
    unfold PixMap.sizeIn
    rw [hsize, Option.getD_some]
  have hsame (i : ℕ) : (f i + 0) % 2 ^ 32 = f i := Nat.mod_eq_of_lt (hf i)
  simp only [hin]
  unfold addPlaneSize bufferBadChunk bufferMaxChunk PixMap.InArray
  dsimp only
  rw [hsize]
  by_cases hbad : (m.tPlanes p).iChunkIdx = -1
  · have hnone (i : ℕ) : ¬(m.tPlanes p).iChunkIdx = i := by omega
    simp only [hnone, if_false, hsame]
    rw [if_pos hbad, Option.some.injEq]
    exact ⟨fun h => ⟨.inl hbad, h.symm⟩, fun h => h.2.symm⟩
  rw [if_neg hbad]
  by_cases harray : 0 ≤ (m.tPlanes p).iChunkIdx ∧ (m.tPlanes p).iChunkIdx < (3 : ℕ)
  · obtain ⟨k, hk⟩ := Int.eq_ofNat_of_zero_le harray.1
    have hadded : Function.update f k ((f k + size) % 2 ^ 32) =
        fun i => (f i + if (m.tPlanes p).iChunkIdx = i then size else 0) % 2 ^ 32 := by
      funext i
      by_cases hi : i = k
      · subst hi
        rw [Function.update_self, if_pos hk]
      · have hother : ¬(m.tPlanes p).iChunkIdx = i := by omega
        rw [Function.update_of_ne hi, if_neg hother, hsame]
    rw [if_pos harray, Option.map_some, Option.some.injEq, hk, Int.toNat_natCast, hadded, ← hk]
    exact ⟨fun h => ⟨.inr ⟨k, by omega, hk⟩, h.symm⟩, fun h => h.2.symm⟩
  · rw [if_neg harray]
    constructor
    · intro h
      cases h
    · rintro ⟨habsent | ⟨i, hi, hidx⟩, -⟩
      · exact absurd habsent hbad
      · exact absurd ⟨by omega, by omega⟩ harray

theorem addPlaneSize_map {f g : ℕ → ℕ} {p : PlaneId} {eChromaMode : ChromaMode}
    (hsize : getSrcPlaneSize eChromaMode pCtx.srcMode (m.planePitch .y) (roundUp m.tDim.iHeight 8) p =
      none) :
    pCtx.addPlaneSize m eChromaMode f p = some g ↔ (m.tPlanes p).iChunkIdx = -1 ∧ g = f := by
  unfold addPlaneSize bufferBadChunk
  dsimp only
  rw [hsize]
  constructor
  · intro h
    split at h
    · next hbad => exact ⟨hbad, (Option.some.inj h).symm⟩
    split at h
    · cases h
    · cases h
  · rintro ⟨hbad, rfl⟩
    rw [if_pos hbad]

theorem isSome_srcPlaneSize_uv (pCtx : SrcBufferChecker) (iPitchY iStrideHeight : ℤ) :
    ∃ size, getSrcPlaneSize pCtx.picFmt.eChromaMode pCtx.srcMode iPitchY iStrideHeight .uv =
      some size := by
  have hchroma := pCtx.picFmt_source.1
  unfold getSrcPlaneSize getAllocSizeSrcUV getChromaAllocSize
  cases hmode : pCtx.picFmt.eChromaMode with
  | mono => exact ⟨_, rfl⟩
  | c420 => exact ⟨_, rfl⟩
  | c422 => exact ⟨_, rfl⟩
  | c444 => exact absurd hmode hchroma

theorem chunkSizes_eq_some {f : ℕ → ℕ} (hfourCC : m.tFourCC = pCtx.fourCC) :
    pCtx.chunkSizes m = some f ↔ m.Addressable ∧ f = m.room pCtx.picFmt pCtx.srcMode := by
  obtain ⟨sizeUV, hsizeUV⟩ :=
    pCtx.isSome_srcPlaneSize_uv (m.planePitch .y) (roundUp m.tDim.iHeight 8)
  have hY (f : ℕ → ℕ) (hf : ∀ i, f i < 2 ^ 32) (g : ℕ → ℕ) :=
    @addPlaneSize_eq_some pCtx m f g .y _ pCtx.picFmt rfl hf
  have hUV (f : ℕ → ℕ) (hf : ∀ i, f i < 2 ^ 32) (g : ℕ → ℕ) :=
    @addPlaneSize_eq_some pCtx m f g .uv sizeUV pCtx.picFmt hsizeUV hf
  have hmapY (f g : ℕ → ℕ) := @addPlaneSize_map pCtx m f g .mapY pCtx.picFmt.eChromaMode rfl
  have hmapUV (f g : ℕ → ℕ) := @addPlaneSize_map pCtx m f g .mapUV pCtx.picFmt.eChromaMode rfl
  have hroom : (fun i => ((0 + m.sizeIn pCtx.picFmt pCtx.srcMode i .y) % 2 ^ 32 +
      m.sizeIn pCtx.picFmt pCtx.srcMode i .uv) % 2 ^ 32) = m.room pCtx.picFmt pCtx.srcMode := by
    funext i
    unfold PixMap.room
    rw [Nat.zero_add, Nat.mod_add_mod]
  unfold chunkSizes planes
  rw [hfourCC, getPicFormat_fourCC]
  simp only [List.foldlM_cons, List.foldlM_nil, Option.bind_eq_bind, Option.bind_some,
    Option.bind_eq_some_iff, Option.pure_def, Option.some.injEq]
  constructor
  · rintro ⟨f₁, h₁, f₂, h₂, f₃, h₃, f₄, h₄, rfl⟩
    obtain ⟨hinY, rfl⟩ := (hY _ (fun _ => by decide) _).mp h₁
    obtain ⟨hinUV, rfl⟩ := (hUV _ (fun i => Nat.mod_lt _ (by decide)) _).mp h₂
    obtain ⟨habsentY, rfl⟩ := (hmapY _ _).mp h₃
    obtain ⟨habsentUV, rfl⟩ := (hmapUV _ _).mp h₄
    exact ⟨⟨hinY, hinUV, habsentY, habsentUV⟩, hroom⟩
  · rintro ⟨haddressable, rfl⟩
    refine ⟨_, (hY _ (fun _ => by decide) _).mpr ⟨haddressable.y, rfl⟩, _,
      (hUV _ (fun i => Nat.mod_lt _ (by decide)) _).mpr ⟨haddressable.uv, rfl⟩, _,
      (hmapY _ _).mpr ⟨haddressable.mapY, rfl⟩, _, (hmapUV _ _).mpr ⟨haddressable.mapUV, rfl⟩, hroom⟩

theorem checkSize_eq_true {sizeChunk : ℕ → ℕ} (hfourCC : m.tFourCC = pCtx.fourCC) :
    pCtx.checkSize m sizeChunk = some true ↔
      m.Addressable ∧ ∀ i < 3, m.room pCtx.picFmt pCtx.srcMode i ≤ sizeChunk i := by
  have hchunk (f : ℕ → ℕ) : ((List.range bufferMaxChunk).all fun i =>
      !(f i != 0 && decide (sizeChunk i < f i))) = true ↔ ∀ i < 3, f i ≤ sizeChunk i := by
    rw [List.all_eq_true]
    apply forall_congr'
    intro i
    simp only [List.mem_range, bufferMaxChunk, Bool.not_eq_true', Bool.and_eq_false_iff,
      bne_eq_false_iff_eq, decide_eq_false_iff_not, not_lt]
    constructor
    · intro h hi
      rcases h hi with hzero | hle
      · exact hzero ▸ Nat.zero_le _
      · exact hle
    · exact fun h hi => .inr (h hi)
  unfold checkSize
  rw [Option.map_eq_some_iff]
  constructor
  · rintro ⟨f, hf, hall⟩
    obtain ⟨haddressable, rfl⟩ := (chunkSizes_eq_some hfourCC).mp hf
    exact ⟨haddressable, (hchunk _).mp hall⟩
  · rintro ⟨haddressable, hle⟩
    exact ⟨_, (chunkSizes_eq_some hfourCC).mpr ⟨haddressable, rfl⟩, (hchunk _).mpr hle⟩

theorem canBeUsed_eq_true {sizeChunk : ℕ → ℕ} :
    pCtx.canBeUsed (some ⟨some m, sizeChunk⟩) = some true ↔
      pCtx.checkPlanes m = some true ∧ m.Addressable ∧
        ∀ i < 3, m.room pCtx.picFmt pCtx.srcMode i ≤ sizeChunk i := by
  unfold canBeUsed
  simp only [Option.bind_eq_bind, Option.bind_eq_some_iff]
  constructor
  · rintro ⟨planesOk, hplanes, h⟩
    cases planesOk with
    | false => cases h
    | true => exact ⟨hplanes, (checkSize_eq_true (checkPlanes_true hplanes).1).mp h⟩
  · rintro ⟨hplanes, h⟩
    exact ⟨true, hplanes, (checkSize_eq_true (checkPlanes_true hplanes).1).mpr h⟩

theorem not_lineBytes_pos {fmt : PicFormat} {p : PlaneId}
    (hsamples : p.rowSamples m.tDim.iWidth.toNat = 0) : ¬0 < m.lineBytes fmt p := by
  unfold PixMap.lineBytes
  rw [hsamples, lineBytes_zero]
  exact Nat.lt_irrefl 0

/-- The bytes of a line that is read fit in the pitch that is asked. -/
theorem lineBytes_le_pitch (hplanes : pCtx.checkPlanes m = some true) {p : PlaneId}
    (hbytes : 0 < m.lineBytes pCtx.picFmt p) :
    (m.lineBytes pCtx.picFmt p : ℤ) ≤ m.planePitch .y := by
  have hpitch := (checkPlanes_true hplanes).2.2.2.1
  have hlines := lineBytes_le_minPitch pCtx.picFmt.eStorageMode pCtx.picFmt_source.2
    m.tDim.iWidth.toNat
  have hwidth : (m.tDim.iWidth.toNat : ℤ) = m.tDim.iWidth := by
    rw [Int.toNat_of_nonneg]
    by_contra hneg
    apply not_lineBytes_pos _ hbytes
    rw [Int.toNat_of_nonpos (by omega)]
    cases p <;> rfl
  rw [hwidth] at hlines
  cases p with
  | y => exact le_trans hlines.1 hpitch
  | uv => exact le_trans hlines.2 hpitch
  | mapY => exact absurd hbytes (not_lineBytes_pos rfl)
  | mapUV => exact absurd hbytes (not_lineBytes_pos rfl)

theorem chunk_lt (haddressable : m.Addressable) {p : PlaneId}
    (hbytes : 0 < m.lineBytes pCtx.picFmt p) {i : ℕ} (hidx : (m.tPlanes p).iChunkIdx = i) :
    i < 3 := by
  have harray : m.InArray p := by
    cases p with
    | y => exact haddressable.y
    | uv => exact haddressable.uv
    | mapY => exact absurd hbytes (not_lineBytes_pos rfl)
    | mapUV => exact absurd hbytes (not_lineBytes_pos rfl)
  rcases harray with habsent | ⟨j, hj, hidx'⟩
  · omega
  · omega

/-- Whatever the sizes of its chunks are, a frame is only accepted with all its bytes inside if
and only if its planes end within the sums of the sizes. -/
theorem accepted_inside_iff (pCtx : SrcBufferChecker) (m : PixMap) :
    (∀ sizeChunk, pCtx.canBeUsed (some ⟨some m, sizeChunk⟩) = some true →
        m.Inside pCtx.picFmt sizeChunk) ↔
      (pCtx.checkPlanes m = some true → m.Addressable → m.Placed pCtx.picFmt pCtx.srcMode) := by
  constructor
  · intro hinside hplanes haddressable p hlines hbytes
    have hread := hinside (m.room pCtx.picFmt pCtx.srcMode)
      (canBeUsed_eq_true.mpr ⟨hplanes, haddressable, fun _ _ => le_rfl⟩) p
    obtain ⟨i, hidx, hfirst, -⟩ := hread 0 hlines 0 hbytes
    obtain ⟨j, hjdx, -, hlast⟩ := hread (m.lineCount pCtx.picFmt p - 1) (by omega)
      (m.lineBytes pCtx.picFmt p - 1) (by omega)
    obtain rfl : i = j := by omega
    rw [Nat.cast_sub hlines, Nat.cast_sub hbytes, Nat.cast_one] at hlast
    refine ⟨i, hidx, ?_, ?_⟩
    · simpa using hfirst
    · linarith
  · intro hplaced sizeChunk haccepted p line hline byte hbyte
    obtain ⟨hplanes, haddressable, hrooms⟩ := canBeUsed_eq_true.mp haccepted
    have hbytes : 0 < m.lineBytes pCtx.picFmt p := by omega
    obtain ⟨i, hidx, hoffset, hend⟩ := hplaced hplanes haddressable p (by omega) hbytes
    have hpitch : 0 ≤ m.planePitch .y :=
      le_trans (Int.natCast_nonneg _) (lineBytes_le_pitch hplanes hbytes)
    have hlast : (line : ℤ) * m.planePitch .y ≤
        ((m.lineCount pCtx.picFmt p : ℤ) - 1) * m.planePitch .y :=
      mul_le_mul_of_nonneg_right (by omega) hpitch
    have hroom := hrooms i (chunk_lt haddressable hbytes hidx)
    refine ⟨i, hidx, ?_, ?_⟩
    · positivity
    · omega

/-- The checker of a channel of 64 times 8 samples in NV12. -/
def nv12Checker : SrcBufferChecker where
  currentDim := ⟨64, 8⟩
  maxDim := ⟨64, 8⟩
  picFmt := encGetSrcPicFormat .c420 8 .raster false
  fourCC := fourCC2 'N' 'V' '1' '2'
  srcMode := .nvx
  current_le := ⟨le_rfl, le_rfl⟩
  max_lt := by decide
  known := by decide +kernel
  format := ⟨.c420, 8, rfl⟩

/-- A frame with its chroma far behind its luma. -/
def nv12Behind : PixMap where
  tDim := ⟨64, 8⟩
  tFourCC := fourCC2 'N' 'V' '1' '2'
  tPlanes
    | .y => ⟨0, 0, 64⟩
    | .uv => ⟨0, 4096, 64⟩
    | .mapY | .mapUV => ⟨-1, 0, 0⟩

theorem nv12Behind_accepted :
    nv12Checker.canBeUsed (some ⟨some nv12Behind, fun _ => 768⟩) = some true := by
  decide +kernel

/-- The chunk has 768 bytes, and the chroma begins at byte 4096. -/
theorem not_accepted_inside :
    ¬∀ (pCtx : SrcBufferChecker) (m : PixMap) (sizeChunk : ℕ → ℕ),
      pCtx.canBeUsed (some ⟨some m, sizeChunk⟩) = some true → m.Inside pCtx.picFmt sizeChunk := by
  intro hinside
  obtain ⟨i, -, -, hlt⟩ := hinside nv12Checker nv12Behind _ nv12Behind_accepted .uv 0 (by decide) 0
    (by decide)
  exact absurd hlt (show ¬((nv12Behind.tPlanes .uv).iOffset + (0 : ℕ) * nv12Behind.planePitch .y +
    (0 : ℕ) < (768 : ℕ)) by decide)

/-! ## Planes that follow each other -/

end SrcBufferChecker

end VcuCodec
