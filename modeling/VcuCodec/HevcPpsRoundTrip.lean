import VcuCodec.HevcPpsReading
import VcuCodec.SectionSizes
import Mathlib.Algebra.BigOperators.Ring.Finset

/-!
# The tiles of an encoded picture in the decoder

The picture parameter set that the encoder writes for a status is read by the parser of the
decoder.  The tiles of the status come through, whether they are uniform or not, except that
the encoder does not enable tiles for a single column of several rows.
-/

namespace VcuCodec

open BitStrings CheckedRuns Checked Parse SyntaxElement Finset

/-! ## The bytes of a NAL unit -/

theorem window_bytes {mem : ℕ → UInt8} {k : ℕ} {l : List UInt8}
    (h : ∀ j (hj : j < l.length), mem (k + j) = l[j]) :
    window mem (8 * k) (8 * l.length) = bitsOf l := by
  induction l generalizing k with
  | nil => rfl
  | cons b l ih =>
    have hrest : window mem (8 * (k + 1)) (8 * l.length) = bitsOf l := by
      apply ih
      intro j hj
      rw [Nat.add_assoc, Nat.add_comm 1 j]
      exact h (j + 1) (Nat.succ_lt_succ hj)
    have hfirst : mem k = b := h 0 (Nat.zero_lt_succ _)
    rw [List.length_cons, Nat.mul_succ, Nat.add_comm, window_add, window_byte, hfirst, bitsOf_cons,
      ← Nat.mul_succ, hrest]

theorem window_memOf (l : List UInt8) : window (memOf l) 0 (8 * l.length) = bitsOf l :=
  window_bytes (k := 0) fun j hj => by rw [Nat.zero_add, memOf_of_lt hj]

theorem NalUnit.bytes_eq {nal : NalUnit} (eCodec : Codec) {tmpBuffer : ℕ → UInt8} {bufSize : ℕ}
    {s : BitStreamLite} (hwrite : nal.write (BitStreamLite.init tmpBuffer bufSize) = s)
    (hfits : s.isOverflow = false) :
    nal.bytes eCodec tmpBuffer bufSize = BitStreamLite.startCode eCodec nal.nut ++
      (nal.header.bytes ++ escape 0 ((List.range ((s.iBitCount + 7) / 8)).map s.pData)) := by
  unfold NalUnit.bytes writeNalInBuffer
  dsimp only
  rw [hwrite, hfits, if_neg (by decide)]

namespace HevcPps

variable {pps : HevcPps} {sps : HevcSps}

/-! ## Writing -/

/-- `writePps`; the writer comes back from every element of a set with coded fields. -/
def writePps (pPps : HevcPps) (pBS : BitStreamLite) : BitStreamLite :=
  ((putAll 32 pBS pPps.elements).getD pBS).putTrailingBits

def nutPps : ℕ := 34

/-- `AL_CreatePps` for the base layer. -/
def createPps (pPps : HevcPps) (uTempId : UInt8) : NalUnit :=
  ⟨nutPps, getNalHeaderHevc 34 0 uTempId, pPps.writePps⟩

/-- The number of bytes of the payload. -/
def payloadSize (pPps : HevcPps) : ℕ := (codes pPps.elements).length / 8 + 1

/-- The elements can be written and read. -/
def Sendable (e : SyntaxElement) : Prop := e.Valid ∧ e.Written

theorem sendable_bit {n : ℕ} (hn : n < 2) : Sendable (bit n) :=
  ⟨⟨le_rfl, by decide, Int.natCast_nonneg n, Int.ofNat_lt.mpr hn⟩, trivial⟩

theorem sendable_uint {x : ℤ} (h0 : 0 ≤ x) (hx : x < 2 ^ 31 - 1) : Sendable (uintElement x) := by
  have hval : (toUInt32 x : ℤ) = x := by
    unfold toUInt32
    omega
  constructor
  · change 0 ≤ (toUInt32 x : ℤ) ∧ (toUInt32 x : ℤ) ≤ 2 ^ 32 - 2
    omega
  · change (toUInt32 x : ℤ) < 2 ^ 31 - 1
    omega

theorem sendable_sint {x : ℤ} (hx : FitsInt8 x) : Sendable ⟨.se, x⟩ := by
  obtain ⟨hlo, hhi⟩ := hx
  constructor
  · change -2 ^ 31 + 1 ≤ x ∧ x ≤ 2 ^ 31 - 1
    omega
  · change -2 ^ 30 < x ∧ x < 2 ^ 30
    omega

theorem sendable_sizes {num : ℕ} {sizes : ℕ → ℕ} (h : ∀ i < num, 0 < sizes i ∧ sizes i < 2 ^ 16) :
    ∀ e ∈ sizeElements num sizes, Sendable e := by
  intro e he
  obtain ⟨i, hi, rfl⟩ := List.mem_map.mp he
  have hsize := h i (List.mem_range.mp hi)
  exact sendable_uint (by omega) (by omega)

theorem fits_uint {x : ℤ} (h : 0 ≤ x ∧ x < 2 ^ 8) : Sendable (uintElement x) :=
  sendable_uint h.1 (by omega)

theorem Coded.sendable_head (h : pps.Coded) : ∀ e ∈ pps.headElements, Sendable e := by
  have hflags := h.flag_lt
  simp only [flags, List.forall_mem_cons] at hflags
  obtain ⟨hdep, hout, hsign, hcabac, hintra, hskip, hdelta, hslice, hweight, hbiweight, hbypass,
    htiles, hsync, -⟩ := hflags
  have hextra : Sendable ⟨.u 3, 0⟩ := ⟨by decide, by decide⟩
  unfold headElements
  simp only [List.forall_mem_append, List.forall_mem_cons, List.not_mem_nil, false_implies,
    implies_true, sendable_bit, hdep, hout, hsign, hcabac, hintra, hskip, hdelta, hslice, hweight,
    hbiweight, hbypass, htiles, hsync, hextra, fits_uint h.refL0, fits_uint h.refL1,
    sendable_sint h.qp, sendable_sint h.cb, sendable_sint h.cr, true_and, and_true]
  split
  · exact List.forall_mem_singleton.mpr (fits_uint h.depth)
  · exact List.forall_mem_nil _

theorem Coded.sendable_tiles (h : pps.Coded)
    (htiles : pps.tilesEnabledFlag ≠ 0 → pps.Explicit sps) : ∀ e ∈ pps.tileElements, Sendable e := by
  have hacross := h.flag_lt pps.loopFilterAcrossTilesEnabledFlag (by simp [flags])
  unfold tileElements
  split
  · next hne =>
    have ht := htiles hne
    have hcolumns : pps.numTileColumnsMinus1 < 20 := ht.columns_lt
    have hrows : pps.numTileRowsMinus1 < 22 := ht.rows_lt
    have hwidth := sizes_fit ht.column_pos ht.width sps.width_lt
    have hheight := sizes_fit ht.row_pos ht.height sps.height_lt
    simp only [List.forall_mem_append, List.forall_mem_cons, List.not_mem_nil, false_implies,
      implies_true, and_true]
    refine ⟨⟨⟨⟨?_, ?_, ?_⟩, sendable_sizes hwidth⟩, sendable_sizes hheight⟩, sendable_bit hacross⟩
    · exact sendable_uint (by omega) (by omega)
    · exact sendable_uint (by omega) (by omega)
    · exact sendable_bit (by decide)
  · exact List.forall_mem_nil _

theorem Coded.sendable_rest (h : pps.Coded) : ∀ e ∈ pps.restElements, Sendable e := by
  have hflags := h.flag_lt
  simp only [flags, List.forall_mem_cons] at hflags
  obtain ⟨-, -, -, -, -, -, -, -, -, -, -, -, -, -, hslices, hpresent, hlists, -⟩ := hflags
  have hzero : Sendable (bit 0) := sendable_bit (by decide)
  have hlevel : Sendable (uintElement 0) := sendable_uint le_rfl (by decide)
  unfold restElements
  rw [h.scaling, h.level, h.extension]
  simp only [List.forall_mem_append, List.forall_mem_cons, List.not_mem_nil, false_implies,
    implies_true, sendable_bit, hslices, hpresent, hlists, hzero, hlevel, true_and, and_true]
  split
  · next hne =>
    obtain ⟨hoverride, hdisabled⟩ := h.filter hne
    split
    · next hon =>
      obtain ⟨hbeta, htc⟩ := h.offsets hne hon
      simp [sendable_bit, hoverride, hdisabled, sendable_sint hbeta, sendable_sint htc]
    · simp [sendable_bit, hoverride, hdisabled]
  · exact List.forall_mem_nil _

theorem Coded.sendable (h : pps.Coded) (htiles : pps.tilesEnabledFlag ≠ 0 → pps.Explicit sps) :
    ∀ e ∈ pps.elements, Sendable e := by
  have hid := h.id_lt
  have hsame := h.same_id
  unfold elements
  simp only [List.forall_mem_append, List.forall_mem_cons, List.not_mem_nil, false_implies,
    implies_true, and_true]
  refine ⟨⟨⟨⟨?_, ?_⟩, h.sendable_head⟩, h.sendable_tiles htiles⟩, h.sendable_rest⟩
  · exact sendable_uint (by omega) (by omega)
  · exact sendable_uint (by omega) (by omega)

theorem length_code {e : SyntaxElement} (h : Sendable e) : e.code.length ≤ 63 := by
  obtain ⟨d, v⟩ := e
  obtain ⟨hvalid, hwritten⟩ := h
  cases d with
  | u n =>
    have hn : n ≤ 32 := hvalid.2.1
    rw [show (⟨.u n, v⟩ : SyntaxElement).code = fixed n v.toNat from rfl, length_fixed]
    omega
  | ue =>
    have hv : v < 2 ^ 31 - 1 := hwritten
    have hlog : (v.toNat + 1).log2 < 31 := (Nat.log2_lt (Nat.succ_ne_zero _)).mpr (by omega)
    rw [show (⟨.ue, v⟩ : SyntaxElement).code = golomb v.toNat from rfl, length_golomb]
    omega
  | se =>
    have hv : -2 ^ 30 < v ∧ v < 2 ^ 30 := hwritten
    have hcode : signedCode v + 1 < 2 ^ 31 := by
      unfold signedCode
      split <;> omega
    have hlog : (signedCode v + 1).log2 < 31 := (Nat.log2_lt (Nat.succ_ne_zero _)).mpr hcode
    rw [show (⟨.se, v⟩ : SyntaxElement).code = golomb (signedCode v) from rfl, length_golomb]
    omega

theorem length_codes {es : List SyntaxElement} (h : ∀ e ∈ es, Sendable e) :
    (codes es).length ≤ 63 * es.length := by
  induction es with
  | nil => exact Nat.zero_le _
  | cons e es ih =>
    rw [List.forall_mem_cons] at h
    have hfirst := length_code h.1
    have hrest := ih h.2
    simp only [codes, List.flatMap_cons, List.length_append, List.length_cons] at hrest ⊢
    omega

theorem length_elements (htiles : pps.tilesEnabledFlag ≠ 0 → pps.Explicit sps) :
    pps.elements.length ≤ 79 := by
  have hhead : pps.headElements.length ≤ 20 := by
    unfold headElements
    split <;> simp
  have hrest : pps.restElements.length ≤ 11 := by
    unfold restElements
    split
    · split <;> simp
    · simp
  have htile : pps.tileElements.length ≤ 46 := by
    unfold tileElements
    split
    · next hne =>
      have hcolumns : pps.numTileColumnsMinus1 < 20 := (htiles hne).columns_lt
      have hrows : pps.numTileRowsMinus1 < 22 := (htiles hne).rows_lt
      simp only [sizeElements, List.length_append, List.length_cons, List.length_nil,
        List.length_map, List.length_range]
      omega
    · simp
  simp only [elements, List.length_append, List.length_cons, List.length_nil]
  omega

theorem Coded.payloadSize_lt (h : pps.Coded) (htiles : pps.tilesEnabledFlag ≠ 0 → pps.Explicit sps) :
    pps.payloadSize < AL_ENC_MAX_CONFIG_HEADER_SIZE := by
  have hcodes := length_codes (h.sendable htiles)
  have helements := length_elements htiles
  unfold payloadSize AL_ENC_MAX_CONFIG_HEADER_SIZE
  omega

theorem codes_startElements {hdr : NalHeader} (hhdr : hdr.bytes.length = 2) :
    codes (startElements hdr) = bitsOf [0, 0, 0, 1] ++ bitsOf hdr.bytes := by
  have hlen : (bitsOf hdr.bytes).length = 16 := by rw [length_bitsOf, hhdr]
  have hval := fixed_value (bitsOf hdr.bytes)
  rw [hlen] at hval
  simp only [startElements, codes, List.flatMap_cons, List.flatMap_nil, List.append_nil, code,
    Int.toNat_natCast, hval]
  rfl

/-- What the encoder writes for a set is in front of the parser. -/
theorem faces_createPps (hsend : ∀ e ∈ pps.elements, Sendable e) {bufSize : ℕ}
    (hroom : pps.payloadSize < bufSize) (hint : 8 * bufSize < 2 ^ 31) (tmpBuffer : ℕ → UInt8)
    {uTempId : UInt8} (htemp : uTempId < 7) {c : CircBuffer}
    (hc : c.Holds ((pps.createPps uTempId).bytes .hevc tmpBuffer bufSize)) (scratch : ℕ → UInt8) :
    (RbspParser.init c scratch true).Faces (bitAt scratch (8 * (6 + pps.payloadSize)) = false) False
      (startElements (getNalHeaderHevc 34 0 uTempId) ++ pps.elements) := by
  unfold payloadSize at hroom
  obtain ⟨s, hs, hext⟩ := putAll_extends (init_tidy tmpBuffer bufSize) (fun e he => (hsend e he).1)
    (fun e he => (hsend e he).2) (le_refl 32) (by simp only [BitStreamLite.init]; omega)
  have hcount : s.iBitCount = (codes pps.elements).length := by
    rw [hext.count]
    simp [BitStreamLite.init]
  have hmax : s.iMaxBits = bufSize * 8 := hext.max
  have htr := putTrailingBits_extends hext.tidy (by omega)
  have hall := hext.append htr
  have hwrite : (pps.createPps uTempId).write (BitStreamLite.init tmpBuffer bufSize) =
      s.putTrailingBits := by
    unfold createPps writePps
    dsimp only
    rw [hs, Option.getD_some]
  have hsize : s.putTrailingBits.iBitCount = 8 * pps.payloadSize := by
    rw [htr.count, List.length_cons, List.length_replicate, hcount]
    unfold payloadSize
    omega
  have hbits := bits_bytes (s := s.putTrailingBits) (by omega)
  rw [window_memOf, hall.bits_eq] at hbits
  have hlen : s.putTrailingBits.bytes.length = pps.payloadSize := by
    simp only [BitStreamLite.bytes, List.length_map, List.length_range]
    omega
  have hbytes : (pps.createPps uTempId).bytes .hevc tmpBuffer bufSize =
      BitStreamLite.startCode .hevc 34 ++ ((getNalHeaderHevc 34 0 uTempId).bytes ++
        escape 0 s.putTrailingBits.bytes) := by
    have hdiv : (s.putTrailingBits.iBitCount + 7) / 8 = s.putTrailingBits.iBitCount / 8 := by omega
    rw [NalUnit.bytes_eq .hevc hwrite htr.tidy.fits, hdiv]
    rfl
  rw [hbytes] at hc
  have hhdr := ((NalHeader.Built.hevc 34 0 uTempId htemp).append (escape 0 s.putTrailingBits.bytes)).1
  rw [deemulate_escape (Nat.zero_le 2)] at hhdr
  have hdeem : deemulate true 0 0 (BitStreamLite.startCode .hevc 34 ++
      ((getNalHeaderHevc 34 0 uTempId).bytes ++ escape 0 s.putTrailingBits.bytes)) =
        BitStreamLite.startCode .hevc 34 ++
          ((getNalHeaderHevc 34 0 uTempId).bytes ++ s.putTrailingBits.bytes) := by
    rw [deemulate_startCode, hhdr]
  have hsent : (BitStreamLite.startCode .hevc 34 ++
      ((getNalHeaderHevc 34 0 uTempId).bytes ++ s.putTrailingBits.bytes)).length =
        6 + pps.payloadSize := by
    rw [List.length_append, List.length_append, hlen, ← Nat.add_assoc]
    rfl
  have hinit : (BitStreamLite.init tmpBuffer bufSize).bits = [] := rfl
  refine ⟨RbspParser.ahead_init scratch _ hc hdeem ?_ ?_ (k := 7 - s.iBitCount % 8) ?_ ?_,
    False.elim⟩
  · rw [hsent]
    unfold payloadSize
    omega
  · rw [hsent]
    exact id
  · omega
  · have hcodes : codes (startElements (getNalHeaderHevc 34 0 uTempId) ++ pps.elements) =
        codes (startElements (getNalHeaderHevc 34 0 uTempId)) ++ codes pps.elements :=
      List.flatMap_append
    rw [window_memOf, bitsOf_append, bitsOf_append, hbits, hinit, List.nil_append, hcodes,
      codes_startElements rfl, List.append_assoc, List.append_assoc]
    rfl

end HevcPps

/-! ## The tiles of a status -/

/-- The tiles of a status cut a picture of `width` by `height` blocks. -/
structure TileStatus.Partition (status : TileStatus) (width height : ℕ) : Prop where
  columns_pos : 0 < status.uNumClmn
  columns_le : status.uNumClmn ≤ maxColumnsTile
  rows_pos : 0 < status.uNumRow
  rows_le : status.uNumRow ≤ maxRowsTile
  width_pos : ∀ i < status.uNumClmn, 0 < status.iTileWidth i
  height_pos : ∀ i < status.uNumRow, 0 < status.iTileHeight i
  width : ∑ i ∈ range status.uNumClmn, status.iTileWidth i = width
  height : ∑ i ∈ range status.uNumRow, status.iTileHeight i = height

namespace HevcPps

variable {pps dec : HevcPps} {sps : HevcSps} {status : TileStatus}

/-- The widths of the columns of a picture. -/
def columns (pps : HevcPps) (width : ℕ) : List ℤ :=
  if pps.tilesEnabledFlag ≠ 0 then
    (List.range (pps.numTileColumnsMinus1 + 1)).map fun i => (pps.columnWidth i : ℤ)
  else [(width : ℤ)]

/-- The heights of the rows of a picture. -/
def rows (pps : HevcPps) (height : ℕ) : List ℤ :=
  if pps.tilesEnabledFlag ≠ 0 then
    (List.range (pps.numTileRowsMinus1 + 1)).map fun i => (pps.rowHeight i : ℤ)
  else [(height : ℤ)]

/-- The set describes the tiles of a status. -/
structure Describes (pps : HevcPps) (sps : HevcSps) (status : TileStatus) : Prop where
  enabled : pps.tilesEnabledFlag ≠ 0 ↔ 1 < status.uNumClmn ∨ 1 < status.uNumRow
  columns : pps.columns sps.picWidthInCtbs = (List.range status.uNumClmn).map status.iTileWidth
  rows : pps.rows sps.picHeightInCtbs = (List.range status.uNumRow).map status.iTileHeight

/-- The tiles of the last status. -/
structure Sized (pps : HevcPps) (status : TileStatus) : Prop where
  enabled : pps.tilesEnabledFlag = if 1 < status.uNumClmn then 1 else 0
  columns : pps.numTileColumnsMinus1 = status.uNumClmn - 1
  rows : pps.numTileRowsMinus1 = status.uNumRow - 1
  column : 1 < status.uNumClmn → ∀ i < status.uNumClmn - 1,
    pps.columnWidth i = (status.iTileWidth i % 2 ^ 16).toNat
  row : 1 < status.uNumClmn → ∀ i < status.uNumRow - 1,
    pps.rowHeight i = (status.iTileHeight i % 2 ^ 16).toNat

theorem sized_updateTiles (pps : HevcPps) {width height : ℕ}
    (h : status.Partition width height) : (pps.updateTiles status).Sized status := by
  have hcolumns : status.uNumClmn ≤ 20 := h.columns_le
  have hrows : status.uNumRow ≤ 22 := h.rows_le
  have hcolumnsPos := h.columns_pos
  have hrowsPos := h.rows_pos
  have hcolumn : ((status.uNumClmn - 1 : ℤ) % 2 ^ 16).toNat = status.uNumClmn - 1 := by omega
  have hrow : ((status.uNumRow - 1 : ℤ) % 2 ^ 16).toNat = status.uNumRow - 1 := by omega
  unfold updateTiles
  dsimp only
  rw [hcolumn, hrow]
  split
  · next hone =>
    have hnot : ¬1 < status.uNumClmn := by omega
    exact ⟨(if_neg hnot).symm, rfl, rfl, fun hlt => absurd hlt hnot, fun hlt => absurd hlt hnot⟩
  · next hne =>
    have hlt : 1 < status.uNumClmn := by omega
    exact ⟨(if_pos hlt).symm, rfl, rfl, fun _ i hi => if_pos hi, fun _ i hi => if_pos hi⟩

theorem sized_update (pps : HevcPps) (channel : PpsChannel) (info : HlsInfo) {width height : ℕ}
    (h : status.Partition width height) :
    (pps.update channel status info).Sized status := by
  have htiles := sized_updateTiles { pps with initQpMinus26 := toInt8 (status.iPpsQP - 26) } h
  have hids : (({ pps with initQpMinus26 := toInt8 (status.iPpsQP - 26) } :
      HevcPps).updateTiles status |>.updateIds status info).Sized status := by
    unfold updateIds
    dsimp only
    split
    · exact ⟨htiles.enabled, htiles.columns, htiles.rows, htiles.column, htiles.row⟩
    · exact ⟨htiles.enabled, htiles.columns, htiles.rows, htiles.column, htiles.row⟩
  unfold update
  dsimp only
  split
  · exact ⟨hids.enabled, hids.columns, hids.rows, hids.column, hids.row⟩
  · exact hids

/-- Sizes of a partition keep their values as `uint16_t`. -/
theorem table_eq {num total : ℕ} {sizes : ℕ → ℤ} {table : ℕ → ℕ}
    (hpos : ∀ i < num + 1, 0 < sizes i) (hsum : ∑ i ∈ range (num + 1), sizes i = total)
    (htotal : total < 2 ^ 16) (htable : ∀ i < num, table i = (sizes i % 2 ^ 16).toNat) :
    (∀ i < num, (table i : ℤ) = sizes i) ∧
      ((∑ i ∈ range num, table i : ℕ) : ℤ) = total - sizes num := by
  have hsizes (i : ℕ) (hi : i < num) : (table i : ℤ) = sizes i := by
    have hle : sizes i ≤ ∑ i ∈ range (num + 1), sizes i :=
      Finset.single_le_sum (fun j hj => (hpos j (Finset.mem_range.mp hj)).le)
        (Finset.mem_range.mpr (by omega))
    have hlt := hpos i (by omega)
    rw [htable i hi]
    omega
  refine ⟨hsizes, ?_⟩
  have hbefore : ((∑ i ∈ range num, table i : ℕ) : ℤ) = ∑ i ∈ range num, sizes i := by
    rw [Nat.cast_sum]
    exact Finset.sum_congr rfl fun i hi => hsizes i (Finset.mem_range.mp hi)
  rw [Finset.sum_range_succ] at hsum
  omega

theorem sizes_eq {num total : ℕ} {sizes : ℕ → ℤ} {table read : ℕ → ℕ}
    (hpos : ∀ i < num + 1, 0 < sizes i) (hsum : ∑ i ∈ range (num + 1), sizes i = total)
    (htotal : total < 2 ^ 16) (htable : ∀ i < num, table i = (sizes i % 2 ^ 16).toNat)
    (hread : ∀ i < num, read i = table i) (hlast : read num = total - ∑ i ∈ range num, table i) :
    (List.range (num + 1)).map (fun i => (read i : ℤ)) = (List.range (num + 1)).map sizes := by
  obtain ⟨hsizes, hbefore⟩ := table_eq hpos hsum htotal htable
  apply List.map_congr_left
  intro i hi
  rcases Nat.lt_succ_iff_lt_or_eq.mp (List.mem_range.mp hi) with hlt | rfl
  · rw [hread i hlt, hsizes i hlt]
  · have hlt := hpos i (Nat.lt_succ_self i)
    omega

theorem Sized.explicit (h : pps.Sized status)
    (hstatus : status.Partition sps.picWidthInCtbs sps.picHeightInCtbs)
    (hseveral : 1 < status.uNumClmn) : pps.Explicit sps := by
  have hcolumnsLe := hstatus.columns_le
  have hrowsLe := hstatus.rows_le
  have hrowsPos := hstatus.rows_pos
  have hcolumns : pps.numTileColumnsMinus1 + 1 = status.uNumClmn := by
    rw [h.columns]
    omega
  have hrows : pps.numTileRowsMinus1 + 1 = status.uNumRow := by
    rw [h.rows]
    omega
  have hwidthPos := hstatus.width_pos
  have hheightPos := hstatus.height_pos
  have hwidth := hstatus.width
  have hheight := hstatus.height
  have hcolumn := h.column hseveral
  have hrow := h.row hseveral
  rw [← hcolumns] at hwidthPos hwidth hcolumn
  rw [← hrows] at hheightPos hheight hrow
  obtain ⟨hcolumnEq, hcolumnSum⟩ := table_eq hwidthPos hwidth sps.width_lt hcolumn
  obtain ⟨hrowEq, hrowSum⟩ := table_eq hheightPos hheight sps.height_lt hrow
  have hlastWidth := hwidthPos _ (Nat.lt_succ_self _)
  have hlastHeight := hheightPos _ (Nat.lt_succ_self _)
  constructor
  · omega
  · omega
  · intro i hi
    have hpos := hwidthPos i (by omega)
    have heq := hcolumnEq i hi
    omega
  · intro i hi
    have hpos := hheightPos i (by omega)
    have heq := hrowEq i hi
    omega
  · omega
  · omega

/-- With several columns the set that is read describes the tiles. -/
theorem Sized.describes (h : pps.Sized status)
    (hstatus : status.Partition sps.picWidthInCtbs sps.picHeightInCtbs)
    (hseveral : 1 < status.uNumClmn) (hread : dec.ReadAs pps sps) : dec.Describes sps status := by
  have hrowsPos := hstatus.rows_pos
  have henabled : pps.tilesEnabledFlag ≠ 0 := by
    rw [h.enabled, if_pos hseveral]
    decide
  have hon : dec.tilesEnabledFlag ≠ 0 := by
    rw [hread.enabled]
    exact henabled
  have hsame := hread.same henabled
  have hcolumns : pps.numTileColumnsMinus1 + 1 = status.uNumClmn := by
    rw [h.columns]
    omega
  have hrows : pps.numTileRowsMinus1 + 1 = status.uNumRow := by
    rw [h.rows]
    omega
  have hwidthPos := hstatus.width_pos
  have hheightPos := hstatus.height_pos
  have hwidth := hstatus.width
  have hheight := hstatus.height
  have hcolumn := h.column hseveral
  have hrow := h.row hseveral
  rw [← hcolumns] at hwidthPos hwidth hcolumn
  rw [← hrows] at hheightPos hheight hrow
  refine ⟨⟨fun _ => .inl hseveral, fun _ => hon⟩, ?_, ?_⟩
  · unfold HevcPps.columns
    rw [if_pos hon, hsame.columns, ← hcolumns]
    exact sizes_eq hwidthPos hwidth sps.width_lt hcolumn hsame.column hsame.lastColumn
  · unfold HevcPps.rows
    rw [if_pos hon, hsame.rows, ← hrows]
    exact sizes_eq hheightPos hheight sps.height_lt hrow hsame.row hsame.lastRow

theorem Sized.describes_iff (h : pps.Sized status)
    (hstatus : status.Partition sps.picWidthInCtbs sps.picHeightInCtbs)
    (hread : dec.ReadAs pps sps) :
    dec.Describes sps status ↔ 1 < status.uNumClmn ∨ status.uNumRow = 1 := by
  by_cases hseveral : 1 < status.uNumClmn
  · exact ⟨fun _ => .inl hseveral, fun _ => h.describes hstatus hseveral hread⟩
  have hcolumnsPos := hstatus.columns_pos
  have hrowsPos := hstatus.rows_pos
  have hone : status.uNumClmn = 1 := by omega
  have hoff : dec.tilesEnabledFlag = 0 := by
    rw [hread.enabled, h.enabled, if_neg hseveral]
  constructor
  · intro hdescribes
    by_contra hnot
    have hmore : 1 < status.uNumClmn ∨ 1 < status.uNumRow := by omega
    exact hdescribes.enabled.mpr hmore hoff
  · rintro (hlt | hrow)
    · exact absurd hlt hseveral
    have hwidth := hstatus.width
    have hheight := hstatus.height
    rw [hone, Finset.sum_range_one] at hwidth
    rw [hrow, Finset.sum_range_one] at hheight
    refine ⟨⟨fun hon => absurd hoff hon, fun hmore => by omega⟩, ?_, ?_⟩
    · unfold HevcPps.columns
      rw [if_neg (not_not.mpr hoff), hone, ← hwidth]
      rfl
    · unfold HevcPps.rows
      rw [if_neg (not_not.mpr hoff), hrow, ← hheight]
      rfl

/-- The set that is written for a status, behind any others. -/
def sent (pps : HevcPps) (channel : PpsChannel) (iMaxRef : ℤ)
    (before : List (PpsChannel × TileStatus × HlsInfo)) (last : PpsChannel × TileStatus × HlsInfo) :
    HevcPps :=
  (((pps.generate channel iMaxRef).updates before).update last.1 last.2.1 last.2.2)

theorem coded_sent (pps : HevcPps) (channel : PpsChannel) (iMaxRef : ℤ)
    (before : List (PpsChannel × TileStatus × HlsInfo)) (last : PpsChannel × TileStatus × HlsInfo) :
    (pps.sent channel iMaxRef before last).Coded :=
  ((coded_generate pps channel iMaxRef).updates before).update last.1 last.2.1 last.2.2

/-- The set that is written for a status is read back. -/
theorem sent_read (pps : HevcPps) (channel : PpsChannel) (iMaxRef : ℤ)
    (before : List (PpsChannel × TileStatus × HlsInfo)) (last : PpsChannel × TileStatus × HlsInfo)
    {aup : HevcAup} {sps : HevcSps}
    (hsps : aup.pSPS[(pps.sent channel iMaxRef before last).ppsSeqParameterSetId]? = some sps)
    (hconceal : sps.bConceal = false)
    (hstatus : last.2.1.Partition sps.picWidthInCtbs sps.picHeightInCtbs) {bufSize : ℕ}
    (hroom : AL_ENC_MAX_CONFIG_HEADER_SIZE ≤ bufSize) (hint : 8 * bufSize < 2 ^ 31)
    (tmpBuffer : ℕ → UInt8) {uTempId : UInt8} (htemp : uTempId < 7) {c : CircBuffer}
    (hc : c.Holds (((pps.sent channel iMaxRef before last).createPps uTempId).bytes .hevc tmpBuffer
      bufSize)) (scratch : ℕ → UInt8) {fuel : ℕ} (hfuel : 8 < fuel) :
    Ends (aup.parsePPS fuel) (.init c scratch true) fun r _ => ∃ id dec, r.2 = some id ∧
      r.1.pPPS[id]? = some dec ∧
      (dec.Describes sps last.2.1 ↔ 1 < last.2.1.uNumClmn ∨ last.2.1.uNumRow = 1) ∧
      (bitAt scratch (8 * (6 + (pps.sent channel iMaxRef before last).payloadSize)) = false →
        dec.bConceal = false) := by
  have hcoded := coded_sent pps channel iMaxRef before last
  have hsized : (pps.sent channel iMaxRef before last).Sized last.2.1 := sized_update _ _ _ hstatus
  have htiles : (pps.sent channel iMaxRef before last).tilesEnabledFlag ≠ 0 →
      (pps.sent channel iMaxRef before last).Explicit sps := fun hne => by
    apply hsized.explicit hstatus
    by_contra hnot
    rw [hsized.enabled, if_neg hnot] at hne
    exact hne rfl
  have hfaces := faces_createPps (hcoded.sendable htiles)
    ((hcoded.payloadSize_lt htiles).trans_le hroom) hint tmpBuffer htemp hc scratch
  refine (hcoded.parsePPS hsps hconceal htiles rfl hfaces hfuel).imp ?_
  rintro r q ⟨dec, hid, hdec, hread, haccepted⟩
  exact ⟨_, dec, hid, hdec, hsized.describes_iff hstatus hread, haccepted⟩

/-- The tiles of a status come through if and only if it has several columns or one row. -/
theorem sent_describes_iff (pps : HevcPps) (channel : PpsChannel) (iMaxRef : ℤ)
    (before : List (PpsChannel × TileStatus × HlsInfo)) (last : PpsChannel × TileStatus × HlsInfo)
    {aup : HevcAup} {sps : HevcSps}
    (hsps : aup.pSPS[(pps.sent channel iMaxRef before last).ppsSeqParameterSetId]? = some sps)
    (hconceal : sps.bConceal = false)
    (hstatus : last.2.1.Partition sps.picWidthInCtbs sps.picHeightInCtbs) {bufSize : ℕ}
    (hroom : AL_ENC_MAX_CONFIG_HEADER_SIZE ≤ bufSize) (hint : 8 * bufSize < 2 ^ 31)
    (tmpBuffer : ℕ → UInt8) {uTempId : UInt8} (htemp : uTempId < 7) {c : CircBuffer}
    (hc : c.Holds (((pps.sent channel iMaxRef before last).createPps uTempId).bytes .hevc tmpBuffer
      bufSize)) (scratch : ℕ → UInt8) {fuel : ℕ} (hfuel : 8 < fuel) :
    Ends (aup.parsePPS fuel) (.init c scratch true) (fun r _ => ∃ id dec, r.2 = some id ∧
        r.1.pPPS[id]? = some dec ∧ dec.Describes sps last.2.1 ∧
        (bitAt scratch (8 * (6 + (pps.sent channel iMaxRef before last).payloadSize)) = false →
          dec.bConceal = false)) ↔
      1 < last.2.1.uNumClmn ∨ last.2.1.uNumRow = 1 := by
  have hread := sent_read pps channel iMaxRef before last hsps hconceal hstatus hroom hint tmpBuffer
    htemp hc scratch hfuel
  constructor
  · intro hends
    obtain ⟨r, q, -, ⟨id, dec, hid, hdec, hiff, -⟩, id', dec', hid', hdec', hdescribes, -⟩ :=
      hread.and hends
    obtain rfl := Option.some.inj (hid'.symm.trans hid)
    obtain rfl := Option.some.inj (hdec'.symm.trans hdec)
    exact hiff.mp hdescribes
  · intro hcond
    refine hread.imp ?_
    rintro r q ⟨id, dec, hid, hdec, hiff, haccepted⟩
    exact ⟨id, dec, hid, hdec, hiff.mpr hcond, haccepted⟩

/-! ## Two pictures -/

end HevcPps

def PpsChannel.plain : PpsChannel where
  bDependentSlice := false
  eQpCtrlMode := 0
  eQpTableMode := 0
  gdrOn := false
  uPpsParam := 0
  eEncTools := 0
  iCbPicQpOffset := 0
  iCrPicQpOffset := 0
  iBetaOffset := 0
  iTcOffset := 0
  uCuQPDeltaDepth := 0
  uSliceSize := 0
  eRCMode := 0
  pMaxPictureSize _ := 0
  cb_fits := by decide
  cr_fits := by decide
  beta_fits := by decide
  tc_fits := by decide
  depth_lt := by decide

def HlsInfo.unchanged : HlsInfo where
  bResolutionChanged := false
  uNalID := 0
  bLFOffsetChanged := false
  iLFBetaOffset := 0
  iLFTcOffset := 0
  id_lt := by decide
  beta_fits := by decide
  tc_fits := by decide

/-- Two columns that are not uniform. -/
def TileStatus.twoColumns : TileStatus where
  uNumClmn := 2
  uNumRow := 1
  iTileWidth i := if i = 0 then 100 else 172
  iTileHeight _ := 2
  iPpsQP := 26
  uCuQpDeltaDepth := 0
  depth_lt := by decide

/-- Two rows in one column. -/
def TileStatus.twoRows : TileStatus where
  uNumClmn := 1
  uNumRow := 2
  iTileWidth _ := 272
  iTileHeight _ := 1
  iPpsQP := 26
  uCuQpDeltaDepth := 0
  depth_lt := by decide

/-- The stream buffer with some bytes. -/
def CircBuffer.of (raw : List UInt8) : CircBuffer := ⟨memOf raw, raw.length, 0, raw.length⟩

theorem CircBuffer.holds_of (raw : List UInt8) : (CircBuffer.of raw).Holds raw where
  avail := rfl
  data k hk := by
    unfold CircBuffer.of
    rw [Nat.zero_add, Nat.mod_eq_of_lt hk]
    exact memOf_of_lt hk

namespace HevcPps

/-- The NAL unit of the first picture, in a buffer of two kilobytes. -/
def firstNal (status : TileStatus) : List UInt8 :=
  ((cleared.sent .plain 1 [] (.plain, status, .unchanged)).createPps 0).bytes .hevc (fun _ => 0)
    AL_ENC_MAX_CONFIG_HEADER_SIZE

theorem sent_describes_twoColumns :
    Ends (HevcAup.wide.parsePPS 9) (.init (.of (firstNal .twoColumns)) (fun _ => 0) true) (fun r _ =>
        ∃ id dec, r.2 = some id ∧ r.1.pPPS[id]? = some dec ∧ dec.Describes .wide .twoColumns ∧
          (bitAt (fun _ => 0) (8 * (6 + (cleared.sent .plain 1 []
            (.plain, .twoColumns, .unchanged)).payloadSize)) = false → dec.bConceal = false)) ↔
      1 < 2 ∨ 1 = 1 :=
  sent_describes_iff cleared .plain 1 [] (.plain, .twoColumns, .unchanged) HevcAup.wide_sps rfl
    ⟨by decide, by decide, by decide, by decide, by decide, by decide, by decide, by decide⟩ le_rfl
    (by decide) _ (by decide) (CircBuffer.holds_of _) _ (by decide)

/-- Two rows in one column are not described. -/
theorem not_sent_describes : ¬∀ (pps : HevcPps) (channel : PpsChannel) (iMaxRef : ℤ)
    (before : List (PpsChannel × TileStatus × HlsInfo)) (last : PpsChannel × TileStatus × HlsInfo)
    (aup : HevcAup) (sps : HevcSps) (c : CircBuffer),
      aup.pSPS[(pps.sent channel iMaxRef before last).ppsSeqParameterSetId]? = some sps →
      sps.bConceal = false → last.2.1.Partition sps.picWidthInCtbs sps.picHeightInCtbs →
      c.Holds (((pps.sent channel iMaxRef before last).createPps 0).bytes .hevc (fun _ => 0)
        AL_ENC_MAX_CONFIG_HEADER_SIZE) →
      Ends (aup.parsePPS 9) (.init c (fun _ => 0) true) fun r _ => ∃ id dec, r.2 = some id ∧
        r.1.pPPS[id]? = some dec ∧ dec.Describes sps last.2.1 := by
  intro hall
  have hpartition : TileStatus.twoRows.Partition 272 2 :=
    ⟨by decide, by decide, by decide, by decide, by decide, by decide, by decide, by decide⟩
  have hends := hall cleared .plain 1 [] (.plain, .twoRows, .unchanged) .wide .wide _ HevcAup.wide_sps
    rfl hpartition (CircBuffer.holds_of _)
  have hread := sent_read cleared .plain 1 [] (.plain, .twoRows, .unchanged) HevcAup.wide_sps rfl
    hpartition le_rfl (by decide) (fun _ => 0) (show (0 : UInt8) < 7 by decide)
    (CircBuffer.holds_of _) (fun _ => 0) (show 8 < 9 by decide)
  obtain ⟨r, q, -, ⟨id, dec, hid, hdec, hiff, -⟩, id', dec', hid', hdec', hdescribes⟩ :=
    hread.and hends
  obtain rfl := Option.some.inj (hid'.symm.trans hid)
  obtain rfl := Option.some.inj (hdec'.symm.trans hdec)
  have hcond : 1 < 1 ∨ 2 = 1 := hiff.mp hdescribes
  exact absurd hcond (by decide)

end HevcPps

end VcuCodec
