import VcuCodec.HevcPpsUpdates
import VcuCodec.HevcTiles
import VcuCodec.NalFlush
import VcuCodec.RbspTrailing

/-!
# Reading the HEVC picture parameter set of the encoder

`AL_HEVC_ParsePPS` in front of the elements that `writePpsData` writes.  Whatever the scratch
buffer holds, the tiles are read as they were written; the set is accepted if the buffer is
clean behind the payload.
-/

namespace VcuCodec

open BitStrings CheckedRuns Checked Parse SyntaxElement Finset

/-! ## Elements in front of the parser -/

/-- The elements `es` are all that is in front of the parser; if `all` holds, they have been
fetched. -/
structure RbspParser.Faces (p : RbspParser) (clean all : Prop) (es : List SyntaxElement) : Prop where
  ahead : p.Ahead clean (codes es)
  fetched : all → p.finishedFetching = true

namespace RbspParser.Faces

open HevcPps

variable {p : RbspParser} {clean all : Prop} {es : List SyntaxElement}

variable {Q : ℕ → RbspParser → Prop}

theorem u {n v : ℕ} (h : p.Faces clean all (⟨.u n, v⟩ :: es)) (hn : n ≤ 32) (hv : v < 2 ^ n)
    (hq : ∀ q : RbspParser, q.Faces clean all es → Q v q) : Ends (Parse.u n) p Q := by
  have hahead : p.Ahead clean (fixed n v ++ codes es) := h.ahead
  obtain ⟨hval, hrest, -⟩ := hahead.u hn hv
  apply (ends_step _).mpr
  rw [hval]
  exact hq _ ⟨hrest, fun hall => RbspParser.u_finished (h.fetched hall) n⟩

theorem bit {n : ℕ} (h : p.Faces clean all (bit n :: es)) (hn : n < 2)
    (hq : ∀ q : RbspParser, q.Faces clean all es → Q n q) : Ends (Parse.u 1) p Q :=
  h.u (by decide) hn hq

theorem uint {x : ℤ} (h : p.Faces clean all (uintElement x :: es)) (h0 : 0 ≤ x) (hx : x < 2 ^ 31)
    (hq : ∀ q : RbspParser, q.Faces clean all es → Q x.toNat q) : Ends Parse.ue p Q := by
  have hval : toUInt32 x = x.toNat := by
    unfold toUInt32
    omega
  have hahead : p.Ahead clean (golomb (toUInt32 x) ++ codes es) := h.ahead
  rw [hval] at hahead
  obtain ⟨hread, hrest, -⟩ := hahead.ue (by omega)
  apply (ends_step _).mpr
  rw [hread]
  exact hq _ ⟨hrest, fun hall => RbspParser.ue_finished (h.fetched hall)⟩

theorem sint {x : ℤ} (h : p.Faces clean all (⟨.se, x⟩ :: es)) (hx : FitsInt8 x)
    {Q : ℤ → RbspParser → Prop} (hq : ∀ q : RbspParser, q.Faces clean all es → Q x q) :
    Ends Parse.se p Q := by
  obtain ⟨hlo, hhi⟩ := hx
  have hahead : p.Ahead clean (golomb (signedCode x) ++ codes es) := h.ahead
  obtain ⟨hread, hrest, -⟩ := hahead.se (by omega) (by omega)
  apply (ends_step _).mpr
  rw [hread]
  exact hq _ ⟨hrest, fun hall => RbspParser.se_finished (h.fetched hall)⟩

theorem more (h : p.Faces clean all es) (hne : codes es ≠ []) {Q : Bool → RbspParser → Prop}
    (hq : ∀ q : RbspParser, q.Faces clean (all ∨ (codes es).length < 150) es → Q true q) :
    Ends Parse.moreRbspData p Q := by
  obtain ⟨hmore, hahead⟩ := h.ahead.moreRbspData_true hne
  apply (ends_step _).mpr
  rw [hmore]
  refine hq _ ⟨hahead, ?_⟩
  rintro (hall | hlen)
  · have hstay : p.moreRbspData.2 = p := by
      unfold RbspParser.moreRbspData
      rw [RbspParser.Carries.fetchData_of_finished (h.fetched hall)]
    rw [hstay]
    exact h.fetched hall
  · exact h.ahead.moreRbspData_finished hlen

end RbspParser.Faces

namespace HevcPps

variable {pps dec : HevcPps} {sps : HevcSps} {p : RbspParser} {clean all : Prop}
  {rest : List SyntaxElement}

/-! ## In front of the tiles -/

/-- What the parser needs behind the flags: the set has not been extended, and tiles are
enabled as they were written. -/
structure Follows (dec pps : HevcPps) : Prop where
  tiles : dec.tilesEnabledFlag = pps.tilesEnabledFlag
  range : dec.ppsRangeExtensionFlag = 0
  bits : dec.ppsExtension7bits = 0

theorem fits_of_uint8 {x : ℤ} (h : 0 ≤ x ∧ x < 2 ^ 8) : 0 ≤ x ∧ x < 2 ^ 31 := by omega

theorem Coded.readFlags (h : pps.Coded) (hp : p.Faces clean all (pps.headElements ++ rest))
    (hrange : dec.ppsRangeExtensionFlag = 0) (hbits : dec.ppsExtension7bits = 0) (sps : HevcSps) :
    Ends (dec.readFlags sps) p fun r q => q.Faces clean all rest ∧ r.Follows pps := by
  have hflags := h.flag_lt
  simp only [flags, List.forall_mem_cons] at hflags
  obtain ⟨hdep, hout, hsign, hcabac, hintra, hskip, hdelta, hslice, hweight, hbiweight, hbypass,
    htiles, hsync, -⟩ := hflags
  have hl0 := fits_of_uint8 h.refL0
  have hl1 := fits_of_uint8 h.refL1
  have hdepth := fits_of_uint8 h.depth
  simp only [headElements, List.append_assoc, List.cons_append, List.nil_append] at hp
  unfold HevcPps.readFlags
  refine ends_bind.mpr (hp.bit hdep fun p hp => ?_)
  refine ends_bind.mpr (hp.bit hout fun p hp => ?_)
  refine ends_bind.mpr (hp.u (v := 0) (by decide) (by decide) fun p hp => ?_)
  refine ends_bind.mpr (hp.bit hsign fun p hp => ?_)
  refine ends_bind.mpr (hp.bit hcabac fun p hp => ?_)
  refine ends_bind.mpr (hp.uint hl0.1 hl0.2 fun p hp => ?_)
  refine ends_bind.mpr (hp.uint hl1.1 hl1.2 fun p hp => ?_)
  refine ends_bind.mpr (hp.sint h.qp fun p hp => ?_)
  refine ends_bind.mpr (hp.bit hintra fun p hp => ?_)
  refine ends_bind.mpr (hp.bit hskip fun p hp => ?_)
  refine ends_bind.mpr (hp.bit hdelta fun p hp => ?_)
  have hread : Ends (readIf (pps.cuQpDeltaEnabledFlag ≠ 0) ue 0) p fun _ q =>
      q.Faces clean all ([⟨.se, pps.ppsCbQpOffset⟩, ⟨.se, pps.ppsCrQpOffset⟩,
        HevcPps.bit pps.ppsSliceChromaQpOffsetsPresentFlag, HevcPps.bit pps.weightedPredFlag,
        HevcPps.bit pps.weightedBipredFlag, HevcPps.bit pps.transquantBypassEnabledFlag,
        HevcPps.bit pps.tilesEnabledFlag, HevcPps.bit pps.entropyCodingSyncEnabledFlag] ++ rest) := by
    refine ends_readIf.mpr ⟨fun hne => ?_, fun heq => ?_⟩
    · rw [if_pos hne] at hp
      exact hp.uint hdepth.1 hdepth.2 fun q hq => hq
    · rw [if_neg heq] at hp
      exact hp
  refine ends_bind.mpr (hread.imp fun depth p hp => ?_)
  refine ends_bind.mpr (hp.sint h.cb fun p hp => ?_)
  refine ends_bind.mpr (hp.sint h.cr fun p hp => ?_)
  refine ends_bind.mpr (hp.bit hslice fun p hp => ?_)
  refine ends_bind.mpr (hp.bit hweight fun p hp => ?_)
  refine ends_bind.mpr (hp.bit hbiweight fun p hp => ?_)
  refine ends_bind.mpr (hp.bit hbypass fun p hp => ?_)
  refine ends_bind.mpr (hp.bit htiles fun p hp => ?_)
  refine ends_bind.mpr (hp.bit hsync fun p hp => ?_)
  exact (ends_pure _).mpr ⟨hp, rfl, hrange, hbits⟩

/-! ## The tiles -/

theorem sizes_ends {num : ℕ} {written : ℕ → ℕ}
    (hsize : ∀ i < num, 0 < written i ∧ written i < 2 ^ 16)
    (hp : p.Faces clean all (sizeElements num written ++ rest)) (sizes : ℕ → ℕ) :
    Ends (readSizes num sizes) p fun r q => q.Faces clean all rest ∧
      (∀ i < num, r.1 i = written i) ∧ r.2 = (∑ i ∈ range num, written i) % 2 ^ 16 := by
  have hlast : (sizeElements num written).drop num = [] := by
    apply List.drop_eq_nil_of_le
    simp [sizeElements]
  unfold readSizes
  refine Ends.imp (forBelow_ends (fun i (r : (ℕ → ℕ) × ℕ) q =>
    q.Faces clean all ((sizeElements num written).drop i ++ rest) ∧
      (∀ k < i, r.1 k = written k) ∧ r.2 = (∑ k ∈ range i, written k) % 2 ^ 16) ?_ ?_) ?_
  · rintro i ⟨read, sum⟩ q hi ⟨hq, hread, hsum⟩
    obtain ⟨hpos, hlt⟩ := hsize i hi
    have hdrop : (sizeElements num written).drop i =
        uintElement (written i - 1) :: (sizeElements num written).drop (i + 1) := by
      rw [List.drop_eq_getElem_cons (by simpa [sizeElements] using hi)]
      simp [sizeElements]
    rw [hdrop] at hq
    refine ends_bind.mpr (hq.uint (by omega) (by omega) fun q' hq' => ?_)
    apply (ends_pure _).mpr
    have hsize : (((written i : ℤ) - 1).toNat + 1) % 2 ^ 16 = written i := by omega
    rw [hsize]
    dsimp only at hread hsum ⊢
    refine ⟨hq', fun k hk => ?_, ?_⟩
    · rcases Nat.lt_succ_iff_lt_or_eq.mp hk with hlt | rfl
      · rw [Function.update_of_ne hlt.ne]
        exact hread k hlt
      · exact Function.update_self _ _ _
    · rw [hsum, Nat.mod_add_mod, Finset.sum_range_succ]
  · exact ⟨hp, fun k hk => absurd hk (Nat.not_lt_zero k), rfl⟩
  · rintro r q ⟨hq, hread, hsum⟩
    rw [hlast] at hq
    exact ⟨hq, hread, hsum⟩

/-- The tiles that are written, for a picture of the size of `sps`. -/
structure Explicit (pps : HevcPps) (sps : HevcSps) : Prop where
  columns_lt : pps.numTileColumnsMinus1 < maxColumnsTile
  rows_lt : pps.numTileRowsMinus1 < maxRowsTile
  column_pos : ∀ i < pps.numTileColumnsMinus1, 0 < pps.columnWidth i
  row_pos : ∀ i < pps.numTileRowsMinus1, 0 < pps.rowHeight i
  width : ∑ i ∈ range pps.numTileColumnsMinus1, pps.columnWidth i < sps.picWidthInCtbs
  height : ∑ i ∈ range pps.numTileRowsMinus1, pps.rowHeight i < sps.picHeightInCtbs

variable {sizes : ℕ → ℕ}

theorem le_sum {num : ℕ} (hpos : ∀ i < num, 0 < sizes i) : num ≤ ∑ i ∈ range num, sizes i := by
  have h := Finset.card_nsmul_le_sum (range num) sizes 1 fun i hi => hpos i (Finset.mem_range.mp hi)
  simpa using h

theorem sizes_fit {num total : ℕ} (hpos : ∀ i < num, 0 < sizes i)
    (hsum : ∑ i ∈ range num, sizes i < total) (htotal : total < 2 ^ 16) :
    ∀ i < num, 0 < sizes i ∧ sizes i < 2 ^ 16 := by
  intro i hi
  have hle := Finset.single_le_sum (f := sizes) (fun j _ => Nat.zero_le (sizes j))
    (Finset.mem_range.mpr hi)
  exact ⟨hpos i hi, by omega⟩

/-- The sizes of `dec` are those of `pps`, with the rest of the picture for the last. -/
structure SameTiles (dec pps : HevcPps) (sps : HevcSps) : Prop where
  columns : dec.numTileColumnsMinus1 = pps.numTileColumnsMinus1
  rows : dec.numTileRowsMinus1 = pps.numTileRowsMinus1
  column : ∀ i < pps.numTileColumnsMinus1, dec.columnWidth i = pps.columnWidth i
  row : ∀ i < pps.numTileRowsMinus1, dec.rowHeight i = pps.rowHeight i
  lastColumn : dec.columnWidth pps.numTileColumnsMinus1 =
    sps.picWidthInCtbs - ∑ i ∈ range pps.numTileColumnsMinus1, pps.columnWidth i
  lastRow : dec.rowHeight pps.numTileRowsMinus1 =
    sps.picHeightInCtbs - ∑ i ∈ range pps.numTileRowsMinus1, pps.rowHeight i

theorem Explicit.readTiles (h : pps.Explicit sps)
    (hp : p.Faces clean all ([uintElement pps.numTileColumnsMinus1, uintElement pps.numTileRowsMinus1,
      bit 0] ++ sizeElements pps.numTileColumnsMinus1 pps.columnWidth ++
      sizeElements pps.numTileRowsMinus1 pps.rowHeight ++ rest)) (hdec : dec.Follows pps) :
    Ends (dec.readTiles sps) p fun r q => q.Faces clean all rest ∧
      ∃ dec', r = .inr dec' ∧ dec'.Follows pps ∧ dec'.SameTiles pps sps := by
  have hcolumns : pps.numTileColumnsMinus1 < 20 := h.columns_lt
  have hrows : pps.numTileRowsMinus1 < 22 := h.rows_lt
  have hwidth := le_sum h.column_pos
  have hheight := le_sum h.row_pos
  have hwidthLt := h.width
  have hheightLt := h.height
  have hwidthMax := sps.width_lt
  have hheightMax := sps.height_lt
  simp only [List.append_assoc, List.cons_append, List.nil_append] at hp
  unfold HevcPps.readTiles
  refine ends_bind.mpr (hp.uint (by omega) (by omega) fun p hp => ?_)
  refine ends_bind.mpr (hp.uint (by omega) (by omega) fun p hp => ?_)
  refine ends_bind.mpr (hp.bit (by decide) fun p hp => ?_)
  have hcolumnsMod : (pps.numTileColumnsMinus1 : ℤ).toNat % 2 ^ 16 = pps.numTileColumnsMinus1 := by
    omega
  have hrowsMod : (pps.numTileRowsMinus1 : ℤ).toNat % 2 ^ 16 = pps.numTileRowsMinus1 := by omega
  rw [hcolumnsMod, hrowsMod]
  dsimp only
  have hbounds : ¬(sps.picWidthInCtbs ≤ pps.numTileColumnsMinus1 ∨
      sps.picHeightInCtbs ≤ pps.numTileRowsMinus1 ∨ maxColumnsTile ≤ pps.numTileColumnsMinus1 ∨
      maxRowsTile ≤ pps.numTileRowsMinus1) := by
    unfold maxColumnsTile maxRowsTile
    omega
  rw [if_neg hbounds, if_pos rfl]
  refine ends_bind.mpr ((sizes_ends (sizes_fit h.column_pos hwidthLt hwidthMax) hp _).imp ?_)
  rintro ⟨columnWidth, uClmnOffset⟩ p ⟨hp, hcolumn, hoffset⟩
  refine ends_bind.mpr ((sizes_ends (sizes_fit h.row_pos hheightLt hheightMax) hp _).imp ?_)
  rintro ⟨rowHeight, uLineOffset⟩ p ⟨hp, hrow, hline⟩
  dsimp only at hcolumn hoffset hrow hline ⊢
  rw [Nat.mod_eq_of_lt (by omega)] at hoffset hline
  rw [if_neg (by omega)]
  refine (ends_pure _).mpr ⟨hp, _, rfl, ⟨hdec.tiles, hdec.range, hdec.bits⟩, ?_⟩
  refine ⟨rfl, rfl, fun i hi => ?_, fun i hi => ?_, ?_, ?_⟩
  · exact (Function.update_of_ne hi.ne _ _).trans (hcolumn i hi)
  · exact (Function.update_of_ne hi.ne _ _).trans (hrow i hi)
  · rw [← hoffset]
    exact Function.update_self _ _ _
  · rw [← hline]
    exact Function.update_self _ _ _

/-! ## Behind the tiles -/

theorem length_signed {x : ℤ} (hx : FitsInt8 x) : (golomb (signedCode x)).length ≤ 17 := by
  obtain ⟨hlo, hhi⟩ := hx
  have hcode : signedCode x + 1 < 2 ^ 9 := by
    unfold signedCode
    split <;> omega
  have hlog : (signedCode x + 1).log2 < 9 := (Nat.log2_lt (Nat.succ_ne_zero _)).mpr hcode
  rw [length_golomb]
  omega

theorem Coded.length_rest (h : pps.Coded) : (codes pps.restElements).length < 150 := by
  have hlevel : (golomb (toUInt32 0)).length = 1 := by decide +kernel
  unfold restElements
  rw [h.level]
  split
  · next hpresent =>
    split
    · next henabled =>
      obtain ⟨hbeta, htc⟩ := h.offsets hpresent henabled
      have hbeta := length_signed hbeta
      have htc := length_signed htc
      simp only [codes, List.flatMap_append, List.flatMap_cons, List.flatMap_nil, code, HevcPps.bit,
        uintElement, List.length_append, length_fixed, List.length_nil, Int.toNat_natCast, hlevel]
      omega
    · simp only [codes, List.flatMap_append, List.flatMap_cons, List.flatMap_nil, code, HevcPps.bit,
        uintElement, List.length_append, length_fixed, List.length_nil, Int.toNat_natCast, hlevel]
      omega
  · simp only [codes, List.flatMap_append, List.flatMap_cons, List.flatMap_nil, code, HevcPps.bit,
      uintElement, List.length_append, length_fixed, List.length_nil, Int.toNat_natCast, hlevel]
    omega

theorem codes_bit_ne_nil (n : ℕ) (es : List SyntaxElement) : codes (bit n :: es) ≠ [] := by
  simp [codes, code, HevcPps.bit, fixed]

theorem Coded.checkMore (h : pps.Coded) (hp : p.Faces clean all pps.restElements)
    (dec : HevcPps) (sps : HevcSps) :
    Ends (dec.checkMore sps) p fun r q => q.Faces clean True pps.restElements ∧
      r = .inr (dec, sps) := by
  unfold HevcPps.checkMore
  refine ends_bind.mpr (hp.more ?_ fun q hq => ?_)
  · exact codes_bit_ne_nil _ _
  · exact (ends_pure _).mpr ⟨⟨hq.ahead, fun _ => hq.fetched (.inr h.length_rest)⟩, rfl⟩

theorem Coded.readTilesIf (h : pps.Coded) (htiles : pps.tilesEnabledFlag ≠ 0 → pps.Explicit sps)
    (hp : p.Faces clean all (pps.tileElements ++ pps.restElements)) (hdec : dec.Follows pps) :
    Ends (dec.readTilesIf sps) p fun r q => q.Faces clean True pps.restElements ∧
      ∃ dec', r = .inr (dec', sps) ∧ dec'.Follows pps ∧
        (pps.tilesEnabledFlag ≠ 0 → dec'.SameTiles pps sps) := by
  have hmore {dec' : HevcPps} {q : RbspParser} (hq : q.Faces clean all pps.restElements)
      (hdec' : dec'.Follows pps) (hsame : pps.tilesEnabledFlag ≠ 0 → dec'.SameTiles pps sps) :
      Ends (dec'.checkMore sps) q fun r t => t.Faces clean True pps.restElements ∧
        ∃ dec', r = .inr (dec', sps) ∧ dec'.Follows pps ∧
          (pps.tilesEnabledFlag ≠ 0 → dec'.SameTiles pps sps) :=
    (h.checkMore hq dec' sps).imp fun r t ht => ⟨ht.1, dec', ht.2, hdec', hsame⟩
  unfold HevcPps.readTilesIf
  rw [ends_next, hdec.tiles]
  refine ends_readIf.mpr ⟨fun hne => ?_, fun heq => ?_⟩
  · have hacross := h.flag_lt pps.loopFilterAcrossTilesEnabledFlag (by simp [flags])
    unfold tileElements at hp
    rw [if_pos hne, List.append_assoc _ _ pps.restElements] at hp
    rw [ends_next]
    refine ((htiles hne).readTiles hp hdec).imp ?_
    rintro r q ⟨hq, dec', rfl, hfollows, hsame⟩
    refine ends_bind.mpr (hq.bit hacross fun q hq => (ends_pure _).mpr ?_)
    exact hmore hq ⟨hfollows.tiles, hfollows.range, hfollows.bits⟩ fun _ =>
      ⟨hsame.columns, hsame.rows, hsame.column, hsame.row, hsame.lastColumn, hsame.lastRow⟩
  · unfold tileElements at hp
    rw [if_neg heq] at hp
    exact hmore hp hdec fun hne => absurd hne heq

/-- The deblocking filter; the scaling lists and the rest are ahead then. -/
theorem Coded.readDeblocking (h : pps.Coded) (hp : p.Faces clean all pps.restElements)
    (hdec : dec.Follows pps) :
    Ends dec.readDeblocking p fun r q => r.Follows pps ∧
      q.Faces clean all [bit pps.ppsScalingListDataPresentFlag, bit pps.listsModificationPresentFlag,
        uintElement pps.log2ParallelMergeLevelMinus2, bit 0, bit pps.ppsExtensionPresentFlag] := by
  have hacross := h.flag_lt pps.loopFilterAcrossSlicesEnabledFlag (by simp [flags])
  have hpresent := h.flag_lt pps.deblockingFilterControlPresentFlag (by simp [flags])
  have hfollows : ∀ {r : HevcPps}, r.tilesEnabledFlag = dec.tilesEnabledFlag →
      r.ppsRangeExtensionFlag = dec.ppsRangeExtensionFlag →
      r.ppsExtension7bits = dec.ppsExtension7bits → r.Follows pps := fun ht hr hb =>
    ⟨ht.trans hdec.tiles, hr.trans hdec.range, hb.trans hdec.bits⟩
  simp only [restElements, List.cons_append, List.nil_append] at hp
  unfold HevcPps.readDeblocking
  refine ends_bind.mpr (hp.bit hacross fun p hp => ?_)
  refine ends_bind.mpr (hp.bit hpresent fun p hp => ?_)
  refine ends_ite.mpr ⟨fun habsent => ?_, fun hne => ?_⟩
  · rw [if_neg (not_not.mpr habsent)] at hp
    exact (ends_pure _).mpr ⟨hfollows rfl rfl rfl, hp⟩
  obtain ⟨hoverride, hdisabled⟩ := h.filter hne
  rw [if_pos hne] at hp
  simp only [List.cons_append] at hp
  refine ends_bind.mpr (hp.bit hoverride fun p hp => ?_)
  refine ends_bind.mpr (hp.bit hdisabled fun p hp => ?_)
  refine ends_ite.mpr ⟨fun hoff => ?_, fun hon => ?_⟩
  · rw [if_neg hoff] at hp
    exact (ends_pure _).mpr ⟨hfollows rfl rfl rfl, hp⟩
  have hon := not_not.mp hon
  obtain ⟨hbeta, htc⟩ := h.offsets hne hon
  rw [if_pos hon] at hp
  refine ends_bind.mpr (hp.sint hbeta fun p hp => ?_)
  refine ends_bind.mpr (hp.sint htc fun p hp => ?_)
  exact (ends_pure _).mpr ⟨hfollows rfl rfl rfl, hp⟩

theorem Coded.readScaling (h : pps.Coded)
    (hp : p.Faces clean all [bit pps.ppsScalingListDataPresentFlag,
      bit pps.listsModificationPresentFlag, uintElement pps.log2ParallelMergeLevelMinus2, bit 0,
      bit pps.ppsExtensionPresentFlag]) (hdec : dec.Follows pps) (sps : HevcSps) :
    Ends (dec.readScaling sps) p fun r q => r.Follows pps ∧ q.Faces clean all [] := by
  have hlists := h.flag_lt pps.listsModificationPresentFlag (by simp [flags])
  rw [h.scaling, h.level, h.extension] at hp
  unfold HevcPps.readScaling
  refine ends_bind.mpr (hp.bit (by decide) fun p hp => ?_)
  refine ends_bind.mpr (ends_readIf.mpr ⟨fun hne => absurd rfl hne, fun _ => ?_⟩)
  refine ends_bind.mpr (hp.bit hlists fun p hp => ?_)
  refine ends_bind.mpr (hp.uint (by decide) (by decide) fun p hp => ?_)
  refine ends_bind.mpr (hp.bit (by decide) fun p hp => ?_)
  refine ends_bind.mpr (hp.bit (by decide) fun p hp => ?_)
  rw [if_pos rfl]
  exact (ends_pure _).mpr ⟨⟨hdec.tiles, hdec.range, hdec.bits⟩, hp⟩

variable {fuel : ℕ}

theorem Coded.readRest (h : pps.Coded) (hp : p.Faces clean True pps.restElements)
    (hdec : dec.Follows pps) (hfuel : 8 < fuel) (sps : HevcSps) :
    Ends (dec.readRest fuel sps) p fun r _ => clean → r.bConceal = false := by
  unfold HevcPps.readRest
  refine ends_bind.mpr ((h.readDeblocking hp hdec).imp ?_)
  rintro dec1 p ⟨hdec1, hp⟩
  refine ends_bind.mpr ((h.readScaling hp hdec1 sps).imp ?_)
  rintro dec2 p ⟨hdec2, hp⟩
  refine ends_bind.mpr (ends_readIf.mpr ⟨fun hne => absurd hdec2.range hne, fun _ => ?_⟩)
  refine ends_bind.mpr (ends_readIf.mpr ⟨fun hne => absurd hdec2.bits hne, fun _ => ?_⟩)
  obtain ⟨found, q, hrun, hfound⟩ := hp.ahead.rbspTrailingBits (hp.fetched trivial) hfuel
  refine ends_bind.mpr ((ends_of_eq hrun).mpr ((ends_pure _).mpr fun hclean => ?_))
  rw [hfound hclean]
  rfl

/-! ## The set -/

/-- What is read of the tiles of `pps`. -/
structure ReadAs (dec pps : HevcPps) (sps : HevcSps) : Prop where
  enabled : dec.tilesEnabledFlag = pps.tilesEnabledFlag
  same : pps.tilesEnabledFlag ≠ 0 → dec.SameTiles pps sps

theorem ends_readAt_of {α : Type} {n : ℕ} {v : Vector α n} {i : ℕ} {a : α} (h : v[i]? = some a)
    {Q : α → RbspParser → Prop} (hq : Q a p) : Ends (readAt v i) p Q := by
  obtain ⟨hi, rfl⟩ := Vector.getElem?_eq_some_iff.mp h
  refine ends_readAt.mpr ⟨by omega, ?_⟩
  exact hq

theorem lt_of_getElem? {α : Type} {n : ℕ} {v : Vector α n} {i : ℕ} {a : α} (h : v[i]? = some a) :
    i < n := (Vector.getElem?_eq_some_iff.mp h).1

theorem Coded.parse (h : pps.Coded) {aup : HevcAup}
    (hsps : aup.pSPS[pps.ppsSeqParameterSetId]? = some sps) (hconceal : sps.bConceal = false)
    (htiles : pps.tilesEnabledFlag ≠ 0 → pps.Explicit sps)
    (hp : p.Faces clean False (uintElement pps.ppsSeqParameterSetId ::
      (pps.headElements ++ (pps.tileElements ++ pps.restElements))))
    (hrange : dec.ppsRangeExtensionFlag = 0) (hbits : dec.ppsExtension7bits = 0)
    (hfuel : 8 < fuel) :
    Ends (dec.parse fuel aup) p fun r _ => r.ReadAs pps sps ∧ (clean → r.bConceal = false) := by
  have hid : pps.ppsSeqParameterSetId < 16 := lt_of_getElem? hsps
  have hmod : (pps.ppsSeqParameterSetId : ℤ).toNat % 2 ^ 8 = pps.ppsSeqParameterSetId := by omega
  have hread : Ends (dec.readSps aup) p fun r q => q.Faces clean False
      (pps.headElements ++ (pps.tileElements ++ pps.restElements)) ∧ ∃ dec',
        r = .inr (dec', sps) ∧ dec'.ppsRangeExtensionFlag = 0 ∧ dec'.ppsExtension7bits = 0 := by
    unfold HevcPps.readSps
    refine ends_bind.mpr (hp.uint (by omega) (by omega) fun q hq => ?_)
    rw [hmod]
    dsimp only
    rw [if_neg (by unfold hevcMaxSps; omega)]
    refine ends_bind.mpr (ends_readAt_of hsps ?_)
    rw [hconceal, if_neg (by decide)]
    exact (ends_pure _).mpr ⟨hq, _, rfl, hrange, hbits⟩
  unfold HevcPps.parse
  rw [ends_bind, ends_next, ends_next]
  unfold HevcPps.toTiles
  rw [ends_next]
  refine hread.imp ?_
  rintro r p ⟨hp, dec, rfl, hrange, hbits⟩
  refine ends_bind.mpr ((h.readFlags hp hrange hbits sps).imp ?_)
  rintro dec p ⟨hp, hdec⟩
  unfold HevcPps.checkMore
  refine ends_bind.mpr (hp.more ?_ fun p hp => (ends_pure _).mpr ?_)
  · intro hnil
    rw [codes, List.flatMap_append] at hnil
    exact codes_bit_ne_nil _ _ (List.append_eq_nil_iff.mp hnil).2
  refine (h.readTilesIf htiles hp hdec).imp ?_
  rintro r p ⟨hp, dec, rfl, hdec, hsame⟩
  obtain ⟨dec', q, hrun, haccepted⟩ := h.readRest hp hdec hfuel sps
  obtain ⟨hhead, hkeep⟩ := results_readRest fuel dec sps p dec' q hrun
  refine ends_bind.mpr ((ends_of_eq hrun).mpr ((ends_pure _).mpr ((ends_pure _).mpr ⟨?_, haccepted⟩)))
  have henabled : dec'.tilesEnabledFlag = dec.tilesEnabledFlag := congrArg Prod.snd hhead
  simp only [HevcPps.tiles, Prod.mk.injEq] at hkeep
  obtain ⟨hcolumns, hrows, hwidth, hheight, -⟩ := hkeep
  refine ⟨henabled.trans hdec.tiles, fun hne => ?_⟩
  have hs := hsame hne
  constructor
  · exact hcolumns.trans hs.columns
  · exact hrows.trans hs.rows
  · rw [Sum.elim_inr, id, hwidth]
    exact hs.column
  · rw [Sum.elim_inr, id, hheight]
    exact hs.row
  · rw [Sum.elim_inr, id, hwidth]
    exact hs.lastColumn
  · rw [Sum.elim_inr, id, hheight]
    exact hs.lastRow

/-! ## The NAL unit -/

/-- The start code with its additional byte and the header of a NAL unit. -/
def startElements (hdr : NalHeader) : List SyntaxElement :=
  [⟨.u 8, 0⟩, ⟨.u 8, 0⟩, ⟨.u 8, 0⟩, ⟨.u 8, 1⟩, ⟨.u 16, value (bitsOf hdr.bytes)⟩]

theorem ends_skipAllZeros {n : ℕ} {es : List SyntaxElement}
    (hp : p.Faces clean all (List.replicate n ⟨.u 8, 0⟩ ++ ⟨.u 8, 1⟩ :: es)) (hfuel : n < fuel) :
    Ends (skipAllZerosAndTheNextByte fuel) p fun _ q => q.Faces clean all es := by
  induction n generalizing p fuel with
  | zero =>
    obtain ⟨fuel, rfl⟩ := Nat.exists_eq_succ_of_ne_zero hfuel.ne'
    unfold skipAllZerosAndTheNextByte
    refine ends_bind.mpr (hp.u (v := 1) (by decide) (by decide) fun q hq => ?_)
    exact (ends_pure _).mpr hq
  | succ n ih =>
    obtain ⟨fuel, rfl⟩ := Nat.exists_eq_succ_of_ne_zero (by omega : fuel ≠ 0)
    rw [List.replicate_succ, List.cons_append] at hp
    unfold skipAllZerosAndTheNextByte
    refine ends_bind.mpr (hp.u (v := 0) (by decide) (by decide) fun q hq => ?_)
    rw [if_pos rfl]
    exact ih hq (by omega)

/-- `AL_HEVC_ParsePPS` in front of the NAL unit of a set. -/
theorem Coded.parsePPS (h : pps.Coded) {aup : HevcAup}
    (hsps : aup.pSPS[pps.ppsSeqParameterSetId]? = some sps) (hconceal : sps.bConceal = false)
    (htiles : pps.tilesEnabledFlag ≠ 0 → pps.Explicit sps) {hdr : NalHeader}
    (hhdr : hdr.bytes.length = 2) (hp : p.Faces clean False (startElements hdr ++ pps.elements))
    (hfuel : 8 < fuel) :
    Ends (aup.parsePPS fuel) p fun r _ => ∃ dec, r.2 = some pps.ppsPicParameterSetId ∧
      r.1.pPPS[pps.ppsPicParameterSetId]? = some dec ∧ dec.ReadAs pps sps ∧
      (clean → dec.bConceal = false) := by
  have hid : pps.ppsPicParameterSetId < 16 := by
    rw [h.same_id]
    exact lt_of_getElem? hsps
  have hmod : (pps.ppsPicParameterSetId : ℤ).toNat % 2 ^ 16 = pps.ppsPicParameterSetId := by omega
  have hheader := value_lt (bitsOf hdr.bytes)
  rw [length_bitsOf, hhdr] at hheader
  simp only [startElements, elements, List.cons_append, List.nil_append, List.append_assoc] at hp
  have hread : Ends (readPpsId fuel) p fun id q => id = pps.ppsPicParameterSetId ∧
      q.Faces clean False (uintElement pps.ppsSeqParameterSetId ::
        (pps.headElements ++ (pps.tileElements ++ pps.restElements))) := by
    unfold readPpsId
    refine ends_bind.mpr ((ends_skipAllZeros (n := 3) hp (by omega)).imp fun _ q hq => ?_)
    refine ends_bind.mpr (hq.u (by decide) hheader fun q hq => ?_)
    refine ends_bind.mpr (hq.uint (by omega) (by omega) fun q hq => ?_)
    exact (ends_pure _).mpr ⟨hmod, hq⟩
  unfold HevcAup.parsePPS
  refine ends_bind.mpr (hread.imp ?_)
  rintro id q ⟨rfl, hq⟩
  rw [if_neg (by unfold hevcMaxPps; omega)]
  have hin : 0 ≤ (pps.ppsPicParameterSetId : ℤ) ∧ (pps.ppsPicParameterSetId : ℤ) < hevcMaxPps := by
    unfold hevcMaxPps
    omega
  refine ends_bind.mpr (ends_readAt.mpr ⟨hin, ?_⟩)
  refine ends_bind.mpr ((h.parse hsps hconceal htiles hq rfl rfl hfuel).imp ?_)
  rintro dec t ⟨hdec, haccepted⟩
  refine ends_bind.mpr (ends_writeAt.mpr ⟨hin, (ends_pure _).mpr ⟨dec, rfl, ?_, hdec, haccepted⟩⟩)
  simp

end HevcPps

end VcuCodec
