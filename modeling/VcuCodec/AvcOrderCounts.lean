import VcuCodec.AvcPictSteps

/-!
# Picture order counts of type 0

The order counts of H.264 clause 8.2.1.1, and the streams for which the picture
manager computes them.  Behind a picture with operation 5 the clause takes the
MSB as 0 and the LSB as the top order count less `tempPicOrderCnt`, until the
next reference picture.  The picture manager takes the top order count as it is,
and it does so for one picture only.
-/

namespace VcuCodec

/-! ## Clause 8.2.1.1 -/

/-- What the clause reads of the previous reference picture.  `isPrevious` says
that no picture came after it. -/
structure RefPicture where
  picOrderCntMsb : ℤ
  picOrderCntLsb : ℕ
  deltaPicOrderCntBottom : ℤ
  hasMMCO5 : Bool
  isPrevious : Bool

namespace RefPicture

def topFieldOrderCnt (r : RefPicture) : ℤ := r.picOrderCntMsb + r.picOrderCntLsb

def bottomFieldOrderCnt (r : RefPicture) : ℤ := r.topFieldOrderCnt + r.deltaPicOrderCntBottom

def tempPicOrderCnt (r : RefPicture) : ℤ := min r.topFieldOrderCnt r.bottomFieldOrderCnt

/-- `prevPicOrderCntMsb` behind `r` -/
def prevPicOrderCntMsb (r : RefPicture) : ℤ := if r.hasMMCO5 then 0 else r.picOrderCntMsb

/-- `prevPicOrderCntLsb` behind `r` -/
def prevPicOrderCntLsb (r : RefPicture) : ℤ :=
  if r.hasMMCO5 then r.topFieldOrderCnt - r.tempPicOrderCnt else r.picOrderCntLsb

/-- The memory of the clause for the next picture, where there is one. -/
def prev (r : Option RefPicture) (slice : AvcSliceHdr) : ℤ × ℤ :=
  match r with
  | some r =>
    if slice.isIDR then (0, 0) else (r.prevPicOrderCntMsb, r.prevPicOrderCntLsb)
  | none => (0, 0)

/-- `PicOrderCntMsb` of a picture behind `r` -/
def msb (r : Option RefPicture) (slice : AvcSliceHdr) : ℤ :=
  LsbCounters.msb slice.sps.maxPicOrderCntLsb (prev r slice).1 (prev r slice).2
    slice.picOrderCntLsb

/-- The picture of `slice` as the next reference picture. -/
def current (r : Option RefPicture) (slice : AvcSliceHdr) : RefPicture where
  picOrderCntMsb := msb r slice
  picOrderCntLsb := slice.picOrderCntLsb
  deltaPicOrderCntBottom := slice.deltaPicOrderCntBottom
  hasMMCO5 := slice.HasMMCO5
  isPrevious := true

/-- The last reference picture behind the picture of `slice`. -/
def next (r : Option RefPicture) (slice : AvcSliceHdr) : Option RefPicture :=
  if slice.nalRefIdc ≠ 0 then some (current r slice)
  else r.map fun r => { r with isPrevious := false }

/-- One picture: its order counts and the reference picture for the next one. -/
def decode (r : Option RefPicture) (p : AvcPicture) : Option RefPicture × (ℤ × ℤ) :=
  (next r p.slice, (current r p.slice).topFieldOrderCnt, (current r p.slice).bottomFieldOrderCnt)

/-! ## Streams -/

/-- What every stream of type 0 keeps to: it starts with an IDR picture, IDR
pictures are references, and the order counts fit in 32 bits. -/
@[mk_iff]
structure WellFormed (r : Option RefPicture) (p : AvcPicture) : Prop where
  start : r.isNone → p.slice.isIDR = true
  type : p.slice.sps.picOrderCntType = 0
  ref : p.slice.isIDR = true → p.slice.nalRefIdc ≠ 0
  top : FitsInt32 (current r p.slice).topFieldOrderCnt
  bottom : FitsInt32 (current r p.slice).bottomFieldOrderCnt

/-- What a picture behind a reference picture `r` with operation 5 needs: an
unadjusted count, the memory of an ordinary picture where another picture came
between, and no gap to fill in front of a picture of the previous cycle. -/
def MemoryKept (r : RefPicture) (slice : AvcSliceHdr) : Prop :=
  r.tempPicOrderCnt = 0 ∧ (r.isPrevious = false → r.picOrderCntMsb = 0) ∧
    (r.isPrevious = true → slice.nalRefIdc ≠ 0 →
      slice.sps.gapsInFrameNumValueAllowedFlag = true → 1 < slice.frameNum →
      (slice.picOrderCntLsb : ℤ) ≤ r.topFieldOrderCnt + slice.sps.maxPicOrderCntLsb / 2)
deriving Decidable

/-- The operation 5 of the last reference picture does not reach the picture, or
the memory is kept. -/
def Allowed (r : Option RefPicture) (p : AvcPicture) : Prop :=
  WellFormed r p ∧
    ∀ r' ∈ r, r'.hasMMCO5 = true → p.slice.isIDR = false → r'.MemoryKept p.slice

instance (r : Option RefPicture) (p : AvcPicture) : Decidable (WellFormed r p) :=
  decidable_of_iff _ (wellFormed_iff r p).symm

instance (r : Option RefPicture) (p : AvcPicture) : Decidable (Allowed r p) :=
  inferInstanceAs (Decidable (_ ∧ _))

end RefPicture

/-! ## One picture -/

namespace PictMngr

open RefPicture

variable {m m' : PictMngr} {r : Option RefPicture} {p : AvcPicture} {slice : AvcSliceHdr}

theorem getPocType0_eq {prevMsb : ℤ} {prevLsb : ℕ}
    (hprev : m.prevPoc slice = (toInt32 prevMsb, prevLsb)) :
    let msb := LsbCounters.msb slice.sps.maxPicOrderCntLsb prevMsb prevLsb slice.picOrderCntLsb
    m.getPocType0 slice =
      { m with
        iTopFieldOrderCnt := toInt32 (msb + slice.picOrderCntLsb)
        iBotFieldOrderCnt := toInt32 (msb + slice.picOrderCntLsb + slice.deltaPicOrderCntBottom)
        uPrevPocLSB := if slice.nalRefIdc ≠ 0 then slice.picOrderCntLsb else m.uPrevPocLSB
        iPrevPocMSB := if slice.nalRefIdc ≠ 0 then toInt32 msb else m.iPrevPocMSB } := by
  intro msb
  have hmsb : nextPocMsb slice.sps.maxPicOrderCntLsb (toInt32 prevMsb) prevLsb
      slice.picOrderCntLsb = toInt32 msb := nextPocMsb_eq ..
  unfold getPocType0
  simp only [hprev, hmsb]
  rw [toInt32_toInt32_add, toInt32_toInt32_add]

/-- What the picture manager holds behind the reference picture `r`. -/
structure Remembers (m : PictMngr) (r : RefPicture) : Prop where
  flag : m.dpb.bLastHasMMCO5 = (r.hasMMCO5 && r.isPrevious)
  msb : m.iPrevPocMSB = toInt32 r.picOrderCntMsb
  lsb : m.uPrevPocLSB = r.picOrderCntLsb
  top : r.hasMMCO5 = true → r.isPrevious = true → m.iTopFieldOrderCnt = r.topFieldOrderCnt
  frameNum : r.hasMMCO5 = true → r.isPrevious = true → m.iPrevFrameNum = 0
  fits : FitsInt32 r.topFieldOrderCnt

/-- The memory of the picture manager is that of the clause. -/
theorem Remembers.prevPoc_eq {r : RefPicture} (h : m.Remembers r)
    (hk : r.hasMMCO5 = true → slice.isIDR = false → r.MemoryKept slice) :
    ∃ prevLsb : ℕ, prev (some r) slice = ((prev (some r) slice).1, (prevLsb : ℤ)) ∧
      m.prevPoc slice = (toInt32 (prev (some r) slice).1, prevLsb) := by
  unfold prev prevPoc
  cases hi : slice.isIDR with
  | true => exact ⟨0, rfl, rfl⟩
  | false =>
    cases hm : r.hasMMCO5 with
    | false =>
      have hf : m.dpb.bLastHasMMCO5 = false := by simp [h.flag, hm]
      refine ⟨r.picOrderCntLsb, ?_, ?_⟩
      · simp [prevPicOrderCntLsb, hm]
      · simp [prevPicOrderCntMsb, hm, hf, h.msb, h.lsb]
    | true =>
      obtain ⟨htemp, hbetween, -⟩ := hk hm hi
      have htop : 0 ≤ r.topFieldOrderCnt := by
        rw [← htemp]
        exact min_le_left _ _
      have hprev : r.prevPicOrderCntLsb = r.topFieldOrderCnt := by
        simp [prevPicOrderCntLsb, hm, htemp]
      cases hp : r.isPrevious with
      | true =>
        -- the flag is still up, and the clause has nothing to subtract
        have hf : m.dpb.bLastHasMMCO5 = true := by simp [h.flag, hm, hp]
        refine ⟨toUInt32 m.iTopFieldOrderCnt, ?_, ?_⟩
        · rw [h.top hm hp, toUInt32_of_fits htop h.fits]
          simp [hprev]
        · simp [prevPicOrderCntMsb, hm, hf]
      | false =>
        -- the flag is down, and the picture is remembered as any other
        have hf : m.dpb.bLastHasMMCO5 = false := by simp [h.flag, hp]
        have hz : r.picOrderCntMsb = 0 := hbetween hp
        refine ⟨r.picOrderCntLsb, ?_, ?_⟩
        · simp [hprev, topFieldOrderCnt, hz]
        · simp [prevPicOrderCntMsb, hm, hf, h.msb, h.lsb, hz]

/-- The context between the order counts of a picture and its marking, where
the picture is the reference picture `c` of the clause or no reference. -/
structure Counted (m : PictMngr) (slice : AvcSliceHdr) (c : RefPicture) (m' : PictMngr) :
    Prop where
  flag : m'.dpb.bLastHasMMCO5 = m.dpb.bLastHasMMCO5
  msb : m'.iPrevPocMSB = if slice.nalRefIdc ≠ 0 then toInt32 c.picOrderCntMsb else m.iPrevPocMSB
  lsb : m'.uPrevPocLSB = if slice.nalRefIdc ≠ 0 then c.picOrderCntLsb else m.uPrevPocLSB
  top : slice.nalRefIdc ≠ 0 → m'.iTopFieldOrderCnt = toInt32 c.topFieldOrderCnt

theorem calculatePOC_type0 (htype : slice.sps.picOrderCntType = 0) :
    (m.calculatePOC slice).1 = m.getPocType0 slice := by
  simp [calculatePOC, htype]

/-- An inferred frame in front of a picture leaves the memory of the picture
as it is. -/
theorem Counted.inferFrame {c : RefPicture} {m₀ : PictMngr} {k : ℕ}
    (h : m₀.Counted slice c m) (htype : slice.sps.picOrderCntType = 0) (hi : slice.isIDR = false)
    (hlsb : c.picOrderCntLsb = slice.picOrderCntLsb)
    (hagain : m₀.dpb.bLastHasMMCO5 = true → slice.nalRefIdc ≠ 0 →
      (toUInt32 (toInt32 c.topFieldOrderCnt) : ℤ) = c.topFieldOrderCnt ∧
        LsbCounters.msb slice.sps.maxPicOrderCntLsb 0 c.topFieldOrderCnt slice.picOrderCntLsb =
          c.picOrderCntMsb)
    (hm : m.inferFrame slice k = some m') : m₀.Counted slice c m' := by
  obtain ⟨d, hd, rfl⟩ := inferFrame_eq hm
  have hcalc : (m.calculatePOC (slice.unused k)).1 = m.getPocType0 (slice.unused k) :=
    calculatePOC_type0 htype
  rw [hcalc]
  by_cases href : slice.nalRefIdc = 0
  · -- no reference: only the order counts change
    have hmsb : (m.getPocType0 (slice.unused k)).iPrevPocMSB = m.iPrevPocMSB := if_neg (· href)
    have hlsb : (m.getPocType0 (slice.unused k)).uPrevPocLSB = m.uPrevPocLSB := if_neg (· href)
    exact ⟨hd.trans h.flag, hmsb.trans h.msb, hlsb.trans h.lsb, fun hne => absurd href hne⟩
  · obtain ⟨prevMsb, prevLsb, hprev, heq⟩ : ∃ prevMsb, ∃ prevLsb : ℕ,
        m.prevPoc (slice.unused k) = (toInt32 prevMsb, prevLsb) ∧
          LsbCounters.msb slice.sps.maxPicOrderCntLsb prevMsb prevLsb slice.picOrderCntLsb =
            c.picOrderCntMsb := by
      have hi' : (slice.unused k).isIDR = false := hi
      cases hf : m₀.dpb.bLastHasMMCO5 with
      | true =>
        obtain ⟨hfit, hmsb⟩ := hagain hf href
        refine ⟨0, toUInt32 (toInt32 c.topFieldOrderCnt), ?_, ?_⟩
        · simp [prevPoc, hi', h.flag.trans hf, h.top href]
        · rw [hfit, hmsb]
      | false =>
        refine ⟨c.picOrderCntMsb, slice.picOrderCntLsb, ?_, LsbCounters.msb_self ..⟩
        simp [prevPoc, hi', h.flag.trans hf, h.msb, h.lsb, href, hlsb]
    have hpoc := getPocType0_eq hprev
    have heq' : LsbCounters.msb (slice.unused k).sps.maxPicOrderCntLsb prevMsb prevLsb
        (slice.unused k).picOrderCntLsb = c.picOrderCntMsb := heq
    rw [heq'] at hpoc
    rw [hpoc]
    refine ⟨hd.trans h.flag, ?_, ?_, fun _ => ?_⟩
    · simp [setPrevFrameNum, setDpb, AvcSliceHdr.unused, href]
    · simp [setPrevFrameNum, setDpb, AvcSliceHdr.unused, href, hlsb]
    · simp [setPrevFrameNum, setDpb, AvcSliceHdr.unused, topFieldOrderCnt, hlsb]

/-- What the picture manager holds about the last reference picture, if any. -/
def RemembersLast (m : PictMngr) (r : Option RefPicture) : Prop := ∀ r' ∈ r, m.Remembers r'

/-- The order counts of the current picture are those of the clause. -/
theorem RemembersLast.setCurrentPOC (h : m.RemembersLast r) (ha : Allowed r p) :
    (m.setCurrentPOC p.slice).iTopFieldOrderCnt = (current r p.slice).topFieldOrderCnt ∧
      (m.setCurrentPOC p.slice).iBotFieldOrderCnt = (current r p.slice).bottomFieldOrderCnt ∧
      (m.setCurrentPOC p.slice).iPrevFrameNum = m.iPrevFrameNum ∧
      m.Counted p.slice (current r p.slice) (m.setCurrentPOC p.slice) := by
  obtain ⟨hw, hk⟩ := ha
  obtain ⟨prevLsb, hspec, hprev⟩ : ∃ prevLsb : ℕ,
      prev r p.slice = ((prev r p.slice).1, (prevLsb : ℤ)) ∧
        m.prevPoc p.slice = (toInt32 (prev r p.slice).1, prevLsb) := by
    cases r with
    | none =>
      have hi : p.slice.isIDR = true := hw.start rfl
      exact ⟨0, rfl, by simp [prevPoc, hi, prev]⟩
    | some r => exact (h r rfl).prevPoc_eq (hk r rfl)
  have hpoc : m.setCurrentPOC p.slice =
      (m.getPocType0 p.slice).setCurFramePOC (m.calculatePOC p.slice).2 := by
    rw [← calculatePOC_type0 hw.type]
    rfl
  have hmsb : LsbCounters.msb p.slice.sps.maxPicOrderCntLsb (prev r p.slice).1 prevLsb
      p.slice.picOrderCntLsb = (current r p.slice).picOrderCntMsb := by
    unfold current RefPicture.msb
    rw [hspec]
  rw [hpoc, getPocType0_eq hprev, hmsb]
  have htop := toInt32_of_fits hw.top
  have hbot := toInt32_of_fits hw.bottom
  exact ⟨htop, hbot, rfl, rfl, rfl, rfl, fun _ => rfl⟩

/-- The gap in front of a picture leaves what the picture stored. -/
theorem RemembersLast.fillGap {counts : List OrderCounts} (h : m.RemembersLast r)
    (ha : Allowed r p)
    (hm : (m.setCurrentPOC p.slice).fillGapInFrameNum p.slice = some (m', counts)) :
    m.Counted p.slice (current r p.slice) m' := by
  obtain ⟨-, -, hnum, hc⟩ := h.setCurrentPOC ha
  obtain ⟨hw, hk⟩ := ha
  unfold fillGapInFrameNum at hm
  split at hm
  · next hgap =>
    simp only [hasGap, Bool.and_eq_true, Bool.not_eq_true', bne_iff_ne] at hgap
    obtain ⟨⟨⟨hi, hprev⟩, hnext⟩, hallowed⟩ := hgap
    apply inferFrames_keeps (m.Counted p.slice (current r p.slice)) _ hc hm
    intro m1 k m2 hc1 hm1
    apply hc1.inferFrame hw.type hi rfl _ hm1
    intro hf href
    -- the flag is up: the previous picture is a reference picture with operation 5
    cases r with
    | none => simp [hw.start rfl] at hi
    | some r =>
      have hr := h r rfl
      obtain ⟨hm5, hp⟩ : r.hasMMCO5 = true ∧ r.isPrevious = true := by
        simpa [hr.flag] using hf
      obtain ⟨htemp, -, hkept⟩ := hk r rfl hm5 hi
      have hnum0 : (m.setCurrentPOC p.slice).iPrevFrameNum = 0 := hnum.trans (hr.frameNum hm5 hp)
      have hone : 1 < p.slice.frameNum := by
        have hmax : 1 < p.slice.sps.maxFrameNum := Nat.one_lt_two_pow (by omega)
        have h1 : (m.setCurrentPOC p.slice).nextFrameNum p.slice = 1 := by
          unfold nextFrameNum
          rw [hnum0]
          exact Nat.mod_eq_of_lt hmax
        rw [hnum0] at hprev
        rw [h1] at hnext
        omega
      have hlsb := hkept hp href hallowed hone
      have hprev0 : prev (some r) p.slice = (0, r.topFieldOrderCnt) := by
        simp [prev, hi, prevPicOrderCntMsb, prevPicOrderCntLsb, hm5, htemp]
      have hmsb : (current (some r) p.slice).picOrderCntMsb =
          LsbCounters.msb p.slice.sps.maxPicOrderCntLsb 0 r.topFieldOrderCnt
            p.slice.picOrderCntLsb := by
        unfold current RefPicture.msb
        rw [hprev0]
      have hpos : (0 : ℤ) < p.slice.sps.maxPicOrderCntLsb := by
        exact_mod_cast Nat.two_pow_pos _
      have hagain := LsbCounters.msb_again hpos hlsb
      rw [← hmsb] at hagain
      refine ⟨?_, hagain⟩
      rw [toInt32_of_fits hw.top, toUInt32_of_fits _ hw.top]
      have hnonneg : 0 ≤ (current (some r) p.slice).picOrderCntMsb := by
        rw [hmsb]
        exact LsbCounters.msb_nonneg hpos hlsb
      exact Int.add_nonneg hnonneg (Int.natCast_nonneg _)
  · obtain ⟨rfl, -⟩ : m.setCurrentPOC p.slice = m' ∧ _ := by simpa using hm
    exact hc

/-- One picture: its order counts are those of the clause, and so is what the
picture manager remembers behind it. -/
theorem RemembersLast.decodePicture {c : PictureCounts} (h : m.RemembersLast r)
    (ha : Allowed r p) (hm : m.decodePicture p = some (m', c)) :
    (c.own.topFieldOrderCnt, c.own.bottomFieldOrderCnt) = (RefPicture.decode r p).2 ∧
      m'.RemembersLast (RefPicture.decode r p).1 := by
  obtain ⟨m1, hgap, hupd, hown⟩ := decodePicture_eq hm
  obtain ⟨htop, hbot, -, -⟩ := h.setCurrentPOC ha
  have hc := h.fillGap ha hgap
  obtain ⟨d, hd, rfl⟩ := updatePictManager_eq hupd
  refine ⟨?_, ?_⟩
  · rw [hown]
    exact Prod.ext htop hbot
  · intro r' hr'
    change r' ∈ next r p.slice at hr'
    unfold next at hr'
    split at hr'
    · next href =>
      -- a reference picture is remembered with its own counts
      obtain rfl : current r p.slice = r' := by simpa using hr'
      have htop' : m1.iTopFieldOrderCnt = (current r p.slice).topFieldOrderCnt := by
        rw [hc.top href, toInt32_of_fits ha.1.top]
      have hmsb := hc.msb
      have hlsb := hc.lsb
      rw [if_pos href] at hmsb hlsb
      constructor
      · split_ifs with hm5 <;> simp [setDpb, hd, hm5, current]
      · split_ifs <;> exact hmsb
      · split_ifs <;> exact hlsb
      · intro _ _
        split_ifs <;> exact htop'
      · intro hm5 _
        rw [if_pos (by simpa [current] using hm5)]
        rfl
      · exact ha.1.top
    · next href =>
      -- any other picture leaves the memory as it is
      obtain ⟨r0, hr0, rfl⟩ := Option.map_eq_some_iff.mp hr'
      have hm5 : ¬ p.slice.HasMMCO5 := fun hm5 => href hm5.1
      have hr := h r0 hr0
      have hmsb := hc.msb
      have hlsb := hc.lsb
      rw [if_neg href] at hmsb hlsb
      rw [if_neg hm5]
      constructor
      · simp [setDpb, hd, hm5]
      · exact hmsb.trans hr.msb
      · exact hlsb.trans hr.lsb
      · simp
      · simp
      · exact hr.fits

/-! ## Streams -/

/-- The order counts of the decoded pictures. -/
def PictureCounts.fieldOrderCnts (c : PictureCounts) : ℤ × ℤ :=
  (c.own.topFieldOrderCnt, c.own.bottomFieldOrderCnt)

/-- On a stream in which no operation 5 leaves a count to adjust, is followed
too late by a reference picture of a later cycle, or too early by a gap, the
order counts are those of the clause. -/
theorem fieldOrderCnts_of_stream {ps : List AvcPicture} {counts : List PictureCounts}
    (ha : TracedRuns.Along RefPicture.decode Allowed ps none) (hm : m.decode ps = some counts) :
    counts.map PictureCounts.fieldOrderCnts = TracedRuns.outputs RefPicture.decode ps none := by
  apply TracedRuns.trace_eq RemembersLast PictureCounts.fieldOrderCnts _ _ ha hm
  · intro m r p m' c h ha hm
    exact h.decodePicture ha hm
  · simp [RemembersLast]

/-- An IDR picture, a reference picture with operation 5 the bottom field of
which comes first, a picture that is no reference, and three reference pictures
over a wrap of the LSB. -/
def adjustedStream : List AvcPicture :=
  [.sample 0 (.withOrder (.sample 4 5 0) 1 0 0),
    .sample 1 (.withOrder (.withMmco (.sample 4 1 1) [5, 0] [] []) 1 4 (-4)),
    .sample 2 (.withOrder (.sample 4 1 1) 0 6 0),
    .sample 3 (.withOrder (.sample 4 1 1) 1 8 0),
    .sample 4 (.withOrder (.sample 4 1 2) 1 14 1),
    .sample 5 (.withOrder (.sample 4 1 3) 1 2 1)]

theorem fieldOrderCnts_adjustedStream :
    ∃ counts, (sample 4).decode adjustedStream = some counts ∧
      counts.map PictureCounts.fieldOrderCnts =
        [(0, 0), (4, 0), (6, 6), (8, 8), (14, 15), (18, 19)] := by
  obtain ⟨counts, hm⟩ : ∃ counts, (sample 4).decode adjustedStream = some counts :=
    Option.isSome_iff_exists.mp (by decide +kernel)
  have ha : TracedRuns.Along RefPicture.decode Allowed adjustedStream none := by decide +kernel
  refine ⟨counts, hm, (fieldOrderCnts_of_stream ha hm).trans ?_⟩
  decide +kernel

/-- An operation 5 in the picture with order count 12, in front of one with
order count 2. -/
def lateStream : List AvcPicture :=
  [.sample 0 (.withOrder (.sample 4 5 0) 1 0 0),
    .sample 1 (.withOrder (.sample 4 1 1) 1 6 0),
    .sample 2 (.withOrder (.withMmco (.sample 4 1 2) [5, 0] [] []) 1 12 0),
    .sample 3 (.withOrder (.sample 4 1 1) 1 2 0)]

/-- The stream is well-formed, and its last picture gets the order count 18
instead of 2. -/
theorem not_fieldOrderCnts_lateStream :
    TracedRuns.Along RefPicture.decode WellFormed lateStream none ∧
      ∃ counts, (sample 4).decode lateStream = some counts ∧
        counts.map PictureCounts.fieldOrderCnts = [(0, 0), (6, 6), (12, 12), (18, 18)] ∧
        TracedRuns.outputs RefPicture.decode lateStream none =
          [(0, 0), (6, 6), (12, 12), (2, 2)] := by
  refine ⟨by decide +kernel, ?_⟩
  obtain ⟨counts, hm⟩ : ∃ counts, (sample 4).decode lateStream = some counts :=
    Option.isSome_iff_exists.mp (by decide +kernel)
  refine ⟨counts, hm, ?_, by decide +kernel⟩
  have hmap : ((sample 4).decode lateStream).map (List.map PictureCounts.fieldOrderCnts) =
      some [(0, 0), (6, 6), (12, 12), (18, 18)] := by decide +kernel
  simpa [hm] using hmap

end PictMngr

end VcuCodec
