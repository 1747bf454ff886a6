import VcuCodec.AvcPictSteps

/-!
# Picture order counts of types 1 and 2

The frame-number offsets and order counts of H.264 clauses 8.2.1.2 and 8.2.1.3,
for the pictures of a stream and the frames inferred in its gaps, and the
streams for which the picture manager computes them.  The clauses go through the
inferred frames first.  The picture manager counts the current picture first, so
that a gap over the end of the frame numbers counts the wrap twice, and it
computes an inferred frame from the header of the current picture.
-/

namespace VcuCodec

open PictMngr (OrderCounts PictureCounts)

/-! ## Clauses 8.2.1.2 and 8.2.1.3 -/

/-- What the clauses read of the previous picture, existing or inferred. -/
structure PrevPicture where
  frameNum : ℕ
  frameNumOffset : ℤ
  hasMMCO5 : Bool

namespace PrevPicture

/-- `prevFrameNum`: a picture with operation 5 counts as one with `frame_num` 0. -/
def prevFrameNum (q : PrevPicture) : ℕ := if q.hasMMCO5 then 0 else q.frameNum

def prevFrameNumOffset (q : PrevPicture) : ℤ := if q.hasMMCO5 then 0 else q.frameNumOffset

/-- `FrameNumOffset` of a picture behind `q` -/
def nextOffset (q : PrevPicture) (slice : AvcSliceHdr) : ℤ :=
  if slice.isIDR then 0
  else if slice.frameNum < q.prevFrameNum then q.prevFrameNumOffset + slice.sps.maxFrameNum
  else q.prevFrameNumOffset

def absFrameNum (offset : ℤ) (slice : AvcSliceHdr) : ℤ :=
  let abs := if slice.sps.numRefFramesInPicOrderCntCycle ≠ 0 then offset + slice.frameNum else 0
  if slice.nalRefIdc = 0 ∧ 0 < abs then abs - 1 else abs

def expectedPicOrderCnt (offset : ℤ) (slice : AvcSliceHdr) : ℤ :=
  let sps := slice.sps
  let abs := absFrameNum offset slice
  let picOrderCntCycleCnt := (abs - 1) / sps.numRefFramesInPicOrderCntCycle
  let frameNumInPicOrderCntCycle := (abs - 1) % sps.numRefFramesInPicOrderCntCycle
  (if 0 < abs then
    picOrderCntCycleCnt * sps.offsetForRefFrame.sum +
      (sps.offsetForRefFrame.take (frameNumInPicOrderCntCycle.toNat + 1)).sum
  else 0) + if slice.nalRefIdc = 0 then sps.offsetForNonRefPic else 0

def tempPicOrderCnt (offset : ℤ) (slice : AvcSliceHdr) : ℤ :=
  if slice.isIDR then 0
  else if slice.nalRefIdc = 0 then 2 * (offset + slice.frameNum) - 1
  else 2 * (offset + slice.frameNum)

def topFieldOrderCnt (offset : ℤ) (slice : AvcSliceHdr) : ℤ :=
  if slice.sps.picOrderCntType = 1 then
    expectedPicOrderCnt offset slice + slice.deltaPicOrderCnt.1
  else tempPicOrderCnt offset slice

def bottomFieldOrderCnt (offset : ℤ) (slice : AvcSliceHdr) : ℤ :=
  if slice.sps.picOrderCntType = 1 then
    topFieldOrderCnt offset slice + slice.sps.offsetForTopToBottomField + slice.deltaPicOrderCnt.2
  else tempPicOrderCnt offset slice

/-- The order counts of a frame with the frame-number offset `offset`. -/
def counts (offset : ℤ) (slice : AvcSliceHdr) : OrderCounts :=
  ⟨offset, topFieldOrderCnt offset slice, bottomFieldOrderCnt offset slice⟩

/-- The frame numbers missing between `q` and the picture behind it, where the
stream allows gaps. -/
def gap (q : PrevPicture) (slice : AvcSliceHdr) : List ℕ :=
  let max := slice.sps.maxFrameNum
  let first := (q.prevFrameNum + 1) % max
  if slice.isIDR = false ∧ slice.sps.gapsInFrameNumValueAllowedFlag = true ∧
      slice.frameNum ≠ q.prevFrameNum then
    (List.range ((slice.frameNum + max - first) % max)).map fun i => (first + i) % max
  else []

/-- The header of an inferred frame: a reference frame that sends no deltas. -/
def inferredHdr (slice : AvcSliceHdr) (frameNum : ℕ) : AvcSliceHdr :=
  { slice with frameNum := frameNum, nalRefIdc := 1, deltaPicOrderCnt := (0, 0) }

/-- The inferred frames, one after the other. -/
def inferred (slice : AvcSliceHdr) : List ℕ → PrevPicture → PrevPicture × List OrderCounts
  | [], q => (q, [])
  | k :: ks, q =>
    let c := counts (q.nextOffset (inferredHdr slice k)) (inferredHdr slice k)
    let (q', cs) := inferred slice ks ⟨k, c.frameNumOffset, false⟩
    (q', c :: cs)

/-- One picture: the frames inferred in front of it, then its own counts. -/
def decode (q : Option PrevPicture) (p : AvcPicture) : Option PrevPicture × PictureCounts :=
  let q := q.getD ⟨0, 0, false⟩
  let (q, cs) := inferred p.slice (q.gap p.slice) q
  let own := counts (q.nextOffset p.slice) p.slice
  (some ⟨p.slice.frameNum, own.frameNumOffset, p.slice.HasMMCO5⟩, ⟨own, cs⟩)

/-! ## Streams -/

def Fits (c : OrderCounts) : Prop :=
  FitsInt32 c.topFieldOrderCnt ∧ FitsInt32 c.bottomFieldOrderCnt
deriving Decidable

/-- What every stream of type 1 or 2 keeps to: it starts with an IDR picture,
frame numbers are below `MaxFrameNum`, and what the clauses compute fits in 32
bits. -/
@[mk_iff]
structure WellFormed (q : Option PrevPicture) (p : AvcPicture) : Prop where
  start : q.isNone → p.slice.isIDR = true
  type : p.slice.sps.picOrderCntType = 1 ∨ p.slice.sps.picOrderCntType = 2
  frameNum : p.slice.frameNum < p.slice.sps.maxFrameNum
  abs : FitsInt32 ((decode q p).2.own.frameNumOffset + p.slice.frameNum)
  own : Fits (decode q p).2.own
  inferred : ∀ c ∈ (decode q p).2.inferred, Fits c

/-- A gap that is filled: it does not go over the end of the frame numbers, and
the picture behind it is a reference without deltas. -/
def GapFilled (q : PrevPicture) (slice : AvcSliceHdr) : Prop :=
  q.prevFrameNum < slice.frameNum ∧ slice.nalRefIdc ≠ 0 ∧
    (slice.sps.picOrderCntType = 1 → slice.deltaPicOrderCnt = (0, 0))
deriving Decidable

def Allowed (q : Option PrevPicture) (p : AvcPicture) : Prop :=
  WellFormed q p ∧ ∀ q' ∈ q, q'.gap p.slice ≠ [] → q'.GapFilled p.slice

instance (q : Option PrevPicture) (p : AvcPicture) : Decidable (WellFormed q p) :=
  decidable_of_iff _ (wellFormed_iff q p).symm

instance (q : Option PrevPicture) (p : AvcPicture) : Decidable (Allowed q p) :=
  inferInstanceAs (Decidable (_ ∧ _))

end PrevPicture

/-! ## The formulas -/

namespace PictMngr

open PrevPicture

variable {m m' : PictMngr} {slice : AvcSliceHdr} {offset : ℤ}

theorem addOffsets_eq (x : ℤ) (l : List ℤ) :
    addOffsets (toInt32 x) l = toInt32 (x + l.sum) := by
  unfold addOffsets
  induction l generalizing x with
  | nil => simp
  | cons o l ih => rw [List.foldl_cons, toInt32_toInt32_add, ih, List.sum_cons, add_assoc]

theorem expectedPicOrderCnt_eq (sps : AvcSps) (n : ℤ) :
    PictMngr.expectedPicOrderCnt sps n =
      toInt32 (if 0 < n then
        (n - 1) / sps.numRefFramesInPicOrderCntCycle * sps.offsetForRefFrame.sum +
          (sps.offsetForRefFrame.take
            (((n - 1) % sps.numRefFramesInPicOrderCntCycle).toNat + 1)).sum
        else 0) := by
  have hsum : addOffsets 0 sps.offsetForRefFrame = toInt32 sps.offsetForRefFrame.sum := by
    have h := addOffsets_eq 0 sps.offsetForRefFrame
    rwa [toInt32_zero, zero_add] at h
  unfold PictMngr.expectedPicOrderCnt
  split
  · dsimp only
    rw [hsum, toInt32_mul_toInt32, addOffsets_eq]
  · rfl

/-- The context behind an order count of type 1 or 2 with the frame-number
offset `offset`. -/
def counted (m : PictMngr) (c : OrderCounts) : PictMngr :=
  { m with
    iPrevFrameNumOffset := c.frameNumOffset
    iTopFieldOrderCnt := toInt32 c.topFieldOrderCnt
    iBotFieldOrderCnt := toInt32 c.bottomFieldOrderCnt }

theorem getPocType1_eq (htype : slice.sps.picOrderCntType = 1)
    (hoff : (m.forgetFrameNum slice).frameNumOffset slice = offset)
    (habs : FitsInt32 (offset + slice.frameNum)) :
    m.getPocType1 slice = (m.forgetFrameNum slice).counted (counts offset slice) := by
  have hexp : (if slice.nalRefIdc = 0 then
      toInt32 (PictMngr.expectedPicOrderCnt slice.sps (absFrameNum offset slice) +
        slice.sps.offsetForNonRefPic)
    else PictMngr.expectedPicOrderCnt slice.sps (absFrameNum offset slice)) =
      toInt32 (PrevPicture.expectedPicOrderCnt offset slice) := by
    rw [expectedPicOrderCnt_eq, toInt32_toInt32_add]
    unfold PrevPicture.expectedPicOrderCnt
    dsimp only
    split
    · rfl
    · rw [add_zero]
  have htop : topFieldOrderCnt offset slice =
      PrevPicture.expectedPicOrderCnt offset slice + slice.deltaPicOrderCnt.1 := if_pos htype
  have hbot : bottomFieldOrderCnt offset slice = topFieldOrderCnt offset slice +
      slice.sps.offsetForTopToBottomField + slice.deltaPicOrderCnt.2 := if_pos htype
  unfold absFrameNum at hexp
  rw [← toInt32_of_fits habs] at hexp
  dsimp only at hexp
  unfold getPocType1 counted counts
  simp only [hoff, hexp, htop, hbot, toInt32_toInt32_add, add_assoc]

theorem getPocType2_eq (htype : slice.sps.picOrderCntType = 2)
    (hoff : (m.forgetFrameNum slice).frameNumOffset slice = offset) :
    m.getPocType2 slice = (m.forgetFrameNum slice).counted (counts offset slice) := by
  have htemp : (if slice.isIDR then 0
    else if slice.nalRefIdc = 0 then toInt32 (2 * (offset + slice.frameNum) - 1)
    else toInt32 (2 * (offset + slice.frameNum))) = toInt32 (tempPicOrderCnt offset slice) := by
    unfold tempPicOrderCnt
    split_ifs <;> rfl
  have htop : topFieldOrderCnt offset slice = tempPicOrderCnt offset slice :=
    if_neg (by omega)
  have hbot : bottomFieldOrderCnt offset slice = tempPicOrderCnt offset slice :=
    if_neg (by omega)
  unfold getPocType2 counted counts
  simp only [hoff, htemp, htop, hbot]

theorem calculatePOC_eq (htype : slice.sps.picOrderCntType = 1 ∨ slice.sps.picOrderCntType = 2)
    (hoff : (m.forgetFrameNum slice).frameNumOffset slice = offset)
    (habs : FitsInt32 (offset + slice.frameNum)) :
    (m.calculatePOC slice).1 = (m.forgetFrameNum slice).counted (counts offset slice) := by
  rcases htype with htype | htype
  · rw [← getPocType1_eq htype hoff habs]
    simp [calculatePOC, htype]
  · rw [← getPocType2_eq htype hoff]
    simp [calculatePOC, htype]

/-! ## Gaps -/

/-- A gap that does not go over the end of the frame numbers. -/
theorem gap_eq {q : PrevPicture} (hf : slice.frameNum < slice.sps.maxFrameNum)
    (hlt : q.prevFrameNum < slice.frameNum) (hg : q.gap slice ≠ []) :
    slice.isIDR = false ∧
      q.gap slice = List.range' (q.prevFrameNum + 1) (slice.frameNum - (q.prevFrameNum + 1)) := by
  unfold gap at hg ⊢
  dsimp only at hg ⊢
  split at hg
  · next h =>
    rw [if_pos h]
    have hfirst : (q.prevFrameNum + 1) % slice.sps.maxFrameNum = q.prevFrameNum + 1 :=
      Nat.mod_eq_of_lt (by omega)
    have hlen : (slice.frameNum + slice.sps.maxFrameNum - (q.prevFrameNum + 1)) %
        slice.sps.maxFrameNum = slice.frameNum - (q.prevFrameNum + 1) := by
      rw [show slice.frameNum + slice.sps.maxFrameNum - (q.prevFrameNum + 1) =
        slice.frameNum - (q.prevFrameNum + 1) + slice.sps.maxFrameNum by omega, Nat.add_mod_right]
      exact Nat.mod_eq_of_lt (by omega)
    refine ⟨h.1, ?_⟩
    rw [hfirst, hlen, List.range'_eq_map_range]
    apply List.map_congr_left
    intro i hi
    rw [List.mem_range] at hi
    exact Nat.mod_eq_of_lt (by omega)
  · exact absurd rfl hg

theorem inferred_cons (slice : AvcSliceHdr) (k : ℕ) (ks : List ℕ) (q : PrevPicture) :
    inferred slice (k :: ks) q =
      let offset := q.nextOffset (inferredHdr slice k)
      ((inferred slice ks ⟨k, offset, false⟩).1,
        counts offset (inferredHdr slice k) :: (inferred slice ks ⟨k, offset, false⟩).2) := rfl

/-- The frames inferred in such a gap keep the frame-number offset `offset`. -/
theorem inferred_eq (hi : slice.isIDR = false) {q : PrevPicture} {u : ℕ} (n : ℕ)
    (hoff : q.prevFrameNumOffset = offset) (hlt : q.prevFrameNum < u) :
    ∃ q', inferred slice (List.range' u n) q =
        (q', (List.range' u n).map fun k => counts offset (inferredHdr slice k)) ∧
      q'.prevFrameNumOffset = offset ∧ q'.prevFrameNum < u + n := by
  induction n generalizing q u with
  | zero => exact ⟨q, rfl, hoff, hlt⟩
  | succ n ih =>
    have hnext : q.nextOffset (inferredHdr slice u) = offset := by
      have hi' : (inferredHdr slice u).isIDR = false := hi
      have hlt' : ¬ (inferredHdr slice u).frameNum < q.prevFrameNum := hlt.not_gt
      simp [nextOffset, hi', hlt', hoff]
    have hlast : PrevPicture.prevFrameNum ⟨u, offset, false⟩ < u + 1 := Nat.lt_succ_self u
    obtain ⟨q', heq, hoff', hlt'⟩ := ih rfl hlast
    refine ⟨q', ?_, hoff', by omega⟩
    rw [List.range'_succ, inferred_cons, hnext]
    change (_, counts offset (inferredHdr slice u) :: _) = _
    rw [heq]
    rfl

/-- The context inside a gap, in front of the frame with number `k`. -/
structure InGap (offset : ℤ) (b : Bool) (k : ℕ) (m : PictMngr) : Prop where
  flag : m.dpb.bLastHasMMCO5 = b
  prevOffset : m.iPrevFrameNumOffset = offset
  frameNum : m.iPrevFrameNum < k
  restarted : b = true → offset = 0

theorem counts_unused (href : slice.nalRefIdc ≠ 0)
    (hdelta : slice.sps.picOrderCntType = 1 → slice.deltaPicOrderCnt = (0, 0)) (offset : ℤ) (k : ℕ) :
    counts offset (slice.unused k) = counts offset (inferredHdr slice k) := by
  have hn : ¬ (slice.unused k).nalRefIdc = 0 := href
  have hn' : ¬ (inferredHdr slice k).nalRefIdc = 0 := one_ne_zero
  have habs : absFrameNum offset (slice.unused k) = absFrameNum offset (inferredHdr slice k) := by
    unfold absFrameNum
    simp only [hn, hn', false_and, if_false]
    rfl
  have hexp : PrevPicture.expectedPicOrderCnt offset (slice.unused k) =
      PrevPicture.expectedPicOrderCnt offset (inferredHdr slice k) := by
    unfold PrevPicture.expectedPicOrderCnt
    simp only [habs, hn, hn', if_false]
    rfl
  have htemp : tempPicOrderCnt offset (slice.unused k) =
      tempPicOrderCnt offset (inferredHdr slice k) := by
    unfold tempPicOrderCnt
    simp only [hn, hn', if_false]
    rfl
  unfold counts bottomFieldOrderCnt topFieldOrderCnt
  by_cases htype : slice.sps.picOrderCntType = 1
  · have hd : (slice.unused k).deltaPicOrderCnt = (inferredHdr slice k).deltaPicOrderCnt :=
      hdelta htype
    simp only [hexp, htemp, hd]
    rfl
  · have ht : ¬ (slice.unused k).sps.picOrderCntType = 1 := htype
    have ht' : ¬ (inferredHdr slice k).sps.picOrderCntType = 1 := htype
    simp only [htemp, ht, ht', if_false]

theorem InGap.inferFrame {b : Bool} {k : ℕ} (h : InGap offset b k m)
    (htype : slice.sps.picOrderCntType = 1 ∨ slice.sps.picOrderCntType = 2)
    (hi : slice.isIDR = false) (hn : slice.nalRefIdc ≠ 0)
    (hdelta : slice.sps.picOrderCntType = 1 → slice.deltaPicOrderCnt = (0, 0))
    (habs : FitsInt32 (offset + k)) (hfits : Fits (counts offset (inferredHdr slice k)))
    (hm : m.inferFrame slice k = some m') :
    InGap offset b (k + 1) m' ∧ m'.orderCounts = counts offset (inferredHdr slice k) := by
  obtain ⟨d, hd, rfl⟩ := inferFrame_eq hm
  have hi' : (slice.unused k).isIDR = false := hi
  have hoff : (m.forgetFrameNum (slice.unused k)).frameNumOffset (slice.unused k) = offset := by
    cases b with
    | true => simp [forgetFrameNum, frameNumOffset, hi', h.flag, h.restarted rfl]
    | false =>
      have hlt : ¬ ((slice.unused k).frameNum : ℤ) < m.iPrevFrameNum := h.frameNum.not_gt
      simp [forgetFrameNum, frameNumOffset, hi', h.flag, hlt, h.prevOffset]
  have hcalc : (m.calculatePOC (slice.unused k)).1 =
      (m.forgetFrameNum (slice.unused k)).counted (counts offset (slice.unused k)) :=
    calculatePOC_eq htype hoff habs
  rw [hcalc, counts_unused hn hdelta]
  refine ⟨⟨hd.trans h.flag, rfl, Int.ofNat_lt.mpr (Nat.lt_succ_self k), h.restarted⟩, ?_⟩
  have htop := toInt32_of_fits hfits.1
  have hbot := toInt32_of_fits hfits.2
  simp only [orderCounts, counted, setDpb, setPrevFrameNum, htop, hbot]

/-- The frames of a gap that does not go over the end of the frame numbers. -/
theorem InGap.inferFrames {b : Bool} {n u : ℕ} {cs : List OrderCounts}
    (h : InGap offset b u m)
    (htype : slice.sps.picOrderCntType = 1 ∨ slice.sps.picOrderCntType = 2)
    (hi : slice.isIDR = false) (hn : slice.nalRefIdc ≠ 0)
    (hdelta : slice.sps.picOrderCntType = 1 → slice.deltaPicOrderCnt = (0, 0))
    (hoff : 0 ≤ offset) (habs : FitsInt32 (offset + slice.frameNum))
    (hf : slice.frameNum < slice.sps.maxFrameNum) (hu : u ≤ slice.frameNum)
    (hfits : ∀ k ∈ List.range' u (slice.frameNum - u), Fits (counts offset (inferredHdr slice k)))
    (hm : PictMngr.inferFrames slice n u m = some (m', cs)) :
    InGap offset b slice.frameNum m' ∧
      cs = (List.range' u (slice.frameNum - u)).map fun k => counts offset (inferredHdr slice k) := by
  induction n generalizing u m cs with
  | zero => simp [PictMngr.inferFrames] at hm
  | succ n ih =>
    unfold PictMngr.inferFrames at hm
    split_ifs at hm with hend
    · obtain ⟨rfl, rfl⟩ : m = m' ∧ [] = cs := by simpa using hm
      rw [hend, Nat.sub_self]
      exact ⟨h, rfl⟩
    · obtain ⟨m1, h1, hm⟩ := Option.bind_eq_some_iff.mp hm
      obtain ⟨⟨m2, cs'⟩, h2, hm⟩ := Option.bind_eq_some_iff.mp hm
      obtain ⟨rfl, rfl⟩ : m2 = m' ∧ _ = cs := by simpa using hm
      have hlt : u < slice.frameNum := by omega
      have hrange : List.range' u (slice.frameNum - u) =
          u :: List.range' (u + 1) (slice.frameNum - (u + 1)) := by
        rw [show slice.frameNum - u = slice.frameNum - (u + 1) + 1 by omega, List.range'_succ]
      rw [hrange] at hfits ⊢
      have habs' : FitsInt32 (offset + u) := by
        obtain ⟨hlo, hhi⟩ := habs
        constructor <;> omega
      obtain ⟨hg, hc⟩ := h.inferFrame htype hi hn hdelta habs' (hfits u (by simp)) h1
      rw [Nat.mod_eq_of_lt (by omega)] at h2
      obtain ⟨hg', rfl⟩ := ih hg hlt (fun k hk => hfits k (List.mem_cons_of_mem u hk)) h2
      exact ⟨hg', by rw [hc]; rfl⟩

/-! ## One picture -/

variable {q : Option PrevPicture} {p : AvcPicture}

/-- What the picture manager holds behind the picture `q`. -/
structure Follows (m : PictMngr) (q : PrevPicture) : Prop where
  flag : m.dpb.bLastHasMMCO5 = q.hasMMCO5
  prevOffset : q.hasMMCO5 = false → m.iPrevFrameNumOffset = q.frameNumOffset
  frameNum : m.iPrevFrameNum = q.prevFrameNum
  nonneg : 0 ≤ q.prevFrameNumOffset
  fits : q.prevFrameNum < 2 ^ 31

theorem nextOffset_nonneg {q : PrevPicture} (h : 0 ≤ q.prevFrameNumOffset) (slice : AvcSliceHdr) :
    0 ≤ q.nextOffset slice := by
  unfold nextOffset
  split_ifs <;> omega

theorem Follows.frameNumOffset {q : PrevPicture} (h : m.Follows q)
    (habs : FitsInt32 (q.nextOffset slice + slice.frameNum)) :
    (m.forgetFrameNum slice).frameNumOffset slice = q.nextOffset slice ∧
      (m.forgetFrameNum slice).iPrevFrameNum = m.iPrevFrameNum := by
  cases hi : slice.isIDR with
  | true => simp [forgetFrameNum, PictMngr.frameNumOffset, nextOffset, hi]
  | false =>
    cases hm : q.hasMMCO5 with
    | true =>
      have hz : m.iPrevFrameNum = 0 := by simp [h.frameNum, prevFrameNum, hm]
      simp [forgetFrameNum, PictMngr.frameNumOffset, nextOffset, prevFrameNum, prevFrameNumOffset,
        hi, h.flag, hm, hz]
    | false =>
      have hoff : m.iPrevFrameNumOffset = q.prevFrameNumOffset := by
        simp [h.prevOffset hm, prevFrameNumOffset, hm]
      have hforget : m.forgetFrameNum slice = m := by simp [forgetFrameNum, h.flag, hm]
      refine ⟨?_, by rw [hforget]⟩
      rw [hforget, PictMngr.frameNumOffset, nextOffset, h.frameNum, hoff]
      rw [nextOffset] at habs
      simp only [hi, Bool.false_eq_true, if_false, Nat.cast_lt] at habs ⊢
      split_ifs at habs ⊢
      · have hn := h.nonneg
        obtain ⟨-, hhi⟩ := habs
        apply toInt32_of_fits
        constructor <;> omega
      · rfl

theorem gap_ne_nil_iff (q : PrevPicture) (hf : slice.frameNum < slice.sps.maxFrameNum) :
    q.gap slice ≠ [] ↔ slice.isIDR = false ∧ slice.sps.gapsInFrameNumValueAllowedFlag = true ∧
      slice.frameNum ≠ q.prevFrameNum ∧
      slice.frameNum ≠ (q.prevFrameNum + 1) % slice.sps.maxFrameNum := by
  have hfirst := Nat.mod_lt (q.prevFrameNum + 1) (Nat.zero_lt_of_lt hf)
  -- the distance to the first missing number is a multiple of `MaxFrameNum` only where it is none
  have hlen : (slice.frameNum + slice.sps.maxFrameNum -
        (q.prevFrameNum + 1) % slice.sps.maxFrameNum) % slice.sps.maxFrameNum = 0 ↔
      slice.frameNum = (q.prevFrameNum + 1) % slice.sps.maxFrameNum := by
    rcases Nat.lt_or_ge (slice.frameNum + slice.sps.maxFrameNum -
      (q.prevFrameNum + 1) % slice.sps.maxFrameNum) slice.sps.maxFrameNum with hlt | hge
    · rw [Nat.mod_eq_of_lt hlt]
      omega
    · rw [Nat.mod_eq_sub_mod hge, Nat.mod_eq_of_lt (by omega)]
      omega
  unfold gap
  dsimp only
  split
  · next h =>
    simp only [ne_eq, List.map_eq_nil_iff, List.range_eq_nil, hlen]
    exact ⟨fun hne => ⟨h.1, h.2.1, h.2.2, hne⟩, fun h => h.2.2.2⟩
  · next h => exact ⟨fun hne => absurd rfl hne, fun h' => absurd ⟨h'.1, h'.2.1, h'.2.2.1⟩ h⟩

theorem Follows.nextFrameNum {q : PrevPicture} (h : m.Follows q) :
    m.nextFrameNum slice = (q.prevFrameNum + 1) % slice.sps.maxFrameNum := by
  have hu : toUInt32 ((q.prevFrameNum : ℤ) + 1) = q.prevFrameNum + 1 := by
    have := h.fits
    unfold toUInt32
    omega
  rw [PictMngr.nextFrameNum, h.frameNum, hu]

theorem Follows.hasGap {q : PrevPicture} (h : m.Follows q)
    (hf : slice.frameNum < slice.sps.maxFrameNum) :
    m.hasGap slice = true ↔ q.gap slice ≠ [] := by
  rw [gap_ne_nil_iff q hf]
  simp only [PictMngr.hasGap, Bool.and_eq_true, Bool.not_eq_true', bne_iff_ne, h.frameNum,
    h.nextFrameNum, ne_eq, Nat.cast_inj]
  tauto

/-- What the picture manager holds about the previous picture, if any. -/
def FollowsLast (m : PictMngr) (q : Option PrevPicture) : Prop := ∀ q' ∈ q, m.Follows q'

theorem decode_of_gap_nil (h : (q.getD ⟨0, 0, false⟩).gap p.slice = []) :
    (PrevPicture.decode q p).2 =
      ⟨counts ((q.getD ⟨0, 0, false⟩).nextOffset p.slice) p.slice, []⟩ := by
  simp [PrevPicture.decode, h, inferred]

/-- The specification of one picture behind a gap that is filled. -/
theorem decode_of_gapFilled {q : PrevPicture} (hf : p.slice.frameNum < p.slice.sps.maxFrameNum)
    (hg : q.gap p.slice ≠ []) (hlt : q.prevFrameNum < p.slice.frameNum) :
    (PrevPicture.decode (some q) p).2 =
      ⟨counts (q.nextOffset p.slice) p.slice,
        (List.range' (q.prevFrameNum + 1) (p.slice.frameNum - (q.prevFrameNum + 1))).map fun k =>
          counts (q.nextOffset p.slice) (inferredHdr p.slice k)⟩ := by
  obtain ⟨hi, hgap⟩ := gap_eq hf hlt hg
  have hoff : q.nextOffset p.slice = q.prevFrameNumOffset := by
    simp [nextOffset, hi, hlt.not_gt]
  obtain ⟨q', hinf, hoff', hlt'⟩ := inferred_eq hi
    (p.slice.frameNum - (q.prevFrameNum + 1)) hoff.symm (Nat.lt_succ_self q.prevFrameNum)
  have hown : q'.nextOffset p.slice = q.nextOffset p.slice := by
    have hge : ¬ p.slice.frameNum < q'.prevFrameNum := by omega
    simp [nextOffset, hi, hlt.not_gt, hge, hoff']
  simp only [PrevPicture.decode, Option.getD_some, hgap, hinf, hown]

theorem gap_of_none (hi : p.slice.isIDR = true) (q : PrevPicture) : q.gap p.slice = [] := by
  simp [gap, hi]

theorem decode_own (ha : Allowed q p) :
    (PrevPicture.decode q p).2.own =
      counts ((q.getD ⟨0, 0, false⟩).nextOffset p.slice) p.slice := by
  obtain ⟨hw, hk⟩ := ha
  cases q with
  | none => rw [decode_of_gap_nil (gap_of_none (hw.start rfl) _)]
  | some q =>
    by_cases hg : q.gap p.slice = []
    · rw [decode_of_gap_nil (q := some q) hg]
    · rw [decode_of_gapFilled hw.frameNum hg (hk q rfl hg).1]
      rfl

/-- The current picture is counted behind the previous one, whether or not there
is a gap. -/
theorem FollowsLast.setCurrentPOC (h : m.FollowsLast q) (ha : Allowed q p) :
    (m.setCurrentPOC p.slice).orderCounts = (PrevPicture.decode q p).2.own ∧
      (m.setCurrentPOC p.slice).dpb = m.dpb ∧
      (m.setCurrentPOC p.slice).iPrevFrameNum = m.iPrevFrameNum := by
  have hown := decode_own ha
  have hw := ha.1
  have habs := hw.abs
  have hfits := hw.own
  rw [hown] at habs hfits ⊢
  obtain ⟨hoff, hnum⟩ : (m.forgetFrameNum p.slice).frameNumOffset p.slice =
      (q.getD ⟨0, 0, false⟩).nextOffset p.slice ∧
        (m.forgetFrameNum p.slice).iPrevFrameNum = m.iPrevFrameNum := by
    cases q with
    | none =>
      have hi : p.slice.isIDR = true := hw.start rfl
      simp [forgetFrameNum, PictMngr.frameNumOffset, nextOffset, hi]
    | some q => exact (h q rfl).frameNumOffset habs
  have hpoc : m.setCurrentPOC p.slice =
      (m.calculatePOC p.slice).1.setCurFramePOC (m.calculatePOC p.slice).2 := rfl
  rw [hpoc, calculatePOC_eq hw.type hoff habs]
  refine ⟨?_, dpb_forgetFrameNum m p.slice, hnum⟩
  simp only [orderCounts, counted, setCurFramePOC, toInt32_of_fits hfits.1,
    toInt32_of_fits hfits.2]

/-- Behind the gap, the own counts and those of the inferred frames are those
of the clauses. -/
theorem FollowsLast.fillGap {cs : List OrderCounts} (h : m.FollowsLast q) (ha : Allowed q p)
    (hgap : (m.setCurrentPOC p.slice).fillGapInFrameNum p.slice = some (m', cs)) :
    cs = (PrevPicture.decode q p).2.inferred ∧
      m'.iPrevFrameNumOffset = (PrevPicture.decode q p).2.own.frameNumOffset := by
  obtain ⟨hc, hdpb, hnum⟩ := h.setCurrentPOC ha
  have hoff := congrArg OrderCounts.frameNumOffset hc
  have hown := decode_own ha
  obtain ⟨hw, hk⟩ := ha
  have hsame : (m.setCurrentPOC p.slice).hasGap p.slice = m.hasGap p.slice := by
    simp only [PictMngr.hasGap, PictMngr.nextFrameNum, hnum]
  have hiff : m.hasGap p.slice = true ↔ (q.getD ⟨0, 0, false⟩).gap p.slice ≠ [] := by
    cases q with
    | none =>
      have hi : p.slice.isIDR = true := hw.start rfl
      simp [PictMngr.hasGap, gap, hi]
    | some q => exact (h q rfl).hasGap hw.frameNum
  unfold fillGapInFrameNum at hgap
  rw [hsame] at hgap
  split at hgap
  · next hg =>
    cases q with
    | none => simp [PictMngr.hasGap, hw.start rfl] at hg
    | some q =>
      have hne : q.gap p.slice ≠ [] := hiff.mp hg
      obtain ⟨hlt, hn, hdelta⟩ := hk q rfl hne
      have hq := h q rfl
      have hi := (gap_eq hw.frameNum hlt hne).1
      have hnext : q.nextOffset p.slice = q.prevFrameNumOffset := by
        simp [nextOffset, hi, hlt.not_gt]
      have hspec := decode_of_gapFilled hw.frameNum hne hlt
      have habs := hw.abs
      have hfits := hw.inferred
      rw [hspec] at habs hfits hoff ⊢
      have hstart : InGap (q.nextOffset p.slice) q.hasMMCO5 (q.prevFrameNum + 1)
          (m.setCurrentPOC p.slice) := by
        constructor
        · rw [hdpb, hq.flag]
        · exact hoff
        · rw [hnum, hq.frameNum]
          exact Int.ofNat_lt.mpr (Nat.lt_succ_self _)
        · intro hm5
          simp [hnext, prevFrameNumOffset, hm5]
      have hfirst : (m.setCurrentPOC p.slice).nextFrameNum p.slice = q.prevFrameNum + 1 := by
        have hn : (m.setCurrentPOC p.slice).nextFrameNum p.slice = m.nextFrameNum p.slice := by
          simp only [PictMngr.nextFrameNum, hnum]
        rw [hn, hq.nextFrameNum]
        exact Nat.mod_eq_of_lt (hw.frameNum.trans_le' hlt)
      rw [hfirst] at hgap
      obtain ⟨hend, hcs⟩ := hstart.inferFrames hw.type hi hn hdelta
        (nextOffset_nonneg hq.nonneg p.slice) habs hw.frameNum hlt
        (fun k hk => hfits _ (List.mem_map_of_mem hk)) hgap
      exact ⟨hcs, hend.prevOffset⟩
  · next hg =>
    obtain ⟨rfl, rfl⟩ : m.setCurrentPOC p.slice = m' ∧ [] = cs := by simpa using hgap
    have hnil : (q.getD ⟨0, 0, false⟩).gap p.slice = [] := by
      by_contra hne
      exact hg (hiff.mpr hne)
    exact ⟨by rw [decode_of_gap_nil hnil], hoff⟩

/-- One picture: its counts are those of the clauses, and so is what the
picture manager holds behind it. -/
theorem FollowsLast.decodePicture {c : PictureCounts} (h : m.FollowsLast q) (ha : Allowed q p)
    (hm : m.decodePicture p = some (m', c)) :
    c = (PrevPicture.decode q p).2 ∧ m'.FollowsLast (PrevPicture.decode q p).1 := by
  obtain ⟨m1, hgap, hupd, hown⟩ := decodePicture_eq hm
  obtain ⟨hinf, hoff⟩ := h.fillGap ha hgap
  obtain ⟨d, hd, rfl⟩ := updatePictManager_eq hupd
  have hc : c = (PrevPicture.decode q p).2 := by
    obtain ⟨own, inferred⟩ := c
    rw [show own = _ from hown, (h.setCurrentPOC ha).1, show inferred = _ from hinf]
  have hnonneg : 0 ≤ c.own.frameNumOffset := by
    rw [hc, decode_own ha]
    apply nextOffset_nonneg
    cases q with
    | none => exact le_rfl
    | some q => exact (h q rfl).nonneg
  refine ⟨hc, ?_⟩
  rw [← hc] at hoff
  intro q' hq'
  obtain rfl : PrevPicture.mk p.slice.frameNum (PrevPicture.decode q p).2.own.frameNumOffset
      p.slice.HasMMCO5 = q' := by simpa [PrevPicture.decode] using hq'
  have habs := ha.1.abs.2
  rw [← hc] at habs ⊢
  by_cases hm5 : p.slice.HasMMCO5
  · rw [if_pos hm5]
    constructor
    · exact hd
    · simp [hm5]
    · simp [prevFrameNum, hm5, setDpb, setCurFramePOC, setPrevFrameNum]
    · simp [prevFrameNumOffset, hm5]
    · simp [prevFrameNum, hm5]
  · rw [if_neg hm5]
    constructor
    · exact hd
    · exact fun _ => hoff
    · simp [prevFrameNum, hm5, setDpb, setPrevFrameNum]
    · simpa [prevFrameNumOffset, hm5] using hnonneg
    · simp only [prevFrameNum, hm5, decide_false, Bool.false_eq_true, if_false]
      omega

/-! ## Streams -/

/-- On a stream the filled gaps of which stay below the end of the frame numbers
and are followed by a reference picture without deltas, the frame-number offsets
and order counts of all pictures, existing and inferred, are those of the
clauses. -/
theorem orderCounts_of_stream {ps : List AvcPicture} {counts : List PictureCounts}
    (ha : TracedRuns.Along PrevPicture.decode Allowed ps none) (hm : m.decode ps = some counts) :
    counts = TracedRuns.outputs PrevPicture.decode ps none := by
  rw [← List.map_id counts]
  apply TracedRuns.trace_eq FollowsLast id _ _ ha hm
  · intro m q p m' c h ha hm
    exact h.decodePicture ha hm
  · simp [FollowsLast]

/-- A type 1 stream with gaps in front of the frame numbers 3 and 15, a wrap,
an operation 5, a gap behind it, and a picture that is no reference. -/
def gapStream : List AvcPicture :=
  [.sample 0 (.withFrames (.sample 4 5 0) 1 1 0),
    .sample 1 (.withFrames (.sample 4 1 3) 1 1 0),
    .sample 2 (.withFrames (.sample 4 1 15) 1 1 0),
    .sample 3 (.withFrames (.withMmco (.sample 4 1 0) [5, 0] [] []) 1 1 0),
    .sample 4 (.withFrames (.sample 4 1 2) 1 1 0),
    .sample 5 (.withFrames (.sample 4 1 3) 1 0 5)]

theorem orderCounts_gapStream :
    ∃ counts, (sample 4).decode gapStream = some counts ∧
      counts.map (fun c => c.own.topFieldOrderCnt) = [0, 14, 74, 80, 10, 13] ∧
      counts.map (fun c => c.inferred.map OrderCounts.topFieldOrderCnt) =
        [[], [4, 10], [20, 24, 30, 34, 40, 44, 50, 54, 60, 64, 70], [], [4], []] := by
  obtain ⟨counts, hm⟩ : ∃ counts, (sample 4).decode gapStream = some counts :=
    Option.isSome_iff_exists.mp (by decide +kernel)
  have ha : TracedRuns.Along PrevPicture.decode Allowed gapStream none := by decide +kernel
  refine ⟨counts, hm, ?_⟩
  rw [orderCounts_of_stream ha hm]
  decide +kernel

/-- A type 2 stream with a gap from frame number 14 to 2. -/
def wrapStream : List AvcPicture :=
  [.sample 0 (.withFrames (.sample 4 5 0) 2 1 0),
    .sample 1 (.withFrames (.sample 4 1 14) 2 1 0),
    .sample 2 (.withFrames (.sample 4 1 2) 2 1 0),
    .sample 3 (.withFrames (.sample 4 1 3) 2 1 0)]

/-- The stream is well-formed.  The frames inferred in its gap over the end of
the frame numbers and the picture behind the next one are counted too high. -/
theorem not_orderCounts_wrapStream :
    TracedRuns.Along PrevPicture.decode WellFormed wrapStream none ∧
      ∃ counts, (sample 4).decode wrapStream = some counts ∧
        counts.map (fun c => c.own.topFieldOrderCnt) = [0, 28, 36, 70] ∧
        (TracedRuns.outputs PrevPicture.decode wrapStream none).map
          (fun c => c.own.topFieldOrderCnt) = [0, 28, 36, 38] ∧
        counts.map (fun c => c.inferred.map OrderCounts.topFieldOrderCnt) ≠
          (TracedRuns.outputs PrevPicture.decode wrapStream none).map
            fun c => c.inferred.map OrderCounts.topFieldOrderCnt := by
  refine ⟨by decide +kernel, ?_⟩
  obtain ⟨counts, hm⟩ : ∃ counts, (sample 4).decode wrapStream = some counts :=
    Option.isSome_iff_exists.mp (by decide +kernel)
  have htop : ((sample 4).decode wrapStream).map
      (List.map fun c => c.own.topFieldOrderCnt) = some [0, 28, 36, 70] := by decide +kernel
  have hinf : ((sample 4).decode wrapStream).map
      (List.map fun c => c.inferred.map OrderCounts.topFieldOrderCnt) ≠
        some ((TracedRuns.outputs PrevPicture.decode wrapStream none).map
          fun c => c.inferred.map OrderCounts.topFieldOrderCnt) := by decide +kernel
  rw [hm] at htop hinf
  exact ⟨counts, hm, Option.some_inj.mp htop, by decide +kernel,
    fun he => hinf (congrArg some he)⟩

end PictMngr

end VcuCodec
