import VcuCodec.HevcDecoder
import VcuCodec.TracedRuns

/-!
# Order counts of HEVC pictures

Sequences of HEVC pictures with their true order counts, each close to that of
the previous anchor, and the proof that the decoder recovers the true order
count for every slice segment from the LSB alone.  An anchor is a picture with
TemporalId 0 that is neither a leading picture nor a sub-layer non-reference
picture.  The invariant says that the decoder holds the MSB and LSB of the last
anchor; inside a picture it may already hold those of the picture itself.
-/

namespace VcuCodec

/-! ## Sequences -/

/-- A slice segment of a picture. -/
structure HevcSegment where
  dependent : Bool
  sliceType : SliceType
  outcome : SliceOutcome
  deriving DecidableEq, Repr

/-- A picture with its true order count `poc`. -/
structure HevcPicture where
  nalUnitType : ℕ
  temporalId : ℕ
  log2MaxPicOrderCntLsbMinus4 : ℕ
  poc : ℤ
  segments : List HevcSegment
  /-- The slices have a type that is decoded. -/
  sliceData : isSliceData nalUnitType = true
  /-- The first slice segment of a picture is not dependent. -/
  lead : ∃ s ss, segments = s :: ss ∧ s.dependent = false
  /-- The order count of a picture is a 32-bit number. -/
  fits : FitsInt32 poc
  /-- The pictures of a random access point are in the lowest sub-layer. -/
  lowest : isRandomAccessPoint nalUnitType = true → temporalId = 0
  /-- The order count of an IDR picture is 0. -/
  idr : hevcIsIDR nalUnitType = true → poc = 0

namespace HevcPicture

variable (p : HevcPicture)

def maxPicOrderCntLsb : ℕ := 2 ^ (p.log2MaxPicOrderCntLsbMinus4 + 4)

/-- What the slice headers send of the order count. -/
def slicePicOrderCntLsb : ℕ := (p.poc % p.maxPicOrderCntLsb).toNat

/-- The header of a slice segment. -/
def hdr (s : HevcSegment) : HevcSliceHdr where
  nalUnitType := p.nalUnitType
  temporalIdPlus1 := p.temporalId + 1
  dependentSliceSegmentFlag := s.dependent
  sliceType := s.sliceType
  slicePicOrderCntLsb := p.slicePicOrderCntLsb
  maxPicOrderCntLsb := p.maxPicOrderCntLsb

def isIRAP : Bool := isRandomAccessPoint p.nalUnitType

/-- An anchor of the order counts. -/
def isAnchor : Prop := p.temporalId = 0 ∧ hevcIsRaslRadlSlnr p.nalUnitType = false
deriving Decidable

end HevcPicture

inductive HevcEvent
  | picture (p : HevcPicture)
  | endOfSequence

/-- The order count and `MaxPicOrderCntLsb` of an anchor. -/
structure Anchor where
  poc : ℤ
  max : ℕ

/-- The state of a sequence: whether a coded video sequence starts here, the
`NoRaslOutputFlag` of the last random access point, and the last anchor. -/
structure SequencePoint where
  first : Bool
  noRaslOutputFlag : Bool
  anchor : Option Anchor

namespace SequencePoint

def start : SequencePoint := ⟨true, true, none⟩

variable (t : SequencePoint) (p : HevcPicture)

/-- The leading pictures of a random access point with `NoRaslOutputFlag` are
not decoded. -/
def skips : Bool := hevcIsRASL p.nalUnitType && t.noRaslOutputFlag

/-- `NoRaslOutputFlag` from `p` on -/
def nextNoRaslOutputFlag : Bool :=
  if p.isIRAP then t.first || hevcIsBLA p.nalUnitType || hevcIsIDR p.nalUnitType
  else t.noRaslOutputFlag

def nextAnchor : Option Anchor :=
  if p.isAnchor then some ⟨p.poc, p.maxPicOrderCntLsb⟩ else t.anchor

def next : SequencePoint :=
  if t.skips p then t else ⟨false, t.nextNoRaslOutputFlag p, t.nextAnchor p⟩

/-- The order counts of the slice segments of an event. -/
def decode (t : SequencePoint) : HevcEvent → SequencePoint × List (Option ℤ)
  | .picture p => (t.next p, p.segments.map fun _ => if t.skips p then none else some p.poc)
  | .endOfSequence => ({ t with first := true }, [])

/-- A random access point starts counting from its LSB, and the order count of
any other picture is less than half of `MaxPicOrderCntLsb` away from that of the
last anchor. -/
def CloseToAnchor : Prop :=
  if p.isIRAP ∧ t.nextNoRaslOutputFlag p = true then 0 ≤ p.poc ∧ p.poc < p.maxPicOrderCntLsb
  else ∃ a ∈ t.anchor, a.max = p.maxPicOrderCntLsb ∧ |p.poc - a.poc| < p.maxPicOrderCntLsb / 2
deriving Decidable

/-- A picture of the sequence: it starts with a random access point, inter
slices find a picture in the buffer, and the order count is close to that of the
anchor. -/
@[mk_iff]
structure Continues : Prop where
  start : t.first = true → p.isIRAP = true
  refs : ∀ s ∈ p.segments, s.sliceType ≠ .i → s.outcome.hasPictInDPB = true
  intra : p.isIRAP = true → ∀ s ∈ p.segments, s.sliceType = .i
  close : t.CloseToAnchor p

instance : Decidable (t.Continues p) :=
  decidable_of_iff _ (continues_iff t p).symm

theorem Continues.first_of_inter {t : SequencePoint} {p : HevcPicture} (h : t.Continues p)
    (hp : p.isIRAP = false) : t.first = false := by
  by_contra ht
  rw [Bool.not_eq_false] at ht
  rw [h.start ht] at hp
  exact absurd hp (by simp)

def Allowed (t : SequencePoint) : HevcEvent → Prop
  | .picture p => t.skips p = false → t.Continues p
  | .endOfSequence => True

instance (t : SequencePoint) : (e : HevcEvent) → Decidable (t.Allowed e)
  | .picture p => inferInstanceAs (Decidable (t.skips p = false → t.Continues p))
  | .endOfSequence => isTrue trivial

end SequencePoint

/-! ## The decoder -/

namespace HevcCtx

def decodeSegments (p : HevcPicture) : List HevcSegment → HevcCtx → HevcCtx × List (Option ℤ)
  | [], c => (c, [])
  | s :: ss, c =>
    let (c, poc) := c.decodeSliceData (p.hdr s) s.outcome ss.isEmpty
    let (c, pocs) := decodeSegments p ss c
    (c, poc :: pocs)

/-- One event of a sequence. -/
def decodeEvent (c : HevcCtx) : HevcEvent → HevcCtx × List (Option ℤ)
  | .picture p => decodeSegments p p.segments c
  | .endOfSequence => (c.endOfSequence, [])

/-- The order counts of a sequence, event by event. -/
def decodeSequence (c : HevcCtx) (es : List HevcEvent) : List (List (Option ℤ)) :=
  TracedRuns.outputs decodeEvent es c

/-! ## Inside a picture -/

variable {c : HevcCtx} {t : SequencePoint} {p : HevcPicture}

/-- The decoder holds the MSB and LSB of the anchor. -/
def Holds (c : HevcCtx) (anchor : Option Anchor) : Prop :=
  ∀ a ∈ anchor, c.iPrevPocMSB = toInt32 (a.poc - a.poc % a.max) ∧
    (c.uPrevPocLSB : ℤ) = a.poc % a.max

theorem Holds.congr {c' : HevcCtx} {anchor : Option Anchor} (h : c.Holds anchor)
    (hm : c'.iPrevPocMSB = c.iPrevPocMSB) (hl : c'.uPrevPocLSB = c.uPrevPocLSB) :
    c'.Holds anchor := by
  intro a ha
  rw [hm, hl]
  exact h a ha

/-- The context behind some of the slice segments of picture `p`; `done` says
whether the order count is set. -/
structure Inside (c : HevcCtx) (t : SequencePoint) (p : HevcPicture) (done : Bool) : Prop where
  first : c.bIsFirstPicture = t.first
  noRasl : p.isIRAP = false → c.uNoRaslOutputFlag = t.noRaslOutputFlag
  prev : c.Holds t.anchor ∨ c.Holds (t.nextAnchor p)
  valid : c.bValidFrame = true → done = true
  sync : c.bFirstIsValid = false → c.bValidFrame = false
  poc : done = true → c.iCurFramePOC = p.poc ∧ c.Holds (t.nextAnchor p) ∧
    c.uNoRaslOutputFlag = t.nextNoRaslOutputFlag p

/-- The context between two pictures. -/
structure Between (c : HevcCtx) (t : SequencePoint) : Prop where
  first : c.bIsFirstPicture = t.first
  noRasl : c.uNoRaslOutputFlag = t.noRaslOutputFlag
  valid : c.bValidFrame = false
  prev : c.Holds t.anchor

theorem slicePicOrderCntLsb_eq (p : HevcPicture) :
    (p.slicePicOrderCntLsb : ℤ) = p.poc % p.maxPicOrderCntLsb := by
  have hpos : (p.maxPicOrderCntLsb : ℤ) ≠ 0 := by
    exact_mod_cast (Nat.two_pow_pos (p.log2MaxPicOrderCntLsbMinus4 + 4)).ne'
  exact Int.toNat_of_nonneg (Int.emod_nonneg p.poc hpos)

/-- The comparison of the LSB with that of an anchor, or of the picture itself,
gives the MSB of the picture. -/
theorem nextPocMsb_of_holds (h : c.Holds t.anchor ∨ c.Holds (t.nextAnchor p))
    (hclose : ∃ a ∈ t.anchor, a.max = p.maxPicOrderCntLsb ∧
      |p.poc - a.poc| < p.maxPicOrderCntLsb / 2) :
    nextPocMsb p.maxPicOrderCntLsb c.iPrevPocMSB c.uPrevPocLSB p.slicePicOrderCntLsb =
      toInt32 (p.poc - p.poc % p.maxPicOrderCntLsb) := by
  have hlsb := slicePicOrderCntLsb_eq p
  rcases Classical.em (c.Holds t.anchor) with hold | hold
  · obtain ⟨a, ha, hmax, hv⟩ := hclose
    obtain ⟨hm, hl⟩ := hold a ha
    rw [hmax] at hm hl
    have hpos : (0 : ℤ) < p.maxPicOrderCntLsb := by
      exact_mod_cast Nat.two_pow_pos (p.log2MaxPicOrderCntLsbMinus4 + 4)
    have heven : (2 : ℤ) ∣ p.maxPicOrderCntLsb := by
      have h : (2 : ℕ) ∣ p.maxPicOrderCntLsb := dvd_pow_self 2 (by omega)
      exact_mod_cast h
    have hrange : 0 ≤ a.poc % p.maxPicOrderCntLsb ∧
        a.poc % p.maxPicOrderCntLsb < p.maxPicOrderCntLsb :=
      ⟨Int.emod_nonneg _ hpos.ne', Int.emod_lt_of_pos _ hpos⟩
    have hdvd : (p.maxPicOrderCntLsb : ℤ) ∣ a.poc - a.poc % p.maxPicOrderCntLsb :=
      Int.dvd_self_sub_emod
    have hmsb := LsbCounters.msb_add_lsb_eq heven hrange hdvd (by rwa [sub_add_cancel])
    rw [hm, nextPocMsb_eq, hl, hlsb]
    exact congrArg toInt32 (eq_sub_of_add_eq hmsb)
  · -- the picture is an anchor, and an earlier slice of it has stored its own count
    have hnew := h.resolve_left hold
    by_cases hanchor : p.isAnchor
    · have hown : (⟨p.poc, p.maxPicOrderCntLsb⟩ : Anchor) ∈ t.nextAnchor p := by
        simp [SequencePoint.nextAnchor, hanchor]
      obtain ⟨hm, hl⟩ := hnew _ hown
      rw [hm, nextPocMsb_eq, hl, hlsb, LsbCounters.msb_self]
    · rw [SequencePoint.nextAnchor, if_neg hanchor] at hnew
      exact absurd hnew hold

theorem pocMsb_eq (s : HevcSegment) (h : c.Holds t.anchor ∨ c.Holds (t.nextAnchor p))
    (hclose : t.CloseToAnchor p) (hflag : c.uNoRaslOutputFlag = t.nextNoRaslOutputFlag p) :
    c.pocMsb (p.hdr s) c.uNoRaslOutputFlag = toInt32 (p.poc - p.poc % p.maxPicOrderCntLsb) := by
  have hirap : (!hevcIsBLA p.nalUnitType && !hevcIsCRA p.nalUnitType &&
      !hevcIsIDR p.nalUnitType) = !p.isIRAP := by
    have hs := p.sliceData
    simp only [isSliceData, decide_eq_true_eq] at hs
    have hr : ¬ (p.nalUnitType ∈ [22, 23]) := by simp; omega
    simp only [HevcPicture.isIRAP, isRandomAccessPoint, hr, decide_false, Bool.or_false,
      Bool.not_or]
    cases hevcIsBLA p.nalUnitType <;> simp
  unfold pocMsb
  change (if (!hevcIsBLA p.nalUnitType && !hevcIsCRA p.nalUnitType &&
    !hevcIsIDR p.nalUnitType || !c.uNoRaslOutputFlag) = true then _ else _) = _
  rw [hirap, hflag]
  unfold SequencePoint.CloseToAnchor at hclose
  by_cases hn : p.isIRAP = true ∧ t.nextNoRaslOutputFlag p = true
  · rw [if_pos hn] at hclose
    rw [hn.1, hn.2, Int.emod_eq_of_lt hclose.1 hclose.2, sub_self]
    rfl
  · rw [if_neg hn] at hclose
    have hb : (!p.isIRAP || !t.nextNoRaslOutputFlag p) = true := by
      rw [← Bool.not_and, Bool.not_eq_true', ← Bool.not_eq_true, Bool.and_eq_true]
      exact hn
    rw [if_pos hb]
    exact nextPocMsb_of_holds h hclose

theorem isAnchor_of_idr (hi : hevcIsIDR p.nalUnitType = true) : p.isAnchor := by
  have hr : isRandomAccessPoint p.nalUnitType = true := by simp [isRandomAccessPoint, hi]
  refine ⟨p.lowest hr, ?_⟩
  simp only [hevcIsIDR, decide_eq_true_eq, List.mem_cons, List.not_mem_nil, or_false] at hi
  rcases hi with hi | hi <;> rw [hi] <;> rfl

theorem calculatePOC_eq (s : HevcSegment) (h : c.Holds t.anchor ∨ c.Holds (t.nextAnchor p))
    (hclose : t.CloseToAnchor p) (hflag : c.uNoRaslOutputFlag = t.nextNoRaslOutputFlag p) :
    (c.calculatePOC (p.hdr s) c.uNoRaslOutputFlag).iCurFramePOC = p.poc ∧
      (c.calculatePOC (p.hdr s) c.uNoRaslOutputFlag).Holds (t.nextAnchor p) := by
  have hmsb := pocMsb_eq s h hclose hflag
  have hlsb := slicePicOrderCntLsb_eq p
  constructor
  · change toInt32 ((p.slicePicOrderCntLsb : ℤ) + c.pocMsb (p.hdr s) c.uNoRaslOutputFlag) = p.poc
    rw [hmsb, toInt32_add_toInt32, hlsb, add_sub_cancel, toInt32_of_fits p.fits]
  · have hiff : ((p.hdr s).temporalIdPlus1 = 1 ∧
        hevcIsRaslRadlSlnr (p.hdr s).nalUnitType = false) ↔ p.isAnchor := by
      simp [HevcPicture.hdr, HevcPicture.isAnchor]
    unfold calculatePOC SequencePoint.nextAnchor
    dsimp only
    by_cases hanchor : p.isAnchor
    · rw [if_pos (hiff.mpr hanchor), if_pos hanchor]
      intro a ha
      obtain rfl : (⟨p.poc, p.maxPicOrderCntLsb⟩ : Anchor) = a := by simpa using ha
      exact ⟨hmsb, hlsb⟩
    · rw [if_neg (fun hc => hanchor (hiff.mp hc)), if_neg hanchor]
      rw [SequencePoint.nextAnchor, if_neg hanchor, or_self] at h
      exact h.congr rfl rfl

variable {done : Bool}

theorem setPOC_eq (s : HevcSegment) (h : c.Inside t p done)
    (hclose : t.CloseToAnchor p) (hflag : c.uNoRaslOutputFlag = t.nextNoRaslOutputFlag p) :
    (c.setPOC (p.hdr s)).iCurFramePOC = p.poc ∧ (c.setPOC (p.hdr s)).Holds (t.nextAnchor p) := by
  unfold setPOC
  split
  · next hi =>
    have hi' : hevcIsIDR p.nalUnitType = true := hi
    refine ⟨(p.idr hi').symm, ?_⟩
    rw [SequencePoint.nextAnchor, if_pos (isAnchor_of_idr hi'), p.idr hi']
    intro a ha
    obtain rfl : (⟨0, p.maxPicOrderCntLsb⟩ : Anchor) = a := by simpa using ha
    simp
  · split
    · next hv =>
      obtain ⟨hpoc, hprev, -⟩ := h.poc (h.valid hv)
      exact ⟨hpoc, hprev⟩
    · exact calculatePOC_eq s h.prev hclose hflag

theorem setPOC_flags (c : HevcCtx) (slice : HevcSliceHdr) :
    (c.setPOC slice).bIsFirstPicture = c.bIsFirstPicture ∧
      (c.setPOC slice).uNoRaslOutputFlag = c.uNoRaslOutputFlag ∧
      (c.setPOC slice).bValidFrame = c.bValidFrame ∧
      (c.setPOC slice).bFirstIsValid = c.bFirstIsValid := by
  unfold setPOC calculatePOC
  dsimp only
  split_ifs <;> exact ⟨rfl, rfl, rfl, rfl⟩

variable {s : HevcSegment}

/-- `initSlice` gets to the order count, and fails only for an inter slice. -/
theorem Inside.initSlice (h : c.Inside t p done)
    (hc : t.Continues p) (hs : s ∈ p.segments) (hlead : s.dependent = false ∨ done = true)
    (hflag : c.uNoRaslOutputFlag = t.nextNoRaslOutputFlag p) :
    ∃ c' b, c.initSlice (p.hdr s) s.outcome = (c', true, b) ∧ c'.Inside t p true ∧
      (b = false → p.isIRAP = false) := by
  unfold HevcCtx.initSlice
  split
  · next hdep =>
    have hdone : done = true := by
      rcases hlead with hl | hd
      · exact absurd hdep (by simp [HevcPicture.hdr, hl])
      · exact hd
    subst hdone
    exact ⟨c, true, rfl, h, by simp⟩
  · have hrefs : ¬ ((p.hdr s).sliceType ≠ .i ∧ s.outcome.hasPictInDPB = false) := by
      rintro ⟨hi, hr⟩
      rw [hc.refs s hs hi] at hr
      exact absurd hr (by simp)
    rw [if_neg hrefs]
    obtain ⟨hpoc, hprev⟩ := setPOC_eq s h hc.close hflag
    obtain ⟨hf1, hf2, hf3, hf4⟩ := setPOC_flags c (p.hdr s)
    refine ⟨_, _, rfl, ?_, ?_⟩
    · constructor
      · rw [hf1, h.first]
      · rw [hf2]
        exact h.noRasl
      · exact .inr hprev
      · exact fun _ => rfl
      · rw [hf3, hf4]
        exact h.sync
      · rw [hf2]
        exact fun _ => ⟨hpoc, hprev, hflag⟩
    · intro hb
      by_contra hirap
      rw [Bool.not_eq_false] at hirap
      have hi : (p.hdr s).sliceType = .i := hc.intra hirap s hs
      simp [hi] at hb

theorem Inside.endFrame (h : c.Inside t p true) (hs : t.skips p = false) :
    c.updateContextAtEndOfFrame.Between (t.next p) := by
  obtain ⟨-, hprev, hflag⟩ := h.poc rfl
  have hnext : t.next p = ⟨false, t.nextNoRaslOutputFlag p, t.nextAnchor p⟩ := by
    simp [SequencePoint.next, hs]
  rw [hnext]
  exact ⟨rfl, hflag, rfl, hprev.congr rfl rfl⟩

/-- The end of a slice segment, inside a picture or at the end of it. -/
theorem Inside.finishSlice {o : SliceOutcome} (h : c.Inside t p true)
    (hs : t.skips p = false) (hc : t.Continues p) (last : Bool) :
    (last = false → (c.finishSlice (p.hdr s) o last).Inside t p true) ∧
      (last = true → (c.finishSlice (p.hdr s) o last).Between (t.next p)) := by
  have hend : ∀ c' : HevcCtx, c'.Inside t p true →
      (last = false → (if last then c'.updateContextAtEndOfFrame else c').Inside t p true) ∧
        (last = true → (if last then c'.updateContextAtEndOfFrame else c').Between (t.next p)) := by
    intro c' h'
    cases last with
    | true => exact ⟨by simp, fun _ => h'.endFrame hs⟩
    | false => exact ⟨fun _ => h', by simp⟩
  unfold HevcCtx.finishSlice
  dsimp only
  split
  · split
    · next hsync =>
      -- not a sync point: the frame is dropped, and nothing was valid yet
      obtain ⟨hf, hr, -⟩ := hsync
      refine ⟨fun _ => h, fun _ => ?_⟩
      have hirap : p.isIRAP = false := hr
      have hfirst : t.first = false := hc.first_of_inter hirap
      obtain ⟨-, hprev, hflag⟩ := h.poc rfl
      have hnext : t.next p = ⟨false, t.nextNoRaslOutputFlag p, t.nextAnchor p⟩ := by
        simp [SequencePoint.next, hs]
      rw [hnext]
      exact ⟨h.first.trans hfirst, hflag, h.sync hf, hprev⟩
    · apply hend
      exact ⟨h.first, h.noRasl, h.prev, fun _ => rfl, by simp, h.poc⟩
  · exact hend c h

/-- The flag of a picture, before its order count is set. -/
theorem Inside.setNoRaslOutputFlag (h : c.Inside t p done) :
    (c.setNoRaslOutputFlag p.nalUnitType).Inside t p done ∧
      (c.setNoRaslOutputFlag p.nalUnitType).uNoRaslOutputFlag = t.nextNoRaslOutputFlag p := by
  unfold HevcCtx.setNoRaslOutputFlag
  split
  · next hr =>
    have hirap : p.isIRAP = true := hr
    have hn : (c.bIsFirstPicture || hevcIsBLA p.nalUnitType || hevcIsIDR p.nalUnitType) =
        t.nextNoRaslOutputFlag p := by
      rw [SequencePoint.nextNoRaslOutputFlag, if_pos hirap, h.first]
    refine ⟨⟨h.first, ?_, h.prev.imp (Holds.congr · rfl rfl) (Holds.congr · rfl rfl), h.valid,
      h.sync, fun hd => ?_⟩, hn⟩
    · rw [hirap]
      exact fun hf => absurd hf (by simp)
    · exact ⟨(h.poc hd).1, (h.poc hd).2.1.congr rfl rfl, hn⟩
  · next hr =>
    have hirap : p.isIRAP = false := Bool.eq_false_iff.mpr hr
    refine ⟨h, ?_⟩
    rw [SequencePoint.nextNoRaslOutputFlag, hirap]
    exact h.noRasl hirap

theorem Inside.decodeSliceData (h : c.Inside t p done)
    (hskip : t.skips p = false) (hc : t.Continues p) (hs : s ∈ p.segments)
    (hlead : s.dependent = false ∨ done = true) (last : Bool) :
    (c.decodeSliceData (p.hdr s) s.outcome last).2 = some p.poc ∧
      (last = false → (c.decodeSliceData (p.hdr s) s.outcome last).1.Inside t p true) ∧
      (last = true → (c.decodeSliceData (p.hdr s) s.outcome last).1.Between (t.next p)) := by
  have hnot : ¬ (hevcIsRASL (p.hdr s).nalUnitType = true ∧ c.uNoRaslOutputFlag = true) := by
    rintro ⟨hr, hn⟩
    have hr' : hevcIsRASL p.nalUnitType = true := hr
    have hirap : p.isIRAP = false := by
      simp only [hevcIsRASL, decide_eq_true_eq, List.mem_cons, List.not_mem_nil, or_false] at hr'
      unfold HevcPicture.isIRAP
      rcases hr' with hr' | hr' <;> rw [hr'] <;> rfl
    rw [h.noRasl hirap] at hn
    simp [SequencePoint.skips, hr', hn] at hskip
  -- the flag of the picture is set before its order count
  obtain ⟨hin₁, hflag⟩ := h.setNoRaslOutputFlag
  obtain ⟨c₂, b, hinit, h₂, hb⟩ := hin₁.initSlice hc hs hlead hflag
  have hinit' : (c.setNoRaslOutputFlag (p.hdr s).nalUnitType).initSlice (p.hdr s) s.outcome =
      (c₂, true, b) := hinit
  obtain ⟨hpoc, -, -⟩ := h₂.poc rfl
  unfold HevcCtx.decodeSliceData
  rw [if_neg hnot, hinit']
  dsimp only
  split
  · next hfail =>
    -- an inter slice without references, in front of the first valid picture
    have hfirst : t.first = false := hc.first_of_inter (hb hfail.1)
    refine ⟨congrArg some hpoc, fun _ => ?_, fun _ => h₂.endFrame hskip⟩
    constructor
    · exact hfirst.symm
    · exact h₂.noRasl
    · exact h₂.prev.imp (Holds.congr · rfl rfl) (Holds.congr · rfl rfl)
    · exact fun _ => rfl
    · exact fun _ => rfl
    · exact fun _ => ⟨hpoc, (h₂.poc rfl).2.1.congr rfl rfl, (h₂.poc rfl).2.2⟩
  · obtain ⟨hin, hout⟩ := h₂.finishSlice hskip hc last
    exact ⟨congrArg some hpoc, hin, hout⟩

/-! ## Pictures and sequences -/

theorem Inside.decodeSegments (ss : List HevcSegment) (h : c.Inside t p done)
    (hskip : t.skips p = false) (hc : t.Continues p) (hne : ss ≠ [])
    (hs : ∀ s ∈ ss, s ∈ p.segments) (hlead : ∀ s ∈ ss.head?, s.dependent = false ∨ done = true) :
    (HevcCtx.decodeSegments p ss c).2 = ss.map (fun _ => some p.poc) ∧
      (HevcCtx.decodeSegments p ss c).1.Between (t.next p) := by
  induction ss generalizing c done with
  | nil => exact absurd rfl hne
  | cons s ss ih =>
    obtain ⟨hpoc, hin, hout⟩ := h.decodeSliceData hskip hc (hs s (by simp)) (hlead s rfl) ss.isEmpty
    unfold HevcCtx.decodeSegments
    dsimp only
    rw [hpoc, List.map_cons]
    cases ss with
    | nil => exact ⟨rfl, hout rfl⟩
    | cons s' ss =>
      obtain ⟨hpocs, hend⟩ := ih (hin rfl) (by simp) (fun s hs' => hs s (List.mem_cons_of_mem _ hs'))
        (fun _ _ => .inr rfl)
      exact ⟨congrArg (some p.poc :: ·) hpocs, hend⟩

theorem decodeSegments_of_skips (hn : c.uNoRaslOutputFlag = t.noRaslOutputFlag)
    (hs : t.skips p = true) (ss : List HevcSegment) :
    HevcCtx.decodeSegments p ss c = (c, ss.map fun _ => none) := by
  have hskip : hevcIsRASL p.nalUnitType = true ∧ c.uNoRaslOutputFlag = true := by
    rw [hn]
    simpa [SequencePoint.skips] using hs
  induction ss with
  | nil => rfl
  | cons s ss ih =>
    have hd : c.decodeSliceData (p.hdr s) s.outcome ss.isEmpty = (c, none) := if_pos hskip
    unfold HevcCtx.decodeSegments
    simp only [hd, ih]
    rfl

theorem Between.decodeEvent {e : HevcEvent} (h : c.Between t) (ha : t.Allowed e) :
    (c.decodeEvent e).2 = (t.decode e).2 ∧ (c.decodeEvent e).1.Between (t.decode e).1 := by
  cases e with
  | picture p =>
    cases hskip : t.skips p with
    | true =>
      have hd := decodeSegments_of_skips h.noRasl hskip p.segments
      have hn : t.next p = t := by simp [SequencePoint.next, hskip]
      have he : c.decodeEvent (.picture p) = (c, p.segments.map fun _ => none) := hd
      rw [he]
      simp only [SequencePoint.decode, hskip, if_true, hn]
      exact ⟨trivial, h⟩
    | false =>
      have hin : c.Inside t p false := by
        refine ⟨h.first, fun _ => h.noRasl, .inl h.prev, ?_, fun _ => h.valid, by simp⟩
        rw [h.valid]
        simp
      obtain ⟨s, ss, hss, hlead⟩ := p.lead
      obtain ⟨hpocs, hend⟩ := hin.decodeSegments p.segments hskip (ha hskip)
        (by simp [hss]) (fun _ hs => hs) (by simpa [hss] using hlead)
      refine ⟨hpocs.trans ?_, hend⟩
      simp [SequencePoint.decode, hskip]
  | endOfSequence => exact ⟨rfl, rfl, h.noRasl, h.valid, h.prev⟩

/-- The order counts of all slice segments of a sequence are the true ones. -/
theorem pocs_of_sequence {es : List HevcEvent}
    (ha : TracedRuns.Along SequencePoint.decode SequencePoint.Allowed es .start) :
    c.init.decodeSequence es = TracedRuns.outputs SequencePoint.decode es .start := by
  have hstart : c.init.Between .start := ⟨rfl, rfl, rfl, by simp [Holds, SequencePoint.start]⟩
  apply TracedRuns.outputs_eq Between _ hstart ha
  intro c t e h ha
  exact h.decodeEvent ha

/-- A slice segment that is decoded. -/
def segment (dependent : Bool) (sliceType : SliceType) : HevcSegment :=
  ⟨dependent, sliceType, ⟨true, true, true, false, true⟩⟩

/-- An IDR picture with a dependent slice segment, a leading picture in front of
it, pictures of two sub-layers over a wrap of the LSB, a clean random access
point with its leading picture, and the same again behind an end of sequence. -/
def leadingSequence : List HevcEvent :=
  let intra := [segment false .i, segment true .i]
  let inter := [segment false .p, segment false .b]
  [.picture ⟨19, 0, 0, 0, intra, by decide, ⟨_, _, rfl, rfl⟩, by decide, by decide, by decide⟩,
    .picture ⟨7, 0, 0, -3, inter, by decide, ⟨_, _, rfl, rfl⟩, by decide, by decide, by decide⟩,
    .picture ⟨1, 0, 0, 6, inter, by decide, ⟨_, _, rfl, rfl⟩, by decide, by decide, by decide⟩,
    .picture ⟨2, 1, 0, 4, inter, by decide, ⟨_, _, rfl, rfl⟩, by decide, by decide, by decide⟩,
    .picture ⟨1, 0, 0, 13, inter, by decide, ⟨_, _, rfl, rfl⟩, by decide, by decide, by decide⟩,
    .picture ⟨1, 0, 0, 18, inter, by decide, ⟨_, _, rfl, rfl⟩, by decide, by decide, by decide⟩,
    .picture ⟨21, 0, 0, 24, intra, by decide, ⟨_, _, rfl, rfl⟩, by decide, by decide, by decide⟩,
    .picture ⟨8, 0, 0, 20, inter, by decide, ⟨_, _, rfl, rfl⟩, by decide, by decide, by decide⟩,
    .endOfSequence,
    .picture ⟨21, 0, 0, 11, intra, by decide, ⟨_, _, rfl, rfl⟩, by decide, by decide, by decide⟩,
    .picture ⟨8, 0, 0, 7, inter, by decide, ⟨_, _, rfl, rfl⟩, by decide, by decide, by decide⟩,
    .picture ⟨1, 0, 0, 14, inter, by decide, ⟨_, _, rfl, rfl⟩, by decide, by decide, by decide⟩]

theorem pocs_leadingSequence :
    (init ⟨0, 0, 0, false, false, false, false⟩).decodeSequence leadingSequence =
      [[some 0, some 0], [some (-3), some (-3)], [some 6, some 6], [some 4, some 4],
        [some 13, some 13], [some 18, some 18], [some 24, some 24], [some 20, some 20], [],
        [some 11, some 11], [none, none], [some 14, some 14]] := by
  have ha : TracedRuns.Along SequencePoint.decode SequencePoint.Allowed leadingSequence .start := by
    decide +kernel
  rw [pocs_of_sequence ha]
  decide +kernel

end HevcCtx

end VcuCodec
