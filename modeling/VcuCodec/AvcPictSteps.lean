import VcuCodec.DpbMmco5
import VcuCodec.DpbRuns

/-!
# What a picture leaves in the picture manager

The decoded picture buffer reaches the order counts through `bLastHasMMCO5`
alone.  One lemma for each call of the picture manager says which of its fields
change, with some buffer of which only that flag is known.
-/

namespace VcuCodec

namespace PictMngr

variable {m m' : PictMngr} {slice : AvcSliceHdr}

@[simp] theorem dpb_getPocType0 (m : PictMngr) (slice : AvcSliceHdr) :
    (m.getPocType0 slice).dpb = m.dpb := rfl

@[simp] theorem dpb_forgetFrameNum (m : PictMngr) (slice : AvcSliceHdr) :
    (m.forgetFrameNum slice).dpb = m.dpb := by
  unfold forgetFrameNum
  split <;> rfl

@[simp] theorem dpb_getPocType1 (m : PictMngr) (slice : AvcSliceHdr) :
    (m.getPocType1 slice).dpb = m.dpb := dpb_forgetFrameNum m slice

@[simp] theorem dpb_getPocType2 (m : PictMngr) (slice : AvcSliceHdr) :
    (m.getPocType2 slice).dpb = m.dpb := dpb_forgetFrameNum m slice

@[simp] theorem dpb_calculatePOC (m : PictMngr) (slice : AvcSliceHdr) :
    (m.calculatePOC slice).1.dpb = m.dpb := by
  unfold calculatePOC
  split <;> simp

/-- Only the buffer changes, and its flag is cleared. -/
theorem endParsing_eq {bClearRef : Bool} {eMarkingFlag : MarkingRef}
    (h : m.endParsing bClearRef eMarkingFlag = some m') :
    ∃ d, m' = m.setDpb d ∧ d.bLastHasMMCO5 = false := by
  obtain ⟨m1, h1, h⟩ := Option.bind_eq_some_iff.mp h
  obtain ⟨d1, -, h⟩ := Option.bind_eq_some_iff.mp h
  obtain ⟨d2, -, h⟩ := Option.bind_eq_some_iff.mp h
  obtain ⟨d3, -, h⟩ := Option.bind_eq_some_iff.mp h
  have hm1 : ∃ d, m1 = m.setDpb d := by
    unfold flushIf flush at h1
    split_ifs at h1
    · obtain ⟨d, -, rfl⟩ := Option.map_eq_some_iff.mp h1
      exact ⟨d.beginNewSeq, rfl⟩
    · obtain rfl : m = m1 := by simpa using h1
      exact ⟨m.dpb, rfl⟩
    · obtain rfl : m = m1 := by simpa using h1
      exact ⟨m.dpb, rfl⟩
  obtain ⟨d, rfl⟩ := hm1
  obtain rfl : _ = m' := by simpa using h
  exact ⟨d3.setLastHasMMCO5 false, rfl, rfl⟩

/-- The flag, the previous frame number and the current POC after a picture. -/
theorem updatePictManager_eq (h : m.updatePictManager slice = some m') :
    ∃ d, d.bLastHasMMCO5 = decide slice.HasMMCO5 ∧
      m' = if slice.HasMMCO5 then ((m.setPrevFrameNum 0).setCurFramePOC 0).setDpb d
        else (m.setPrevFrameNum slice.frameNum).setDpb d := by
  obtain ⟨m1, h1, h⟩ := Option.bind_eq_some_iff.mp h
  obtain ⟨d1, rfl, hf1⟩ := endParsing_eq h1
  obtain ⟨m2, h2, h⟩ := Option.bind_eq_some_iff.mp h
  obtain ⟨d3, h3, h⟩ := Option.bind_eq_some_iff.mp h
  obtain rfl : m2.setDpb d3 = m' := by simpa using h
  refine ⟨d3, ?_⟩
  rw [Dpb.flag_avcCleanup h3]
  unfold markReference at h2
  split at h2
  · obtain ⟨d2, hd2, h2⟩ := Option.bind_eq_some_iff.mp h2
    have hf2 : d2.bLastHasMMCO5 = decide slice.HasMMCO5 := by
      rw [Dpb.flag_markingProcess hd2]
      simp [setDpb, hf1]
    by_cases hm : slice.HasMMCO5
    · obtain rfl : _ = m2 := by simpa [hf2, hm] using h2
      exact ⟨hf2, by rw [if_pos hm]; rfl⟩
    · obtain rfl : _ = m2 := by simpa [hf2, hm] using h2
      exact ⟨hf2, by rw [if_neg hm]; rfl⟩
  · next hr =>
    obtain rfl : _ = m2 := by simpa using h2
    have hm : ¬ slice.HasMMCO5 := fun hm => hr hm.1
    exact ⟨by simp [setDpb, hf1, hm], by rw [if_neg hm]; rfl⟩

theorem inferFrame_eq {n : ℕ} (h : m.inferFrame slice n = some m') :
    ∃ d, d.bLastHasMMCO5 = m.dpb.bLastHasMMCO5 ∧
      m' = ((m.calculatePOC (slice.unused n)).1.setDpb d).setPrevFrameNum n := by
  obtain ⟨d1, h1, h⟩ := Option.bind_eq_some_iff.mp h
  obtain ⟨d2, h2, h⟩ := Option.bind_eq_some_iff.mp h
  obtain ⟨d3, h3, h⟩ := Option.bind_eq_some_iff.mp h
  obtain rfl : _ = m' := by simpa using h
  have hm : ¬ (slice.unused n).HasMMCO5 := by simp [AvcSliceHdr.HasMMCO5, AvcSliceHdr.unused]
  have hd1 : d1.bLastHasMMCO5 = m.dpb.bLastHasMMCO5 :=
    (Dpb.flag_insertFree h1).trans
      (congrArg Dpb.bLastHasMMCO5 (dpb_calculatePOC m (slice.unused n)))
  refine ⟨d3, ?_, rfl⟩
  rw [Dpb.flag_avcCleanup h3, Dpb.flag_markingProcess h2, hd1]
  simp [hm]

theorem inferFrames_keeps (P : PictMngr → Prop)
    (hP : ∀ m k m', P m → m.inferFrame slice k = some m' → P m') {n k : ℕ}
    {counts : List OrderCounts} (hm : P m)
    (h : inferFrames slice n k m = some (m', counts)) : P m' := by
  induction n generalizing k m counts with
  | zero => simp [inferFrames] at h
  | succ n ih =>
    unfold inferFrames at h
    split_ifs at h
    · obtain ⟨rfl, -⟩ : m = m' ∧ _ := by simpa using h
      exact hm
    · obtain ⟨m1, h1, h⟩ := Option.bind_eq_some_iff.mp h
      obtain ⟨⟨m2, cs⟩, h2, h⟩ := Option.bind_eq_some_iff.mp h
      obtain ⟨rfl, -⟩ : m2 = m' ∧ _ := by simpa using h
      exact ih (hP m k m1 hm h1) h2

theorem decodePicture_eq {p : AvcPicture} {c : PictureCounts}
    (h : m.decodePicture p = some (m', c)) :
    ∃ m1, (m.setCurrentPOC p.slice).fillGapInFrameNum p.slice = some (m1, c.inferred) ∧
      (m1.setBuffers p.uRecID p.uMvID).updatePictManager p.slice = some m' ∧
      c.own = (m.setCurrentPOC p.slice).orderCounts := by
  obtain ⟨⟨m1, inferred⟩, h1, h⟩ := Option.bind_eq_some_iff.mp h
  obtain ⟨m2, h2, h⟩ := Option.bind_eq_some_iff.mp h
  obtain ⟨rfl, rfl⟩ : m2 = m' ∧ _ = c := by simpa using h
  exact ⟨m1, h1, h2, rfl⟩

end PictMngr

/-! ## Sample streams -/

/-- A fresh context with room for `n` reference frames. -/
def PictMngr.sample (n : ℕ) : PictMngr :=
  PictMngr.init ⟨.zeroed, false, 0, 0, 0, 0, 0, 0, 0, 0, 0⟩ n .normal

/-- A frame of the stream of `AvcSliceHdr.sample`, decoded into the buffers `i`. -/
def AvcPicture.sample (i : ℕ) (slice : AvcSliceHdr) : AvcPicture := ⟨slice, i, i⟩

def AvcSliceHdr.withOrder (slice : AvcSliceHdr) (nalRefIdc lsb : ℕ) (deltaBottom : ℤ) :
    AvcSliceHdr :=
  { slice with
    nalRefIdc := nalRefIdc
    picOrderCntLsb := lsb
    deltaPicOrderCntBottom := deltaBottom }

/-- A slice of a stream of type `n` that allows gaps and has two reference
frames in its cycle. -/
def AvcSliceHdr.withFrames (slice : AvcSliceHdr) (n nalRefIdc : ℕ) (delta : ℤ) : AvcSliceHdr :=
  { slice with
    sps := ⟨0, n, 0, -2, 1, [4, 6], 4, true⟩
    nalRefIdc := nalRefIdc
    deltaPicOrderCnt := (delta, 0) }

end VcuCodec
