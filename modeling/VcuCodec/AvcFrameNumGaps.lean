import VcuCodec.AvcPictSteps
import VcuCodec.DpbRefWindow

/-!
# Filling a gap in the frame numbers

`AL_AVC_PictMngr_Fill_Gap_In_FrameNum` infers one frame for each number between
the previous frame number and the current one.  Each is inserted as a
short-term reference, so that the sliding window finds a picture to drop, and
the clean-up then leaves a free node for the next one.
-/

namespace VcuCodec

open LinkedLists

/-! ## Inserting an inferred frame -/

/-- A buffer in order that has room for a picture. -/
structure LinkedDpb.HasRoom (c : LinkedDpb) (sps : AvcSps) : Prop where
  tidy : c.Tidy
  uNumRef : c.dpb.uNumRef < maxDpbSize
  refs : c.dpb.refs.card ≤ max sps.maxNumRefFrames 1
  free : ∃ i, c.dpb.getNextFreeNode = some i

/-- The buffer with an inferred frame that is not marked yet. -/
structure LinkedDpb.Inserted (c c' : LinkedDpb) : Prop where
  tidy : c'.Tidy
  uNumRef : c'.dpb.uNumRef = c.dpb.uNumRef
  refs : c'.dpb.refs.card ≤ c.dpb.refs.card + 1
  hasCur : c'.HasCur
  marks : (c'.dpb.nodes c'.dpb.uCurRef).marks = ⟨.shortTermRef, false, true⟩

theorem PictMngr.inferredPicture_valid (iFramePOC : ℤ) {i : ℕ} (hi : i < maxDpbSize) :
    ({ PictMngr.inferredPicture iFramePOC with uNode := i } : InsertArgs).Valid :=
  ⟨hi, by simp [PictMngr.inferredPicture], by simp [PictMngr.inferredPicture],
    by simp [PictMngr.inferredPicture], fun _ => rfl, fun _ => rfl, fun _ => rfl⟩

/-- The node that the new picture takes is emptied first. -/
theorem LinkedDpb.Tidy.emptyNode {c : LinkedDpb} (h : c.Tidy) {i : ℕ}
    (hi : c.dpb.getNextFreeNode = some i) : ∃ c' : LinkedDpb,
      (if (c.dpb.nodes i).bIsReset then c.dpb else c.dpb.remove i) = c'.dpb ∧ c'.Tidy ∧
        c.dpb.NoNewRefs c'.dpb ∧ (c'.dpb.nodes i).bIsReset = true ∧ i < maxDpbSize := by
  have hlt : i < maxDpbSize := List.mem_range.mp (List.mem_of_find?_eq_some hi)
  have hfree := List.find?_some hi
  simp only [decide_eq_true_eq] at hfree
  by_cases hb : (c.dpb.nodes i).bIsReset = true
  · exact ⟨c, if_pos hb, h, .refl _, hb, hlt⟩
  · have hin : c.dpb.InDpb i := ⟨hlt, by simpa using hb⟩
    have hne : i ≠ uEndOfList := Threaded.ne_nil (c.linked.spells .poc) (c.mem_order.mpr hin)
    have he : Edit (fun _ => False) c (c.remove i hin) :=
      .remove hin (fun hp => absurd (hfree.2.symm.trans hp) (by simp)) rfl rfl
    refine ⟨c.remove i hin, if_neg hb, h.edit id id id he, .remove _ _, ?_, hlt⟩
    have hp := Dpb.plain_remove (d := c.dpb) (i := i) hne
    rw [if_pos rfl] at hp
    exact (congrArg Node.bIsReset hp : ((c.dpb.remove i).nodes i).plain.bIsReset = _)

theorem LinkedDpb.Tidy.insertFree {c : LinkedDpb} (h : c.Tidy) {i : ℕ}
    (hi : c.dpb.getNextFreeNode = some i) (iFramePOC : ℤ) : ∃ c' : LinkedDpb,
      c.dpb.insertFree (PictMngr.inferredPicture iFramePOC) = some c'.dpb ∧ c.Inserted c' := by
  obtain ⟨c1, hd1, h1, hn1, hreset, hlt⟩ := h.emptyNode hi
  let a : InsertArgs := { PictMngr.inferredPicture iFramePOC with uNode := i }
  have hv : a.Valid := PictMngr.inferredPicture_valid iFramePOC hlt
  rcases c1.linked.insert (a := a) hreset hlt with ⟨-, hp, hh⟩ | ⟨d', hd, hl, hu, hh⟩
  · exact absurd ⟨hp, hh⟩ h1.sorted.not_stuck
  · let c2 : LinkedDpb := ⟨d', _, hl⟩
    have he : Edit (fun _ => False) c1 c2 :=
      .insert hv hreset (fun hx => absurd hx (by simp [a, PictMngr.inferredPicture]))
        (fun hx => absurd hx (by simp [a, PictMngr.inferredPicture])) hu hh rfl
    have hmarks : d'.marks = c1.dpb.marks.insert a := Dpb.marks_of_insert hu
    have hnode : ∀ j, (d'.nodes j).marks =
        if j = i then ⟨.shortTermRef, false, true⟩ else (c1.dpb.nodes j).marks := fun j =>
      (congrArg (fun k => k.nodes j) hmarks).trans DpbMarks.nodes_setNode
    have hcur : d'.uCurRef = i := congrArg Dpb.uCurRef hu
    have hnum : d'.uNumRef = c1.dpb.uNumRef :=
      (congrArg Dpb.uNumRef hu :
        d'.unlinked.uNumRef = ((c1.dpb.fillNode a).unlinked.countInserted a).uNumRef)
    refine ⟨c2, ?_, h1.edit id id id he, hnum.trans hn1.uNumRef, ?_, ?_, ?_⟩
    · rw [Dpb.insertFree, hi, Option.bind_eq_bind, Option.bind_some, hd1]
      exact hd
    · have hsub : d'.refs ⊆ insert i c.dpb.refs := by
        intro j hj
        rw [Dpb.mem_refs, hnode] at hj
        rw [Finset.mem_insert]
        by_cases hji : j = i
        · exact .inl hji
        · rw [if_neg hji] at hj
          exact .inr (hn1.refs_subset (Dpb.mem_refs.mpr hj))
      exact (Finset.card_le_card hsub).trans (Finset.card_insert_le _ _)
    · change d'.InDpb d'.uCurRef
      rw [hcur]
      refine (hl.mem i).mp ?_
      simp [Dpb.insertOrder, a]
    · change (d'.nodes d'.uCurRef).marks = _
      rw [hnode, if_pos hcur]

/-! ## Marking an inferred frame -/

section Marking

variable {c : LinkedDpb} {slice : AvcSliceHdr} {d : Dpb}

theorem Dpb.mem_slidingRisks {r : Risk} (hr : r ∈ d.slidingRisks slice) :
    r = .slideUnmarked ∨ r = .slideStaleID := by
  unfold Dpb.slidingRisks at hr
  split at hr
  · split_ifs at hr <;> simp at hr <;> tauto
  · simp at hr

/-- The marking of a short-term picture by the sliding window alone keeps the
references below the limits. -/
theorem LinkedDpb.Inserted.markingProcess {c0 : LinkedDpb} (h : c0.Inserted c) {k : ℕ}
    (hidr : slice.isIDR = false) (h6 : 6 ∉ slice.memoryManagementControlOperation)
    (hk : (k : ℤ) < int32Max) : ∃ c' : LinkedDpb,
      c.dpb.markingProcess (slice.unused k) = some c'.dpb ∧ c'.Tidy ∧
        c'.dpb.uNumRef = c0.dpb.uNumRef ∧ c'.dpb.refs.card ≤
          max c0.dpb.refs.card (min c0.dpb.uNumRef slice.sps.maxNumRefFrames) := by
  let bad : List Risk := [.promoteHead, .remarkUnmarked, .setMarking]
  have htidy : ∀ c c' : LinkedDpb, c.Tidy → Edits (· ∉ bad) c c' → c'.Tidy := fun c c' hc he =>
    he.keep (fun _ _ h he => h.edit (by simp [bad]) (by simp [bad]) (by simp [bad]) he) hc
  obtain ⟨c1, -, he1, hd1, hc1⟩ := Dpb.setCurrent_reaches (· ∉ bad) h.hasCur k
  have h1 := htidy _ _ h.tidy he1
  obtain ⟨c2, hp2, he2, hd2, ho2⟩ := h1.sorted.pictNumberProcess (· ∉ bad) (slice.unused k)
  have h2 := htidy _ _ h1 he2
  have hcur : c1.dpb.uCurRef = c.dpb.uCurRef := by rw [hd1]; rfl
  -- neither step changes a marking
  have hmarks : ∀ i, (c2.dpb.nodes i).marks = (c.dpb.nodes i).marks := by
    intro i
    have hn1 : (c1.dpb.nodes i).marks = (c.dpb.nodes i).marks := by
      rw [hd1, Dpb.nodes_modNode]
      split
      · next hi => rw [hi]; rfl
      · rfl
    have hn2 : (c2.dpb.nodes i).core = (c1.dpb.nodes i).core := by
      rw [hd2]
      simp only [Dpb.numberAll]
      split
      · exact Dpb.core_number _ _
      · rfl
    exact (congrArg Node.marks hn2 : (c2.dpb.nodes i).core.marks = (c1.dpb.nodes i).core.marks).trans
      hn1
  have hrefs : c2.dpb.refs = c.dpb.refs := Dpb.refs_congr fun i => by rw [hmarks i]
  have hnum : c2.dpb.uNumRef = c0.dpb.uNumRef := by
    rw [hd2, ← h.uNumRef]
    exact (congrArg Dpb.uNumRef hd1 : c1.dpb.uNumRef = _)
  -- the current picture is the short-term one that the window finds
  have hmem : c1.dpb.uCurRef ∈ c1.order .decOrder := c1.mem_order.mpr hc1
  have hshort : (c1.dpb.nodes c1.dpb.uCurRef).eMarkingFlag = .shortTermRef := by
    rw [hcur, hd1, Dpb.nodes_modNode, if_pos rfl]
    exact congrArg NodeMarks.eMarkingFlag h.marks
  have hslice : (c1.dpb.nodes c1.dpb.uCurRef).iSliceFrameNum = k := by
    rw [hcur, hd1, Dpb.nodes_modNode, if_pos rfl]
    rfl
  have hwrap : (c2.dpb.nodes c1.dpb.uCurRef).iFrameNumWrap = k := by
    rw [hd2]
    simp only [Dpb.numberAll, if_pos hmem, Node.number, hshort, hslice]
    exact if_neg (lt_irrefl _)
  have hrisks : ∀ r ∈ c2.dpb.slidingRisks (slice.unused k), r ∉ bad := by
    intro r hr
    rcases Dpb.mem_slidingRisks hr with rfl | rfl <;> simp [bad]
  obtain ⟨c3, hd3, he3, -⟩ := Dpb.slidingWindowMarking_reaches (slice.unused k) hrisks
  obtain ⟨hnum3, hcard3⟩ := h2.card_slidingWindow (u := c1.dpb.uCurRef) (ho2 ▸ hmem)
    ((congrArg NodeMarks.eMarkingFlag (hmarks _)).trans (hcur ▸ congrArg NodeMarks.eMarkingFlag
      h.marks)) (hwrap ▸ hk) hd3
  refine ⟨c3, ?_, htidy _ _ h2 he3, hnum3.trans hnum, ?_⟩
  · have hidr' : (slice.unused k).isIDR = false := hidr
    have had : (slice.unused k).adaptiveRefPicMarkingModeFlag = false := rfl
    have hkeep : c3.dpb.keepCurrentMarked (slice.unused k) = c3.dpb := if_neg fun hx => h6 hx.1
    have hd1' : c.dpb.modNode c.dpb.uCurRef (Node.setCurrent c.dpb.uCurRef (slice.unused k).frameNum) =
        c1.dpb := hd1.symm
    simp only [Dpb.markingProcess, hd1', hidr', Bool.false_eq_true, if_false, hp2,
      Option.bind_eq_bind, Option.bind_some, Dpb.adaptiveMarking, had, hd3, hkeep]
  · have hle := h.refs
    rw [hrefs, hnum] at hcard3
    refine hcard3.trans (max_le_max ?_ le_rfl)
    omega

end Marking

/-! ## The frames of a gap -/

namespace PictMngr

/-- `m'` is the context behind the frame with number `k` that is inferred in
`m`: a non-existing short-term reference, with which there are no more
references than the sequence allows and a free node is left. -/
structure Infers (m : PictMngr) (slice : AvcSliceHdr) (k : ℕ) (m' : PictMngr) : Prop where
  turn : m.inferFrame slice k = some m'
  inserted : ∃ iFramePOC d, m.dpb.insertFree (inferredPicture iFramePOC) = some d ∧
    (d.nodes d.uCurRef).nonExisting = true ∧
    (d.nodes d.uCurRef).eMarkingFlag = .shortTermRef ∧
    (d.markingProcess (slice.unused k)).bind Dpb.avcCleanup = some m'.dpb
  frameNum : m'.iPrevFrameNum = k
  refs : m'.dpb.refs.card ≤ max slice.sps.maxNumRefFrames 1
  free : ∃ i, m'.dpb.getNextFreeNode = some i

/-- `m'` is the context behind the inferred frames with the numbers `ks`. -/
def InfersAll (slice : AvcSliceHdr) : List ℕ → PictMngr → PictMngr → Prop
  | [], m, m' => m' = m
  | k :: ks, m, m' => ∃ m1, m.Infers slice k m1 ∧ InfersAll slice ks m1 m'

variable {m : PictMngr} {slice : AvcSliceHdr} {c : LinkedDpb} {k : ℕ}

theorem InfersAll.frameNum {ks : List ℕ} {m' : PictMngr} (h : m.InfersAll slice (ks ++ [k]) m') :
    m'.iPrevFrameNum = k := by
  induction ks generalizing m with
  | nil =>
    obtain ⟨m1, h1, rfl⟩ := h
    exact h1.frameNum
  | cons k' ks ih =>
    obtain ⟨m1, -, h⟩ := h
    exact ih h

end PictMngr

end VcuCodec
