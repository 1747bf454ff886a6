import VcuCodec.AvcPictMngr

/-!
# The flag of operation 5

`bLastHasMMCO5` is what the buffer tells the picture manager about the previous
picture.  Only the marking process raises it, exactly for a slice header the
operations of which contain 5, and nothing else in the buffer touches it.
-/

namespace VcuCodec

open LinkedLists

/-- The operations of the slice header, up to the operation 0, contain 5. -/
def AvcSliceHdr.HasMMCO5 (slice : AvcSliceHdr) : Prop :=
  slice.nalRefIdc ≠ 0 ∧ slice.isIDR = false ∧ slice.adaptiveRefPicMarkingModeFlag = true ∧
    5 ∈ slice.memoryManagementControlOperation.takeWhile (· ≠ 0)
deriving Decidable

namespace Dpb

variable {d d' : Dpb} {b : Bool} {slice : AvcSliceHdr}

/-! ## Writes to other fields -/

section Writes

variable (d) (i j : ℕ) (f : Node → Node) (o : Order) (p : Place)

@[simp] theorem flag_modNode : (d.modNode i f).bLastHasMMCO5 = d.bLastHasMMCO5 := rfl

@[simp] theorem flag_setIds (ids : PicIds) : (d.setIds ids).bLastHasMMCO5 = d.bLastHasMMCO5 := rfl

@[simp] theorem flag_setHead : (o.setHead i d).bLastHasMMCO5 = d.bLastHasMMCO5 := by
  cases o <;> rfl

@[simp] theorem flag_releasePicID : (d.releasePicID i).bLastHasMMCO5 = d.bLastHasMMCO5 := rfl

@[simp] theorem flag_resetNodeInfo : (d.resetNodeInfo i).bLastHasMMCO5 = d.bLastHasMMCO5 := rfl

@[simp] theorem flag_decCountPic : d.decCountPic.bLastHasMMCO5 = d.bLastHasMMCO5 := rfl

@[simp] theorem flag_decCountRef : d.decCountRef.bLastHasMMCO5 = d.bLastHasMMCO5 := rfl

@[simp] theorem flag_deletePic : (d.deletePic i j).bLastHasMMCO5 = d.bLastHasMMCO5 := rfl

@[simp] theorem flag_serveWaitingPicture :
    d.serveWaitingPicture.bLastHasMMCO5 = d.bLastHasMMCO5 := by
  simp only [serveWaitingPicture, fillWaitingPicture]
  split_ifs <;> rfl

@[simp] theorem flag_joinNeighbours :
    (d.joinNeighbours o i j).bLastHasMMCO5 = d.bLastHasMMCO5 := by
  unfold joinNeighbours
  split_ifs <;> rfl

@[simp] theorem flag_removeFromList : (d.removeFromList o i).bLastHasMMCO5 = d.bLastHasMMCO5 := by
  simp only [removeFromList, flag_joinNeighbours]
  split_ifs <;> simp

@[simp] theorem flag_unlinkNode : (d.unlinkNode i).bLastHasMMCO5 = d.bLastHasMMCO5 := by
  have hp : (d.removeFromPocList i).bLastHasMMCO5 = d.bLastHasMMCO5 := by
    simp only [removeFromPocList]
    split_ifs <;> simp
  simp [unlinkNode, removeFromDecOrderList, removeFromPocLsbList, hp]

@[simp] theorem flag_remove : (d.remove i).bLastHasMMCO5 = d.bLastHasMMCO5 := by
  simp only [remove]
  split_ifs <;> simp

@[simp] theorem flag_displayNode : (d.displayNode i).bLastHasMMCO5 = d.bLastHasMMCO5 := by
  unfold displayNode
  split_ifs <;> rfl

@[simp] theorem flag_linkIn : (d.linkIn o i p).bLastHasMMCO5 = d.bLastHasMMCO5 := by
  cases p
  · simp only [linkIn]
    split_ifs <;> simp
  · rfl

@[simp] theorem flag_linkPOC : (d.linkPOC i p).bLastHasMMCO5 = d.bLastHasMMCO5 := by
  cases p
  · exact flag_linkIn ..
  · rfl

@[simp] theorem flag_dropRef : (d.dropRef i).bLastHasMMCO5 = d.bLastHasMMCO5 := rfl

@[simp] theorem flag_giveBackPicID : (d.giveBackPicID i).bLastHasMMCO5 = d.bLastHasMMCO5 := rfl

@[simp] theorem flag_setPicToUnused : (d.setPicToUnused i).bLastHasMMCO5 = d.bLastHasMMCO5 := rfl

@[simp] theorem flag_makeLongTerm (v : ℤ) :
    (d.makeLongTerm i v).bLastHasMMCO5 = d.bLastHasMMCO5 := rfl

@[simp] theorem flag_moveInFrontOf : (d.moveInFrontOf i j).bLastHasMMCO5 = d.bLastHasMMCO5 := by
  simp only [moveInFrontOf, linkInFrontOf]
  split_ifs <;> simp

@[simp] theorem flag_fillNode (a : InsertArgs) :
    (d.fillNode a).bLastHasMMCO5 = d.bLastHasMMCO5 := by
  unfold fillNode
  dsimp only
  split_ifs <;> rfl

@[simp] theorem flag_countInserted (a : InsertArgs) :
    (d.countInserted a).bLastHasMMCO5 = d.bLastHasMMCO5 := by
  unfold countInserted
  split_ifs <;> rfl

end Writes

/-! ## Operations that may fault -/

theorem flag_whileLinked {body : ℕ → Dpb → Option (Dpb × ℕ)} {nil n u : ℕ}
    (hbody : ∀ x d r, body x d = some r → r.1.bLastHasMMCO5 = d.bLastHasMMCO5)
    (h : whileLinked nil body n u d = some d') : d'.bLastHasMMCO5 = d.bLastHasMMCO5 :=
  whileLinked_keeps (fun c => c.bLastHasMMCO5 = d.bLastHasMMCO5)
    (fun x c r hc hr => (hbody x c r hr).trans hc) rfl h

theorem flag_displayAt {k u : ℕ} (h : d.displayAt k u = some d') :
    d'.bLastHasMMCO5 = d.bLastHasMMCO5 := by
  induction k generalizing u d d' with
  | zero => simp [displayAt] at h
  | succ k ih =>
    obtain ⟨c, hc, h⟩ := Option.bind_eq_some_iff.mp h
    obtain rfl : c.displayNode u = d' := by simpa using h
    rw [flag_displayNode]
    apply flag_whileLinked _ hc
    intro x d r hr
    unfold displayTurn at hr
    split_ifs at hr
    · obtain ⟨e, he, rfl⟩ := Option.map_eq_some_iff.mp hr
      exact ih he
    · obtain rfl : _ = r := by simpa using hr
      rfl

theorem flag_displayIf {u : ℕ} (h : d.displayIf b u = some d') :
    d'.bLastHasMMCO5 = d.bLastHasMMCO5 := by
  unfold displayIf at h
  split at h
  · exact flag_displayAt h
  · obtain rfl : d = d' := by simpa using h
    rfl

theorem flag_insert {a : InsertArgs} (h : d.insert a = some d') :
    d'.bLastHasMMCO5 = d.bLastHasMMCO5 := by
  obtain ⟨c, hc, h⟩ := Option.bind_eq_some_iff.mp h
  obtain rfl : c.countInserted a = d' := by simpa using h
  rw [flag_countInserted, ← flag_fillNode d a]
  unfold linkNode at hc
  split at hc
  · obtain rfl : _ = c := by simpa using hc
    rfl
  · obtain ⟨p, -, hc⟩ := Option.bind_eq_some_iff.mp hc
    obtain ⟨q, -, hc⟩ := Option.bind_eq_some_iff.mp hc
    obtain ⟨l, -, hc⟩ := Option.bind_eq_some_iff.mp hc
    obtain rfl : _ = c := by simpa using hc
    simp

theorem flag_avcCleanup (h : d.avcCleanup = some d') : d'.bLastHasMMCO5 = d.bLastHasMMCO5 := by
  obtain ⟨d1, h1, h⟩ := Option.bind_eq_some_iff.mp h
  obtain ⟨d2, h2, h⟩ := Option.bind_eq_some_iff.mp h
  obtain rfl : d2.serveWaitingPicture = d' := by simpa using h
  have hf1 : d1.bLastHasMMCO5 = d.bLastHasMMCO5 := by
    apply flag_whileLinked _ h1
    intro x d r hr
    dsimp only at hr
    split_ifs at hr <;> obtain rfl : _ = r := by simpa using hr
    · exact flag_remove d x
    · rfl
  have hf2 : d2.bLastHasMMCO5 = d1.bLastHasMMCO5 := by
    apply flag_whileLinked _ h2
    intro x d r hr
    dsimp only at hr
    split_ifs at hr
    · obtain ⟨e, he, hr⟩ := Option.bind_eq_some_iff.mp hr
      obtain rfl : _ = r := by simpa using hr
      exact (flag_remove e x).trans (flag_displayAt he)
    · obtain rfl : _ = r := by simpa using hr
      rfl
    · obtain rfl : _ = r := by simpa using hr
      rfl
  rw [flag_serveWaitingPicture, hf2, hf1]

theorem flag_insertFree {a : InsertArgs} (h : d.insertFree a = some d') :
    d'.bLastHasMMCO5 = d.bLastHasMMCO5 := by
  obtain ⟨u, -, h⟩ := Option.bind_eq_some_iff.mp h
  rw [flag_insert h]
  split
  · rfl
  · exact flag_remove d u

/-! ## The marking process -/

theorem flag_pictNumberProcess (h : d.pictNumberProcess slice = some d') :
    d'.bLastHasMMCO5 = d.bLastHasMMCO5 := by
  apply flag_whileLinked _ h
  intro x d r hr
  obtain rfl : _ = r := by simpa using hr
  rfl

theorem flag_slidingWindowMarking (h : d.slidingWindowMarking slice = some d') :
    d'.bLastHasMMCO5 = d.bLastHasMMCO5 := by
  obtain ⟨s, -, h⟩ := Option.bind_eq_some_iff.mp h
  dsimp only at h
  split_ifs at h
  · obtain rfl : _ = d' := by simpa using h
    exact flag_remove (d.dropRef s.uPosMin) s.uPosMin
  · obtain rfl : _ = d' := by simpa using h
    rfl
  · obtain rfl : d = d' := by simpa using h
    rfl

theorem flag_dropLongTerm {p : Node → Bool} (h : d.dropLongTerm p = some d') :
    d'.bLastHasMMCO5 = d.bLastHasMMCO5 := by
  apply flag_whileLinked _ h
  intro x d r hr
  obtain rfl : _ = r := by simpa using hr
  dsimp only
  split_ifs <;> rfl

theorem flag_shortTermToUnused {i : ℕ} (h : d.shortTermToUnused slice i = some d') :
    d'.bLastHasMMCO5 = d.bLastHasMMCO5 := by
  apply flag_whileLinked _ h
  intro x d r hr
  dsimp only at hr
  split_ifs at hr <;> obtain rfl : _ = r := by simpa using hr
  · rfl
  · rfl

theorem flag_switchLongTermPlace {i : ℕ} (h : d.switchLongTermPlace i = some d') :
    d'.bLastHasMMCO5 = d.bLastHasMMCO5 := by
  obtain ⟨u, -, h⟩ := Option.bind_eq_some_iff.mp h
  split_ifs at h <;> obtain rfl : _ = d' := by simpa using h
  · rfl
  · exact flag_moveInFrontOf d i u

theorem flag_longTermFrameIdxToAShortTerm {i j : ℕ}
    (h : d.longTermFrameIdxToAShortTerm slice i j = some d') :
    d'.bLastHasMMCO5 = d.bLastHasMMCO5 := by
  obtain ⟨u, -, h⟩ := Option.bind_eq_some_iff.mp h
  obtain ⟨v, -, h⟩ := Option.bind_eq_some_iff.mp h
  have hf : (d.freeLongTermFrameIdx u v).bLastHasMMCO5 = d.bLastHasMMCO5 := by
    unfold freeLongTermFrameIdx
    split_ifs <;> rfl
  rw [← hf]
  dsimp only at h
  split_ifs at h
  · exact (flag_switchLongTermPlace h).trans (flag_makeLongTerm _ v _)
  · obtain rfl : _ = d' := by simpa using h
    rfl

theorem flag_assignLongTermFrameIdx {i : ℕ} (h : d.assignLongTermFrameIdx slice i = some d') :
    d'.bLastHasMMCO5 = d.bLastHasMMCO5 := by
  obtain ⟨c, hc, h⟩ := Option.bind_eq_some_iff.mp h
  have hm : d'.bLastHasMMCO5 = c.bLastHasMMCO5 :=
    (flag_switchLongTermPlace h).trans (flag_makeLongTerm c c.uCurRef _)
  exact hm.trans (flag_dropLongTerm hc)

/-- Operation 5 raises the flag for a reference picture. -/
theorem flag_setAllPicAsUnused (h : d.setAllPicAsUnused slice = some d') :
    d'.bLastHasMMCO5 = (d.bLastHasMMCO5 || decide (slice.nalRefIdc ≠ 0)) := by
  obtain ⟨c, hc, h⟩ := Option.bind_eq_some_iff.mp h
  have hf : c.bLastHasMMCO5 = d.bLastHasMMCO5 := by
    apply flag_whileLinked _ hc
    intro x d r hr
    dsimp only at hr
    split_ifs at hr
    · obtain ⟨e, he, hr⟩ := Option.bind_eq_some_iff.mp hr
      obtain rfl : _ = r := by simpa using hr
      exact (flag_remove e x).trans (flag_displayIf he)
    · obtain rfl : _ = r := by simpa using hr
      rfl
  obtain rfl : _ = d' := by simpa using h
  by_cases hr : slice.nalRefIdc = 0
  · simpa [hr, beginNewSeq, setOutput, setMaxLongTermFrameIdx] using hf
  · simp [hr, beginNewSeq, setOutput, setLastHasMMCO5]

theorem flag_memoryControl {x : MmcoIdx} {op : ℕ} (h : d.memoryControl slice x op = some d') :
    d'.bLastHasMMCO5 = (d.bLastHasMMCO5 || decide (slice.nalRefIdc ≠ 0 ∧ op = 5)) := by
  unfold memoryControl at h
  split at h
  · simpa using flag_shortTermToUnused h
  · simpa using flag_dropLongTerm h
  · simpa using flag_longTermFrameIdxToAShortTerm h
  · obtain ⟨c, hc, h⟩ := Option.bind_eq_some_iff.mp h
    obtain rfl : _ = d' := by simpa using h
    simpa [setMaxLongTermFrameIdx] using flag_dropLongTerm hc
  · simpa using flag_setAllPicAsUnused h
  · simpa using flag_assignLongTermFrameIdx h
  · next h5 _ =>
    obtain rfl : d = d' := by simpa using h
    have hop : op ≠ 5 := h5
    simp [hop]

theorem flag_memoryControlLoop {ops : List ℕ} {x : MmcoIdx}
    (h : d.memoryControlLoop slice ops x = some d') :
    d'.bLastHasMMCO5 =
      (d.bLastHasMMCO5 || decide (slice.nalRefIdc ≠ 0 ∧ 5 ∈ ops.takeWhile (· ≠ 0))) := by
  induction ops generalizing x d with
  | nil => simp [memoryControlLoop] at h
  | cons op ops ih =>
    obtain ⟨c, hc, h⟩ := Option.bind_eq_some_iff.mp h
    have hf := flag_memoryControl hc
    split_ifs at h with hop
    · obtain rfl : c = d' := by simpa using h
      simpa [hop] using hf
    · rw [ih h, hf, Bool.or_assoc, ← Bool.decide_or]
      congr 2
      simp only [List.takeWhile_cons, hop, decide_not, decide_false, Bool.not_false, if_true,
        List.mem_cons, and_or_left, eq_comm (a := op)]

theorem flag_adaptiveMarking (h : d.adaptiveMarking slice = some d') :
    d'.bLastHasMMCO5 = (d.bLastHasMMCO5 || decide (slice.nalRefIdc ≠ 0 ∧
      slice.adaptiveRefPicMarkingModeFlag = true ∧
      5 ∈ slice.memoryManagementControlOperation.takeWhile (· ≠ 0))) := by
  unfold adaptiveMarking at h
  split at h
  · next ha => simpa [ha] using flag_memoryControlLoop h
  · next ha =>
    obtain rfl : d = d' := by simpa using h
    simp [ha]

/-- The marking process raises the flag exactly for a header with operation 5. -/
theorem flag_markingProcess (h : d.markingProcess slice = some d') :
    d'.bLastHasMMCO5 = (d.bLastHasMMCO5 || decide slice.HasMMCO5) := by
  unfold markingProcess at h
  dsimp only at h
  split at h
  · next hi =>
    obtain rfl : _ = d' := by simpa using h
    have hm : ¬ slice.HasMMCO5 := fun hm => by simp [hm.2.1] at hi
    simp only [hm, decide_false, Bool.or_false, markIDR]
    split <;> rfl
  · next hi =>
    obtain ⟨d1, h1, h⟩ := Option.bind_eq_some_iff.mp h
    obtain ⟨d2, h2, h⟩ := Option.bind_eq_some_iff.mp h
    obtain ⟨d3, h3, h⟩ := Option.bind_eq_some_iff.mp h
    obtain rfl : d3.keepCurrentMarked slice = d' := by simpa using h
    have hk : (d3.keepCurrentMarked slice).bLastHasMMCO5 = d3.bLastHasMMCO5 := by
      unfold keepCurrentMarked
      split <;> rfl
    rw [hk, flag_slidingWindowMarking h3, flag_adaptiveMarking h2, flag_pictNumberProcess h1]
    simp [AvcSliceHdr.HasMMCO5, Bool.eq_false_iff.mpr hi]

end Dpb

end VcuCodec
