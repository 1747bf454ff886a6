import VcuCodec.AvcSliceParsing

/-!
# The arrays of the AVC slice header

When `AL_AVC_ParseSliceHeader` stays inside its arrays.  The commands of a list
and the memory-management operations are counted in the stream, without the
arrays that they are put into.
-/

namespace VcuCodec

open CheckedRuns Checked Parse

/-! ## Commands in the stream -/

/-- The parser behind the reordering commands of a list, if one of the first `n`
is the last. -/
def skipReordering : (n : ℕ) → RbspParser → Option RbspParser
  | 0, _ => none
  | n + 1, p =>
    if clip3 (toInt32 p.ue.1) 0 maxReorderIdc = 3 then some p.ue.2
    else skipReordering n p.ue.2.ue.2

/-- The parser behind an operand, if there is one. -/
def skipOperand (c : Prop) [Decidable c] (p : RbspParser) : RbspParser := if c then p.ue.2 else p

/-- The parser behind the operands of a memory-management operation. -/
def skipOperands (op : ℤ) (p : RbspParser) : RbspParser :=
  skipOperand (op = 4) (skipOperand (op = 3 ∨ op = 6) (skipOperand (op = 2)
    (skipOperand (op = 1 ∨ op = 3) p)))

/-- The parser behind the memory-management operations, if one of the first `n`
is the last. -/
def skipMarking : (n : ℕ) → RbspParser → Option RbspParser
  | 0, _ => none
  | n + 1, p =>
    if toInt32 p.ue.1 = 0 then some p.ue.2
    else skipMarking n (skipOperands (toInt32 p.ue.1) p.ue.2)

theorem clip3_mem {v lo hi : ℤ} (h : lo ≤ hi) : lo ≤ clip3 v lo hi ∧ clip3 v lo hi ≤ hi := by
  unfold clip3
  split
  · omega
  split <;> omega

theorem clip3_maxReorderIdc (v : ℤ) : 0 ≤ clip3 v 0 maxReorderIdc ∧ clip3 v 0 maxReorderIdc ≤ 3 :=
  clip3_mem (by decide)

/-! ## Reordering -/

/-- The last command that the loop has put into the array. -/
def RefPicListReordering.EndsAt (r : RefPicListReordering) (i : ℤ) : Prop :=
  ∃ h : 0 ≤ i ∧ i < 17, r.reorderingOfPicNumsIdc.get ⟨i.toNat, by
    unfold avcMaxReferencePictureReorder; omega⟩ = 3

/-- The commands of a list have an end inside their array. -/
def RefPicListReordering.Fits (r : RefPicListReordering) : Prop :=
  r.refPicListReorderingFlag ≠ 0 → ∃ i, r.EndsAt i

section Reordering

variable {p q : RbspParser} {r : RefPicListReordering}

variable {idx1 idx2 idx3 : ℤ}

/-- With `n` free entries, the loop stays inside the arrays if one of the next `n`
commands is the last. -/
theorem reorderingLoop_ends {n rounds : ℕ} (h1 : idx1 = 16 - n) (hn : n ≤ 17)
    (hr : n ≤ rounds) (h2 : -1 ≤ idx2 ∧ idx2 ≤ idx1) (h3 : -1 ≤ idx3 ∧ idx3 ≤ idx1)
    (h : skipReordering n p = some q) :
    Ends (reorderingLoop rounds idx1 idx2 idx3 r) p fun a t => t = q ∧ a.2.EndsAt a.1 := by
  induction n generalizing rounds idx1 idx2 idx3 p r with
  | zero => simp [skipReordering] at h
  | succ n ih =>
    obtain ⟨rounds, rfl⟩ : ∃ k, rounds = k + 1 := ⟨rounds - 1, by omega⟩
    have hsize : (avcMaxReferencePictureReorder : ℤ) = 17 := rfl
    have hidc := clip3_maxReorderIdc (toInt32 p.ue.1)
    unfold skipReordering at h
    unfold reorderingLoop
    simp only [Parse.ue, ends_bind, ends_step, ends_writeAt, ends_ite, ends_pure]
    refine ⟨by omega, fun h01 => ?_, fun h01 => ⟨fun hc2 => ?_, fun hc2 => ?_⟩⟩
    · -- a difference of picture numbers
      rw [if_neg (by omega)] at h
      refine ⟨by omega, fun _ => ?_, fun hc => absurd hc (by omega)⟩
      exact ih (by omega) (by omega) (by omega) (by omega) (by omega) h
    · -- a long-term picture
      rw [if_neg (by omega)] at h
      refine ⟨by omega, fun _ => ?_, fun hc => absurd hc (by omega)⟩
      exact ih (by omega) (by omega) (by omega) (by omega) (by omega) h
    · -- the last command
      have hlast : clip3 (toInt32 p.ue.1) 0 maxReorderIdc = 3 := by omega
      rw [if_pos hlast] at h
      exact ⟨Option.some.inj h, by omega, (Vector.getElem_set_self _).trans hlast⟩

/-- Without a last command among the next `n`, the loop leaves the array. -/
theorem skipReordering_of_returns {n rounds : ℕ} (h1 : idx1 = 16 - n)
    (hn : n ≤ 17) (h : Returns (reorderingLoop rounds idx1 idx2 idx3 r) p) :
    (skipReordering n p).isSome = true := by
  have hsize : (avcMaxReferencePictureReorder : ℤ) = 17 := rfl
  induction n generalizing rounds idx1 idx2 idx3 p r with
  | zero =>
    cases rounds with
    | zero => exact ((ends_stuck _).mp h).elim
    | succ rounds =>
      unfold Returns reorderingLoop at h
      simp only [Parse.ue, ends_bind, ends_step, ends_writeAt] at h
      obtain ⟨hi, -⟩ := h
      omega
  | succ n ih =>
    cases rounds with
    | zero => exact ((ends_stuck _).mp h).elim
    | succ rounds =>
      have hidc := clip3_maxReorderIdc (toInt32 p.ue.1)
      unfold Returns reorderingLoop at h
      simp only [Parse.ue, ends_bind, ends_step, ends_writeAt, ends_ite] at h
      obtain ⟨_, h01, h2⟩ := h
      unfold skipReordering
      split
      · rfl
      by_cases hc : clip3 (toInt32 p.ue.1) 0 maxReorderIdc = 0 ∨
          clip3 (toInt32 p.ue.1) 0 maxReorderIdc = 1
      · obtain ⟨_, hnext, -⟩ := h01 hc
        exact ih (by omega) (by omega) (hnext (by omega))
      · obtain ⟨_, hnext, -⟩ := (h2 hc).1 (by omega)
        exact ih (by omega) (by omega) (hnext (by omega))

/-- The parser behind the commands of one list, if they fit. -/
def skipList (p : RbspParser) : Option RbspParser :=
  if (p.u 1).1 = 0 then some (p.u 1).2
  else skipReordering avcMaxReferencePictureReorder (p.u 1).2

theorem readReordering_ends (h : skipList p = some q) :
    Ends (readReordering r) p fun a t => t = q ∧ a.1 = true ∧ a.2.Fits := by
  unfold skipList at h
  unfold readReordering
  simp only [Parse.u, ends_bind, ends_step, ends_ite, ends_pure]
  refine ⟨fun hf => ?_, fun hf => ?_⟩
  · rw [if_pos hf] at h
    exact ⟨Option.some.inj h, trivial, fun hflag => absurd hf hflag⟩
  · rw [if_neg hf] at h
    refine (reorderingLoop_ends (by decide) (by decide) (by decide) (by decide) (by decide) h).imp ?_
    rintro ⟨idx1, r'⟩ t ⟨ht, hi, hlast⟩
    simp only [ends_readAt]
    exact ⟨hi, ht, decide_eq_true hlast, fun _ => ⟨idx1, hi, hlast⟩⟩

theorem skipList_of_returns (h : Returns (readReordering r) p) : (skipList p).isSome = true := by
  unfold Returns readReordering at h
  simp only [Parse.u, ends_bind, ends_step, ends_ite] at h
  unfold skipList
  split
  · rfl
  · next hf =>
    exact skipReordering_of_returns (by decide) le_rfl (h.2 hf).returns

end Reordering

/-- The parser behind the commands of both lists, if they fit. -/
def skipLists (sliceType : ℕ) (p : RbspParser) : Option RbspParser :=
  if sliceType = sliceI then some p
  else if sliceType = sliceB then (skipList p).bind skipList
  else skipList p

namespace AvcSliceSyntax

variable {slice : AvcSliceSyntax} {p q : RbspParser}

/-- The numbers of references are those of the arrays of weights. -/
def RefsClipped (slice : AvcSliceSyntax) : Prop :=
  (0 ≤ slice.numRefIdxL0ActiveMinus1 ∧ slice.numRefIdxL0ActiveMinus1 ≤ 15) ∧
    (0 ≤ slice.numRefIdxL1ActiveMinus1 ∧ slice.numRefIdxL1ActiveMinus1 ≤ 15)

theorem refPicListReordering_ends (h : skipLists slice.sliceType p = some q) :
    Ends slice.refPicListReordering p fun a t => t = q ∧ a.1 = true ∧
      (slice.RefsClipped → a.2.RefsClipped) := by
  unfold skipLists at h
  unfold refPicListReordering
  simp only [ends_bind, ends_readIf, ends_ite, ends_pure]
  refine ⟨fun hI => ?_, fun hI => ?_⟩
  · rw [if_neg hI] at h
    obtain ⟨q0, h0, hB, hP⟩ : ∃ q0, skipList p = some q0 ∧
        (slice.sliceType = sliceB → skipList q0 = some q) ∧ (slice.sliceType ≠ sliceB → q0 = q) := by
      split at h
      · next hB =>
        obtain ⟨q0, h0, h1⟩ := Option.bind_eq_some_iff.mp h
        exact ⟨q0, h0, fun _ => h1, fun hP => absurd hB hP⟩
      · next hP => exact ⟨q, h, fun hB => absurd hB hP, fun _ => rfl⟩
    refine (readReordering_ends h0).imp ?_
    rintro ⟨ok, l0⟩ t ⟨rfl, rfl, -⟩
    refine ⟨by simp, fun _ => ⟨fun hb => ?_, fun hb => ?_⟩⟩
    · refine (readReordering_ends (hB hb)).imp ?_
      rintro ⟨ok, l1⟩ t' ⟨rfl, rfl, -⟩
      exact ⟨rfl, rfl, id⟩
    · exact ⟨hP hb, trivial, id⟩
  · rw [if_pos (not_not.mp hI)] at h
    have hb : slice.sliceType ≠ sliceB := by
      rw [not_not.mp hI]
      decide
    exact ⟨by simp, fun _ => ⟨fun h' => absurd h' hb, fun _ => ⟨Option.some.inj h, trivial, id⟩⟩⟩

theorem skipLists_of_returns (h : Returns slice.refPicListReordering p) :
    (skipLists slice.sliceType p).isSome = true := by
  unfold Returns refPicListReordering at h
  simp only [ends_bind, ends_readIf, ends_ite, ends_pure] at h
  unfold skipLists
  split
  · rfl
  · next hI =>
    have h0 := h.1 hI
    obtain ⟨q0, hq0⟩ := Option.isSome_iff_exists.mp (skipList_of_returns h0.returns)
    split
    · next hB =>
      obtain ⟨⟨ok, l0⟩, t, -, ⟨rfl, rfl, -⟩, hrest⟩ := (readReordering_ends hq0).and h0
      rw [hq0]
      exact skipList_of_returns ((hrest.2 (by simp)).1 hB).returns
    · rw [hq0]
      rfl

end AvcSliceSyntax

/-! ## Memory management -/

section Marking

variable {p q : RbspParser} {m : DecRefPicMarking}

variable {v : Vector ℤ mmcoSize}

theorem readOperand_ends {c : Prop} [Decidable c] {idx : ℤ} (h : c → 0 ≤ idx ∧ idx < mmcoSize) :
    Ends (readOperand c v idx) p fun a t => t = skipOperand c p ∧ idx ≤ a.2 ∧ a.2 ≤ idx + 1 := by
  unfold readOperand skipOperand
  simp only [Parse.ue, ends_ite, ends_bind, ends_step, ends_writeAt, ends_pure]
  refine ⟨fun hc => ⟨h hc, ?_⟩, fun hc => ?_⟩
  · rw [if_pos hc]
    exact ⟨rfl, by omega, le_rfl⟩
  · rw [if_neg hc]
    exact ⟨rfl, le_rfl, by omega⟩

theorem skipOperand_of_ends {c : Prop} [Decidable c] {idx : ℤ}
    {Q : Vector ℤ mmcoSize × ℤ → RbspParser → Prop} (h : Ends (readOperand c v idx) p Q) :
    ∃ a, Q a (skipOperand c p) := by
  unfold readOperand at h
  unfold skipOperand
  simp only [Parse.ue, ends_ite, ends_bind, ends_step, ends_writeAt, ends_pure] at h
  split
  · next hc =>
    obtain ⟨_, hq⟩ := h.1 hc
    exact ⟨_, hq⟩
  · next hc => exact ⟨_, h.2 hc⟩

variable {idx1 idx2 idx3 idx4 idx5 : ℤ}

/-- With `n` free entries, the loop stays inside the arrays if one of the next `n`
operations is the last. -/
theorem markingLoop_ends {n fuel : ℕ} (h1 : idx1 = 32 - n)
    (hn : n ≤ 32) (hf : n ≤ fuel) (h2 : 0 ≤ idx2 ∧ idx2 ≤ idx1) (h3 : 0 ≤ idx3 ∧ idx3 ≤ idx1)
    (h4 : 0 ≤ idx4 ∧ idx4 ≤ idx1) (h5 : 0 ≤ idx5 ∧ idx5 ≤ idx1)
    (h : (skipMarking n p).isSome = true) :
    Returns (markingLoop fuel idx1 idx2 idx3 idx4 idx5 m) p := by
  have hsize : (mmcoSize : ℤ) = 32 := rfl
  induction n generalizing fuel idx1 idx2 idx3 idx4 idx5 p m with
  | zero => simp [skipMarking] at h
  | succ n ih =>
    obtain ⟨fuel, rfl⟩ : ∃ k, fuel = k + 1 := ⟨fuel - 1, by omega⟩
    unfold skipMarking skipOperands at h
    unfold Returns markingLoop
    simp only [Parse.ue, ends_bind, ends_step, ends_writeAt]
    refine ⟨by omega, (readOperand_ends fun _ => by omega).imp ?_⟩
    rintro ⟨v2, idx2'⟩ t2 ⟨ht2, hlo2, hhi2⟩
    refine (readOperand_ends fun _ => by omega).imp ?_
    rintro ⟨v3, idx3'⟩ t3 ⟨ht3, hlo3, hhi3⟩
    refine (readOperand_ends fun _ => by omega).imp ?_
    rintro ⟨v4, idx4'⟩ t4 ⟨ht4, hlo4, hhi4⟩
    refine (readOperand_ends fun _ => by omega).imp ?_
    rintro ⟨v5, idx5'⟩ t5 ⟨ht5, hlo5, hhi5⟩
    dsimp only at hlo2 hhi2 hlo3 hhi3 hlo4 hhi4 hlo5 hhi5
    rw [ends_ite]
    refine ⟨fun _ => (ends_pure _).mpr trivial, fun hop => ?_⟩
    rw [if_neg hop, ← ht2, ← ht3, ← ht4, ← ht5] at h
    exact ih (by omega) (by omega) (by omega) (by omega) (by omega) (by omega) (by omega) h

/-- Without a last operation among the next `n`, the loop leaves the array. -/
theorem skipMarking_of_returns {n fuel : ℕ} (h1 : idx1 = 32 - n)
    (hn : n ≤ 32) (h : Returns (markingLoop fuel idx1 idx2 idx3 idx4 idx5 m) p) :
    (skipMarking n p).isSome = true := by
  have hsize : (mmcoSize : ℤ) = 32 := rfl
  induction n generalizing fuel idx1 idx2 idx3 idx4 idx5 p m with
  | zero =>
    cases fuel with
    | zero => exact ((ends_stuck _).mp h).elim
    | succ fuel =>
      unfold Returns markingLoop at h
      simp only [Parse.ue, ends_bind, ends_step, ends_writeAt] at h
      obtain ⟨hi, -⟩ := h
      omega
  | succ n ih =>
    cases fuel with
    | zero => exact ((ends_stuck _).mp h).elim
    | succ fuel =>
      unfold Returns markingLoop at h
      simp only [Parse.ue, ends_bind, ends_step, ends_writeAt] at h
      obtain ⟨_, h⟩ := h
      obtain ⟨_, h⟩ := skipOperand_of_ends h
      obtain ⟨_, h⟩ := skipOperand_of_ends h
      obtain ⟨_, h⟩ := skipOperand_of_ends h
      obtain ⟨_, h⟩ := skipOperand_of_ends h
      rw [ends_ite] at h
      unfold skipMarking skipOperands
      split
      · rfl
      · next hop => exact ih (by omega) (by omega) (h.2 hop)

end Marking

/-! ## Weights -/

theorem yields_readWeight : Yields readWeight fun _ => True :=
  (Yields.anyStep _).bind fun _ _ => .pure trivial

theorem readWPCoeffAt_yields {chromaFormatIdc i : ℕ} (hi : i < 16) (w : WPCoeff) :
    Yields (readWPCoeffAt chromaFormatIdc i w) fun _ => True := by
  have hidx : (0 : ℤ) ≤ i ∧ (i : ℤ) < (16 : ℕ) := by omega
  have hflag : Yields (Parse.u 1) fun _ => True := .anyStep _
  have hweight : ∀ flag : ℕ, Yields (readIf (flag ≠ 0) readWeight 0) fun _ => True :=
    fun _ => .anyReadIf _ yields_readWeight _
  unfold readWPCoeffAt
  refine hflag.bind fun _ _ => (Yields.writeAt hidx).bind fun _ _ => ?_
  refine (hweight _).bind fun _ _ => (Yields.writeAt hidx).bind fun _ _ => ?_
  refine (hweight _).bind fun _ _ => (Yields.writeAt hidx).bind fun _ _ => ?_
  refine .ite (fun _ => .pure trivial) fun _ => ?_
  refine hflag.bind fun _ _ => (Yields.writeAt hidx).bind fun _ _ => ?_
  refine (hweight _).bind fun _ _ => (hweight _).bind fun _ _ => ?_
  refine (hweight _).bind fun _ _ => (hweight _).bind fun _ _ => ?_
  exact (Yields.writeAt hidx).bind fun _ _ => (Yields.writeAt hidx).bind fun _ _ => .pure trivial

theorem readWPCoeff_yields {chromaFormatIdc : ℕ} {n : ℤ} (h : 0 ≤ n ∧ n ≤ 15) (w : WPCoeff) :
    Yields (readWPCoeff chromaFormatIdc n w) fun _ => True :=
  .forBelow fun i hi w => readWPCoeffAt_yields (by omega) w

namespace AvcSliceSyntax

theorem predWeightTable_yields {slice : AvcSliceSyntax} (h : slice.RefsClipped)
    (chromaFormatIdc : ℕ) : Yields (slice.predWeightTable chromaFormatIdc) fun _ => True := by
  unfold predWeightTable
  refine (Yields.anyStep _).bind fun _ _ => ?_
  refine (Yields.anyReadIf _ (.anyStep _) _).bind fun _ _ => ?_
  refine (readWPCoeff_yields h.1 _).bind fun _ _ => ?_
  refine (Yields.anyReadIf _ (readWPCoeff_yields h.2 _) _).bind fun _ _ => ?_
  exact .pure trivial

end AvcSliceSyntax

/-! ## The parts of the function -/

/-- The number that the header in front of the parser gives its picture parameter set. -/
def ppsIdAt (p : RbspParser) : ℤ := toInt32 ((((p.u 1).2.u 2).2.u 5).2.ue.2.ue.2.ue).1

namespace AvcSliceContext

/-- The numbers of references of a part that goes on. -/
def GoesOnClipped : AvcSliceResult ⊕ AvcSliceContext → Prop
  | .inl _ => True
  | .inr c => c.slice.RefsClipped

end AvcSliceContext

open AvcSliceContext

namespace AvcSliceSyntax

variable {slice : AvcSliceSyntax} {conceal : AvcConceal} {pPPSTable : AvcPpsTable} {p q : RbspParser}

theorem setDefaultValues_refsClipped (slice : AvcSliceSyntax) :
    slice.setDefaultValues.RefsClipped := by
  simp [RefsClipped, setDefaultValues]

theorem readStart_ends {Q : AvcSliceSyntax × ℤ → RbspParser → Prop}
    (h : ∀ (slice' : AvcSliceSyntax) q, slice'.numRefIdxL0ActiveMinus1 = slice.numRefIdxL0ActiveMinus1 →
      slice'.numRefIdxL1ActiveMinus1 = slice.numRefIdxL1ActiveMinus1 → Q (slice', ppsIdAt p) q) :
    Ends slice.readStart p Q := by
  unfold readStart
  simp only [Parse.u, Parse.ue, ends_bind, ends_step, ends_pure]
  exact h _ _ rfl rfl

theorem selectParameterSets_ends (hpps : conceal.bHasPPS = true) (hs : slice.RefsClipped)
    (h0 : 0 ≤ ppsIdAt p) (hne : ppsIdAt p ≠ 256) :
    Ends (slice.selectParameterSets conceal pPPSTable) p fun r _ => GoesOnClipped r := by
  unfold selectParameterSets
  rw [ends_bind]
  apply readStart_ends
  intro slice' q hl0 hl1
  have hclip : slice'.RefsClipped := by
    unfold RefsClipped at hs ⊢
    rw [hl0, hl1]
    exact hs
  simp only [ends_bind, ends_readAt, ends_ite, ends_pure, ends_deref]
  refine ⟨conceal.lastPPSId_mem hpps, fun _ => trivial, fun hle => ?_⟩
  have hmax : (avcMaxPps : ℤ) = 256 := rfl
  refine ⟨by omega, fun _ => trivial, fun hconceal => ?_⟩
  obtain ⟨sps, hsps⟩ := Option.isSome_iff_exists.mp
    ((pPPSTable.get ⟨(ppsIdAt p).toNat, by omega⟩).hasSps (by simpa using hconceal))
  refine ⟨sps, hsps, fun _ => trivial, fun _ => ⟨by omega, fun _ => trivial, fun _ => ?_⟩⟩
  exact ⟨fun _ => trivial, fun _ => ⟨fun _ => trivial, fun _ => ⟨fun _ => trivial, fun _ => hclip⟩⟩⟩

theorem ppsIdAt_of_returns (h : Returns (slice.selectParameterSets conceal pPPSTable) p) :
    0 ≤ ppsIdAt p ∧ ppsIdAt p ≠ 256 := by
  unfold Returns selectParameterSets at h
  rw [ends_bind] at h
  have hstart : Ends slice.readStart p fun a _ => a.2 = ppsIdAt p :=
    readStart_ends fun _ _ _ _ => by dsimp only
  obtain ⟨⟨slice', id⟩, q, -, hid, hrest⟩ := hstart.and h
  simp only [ends_bind, ends_readAt, ends_ite] at hid hrest
  rw [hid] at hrest
  obtain ⟨_, -, hrest⟩ := hrest
  have hmax : (avcMaxPps : ℤ) = 256 := rfl
  by_cases hlt : (avcMaxPps : ℤ) < ppsIdAt p
  · omega
  · obtain ⟨hid, -⟩ := hrest hlt
    omega

theorem readNumRefIdx_yields (hs : slice.RefsClipped) (pps : AvcPpsSyntax) :
    Yields (slice.readNumRefIdx pps) RefsClipped := by
  have h0 := pps.numRefIdxL0_le
  have h1 := pps.numRefIdxL1_le
  have hclip : ∀ v, 0 ≤ clip3 v 0 avcMaxRefIdx ∧ clip3 v 0 avcMaxRefIdx ≤ 15 :=
    fun v => clip3_mem (by decide)
  have hmax : avcMaxRefIdx = 15 := rfl
  unfold readNumRefIdx
  refine .ite (fun _ => .pure hs) fun _ => ?_
  refine (Yields.anyStep _).bind fun _ _ => ?_
  refine .ite (fun _ => .pure ⟨by dsimp only; omega, by dsimp only; omega⟩) fun _ => ?_
  refine (Yields.anyStep _).bind fun _ _ => ?_
  refine .ite (fun _ => .pure ?_) fun _ => (Yields.anyStep _).bind fun _ _ => .pure ?_
  · unfold RefsClipped
    dsimp only
    exact ⟨hclip _, hs.2⟩
  · unfold RefsClipped
    dsimp only
    exact ⟨hclip _, hclip _⟩

theorem readFrameNum_yields (hs : slice.RefsClipped) (sps : AvcSpsSyntax) :
    Yields (slice.readFrameNum sps) RefsClipped := by
  unfold readFrameNum
  refine (Yields.anyStep _).bind fun _ _ => ?_
  refine (Yields.anyReadIf _ (.anyStep _) _).bind fun _ _ => ?_
  refine (Yields.anyReadIf _ (.anyStep _) _).bind fun _ _ => ?_
  exact .pure hs

theorem readOrderCounts_yields (hs : slice.RefsClipped) (pps : AvcPpsSyntax) (sps : AvcSpsSyntax) :
    Yields (slice.readOrderCounts pps sps) RefsClipped := by
  have hread : ∀ {α : Type} (c : Prop) [Decidable c] (r : RbspParser → α × RbspParser) (a : α),
      Yields (readIf c (step r) a) fun _ => True :=
    fun c _ r a => .anyReadIf c (.anyStep r) a
  unfold readOrderCounts
  refine (hread _ _ _).bind fun _ _ => (hread _ _ _).bind fun _ _ => ?_
  refine (hread _ _ _).bind fun _ _ => (hread _ _ _).bind fun _ _ => ?_
  refine (hread _ _ _).bind fun _ _ => (hread _ _ _).bind fun _ _ => ?_
  exact (hread _ _ _).bind fun _ _ => .pure hs

end AvcSliceSyntax

namespace AvcSliceContext

variable {c : AvcSliceContext} {p : RbspParser}

theorem readFields_yields (hs : c.slice.RefsClipped) : Yields c.readFields GoesOnClipped := by
  unfold readFields
  refine (Yields.anyStep _).bind fun _ _ => .ite (fun _ => .pure trivial) fun _ => ?_
  refine (AvcSliceSyntax.readFrameNum_yields hs _).bind fun _ hs => ?_
  refine .ite (fun _ => .pure trivial) fun _ => ?_
  refine (AvcSliceSyntax.readOrderCounts_yields hs _ _).bind fun _ hs => ?_
  refine (AvcSliceSyntax.readNumRefIdx_yields hs _).bind fun _ hs => ?_
  exact (Yields.anyStep _).bind fun _ _ => .ite (fun _ => .pure trivial) fun _ => .pure hs

theorem readLists_ends {q : RbspParser} (hs : c.slice.RefsClipped)
    (h : skipLists c.slice.sliceType p = some q) : Ends c.readLists p fun r _ => GoesOnClipped r := by
  unfold readLists
  rw [ends_bind]
  refine (AvcSliceSyntax.refPicListReordering_ends h).imp ?_
  rintro ⟨ok, slice⟩ t ⟨-, -, hclip⟩
  simp only [ends_ite, ends_pure]
  exact ⟨fun _ => trivial, fun _ => hclip hs⟩

theorem skipLists_of_returns (h : Returns c.readLists p) :
    (skipLists c.slice.sliceType p).isSome = true := by
  unfold Returns readLists at h
  rw [ends_bind] at h
  exact AvcSliceSyntax.skipLists_of_returns h.returns

theorem readWeights_yields (hs : c.slice.RefsClipped) : Yields c.readWeights fun _ => True := by
  unfold readWeights
  refine .ite (fun _ => .pure trivial) fun _ => ?_
  refine (Yields.anyStep _).bind fun _ _ => .ite (fun _ => .pure trivial) fun _ => ?_
  exact (AvcSliceSyntax.predWeightTable_yields hs _).bind fun _ _ => .pure trivial

theorem readEnd_yields : Yields c.readEnd fun _ => True := by
  unfold readEnd AvcSliceSyntax.readEnd
  refine Yields.bind (P := fun _ => True) ?_ fun _ _ => .ite (fun _ => .pure trivial) fun _ => .pure trivial
  refine (Yields.anyReadIf _ (.anyStep _) _).bind fun _ _ => (Yields.anyStep _).bind fun _ _ => ?_
  refine .ite (fun _ => .pure trivial) fun _ => (Yields.anyStep _).bind fun _ _ => ?_
  refine .ite (fun _ => .pure trivial) fun _ => (Yields.anyStep _).bind fun _ _ => ?_
  exact (Yields.anyStep _).bind fun _ _ => .pure trivial

/-- The memory-management operations in front of the parser fit into their arrays. -/
def MarkingFits (c : AvcSliceContext) (p : RbspParser) : Prop :=
  c.slice.nalRefIdc ≠ 0 → p.moreRbspData.1 = true → c.slice.nalUnitType ≠ avcNutVclIdr →
    (p.moreRbspData.2.u 1).1 ≠ 0 →
      (skipMarking mmcoSize (p.moreRbspData.2.u 1).2).isSome = true

theorem readMarking_returns {fuel : ℕ} (hf : mmcoSize ≤ fuel) (h : c.MarkingFits p) :
    Returns (c.readMarking fuel) p := by
  unfold Returns readMarking AvcSliceSyntax.decRefPicMarking
  simp only [Parse.u, Parse.moreRbspData, ends_bind, ends_ite, ends_step, ends_pure, ends_readIf]
  refine ⟨fun _ => trivial, fun href => ⟨fun _ => trivial, fun hmore => ⟨fun _ => trivial, fun hidr =>
    ⟨fun hflag => ?_, fun _ => trivial⟩⟩⟩⟩
  exact markingLoop_ends (by decide) (by decide) hf (by decide) (by decide) (by decide) (by decide)
    (h href (by simpa using hmore) hidr hflag)

theorem markingFits_of_returns {fuel : ℕ} (h : Returns (c.readMarking fuel) p) : c.MarkingFits p := by
  unfold Returns readMarking AvcSliceSyntax.decRefPicMarking at h
  simp only [Parse.u, Parse.moreRbspData, ends_bind, ends_ite, ends_step, ends_pure, ends_readIf] at h
  intro href hmore hidr hflag
  exact skipMarking_of_returns (by decide) le_rfl
    ((((h.2 href).2 (by simp [hmore])).2 hidr).1 hflag).returns

end AvcSliceContext

/-! ## The function -/

/-- The slice header in front of the parser fits into the arrays: its picture
parameter set is one of the table or beyond 256, and where the header gets to
them, the commands of each list and the memory-management operations are not
more than the entries of their arrays. -/
structure FitsArrays (slice : AvcSliceSyntax) (conceal : AvcConceal) (pPPSTable : AvcPpsTable)
    (p : RbspParser) : Prop where
  pps_nonneg : 0 ≤ ppsIdAt p
  pps_ne : ppsIdAt p ≠ 256
  lists : ∀ c q, slice.toLists conceal pPPSTable p = .ok (.inr c, q) →
    (skipLists c.slice.sliceType q).isSome = true
  marking : ∀ c q, slice.toMarking conceal pPPSTable p = .ok (.inr c, q) → c.MarkingFits q

namespace AvcSliceSyntax

variable {slice : AvcSliceSyntax} {conceal : AvcConceal} {pPPSTable : AvcPpsTable} {p : RbspParser}

theorem toLists_ends (hpps : conceal.bHasPPS = true) (hs : slice.RefsClipped)
    (h0 : 0 ≤ ppsIdAt p) (hne : ppsIdAt p ≠ 256) :
    Ends (slice.toLists conceal pPPSTable) p fun r _ => GoesOnClipped r := by
  refine ends_next.mpr ((selectParameterSets_ends hpps hs h0 hne).imp ?_)
  rintro (r | c) t hr
  · trivial
  · exact readFields_yields hr t

theorem toMarking_ends (hpps : conceal.bHasPPS = true) (hs : slice.RefsClipped)
    (h : FitsArrays slice conceal pPPSTable p) :
    Returns (slice.toMarking conceal pPPSTable) p := by
  have hlists : Ends (slice.toLists conceal pPPSTable) p fun r _ => GoesOnClipped r :=
    toLists_ends hpps hs h.pps_nonneg h.pps_ne
  obtain ⟨r, t, hrun, hr⟩ := hlists
  refine ends_next.mpr (ends_next.mpr ⟨r, t, hrun, ?_⟩)
  cases r with
  | inl r => trivial
  | inr c =>
    obtain ⟨q, hq⟩ := Option.isSome_iff_exists.mp (h.lists c t hrun)
    refine (readLists_ends hr hq).imp ?_
    rintro (r | c) t hr
    · trivial
    · exact (readWeights_yields hr).returns t

theorem fitsArrays_of_returns {fuel : ℕ}
    (h : Returns (next (slice.toMarking conceal pPPSTable) fun c => c.readMarking fuel) p) :
    FitsArrays slice conceal pPPSTable p := by
  have hmarking := ends_next.mp h
  have hlists := ends_next.mp (ends_next.mp hmarking.returns).returns
  have hselect := ends_next.mp (ends_next.mp (ends_next.mp hmarking.returns).returns).returns
  obtain ⟨h0, hne⟩ := ppsIdAt_of_returns hselect.returns
  refine ⟨h0, hne, fun c q hc => ?_, fun c q hc => ?_⟩
  · exact AvcSliceContext.skipLists_of_returns ((ends_of_eq hc).mp hlists).returns
  · exact AvcSliceContext.markingFits_of_returns ((ends_of_eq hc).mp hmarking).returns

/-- The function ends, and with every access inside its array, if and only if the
header fits. -/
theorem parseSliceHeader_returns_iff {c : CircBuffer} {body : List UInt8}
    (hc : c.Holds (0 :: 0 :: 1 :: body)) (scratch : ℕ → UInt8) (slice : AvcSliceSyntax)
    (conceal : AvcConceal) (pPPSTable : AvcPpsTable) :
    (∃ fuel, Returns (slice.parseSliceHeader fuel conceal pPPSTable) (.init c scratch true)) ↔
      (conceal.bHasPPS = true → FitsArrays slice.setDefaultValues conceal pPPSTable
        (RbspParser.init c scratch true).behindStartCode) := by
  unfold Returns parseSliceHeader
  simp only [ends_ite, ends_pure, ends_bind]
  constructor
  · rintro ⟨fuel, -, hrun⟩ hpps
    obtain ⟨a, t, hskip, hrest⟩ := hrun (by simp [hpps])
    rw [skipAllZeros_eq hc hskip] at hrest
    exact fitsArrays_of_returns hrest.returns
  · intro h
    refine ⟨mmcoSize + 3, fun _ => trivial, fun hpps => ?_⟩
    have hfits := h (by simpa using hpps)
    rw [ends_of_eq (skipAllZeros_startCode hc scratch mmcoSize)]
    obtain ⟨r, t, hrun, -⟩ := toMarking_ends (by simpa using hpps)
      (setDefaultValues_refsClipped slice) hfits
    refine ends_next.mpr ⟨r, t, hrun, ?_⟩
    cases r with
    | inl r => exact (ends_pure r).mpr trivial
    | inr c =>
      refine (readMarking_returns (Nat.le_add_right _ 3) (hfits.marking c t hrun)).imp ?_
      rintro (r | c) t -
      · exact (ends_pure r).mpr trivial
      · exact readEnd_yields t

/-- A slice that reorders its list and marks a picture as unused. -/
theorem parseSliceHeader_returns_marking :
    ∃ fuel, Returns (cleared.parseSliceHeader fuel .firstSlice (.replicate _ .plain))
      (.init ⟨memOf [0, 0, 1, 0x41, 0xe0, 0x0e, 0x4a, 0xf0], 8, 0, 8⟩ (fun _ => 0) true) := by
  have hc : CircBuffer.Holds ⟨memOf [0, 0, 1, 0x41, 0xe0, 0x0e, 0x4a, 0xf0], 8, 0, 8⟩
      [0, 0, 1, 0x41, 0xe0, 0x0e, 0x4a, 0xf0] := ⟨rfl, by decide⟩
  apply (parseSliceHeader_returns_iff hc (fun _ => 0) cleared .firstSlice (.replicate _ .plain)).mpr
  intro _
  refine ⟨by decide +kernel, by decide +kernel, fun c q h => ?_, fun c q h => ?_⟩
  · have hrun : (match cleared.setDefaultValues.toLists .firstSlice (.replicate _ .plain)
        (RbspParser.init ⟨memOf [0, 0, 1, 0x41, 0xe0, 0x0e, 0x4a, 0xf0], 8, 0, 8⟩ (fun _ => 0)
          true).behindStartCode with
      | .ok (.inr c, q) => (skipLists c.slice.sliceType q).isSome
      | _ => true) = true := by decide +kernel
    rw [h] at hrun
    exact hrun
  · have hrun : (match cleared.setDefaultValues.toMarking .firstSlice (.replicate _ .plain)
        (RbspParser.init ⟨memOf [0, 0, 1, 0x41, 0xe0, 0x0e, 0x4a, 0xf0], 8, 0, 8⟩ (fun _ => 0)
          true).behindStartCode with
      | .ok (.inr _, q) => (skipMarking mmcoSize (q.moreRbspData.2.u 1).2).isSome
      | _ => true) = true := by decide +kernel
    rw [h] at hrun
    exact fun _ _ _ _ => hrun

/-- The parameter set 256 is one behind the end of the table. -/
theorem not_parseSliceHeader_returns_pps256 :
    ¬∃ fuel, Returns (cleared.parseSliceHeader fuel .firstSlice (.replicate _ .plain))
      (.init ⟨memOf [0, 0, 1, 0x41, 0xc0, 0x20, 0x30], 7, 0, 7⟩ (fun _ => 0) true) := by
  have hc : CircBuffer.Holds ⟨memOf [0, 0, 1, 0x41, 0xc0, 0x20, 0x30], 7, 0, 7⟩
      [0, 0, 1, 0x41, 0xc0, 0x20, 0x30] := ⟨rfl, by decide⟩
  rintro ⟨fuel, h⟩
  unfold Returns parseSliceHeader at h
  simp only [ends_ite, ends_bind] at h
  obtain ⟨a, t, hskip, hrest⟩ := h.2 (by decide)
  rw [skipAllZeros_eq hc hskip] at hrest
  exact (fitsArrays_of_returns hrest.returns).pps_ne (by decide +kernel)

end AvcSliceSyntax

end VcuCodec
