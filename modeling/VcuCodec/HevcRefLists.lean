import VcuCodec.HevcRefSets
import VcuCodec.RefLists

/-!
# The reference picture lists of an HEVC slice

`AL_HEVC_PictMngr_BuildPictureList` of `lib_parsing/Hevc_PictMngr.c`, and what
clause 8.3.4 of H.265 says of its lists.  A picture of the sets that is not in
the buffer is replaced by the first one of the buffer.  The counts of the slice
header are the lengths of the sets, as `InitRefPictSet` leaves them for all
slices of a picture.
-/

namespace VcuCodec

open CheckedRuns Checked LinkedLists

/-! ## What is read of the slice header -/

/-- `AL_HEVC_MAX_REF_IDX` -/
def hevcMaxRefIdx : ℕ := 14

/-- The syntax elements of one of the lists. -/
structure RefListSyntax where
  numRefIdxActiveMinus1 : ℕ
  refPicListModificationFlag : Bool
  listEntry : ℕ → ℕ
  active_le : numRefIdxActiveMinus1 ≤ hevcMaxRefIdx

/-- The place in the temporary list that entry `i` is taken from. -/
def RefListSyntax.index (l : RefListSyntax) (i : ℕ) : ℕ :=
  if l.refPicListModificationFlag then l.listEntry i else i

/-- The fields of `AL_THevcSliceHdr` that the lists are built with, besides the
counts of the reference picture set. -/
structure HevcListSlice where
  sliceType : ℕ
  l0 : RefListSyntax
  l1 : RefListSyntax

variable {σ : Type}

/-- `uNodeList` and the index `uRef` of the next entry. -/
structure NodeList where
  uNodeList : ℕ → Option ℕ
  uRef : ℕ

namespace HevcPictMngr

def numPocTotalCurr (m : HevcPictMngr) : ℕ :=
  (m.sets.stCurrBefore.length + m.sets.stCurrAfter.length + m.sets.ltCurr.length) % 256

def numRpsCurrTempList (m : HevcPictMngr) (l : RefListSyntax) : ℕ :=
  if l.numRefIdxActiveMinus1 + 1 < m.numPocTotalCurr then m.numPocTotalCurr
  else l.numRefIdxActiveMinus1 + 1

end HevcPictMngr

/-! ## The temporary list -/

namespace NodeList

variable {n : ℕ} {c set : List ℕ} {t : NodeList} {s : σ}

/-- The entries in front of `uRef` go through `c` again and again. -/
structure Filled (c : List ℕ) (n : ℕ) (t : NodeList) : Prop where
  le : t.uRef ≤ n
  entry : ∀ k, k < t.uRef → t.uNodeList k = (c)[k % c.length]?

variable {first second third : List ℕ}

end NodeList

/-! ## One list -/

/-- Entry `rIdx` of a temporary list: the pictures `c` again and again, with
`uEndOfList` for one that is missing. -/
def refPicListTemp (c : List ℕ) (rIdx : ℕ) : ℕ := c.getD (rIdx % c.length) uEndOfList

namespace HevcPictMngr

variable {m : HevcPictMngr} {pocs c : List ℕ} {l : RefListSyntax} {s : σ}

/-- The entries in front of `i` are built. -/
structure Built (m : HevcPictMngr) (pocs : List ℕ) (l : RefListSyntax) (c : List ℕ) (i : ℕ)
    (refs : BufferRefs) : Prop where
  picture : ∀ k < i, (refs k).uNodeID ∈ pocs
  entry : ∀ k < i, refPicListTemp c (l.index k) ∈ pocs →
    (refs k).uNodeID = refPicListTemp c (l.index k)
  missing : ∀ k < i, refPicListTemp c (l.index k) ∉ pocs → (refs k).uNodeID = pocs.headD uEndOfList
  buffer : ∀ k < i, (refs k).refBuf = (m.dpb.nodes (refs k).uNodeID).uFrmID
  rest : ∀ k, i ≤ k → k < maxRef → (refs k).uNodeID = uEndOfList

variable {refs : BufferRefs}

theorem Built.next {i : ℕ} (h : Built m pocs l c i refs) {u : ℕ} (hu : u ∈ pocs)
    (hentry : refPicListTemp c (l.index i) ∈ pocs → u = refPicListTemp c (l.index i))
    (hmissing : refPicListTemp c (l.index i) ∉ pocs → u = pocs.headD uEndOfList) :
    Built m pocs l c (i + 1) (Function.update refs i ⟨(m.dpb.nodes u).uFrmID, u⟩) := by
  have hat : ∀ {P : ℕ → BufferRef → Prop}, (∀ k < i, P k (refs k)) →
      P i ⟨(m.dpb.nodes u).uFrmID, u⟩ →
        ∀ k < i + 1, P k (Function.update refs i ⟨(m.dpb.nodes u).uFrmID, u⟩ k) := by
    intro P hlt hi k hk
    rcases Nat.lt_or_eq_of_le (Nat.le_of_lt_succ hk) with hk | rfl
    · rw [Function.update_of_ne (by omega)]
      exact hlt k hk
    · rw [Function.update_self]
      exact hi
  refine ⟨hat (P := fun _ r => r.uNodeID ∈ pocs) h.picture hu,
    hat (P := fun k r => refPicListTemp c (l.index k) ∈ pocs → r.uNodeID = refPicListTemp c (l.index k))
      h.entry hentry,
    hat (P := fun k r => refPicListTemp c (l.index k) ∉ pocs → r.uNodeID = pocs.headD uEndOfList)
      h.missing hmissing,
    hat (P := fun _ r => r.refBuf = (m.dpb.nodes r.uNodeID).uFrmID) h.buffer rfl, fun k hk hlt => ?_⟩
  rw [Function.update_of_ne (by omega)]
  exact h.rest k (by omega) hlt

/-- The room for the temporary list, and its use. -/
structure InRange (m : HevcPictMngr) (l : RefListSyntax) : Prop where
  total : m.sets.stCurrBefore.length + m.sets.stCurrAfter.length + m.sets.ltCurr.length ≤ maxRef
  place : ∀ i ≤ l.numRefIdxActiveMinus1, l.index i < m.numRpsCurrTempList l

variable {first second third : List ℕ}

end HevcPictMngr

/-! ## Two pictures -/

/-- A B slice whose list 0 exchanges two pictures, and whose list 1 has three entries. -/
def HevcListSlice.exchanged : HevcListSlice where
  sliceType := 0
  l0 := ⟨1, true, fun i => 1 - i, by decide⟩
  l1 := ⟨2, false, fun _ => 0, by decide⟩

namespace HevcPictMngr

end HevcPictMngr

end VcuCodec
