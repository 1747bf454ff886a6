import VcuCodec.AvcSliceBounds

/-!
# The reference picture lists of an accepted header

What `AL_AVC_ParseSliceHeader` ensures of the numbers of active references and of
the commands of the lists in a header that it accepts.
-/

namespace VcuCodec

open CheckedRuns Checked Parse

/-- What `AL_AVC_ParseSliceHeader` accepts, as far as the lists go. -/
structure AvcSliceSyntax.ListsFit (slice : AvcSliceSyntax) : Prop where
  clipped : slice.RefsClipped
  fits0 : slice.l0.Fits
  fits1 : slice.l1.Fits
  intra : slice.sliceType = sliceI → slice.l0.refPicListReorderingFlag = 0
  hasSps : slice.pSPS.isSome = true

namespace AvcSliceSyntax

variable {slice : AvcSliceSyntax} {conceal : AvcConceal} {pPPSTable : AvcPpsTable}

/-- The header in front of its reference picture lists. -/
structure Unordered (slice : AvcSliceSyntax) : Prop where
  clipped : slice.RefsClipped
  flag0 : slice.l0.refPicListReorderingFlag = 0
  flag1 : slice.l1.refPicListReorderingFlag = 0

variable {slice' : AvcSliceSyntax}

theorem Unordered.of_eq (h : slice.Unordered)
    (hnum : (slice'.numRefIdxL0ActiveMinus1, slice'.numRefIdxL1ActiveMinus1) =
      (slice.numRefIdxL0ActiveMinus1, slice.numRefIdxL1ActiveMinus1))
    (hlists : (slice'.l0, slice'.l1) = (slice.l0, slice.l1)) : slice'.Unordered := by
  obtain ⟨h0, h1⟩ := Prod.mk.inj hnum
  obtain ⟨hl0, hl1⟩ := Prod.mk.inj hlists
  refine ⟨?_, hl0 ▸ h.flag0, hl1 ▸ h.flag1⟩
  have hclip := h.clipped
  unfold RefsClipped at hclip ⊢
  rwa [h0, h1]

variable {c : AvcSliceContext}

theorem ListsFit.of_eq (h : slice.ListsFit)
    (hnum : (slice'.numRefIdxL0ActiveMinus1, slice'.numRefIdxL1ActiveMinus1) =
      (slice.numRefIdxL0ActiveMinus1, slice.numRefIdxL1ActiveMinus1))
    (hlists : (slice'.l0, slice'.l1) = (slice.l0, slice.l1))
    (hsel : (slice'.sliceType, slice'.pSPS) = (slice.sliceType, slice.pSPS)) : slice'.ListsFit := by
  obtain ⟨h0, h1⟩ := Prod.mk.inj hnum
  obtain ⟨hl0, hl1⟩ := Prod.mk.inj hlists
  obtain ⟨ht, hsps⟩ := Prod.mk.inj hsel
  refine ⟨?_, hl0 ▸ h.fits0, hl1 ▸ h.fits1, fun hI => hl0 ▸ h.intra (ht ▸ hI), hsps ▸ h.hasSps⟩
  have hclip := h.clipped
  unfold RefsClipped at hclip ⊢
  rwa [h0, h1]

end AvcSliceSyntax

end VcuCodec
