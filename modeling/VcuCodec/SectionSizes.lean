import VcuCodec.StreamSections

/-!
# The sizes of the sections

Every NAL unit of a stream buffer is written in whole bytes.  A bit stream that has
not run over has not left its room, and what it has written is the length of a
section.
-/

namespace VcuCodec

namespace BitStreamLite

/-- `n` bytes were written, whether there was room for them or not. -/
structure Advances (s : BitStreamLite) (n : ℕ) (s' : BitStreamLite) : Prop where
  count : s'.iBitCount = s.iBitCount + 8 * n
  max : s'.iMaxBits = s.iMaxBits
  fits : s'.isOverflow = false → s.iBitCount ≤ s.iMaxBits → s'.iBitCount ≤ s.iMaxBits
  overflow : s'.iBitCount ≤ s.iMaxBits → s'.isOverflow = s.isOverflow

variable {s s' s'' : BitStreamLite} {m n : ℕ}

theorem Advances.refl (s : BitStreamLite) : s.Advances 0 s where
  count := rfl
  max := rfl
  fits _ h := h
  overflow _ := rfl

theorem Advances.trans (h : s.Advances m s') (h' : s'.Advances n s'')
    (hkeep : s''.isOverflow = false → s'.isOverflow = false) : s.Advances (m + n) s'' where
  count := by
    rw [h'.count, h.count]
    omega
  max := h'.max.trans h.max
  fits ho hle := by
    have := h'.fits ho (by rw [h.max]; exact h.fits (hkeep ho) hle)
    rwa [h.max] at this
  overflow hle := by
    have hcount := h'.count
    rw [h'.overflow (by rwa [h.max]), h.overflow (by omega)]

end BitStreamLite

/-! ## NAL units -/

/-- The bytes of a NAL unit with its start code, from what `Write` makes of the
temporary buffer. -/
def NalUnit.bytes (eCodec : Codec) (tmpBuffer : ℕ → UInt8) (bufSize : ℕ) (nal : NalUnit) :
    List UInt8 :=
  match writeNalInBuffer tmpBuffer bufSize nal with
  | none => []
  | some (data, sizeInBits) =>
    BitStreamLite.startCode eCodec nal.nut ++
      (nal.header.bytes ++ escape 0 ((List.range ((sizeInBits + 7) / 8)).map data))

variable {eCodec : Codec} {tmpBuffer : ℕ → UInt8}

/-- The bytes that filler data needs at least. -/
def fillerHead (eCodec : Codec) (nals : PictureNals) : ℕ :=
  (BitStreamLite.startCode eCodec nals.fdNut).length + nals.fdHeader.bytes.length

end VcuCodec
