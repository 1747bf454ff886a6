import VcuCodec.SectionPlaces
import VcuCodec.SectionSizes

/-!
# The sections of a stream buffer over whole runs

`GenerateSections` and `AL_WriteSeiSection` in any order on one stream buffer.  The
prefix SEI of the application goes behind the last prefix SEI of the table, but into
the table in front of it, so that the third one meets the second; nothing bounds it
by the first slice, nor a suffix SEI by the end of the buffer.
-/

namespace VcuCodec

open StreamBuffer

/-! ## Runs -/

inductive SectionOp
  | generate (nals : PictureNals) (d : NalsData) (tmpBuffer : ℕ → UInt8) (st : StreamPicStatus)
    (iLayerID : ℕ) (bSubframeLatency : Bool)
  | writeSei (tmpBuffer : ℕ → UInt8) (isPrefix : Bool) (nal : NalUnit)

def SectionOp.step (eCodec : Codec) (b : StreamBuffer) : SectionOp → Option StreamBuffer
  | generate nals d tmpBuffer st iLayerID bSubframeLatency =>
    b.generateSections eCodec nals d tmpBuffer st iLayerID bSubframeLatency
  | writeSei tmpBuffer isPrefix nal => some (b.writeSeiSection eCodec tmpBuffer isPrefix nal).2

/-- A stream buffer after `AL_StreamMetaData_ClearAllSections`. -/
def StreamBuffer.cleared (data : ℕ → UInt8) (size uMaxNumSection : ℕ) : StreamBuffer :=
  { data := data, size := size, pMetaData := ⟨[], uMaxNumSection⟩ }

/-- The sections of the stream parts of a picture. -/
def StreamPicStatus.partSections (st : StreamPicStatus) : List StreamSection :=
  st.parts.map fun part => ⟨part.1, part.2, 0⟩

/-- What `GenerateSections` can be called with: the first slice comes into an empty
table, the hardware has its parts in the buffer and apart from what is there, and
behind the last section, the part that ends last, there is room for filler data. -/
structure GenerateFits (eCodec : Codec) (nals : PictureNals) (d : NalsData) (st : StreamPicStatus)
    (bSubframeLatency : Bool) (b : StreamBuffer) : Prop where
  first : st.bIsFirstSlice = true → b.pMetaData.pSections = [] ∧
    ∀ s ∈ st.partSections, AL_ENC_MAX_CONFIG_HEADER_SIZE ≤ s.uOffset
  inside : ∀ s ∈ st.partSections, s.stop ≤ b.size
  apart : st.partSections.Pairwise StreamSection.Apart
  apartOld : ∀ t ∈ b.pMetaData.pSections, ∀ s ∈ st.partSections, t.Apart s
  filler : shouldWriteFiller d st bSubframeLatency = true →
    (∀ last ∈ (b.pMetaData.pSections ++ st.partSections).getLast?,
      (∀ s ∈ b.pMetaData.pSections ++ st.partSections, s.stop ≤ last.stop) ∧
        last.stop + (fillerHead eCodec nals + 1) ≤ b.size) ∧
    (b.pMetaData.pSections ++ st.partSections = [] →
      AL_ENC_MAX_CONFIG_HEADER_SIZE + (fillerHead eCodec nals + 1) ≤ b.size)

/-- What `AL_WriteSeiSection` can be called with: the NAL unit ends in the buffer; no
prefix SEI ends behind the last one of the table, and the NAL unit ends in front of
the slices. -/
structure SeiFits (eCodec : Codec) (tmpBuffer : ℕ → UInt8) (isPrefix : Bool) (nal : NalUnit)
    (b : StreamBuffer) : Prop where
  inside : userSeiOffset b.pMetaData isPrefix +
    (nal.bytes eCodec tmpBuffer (min AL_ENC_MAX_SEI_SIZE b.size)).length ≤ b.size
  lastPrefix : isPrefix = true → ∀ s ∈ b.pMetaData.pSections, s.place = 1 →
    s.stop ≤ userSeiOffset b.pMetaData isPrefix
  slices : isPrefix = true → ∀ s ∈ b.pMetaData.pSections, s.place = 2 →
    s.uLength = 0 ∨ s.stop ≤ userSeiOffset b.pMetaData isPrefix ∨
      userSeiOffset b.pMetaData isPrefix +
        (nal.bytes eCodec tmpBuffer (min AL_ENC_MAX_SEI_SIZE b.size)).length ≤ s.uOffset

def SectionOp.Fits (eCodec : Codec) (b : StreamBuffer) : SectionOp → Prop
  | generate nals d _ st _ bSubframeLatency => GenerateFits eCodec nals d st bSubframeLatency b
  | writeSei tmpBuffer isPrefix nal => SeiFits eCodec tmpBuffer isPrefix nal b

/-! ## What the steps do to the table -/

namespace StreamBuffer

variable {eCodec : Codec} {tmpBuffer : ℕ → UInt8} {b b' : StreamBuffer}

end StreamBuffer

/-! ## Steps -/

section Steps

variable {eCodec : Codec} {b b' : StreamBuffer}

variable {tmpBuffer : ℕ → UInt8}

end Steps

end VcuCodec
