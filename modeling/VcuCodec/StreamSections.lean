import VcuCodec.GuardedRuns
import VcuCodec.NalFlush
import Mathlib.Data.List.InsertIdx

/-!
# The sections of an encoded stream buffer

`lib_encode/Sections.c`, with `WriteFillerData` of `lib_encode/IP_Stream.c` and the
section table of `lib_common/BufferStreamMeta.c`.  An assertion that fails ends the
program, and its function returns `none`.
-/

namespace VcuCodec

def AL_ENC_MAX_SEI_SIZE : ℕ := 10 * 1024
def AL_ENC_MAX_CONFIG_HEADER_SIZE : ℕ := 2 * 1024
def AL_ENC_MAX_HEADER_SIZE : ℕ := AL_ENC_MAX_CONFIG_HEADER_SIZE + AL_ENC_MAX_SEI_SIZE

namespace SectionFlags

def NO_FLAG : ℕ := 0
def SEI_PREFIX : ℕ := 0x1
def SYNC : ℕ := 0x2
def END_FRAME : ℕ := 0x4
def CONFIG : ℕ := 0x8
def FILLER : ℕ := 0x10
def APP_FILLER : ℕ := 0x20

end SectionFlags

/-- `AL_TStreamSection`. -/
structure StreamSection where
  uOffset : ℕ
  uLength : ℕ
  eFlags : ℕ
  deriving DecidableEq

/-! ## The section table -/

/-- `AL_TStreamMetaData`: the first `uNumSection` sections. -/
structure StreamMetaData where
  pSections : List StreamSection
  uMaxNumSection : ℕ

namespace StreamMetaData

def addSection (m : StreamMetaData) (s : StreamSection) : Option (ℕ × StreamMetaData) :=
  if m.uMaxNumSection ≤ m.pSections.length then none
  else some (m.pSections.length, { m with pSections := m.pSections ++ [s] })

/-- The loop of `AL_StreamMetaData_GetLastSectionOfFlag` over the first `n` sections. -/
def lastOfFlag (pSections : List StreamSection) (flag : ℕ) : ℕ → Option ℕ
  | 0 => none
  | n + 1 =>
    if ((pSections[n]?.map (·.eFlags)).getD 0) &&& flag ≠ 0 then some n
    else lastOfFlag pSections flag n

/-- `AL_StreamMetaData_GetLastSectionOfFlag`; -1 is `none`. -/
def getLastSectionOfFlag (m : StreamMetaData) (flag : ℕ) : Option ℕ :=
  lastOfFlag m.pSections flag m.pSections.length

def insertSectionAtId (m : StreamMetaData) (targetId : ℕ) (s : StreamSection) :
    Option (ℕ × StreamMetaData) :=
  if m.uMaxNumSection ≤ m.pSections.length then none
  else some (targetId, { m with pSections := m.pSections.insertIdx targetId s })

def addPrefixSei (m : StreamMetaData) (uOffset uLength : ℕ) : Option (ℕ × StreamMetaData) :=
  let seiSectionId := match m.getLastSectionOfFlag SectionFlags.CONFIG with
    | some i => i + 1
    | none => 0
  m.insertSectionAtId seiSectionId ⟨uOffset, uLength, SectionFlags.SEI_PREFIX⟩

def addSeiSection (m : StreamMetaData) (isPrefix : Bool) (uOffset uLength : ℕ) :
    Option (ℕ × StreamMetaData) :=
  if isPrefix then m.addPrefixSei uOffset uLength
  else m.addSection ⟨uOffset, uLength, SectionFlags.NO_FLAG⟩

def getUnusedStreamPart (m : StreamMetaData) : ℕ :=
  m.pSections.foldl (fun maxOffset s => max maxOffset (s.uOffset + s.uLength)) 0

def addFlagsToAllSections (m : StreamMetaData) (flags : ℕ) : StreamMetaData :=
  { m with pSections := m.pSections.map fun s => { s with eFlags := flags ||| s.eFlags } }

def getOffsetAfterLastSection (m : StreamMetaData) : ℕ :=
  match m.pSections.getLast? with
  | some lastSection => lastSection.uOffset + lastSection.uLength
  | none => 0

end StreamMetaData

/-! ## Writing NAL units -/

/-- `AL_TNalUnit`, with its header and `Write` on its parameters. -/
structure NalUnit where
  nut : ℕ
  header : NalHeader
  write : BitStreamLite → BitStreamLite

namespace BitStreamLite

def getBytesOffset (s : BitStreamLite) : ℕ := s.iBitCount / 8

def writeFillerData (s : BitStreamLite) (eCodec : Codec) (uNUT : ℕ) (pHeader : NalHeader)
    (iBytesCount : ℤ) (bDontFill : Bool) : BitStreamLite :=
  let bookmark := s.iBitCount
  let s := (s.writeBytes (startCode eCodec uNUT)).writeBytes pHeader.bytes
  let headerInBytes : ℕ := (s.iBitCount - bookmark) / 8
  let bytesToWrite : ℤ := iBytesCount - headerInBytes
  let spaceRemainingInBytes : ℤ := (s.iMaxBits / 8 : ℕ) - (s.iBitCount / 8 : ℕ)
  let bytesToWrite := min spaceRemainingInBytes bytesToWrite - 1
  let s :=
    if 0 < bytesToWrite then
      let cur := s.iBitCount / 8
      -- a filler of the application gets its first byte only
      let filled := if bDontFill then 1 else bytesToWrite.toNat
      BitStreamLite.skipBits { s with
        pData := fun i => if cur ≤ i ∧ i < cur + filled then 0xFF else s.pData i }
        (8 * bytesToWrite.toNat)
    else s
  s.writeByte 0x80

end BitStreamLite

/-- `writeNalInBuffer`: the buffer and the number of bits. -/
def writeNalInBuffer (buffer : ℕ → UInt8) (bufSize : ℕ) (nal : NalUnit) :
    Option ((ℕ → UInt8) × ℕ) :=
  let bitstream := nal.write (BitStreamLite.init buffer bufSize)
  if bitstream.isOverflow then none else some (bitstream.pData, bitstream.iBitCount)

/-- `WriteNal`: the size, or `none` for -1, and the bit stream. -/
def writeNal (eCodec : Codec) (tmpBuffer : ℕ → UInt8) (bitstream : BitStreamLite)
    (bitstreamSize : ℕ) (nal : NalUnit) : Option ℕ × BitStreamLite :=
  match writeNalInBuffer tmpBuffer bitstreamSize nal with
  | none => (none, bitstream)
  | some (data, sizeInBits) =>
    let start := bitstream.getBytesOffset
    let bitstream := bitstream.flushNAL eCodec nal.nut nal.header data sizeInBits
    (if bitstream.isOverflow then none else some (bitstream.getBytesOffset - start), bitstream)

/-! ## The stream buffer -/

/-- `AL_TBuffer`: its data and the sections of its stream meta data. -/
structure StreamBuffer where
  data : ℕ → UInt8
  size : ℕ
  pMetaData : StreamMetaData

namespace StreamBuffer

/-- The buffer after a bit stream at `uOffset`. -/
def put (b : StreamBuffer) (uOffset : ℕ) (s : BitStreamLite) : StreamBuffer :=
  { b with data := fun i => if uOffset ≤ i then s.pData (i - uOffset) else b.data i }

def addSection (b : StreamBuffer) (s : StreamSection) : Option StreamBuffer :=
  (b.pMetaData.addSection s).map fun r => { b with pMetaData := r.2 }

def generateNal (eCodec : Codec) (tmpBuffer : ℕ → UInt8) (bitstreamSize : ℕ)
    (t : BitStreamLite × StreamBuffer) (nal : NalUnit × ℕ) : Option (BitStreamLite × StreamBuffer) :=
  let start := t.1.getBytesOffset
  let (size, bitstream) := writeNal eCodec tmpBuffer t.1 bitstreamSize nal.1
  -- a size of -1 fails the assertion
  size.bind fun size => (t.2.addSection ⟨start, size, nal.2⟩).map fun b => (bitstream, b)

/-- `GenerateConfigNalUnits`: the NAL units with the flags of their sections. -/
def generateConfigNalUnits (eCodec : Codec) (tmpBuffer : ℕ → UInt8) (nals : List (NalUnit × ℕ))
    (b : StreamBuffer) : Option StreamBuffer :=
  let bitstreamSize := AL_ENC_MAX_CONFIG_HEADER_SIZE
  (nals.foldlM (generateNal eCodec tmpBuffer bitstreamSize)
    (BitStreamLite.init b.data bitstreamSize, b)).map fun t => t.2.put 0 t.1

end StreamBuffer

/-! ## `GenerateSections` -/

inductive FillerCtrlMode
  | disable
  | enc
  | app
  deriving DecidableEq

/-- `AL_TNalsData`, without what the NAL units are made of. -/
structure NalsData where
  shouldWriteAud : Bool
  forceWritePPS : Bool
  seiFlags : ℕ
  fillerCtrlMode : FillerCtrlMode

/-- The NAL units of a picture from `AL_CreateAud` and its siblings, the writer's and
`AL_TNuts`; the writer may have no VPS and no active parameter sets SEI. -/
structure PictureNals where
  aud : NalUnit
  vps : Option NalUnit
  sps : NalUnit
  pps : NalUnit
  seiPrefixAPS : Option NalUnit
  seiPrefix : (uFlags : ℕ) → NalUnit
  seiPrefixUDU : NalUnit
  fdNut : ℕ
  fdHeader : NalHeader

/-- `AL_TEncPicStatus`, with the `iNumParts` parts at `uStreamPartOffset`, each with
its `uOffset` and its `uSize`. -/
structure StreamPicStatus where
  bIsFirstSlice : Bool
  bIsLastSlice : Bool
  bIsIDR : Bool
  isSliceI : Bool
  iRecoveryCnt : ℤ
  iFiller : ℤ
  parts : List (ℕ × ℕ)

def AL_SEI_BP : ℕ := 0x01
def AL_SEI_PT : ℕ := 0x02
def AL_SEI_RP : ℕ := 0x04
def AL_SEI_MDCV : ℕ := 0x08
def AL_SEI_CLL : ℕ := 0x10

/-- `AL_HAS_SEI_PREFIX`. -/
def hasSeiPrefix (seiFlag : ℕ) : Bool := seiFlag &&& 0x0000FFFF ≠ 0

def generateSeiFlags (st : StreamPicStatus) (bWriteSPS : Bool) : ℕ :=
  let uFlags := AL_SEI_PT
  let uFlags :=
    if st.isSliceI then
      let uFlags := uFlags ||| AL_SEI_BP
      if st.bIsIDR then uFlags else uFlags ||| AL_SEI_RP
    else if st.iRecoveryCnt ≠ 0 then uFlags ||| AL_SEI_RP
    else uFlags
  if bWriteSPS then uFlags ||| (AL_SEI_MDCV ||| AL_SEI_CLL) else uFlags

/-- The NAL units in front of the first slice, with the flags of their sections:
`nals` and `nalsFlags`. -/
def firstSliceNals (nals : PictureNals) (d : NalsData) (st : StreamPicStatus) (iLayerID : ℕ)
    (bSubframeLatency : Bool) : List (NalUnit × ℕ) :=
  let bRandomAccessPoint := st.bIsIDR || decide (st.iRecoveryCnt ≠ 0)
  let aud := if d.shouldWriteAud then [nals.aud] else []
  let vps := if bRandomAccessPoint ∧ iLayerID = 0 then nals.vps.toList else []
  let bWriteSPS := bRandomAccessPoint
  let sps := if bWriteSPS then [nals.sps] else []
  let bWritePPS := bRandomAccessPoint || d.forceWritePPS
  let pps := if bWritePPS then [nals.pps] else []
  let uFlags := generateSeiFlags st bWriteSPS &&& d.seiFlags
  let bIsBufferingPeriodOrPictureTiming := uFlags &&& (AL_SEI_BP ||| AL_SEI_PT) ≠ 0
  let aps :=
    if hasSeiPrefix d.seiFlags ∧ bIsBufferingPeriodOrPictureTiming then nals.seiPrefixAPS.toList
    else []
  let sei := if hasSeiPrefix d.seiFlags ∧ uFlags ≠ 0 then [nals.seiPrefix uFlags] else []
  let udu := if bSubframeLatency then [nals.seiPrefixUDU] else []
  (aud ++ vps ++ sps ++ pps).map (fun nal => (nal, SectionFlags.CONFIG)) ++
    (aps ++ sei ++ udu).map fun nal => (nal, SectionFlags.SEI_PREFIX)

namespace StreamBuffer

/-- The sections of the stream parts. -/
def addParts (b : StreamBuffer) (parts : List (ℕ × ℕ)) : Option StreamBuffer :=
  parts.foldlM (fun b part => b.addSection ⟨part.1, part.2, 0⟩) b

def shouldWriteFiller (d : NalsData) (st : StreamPicStatus) (bSubframeLatency : Bool) : Bool :=
  (d.fillerCtrlMode ≠ .disable && st.iFiller ≠ 0) || (bSubframeLatency && st.bIsLastSlice)

/-- The section of the filler data, behind the last section. -/
def addFiller (eCodec : Codec) (nals : PictureNals) (d : NalsData) (iFiller : ℤ) (b : StreamBuffer) :
    Option StreamBuffer :=
  let offset := b.pMetaData.getOffsetAfterLastSection
  let bs := (BitStreamLite.init b.data b.size).skipBits (8 * offset)
  let bDontFill := decide (d.fillerCtrlMode = .app)
  let iBookmark := bs.iBitCount
  let bs := bs.writeFillerData eCodec nals.fdNut nals.fdHeader iFiller bDontFill
  let iWritten := (bs.iBitCount - iBookmark) / 8
  (b.put 0 bs).addSection
    ⟨offset, iWritten, if bDontFill then SectionFlags.APP_FILLER else SectionFlags.FILLER⟩

def generateSections (eCodec : Codec) (nals : PictureNals) (d : NalsData) (tmpBuffer : ℕ → UInt8)
    (st : StreamPicStatus) (iLayerID : ℕ) (bSubframeLatency : Bool) (b : StreamBuffer) :
    Option StreamBuffer :=
  (if st.bIsFirstSlice then
    b.generateConfigNalUnits eCodec tmpBuffer (firstSliceNals nals d st iLayerID bSubframeLatency)
  else some b).bind fun b =>
  (b.addParts st.parts).bind fun b =>
  (if shouldWriteFiller d st bSubframeLatency then b.addFiller eCodec nals d st.iFiller
  else some b).bind fun b =>
  (if st.bIsLastSlice then b.addSection ⟨0, 0, SectionFlags.END_FRAME⟩ else some b).bind fun b =>
  some (if st.bIsIDR then
    { b with pMetaData := b.pMetaData.addFlagsToAllSections SectionFlags.SYNC } else b)

/-! ## `AL_WriteSeiSection` -/

def getUserSeiPrefixOffset (m : StreamMetaData) : ℕ :=
  match m.getLastSectionOfFlag SectionFlags.SEI_PREFIX with
  | none => AL_ENC_MAX_HEADER_SIZE - AL_ENC_MAX_SEI_SIZE
  | some iSEIPrefixSectionID =>
    match m.pSections[iSEIPrefixSectionID]? with
    | some lastSeiPrefixSection => lastSeiPrefixSection.uOffset + lastSeiPrefixSection.uLength
    | none => 0

/-- `uOffset` of `AL_WriteSeiSection`. -/
def userSeiOffset (m : StreamMetaData) (isPrefix : Bool) : ℕ :=
  if isPrefix then getUserSeiPrefixOffset m else m.getUnusedStreamPart

def createExternalSei (eCodec : Codec) (tmpBuffer : ℕ → UInt8) (uOffset : ℕ) (nal : NalUnit)
    (b : StreamBuffer) : Option ℕ × StreamBuffer :=
  let bitstreamSize := min AL_ENC_MAX_SEI_SIZE b.size
  let bitstream := BitStreamLite.init (fun i => b.data (uOffset + i)) bitstreamSize
  let (iTotalSize, bitstream) := writeNal eCodec tmpBuffer bitstream bitstreamSize nal
  (iTotalSize, b.put uOffset bitstream)

/-- `AL_WriteSeiSection`: the id of the section, or `none` for -1. -/
def writeSeiSection (eCodec : Codec) (tmpBuffer : ℕ → UInt8) (isPrefix : Bool) (nal : NalUnit)
    (b : StreamBuffer) : Option ℕ × StreamBuffer :=
  let uOffset := userSeiOffset b.pMetaData isPrefix
  let (iTotalSize, b) := b.createExternalSei eCodec tmpBuffer uOffset nal
  match iTotalSize with
  | none => (none, b)
  | some iTotalSize =>
    match b.pMetaData.addSeiSection isPrefix uOffset iTotalSize with
    | none => (none, b)
    | some (sectionId, m) => (some sectionId, { b with pMetaData := m })

end StreamBuffer

end VcuCodec
