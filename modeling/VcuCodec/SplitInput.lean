import VcuCodec.StartCodeTable
import VcuCodec.RingQueues

/-!
# The input splitter

`SplitInput` of `exe_decoder/InputLoader.cpp` reads the file into a circular buffer and
returns one access unit or slice after the other.  A search in the buffer skips a fixed
number of bytes, the size of a delimiter, and gives it back afterwards.
-/

namespace VcuCodec.InputLoader

/-- `CircBuffer`, with `tBuf.pBuf` and `tBuf.iSize`. -/
structure CircBuffer where
  pBuf : ℕ → UInt8
  iSize : ℕ
  iOffset : ℕ
  iAvailSize : ℤ

structure NalInfo where
  numBytes : ℕ
  endOfFrame : Bool

/-! ## Searching start codes -/

/-- Where `sFindNextStartCode` stops to read. -/
structure CodeScan where
  found : Bool
  uCur : ℕ
  iNumZeros : ℕ

def nalHeaderBytes : Codec → ℕ
  | .avc => 1
  | .hevc => 2

/-- The type of a NAL unit in the first byte of its header. -/
def nalType : Codec → UInt8 → ℕ
  | .avc, byte => byte.toNat % 32
  | .hevc, byte => byte.toNat / 2 % 64

namespace CircBuffer

def byteAt (b : CircBuffer) (pos : ℕ) : UInt8 := b.pBuf (pos % b.iSize)

def uEnd (b : CircBuffer) : ℕ := (b.iOffset + b.iAvailSize).toNat

/-- The loop of `sFindNextStartCode` over the bytes that are left. -/
def scan (b : CircBuffer) : (left uCur iNumZeros : ℕ) → CodeScan
  | 0, uCur, iNumZeros => ⟨false, uCur, iNumZeros⟩
  | left + 1, uCur, iNumZeros =>
    let uRead := b.byteAt uCur
    if uRead = 1 ∧ 2 ≤ iNumZeros then ⟨true, uCur + 1, iNumZeros⟩
    else scan b left (uCur + 1) (if uRead = 0 then iNumZeros + 1 else 0)

/-- Whether there is a start code with a NAL header behind `uCurOffset`, and the new
`uCurOffset`. -/
def sFindNextStartCode (b : CircBuffer) (uCurOffset : ℕ) : Bool × ℕ :=
  let r := b.scan (b.uEnd - uCurOffset) uCurOffset 0
  if !r.found then (false, r.uCur - min r.iNumZeros 2)
  else if b.uEnd ≤ r.uCur + 1 then (false, r.uCur - min r.iNumZeros 2 - 1)
  else (true, r.uCur)

/-- `ReadNut` without the step over the header. -/
def readNut (b : CircBuffer) (eCodec : Codec) (uCurOffset : ℕ) : ℕ :=
  nalType eCodec (b.byteAt uCurOffset)

/-- The loop of `SearchStartCodes`; every round goes over a start code. -/
def searchFrom (b : CircBuffer) (eCodec : Codec) (bSliceCut : Bool) :
    (rounds iOffset : ℕ) → (bCurNonVcl endOfFrame : Bool) → ℕ × Bool
  | 0, iOffset, _, endOfFrame => (iOffset, endOfFrame)
  | rounds + 1, iOffset, bCurNonVcl, endOfFrame =>
    let r := b.sFindNextStartCode iOffset
    if !r.1 then (r.2, endOfFrame)
    else
      let nut := b.readNut eCodec r.2
      let iOffset := r.2 + nalHeaderBytes eCodec
      if isAud eCodec nut then (iOffset, true)
      else
        let endOfFrame := endOfFrame || (bSliceCut && isFd eCodec nut)
        if bSliceCut && isVcl eCodec nut then
          if !bCurNonVcl then (iOffset, endOfFrame)
          else searchFrom b eCodec bSliceCut rounds iOffset false endOfFrame
        else searchFrom b eCodec bSliceCut rounds iOffset true endOfFrame

def searchStartCodes (b : CircBuffer) (eCodec : Codec) (bSliceCut : Bool) : NalInfo :=
  let r := b.searchFrom eCodec bSliceCut b.iAvailSize.toNat b.iOffset false false
  ⟨r.1 - b.iOffset, r.2⟩

/-- The copy of `numBytes` bytes to the stream buffer, in two parts if it wraps. -/
def copyOut (b : CircBuffer) (numBytes : ℕ) : List UInt8 :=
  if b.iSize < b.iOffset + numBytes then
    let firstPart := b.iSize - b.iOffset
    RingQueues.slice b.pBuf b.iOffset firstPart ++ RingQueues.slice b.pBuf 0 (numBytes - firstPart)
  else RingQueues.slice b.pBuf b.iOffset numBytes

end CircBuffer

/-! ## Reading the stream -/

/-- `AVC_AUD` and `HEVC_AUD` -/
def audBytes : Codec → List UInt8
  | .avc => [0, 0, 1, 0x09, 0x80]
  | .hevc => [0, 0, 1, 0x46, 0x00, 0x80]

/-- The members of `SplitInput`. -/
structure SplitInput where
  m_CircBuf : CircBuffer
  m_eCodec : Codec
  m_bSliceCut : Bool
  m_bEOF : Bool

/-- What a call of `ReadStream` gives back and what it leaves: the chunk in the stream
buffer, whether it has the section `AL_SECTION_END_FRAME_FLAG`, the rest of the file, and
where the call wrote to the circular buffer, as start and length. -/
structure ReadCall where
  input : SplitInput
  rest : List UInt8
  chunk : List UInt8
  endFrame : Bool
  writes : List (ℕ × ℕ)

namespace SplitInput

/-- A `SplitInput` for stream buffers of `iSize` bytes. -/
def create (iSize : ℕ) (eCodec : Codec) (bSliceCut : Bool) : SplitInput :=
  { m_CircBuf := { pBuf := fun _ => 0, iSize := iSize * 2, iOffset := 0, iAvailSize := 0 }
    m_eCodec := eCodec, m_bSliceCut := bSliceCut, m_bEOF := false }

def iNalAudSize (s : SplitInput) : ℕ := (audBytes s.m_eCodec).length

/-- Where the circular buffer is filled. -/
def start (s : SplitInput) : ℕ :=
  ((s.m_CircBuf.iOffset + s.m_CircBuf.iAvailSize) % s.m_CircBuf.iSize).toNat

/-- How many bytes are read from the file. -/
def readable (s : SplitInput) : ℕ :=
  (min (s.m_CircBuf.iSize - s.m_CircBuf.iAvailSize) (s.m_CircBuf.iSize - s.start)).toNat

/-- The part of the loop that reads from the file; at its end a delimiter is appended. -/
def refill (s : SplitInput) (file : List UInt8) : SplitInput × List UInt8 × List (ℕ × ℕ) :=
  if s.m_bEOF then (s, file, [])
  else
    let read := file.take s.readable
    let b := s.m_CircBuf
    if read.length = 0 then
      let bytes := audBytes s.m_eCodec
      let b := { b with
        pBuf := RingQueues.blit b.pBuf s.start bytes
        iAvailSize := b.iAvailSize + bytes.length }
      ({ s with m_CircBuf := b, m_bEOF := true }, file, [(s.start, bytes.length)])
    else
      let b := { b with
        pBuf := RingQueues.blit b.pBuf s.start read
        iAvailSize := b.iAvailSize + read.length }
      ({ s with m_CircBuf := b }, file.drop s.readable, [(s.start, read.length)])

/-- The search behind the first `iNalAudSize` bytes. -/
def searchNal (s : SplitInput) : NalInfo :=
  let b := { s.m_CircBuf with
    iOffset := s.m_CircBuf.iOffset + s.iNalAudSize
    iAvailSize := s.m_CircBuf.iAvailSize - s.iNalAudSize }
  b.searchStartCodes s.m_eCodec s.m_bSliceCut

/-- The copy of a chunk behind the loop; `none` is the failed assertion that the stream
buffer is large enough. -/
def deliver (s : SplitInput) (file : List UInt8) (nal : NalInfo) (bufSize : ℕ) (writes : List (ℕ × ℕ)) :
    Option ReadCall :=
  if bufSize < nal.numBytes then none
  else
    let b := { s.m_CircBuf with
      iAvailSize := s.m_CircBuf.iAvailSize - nal.numBytes
      iOffset := (s.m_CircBuf.iOffset + nal.numBytes) % s.m_CircBuf.iSize }
    some
      { input := { s with m_CircBuf := b }
        rest := file
        chunk := s.m_CircBuf.copyOut nal.numBytes
        endFrame := nal.endOfFrame
        writes := writes }

/-- The loop of `ReadStream`; every round but the last reads from the file. -/
def readLoop (bufSize : ℕ) : (rounds : ℕ) → SplitInput → List UInt8 → List (ℕ × ℕ) → Option ReadCall
  | 0, _, _, _ => none
  | rounds + 1, s, file, writes =>
    if s.m_bEOF = true ∧ s.m_CircBuf.iAvailSize = s.iNalAudSize then
      some { input := s, rest := file, chunk := [], endFrame := false, writes := writes }
    else
      let (s, file, wrote) := s.refill file
      let nal := s.searchNal
      if nal.numBytes < s.m_CircBuf.iAvailSize then s.deliver file nal bufSize (writes ++ wrote)
      else if s.m_bEOF then
        s.deliver file { nal with numBytes := s.m_CircBuf.iAvailSize.toNat } bufSize (writes ++ wrote)
      else readLoop bufSize rounds s file (writes ++ wrote)

/-- A call of `ReadStream` with a stream buffer of `bufSize` bytes; it returns the length
of the chunk. -/
def readStream (s : SplitInput) (file : List UInt8) (bufSize : ℕ) : Option ReadCall :=
  readLoop bufSize (file.length + 2) s file []

end SplitInput

end VcuCodec.InputLoader
