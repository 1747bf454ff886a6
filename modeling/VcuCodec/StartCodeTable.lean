import VcuCodec.NalFlush
import VcuCodec.DpbModel

/-!
# The start-code table

`lib_decode/DefaultDecoder.c` keeps the NAL units that the start-code detector found in
the circular stream buffer, refills the table and hands the NAL units of one decoding
unit after the other to the decoder.  `none` is a failed assertion or a write beyond the
table.
-/

namespace VcuCodec

/-! ## NAL unit types -/

def isVcl : Codec → ℕ → Bool
  | .avc, eNut => eNut = 5 ∨ eNut = 1
  | .hevc, eNut => eNut ≤ 9 ∨ 16 ≤ eNut ∧ eNut ≤ 21

def isAud : Codec → ℕ → Bool
  | .avc, eNut => eNut = 9
  | .hevc, eNut => eNut = 35

def isEosOrEob : Codec → ℕ → Bool
  | .avc, eNut => eNut = 10 ∨ eNut = 11
  | .hevc, eNut => eNut = 36 ∨ eNut = 37

def isFd : Codec → ℕ → Bool
  | .avc, eNut => eNut = 12
  | .hevc, eNut => eNut = 38

def isPrefixSei : Codec → ℕ → Bool
  | .avc, eNut => eNut = 6
  | .hevc, eNut => eNut = 39

def isIRAP : Codec → ℕ → Bool
  | .avc, eNut => eNut = 5
  | .hevc, eNut => 16 ≤ eNut ∧ eNut ≤ 21

/-- `AVC_NAL_HDR_SIZE` and `HEVC_NAL_HDR_SIZE`, start code and header. -/
def nalHdrSize : Codec → ℕ
  | .avc => 4
  | .hevc => 5

/-- `AL_TNal` -/
structure TableNal where
  uPosition : ℕ
  uNUT : ℕ
  uSize : ℕ
  deriving DecidableEq

/-- The decoder as the table sees it: `uSize` is the size of the stream buffer, and
`bSubframe` the decoding of slices in place of access units. -/
structure ScConfig where
  eCodec : Codec
  bSubframe : Bool
  iStackSize : ℕ
  uSize : ℕ

/-! ## Reading the stream buffer -/

namespace ScConfig

variable (c : ScConfig) (pBuf : ℕ → ℕ)

def isStartCode (uPos : ℕ) : Bool :=
  pBuf (uPos % c.uSize) = 0 ∧ pBuf ((uPos + 1) % c.uSize) = 0 ∧ pBuf ((uPos + 2) % c.uSize) = 1

/-- `isFirstSlice` behind `skipNalHeader`. -/
def isFirstSlice (uPos : ℕ) : Bool := 128 ≤ pBuf ((uPos + nalHdrSize c.eCodec) % c.uSize)

/-- `SEI_PREFIX_USER_DATA_UNREGISTERED_UUID` -/
def seiUuid : List ℕ :=
  [0xb1, 0xe1, 0x67, 0xa4, 0xd9, 0xca, 0x11, 0xe7, 0xb1, 0x9b, 0x00, 0x50, 0xc2, 0x49, 0x00, 0x48]

/-- Where the UUID of a user-data SEI starts. -/
def seiStart : Codec → ℕ
  | .avc => 6
  | .hevc => 7

/-- The size of the user-data SEI. -/
def seiSize : Codec → ℕ
  | .avc => 25
  | .hevc => 26

def checkSeiUUID (pNal : TableNal) : Bool :=
  pNal.uSize = seiSize c.eCodec ∧ seiUuid =
    (List.range 16).map fun i => pBuf ((pNal.uPosition + seiStart c.eCodec + i) % c.uSize)

def getNumSliceInSei (pNal : TableNal) : ℕ :=
  pBuf ((pNal.uPosition + seiStart c.eCodec + 16) % c.uSize)

def deltaPosition (uFirstPos uSecondPos : ℕ) : ℕ :=
  if uFirstPos < uSecondPos then uSecondPos - uFirstPos else c.uSize + uSecondPos - uFirstPos

end ScConfig

/-! ## Searching a decoding unit -/

/-- The variables of `SearchNextDecodingUnit`. -/
structure UnitSearch where
  bVCLNalSeen : Bool
  iNalFound : ℤ
  iLastVclNal : ℤ
  bNewCVSStarts : Bool
  iNumSlicesRemaining : ℤ
  deriving DecidableEq

namespace ScConfig

variable (c : ScConfig) (pBuf : ℕ → ℕ)

/-- One NAL of the search: the index of the last NAL of the unit, if it ends here. -/
def searchNal (iNal : ℕ) (pNal : TableNal) (t : UnitSearch) : Option (Option ℤ × UnitSearch) :=
  let t := if 0 < iNal then { t with iNalFound := t.iNalFound + 1 } else t
  if isVcl c.eCodec pNal.uNUT then
    if nalHdrSize c.eCodec < pNal.uSize then
      if !c.isStartCode pBuf pNal.uPosition then none
      else
        let bIsFirstSlice := c.isFirstSlice pBuf pNal.uPosition
        if t.bVCLNalSeen && bIsFirstSlice then some (some (t.iNalFound - 1), t)
        else if t.bVCLNalSeen && c.bSubframe then
          some (some (t.iNalFound - 1), { t with
            iNumSlicesRemaining := t.iNumSlicesRemaining - 1
            iLastVclNal := -1 })
        else
          some (none, { t with
            bNewCVSStarts := t.bNewCVSStarts || (bIsFirstSlice && isIRAP c.eCodec pNal.uNUT)
            bVCLNalSeen := true
            iLastVclNal := iNal })
    else some (none, { t with bVCLNalSeen := true, iLastVclNal := iNal })
  else if (isAud c.eCodec pNal.uNUT || isEosOrEob c.eCodec pNal.uNUT) && t.bVCLNalSeen then
    some (some (t.iNalFound - 1), t)
  else
    let sei := isPrefixSei c.eCodec pNal.uNUT && c.checkSeiUUID pBuf pNal
    -- the number of slices that the SEI announces is asserted to be above 0
    if sei && c.getNumSliceInSei pBuf pNal = 0 then none
    else
      let t := if sei then { t with iNumSlicesRemaining := c.getNumSliceInSei pBuf pNal } else t
      if isFd c.eCodec pNal.uNUT && c.bSubframe && t.iNumSlicesRemaining = 1 && t.bVCLNalSeen then
        some (some t.iNalFound, { t with iNumSlicesRemaining := 0 })
      else some (none, t)

def searchFrom : List TableNal → (iNal : ℕ) → UnitSearch → Option (Option ℤ × UnitSearch)
  | [], _, t => some (none, t)
  | pNal :: nals, iNal, t => do
    let (found, t) ← c.searchNal pBuf iNal pNal t
    match found with
    | some iLast => some (some iLast, t)
    | none => searchFrom nals (iNal + 1) t

def searchNextDecodingUnit (table : List TableNal) (iNumSlicesRemaining : ℤ) :
    Option (Option ℤ × UnitSearch) :=
  let t : UnitSearch := ⟨false, 0, -1, false, iNumSlicesRemaining⟩
  if table.length ≤ 1 then some (none, t) else c.searchFrom pBuf table 0 t

/-! ## Refilling the table -/

/-- `canStoreMoreStartCodes`: the sizes of `AL_TNal` and of the output of the detector. -/
def canStoreMoreStartCodes (table : List TableNal) : Bool :=
  (table.length + 1) * 12 ≤ c.iStackSize * 4096 * 12 - 128

/-- The NAL units of an answer of the detector; the last one goes up to `iOffset`. -/
def newNals (iOffset : ℕ) : List (ℕ × ℕ) → List TableNal
  | [] => []
  | [src] => [⟨src.1, src.2, c.deltaPosition src.1 iOffset⟩]
  | src :: next :: rest =>
    ⟨src.1, src.2, c.deltaPosition src.1 next.1⟩ :: newNals iOffset (next :: rest)

/-- The last NAL of the table ends at the first of the answer. -/
def closeLast (uPosition : ℕ) : List TableNal → List TableNal
  | [] => []
  | [last] => [{ last with uSize := c.deltaPosition last.uPosition uPosition }]
  | nal :: next :: rest => nal :: closeLast uPosition (next :: rest)

/-- `RefillStartCodes` with the answer of the detector. -/
def refill (iOffset : ℕ) (table : List TableNal) (src : List (ℕ × ℕ)) : Option (List TableNal) :=
  let table := match src with
    | [] => table
    | first :: _ => c.closeLast first.1 table
  if table.length + src.length ≤ c.iStackSize * 4096 ∧ table.length + src.length < 2 ^ 16 then
    some (table ++ c.newNals iOffset src)
  else none

/-- The NAL units that `DecodeOneUnit` goes through, with the sizes they are decoded with. -/
def unitNals (iOffset : ℕ) : (iNalCount : ℕ) → List TableNal → List TableNal
  | 0, _ => []
  | _ + 1, [] => []
  | _ + 1, [nal] => [{ nal with uSize := c.deltaPosition nal.uPosition iOffset }]
  | n + 1, nal :: next :: rest =>
    { nal with uSize := c.deltaPosition nal.uPosition next.uPosition } :: unitNals iOffset n (next :: rest)

end ScConfig

/-! ## The decoder with the detector and the feeder -/

/-- A decoding unit as `DecodeOneUnit` gets it. -/
structure DecodingUnit where
  nals : List TableNal
  iLastVclNal : ℤ
  bNewCVSStarts : Bool
  deriving DecidableEq

/-- The stream with what happened to it: bytes up to `written` came into the stream
buffer, those up to `scanned` went through the detector, those up to `released` were
given back. -/
structure ScUse where
  stream : ℕ → ℕ
  written : ℕ
  scanned : ℕ
  released : ℕ
  pBuf : ℕ → ℕ
  table : List TableNal
  iNumSlicesRemaining : ℤ
  handed : List DecodingUnit

inductive ScOp
  /-- Bytes of the stream come into the stream buffer. -/
  | transfer (n : ℕ)
  /-- One turn of `FindNextDecodingUnit`: the unit that is found is decoded, or else the
  detector goes through `n` bytes. -/
  | turn (n : ℕ)
  /-- The feeder gives bytes back. -/
  | release (n : ℕ)

/-- The NAL unit types, behind the start code. -/
def nutAt (eCodec : Codec) (stream : ℕ → ℕ) (p : ℕ) : ℕ :=
  match eCodec with
  | .avc => stream (p + 3) % 32
  | .hevc => stream (p + 3) / 2 % 64

/-- The positions of the start codes of the stream in `[a, b)`. -/
def startsIn (stream : ℕ → ℕ) (a b : ℕ) : List ℕ :=
  (List.range' a (b - a)).filter fun p => stream p = 0 ∧ stream (p + 1) = 0 ∧ stream (p + 2) = 1

namespace ScUse

/-- What the detector answers for the bytes from `scanned` on. -/
def scdAnswer (c : ScConfig) (s : ScUse) (n : ℕ) : List (ℕ × ℕ) :=
  (startsIn s.stream s.scanned (s.scanned + n)).map fun p => (p % c.uSize, nutAt c.eCodec s.stream p)

def step (c : ScConfig) (s : ScUse) : ScOp → Option ScUse
  | .transfer n => some { s with
      written := s.written + n
      pBuf := fun i =>
        let k := (i + c.uSize - s.written % c.uSize) % c.uSize
        if k < n then s.stream (s.written + k) else s.pBuf i }
  | .turn n => do
      let (found, t) ← c.searchNextDecodingUnit s.pBuf s.table s.iNumSlicesRemaining
      let s := { s with iNumSlicesRemaining := t.iNumSlicesRemaining }
      match found with
      | some iLast =>
        let iNalCount := (iLast + 1).toNat
        return { s with
          handed := s.handed ++
            [⟨c.unitNals (s.scanned % c.uSize) iNalCount s.table, t.iLastVclNal, t.bNewCVSStarts⟩]
          table := s.table.drop iNalCount }
      | none =>
        -- a full table is cleared to avoid a stall
        let s := if c.canStoreMoreStartCodes s.table then s else { s with table := [] }
        if s.written - s.scanned < 5 then return s
        else
          let table ← c.refill ((s.scanned + n) % c.uSize) s.table (s.scdAnswer c n)
          return { s with table, scanned := s.scanned + n }
  | .release n => some { s with released := s.released + n }

/-- What the parties keep to: the stream buffer is not overwritten, no byte of a NAL in the
table is given back, and the detector goes through bytes that are there, sees the header
of each start code it reports and reports at most 16. -/
def Allowed (c : ScConfig) (s : ScUse) : ScOp → Prop
  | .transfer n => s.written + n ≤ s.released + c.uSize
  | .turn n => s.scanned + n ≤ s.written ∧ (s.scdAnswer c n).length ≤ 16 ∧
      ∀ p ∈ startsIn s.stream s.scanned (s.scanned + n), p + nalHdrSize c.eCodec ≤ s.written
  | .release n => s.released + n ≤ s.scanned ∧
      s.table.length ≤ (startsIn s.stream (s.released + n) s.scanned).length

/-- The decoder before the first byte of a stream. -/
def start (stream : ℕ → ℕ) : ScUse := ⟨stream, 0, 0, 0, fun _ => 0, [], 0, []⟩

instance (c : ScConfig) (s : ScUse) : ∀ op, Decidable (s.Allowed c op)
  | .transfer _ => inferInstanceAs (Decidable (_ ≤ _))
  | .turn _ => inferInstanceAs (Decidable (_ ∧ _ ∧ _))
  | .release _ => inferInstanceAs (Decidable (_ ∧ _))

end ScUse

end VcuCodec
