import VcuCodec.RoiMngr
import VcuCodec.TextScans

/-!
# The region-of-interest file

`exe_encoder/QPGenerator.cpp` reads the regions of a frame from a text file, line by line into a
buffer of 256 characters.  Of the buffer the model has what `getline` wrote; `none` is a read
behind that, or a loop that does not come to its end in the rounds it is given.
-/

namespace VcuCodec

namespace RoiFile

open TextScans

/-! ## The file -/

/-- The `ifstream`: what is still to be read, and the flags. -/
structure Stream where
  rest : List Char
  eof : Bool
  fail : Bool

/-- A line in the buffer, over what was in it. -/
def store (sLine line : List Char) : List Char := line ++ '\x00' :: sLine.drop (line.length + 1)

/-- `getline(sLine, 256)`.  A line without end within 255 characters fails, and where the stream
has failed nothing is read and its end is not seen. -/
def Stream.getline (f : Stream) (sLine : List Char) : Stream × List Char :=
  if f.eof || f.fail then ({ f with fail := true }, store sLine [])
  else
    let line := (f.rest.takeWhile (· ≠ '\n')).take 255
    match f.rest.drop line.length with
    | [] => (⟨[], true, line = []⟩, store sLine line)
    | ch :: rest =>
      if ch = '\n' then (⟨rest, false, false⟩, store sLine line)
      else (⟨ch :: rest, false, true⟩, store sLine line)

/-! ## The scanners -/

def isBlank (ch : Char) : Bool := ch ∈ [' ', '\t', '\n', '\x0b', '\x0c', '\x0d']

def isAlnum (ch : Char) : Bool :=
  ('a' ≤ ch && ch ≤ 'z') || ('A' ≤ ch && ch ≤ 'Z') || ('0' ≤ ch && ch ≤ '9')

def isDigit (ch : Char) : Bool := '0' ≤ ch && ch ≤ '9'

/-- The sign of a number, and what follows it. -/
def sign : List Char → Bool × List Char
  | '-' :: s => (true, s)
  | '+' :: s => (false, s)
  | s => (false, s)

def decimal (digits : List Char) : ℤ :=
  digits.foldl (fun n ch => 10 * n + (ch.toNat - '0'.toNat : ℕ)) 0

def signed (neg : Bool) (v : ℤ) : ℤ := if neg then -v else v

/-- `atoi`, the low word of what `strtol` gives. -/
def atoi (s : List Char) : Option ℤ := do
  let (_, s) ← span isBlank s
  let (neg, s) := sign s
  let (digits, _) ← span isDigit s
  return toInt32 (RoiMngr.clip3 (signed neg (decimal digits)) (-2 ^ 63) (2 ^ 63 - 1))

def getMotif (sLine : List Char) (motif : List Char) : Option (Option (List Char)) :=
  find motif motif sLine

def checkFrameId (sLine : List Char) (iFrameID : ℤ) : Option Bool := do
  match ← getMotif sLine "frame".toList with
  | none => return false
  | some s => return (← atoi s) = iFrameID

def getStringOnKeyword (s : List Char) : Option (List Char) := do
  let (_, s) ← span (fun ch => ch ∈ [' ', '\t', '=']) s
  let (word, _) ← span (fun ch => ch ≠ ',' ∧ ch ≠ '\x00') s
  return word

/-- `ss >> i`; of an empty string nothing is extracted, and `i` stays as it is. -/
def extractInt (i : ℤ) (s : List Char) : ℤ :=
  match s.dropWhile isBlank with
  | [] => i
  | s =>
    let (neg, s) := sign s
    RoiMngr.clip3 (signed neg (decimal (s.takeWhile isDigit))) (-2 ^ 31) (2 ^ 31 - 1)

/-- The words of `get_roi_quality`. -/
def qualityWords : List (List Char × ℤ) :=
  [("HIGH_QUALITY".toList, -5), ("MEDIUM_QUALITY".toList, 0), ("LOW_QUALITY".toList, 5),
    ("NO_QUALITY".toList, 31), ("INTRA_QUALITY".toList, 0x40)]

/-- `get_roi_quality`; `i` is what its uninitialised variable holds. -/
def getRoiQuality (i : ℤ) (s : List Char) : Option ℤ := do
  let s ← getStringOnKeyword s
  return (qualityWords.lookup s).getD (extractInt i s)

/-- `get_dual_value`: the two values, and what follows their comma. -/
def getDualValue (sLine : List Char) (separator : Char) : Option (ℤ × ℤ × List Char) := do
  let iValue1 ← atoi sLine
  let s ← pastNext separator sLine
  let iValue2 ← atoi s
  let s ← pastNext ',' s
  return (iValue1, iValue2, s)

/-- A line of `get_new_roi` with a region, as what is added for it. -/
def parseRoi (i : ℤ) (sLine : List Char) : Option RoiMngr.Addition := do
  let (iPosX, iPosY, s) ← getDualValue sLine ':'
  let (iWidth, iHeight, s) ← getDualValue s 'x'
  let eQuality ← getRoiQuality i s
  return ⟨iPosX, iPosY, iWidth, iHeight, eQuality, true⟩

/-! ## Loading -/

end RoiFile

end VcuCodec
