import Mathlib.Algebra.Order.Group.Int
import Mathlib.Data.List.Basic
import Mathlib.Tactic.Common

/-!
# The lines of a command file

From `exe_encoder/EncCmdMngr.cpp`: how a line is cut into words and values, and
how the lines of one frame become one command.  A line that belongs to the next
frame is kept for the next read.
-/

namespace VcuCodec.EncCmd

/-- The conversions of `atof`: `int(atof(s))` and `int(atof(s) * 1000)`. -/
structure Atof where
  toInt : List Char → ℤ
  toMilli : List Char → ℤ

/-- `atoi`: blanks, a sign and digits; what follows is not read. -/
def atoi (s : List Char) : ℤ :=
  let digits (l : List Char) : ℤ :=
    (l.takeWhile Char.isDigit).foldl (fun n c => 10 * n + (c.toNat - '0'.toNat : ℕ)) 0
  match s.dropWhile (· ∈ [' ', '\t', '\n', '\x0b', '\x0c', '\x0d']) with
  | '-' :: l => -digits l
  | '+' :: l => digits l
  | l => digits l

/-- What `GetNext` has found: the word and the value behind its `=`. -/
structure Token where
  word : List Char
  sVal : List Char
deriving DecidableEq

def isSeparator (c : Char) : Bool := c ∈ [':', ',', '=', ' ', '\t', '\x0d']

/-- `GetNext` from what `m_zNext` leaves of the line. -/
def GetNext (line : List Char) : Option (Token × List Char) :=
  let beg := line.dropWhile isSeparator
  if beg = [] then none
  else
    let word := beg.takeWhile (!isSeparator ·)
    let rest := beg.dropWhile (!isSeparator ·)
    if rest.head? = some '=' then
      let val := rest.tail.dropWhile isSeparator
      if val = [] then none
      else some (⟨word, val.takeWhile (!isSeparator ·)⟩, val.dropWhile (!isSeparator ·))
    else some (⟨word, []⟩, rest)

theorem length_dropWhile_lt {p : Char → Bool} {l : List Char} (h : ∃ c ∈ l.head?, p c = true) :
    (l.dropWhile p).length < l.length := by
  cases l with
  | nil => simp at h
  | cons c l =>
    obtain ⟨d, hd, hp⟩ := h
    obtain rfl : c = d := by simpa using hd
    rw [List.dropWhile_cons_of_pos hp, List.length_cons]
    exact Nat.lt_succ_of_le (List.dropWhile_suffix p).length_le

theorem GetNext_length {line rest : List Char} {t : Token} (h : GetNext line = some (t, rest)) :
    rest.length < line.length := by
  have hle := (List.dropWhile_suffix isSeparator (l := line)).length_le
  unfold GetNext at h
  simp only at h
  split at h
  · cases h
  · next hbeg =>
    have hword : ((line.dropWhile isSeparator).dropWhile (!isSeparator ·)).length <
        (line.dropWhile isSeparator).length := by
      apply length_dropWhile_lt
      cases hb : line.dropWhile isSeparator with
      | nil => exact absurd hb hbeg
      | cons c l =>
        have hc := List.head_dropWhile_not isSeparator hbeg
        simp only [hb, List.head_cons] at hc
        exact ⟨c, rfl, by rw [hc]; rfl⟩
    generalize hrest : (line.dropWhile isSeparator).dropWhile (!isSeparator ·) = rest' at h hword
    have htail : (rest'.tail.dropWhile isSeparator).length ≤ rest'.length :=
      ((List.dropWhile_suffix isSeparator).trans (List.tail_suffix rest')).length_le
    split at h
    · split at h
      · cases h
      · obtain ⟨-, rfl⟩ := Prod.mk.inj (Option.some.inj h)
        have := (List.dropWhile_suffix (!isSeparator ·)
          (l := rest'.tail.dropWhile isSeparator)).length_le
        omega
    · obtain ⟨-, rfl⟩ := Prod.mk.inj (Option.some.inj h)
      omega

/-- The words from `line` on, as `while(Tok.GetNext())` sees them. -/
def tokens (line : List Char) : List Token :=
  match _h : GetNext line with
  | none => []
  | some (t, rest) => t :: tokens rest
termination_by line.length
decreasing_by exact GetNext_length _h

/-- `TFrmCmd`: what is to happen at one frame. -/
structure TFrmCmd where
  iFrame : ℤ := 0
  bSceneChange : Bool := false
  bIsLongTerm : Bool := false
  bUseLongTerm : Bool := false
  bKeyFrame : Bool := false
  bChangeGopLength : Bool := false
  iGopLength : ℤ := 0
  bChangeGopNumB : Bool := false
  iGopNumB : ℤ := 0
  bChangeFreqIDR : Bool := false
  iFreqIDR : ℤ := 0
  bChangeBitRate : Bool := false
  iBitRate : ℤ := 0
  bChangeFrameRate : Bool := false
  iFrameRate : ℤ := 0
  iClkRatio : ℤ := 0
  bChangeQP : Bool := false
  iQP : ℤ := 0
  bChangeQPBounds : Bool := false
  iMinQP : ℤ := 0
  iMaxQP : ℤ := 0
  bChangeIPDelta : Bool := false
  iIPDelta : ℤ := 0
  bChangePBDelta : Bool := false
  iPBDelta : ℤ := 0
  bChangeResolution : Bool := false
  iInputIdx : ℤ := 0
  bSetLFBetaOffset : Bool := false
  iLFBetaOffset : ℤ := 0
  bSetLFTcOffset : Bool := false
  iLFTcOffset : ℤ := 0
deriving DecidableEq

/-- `GetValueBounds`: `[min;max]`. -/
def GetValueBounds (N : Atof) (sVal : List Char) : ℤ × ℤ :=
  match sVal.findIdx? (· = '['), sVal.findIdx? (· = ';'), sVal.findIdx? (· = ']') with
  | some 0, some split, some upper =>
    if split ≤ 0 ∨ upper ≤ split then (0, 0)
    else (N.toInt ((sVal.drop 1).take (split - 1)),
      N.toInt ((sVal.drop (split + 1)).take (upper - (split + 1))))
  | _, _, _ => (0, 0)

/-- The setting `Fps`; the increment comes in front of the division. -/
def setFps (N : Atof) (c : TFrmCmd) (sVal : List Char) : Option TFrmCmd :=
  let c := { c with bChangeFrameRate := true, iFrameRate := N.toInt sVal, iClkRatio := 1000 }
  let iFrac := (N.toMilli sVal).tmod 1000
  if iFrac = 0 then some c
  else if c.iFrameRate + 1 = 0 then none
  else some { c with
    iFrameRate := c.iFrameRate + 1
    iClkRatio := c.iClkRatio + (1000 - iFrac).tdiv (c.iFrameRate + 1) }

/-- The words that `ParseCmd` knows. -/
inductive Word
  | SC | LT | UseLT | KF | GopLen | NumB | FreqIDR | BR | Fps | QP | QPBounds | IPDelta | PBDelta
  | Input | LFBetaOffset | LFTcOffset
  deriving DecidableEq

/-- The words in the order of the comparisons. -/
def Word.texts : List (Word × String) :=
  [(.SC, "SC"), (.LT, "LT"), (.UseLT, "UseLT"), (.KF, "KF"), (.GopLen, "GopLen"), (.NumB, "NumB"),
    (.FreqIDR, "FreqIDR"), (.BR, "BR"), (.Fps, "Fps"), (.QP, "QP"), (.QPBounds, "QPBounds"),
    (.IPDelta, "IPDelta"), (.PBDelta, "PBDelta"), (.Input, "Input"),
    (.LFBetaOffset, "LF.BetaOffset"), (.LFTcOffset, "LF.TcOffset")]

def Word.ofChars (s : List Char) : Option Word :=
  (texts.find? fun w => w.2.toList = s).map (·.1)

/-- One word behind the frame number; `none` is a division by zero. -/
def set (N : Atof) (c : TFrmCmd) (t : Token) : Option TFrmCmd :=
  let value := N.toInt t.sVal
  match Word.ofChars t.word with
  | none => some c
  | some .SC => some { c with bSceneChange := true }
  | some .LT => some { c with bIsLongTerm := true }
  | some .UseLT => some { c with bUseLongTerm := true }
  | some .KF => some { c with bKeyFrame := true }
  | some .GopLen => some { c with bChangeGopLength := true, iGopLength := value }
  | some .NumB => some { c with bChangeGopNumB := true, iGopNumB := value }
  | some .FreqIDR => some { c with bChangeFreqIDR := true, iFreqIDR := value }
  | some .BR => some { c with bChangeBitRate := true, iBitRate := value * 1000 }
  | some .Fps => setFps N c t.sVal
  | some .QP => some { c with bChangeQP := true, iQP := value }
  | some .QPBounds =>
    let tBounds := GetValueBounds N t.sVal
    some { c with bChangeQPBounds := true, iMinQP := tBounds.1, iMaxQP := tBounds.2 }
  | some .IPDelta => some { c with bChangeIPDelta := true, iIPDelta := value }
  | some .PBDelta => some { c with bChangePBDelta := true, iPBDelta := value }
  | some .Input => some { c with bChangeResolution := true, iInputIdx := value }
  | some .LFBetaOffset => some { c with bSetLFBetaOffset := true, iLFBetaOffset := value }
  | some .LFTcOffset => some { c with bSetLFTcOffset := true, iLFTcOffset := value }

/-- `ParseCmd`, with what it returns. -/
def ParseCmd (N : Atof) (sLine : List Char) (c : TFrmCmd) (bSameFrame : Bool) :
    Option (TFrmCmd × Bool) :=
  match GetNext sLine with
  | none => some (c, bSameFrame)
  | some (t, rest) =>
    let iFrame := atoi t.word
    if bSameFrame ∧ iFrame ≠ c.iFrame then some (c, false)
    else ((tokens rest).foldlM (set N) { c with iFrame }).map (·, true)

/-- The stream of lines and `m_sBufferedLine`. -/
structure Reader where
  sBufferedLine : List Char
  lines : List (List Char)
deriving DecidableEq

/-- The lines that are yet to come. -/
def Reader.left (r : Reader) : List (List Char) :=
  if r.sBufferedLine = [] then r.lines else r.sBufferedLine :: r.lines

/-- `GetNextLine`; `none` where `getline` fails. -/
def Reader.GetNextLine (r : Reader) : Option (List Char × Reader) :=
  if r.sBufferedLine ≠ [] then some (r.sBufferedLine, ⟨[], r.lines⟩)
  else
    match r.lines with
    | [] => none
    | sLine :: lines => some (sLine, ⟨[], lines⟩)

@[simp] theorem Reader.left_mk_nil (lines : List (List Char)) : Reader.left ⟨[], lines⟩ = lines :=
  if_pos rfl

variable {sLine : List Char}

theorem Reader.left_mk (h : sLine ≠ []) (lines : List (List Char)) :
    Reader.left ⟨sLine, lines⟩ = sLine :: lines :=
  if_neg h

theorem Reader.GetNextLine_nil {r : Reader} (h : r.left = []) : r.GetNextLine = none := by
  unfold left at h
  split at h
  · next hb => rw [GetNextLine, if_neg (not_not.2 hb), h]
  · cases h

variable {lines : List (List Char)}

theorem Reader.GetNextLine_cons {r : Reader}
    (h : r.left = sLine :: lines) : r.GetNextLine = some (sLine, ⟨[], lines⟩) := by
  unfold left at h
  split at h
  · next hb => rw [GetNextLine, if_neg (not_not.2 hb), h]
  · next hb =>
    obtain ⟨rfl, rfl⟩ := List.cons.inj h
    exact if_pos hb

theorem Reader.GetNextLine_some {r r' : Reader}
    (h : r.GetNextLine = some (sLine, r')) : r.left = sLine :: r'.left := by
  cases hl : r.left with
  | nil => rw [GetNextLine_nil hl] at h; cases h
  | cons l ls =>
    rw [GetNextLine_cons hl] at h
    obtain ⟨rfl, rfl⟩ := Prod.mk.inj (Option.some.inj h)
    rw [left_mk_nil]

/-- The loop of `ReadNextCmd`. -/
def Reader.readCmd (N : Atof) (r : Reader) (c : TFrmCmd) (bRet : Bool) :
    Option (Reader × TFrmCmd × Bool) :=
  match _h : r.GetNextLine with
  | none => some (r, c, bRet)
  | some (sLine, r') =>
    if sLine = [] then r'.readCmd N c bRet
    else
      match ParseCmd N sLine c bRet with
      | none => none
      | some (c', true) => r'.readCmd N c' true
      | some (c', false) => some ({ r' with sBufferedLine := sLine }, c', bRet)
termination_by r.left.length
decreasing_by all_goals rw [r.GetNextLine_some _h, List.length_cons]; exact Nat.lt_succ_self _

def Reader.ReadNextCmd (N : Atof) (r : Reader) : Option (Reader × TFrmCmd × Bool) :=
  r.readCmd N {} false

/-! ### What the lines say -/

/-- The frame of a line and its settings; `none` for a line without a word. -/
def parsed (line : List Char) : Option (ℤ × List Token) :=
  (GetNext line).map fun p => (atoi p.1.word, tokens p.2)

/-- The lines of a file that name a frame. -/
def cmdLines (file : List (List Char)) : List (ℤ × List Token) := file.filterMap parsed

/-- Whether a line is for the frame `f`. -/
def isFor (f : ℤ) (l : ℤ × List Token) : Bool := l.1 = f

theorem isFor_iff {f : ℤ} {l : ℤ × List Token} : isFor f l = true ↔ l.1 = f := decide_eq_true_iff

/-- The first line that is not empty has a word. -/
def Ready (file : List (List Char)) : Prop :=
  ∀ line ∈ (file.dropWhile List.isEmpty).head?, (parsed line).isSome
deriving Decidable

variable {line : List Char}

theorem cmdLines_cons_none (h : parsed line = none) : cmdLines (line :: lines) = cmdLines lines :=
  List.filterMap_cons_none h

variable {p : ℤ × List Token}

theorem cmdLines_cons_some
    (h : parsed line = some p) : cmdLines (line :: lines) = p :: cmdLines lines :=
  List.filterMap_cons_some h

theorem ne_nil_of_parsed (h : parsed line = some p) : line ≠ [] := by
  rintro rfl
  cases h

theorem ready_nil : Ready [] := by
  intro line h
  cases h

theorem ready_cons (hne : line ≠ []) (h : (parsed line).isSome) : Ready (line :: lines) := by
  have hhead : ¬line.isEmpty = true := fun he => hne (List.isEmpty_iff.1 he)
  intro l hl
  rw [List.dropWhile_cons_of_neg hhead] at hl
  obtain rfl : line = l := by simpa using hl
  exact h

theorem Ready.head (h : Ready (line :: lines)) (hne : line ≠ []) : (parsed line).isSome := by
  have hhead : ¬line.isEmpty = true := fun he => hne (List.isEmpty_iff.1 he)
  apply h
  rw [List.dropWhile_cons_of_neg hhead]
  rfl

theorem ready_nil_cons : Ready lines → Ready ([] :: lines) := id

theorem ready_of_nil : Ready ([] :: lines) → Ready lines := id

variable {N : Atof}

theorem ParseCmd_of_none (h : parsed line = none) (c : TFrmCmd)
    (bSameFrame : Bool) : ParseCmd N line c bSameFrame = some (c, bSameFrame) := by
  rw [parsed, Option.map_eq_none_iff] at h
  rw [ParseCmd, h]

theorem ParseCmd_of_some {f : ℤ} {s : List Token}
    (h : parsed line = some (f, s)) (c : TFrmCmd) (bSameFrame : Bool) :
    ParseCmd N line c bSameFrame = if bSameFrame ∧ f ≠ c.iFrame then some (c, false)
      else (s.foldlM (set N) { c with iFrame := f }).map (·, true) := by
  obtain ⟨⟨t, rest⟩, hnext, heq⟩ := Option.map_eq_some_iff.1 h
  obtain ⟨rfl, rfl⟩ := Prod.mk.inj heq
  rw [ParseCmd, hnext]

variable {c c' : TFrmCmd}

theorem setFps_iFrame {l : List Char} (h : setFps N c l = some c') : c'.iFrame = c.iFrame := by
  unfold setFps at h
  simp only at h
  split at h
  · obtain rfl := Option.some.inj h
    rfl
  · split at h
    · cases h
    · obtain rfl := Option.some.inj h
      rfl

theorem set_iFrame {t : Token} (h : set N c t = some c') : c'.iFrame = c.iFrame := by
  rw [set] at h
  cases hw : Word.ofChars t.word with
  | none =>
    rw [hw] at h
    obtain rfl := Option.some.inj h
    rfl
  | some w =>
    rw [hw] at h
    cases w with
    | Fps => exact setFps_iFrame h
    | _ => obtain rfl := Option.some.inj h; rfl

theorem foldlM_set_iFrame {s : List Token}
    (h : s.foldlM (set N) c = some c') : c'.iFrame = c.iFrame := by
  induction s generalizing c with
  | nil => obtain rfl := Option.some.inj h; rfl
  | cons t s ih =>
    rw [List.foldlM_cons, Option.bind_eq_bind, Option.bind_eq_some_iff] at h
    obtain ⟨c1, h1, h2⟩ := h
    rw [ih h2, set_iFrame h1]

namespace Reader

variable {N : Atof} {r : Reader} {c : TFrmCmd} {b : Bool} {line : List Char}
  {lines : List (List Char)}

theorem readCmd_nil (h : r.left = []) : r.readCmd N c b = some (r, c, b) := by
  rw [readCmd]
  split
  · rfl
  · next heq => rw [GetNextLine_nil h] at heq; cases heq

theorem readCmd_cons (h : r.left = line :: lines) :
    r.readCmd N c b =
      if line = [] then readCmd N ⟨[], lines⟩ c b
      else
        match ParseCmd N line c b with
        | none => none
        | some (c', true) => readCmd N ⟨[], lines⟩ c' true
        | some (c', false) => some (⟨line, lines⟩, c', b) := by
  rw [readCmd]
  split
  · next heq => rw [GetNextLine_cons h] at heq; cases heq
  · next heq =>
    rw [GetNextLine_cons h] at heq
    obtain ⟨rfl, rfl⟩ := Prod.mk.inj (Option.some.inj heq)
    rfl

theorem readCmd_empty (h : r.left = [] :: lines) : r.readCmd N c b = readCmd N ⟨[], lines⟩ c b := by
  rw [readCmd_cons h, if_pos rfl]

theorem readCmd_blank (h : r.left = line :: lines) (hline : parsed line = none) :
    r.readCmd N c true = readCmd N ⟨[], lines⟩ c true := by
  rw [readCmd_cons h, ParseCmd_of_none hline]
  exact ite_self _

variable {s : List Token}

theorem readCmd_other {f : ℤ} (h : r.left = line :: lines)
    (hline : parsed line = some (f, s)) (hf : f ≠ c.iFrame) :
    r.readCmd N c true = some (⟨line, lines⟩, c, true) := by
  rw [readCmd_cons h, if_neg (ne_nil_of_parsed hline), ParseCmd_of_some hline, if_pos ⟨rfl, hf⟩]

theorem readCmd_line {f : ℤ} (h : r.left = line :: lines)
    (hline : parsed line = some (f, s)) (hf : b = true → f = c.iFrame) : r.readCmd N c b =
      (s.foldlM (set N) { c with iFrame := f }).bind fun c' => readCmd N ⟨[], lines⟩ c' true := by
  rw [readCmd_cons h, if_neg (ne_nil_of_parsed hline), ParseCmd_of_some hline,
    if_neg fun hc => hc.2 (hf hc.1)]
  cases s.foldlM (set N) { c with iFrame := f } <;> rfl

/-- Behind the first line of a frame, the other lines of the frame are read and
the reader stands in front of the next frame, or at the end. -/
theorem readCmd_sameFrame (h : r.left = lines) (c : TFrmCmd) :
    ∃ r' : Reader, Ready r'.left ∧
      cmdLines r'.left = (cmdLines lines).dropWhile (isFor c.iFrame) ∧
      (cmdLines r'.left = [] → r'.left = []) ∧
      r.readCmd N c true = ((((cmdLines lines).takeWhile (isFor c.iFrame)).flatMap
        (·.2)).foldlM (set N) c).map fun c' => (r', c', true) := by
  induction lines generalizing r c with
  | nil =>
    refine ⟨r, ?_, ?_, fun _ => h, readCmd_nil h⟩
    · rw [h]
      exact ready_nil
    · rw [h]
      rfl
  | cons line lines ih =>
    cases hline : parsed line with
    | none =>
      obtain ⟨r', hready, hlines, hend, hread⟩ := ih (r := ⟨[], lines⟩) rfl c
      rw [cmdLines_cons_none hline, readCmd_blank h hline]
      exact ⟨r', hready, hlines, hend, hread⟩
    | some p =>
      obtain ⟨f, s⟩ := p
      rw [cmdLines_cons_some hline]
      by_cases hf : f = c.iFrame
      · have hhead : isFor c.iFrame (f, s) = true := isFor_iff.2 hf
        have hc : { c with iFrame := f } = c := by rw [hf]
        rw [List.takeWhile_cons_of_pos hhead, List.dropWhile_cons_of_pos hhead, List.flatMap_cons,
          List.foldlM_append, readCmd_line h hline fun _ => hf, hc]
        cases hs : s.foldlM (set N) c with
        | none =>
          obtain ⟨r', hready, hlines, hend, -⟩ := ih (r := ⟨[], lines⟩) rfl c
          exact ⟨r', hready, hlines, hend, rfl⟩
        | some c1 =>
          obtain ⟨r', hready, hlines, hend, hread⟩ := ih (r := ⟨[], lines⟩) rfl c1
          rw [foldlM_set_iFrame hs] at hlines hread
          exact ⟨r', hready, hlines, hend, hread⟩
      · have hhead : ¬isFor c.iFrame (f, s) = true := fun hd => hf (isFor_iff.1 hd)
        have hleft : Reader.left ⟨line, lines⟩ = line :: lines :=
          left_mk (ne_nil_of_parsed hline) lines
        rw [List.takeWhile_cons_of_neg hhead, List.dropWhile_cons_of_neg hhead,
          readCmd_other h hline hf]
        refine ⟨⟨line, lines⟩, ?_, ?_, ?_, rfl⟩
        · rw [hleft]
          exact ready_cons (ne_nil_of_parsed hline) (hline ▸ rfl)
        · rw [hleft, cmdLines_cons_some hline]
        · rw [hleft, cmdLines_cons_some hline]
          intro hnil
          cases hnil

theorem readCmd_first {f : ℤ} {L : List (ℤ × List Token)} (h : r.left = lines)
    (hready : Ready lines) (hlines : cmdLines lines = (f, s) :: L) (c : TFrmCmd) :
    ∃ r' : Reader, Ready r'.left ∧ cmdLines r'.left = L.dropWhile (isFor f) ∧
      (cmdLines r'.left = [] → r'.left = []) ∧
      r.readCmd N c false = ((s ++ (L.takeWhile (isFor f)).flatMap (·.2)).foldlM (set N)
        { c with iFrame := f }).map fun c' => (r', c', true) := by
  induction lines generalizing r with
  | nil => cases hlines
  | cons line lines ih =>
    by_cases hnil : line = []
    · subst hnil
      rw [readCmd_empty h]
      rw [cmdLines_cons_none rfl] at hlines
      exact ih rfl (ready_of_nil hready) hlines
    · obtain ⟨p, hp⟩ := Option.isSome_iff_exists.1 (hready.head hnil)
      rw [cmdLines_cons_some hp] at hlines
      obtain ⟨rfl, rfl⟩ := List.cons.inj hlines
      rw [readCmd_line h hp (by simp), List.foldlM_append]
      cases hs : s.foldlM (set N) { c with iFrame := f } with
      | none =>
        obtain ⟨r', hr, hl, hend, -⟩ :=
          readCmd_sameFrame (N := N) (r := ⟨[], lines⟩) rfl { c with iFrame := f }
        exact ⟨r', hr, hl, hend, rfl⟩
      | some c1 =>
        obtain ⟨r', hr, hl, hend, hread⟩ := readCmd_sameFrame (N := N) (r := ⟨[], lines⟩) rfl c1
        rw [foldlM_set_iFrame hs] at hl hread
        exact ⟨r', hr, hl, hend, hread⟩

theorem readCmd_last (h : r.left = lines) (hready : Ready lines) (hlines : cmdLines lines = []) :
    ∃ r' : Reader, r'.left = [] ∧ r.readCmd N c false = some (r', c, false) := by
  induction lines generalizing r with
  | nil => exact ⟨r, h, readCmd_nil h⟩
  | cons line lines ih =>
    by_cases hnil : line = []
    · subst hnil
      rw [readCmd_empty h]
      rw [cmdLines_cons_none rfl] at hlines
      exact ih rfl (ready_of_nil hready) hlines
    · obtain ⟨p, hp⟩ := Option.isSome_iff_exists.1 (hready.head hnil)
      rw [cmdLines_cons_some hp] at hlines
      cases hlines

/-- A line without a word in front of the first frame is kept for the next read,
which finds it again. -/
theorem readCmd_stuck (h : r.left = lines) (hready : ¬Ready lines) :
    ∃ r' : Reader, ¬Ready r'.left ∧ r.readCmd N c false = some (r', c, false) := by
  induction lines generalizing r with
  | nil => exact absurd ready_nil hready
  | cons line lines ih =>
    by_cases hnil : line = []
    · subst hnil
      rw [readCmd_empty h]
      exact ih rfl fun hr => hready (ready_nil_cons hr)
    · have hline : parsed line = none := by
        by_contra hsome
        exact hready (ready_cons hnil (Option.isSome_iff_ne_none.2 hsome))
      refine ⟨⟨line, lines⟩, ?_, ?_⟩
      · rw [left_mk hnil]
        intro hr
        have := hr.head hnil
        rw [hline] at this
        cases this
      · rw [readCmd_cons h, if_neg hnil, ParseCmd_of_none hline]

theorem readCmd_consumed {p : Reader × TFrmCmd × Bool} (h : r.left = lines)
    (hread : r.readCmd N c b = some p) :
    ∀ l ∈ cmdLines lines, l ∈ cmdLines p.1.left ∨ ∃ c1 c2, l.2.foldlM (set N) c1 = some c2 := by
  induction lines generalizing r c b with
  | nil =>
    intro l hl
    cases hl
  | cons line lines ih =>
    have hkeep (hne : line ≠ []) (hp : p.1 = ⟨line, lines⟩) (l : ℤ × List Token)
        (hl : l ∈ cmdLines (line :: lines)) :
        l ∈ cmdLines p.1.left ∨ ∃ c1 c2, l.2.foldlM (set N) c1 = some c2 := by
      rw [hp, left_mk hne]
      exact .inl hl
    cases hline : parsed line with
    | none =>
      rw [cmdLines_cons_none hline]
      by_cases hnil : line = []
      · subst hnil
        exact ih rfl (readCmd_empty h ▸ hread)
      · cases b with
        | true => exact ih rfl (readCmd_blank h hline ▸ hread)
        | false =>
          rw [readCmd_cons h, if_neg hnil, ParseCmd_of_none hline] at hread
          rw [← cmdLines_cons_none hline]
          exact hkeep hnil (congrArg Prod.fst (Option.some.inj hread)).symm
    | some q =>
      obtain ⟨f, s⟩ := q
      by_cases hf : b = true → f = c.iFrame
      · rw [readCmd_line h hline hf, Option.bind_eq_some_iff] at hread
        obtain ⟨c', hs, hread⟩ := hread
        rw [cmdLines_cons_some hline]
        intro l hl
        rcases List.mem_cons.1 hl with rfl | hl
        · exact .inr ⟨_, _, hs⟩
        · exact ih rfl hread l hl
      · obtain ⟨rfl, hne⟩ := Classical.not_imp.1 hf
        rw [readCmd_other h hline hne] at hread
        exact hkeep (ne_nil_of_parsed hline) (congrArg Prod.fst (Option.some.inj hread)).symm

end Reader

end VcuCodec.EncCmd
