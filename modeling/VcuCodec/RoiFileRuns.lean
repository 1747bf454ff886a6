import VcuCodec.RoiFile

/-!
# What a region-of-interest file loads

The loops of the loader go through the lines of the file.  A line that does not fit the buffer
leaves the stream failed, and then no loop sees the end of the file any more.
-/

namespace VcuCodec

namespace RoiFile

open TextScans

/-! ## Lines -/

/-- The lines of a text, of which the last one has no line end. -/
def lines : List Char → List (List Char)
  | [] => [[]]
  | ch :: s =>
    if ch = '\n' then [] :: lines s
    else
      match lines s with
      | [] => [[ch]]
      | l :: ls => (ch :: l) :: ls

/-- A line as the buffer ends it. -/
def cut (l : List Char) : List Char := l ++ ['\x00']

variable {i iFrameID : ℤ} {f : Stream} {s t sLine l : List Char} {ls : List (List Char)}
  {c : RoiMngr}

theorem lines_eq (s : List Char) :
    (lines s = [s] ∧ '\n' ∉ s) ∨
      ∃ l t, s = l ++ '\n' :: t ∧ '\n' ∉ l ∧ lines s = l :: lines t := by
  induction s with
  | nil => exact Or.inl ⟨rfl, List.not_mem_nil⟩
  | cons ch s ih =>
    by_cases hch : ch = '\n'
    · subst hch
      exact Or.inr ⟨[], s, rfl, List.not_mem_nil, if_pos rfl⟩
    · rw [lines, if_neg hch]
      rcases ih with ⟨h, hmem⟩ | ⟨l, t, rfl, hmem, h⟩
      · rw [h]
        exact Or.inl ⟨rfl, by simp [hmem, Ne.symm hch]⟩
      · rw [h]
        exact Or.inr ⟨ch :: l, t, rfl, by simp [hmem, Ne.symm hch], rfl⟩

/-- The stream is in front of these lines. -/
def Stream.At (f : Stream) (ls : List (List Char)) : Prop :=
  f.eof = true ∧ ls = [] ∨ f.eof = false ∧ f.fail = false ∧ ls = lines f.rest

/-- The stream failed in front of its end. -/
def Stream.Failed (f : Stream) : Prop := f.eof = false ∧ f.fail = true

theorem Stream.getline_of_ready (heof : f.eof = false) (hfail : f.fail = false)
    (sLine : List Char) :
    f.getline sLine =
      match f.rest.drop ((f.rest.takeWhile (· ≠ '\n')).take 255).length with
      | [] => (⟨[], true, (f.rest.takeWhile (· ≠ '\n')).take 255 = []⟩,
          store sLine ((f.rest.takeWhile (· ≠ '\n')).take 255))
      | ch :: rest =>
        if ch = '\n' then
          (⟨rest, false, false⟩, store sLine ((f.rest.takeWhile (· ≠ '\n')).take 255))
        else (⟨ch :: rest, false, true⟩, store sLine ((f.rest.takeWhile (· ≠ '\n')).take 255)) := by
  rw [Stream.getline, heof, hfail]
  rfl

theorem takeWhile_line {tail : List Char} (hmem : '\n' ∉ l)
    (htail : tail = [] ∨ ∃ t, tail = '\n' :: t) : (l ++ tail).takeWhile (· ≠ '\n') = l := by
  have hl : ∀ ch ∈ l, decide (ch ≠ '\n') = true := by
    intro ch hch
    exact decide_eq_true fun he => hmem (he ▸ hch)
  rw [List.takeWhile_append_of_pos hl]
  rcases htail with rfl | ⟨t, rfl⟩ <;> simp

/-- A line of the file gets into the buffer as far as it fits. -/
theorem Stream.At.getline (h : f.At (l :: ls)) (sLine : List Char) :
    (f.getline sLine).2 = store sLine (l.take 255) ∧
      if l.length ≤ 255 then (f.getline sLine).1.At ls else (f.getline sLine).1.Failed := by
  obtain ⟨heof, hfail, hls⟩ : f.eof = false ∧ f.fail = false ∧ l :: ls = lines f.rest := by
    rcases h with ⟨-, hnil⟩ | h
    · cases hnil
    · exact h
  obtain ⟨tail, hrest, hmem, htail⟩ : ∃ tail, f.rest = l ++ tail ∧ '\n' ∉ l ∧
      (tail = [] ∧ ls = [] ∨ ∃ t, tail = '\n' :: t ∧ ls = lines t) := by
    rcases lines_eq f.rest with ⟨heq, hmem⟩ | ⟨m, t, hrest, hmem, heq⟩
    · rw [heq] at hls
      obtain ⟨rfl, rfl⟩ := List.cons.inj hls
      exact ⟨[], (List.append_nil _).symm, hmem, Or.inl ⟨rfl, rfl⟩⟩
    · rw [heq] at hls
      obtain ⟨rfl, rfl⟩ := List.cons.inj hls
      exact ⟨'\n' :: t, hrest, hmem, Or.inr ⟨t, rfl, rfl⟩⟩
  rw [Stream.getline_of_ready heof hfail, hrest, takeWhile_line hmem (by
    rcases htail with ⟨h, -⟩ | ⟨t, h, -⟩
    · exact Or.inl h
    · exact Or.inr ⟨t, h⟩)]
  split_ifs with hlen
  · rw [List.take_of_length_le hlen, List.drop_left]
    rcases htail with ⟨rfl, rfl⟩ | ⟨t, rfl, rfl⟩
    · exact ⟨rfl, Or.inl ⟨rfl, rfl⟩⟩
    · exact ⟨rfl, Or.inr ⟨rfl, rfl, rfl⟩⟩
  · have h255 : (l.take 255).length = 255 := by rw [List.length_take]; omega
    rw [h255, List.drop_append_of_le_length (by omega)]
    cases hdrop : l.drop 255 with
    | nil =>
      have := List.drop_eq_nil_iff.mp hdrop
      omega
    | cons ch rest =>
      have hne : ch ≠ '\n' := by
        intro he
        apply hmem
        rw [← he]
        exact List.mem_of_mem_drop (hdrop ▸ List.mem_cons_self)
      simp only [List.cons_append, if_neg hne]
      exact ⟨trivial, rfl, rfl⟩

theorem Stream.Failed.getline (h : f.Failed) (sLine : List Char) :
    (f.getline sLine).2 = store sLine [] ∧ (f.getline sLine).1.Failed := by
  rw [Stream.getline, h.1, h.2]
  exact ⟨rfl, rfl, rfl⟩

/-! ## What the scanners see of a line -/

theorem mem_sign {ch : Char} (h : ch ∈ s) (h₁ : ch ≠ '-') (h₂ : ch ≠ '+') : ch ∈ (sign s).2 := by
  unfold sign
  split
  · exact (List.mem_cons.mp h).resolve_left h₁
  · exact (List.mem_cons.mp h).resolve_left h₂
  · exact h

theorem sign_append (hs : s ≠ []) : sign (s ++ t) = ((sign s).1, (sign s).2 ++ t) := by
  cases s with
  | nil => exact absurd rfl hs
  | cons ch s =>
    by_cases h₁ : ch = '-'
    · subst h₁
      rfl
    · by_cases h₂ : ch = '+'
      · subst h₂
        rfl
      · have hsign : ∀ u, sign (ch :: u) = (false, ch :: u) := by
          intro u
          unfold sign
          split
          · next h => exact absurd (List.cons.inj h).1 h₁
          · next h => exact absurd (List.cons.inj h).1 h₂
          · rfl
        rw [List.cons_append, hsign, hsign]
        rfl

/-- The scanner ends at a NUL, if not before, and what lies behind the first one is not seen. -/
def NulEnds {α : Type} (scan : List Char → Option α) : Prop :=
  ∀ s, '\x00' ∈ s → ∃ v, ∀ t, scan (s ++ t) = some v

variable {α : Type}

theorem NulEnds.isSome {scan : List Char → Option α} (h : NulEnds scan)
    (hs : '\x00' ∈ s) : ∃ v, scan s = some v := by
  obtain ⟨v, hv⟩ := h s hs
  exact ⟨v, by rw [← hv [], List.append_nil]⟩

theorem nulEnds_atoi : NulEnds atoi := by
  intro s h
  have hblank : ∃ ch ∈ s, isBlank ch = false := ⟨_, h, rfl⟩
  have hdrop : '\x00' ∈ s.dropWhile isBlank := mem_dropWhile h rfl
  have hsign := mem_sign hdrop (by decide) (by decide)
  have hdigit : ∃ ch ∈ (sign (s.dropWhile isBlank)).2, isDigit ch = false := ⟨_, hsign, rfl⟩
  refine ⟨toInt32 (RoiMngr.clip3 (signed (sign (s.dropWhile isBlank)).1
    (decimal ((sign (s.dropWhile isBlank)).2.takeWhile isDigit))) (-2 ^ 63) (2 ^ 63 - 1)), ?_⟩
  intro t
  simp only [atoi, span_local hblank, span_eq hblank, Option.map_some, Option.bind_eq_bind,
    Option.bind_some, sign_append (List.ne_nil_of_mem hdrop), span_local hdigit,
    span_eq hdigit, Option.pure_def]

theorem nulEnds_getStringOnKeyword : NulEnds getStringOnKeyword := by
  intro s h
  have hblank : ∃ ch ∈ s, decide (ch ∈ [' ', '\t', '=']) = false := ⟨_, h, rfl⟩
  have hdrop : '\x00' ∈ s.dropWhile fun ch => decide (ch ∈ [' ', '\t', '=']) :=
    mem_dropWhile h rfl
  have hword : ∃ ch ∈ s.dropWhile fun ch => decide (ch ∈ [' ', '\t', '=']),
      decide (ch ≠ ',' ∧ ch ≠ '\x00') = false := ⟨_, hdrop, rfl⟩
  refine ⟨(s.dropWhile fun ch => decide (ch ∈ [' ', '\t', '='])).takeWhile
    fun ch => decide (ch ≠ ',' ∧ ch ≠ '\x00'), fun t => ?_⟩
  simp only [getStringOnKeyword, span_local hblank, span_eq hblank, Option.map_some,
    Option.bind_eq_bind, Option.bind_some, span_local hword, span_eq hword, Option.pure_def]

theorem nulEnds_getRoiQuality (i : ℤ) : NulEnds (getRoiQuality i) := by
  intro s h
  obtain ⟨w, hw⟩ := nulEnds_getStringOnKeyword s h
  refine ⟨(qualityWords.lookup w).getD (extractInt i w), fun t => ?_⟩
  simp only [getRoiQuality, hw t, Option.bind_eq_bind, Option.bind_some, Option.pure_def]

/-- The line is a header, of whatever frame. -/
def isHeader (sLine : List Char) : Option Bool := do
  return (← getMotif sLine "frame".toList).isSome

/-- The line is a header of this frame. -/
def isHeaderOf (iFrameID : ℤ) (l : List Char) : Bool := checkFrameId (cut l) iFrameID = some true

/-- The first 255 characters are taken for a header of some frame. -/
def endsRois (l : List Char) : Bool := isHeader (cut (l.take 255)) = some true

/-- A line without letters and digits, which is passed over. -/
def isEmptyLine (l : List Char) : Bool := isFree isAlnum (cut l) = some true

/-- The four separators of a region come one after the other, each behind something. -/
def Separated (sLine : List Char) : Prop :=
  ∃ a b c d e, (a ≠ [] ∧ b ≠ [] ∧ c ≠ [] ∧ d ≠ []) ∧
    sLine = a ++ ':' :: (b ++ ',' :: (c ++ 'x' :: (d ++ ',' :: e)))

/-- The regions that are read, or none where a line cannot be. -/
def regions (i : ℤ) : (sLine : List Char) → List (List Char) → Option (List RoiMngr.Addition)
  | _, [] => some []
  | sLine, l :: ls =>
    if endsRois l then some []
    else if 255 < l.length then none
    else if isEmptyLine l then regions i (store sLine l) ls
    else do
      let a ← parseRoi i (store sLine l)
      return a :: (← regions i [] ls)

/-! ## One region -/

/-- The last character is a NUL. -/
def EndsNul (s : List Char) : Prop := s.getLast? = some '\x00'

theorem EndsNul.mem (h : EndsNul s) : '\x00' ∈ s := List.mem_of_getLast? h

variable {sep : Char}

theorem EndsNul.behind {a b : List Char} (h : EndsNul (a ++ sep :: b))
    (hsep : sep ≠ '\x00') : EndsNul b := by
  unfold EndsNul at h ⊢
  cases b with
  | nil => simp [hsep] at h
  | cons x b => simpa [List.getLast?_append, List.getLast?_cons_cons] using h

theorem EndsNul.atoi (h : EndsNul s) : ∃ v, RoiFile.atoi s = some v := nulEnds_atoi.isSome h.mem

theorem EndsNul.pastNext (h : EndsNul s) (hsep : sep ≠ '\x00')
    (ht : pastNext sep s = some t) : EndsNul t := by
  obtain ⟨a, -, rfl⟩ := pastNext_eq_some ht
  exact h.behind hsep

/-- The two values of a line are there if their separators are. -/
theorem EndsNul.getDualValue (h : EndsNul s) (hsep : sep ≠ '\x00') :
    (∃ x y, getDualValue s sep = some (x, y, t)) ↔
      ∃ u, TextScans.pastNext sep s = some u ∧ TextScans.pastNext ',' u = some t := by
  obtain ⟨v₁, hv₁⟩ := h.atoi
  constructor
  · intro ⟨x, y, hrun⟩
    unfold RoiFile.getDualValue at hrun
    obtain ⟨_, _, hrun⟩ := Option.bind_eq_some_iff.mp hrun
    obtain ⟨u, hu, hrun⟩ := Option.bind_eq_some_iff.mp hrun
    obtain ⟨_, _, hrun⟩ := Option.bind_eq_some_iff.mp hrun
    obtain ⟨t', ht', hrun⟩ := Option.bind_eq_some_iff.mp hrun
    cases hrun
    exact ⟨u, hu, ht'⟩
  · intro ⟨u, hu, ht⟩
    obtain ⟨v₂, hv₂⟩ := (h.pastNext hsep hu).atoi
    refine ⟨v₁, v₂, ?_⟩
    simp only [RoiFile.getDualValue, hv₁, hu, hv₂, ht, Option.bind_eq_bind, Option.bind_some,
      Option.pure_def]

/-- A region is read from a line exactly if the separators are there. -/
theorem EndsNul.parseRoi (h : EndsNul s) :
    (∃ a, parseRoi i s = some a) ↔ Separated s := by
  constructor
  · intro ⟨a, hrun⟩
    unfold RoiFile.parseRoi at hrun
    obtain ⟨⟨x, y, t₂⟩, hxy, hrun⟩ := Option.bind_eq_some_iff.mp hrun
    obtain ⟨⟨w, v, t₄⟩, hwv, -⟩ := Option.bind_eq_some_iff.mp hrun
    obtain ⟨t₁, h₁, h₂⟩ := (h.getDualValue (by decide)).mp ⟨x, y, hxy⟩
    have hnul₂ : EndsNul t₂ := (h.pastNext (by decide) h₁).pastNext (by decide) h₂
    obtain ⟨t₃, h₃, h₄⟩ := (hnul₂.getDualValue (by decide)).mp ⟨w, v, hwv⟩
    obtain ⟨a, ha, rfl⟩ := pastNext_eq_some h₁
    obtain ⟨b, hb, rfl⟩ := pastNext_eq_some h₂
    obtain ⟨c, hc, rfl⟩ := pastNext_eq_some h₃
    obtain ⟨d, hd, rfl⟩ := pastNext_eq_some h₄
    exact ⟨a, b, c, d, t₄, ⟨ha, hb, hc, hd⟩, rfl⟩
  · intro ⟨a, b, c, d, e, ⟨ha, hb, hc, hd⟩, heq⟩
    -- each scan may stop early, and then the next one has more in front of its separator
    obtain ⟨z₁, h₁⟩ := pastNext_suffix ':' (b := b ++ ',' :: (c ++ 'x' :: (d ++ ',' :: e))) ha
    obtain ⟨z₂, h₂⟩ := pastNext_suffix ',' (b := c ++ 'x' :: (d ++ ',' :: e))
      (List.append_ne_nil_of_right_ne_nil z₁ hb)
    obtain ⟨z₃, h₃⟩ := pastNext_suffix 'x' (b := d ++ ',' :: e)
      (List.append_ne_nil_of_right_ne_nil z₂ hc)
    obtain ⟨z₄, h₄⟩ := pastNext_suffix ',' (b := e)
      (List.append_ne_nil_of_right_ne_nil z₃ hd)
    rw [List.append_assoc] at h₂ h₃ h₄
    rw [← heq] at h₁
    have hnul₂ := (h.pastNext (by decide) h₁).pastNext (by decide) h₂
    have hnul₄ := (hnul₂.pastNext (by decide) h₃).pastNext (by decide) h₄
    obtain ⟨x, y, hxy⟩ := (h.getDualValue (by decide)).mpr ⟨_, h₁, h₂⟩
    obtain ⟨w, v, hwv⟩ := (hnul₂.getDualValue (by decide)).mpr ⟨_, h₃, h₄⟩
    obtain ⟨q, hq⟩ := (nulEnds_getRoiQuality i).isSome hnul₄.mem
    refine ⟨⟨x, y, w, v, q, true⟩, ?_⟩
    simp only [RoiFile.parseRoi, hxy, hwv, hq, Option.bind_eq_bind, Option.bind_some,
      Option.pure_def]

/-- The lines up to the header of the frame: the header and the lines behind it, if it is there. -/
def header (iFrameID : ℤ) :
    List (List Char) → Option (Option (List Char × List (List Char)))
  | [] => some none
  | l :: ls =>
    if 255 < l.length then none
    else if isHeaderOf iFrameID l then some (some (l, ls))
    else header iFrameID ls

variable {n : ℕ}

variable {as : List RoiMngr.Addition}

variable {c' : RoiMngr}

end RoiFile

end VcuCodec
