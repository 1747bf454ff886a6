import VcuCodec.CfgTokenizer

/-!
# Every configuration text is parsed to its end

The tokenizer and the loop over the tokens end for every text whose comments end, if the
positions fit into an `int`.
-/

namespace VcuCodec.CfgParsing

open CheckedRuns CheckedRuns.Checked

/-! ## What is claimed -/

/-- A call of `getToken` ends and has consumed a character.  It reads nothing behind the
terminator, which would be out of bounds. -/
def Tokenizes (toParse : List Char) (s : Cursor) : Prop :=
  ∃ enough, ∀ rounds ≥ enough, Ends (getToken toParse rounds rounds) s fun _ t => s.curPos < t.curPos

/-- The loop over the tokens ends, whatever is done with the settings. -/
def Parses (toParse : List Char) : Prop :=
  ∀ (π : Type) (cb : ConfigCallbacks π) (strictMode : Bool) (parser : π), ∃ enough, ∀ rounds ≥ enough,
    Returns (parseConfig cb toParse rounds strictMode parser) Cursor.init

/-- The calls of `getToken` that start at a character or, as those behind an error, up to four
positions behind the text. -/
def ParsesToEnd (toParse : List Char) : Prop :=
  (∀ s : Cursor, 0 ≤ s.curPos → s.curPos ≤ last toParse + 4 → Tokenizes toParse s) ∧ Parses toParse

/-! ## When it holds -/

/-- What `getChar` sees. -/
def seen (toParse : List Char) (pos : ℤ) : Char := if last toParse < pos then '\x00' else toParse.getD pos.toNat '\x00'

/-- Behind every `#` there is the end of a line. -/
def CommentsEnd (toParse : List Char) : Prop :=
  ∀ i, 0 ≤ i → i ≤ last toParse → seen toParse i = '#' → ∃ j, i < j ∧ j ≤ last toParse ∧ seen toParse j = '\n'

/-! ## Characters -/

section Characters

variable {toParse : List Char} {s : Cursor} {pos : ℤ}

theorem last_le (toParse : List Char) : last toParse ≤ toParse.length := by
  unfold last toInt32 Int.bmod
  dsimp only
  split <;> omega

theorem seen_behind (h : last toParse < pos) : seen toParse pos = '\x00' := if_pos h

theorem le_last_of_seen (h : seen toParse pos ≠ '\x00') : pos ≤ last toParse := by
  by_contra hlt
  exact h (seen_behind (not_le.mp hlt))

variable {Q : Char → Cursor → Prop}

theorem ends_charAt (h0 : 0 ≤ pos) (hlen : pos ≤ toParse.length) :
    Ends (charAt toParse pos) s Q ↔ Q (toParse.getD pos.toNat '\x00') s := by
  unfold charAt
  rw [if_pos ⟨h0, hlen⟩, ends_pure]

theorem ends_getChar (h0 : 0 ≤ pos) : Ends (getChar toParse pos) s Q ↔ Q (seen toParse pos) s := by
  have hlen := last_le toParse
  unfold getChar seen
  split_ifs with hlt
  · rw [ends_pure]
  · exact ends_charAt h0 (by omega)

@[simp] theorem ends_curPos {Q : ℤ → Cursor → Prop} : Ends curPos s Q ↔ Q s.curPos s := by
  unfold curPos
  rw [ends_step]

theorem ends_advance {Q : Unit → Cursor → Prop} :
    Ends advance s Q ↔ s.curPos + 1 < 2 ^ 31 ∧ Q () { s with curPos := s.curPos + 1 } := by
  unfold advance
  rw [ends_bind, ends_curPos, ends_bind, ends_check, ends_step]

end Characters

/-! ## Loops over characters -/

section Loops

variable {toParse : List Char} {s : Cursor} {p : Char → Bool} {rounds : ℕ}

/-- The cursor moved to `q`. -/
def Cursor.moved (s : Cursor) (q : ℤ) : Cursor := { s with curPos := q }

@[simp] theorem Cursor.curPos_moved (s : Cursor) (q : ℤ) : (s.moved q).curPos = q := rfl

@[simp] theorem Cursor.moved_moved (s : Cursor) (q r : ℤ) : (s.moved q).moved r = s.moved r := rfl

variable {Q : Unit → Cursor → Prop}

theorem ends_skipWhile_succ (h0 : 0 ≤ s.curPos) : Ends (skipWhile toParse p (rounds + 1)) s Q ↔
      if p (seen toParse s.curPos) then
        s.curPos + 1 < 2 ^ 31 ∧ Ends (skipWhile toParse p rounds) (s.moved (s.curPos + 1)) Q
      else Q () s := by
  rw [skipWhile, ends_bind, ends_curPos, ends_bind, ends_getChar h0]
  split_ifs
  · rw [ends_bind, ends_advance]
    rfl
  · rw [ends_pure]

theorem skipWhile_ends (stop : ℤ) (h0 : 0 ≤ s.curPos) (hle : s.curPos ≤ stop) (hstop : p (seen toParse stop) = false)
    (hfit : stop < 2 ^ 31) (hrounds : stop - s.curPos < rounds) :
    Ends (skipWhile toParse p rounds) s fun _ t => ∃ q, s.curPos ≤ q ∧ q ≤ stop ∧ t = s.moved q := by
  induction rounds generalizing s with
  | zero => omega
  | succ rounds ih =>
    rw [ends_skipWhile_succ h0]
    split_ifs with hp
    · have hne : s.curPos ≠ stop := by
        rintro heq
        rw [heq, hstop] at hp
        exact absurd hp nofun
      refine ⟨by omega, (ih (s := s.moved (s.curPos + 1)) ?_ ?_ ?_).imp ?_⟩
      · show 0 ≤ s.curPos + 1
        omega
      · show s.curPos + 1 ≤ stop
        omega
      · show stop - (s.curPos + 1) < rounds
        omega
      · rintro _ t ⟨q, hq, hqs, rfl⟩
        have hq' : s.curPos + 1 ≤ q := hq
        exact ⟨q, by omega, hqs, rfl⟩
    · exact ⟨s.curPos, le_rfl, hle, rfl⟩

theorem skipWhile_ends_text (h0 : 0 ≤ s.curPos) (hp : p '\x00' = false) (hfit : max (last toParse + 1) s.curPos < 2 ^ 31)
    (hrounds : max (last toParse + 1) s.curPos - s.curPos < rounds) :
    Ends (skipWhile toParse p rounds) s fun _ t =>
      ∃ q, s.curPos ≤ q ∧ q ≤ max (last toParse + 1) s.curPos ∧ t = s.moved q := by
  apply skipWhile_ends _ h0 (le_max_right ..) _ hfit hrounds
  rw [seen_behind (by omega), hp]

/-- A loop over characters that all have `p` does not end. -/
theorem skipWhile_not_ends (h0 : 0 ≤ s.curPos)
    (hp : ∀ q ≥ s.curPos, p (seen toParse q) = true) : ¬ Ends (skipWhile toParse p rounds) s Q := by
  induction rounds generalizing s with
  | zero => exact fun h => (ends_stuck _).mp h
  | succ rounds ih =>
    rw [ends_skipWhile_succ h0, if_pos (hp s.curPos le_rfl)]
    rintro ⟨-, h⟩
    refine ih (s := s.moved (s.curPos + 1)) ?_ ?_ h
    · show 0 ≤ s.curPos + 1
      omega
    · intro q hq
      have hq' : s.curPos + 1 ≤ q := hq
      exact hp q (by omega)

end Loops

/-! ## One token -/

/-- As many rounds as there are positions. -/
structure Enough (toParse : List Char) (rounds : ℕ) : Prop where
  pos : 0 < rounds
  text : last toParse + 1 < rounds

section Tokens

variable {toParse : List Char} {s : Cursor} {rounds : ℕ}

theorem skipComment_ends (hc : CommentsEnd toParse) (h0 : 0 ≤ s.curPos) (hfit : last toParse < 2 ^ 31)
    (hr : Enough toParse rounds) :
    Ends (skipComment toParse rounds) s fun _ t =>
      ∃ q, s.curPos ≤ q ∧ q ≤ max (last toParse) s.curPos ∧ t = s.moved q := by
  have htext := hr.text
  unfold skipComment
  rw [ends_bind, ends_curPos, ends_bind, ends_getChar h0]
  split_ifs with hsharp
  · have hlast : s.curPos ≤ last toParse := le_last_of_seen (by simp [hsharp])
    obtain ⟨j, hsj, hj, hend⟩ := hc s.curPos h0 hlast hsharp
    refine (skipWhile_ends j h0 hsj.le (by simp [hend]) (by omega) (by omega)).imp ?_
    rintro _ _ ⟨q, hq, hqj, rfl⟩
    exact ⟨q, hq, by omega, rfl⟩
  · exact (ends_pure ()).mpr ⟨s.curPos, le_rfl, le_max_right .., rfl⟩

theorem getNextChar_ends (hc : CommentsEnd toParse) (h0 : 0 ≤ s.curPos)
    (hfit : max (last toParse + 1) s.curPos + 1 < 2 ^ 31) (hr : Enough toParse rounds) :
    Ends (getNextChar toParse rounds) s fun c t => ∃ q, s.curPos ≤ q ∧ q ≤ max (last toParse + 1) s.curPos ∧
      c = seen toParse q ∧ t = s.moved (q + 1) := by
  have hpos := hr.pos
  have htext := hr.text
  unfold getNextChar
  rw [ends_bind]
  refine (skipWhile_ends_text h0 (by decide) (by omega) (by omega)).imp ?_
  rintro _ _ ⟨q, hq, hle, rfl⟩
  rw [ends_bind]
  refine (skipComment_ends hc (show 0 ≤ q by omega) (by omega) hr).imp ?_
  rintro _ _ ⟨q', hqq, hle', rfl⟩
  rw [Cursor.curPos_moved] at hqq hle'
  rw [ends_bind, ends_curPos, ends_bind, Cursor.moved_moved, Cursor.curPos_moved,
    ends_getChar (show 0 ≤ q' by omega), ends_bind, ends_advance, ends_pure]
  exact ⟨show q' + 1 < 2 ^ 31 by omega, q', by omega, by omega, rfl, rfl⟩

/-- The cursor moved on, at most behind the character behind the text. -/
structure Within (toParse : List Char) (s t : Cursor) : Prop where
  ge : s.curPos ≤ t.curPos
  le : t.curPos ≤ max (last toParse + 2) s.curPos

theorem Within.trans {t u : Cursor} (h : Within toParse s t) (h' : Within toParse t u) : Within toParse s u where
  ge := h.ge.trans h'.ge
  le := by
    have hle := h.le
    have hle' := h'.le
    omega

theorem skipWhile_within {p : Char → Bool} (h0 : 0 ≤ s.curPos) (hp : p '\x00' = false)
    (hfit : max (last toParse + 2) s.curPos < 2 ^ 31) (hr : Enough toParse rounds) :
    Ends (skipWhile toParse p rounds) s fun _ t => Within toParse s t := by
  have hpos := hr.pos
  have htext := hr.text
  refine (skipWhile_ends_text h0 hp (by omega) (by omega)).imp ?_
  rintro _ _ ⟨q, hq, hle, rfl⟩
  exact ⟨hq, show q ≤ _ by omega⟩

variable {startPos : ℤ}

@[simp] theorem ends_tokenText {Q : String → Cursor → Prop} :
    Ends (tokenText toParse startPos) s Q ↔
      Q (String.ofList ((toParse.drop startPos.toNat).take (s.curPos - startPos).toNat)) s := by
  unfold tokenText
  rw [ends_bind, ends_curPos, ends_pure]

variable {token : Token}

theorem tokenizeIdentifier_ends (h0 : 0 ≤ s.curPos)
    (hfit : max (last toParse + 2) s.curPos < 2 ^ 31) (hr : Enough toParse rounds) :
    Ends (tokenizeIdentifier toParse rounds token startPos) s fun _ t => Within toParse s t := by
  unfold tokenizeIdentifier
  rw [ends_bind]
  refine (skipWhile_within h0 (by decide) hfit hr).imp fun _ t ht => ?_
  rw [ends_bind, ends_tokenText, ends_pure]
  exact ht

theorem tokenizeHexToken_ends (h0 : 0 ≤ s.curPos)
    (hfit : max (last toParse + 2) s.curPos < 2 ^ 31) (hr : Enough toParse rounds) :
    Ends (tokenizeHexToken toParse rounds token startPos) s fun _ t => Within toParse s t := by
  unfold tokenizeHexToken
  rw [ends_bind]
  refine (skipWhile_within h0 (by decide) hfit hr).imp fun _ t ht => ?_
  rw [ends_bind, ends_tokenText, ends_pure]
  exact ht

theorem tokenizeDigits_ends {type : TokenType} (h0 : 0 ≤ s.curPos)
    (hfit : max (last toParse + 2) s.curPos < 2 ^ 31) (hr : Enough toParse rounds) :
    Ends (tokenizeDigits toParse rounds token startPos type) s fun _ t => Within toParse s t := by
  unfold tokenizeDigits
  rw [ends_bind]
  refine (skipWhile_within h0 (by decide) hfit hr).imp fun _ t ht => ?_
  have ht0 : 0 ≤ t.curPos := h0.trans ht.ge
  have hle := ht.le
  have hfraction : Ends (readIf (isComma (seen toParse t.curPos) = true) (do
      advance
      skipWhile toParse isDigit rounds
      pure TokenType.float) type) t fun _ u => Within toParse t u := by
    rw [ends_readIf]
    refine ⟨fun hcomma => ?_, fun _ => ⟨le_rfl, le_max_right ..⟩⟩
    have hlast : t.curPos ≤ last toParse := le_last_of_seen fun h => by rw [h] at hcomma; exact absurd hcomma (by decide)
    rw [ends_bind, ends_advance, ends_bind]
    refine ⟨by omega, (skipWhile_within (show 0 ≤ t.curPos + 1 by omega) (by decide) ?_ hr).imp fun _ u hu => ?_⟩
    · show max (last toParse + 2) (t.curPos + 1) < 2 ^ 31
      omega
    · rw [ends_pure]
      have hge := hu.ge
      have hle' := hu.le
      dsimp only at hge hle'
      exact ⟨by omega, by omega⟩
  rw [ends_bind, ends_curPos, ends_bind, ends_getChar ht0, ends_bind]
  refine hfraction.imp fun _ u hu => ?_
  rw [ends_bind, ends_tokenText, ends_pure]
  exact ht.trans hu

theorem tokenizeNumberToken_ends {q : ℤ} (h0 : 0 ≤ q) (hs : s.curPos = q + 1)
    (hdigit : isDigit (seen toParse q) = true) (hfit : last toParse + 2 < 2 ^ 31) (hr : Enough toParse rounds) :
    Ends (tokenizeNumberToken toParse rounds token q) s fun _ t => Within toParse s t := by
  have hlen := last_le toParse
  have hlast : q ≤ last toParse := le_last_of_seen fun h => by rw [h] at hdigit; exact absurd hdigit (by decide)
  -- a digit is not the terminator
  have hlt : q < toParse.length := by
    by_contra hge
    unfold seen at hdigit
    rw [if_neg (by omega), List.getD_eq_getElem?_getD, List.getElem?_eq_none (by omega)] at hdigit
    exact absurd hdigit (by decide)
  have hs0 : 0 ≤ s.curPos := by omega
  have hsfit : max (last toParse + 2) s.curPos < 2 ^ 31 := by omega
  unfold tokenizeNumberToken
  rw [ends_bind, ends_charAt h0 (by omega)]
  split_ifs with hzero
  · rw [ends_bind, ends_charAt (by omega) (by omega)]
    split_ifs with hhex hcomma
    · rw [ends_bind, ends_advance]
      refine ⟨by omega, (tokenizeHexToken_ends (show 0 ≤ s.curPos + 1 by omega) ?_ hr).imp fun _ t ht => ?_⟩
      · show max (last toParse + 2) (s.curPos + 1) < 2 ^ 31
        omega
      · have hge := ht.ge
        have hle := ht.le
        dsimp only at hge hle
        exact ⟨by omega, by omega⟩
    · exact tokenizeDigits_ends hs0 hsfit hr
    · rw [ends_bind, ends_curPos, ends_bind, ends_getChar hs0]
      exact tokenizeDigits_ends hs0 hsfit hr
  · exact tokenizeDigits_ends hs0 hsfit hr

/-- Where a token may end that starts at `pos`. -/
structure GotToken (toParse : List Char) (pos : ℤ) (token : Token) (t : Cursor) : Prop where
  consumed : pos < t.curPos
  le : t.curPos ≤ max (last toParse + 2) (pos + 1)
  inside : token.type ≠ .endOfFile → t.curPos ≤ last toParse + 2

theorem GotToken.of_within {pos q : ℤ} {t u : Cursor} (hq : pos ≤ q) (hlast : q ≤ last toParse)
    (ht : t.curPos = q + 1) (hw : Within toParse t u) : GotToken toParse pos token u := by
  have hge := hw.ge
  have hle := hw.le
  exact ⟨by omega, by omega, fun _ => by omega⟩

theorem getToken_ends (hc : CommentsEnd toParse) (h0 : 0 ≤ s.curPos)
    (hfit : max (last toParse + 2) (s.curPos + 1) < 2 ^ 31) (hr : Enough toParse rounds) {depth : ℕ}
    (hdepth : max (last toParse + 1) s.curPos - s.curPos < depth) :
    Ends (getToken toParse rounds depth) s (GotToken toParse s.curPos) := by
  induction depth generalizing s with
  | zero => omega
  | succ depth ih =>
    unfold getToken
    rw [ends_bind]
    refine (getNextChar_ends hc h0 (by omega) hr).imp ?_
    rintro _ _ ⟨q, hq, hle, rfl, rfl⟩
    have hq0 : 0 ≤ q := by omega
    have hposition : ∀ {Q : ℤ × ℤ → Cursor → Prop} {t : Cursor}, Ends getPosition t Q ↔
        Q (t.line, t.curPos - t.columnStartPos) t := fun {Q t} => ends_step _
    rw [ends_bind, ends_curPos, ends_bind, hposition]
    dsimp only
    -- every token but the end of the file begins at a character
    have hinside : seen toParse q ≠ '\x00' → q ≤ last toParse := le_last_of_seen
    have hstay : Within toParse (s.moved (q + 1)) (s.moved (q + 1)) := ⟨le_rfl, le_max_right ..⟩
    have hbegin : ∀ {token : Token} {u : Cursor}, q ≤ last toParse → Within toParse (s.moved (q + 1)) u →
        GotToken toParse s.curPos token u := fun hlast hw => GotToken.of_within hq hlast rfl hw
    by_cases hreturn : seen toParse q = '\r'
    · rw [if_pos hreturn]
      have hlast := hinside (by rw [hreturn]; decide)
      refine (ih (s := s.moved (q + 1)) (show 0 ≤ q + 1 by omega) ?_ ?_).imp fun token t ht => ?_
      · show max (last toParse + 2) (q + 1 + 1) < 2 ^ 31
        omega
      · show max (last toParse + 1) (q + 1) - (q + 1) < depth
        omega
      · have hlt := ht.consumed
        have hle := ht.le
        rw [Cursor.curPos_moved] at hlt hle
        exact ⟨by omega, by omega, ht.inside⟩
    rw [if_neg hreturn]
    by_cases hline : seen toParse q = '\n'
    · rw [if_pos hline, ends_step]
      exact hbegin (hinside (by rw [hline]; decide)) ⟨le_rfl, le_max_right ..⟩
    rw [if_neg hline]
    cases hsymbol : symbolType (seen toParse q) with
    | some type =>
      dsimp only
      rw [ends_pure]
      refine ⟨show s.curPos < q + 1 by omega, show q + 1 ≤ _ by omega, fun hne => ?_⟩
      have hlast : q ≤ last toParse := by
        apply hinside
        intro hzero
        rw [hzero] at hsymbol
        exact hne (Option.some.inj hsymbol).symm
      show q + 1 ≤ last toParse + 2
      omega
    | none =>
      have hlast : q ≤ last toParse := hinside fun hzero => by
        rw [hzero] at hsymbol
        exact absurd hsymbol (by decide)
      have hq1 : 0 ≤ (s.moved (q + 1)).curPos := show 0 ≤ q + 1 by omega
      have hq1fit : max (last toParse + 2) (s.moved (q + 1)).curPos < 2 ^ 31 := by
        rw [Cursor.curPos_moved]
        omega
      dsimp only
      split_ifs with halpha hdigit
      · exact (tokenizeIdentifier_ends hq1 hq1fit hr).imp fun _ u hu => hbegin hlast hu
      · rw [Cursor.curPos_moved, add_sub_cancel_right]
        exact (tokenizeNumberToken_ends hq0 rfl hdigit (by omega) hr).imp fun _ u hu => hbegin hlast hu
      · rw [ends_pure]
        exact hbegin hlast hstay

theorem tokenizes (hc : CommentsEnd toParse) (h0 : 0 ≤ s.curPos)
    (hfit : max (last toParse + 2) (s.curPos + 1) < 2 ^ 31) (hr : Enough toParse rounds) :
    Ends (getToken toParse rounds rounds) s (GotToken toParse s.curPos) := by
  have hpos := hr.pos
  have htext := hr.text
  exact getToken_ends hc h0 hfit hr (by omega)

end Tokens

/-! ## The loop over the tokens -/

section Lines

variable {toParse : List Char} {rounds : ℕ} (hc : CommentsEnd toParse) (hfit : last toParse + 5 < 2 ^ 31)
  (hr : Enough toParse rounds)

include hc hfit hr

theorem restOfLine_ends {n : ℕ} {token : Token} {tokens : List Token} {s : Cursor} (h0 : 0 ≤ s.curPos)
    (hle : s.curPos ≤ last toParse + 3) (hin : token.type ≠ .endOfFile → s.curPos ≤ last toParse + 2)
    (hn : last toParse + 4 - s.curPos < n) :
    Ends (restOfLine toParse rounds n token tokens) s fun _ t => s.curPos ≤ t.curPos ∧ t.curPos ≤ last toParse + 3 := by
  induction n generalizing s token tokens with
  | zero => omega
  | succ n ih =>
    unfold restOfLine
    split_ifs with hmoreTokens
    · have hs := hin hmoreTokens.2
      rw [ends_bind]
      refine (tokenizes hc h0 (by omega) hr).imp fun next t ht => ?_
      have hlt := ht.consumed
      have htle := ht.le
      refine (ih (by omega) (by omega) ht.inside (by omega)).imp ?_
      rintro _ u ⟨hge, hule⟩
      exact ⟨by omega, hule⟩
    · rw [ends_pure]
      exact ⟨le_rfl, hle⟩

variable {π : Type} {cb : ConfigCallbacks π} {parser : π} {s : Cursor}

theorem parseIdentifier_ends {identToken : Token} (hmore : last toParse + 4 < rounds) (h0 : 0 ≤ s.curPos)
    (hle : s.curPos ≤ last toParse + 2) :
    Ends (parseIdentifier cb toParse rounds parser identToken) s fun _ t =>
      s.curPos ≤ t.curPos ∧ t.curPos ≤ last toParse + 4 := by
  unfold parseIdentifier
  rw [ends_bind]
  refine (tokenizes hc h0 (by omega) hr).imp fun equal t ht => ?_
  have hlt := ht.consumed
  have htle := ht.le
  split_ifs with hequal
  · rw [ends_pure]
    exact ⟨by omega, by omega⟩
  · have hin := ht.inside fun hend => hequal fun heq => by rw [heq] at hend; cases hend
    rw [ends_bind]
    refine (tokenizes hc (by omega) (by omega) hr).imp fun token u hu => ?_
    have hult := hu.consumed
    have hule := hu.le
    rw [ends_bind]
    refine (restOfLine_ends hc hfit hr (by omega) (by omega) hu.inside (by omega)).imp ?_
    rintro tokens v ⟨hge, hvle⟩
    split_ifs <;> rw [ends_pure] <;> exact ⟨by omega, by omega⟩

theorem parseSection_ends (h0 : 0 ≤ s.curPos) (hle : s.curPos ≤ last toParse + 2) :
    Ends (parseSection cb toParse rounds parser) s fun _ t => s.curPos ≤ t.curPos ∧ t.curPos ≤ last toParse + 4 := by
  unfold parseSection
  rw [ends_bind]
  refine (tokenizes hc h0 (by omega) hr).imp fun name t ht => ?_
  have hlt := ht.consumed
  have htle := ht.le
  rw [ends_bind]
  refine (tokenizes hc (by omega) (by omega) hr).imp fun closeBracket u hu => ?_
  have hult := hu.consumed
  have hule := hu.le
  split_ifs <;> rw [ends_pure] <;> exact ⟨by omega, by omega⟩

theorem parseStatement_ends {token : Token} (hmore : last toParse + 4 < rounds) (h0 : 0 ≤ s.curPos)
    (hle : s.curPos ≤ last toParse + 2) :
    Ends (parseStatement cb toParse rounds parser token) s fun _ t =>
      s.curPos ≤ t.curPos ∧ t.curPos ≤ last toParse + 4 := by
  unfold parseStatement
  split_ifs
  · exact parseSection_ends hc hfit hr h0 hle
  · exact parseIdentifier_ends hc hfit hr hmore h0 hle
  · rw [ends_pure]
    exact ⟨le_rfl, by omega⟩

/-- Each round of the loop moves on, and the token behind the text is its last one. -/
theorem parseLoop_returns {strictMode : Bool} (hmore : last toParse + 4 < rounds) {n : ℕ} (h0 : 0 ≤ s.curPos)
    (hle : s.curPos ≤ max 0 (last toParse + 4)) (hn : max 0 (last toParse + 5) - s.curPos < n) :
    Returns (parseLoop cb toParse rounds strictMode n parser) s := by
  induction n generalizing s parser with
  | zero => omega
  | succ n ih =>
    unfold parseLoop
    refine ends_bind.mpr ((tokenizes hc h0 (by omega) hr).imp fun token t ht => ?_)
    have hlt := ht.consumed
    split_ifs with hend
    · exact (ends_pure _).mpr trivial
    · refine ends_bind.mpr ((parseStatement_ends hc hfit hr hmore (by omega) (ht.inside hend)).imp ?_)
      rintro r u ⟨hge, hule⟩
      split_ifs
      · exact (ends_pure _).mpr trivial
      · exact ih (by omega) (by omega) (by omega)

end Lines

/-! ## Where it does not end -/

section Endless

variable {toParse : List Char} {rounds depth : ℕ} {s : Cursor} {Q : Token → Cursor → Prop}

/-- A call at a character that is not blank begins with the comment that may be there. -/
theorem getNextChar_front {R : Char → Cursor → Prop} (h0 : 0 ≤ s.curPos)
    (hblank : isBlank (seen toParse s.curPos) = false) (h : Ends (getNextChar toParse rounds) s R) :
    Ends (skipComment toParse rounds) s fun _ t => Returns advance t := by
  unfold getNextChar at h
  rw [ends_bind] at h
  cases rounds with
  | zero => exact absurd h (by simp [skipWhile])
  | succ rounds =>
    rw [ends_skipWhile_succ h0, hblank, if_neg Bool.false_ne_true, ends_bind] at h
    refine h.imp fun _ t ht => ?_
    rw [ends_bind, ends_curPos, ends_bind] at ht
    obtain ⟨c, t', hget, ht'⟩ := ht
    -- `getChar` leaves the cursor
    have hsame : t' = t := by
      unfold getChar charAt at hget
      split_ifs at hget <;> cases hget <;> rfl
    rw [hsame, ends_bind] at ht'
    exact ht'.returns

theorem getToken_front (h0 : 0 ≤ s.curPos) (hblank : isBlank (seen toParse s.curPos) = false)
    (h : Ends (getToken toParse rounds depth) s Q) :
    Ends (skipComment toParse rounds) s fun _ t => Returns advance t := by
  cases depth with
  | zero => exact absurd h (by simp [getToken])
  | succ depth =>
    unfold getToken at h
    rw [ends_bind] at h
    exact getNextChar_front h0 hblank h

/-- A comment without an end of line is never left. -/
theorem not_ends_of_comment (h0 : 0 ≤ s.curPos) (hsharp : seen toParse s.curPos = '#')
    (hopen : ∀ j > s.curPos, j ≤ last toParse → seen toParse j ≠ '\n') :
    ¬ Ends (getToken toParse rounds depth) s Q := by
  intro h
  have hcomment := getToken_front h0 (by rw [hsharp]; decide) h
  unfold skipComment at hcomment
  rw [ends_bind, ends_curPos, ends_bind, ends_getChar h0, if_pos hsharp] at hcomment
  refine skipWhile_not_ends h0 (fun q hq => ?_) hcomment
  rw [decide_eq_true_iff]
  intro hend
  rcases lt_or_eq_of_le hq with hlt | heq
  · exact hopen q hlt (le_last_of_seen (by rw [hend]; decide)) hend
  · rw [← heq, hsharp] at hend
    exact absurd hend (by decide)

theorem not_ends_of_behind (h0 : 0 ≤ s.curPos) (hbehind : last toParse < s.curPos) (hmax : 2 ^ 31 ≤ s.curPos + 1) :
    ¬ Ends (getToken toParse rounds depth) s Q := by
  intro h
  have hzero := seen_behind hbehind
  have hcomment := getToken_front h0 (by rw [hzero]; decide) h
  unfold skipComment at hcomment
  rw [ends_bind, ends_curPos, ends_bind, ends_getChar h0, hzero, if_neg (by decide), ends_pure] at hcomment
  have hadvance := (ends_advance.mp hcomment).1
  omega

end Endless

/-- The tokenizer and the loop over the tokens end for a text if and only if each of its comments ends
and the positions that they come to fit into an `int`. -/
theorem parsesToEnd_iff (toParse : List Char) :
    ParsesToEnd toParse ↔ CommentsEnd toParse ∧ last toParse + 5 < 2 ^ 31 := by
  constructor
  · rintro ⟨htokens, -⟩
    constructor
    · intro i h0 hi hsharp
      by_contra hnone
      obtain ⟨enough, hends⟩ := htokens ⟨1, 0, i⟩ h0 (by show i ≤ _; omega)
      refine not_ends_of_comment h0 hsharp (fun j hij hj hend => ?_) (hends enough le_rfl)
      exact hnone ⟨j, hij, hj, hend⟩
    · by_contra hlarge
      obtain ⟨enough, hends⟩ := htokens ⟨1, 0, last toParse + 4⟩ (by show 0 ≤ _ + _; omega) le_rfl
      refine not_ends_of_behind ?_ ?_ ?_ (hends enough le_rfl) <;> dsimp only <;> omega
  · rintro ⟨hc, hfit⟩
    have henough : ∀ rounds ≥ (last toParse + 6).toNat + 1, Enough toParse rounds ∧ last toParse + 6 < rounds := by
      intro rounds hrounds
      exact ⟨⟨by omega, by omega⟩, by omega⟩
    constructor
    · intro s h0 hle
      refine ⟨_, fun rounds hrounds => (tokenizes hc h0 (by omega) (henough rounds hrounds).1).imp ?_⟩
      exact fun token t ht => ht.consumed
    · intro π cb strictMode parser
      refine ⟨(last toParse + 6).toNat + 1, fun rounds hrounds => ?_⟩
      obtain ⟨hr, hmore⟩ := henough rounds hrounds
      refine parseLoop_returns hc hfit hr (by omega) le_rfl (le_max_left ..) ?_
      show max 0 (last toParse + 5) - 0 < (rounds : ℤ)
      omega

/-- A comment in the last line, which has no end of line: `ParseConfig` does not end. -/
theorem not_parsesToEnd : ¬ ParsesToEnd ['#', ' '] ∧ ∀ rounds,
    ¬ Returns (parseConfig (⟨id, fun p _ => (p, none), fun p _ _ => (p, none)⟩ : ConfigCallbacks Unit) ['#', ' '] rounds
      true ()) Cursor.init := by
  have hrun : ∀ rounds, ¬ Returns (parseConfig (⟨id, fun p _ => (p, none), fun p _ _ => (p, none)⟩ :
      ConfigCallbacks Unit) ['#', ' '] rounds true ()) Cursor.init := by
    intro rounds h
    cases rounds with
    | zero => exact absurd h (by simp [Returns, parseConfig, parseLoop])
    | succ rounds =>
      refine not_ends_of_comment le_rfl (by decide) (fun j hj hle => ?_) (ends_bind.mp h)
      have hlast : last ['#', ' '] = 2 := by decide
      have hj0 : 0 < j := hj
      obtain rfl | rfl : j = 1 ∨ j = 2 := by omega
      · decide
      · decide
  refine ⟨fun h => ?_, hrun⟩
  obtain ⟨enough, hends⟩ := h.2 Unit ⟨id, fun p _ => (p, none), fun p _ _ => (p, none)⟩ true ()
  exact hrun enough (hends enough le_rfl)

end VcuCodec.CfgParsing
