import VcuCodec.RoiFileRuns

/-!
# Well-formed region-of-interest files

A header is the word `frame` and a number, a region `x:y, wxh, quality`, with blanks in front of
each value; lines without letters and digits may stand anywhere.
-/

namespace VcuCodec

namespace RoiFile

open TextScans

/-! ## The format -/

def Blanks (s : List Char) : Prop := ∀ ch ∈ s, ch = ' ' ∨ ch = '\t'

/-- A decimal number that fits an `int`. -/
structure Numeral (s : List Char) (v : ℤ) : Prop where
  ne : s ≠ []
  digits : ∀ ch ∈ s, isDigit ch = true
  value : decimal s = v
  lt : v < 2 ^ 31

/-- A word for a quality, or a number. -/
def QualityText (s : List Char) (q : ℤ) : Prop :=
  (s, q) ∈ qualityWords ∨ Numeral s q ∨ ∃ digits v, s = '-' :: digits ∧ Numeral digits v ∧ q = -v

inductive Item
  | header (iFrameID : ℤ)
  | roi (a : RoiMngr.Addition)
  | empty

/-- How the lines of a file are spelled. -/
inductive Spells : List Char → Item → Prop
  | header {blanks num tail : List Char} {iFrameID : ℤ} (hblanks : Blanks blanks)
      (hnum : Numeral num iFrameID) (htail : ∀ ch ∈ tail.head?, isDigit ch = false)
      (hnul : '\x00' ∉ tail) :
      Spells ("frame".toList ++ (blanks ++ (num ++ tail))) (.header iFrameID)
  | roi {b₁ b₂ b₃ b₄ b₅ x y w h q : List Char} {iPosX iPosY iWidth iHeight eQuality : ℤ}
      (hb : Blanks b₁ ∧ Blanks b₂ ∧ Blanks b₃ ∧ Blanks b₄ ∧ Blanks b₅)
      (hx : Numeral x iPosX) (hy : Numeral y iPosY) (hw : Numeral w iWidth)
      (hh : Numeral h iHeight) (hq : QualityText q eQuality) :
      Spells ((b₁ ++ x) ++ ':' :: ((b₂ ++ y) ++ ',' :: ((b₃ ++ w) ++ 'x' :: ((b₄ ++ h) ++
        ',' :: (b₅ ++ q))))) (.roi ⟨iPosX, iPosY, iWidth, iHeight, eQuality, true⟩)
  | empty {s : List Char} (h : ∀ ch ∈ s, isAlnum ch = false ∧ ch ≠ '\x00') : Spells s .empty

/-- The file with what its lines spell. -/
def WellFormed (text : List Char) (items : List Item) : Prop :=
  List.Forall₂ (fun l item => l.length ≤ 255 ∧ Spells l item) (lines text) items

variable {i iFrameID v : ℤ} {s t sLine l a b : List Char} {c : RoiMngr}

/-! ## Scanning -/

theorem Blanks.isBlank (h : Blanks s) {ch : Char} (hch : ch ∈ s) : RoiFile.isBlank ch = true := by
  rcases h ch hch with rfl | rfl <;> rfl

theorem isBlank_of_isDigit {ch : Char} (h : isDigit ch = true) : isBlank ch = false := by
  by_contra hblank
  have hmem : ch ∈ [' ', '\t', '\n', '\x0b', '\x0c', '\x0d'] :=
    of_decide_eq_true (Bool.eq_true_of_not_eq_false hblank)
  have hnot : ∀ x ∈ [' ', '\t', '\n', '\x0b', '\x0c', '\x0d'], isDigit x = false := by
    simp only [List.forall_mem_cons, List.not_mem_nil, false_implies, implies_true, and_true]
    decide
  rw [hnot ch hmem] at h
  cases h

theorem isDigit_ne {ch x : Char} (h : isDigit ch = true) (hx : isDigit x = false) : ch ≠ x := by
  intro he
  rw [he, hx] at h
  cases h

theorem sign_digit {ch : Char} (h : isDigit ch = true) : sign (ch :: s) = (false, ch :: s) := by
  unfold sign
  split
  · next he => exact absurd (List.cons.inj he).1 (isDigit_ne h rfl)
  · next he => exact absurd (List.cons.inj he).1 (isDigit_ne h rfl)
  · rfl

theorem decimal_nonneg (digits : List Char) : 0 ≤ decimal digits := by
  have h : ∀ n : ℤ, 0 ≤ n →
      0 ≤ digits.foldl (fun (n : ℤ) ch => 10 * n + (ch.toNat - '0'.toNat : ℕ)) n := by
    induction digits with
    | nil => exact fun n hn => hn
    | cons ch digits ih => exact fun n hn => ih _ (by dsimp only; omega)
  exact h 0 le_rfl

theorem Numeral.nonneg (h : Numeral s v) : 0 ≤ v := h.value ▸ decimal_nonneg s

theorem clip3_of_mem {x lo hi : ℤ} (h : lo ≤ x ∧ x ≤ hi) : RoiMngr.clip3 x lo hi = x := by
  unfold RoiMngr.clip3
  split_ifs <;> omega

/-- The first character of a quality is no blank, and none of it ends the word. -/
theorem QualityText.word {q : ℤ} (h : QualityText s q) :
    (∃ d u, s = d :: u ∧ d ∉ [' ', '\t', '=']) ∧ ∀ ch ∈ s, ch ≠ ',' ∧ ch ≠ '\x00' ∧ ch ≠ 'f' := by
  have hnumeral : ∀ {s v}, Numeral s v → (∃ d u, s = d :: u ∧ d ∉ [' ', '\t', '=']) ∧
      ∀ ch ∈ s, ch ≠ ',' ∧ ch ≠ '\x00' ∧ ch ≠ 'f' := by
    intro s v hs
    constructor
    · cases s with
      | nil => exact absurd rfl hs.ne
      | cons d u =>
        refine ⟨d, u, rfl, fun hd => ?_⟩
        have hnot : ∀ x ∈ [' ', '\t', '='], isDigit x = false := by
          simp only [List.forall_mem_cons, List.not_mem_nil, false_implies, implies_true, and_true]
          decide
        exact isDigit_ne (hs.digits d List.mem_cons_self) (hnot d hd) rfl
    · intro ch hch
      have hd := hs.digits ch hch
      exact ⟨isDigit_ne hd rfl, isDigit_ne hd rfl, isDigit_ne hd rfl⟩
  rcases h with hword | hs | ⟨digits, v, rfl, hs, -⟩
  · have hall : ∀ x ∈ qualityWords, (∃ d u, x.1 = d :: u ∧ d ∉ [' ', '\t', '=']) ∧
        ∀ ch ∈ x.1, ch ≠ ',' ∧ ch ≠ '\x00' ∧ ch ≠ 'f' := by
      intro x hx
      simp only [qualityWords, List.mem_cons, List.not_mem_nil, or_false] at hx
      rcases hx with rfl | rfl | rfl | rfl | rfl <;> exact ⟨⟨_, _, rfl, by decide⟩, by simp⟩
    exact hall (s, q) hword
  · exact hnumeral hs
  · refine ⟨⟨'-', digits, rfl, by decide⟩, ?_⟩
    intro ch hch
    rcases List.mem_cons.mp hch with rfl | hch
    · decide
    · exact (hnumeral hs).2 ch hch

theorem lookup_number {d : Char} {u : List Char} (hd : isDigit d = true ∨ d = '-') :
    qualityWords.lookup (d :: u) = none := by
  have hwords : ∀ x ∈ qualityWords, ∀ ch ∈ x.1.head?, isDigit ch = false ∧ ch ≠ '-' := by
    simp [qualityWords, isDigit]
  rw [List.lookup_eq_none_iff]
  intro x hx
  simp only [bne_iff_ne, ne_eq]
  intro he
  obtain ⟨hdigit, hminus⟩ := hwords x hx d (by rw [← he]; rfl)
  rcases hd with hd | hd
  · rw [hd] at hdigit
    cases hdigit
  · exact hminus hd

theorem extractInt_numeral (i : ℤ) (h : Numeral s v) : extractInt i s = v := by
  have hnonneg := h.nonneg
  have hlt := h.lt
  have htake : s.takeWhile isDigit = s := List.takeWhile_eq_self_iff.mpr h.digits
  cases s with
  | nil => exact absurd rfl h.ne
  | cons d s =>
    have hd : isDigit d = true := h.digits d List.mem_cons_self
    have hdrop : (d :: s).dropWhile isBlank = d :: s :=
      List.dropWhile_cons_of_neg (by rw [isBlank_of_isDigit hd]; exact Bool.false_ne_true)
    rw [extractInt, hdrop]
    simp only [sign_digit hd, htake, h.value, signed, Bool.false_eq_true, if_false]
    exact clip3_of_mem (by omega)

theorem extractInt_negative (i : ℤ) (h : Numeral s v) : extractInt i ('-' :: s) = -v := by
  have hnonneg := h.nonneg
  have hlt := h.lt
  have htake : s.takeWhile isDigit = s := List.takeWhile_eq_self_iff.mpr h.digits
  have hdrop : ('-' :: s).dropWhile isBlank = '-' :: s := rfl
  rw [extractInt, hdrop]
  simp only [sign, htake, h.value, signed, if_true]
  exact clip3_of_mem (by omega)

theorem QualityText.value {q : ℤ} (i : ℤ) (h : QualityText s q) :
    (qualityWords.lookup s).getD (extractInt i s) = q := by
  rcases h with hword | hs | ⟨digits, v, rfl, hs, rfl⟩
  · simp only [qualityWords, List.mem_cons, List.not_mem_nil, or_false, Prod.mk.injEq] at hword
    rcases hword with ⟨rfl, rfl⟩ | ⟨rfl, rfl⟩ | ⟨rfl, rfl⟩ | ⟨rfl, rfl⟩ | ⟨rfl, rfl⟩ <;> rfl
  · cases s with
    | nil => exact absurd rfl hs.ne
    | cons d u =>
      rw [lookup_number (Or.inl (hs.digits d List.mem_cons_self))]
      exact extractInt_numeral i hs
  · rw [lookup_number (Or.inr rfl)]
    exact extractInt_negative i hs

end RoiFile

end VcuCodec
