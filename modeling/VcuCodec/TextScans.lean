import Mathlib.Data.List.Basic
import Mathlib.Data.List.TakeWhile
import Mathlib.Tactic.Common

/-!
# Scanners over a buffer of text

A scanner gets what a buffer holds from its place on, and its result is `none` where it reads
behind that.  `span` runs over the characters of a class, `skipTo` up to a separator, `find`
looks for a word.  Scanners that a NUL stops do not see what lies behind the first one.
-/

namespace TextScans

/-- The characters of a class in front, and what follows them. -/
def span (p : Char → Bool) : List Char → Option (List Char × List Char)
  | [] => none
  | ch :: s => if p ch then (span p s).map fun r => (ch :: r.1, r.2) else some ([], ch :: s)

/-- Behind the first separator. -/
def skipTo (sep : Char) : List Char → Option (List Char)
  | [] => none
  | ch :: s => if ch = sep then some s else skipTo sep s

/-- Behind the first separator that is not at the very place. -/
def pastNext (sep : Char) (s : List Char) : Option (List Char) := skipTo sep s.tail

/-- Looks for `word`, of which `missing` is still to come: what follows it, or nothing if a NUL
comes first.  A mismatch starts over with the next character. -/
def find (word : List Char) : (missing : List Char) → List Char → Option (Option (List Char))
  | [], s => some (some s)
  | _ :: _, [] => none
  | c :: missing, ch :: s =>
    if ch = '\x00' then some none
    else if ch = c then find word missing s
    else find word word s

/-- No character up to the first NUL is in the class. -/
def isFree (p : Char → Bool) : List Char → Option Bool
  | [] => none
  | ch :: s => if ch = '\x00' then some true else if p ch then some false else isFree p s

variable {p : Char → Bool} {sep : Char} {s t a b : List Char}

theorem span_eq (h : ∃ c ∈ s, p c = false) : span p s = some (s.takeWhile p, s.dropWhile p) := by
  induction s with
  | nil => simp at h
  | cons ch s ih =>
    by_cases hp : p ch
    · have hs : ∃ c ∈ s, p c = false := by
        obtain ⟨c, hc, hcp⟩ := h
        rcases List.mem_cons.mp hc with rfl | hc
        · rw [hp] at hcp
          cases hcp
        · exact ⟨c, hc, hcp⟩
      simp [span, hp, ih hs]
    · simp [span, hp]

theorem span_local (h : ∃ c ∈ s, p c = false) :
    span p (s ++ t) = (span p s).map fun r => (r.1, r.2 ++ t) := by
  induction s with
  | nil => simp at h
  | cons ch s ih =>
    by_cases hp : p ch
    · have hs : ∃ c ∈ s, p c = false := by
        obtain ⟨c, hc, hcp⟩ := h
        rcases List.mem_cons.mp hc with rfl | hc
        · rw [hp] at hcp
          cases hcp
        · exact ⟨c, hc, hcp⟩
      simp [span, hp, ih hs, Function.comp_def]
    · simp [span, hp]

theorem mem_dropWhile {c : Char} (hc : c ∈ s) (hp : p c = false) : c ∈ s.dropWhile p := by
  induction s with
  | nil => cases hc
  | cons ch s ih =>
    by_cases hch : p ch
    · rw [List.dropWhile_cons_of_pos hch]
      rcases List.mem_cons.mp hc with rfl | hc
      · rw [hch] at hp
        cases hp
      · exact ih hc
    · rwa [List.dropWhile_cons_of_neg hch]

theorem skipTo_eq_some (h : skipTo sep s = some t) : ∃ a, s = a ++ sep :: t := by
  induction s with
  | nil => cases h
  | cons ch s ih =>
    unfold skipTo at h
    split_ifs at h with hch
    · cases h
      exact ⟨[], by rw [hch]; rfl⟩
    · obtain ⟨a, ha⟩ := ih h
      exact ⟨ch :: a, by rw [ha]; rfl⟩

theorem skipTo_suffix (h : a ++ sep :: b = s) : ∃ c, skipTo sep s = some (c ++ b) := by
  induction a generalizing s with
  | nil =>
    rw [← h]
    exact ⟨[], by simp [skipTo]⟩
  | cons x a ih =>
    rw [← h, List.cons_append, skipTo]
    split_ifs
    · exact ⟨a ++ [sep], by simp⟩
    · exact ih rfl

theorem pastNext_eq_some (h : pastNext sep s = some t) : ∃ a, a ≠ [] ∧ s = a ++ sep :: t := by
  cases s with
  | nil => cases h
  | cons x s =>
    obtain ⟨a, ha⟩ := skipTo_eq_some h
    exact ⟨x :: a, List.cons_ne_nil x a, congrArg (x :: ·) ha⟩

theorem pastNext_suffix (sep : Char) (ha : a ≠ []) : ∃ c, pastNext sep (a ++ sep :: b) = some (c ++ b) := by
  cases a with
  | nil => exact absurd rfl ha
  | cons x a => exact skipTo_suffix rfl

end TextScans
