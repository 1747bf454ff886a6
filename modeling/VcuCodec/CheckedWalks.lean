import VcuCodec.CheckedRuns
import VcuCodec.LinkedLists

/-!
# Walks over linked lists that check

A loop over the indices of a linked list as a checked run, and the same loop over
the list that the links spell out.
-/

namespace CheckedRuns.Checked

open LinkedLists

variable {σ ι β : Type}

/-- The loop over the elements of a list. -/
def each (body : ι → β → Checked σ β) : List ι → β → Checked σ β
  | [], b => pure b
  | x :: l, b => body x b >>= each body l

variable {body : ι → β → Checked σ β} {l : List ι}

/-- A loop whose rounds need no more room than what they have made. -/
theorem endsIff_each {fits : β → Prop} {f : β → ι → β}
    (hbody : ∀ x ∈ l, ∀ b s, fits b → EndsIff (fits (f b x)) (body x b) s fun b' _ => b' = f b x)
    (hfits : ∀ b x, fits (f b x) → fits b) {b : β} (hb : fits b) (s : σ) :
    EndsIff (fits (l.foldl f b)) (each body l b) s fun b' _ => b' = l.foldl f b := by
  induction l generalizing b s with
  | nil => exact ⟨fun _ => (ends_pure b).mpr rfl, fun _ => hb⟩
  | cons x l ih =>
    have hrest : ∀ (l : List ι) (b : β), fits (l.foldl f b) → fits b := by
      intro l
      induction l with
      | nil => exact fun b hl => hl
      | cons y l ih => exact fun b hl => hfits b y (ih _ hl)
    have hx := hbody x List.mem_cons_self b s hb
    refine (hx.bind (ψ := fits (l.foldl f (f b x))) fun b' s' hfit hb' => ?_).congr ?_
    · rw [hb']
      exact ih (fun y hy => hbody y (List.mem_cons_of_mem _ hy)) hfit s'
    · exact ⟨fun h => h.2, fun h => ⟨hrest l _ h, h⟩⟩

variable [DecidableEq ι]

/-- `while(u != nil) { ...; u = next(u); }` -/
def walk (nil : ι) (next : ι → ι) (body : ι → β → Checked σ β) : (fuel : ℕ) → ι → β → Checked σ β
  | 0, _, _ => stuck .unfinished
  | fuel + 1, u, b =>
    if u = nil then pure b else body u b >>= walk nil next body fuel (next u)

variable {next prev : ι → ι}

/-- A walk goes through the list that the links spell out. -/
theorem walk_eq_each {nil p : ι}
    (h : Segment next prev p l nil) (hnil : nil ∉ l) {fuel : ℕ} (hfuel : l.length < fuel) (b : β) :
    walk nil next body fuel (l.headD nil) b = each body l b := by
  induction l generalizing p fuel b with
  | nil =>
    cases fuel with
    | zero => omega
    | succ fuel => exact if_pos rfl
  | cons x l ih =>
    obtain ⟨-, hnext, hrest⟩ := h
    rw [List.mem_cons, not_or] at hnil
    rw [List.length_cons] at hfuel
    cases fuel with
    | zero => omega
    | succ fuel =>
      have hx : ¬(x :: l).headD nil = nil := fun hx => hnil.1 hx.symm
      rw [walk, if_neg hx]
      change body x b >>= walk nil next body fuel (next x) = body x b >>= each body l
      rw [hnext]
      congr 1
      funext b'
      exact ih hrest hnil.2 (by omega) b'

/-- The elements that a walk goes through. -/
def trail (nil : ι) (next : ι → ι) : (fuel : ℕ) → ι → List ι
  | 0, _ => []
  | fuel + 1, u => if u = nil then [] else u :: trail nil next fuel (next u)

theorem trail_eq {nil p : ι} (h : Segment next prev p l nil)
    (hnil : nil ∉ l) {fuel : ℕ} (hfuel : l.length ≤ fuel) : trail nil next fuel (l.headD nil) = l := by
  induction l generalizing p fuel with
  | nil =>
    cases fuel with
    | zero => rfl
    | succ fuel => exact if_pos rfl
  | cons x l ih =>
    obtain ⟨-, hnext, hrest⟩ := h
    rw [List.mem_cons, not_or] at hnil
    rw [List.length_cons] at hfuel
    cases fuel with
    | zero => omega
    | succ fuel =>
      have hx : ¬(x :: l).headD nil = nil := fun hx => hnil.1 hx.symm
      rw [trail, if_neg hx]
      change x :: trail nil next fuel (next x) = x :: l
      rw [hnext, ih hrest hnil.2 (by omega)]

end CheckedRuns.Checked
