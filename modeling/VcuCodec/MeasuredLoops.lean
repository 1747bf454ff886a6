import Mathlib.Order.Basic
import Mathlib.Tactic.Common

/-!
# Loops

The body of a loop either goes on with a new state or leaves with a result.
`loop` runs it for a number of rounds and may be cut short; `run` runs a loop
with a measure to its end.
-/

namespace MeasuredLoops

variable {σ τ : Type*}

/-! ## Loops that may not end -/

/-- The result of a loop after at most `fuel` rounds. -/
def loop (body : σ → σ ⊕ τ) : ℕ → σ → Option τ
  | 0, _ => none
  | fuel + 1, s =>
    match body s with
    | .inl s' => loop body fuel s'
    | .inr t => some t

theorem loop_eq_none {body : σ → σ ⊕ τ} (I : σ → Prop)
    (hstep : ∀ s, I s → ∃ s', body s = .inl s' ∧ I s') (fuel : ℕ) {s : σ} (hs : I s) :
    loop body fuel s = none := by
  induction fuel generalizing s with
  | zero => rfl
  | succ fuel ih =>
    obtain ⟨s', hb, hs'⟩ := hstep s hs
    simp only [loop, hb]
    exact ih hs'

/-- A loop whose body lowers a measure, kept above `I`, ends within that many
rounds. -/
theorem loop_rule {body : σ → σ ⊕ τ} (I : σ → Prop) (Q : τ → Prop) (m : σ → ℕ)
    (hinl : ∀ s s', I s → body s = .inl s' → I s' ∧ m s' < m s)
    (hinr : ∀ s t, I s → body s = .inr t → Q t) {fuel : ℕ} {s : σ} (hs : I s) (hm : m s < fuel) :
    ∃ t, loop body fuel s = some t ∧ Q t := by
  induction fuel generalizing s with
  | zero => omega
  | succ fuel ih =>
    unfold loop
    cases hb : body s with
    | inl s' =>
      obtain ⟨hs', hlt⟩ := hinl s s' hs hb
      exact ih hs' (by omega)
    | inr t => exact ⟨t, rfl, hinr s t hs hb⟩

/-! ## Loops with a measure -/

/-- The rounds of a loop: each lowers the measure, which is below `fuel`. -/
def go (body : σ → σ ⊕ τ) (m : σ → ℕ) (h : ∀ s s', body s = .inl s' → m s' < m s) :
    (fuel : ℕ) → (s : σ) → m s < fuel → τ
  | fuel + 1, s, hs =>
    match hb : body s with
    | .inr t => t
    | .inl s' => go body m h fuel s' (by have := h s s' hb; omega)

/-- The result of a loop whose body lowers `m`. -/
def run (body : σ → σ ⊕ τ) (m : σ → ℕ) (h : ∀ s s', body s = .inl s' → m s' < m s) (s : σ) : τ :=
  go body m h (m s + 1) s (Nat.lt_succ_self _)

variable {body : σ → σ ⊕ τ} {m : σ → ℕ} (h : ∀ s s', body s = .inl s' → m s' < m s)

theorem go_rule (I : σ → Prop) (Q : τ → Prop) (hinl : ∀ s s', I s → body s = .inl s' → I s')
    (hinr : ∀ s t, I s → body s = .inr t → Q t) (fuel : ℕ) {s : σ} (hs : I s) (hf : m s < fuel) :
    Q (go body m h fuel s hf) := by
  induction fuel generalizing s with
  | zero => omega
  | succ fuel ih =>
    unfold go
    split
    · next t hb => exact hinr s t hs hb
    · next s' hb => exact ih (hinl s s' hs hb) _

theorem run_rule (I : σ → Prop) (Q : τ → Prop) (hinl : ∀ s s', I s → body s = .inl s' → I s')
    (hinr : ∀ s t, I s → body s = .inr t → Q t) {s : σ} (hs : I s) : Q (run body m h s) :=
  go_rule h I Q hinl hinr _ hs _

theorem go_congr (fuel fuel' : ℕ) {s : σ} (hf : m s < fuel) (hf' : m s < fuel') :
    go body m h fuel s hf = go body m h fuel' s hf' := by
  induction fuel generalizing fuel' s with
  | zero => omega
  | succ fuel ih =>
    cases fuel' with
    | zero => omega
    | succ fuel' =>
      unfold go
      split
      · rfl
      · exact ih fuel' _ _

theorem run_of_inr {s : σ} {t : τ} (hb : body s = .inr t) : run body m h s = t := by
  unfold run go
  split
  · next t' hb' => simpa [hb] using hb'.symm
  · next s' hb' => simp [hb] at hb'

theorem run_of_inl {s s' : σ} (hb : body s = .inl s') : run body m h s = run body m h s' := by
  unfold run
  rw [go]
  split
  · next t' hb' => simp [hb] at hb'
  · next s'' hb' =>
    obtain rfl : s' = s'' := by simpa [hb] using hb'
    exact go_congr h _ _ _ _

end MeasuredLoops
