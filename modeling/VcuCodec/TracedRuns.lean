import Mathlib.Tactic.Common

/-!
# Runs with output

An implementation is a partial step function with an output for each input, a
specification a total one.  `trace_eq` compares what a run of the two puts out:
a relation between their states that every allowed step keeps, with equal
outputs, makes the outputs of the runs equal.
-/

namespace TracedRuns

variable {σ τ ι ω ο : Type*}

/-- The outputs of a run, where `none` is a fault. -/
def trace (step : σ → ι → Option (σ × ω)) : List ι → σ → Option (List ω)
  | [], _ => some []
  | i :: is, s => (step s i).bind fun r => (trace step is r.1).map (r.2 :: ·)

/-- The outputs of the specification. -/
def outputs (spec : τ → ι → τ × ο) : List ι → τ → List ο
  | [], _ => []
  | i :: is, t => (spec t i).2 :: outputs spec is (spec t i).1

/-- Each input of the run is allowed in the state the specification meets it in. -/
def Along (spec : τ → ι → τ × ο) (allowed : τ → ι → Prop) : List ι → τ → Prop
  | [], _ => True
  | i :: is, t => allowed t i ∧ Along spec allowed is (spec t i).1

instance (spec : τ → ι → τ × ο) (allowed : τ → ι → Prop) [∀ t i, Decidable (allowed t i)] :
    ∀ is t, Decidable (Along spec allowed is t)
  | [], _ => isTrue trivial
  | i :: is, t =>
    have := instDecidableAlong spec allowed is (spec t i).1
    inferInstanceAs (Decidable (_ ∧ _))

variable {step : σ → ι → Option (σ × ω)} {spec : τ → ι → τ × ο} {allowed : τ → ι → Prop}

theorem trace_cons {i : ι} {is : List ι} {s : σ} {os : List ω}
    (h : trace step (i :: is) s = some os) :
    ∃ s' o os', step s i = some (s', o) ∧ trace step is s' = some os' ∧ os = o :: os' := by
  obtain ⟨⟨s', o⟩, hs, hr⟩ := Option.bind_eq_some_iff.mp h
  obtain ⟨os', ht, ho⟩ := Option.map_eq_some_iff.mp hr
  exact ⟨s', o, os', hs, ht, ho.symm⟩

/-- Outputs agree along a simulation; `view` is what is compared. -/
theorem trace_eq (R : σ → τ → Prop) (view : ω → ο)
    (hstep : ∀ s t i s' o, R s t → allowed t i → step s i = some (s', o) →
      view o = (spec t i).2 ∧ R s' (spec t i).1)
    {is : List ι} {s : σ} {t : τ} {os : List ω} (hR : R s t) (ha : Along spec allowed is t)
    (hr : trace step is s = some os) : os.map view = outputs spec is t := by
  induction is generalizing s t os with
  | nil =>
    obtain rfl : os = [] := by simpa [trace] using hr.symm
    rfl
  | cons i is ih =>
    obtain ⟨s', o, os', hs, ht, rfl⟩ := trace_cons hr
    obtain ⟨ho, hR'⟩ := hstep s t i s' o hR ha.1 hs
    rw [List.map_cons, outputs, ho, ih hR' ha.2 ht]

theorem outputs_eq {impl : σ → ι → σ × ο} (R : σ → τ → Prop)
    (hstep : ∀ s t i, R s t → allowed t i →
      (impl s i).2 = (spec t i).2 ∧ R (impl s i).1 (spec t i).1)
    {is : List ι} {s : σ} {t : τ} (hR : R s t) (ha : Along spec allowed is t) :
    outputs impl is s = outputs spec is t := by
  induction is generalizing s t with
  | nil => rfl
  | cons i is ih =>
    obtain ⟨ho, hR'⟩ := hstep s t i hR ha.1
    rw [outputs, outputs, ho, ih hR' ha.2]

end TracedRuns
