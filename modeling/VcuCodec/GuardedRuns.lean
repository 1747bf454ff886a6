import Mathlib.Tactic.Common

/-!
# Runs of a partial step function

A system is a step function `step : σ → ι → Option σ`, where `none` is a fault.
`Guarded` asks each operation of a run to be allowed in the state it meets, and
the two rules below carry an invariant along such a run.
-/

namespace GuardedRuns

variable {σ ι : Type*} (step : σ → ι → Option σ)

/-- The state after the operations of a list, one after the other. -/
def run : List ι → σ → Option σ
  | [], s => some s
  | i :: is, s => (step s i).bind (run is)

/-- Every operation of the run is allowed where it happens. -/
def Guarded (allowed : σ → ι → Prop) : List ι → σ → Prop
  | [], _ => True
  | i :: is, s => allowed s i ∧ ∀ s', step s i = some s' → Guarded allowed is s'

variable {step} {allowed allowed' : σ → ι → Prop} {I : σ → Prop} {is is' : List ι} {s s' : σ}

theorem run_append : run step (is ++ is') s = (run step is s).bind (run step is') := by
  induction is generalizing s with
  | nil => rfl
  | cons i is ih =>
    rw [List.cons_append, run, run, Option.bind_assoc]
    exact congrArg _ (funext fun _ => ih)

theorem Guarded.of_append (h : Guarded step allowed (is ++ is') s) : Guarded step allowed is s := by
  induction is generalizing s with
  | nil => trivial
  | cons i is ih => exact ⟨h.1, fun s' hs => ih (h.2 s' hs)⟩

theorem Guarded.append_right (h : Guarded step allowed (is ++ is') s)
    (hr : run step is s = some s') : Guarded step allowed is' s' := by
  induction is generalizing s with
  | nil =>
    obtain rfl : s = s' := by simpa [run] using hr
    exact h
  | cons i is ih =>
    obtain ⟨t, ht, hr⟩ := Option.bind_eq_some_iff.mp hr
    exact ih (h.2 t ht) hr

theorem guarded_of_forall (h : ∀ s i, allowed s i) : Guarded step allowed is s := by
  induction is generalizing s with
  | nil => trivial
  | cons i is ih => exact ⟨h s i, fun _ _ => ih⟩

/-- A run can be checked by replaying it. -/
instance [∀ s i, Decidable (allowed s i)] : ∀ is s, Decidable (Guarded step allowed is s)
  | [], _ => isTrue trivial
  | i :: is, s =>
    match h : step s i with
    | none => decidable_of_iff (allowed s i) (by simp [Guarded, h])
    | some t =>
      have := instDecidableGuarded is t
      decidable_of_iff (allowed s i ∧ Guarded step allowed is t) (by simp [Guarded, h])

theorem invariant_of_run (hstep : ∀ s i s', I s → allowed s i → step s i = some s' → I s')
    (hI : I s) (hg : Guarded step allowed is s) (hr : run step is s = some s') : I s' := by
  induction is generalizing s with
  | nil =>
    obtain rfl : s = s' := by simpa [run] using hr
    exact hI
  | cons i is ih =>
    obtain ⟨t, ht, hr⟩ := Option.bind_eq_some_iff.mp hr
    exact ih (hstep s i t hI hg.1 ht) (hg.2 t ht) hr

theorem run_of_guarded (hstep : ∀ s i, I s → allowed s i → ∃ s', step s i = some s' ∧ I s')
    (hI : I s) (hg : Guarded step allowed is s) : ∃ s', run step is s = some s' ∧ I s' := by
  induction is generalizing s with
  | nil => exact ⟨s, rfl, hI⟩
  | cons i is ih =>
    obtain ⟨t, ht, hIt⟩ := hstep s i hI hg.1
    obtain ⟨s', hr, hI'⟩ := ih hIt (hg.2 t ht)
    exact ⟨s', by rw [run, ht, Option.bind_some, hr], hI'⟩

/-- If a step keeps the property exactly where it is allowed, every state of a
run has the property if and only if the run is guarded. -/
theorem invariant_iff_guarded
    (hstep : ∀ s i, I s → ((∀ s', step s i = some s' → I s') ↔ allowed s i)) (hI : I s) :
    (∀ is₁ is₂ s', is = is₁ ++ is₂ → run step is₁ s = some s' → I s') ↔
      Guarded step allowed is s := by
  induction is generalizing s with
  | nil =>
    refine ⟨fun _ => trivial, fun _ is₁ is₂ s' his hr => ?_⟩
    obtain ⟨rfl, -⟩ := List.append_eq_nil_iff.mp his.symm
    exact Option.some.inj hr ▸ hI
  | cons i is ih =>
    constructor
    · intro h
      have hnext : ∀ s', step s i = some s' → I s' := fun s' hs =>
        h [i] is s' rfl (by rw [run, hs, Option.bind_some, run])
      refine ⟨(hstep s i hI).mp hnext, fun s' hs => (ih (hnext s' hs)).mp ?_⟩
      intro is₁ is₂ t his hr
      exact h (i :: is₁) is₂ t (by rw [his, List.cons_append]) (by rw [run, hs, Option.bind_some, hr])
    · rintro ⟨hallowed, hrest⟩ is₁ is₂ t his hr
      cases is₁ with
      | nil => exact Option.some.inj hr ▸ hI
      | cons j is₁ =>
        obtain ⟨rfl, rfl⟩ := List.cons.inj his
        obtain ⟨s', hs, hr⟩ := Option.bind_eq_some_iff.mp hr
        have hI' := (hstep s i hI).mpr hallowed s' hs
        exact (ih hI').mpr (hrest s' hs) is₁ is₂ t rfl hr

end GuardedRuns
