import Mathlib.Data.Set.Insert
import Mathlib.Logic.Function.Basic

/-!
# Ledgers

Objects that are acquired under new names and released.  `Holds` says which of them are held:
those were never released, and every other one exactly once.
-/

namespace Ledgers

/-- How many objects were acquired, which are named in this order, and how often each was
released. -/
structure Ledger where
  acquired : ℕ
  releases : ℕ → ℕ

namespace Ledger

def init : Ledger := ⟨0, fun _ => 0⟩

def acquire (l : Ledger) : Ledger := { l with acquired := l.acquired + 1 }

def release (l : Ledger) (x : ℕ) : Ledger :=
  { l with releases := Function.update l.releases x (l.releases x + 1) }

structure Holds (l : Ledger) (held : Set ℕ) : Prop where
  lt : ∀ x ∈ held, x < l.acquired
  unreleased : ∀ x ∈ held, l.releases x = 0
  released : ∀ x < l.acquired, x ∉ held → l.releases x = 1
  unknown : ∀ x, l.acquired ≤ x → l.releases x = 0

namespace Holds

variable {l : Ledger} {held held' : Set ℕ} {x : ℕ}

theorem init : Ledger.init.Holds ∅ := by
  constructor <;> simp [Ledger.init]

theorem congr (h : l.Holds held) (hset : ∀ x, x ∈ held' ↔ x ∈ held) : l.Holds held' := by
  rwa [Set.ext hset]

theorem acquire (h : l.Holds held) : l.acquire.Holds (insert l.acquired held) where
  lt := by
    intro x hx
    rcases Set.mem_insert_iff.mp hx with rfl | hx
    · exact Nat.lt_succ_self _
    · exact Nat.lt_succ_of_lt (h.lt x hx)
  unreleased := by
    intro x hx
    rcases Set.mem_insert_iff.mp hx with rfl | hx
    · exact h.unknown _ le_rfl
    · exact h.unreleased x hx
  released := by
    intro x hlt hx
    rw [Set.mem_insert_iff, not_or] at hx
    exact h.released x (lt_of_le_of_ne (Nat.le_of_lt_succ hlt) hx.1) hx.2
  unknown := fun x hx => h.unknown x (Nat.le_of_succ_le hx)

theorem release (h : l.Holds held) (hx : x ∈ held) : (l.release x).Holds {y | y ∈ held ∧ y ≠ x} where
  lt := fun y hy => h.lt y hy.1
  unreleased := by
    intro y hy
    exact (Function.update_of_ne hy.2 ..).trans (h.unreleased y hy.1)
  released := by
    intro y hlt hy
    by_cases heq : y = x
    · rw [heq]
      exact (Function.update_self ..).trans (congrArg (· + 1) (h.unreleased x hx))
    · exact (Function.update_of_ne heq ..).trans (h.released y hlt fun hmem => hy ⟨hmem, heq⟩)
  unknown := by
    intro y hy
    have hne : y ≠ x := fun heq => absurd (h.lt x hx) (Nat.not_lt.mpr (heq ▸ hy))
    exact (Function.update_of_ne hne ..).trans (h.unknown y hy)

theorem le_one (h : l.Holds held) (x : ℕ) : l.releases x ≤ 1 := by
  rcases Nat.lt_or_ge x l.acquired with hlt | hge
  · by_cases hx : x ∈ held
    · simp [h.unreleased x hx]
    · simp [h.released x hlt hx]
  · simp [h.unknown x hge]

end Holds

end Ledger

end Ledgers
