import Mathlib.Tactic.Common

/-!
# Logs of events

A log is a list of events, the oldest first.  What is asked of an event may
depend on the events in front of it.
-/

namespace EventLogs

variable {ε : Type*} (P : List ε → ε → Prop)

/-- Every event of the log satisfies `P` behind the events in front of it. -/
def Lawful (log : List ε) : Prop := ∀ pre e post, log = pre ++ e :: post → P pre e

variable {P} {log : List ε} {e : ε}

theorem lawful_nil : Lawful P [] := by
  intro pre e post h
  simp at h

theorem Lawful.append (h : Lawful P log) (he : P log e) : Lawful P (log ++ [e]) := by
  intro pre x post hsplit
  rcases List.eq_nil_or_concat post with rfl | ⟨post, y, rfl⟩
  · obtain ⟨rfl, heq⟩ := List.append_inj' hsplit rfl
    obtain rfl : e = x := by simpa using heq
    exact he
  · rw [List.concat_eq_append, ← List.cons_append, ← List.append_assoc] at hsplit
    obtain ⟨rfl, -⟩ := List.append_inj' hsplit rfl
    exact h pre x post rfl

end EventLogs
