import Mathlib.Data.List.Nodup
import Mathlib.Data.List.Perm.Basic
import Mathlib.Logic.Function.Basic
import Mathlib.Tactic.Common

/-!
# Pools of counted identifiers

A pool hands out identifiers from a list of free ones and counts the references
to each.  The last reference puts the identifier back.
-/

namespace CountedIds

variable {α : Type*}

/-- The free identifiers, and the references to each identifier. -/
structure Pool (α : Type*) where
  free : List α
  refs : α → ℕ

/-- One step of the pool. -/
inductive Step [DecidableEq α] (p : Pool α) : Pool α → Prop
  /-- The first free identifier gets its first reference. -/
  | take {x : α} {xs : List α} (hf : p.free = x :: xs) :
      Step p ⟨xs, Function.update p.refs x 1⟩
  /-- A reference is shared. -/
  | share {x : α} (hx : p.refs x ≠ 0) : Step p ⟨p.free, Function.update p.refs x (p.refs x + 1)⟩
  /-- A reference is dropped that is not the last one. -/
  | drop {x : α} (hx : 1 < p.refs x) : Step p ⟨p.free, Function.update p.refs x (p.refs x - 1)⟩
  /-- The last reference is dropped. -/
  | release {x : α} (hx : p.refs x = 1) : Step p ⟨x :: p.free, Function.update p.refs x 0⟩

/-- The identifiers `ids` are free, once each, or have references. -/
structure Counted (ids : List α) (p : Pool α) : Prop where
  nodup : p.free.Nodup
  free_iff : ∀ x, x ∈ p.free ↔ x ∈ ids ∧ p.refs x = 0
  mem : ∀ x, p.refs x ≠ 0 → x ∈ ids

variable [DecidableEq α] {ids : List α} {p q : Pool α} {x : α} {n : ℕ}

namespace Counted

theorem recount (h : Counted ids p) (hx : p.refs x ≠ 0) (hn : n ≠ 0) :
    Counted ids (⟨p.free, Function.update p.refs x n⟩ : Pool α) := by
  have hzero : ∀ y, Function.update p.refs x n y = 0 ↔ p.refs y = 0 := by
    intro y
    by_cases hy : y = x
    · simp [hy, hx, hn]
    · rw [Function.update_of_ne hy]
  refine ⟨h.nodup, fun y => ?_, fun y hy => h.mem y fun hzy => hy ((hzero y).mpr hzy)⟩
  rw [hzero y]
  exact h.free_iff y

theorem step (h : Counted ids p) (hs : Step p q) : Counted ids q := by
  cases hs with
  | @take x xs hf =>
    have hnd := h.nodup
    have hfree := h.free_iff
    rw [hf] at hnd hfree
    have hx : x ∉ xs := (List.nodup_cons.mp hnd).1
    refine ⟨(List.nodup_cons.mp hnd).2, fun y => ?_, fun y hy => ?_⟩
    · show y ∈ xs ↔ y ∈ ids ∧ Function.update p.refs x 1 y = 0
      by_cases hy : y = x
      · simp [hy, hx]
      · rw [Function.update_of_ne hy, ← hfree, List.mem_cons, or_iff_right hy]
    · by_cases hyx : y = x
      · rw [hyx]
        exact ((hfree x).mp List.mem_cons_self).1
      · exact h.mem y ((Function.update_of_ne hyx 1 p.refs).symm.trans_ne hy)
  | share hx => exact h.recount hx (Nat.succ_ne_zero _)
  | drop hx => exact h.recount (by omega) (by omega)
  | @release x hx =>
    have hin : x ∈ ids := h.mem x (by omega)
    have hout : x ∉ p.free := fun hmem => by
      have := ((h.free_iff x).mp hmem).2
      omega
    refine ⟨List.nodup_cons.mpr ⟨hout, h.nodup⟩, fun y => ?_, fun y hy => ?_⟩
    · show y ∈ x :: p.free ↔ y ∈ ids ∧ Function.update p.refs x 0 y = 0
      by_cases hy : y = x
      · simp [hy, hin]
      · rw [Function.update_of_ne hy, List.mem_cons, or_iff_right hy, h.free_iff]
    · by_cases hyx : y = x
      · exact hyx ▸ hin
      · exact h.mem y ((Function.update_of_ne hyx 0 p.refs).symm.trans_ne hy)

theorem length_add (h : Counted ids p) (hids : ids.Nodup) :
    p.free.length + (ids.filter fun x => p.refs x ≠ 0).length = ids.length := by
  have hperm : p.free.Perm (ids.filter fun x => p.refs x = 0) := by
    rw [List.perm_ext_iff_of_nodup h.nodup (hids.filter _)]
    intro x
    rw [h.free_iff, List.mem_filter, decide_eq_true_eq]
  have hsplit := List.length_eq_length_filter_add (l := ids) fun x => decide (p.refs x = 0)
  rw [hperm.length_eq, hsplit]
  simp

end Counted

end CountedIds
