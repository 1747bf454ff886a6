import Mathlib.Data.List.Basic
import Mathlib.Algebra.BigOperators.Group.List.Basic
import Mathlib.Algebra.GroupWithZero.Nat
import Mathlib.Tactic.Common

/-!
# Copies between blocks of memory

A block is the list of its elements.  A copy of a length that does not come from the
blocks is a fault, `none`, if it goes past the end of one of them.
-/

namespace CheckedCopies

variable {α : Type*} {dst src out : List α} {pos size : ℕ} {parts : List (List α × ℕ)}

/-- The first `size` elements of `src` are copied to `dst` from `pos` on. -/
def copy (dst : List α) (pos : ℕ) (src : List α) (size : ℕ) : Option (List α) :=
  if size ≤ src.length ∧ pos + size ≤ dst.length then
    some (dst.take pos ++ (src.take size ++ dst.drop (pos + size)))
  else none

theorem copy_eq_some_iff : copy dst pos src size = some out ↔
    (size ≤ src.length ∧ pos + size ≤ dst.length) ∧
      dst.take pos ++ (src.take size ++ dst.drop (pos + size)) = out := by
  unfold copy
  rw [Option.ite_none_right_eq_some, Option.some.injEq]

theorem length_copy (h : copy dst pos src size = some out) : out.length = dst.length := by
  obtain ⟨⟨hsrc, hdst⟩, rfl⟩ := copy_eq_some_iff.mp h
  rw [List.length_append, List.length_append, List.length_take, List.length_take, List.length_drop]
  omega

theorem take_copy (h : copy dst pos src size = some out) : out.take (pos + size) = dst.take pos ++ src.take size := by
  obtain ⟨⟨hsrc, hdst⟩, rfl⟩ := copy_eq_some_iff.mp h
  rw [← List.append_assoc]
  apply List.take_left'
  rw [List.length_append, List.length_take, List.length_take]
  omega

theorem drop_copy {k : ℕ} (h : copy dst pos src size = some out) (hk : pos + size ≤ k) : out.drop k = dst.drop k := by
  obtain ⟨⟨hsrc, hdst⟩, rfl⟩ := copy_eq_some_iff.mp h
  have hlen : (dst.take pos ++ src.take size).length = pos + size := by
    rw [List.length_append, List.length_take, List.length_take]
    omega
  rw [← List.append_assoc, List.drop_append, List.drop_eq_nil_of_le (by omega), hlen, List.nil_append,
    List.drop_drop, Nat.add_sub_cancel' hk]

/-- The parts are copied one behind the other. -/
def fill (dst : List α) (pos : ℕ) : List (List α × ℕ) → Option (List α)
  | [] => some dst
  | (src, size) :: parts => (copy dst pos src size).bind fun dst => fill dst (pos + size) parts

/-- What is copied of the parts. -/
def copied (parts : List (List α × ℕ)) : List α := parts.flatMap fun part => part.1.take part.2

/-- How many elements the copies have. -/
def total (parts : List (List α × ℕ)) : ℕ := (parts.map Prod.snd).sum

@[simp] theorem copied_nil : copied ([] : List (List α × ℕ)) = [] := rfl

@[simp] theorem copied_cons : copied ((src, size) :: parts) = src.take size ++ copied parts := List.flatMap_cons

@[simp] theorem total_nil : total ([] : List (List α × ℕ)) = 0 := rfl

@[simp] theorem total_cons : total ((src, size) :: parts) = size + total parts := List.sum_cons

/-- A block is filled exactly if every part has its elements and the block has room. -/
theorem fill_eq_some_iff : fill dst pos parts = some out ↔
    ((∀ part ∈ parts, part.2 ≤ part.1.length) ∧ (parts ≠ [] → pos + total parts ≤ dst.length)) ∧
      dst.take pos ++ (copied parts ++ dst.drop (pos + total parts)) = out := by
  induction parts generalizing dst pos with
  | nil =>
    show some dst = some out ↔ _
    rw [Option.some.injEq]
    show _ ↔ _ ∧ dst.take pos ++ dst.drop pos = out
    rw [List.take_append_drop]
    exact ⟨fun h => ⟨⟨nofun, fun hne => absurd rfl hne⟩, h⟩, And.right⟩
  | cons part parts ih =>
    obtain ⟨src, size⟩ := part
    rw [total_cons, copied_cons, List.forall_mem_cons]
    constructor
    · intro h
      obtain ⟨dst', hcopy, hrest⟩ := Option.bind_eq_some_iff.mp h
      obtain ⟨⟨hparts, hroom⟩, hout⟩ := ih.mp hrest
      obtain ⟨hsize, -⟩ := copy_eq_some_iff.mp hcopy
      rw [length_copy hcopy] at hroom
      refine ⟨⟨⟨hsize.1, hparts⟩, fun _ => ?_⟩, ?_⟩
      · cases parts with
        | nil => exact hsize.2
        | cons next parts =>
          have := hroom (List.cons_ne_nil _ _)
          omega
      · rw [← hout, take_copy hcopy, drop_copy hcopy (Nat.le_add_right _ _), Nat.add_assoc, List.append_assoc,
          List.append_assoc]
    · rintro ⟨⟨⟨hsize, hparts⟩, hroom⟩, hout⟩
      have hle := hroom (List.cons_ne_nil _ _)
      have hcopy : copy dst pos src size = some _ := if_pos ⟨hsize, by omega⟩
      apply Option.bind_eq_some_iff.mpr
      refine ⟨_, hcopy, ih.mpr ⟨⟨hparts, fun _ => ?_⟩, ?_⟩⟩
      · rw [length_copy hcopy]
        omega
      · rw [take_copy hcopy, drop_copy hcopy (Nat.le_add_right _ _), ← hout, Nat.add_assoc, List.append_assoc,
          List.append_assoc]

end CheckedCopies
