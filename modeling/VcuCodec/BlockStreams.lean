import Mathlib.Algebra.Order.Group.Nat
import Mathlib.Data.List.Basic
import Mathlib.Data.Nat.Basic
import Mathlib.Tactic.Common

/-!
# Streams cut into blocks

A message is absorbed block by block, each block of the same length changing a
state, and what is left behind the last full block waits for more.  A message
that comes in pieces leaves the state and the rest of the whole message.
-/

namespace BlockStreams

variable {α σ : Type*} {n : ℕ} {f : σ → List α → σ} {s : σ}

/-- The full blocks of `l`. -/
def blocksOf (n : ℕ) (l : List α) : List (List α) :=
  (List.range (l.length / n)).map fun i => (l.drop (n * i)).take n

/-- What is left behind the last full block. -/
def rest (n : ℕ) (l : List α) : List α := l.drop (n * (l.length / n))

/-- The state behind the full blocks of `l`. -/
def absorb (n : ℕ) (f : σ → List α → σ) (s : σ) (l : List α) : σ := (blocksOf n l).foldl f s

variable {b : List α}

theorem blocksOf_append (hn : 0 < n) (hb : b.length = n) (l : List α) :
    blocksOf n (b ++ l) = b :: blocksOf n l := by
  have hlen : (b ++ l).length / n = l.length / n + 1 := by
    rw [List.length_append, hb, Nat.add_div_left _ hn]
  unfold blocksOf
  rw [hlen, List.range_succ_eq_map, List.map_cons, List.map_map]
  congr 1
  · rw [Nat.mul_zero, List.drop_zero, ← hb, List.take_left]
  · apply List.map_congr_left
    intro i _
    have hdrop : n * i.succ = b.length + n * i := by rw [hb, Nat.mul_succ, Nat.add_comm]
    rw [Function.comp_apply, hdrop, List.drop_length_add_append]

variable {l : List α}

theorem blocksOf_of_lt (h : l.length < n) : blocksOf n l = [] := by
  rw [blocksOf, Nat.div_eq_of_lt h]
  rfl

@[simp] theorem absorb_of_lt (h : l.length < n) : absorb n f s l = s := by
  rw [absorb, blocksOf_of_lt h]
  rfl

theorem absorb_block (hn : 0 < n) (hb : b.length = n) (l : List α) :
    absorb n f s (b ++ l) = absorb n f (f s b) l := by
  rw [absorb, blocksOf_append hn hb]
  rfl

theorem rest_of_lt (h : l.length < n) : rest n l = l := by
  rw [rest, Nat.div_eq_of_lt h]
  rfl

theorem rest_block (hn : 0 < n) (hb : b.length = n) (l : List α) : rest n (b ++ l) = rest n l := by
  have hlen : (b ++ l).length / n = l.length / n + 1 := by
    rw [List.length_append, hb, Nat.add_div_left _ hn]
  have hdrop : n * (l.length / n + 1) = b.length + n * (l.length / n) := by
    rw [hb, Nat.mul_add_one, Nat.add_comm]
  rw [rest, hlen, hdrop, List.drop_length_add_append, rest]

theorem length_rest (l : List α) : (rest n l).length = l.length % n := by
  rw [rest, List.length_drop]
  have := Nat.div_add_mod l.length n
  omega

theorem block_induction (hn : 0 < n) {P : List α → Prop} (short : ∀ l, l.length < n → P l)
    (block : ∀ b l, b.length = n → P l → P (b ++ l)) (l : List α) : P l := by
  induction hk : l.length using Nat.strong_induction_on generalizing l with
  | _ k ih =>
    subst hk
    rcases lt_or_ge l.length n with hlt | hge
    · exact short l hlt
    · have hb : (l.take n).length = n := by rw [List.length_take]; omega
      have hl : (l.drop n).length < l.length := by rw [List.length_drop]; omega
      have h := block (l.take n) (l.drop n) hb (ih _ hl _ rfl)
      rwa [List.take_append_drop] at h

theorem absorb_append (hn : 0 < n) (l l' : List α) :
    absorb n f s (l ++ l') = absorb n f (absorb n f s l) (rest n l ++ l') := by
  induction l using block_induction hn generalizing s with
  | short l h => rw [absorb_of_lt h, rest_of_lt h]
  | block b l hb ih => rw [List.append_assoc, absorb_block hn hb, absorb_block hn hb, rest_block hn hb, ih]

theorem rest_append (hn : 0 < n) (l l' : List α) : rest n (l ++ l') = rest n (rest n l ++ l') := by
  induction l using block_induction hn with
  | short l h => rw [rest_of_lt h]
  | block b l hb ih => rw [List.append_assoc, rest_block hn hb, rest_block hn hb, ih]

end BlockStreams
