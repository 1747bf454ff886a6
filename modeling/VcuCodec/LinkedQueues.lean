import Mathlib.Data.List.Nodup
import Mathlib.Logic.Function.Basic
import Mathlib.Tactic.Common

/-!
# Linked queues

A queue threaded through an array: its first and its last index, the link from
each index to the one behind it, and the number of indices.  `Holds` says that
the queue spells out a list.  `push` appends an index and `pop` takes the first
one out.
-/

namespace LinkedQueues

variable {ι : Type*}

/-- Each index of the list links to the one behind it, and the last to none. -/
def Chained (next : ι → Option ι) : List ι → Prop
  | [] => True
  | x :: xs => next x = xs.head? ∧ Chained next xs

structure Queue (ι : Type*) where
  head : Option ι
  tail : Option ι
  next : ι → Option ι
  number : ℕ

namespace Queue

section Edits

variable [DecidableEq ι]

/-- Linking `i`, which has no link of its own, behind the last index. -/
def push (q : Queue ι) (i : ι) : Queue ι where
  head := if q.tail = none then some i else q.head
  tail := some i
  next := fun j => if q.tail = some j then some i else q.next j
  number := q.number + 1

/-- Taking the first index out, which loses its link. -/
def pop (q : Queue ι) (i : ι) : Queue ι where
  head := q.next i
  tail := if q.next i = none then none else q.tail
  next := fun j => if j = i then none else q.next j
  number := q.number - 1

end Edits

/-- The walk of at most `n` indices that looks for one with `p`. -/
def any (q : Queue ι) (p : ι → Bool) : ℕ → Option ι → Option Bool
  | 0, _ => none
  | _ + 1, none => some false
  | n + 1, some i => if p i then some true else q.any p n (q.next i)

/-- The queue spells out `l`. -/
structure Holds (q : Queue ι) (l : List ι) : Prop where
  nodup : l.Nodup
  head : q.head = l.head?
  tail : q.tail = l.getLast?
  chained : Chained q.next l
  number : q.number = l.length

end Queue

namespace Chained

variable {next next' : ι → Option ι} {l xs : List ι} {i : ι}

theorem congr (h : Chained next l) (hn : ∀ j ∈ l, next' j = next j) : Chained next' l := by
  induction l with
  | nil => trivial
  | cons x xs ih =>
    rw [List.forall_mem_cons] at hn
    exact ⟨hn.1.trans h.1, ih h.2 hn.2⟩

theorem concat [DecidableEq ι] (h : Chained next xs) (hxs : xs.Nodup) (hi : next' i = none)
    (hn : ∀ j ∈ xs, next' j = if xs.getLast? = some j then some i else next j) :
    Chained next' (xs ++ [i]) := by
  induction xs with
  | nil => exact ⟨hi, trivial⟩
  | cons x xs ih =>
    rw [List.nodup_cons] at hxs
    rw [List.forall_mem_cons] at hn
    cases xs with
    | nil => exact ⟨by simpa using hn.1, ih trivial hxs.2 (by simp)⟩
    | cons y ys =>
      constructor
      · have hlast : (x :: y :: ys).getLast? ≠ some x := by
          rw [List.getLast?_cons_cons]
          intro he
          exact hxs.1 (List.mem_of_getLast? he)
        rw [hn.1, if_neg hlast, h.1]
        rfl
      · apply ih h.2 hxs.2
        intro j hj
        rw [hn.2 j hj, List.getLast?_cons_cons]

end Chained

namespace Queue.Holds

variable {q : Queue ι} {l xs : List ι} {i : ι}

theorem congr {q' : Queue ι} (h : q.Holds l) (hh : q'.head = q.head) (ht : q'.tail = q.tail)
    (hn : ∀ j ∈ l, q'.next j = q.next j) (hnum : q'.number = q.number) : q'.Holds l :=
  ⟨h.nodup, hh.trans h.head, ht.trans h.tail, h.chained.congr hn, hnum.trans h.number⟩

theorem any_eq (h : q.Holds l) (p : ι → Bool) {n : ℕ} (hn : l.length < n) :
    q.any p n q.head = some (l.any p) := by
  have hc := h.chained
  rw [h.head]
  clear h
  induction l generalizing n with
  | nil =>
    cases n with
    | zero => omega
    | succ n => rfl
  | cons x xs ih =>
    cases n with
    | zero => omega
    | succ n =>
      rw [List.length_cons] at hn
      rw [List.head?_cons, Queue.any, List.any_cons]
      split_ifs with hp
      · rw [hp, Bool.true_or]
      · rw [hc.1, ih (by omega) hc.2, Bool.eq_false_iff.mpr hp, Bool.false_or]

variable [DecidableEq ι]

theorem push (h : q.Holds l) (hi : i ∉ l) (hn : q.next i = none) : (q.push i).Holds (l ++ [i]) where
  nodup := by
    rw [List.nodup_append]
    refine ⟨h.nodup, List.nodup_singleton i, ?_⟩
    intro j hj k hk e
    rw [e, List.mem_singleton.mp hk] at hj
    exact hi hj
  head := by
    unfold Queue.push
    rw [h.tail, h.head]
    cases l <;> simp
  tail := by simp [Queue.push]
  chained := by
    apply h.chained.concat h.nodup
    · have hlast : l.getLast? ≠ some i := fun he => hi (List.mem_of_getLast? he)
      simp only [Queue.push, h.tail, if_neg hlast, hn]
    · intro j _
      simp only [Queue.push, h.tail]
  number := by simp [Queue.push, h.number]

theorem pop (h : q.Holds (i :: xs)) : (q.pop i).Holds xs := by
  have hnd := List.nodup_cons.mp h.nodup
  have hnext : q.next i = xs.head? := h.chained.1
  exact {
    nodup := hnd.2
    head := hnext
    tail := by
      unfold Queue.pop
      rw [hnext, h.tail]
      cases xs <;> simp
    chained := by
      apply h.chained.2.congr
      intro j hj
      have hne : j ≠ i := fun e => hnd.1 (e ▸ hj)
      simp only [Queue.pop, if_neg hne]
    number := by simp [Queue.pop, h.number] }

end Queue.Holds

end LinkedQueues
