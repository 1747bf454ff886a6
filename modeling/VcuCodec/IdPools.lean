import Mathlib.Data.List.Nodup
import Mathlib.Logic.Function.Basic
import Mathlib.Logic.Relation
import Mathlib.Tactic.Common

/-!
# Pools of identifiers

A pool hands out identifiers from a stack of free ones.  A client that finds no
free identifier waits for one, and while it waits no other client takes any.
`Conserved` is what holds after any number of steps: every identifier is either
free or held by one client.  `ServedFirst` is what a client that waits can rely
on.
-/

namespace IdPools

open Relation

variable {ν α : Type*}

/-- The free identifiers, the one each client holds, and the client that waits. -/
structure Pool (ν α : Type*) where
  free : List α
  held : ν → Option α
  waiting : Option ν

/-- One step of the pool. -/
inductive Step [DecidableEq ν] (p : Pool ν α) : Pool ν α → Prop
  /-- A client takes the identifier on top of the stack. -/
  | take {v : ν} {x : α} {xs : List α} (hw : p.waiting = none) (hf : p.free = x :: xs)
      (hv : p.held v = none) : Step p ⟨xs, Function.update p.held v (some x), none⟩
  /-- A client finds no free identifier. -/
  | wait {v : ν} (hw : p.waiting = none) (hf : p.free = []) (hv : p.held v = none) :
      Step p ⟨[], p.held, some v⟩
  /-- A client gives its identifier back. -/
  | release {v : ν} {x : α} (hv : p.held v = some x) :
      Step p ⟨x :: p.free, Function.update p.held v none, p.waiting⟩
  /-- The waiting client gets the identifier on top of the stack. -/
  | serve {v : ν} {x : α} {xs : List α} (hw : p.waiting = some v) (hf : p.free = x :: xs) :
      Step p ⟨xs, Function.update p.held v (some x), none⟩
  /-- The waiting client leaves. -/
  | leave {v : ν} (hw : p.waiting = some v) : Step p ⟨p.free, p.held, none⟩

/-- Any number of steps. -/
abbrev Steps [DecidableEq ν] : Pool ν α → Pool ν α → Prop := ReflTransGen Step

/-- The identifiers `ids` are free or held, each in one place. -/
structure Conserved (ids : List α) (p : Pool ν α) : Prop where
  nodup : p.free.Nodup
  disjoint : ∀ {v x}, p.held v = some x → x ∉ p.free
  unique : ∀ {v w x}, p.held v = some x → p.held w = some x → v = w
  all : ∀ x, x ∈ ids ↔ x ∈ p.free ∨ ∃ v, p.held v = some x
  empty_handed : ∀ {v}, p.waiting = some v → p.held v = none

variable [DecidableEq ν] {ids : List α} {p q : Pool ν α} {v w : ν} {x y : α} {xs : List α}

theorem held_of_update {h : ν → Option α} {o : Option α}
    (hy : Function.update h v o w = some y) : w = v ∧ o = some y ∨ w ≠ v ∧ h w = some y := by
  rw [Function.update_apply] at hy
  split at hy
  · next e => exact .inl ⟨e, hy⟩
  · next e => exact .inr ⟨e, hy⟩

namespace Conserved

/-- An identifier goes from the stack to a client that holds none. -/
theorem hand_out (h : Conserved ids p) (hf : p.free = x :: xs) (hv : p.held v = none) :
    Conserved ids (⟨xs, Function.update p.held v (some x), none⟩ : Pool ν α) := by
  have hnd := h.nodup
  rw [hf, List.nodup_cons] at hnd
  have hx : ∀ {w}, p.held w ≠ some x := fun hw => h.disjoint hw (hf ▸ List.mem_cons_self)
  refine ⟨hnd.2, ?_, ?_, ?_, by simp⟩
  · intro w y hw
    rcases held_of_update hw with ⟨-, e⟩ | ⟨-, ho⟩
    · rw [← Option.some.inj e]
      exact hnd.1
    · exact fun hm => h.disjoint ho (hf ▸ List.mem_cons_of_mem _ hm)
  · intro w w' y hw hw'
    rcases held_of_update hw with ⟨hwv, e⟩ | ⟨-, ho⟩ <;>
      rcases held_of_update hw' with ⟨hwv', e'⟩ | ⟨-, ho'⟩
    · exact hwv.trans hwv'.symm
    · exact absurd (ho'.trans e.symm) hx
    · exact absurd (ho.trans e'.symm) hx
    · exact h.unique ho ho'
  · intro y
    rw [h.all, hf, List.mem_cons]
    constructor
    · rintro ((rfl | hm) | ⟨w, hw⟩)
      · exact .inr ⟨v, Function.update_self ..⟩
      · exact .inl hm
      · have hne : w ≠ v := by
          rintro rfl
          simp [hv] at hw
        exact .inr ⟨w, (Function.update_of_ne hne ..).trans hw⟩
    · rintro (hm | ⟨w, hw⟩)
      · exact .inl (.inr hm)
      · rcases held_of_update hw with ⟨-, e⟩ | ⟨-, ho⟩
        · exact .inl (.inl (Option.some.inj e).symm)
        · exact .inr ⟨w, ho⟩

theorem give_back (h : Conserved ids p) (hv : p.held v = some x) :
    Conserved ids (⟨x :: p.free, Function.update p.held v none, p.waiting⟩ : Pool ν α) := by
  refine ⟨List.nodup_cons.mpr ⟨h.disjoint hv, h.nodup⟩, ?_, ?_, ?_, ?_⟩
  · intro w y hw hm
    rcases held_of_update hw with ⟨-, e⟩ | ⟨hne, ho⟩
    · exact absurd e (by simp)
    · rcases List.mem_cons.mp hm with rfl | hm
      · exact hne (h.unique ho hv)
      · exact h.disjoint ho hm
  · intro w w' y hw hw'
    rcases held_of_update hw with ⟨-, e⟩ | ⟨-, ho⟩
    · exact absurd e (by simp)
    · rcases held_of_update hw' with ⟨-, e⟩ | ⟨-, ho'⟩
      · exact absurd e (by simp)
      · exact h.unique ho ho'
  · intro y
    rw [h.all, List.mem_cons]
    constructor
    · rintro (hm | ⟨w, hw⟩)
      · exact .inl (.inr hm)
      · by_cases hwv : w = v
        · subst hwv
          exact .inl (.inl (Option.some.inj (hw.symm.trans hv)))
        · exact .inr ⟨w, (Function.update_of_ne hwv ..).trans hw⟩
    · rintro ((rfl | hm) | ⟨w, hw⟩)
      · exact .inr ⟨v, hv⟩
      · exact .inl hm
      · rcases held_of_update hw with ⟨-, e⟩ | ⟨-, ho⟩
        · exact absurd e (by simp)
        · exact .inr ⟨w, ho⟩
  · intro w hw
    show Function.update p.held v none w = none
    rw [Function.update_apply]
    split
    · rfl
    · exact h.empty_handed hw

theorem step (h : Conserved ids p) (hs : Step p q) : Conserved ids q := by
  cases hs with
  | take _ hf hv => exact h.hand_out hf hv
  | wait _ hf hv =>
    have hall := h.all
    rw [hf] at hall
    refine ⟨List.nodup_nil, fun _ => List.not_mem_nil, h.unique, hall, fun e => ?_⟩
    rw [← Option.some.inj e]
    exact hv
  | release hv => exact h.give_back hv
  | serve hw hf => exact h.hand_out hf (h.empty_handed hw)
  | leave _ => exact ⟨h.nodup, h.disjoint, h.unique, h.all, by simp⟩

theorem steps (h : Conserved ids p) (hs : Steps p q) : Conserved ids q := by
  induction hs with
  | refl => exact h
  | tail _ hs ih => exact ih.step hs

omit [DecidableEq ν] in
theorem length_free_le (h : Conserved ids p) : p.free.length ≤ ids.length :=
  h.nodup.length_le_of_subset fun x hx => (h.all x).mpr (.inl hx)

end Conserved

/-! ## Waiting -/

/-- From `p` on no client has got an identifier, and the ones given back are on
top of the stack. -/
structure NoneTaken (p q : Pool ν α) : Prop where
  held : ∀ w, q.held w = p.held w ∨ q.held w = none
  free : ∃ back, q.free = back ++ p.free

/-- The client `v`, which waits in `p`, gets the first identifier that is handed
out from then on, unless it leaves. -/
def ServedFirst (v : ν) (p q : Pool ν α) : Prop :=
  (q.waiting = some v ∧ NoneTaken p q) ∨
    ∃ p₁ p₂, Steps p p₁ ∧ NoneTaken p p₁ ∧ Steps p₂ q ∧
      ((∃ x xs, p₁.free = x :: xs ∧ p₂ = ⟨xs, Function.update p₁.held v (some x), none⟩) ∨
        p₂ = ⟨p₁.free, p₁.held, none⟩)

theorem NoneTaken.release (h : NoneTaken p q) :
    NoneTaken p ⟨x :: q.free, Function.update q.held v none, q.waiting⟩ := by
  obtain ⟨back, hback⟩ := h.free
  refine ⟨fun w => ?_, x :: back, by simp [hback]⟩
  show Function.update q.held v none w = _ ∨ Function.update q.held v none w = none
  rw [Function.update_apply]
  split
  · exact .inr rfl
  · exact h.held w

theorem Steps.servedFirst (h : Steps p q) (hv : p.waiting = some v) : ServedFirst v p q := by
  induction h with
  | refl => exact .inl ⟨hv, fun _ => .inl rfl, [], rfl⟩
  | tail hs hstep ih =>
    rcases ih with ⟨hw, hn⟩ | ⟨p₁, p₂, h₁, hn, h₂, hp⟩
    · -- the next step can only release, or end the wait of `v`
      cases hstep with
      | take hnone _ _ => exact absurd (hw.symm.trans hnone) (by simp)
      | wait hnone _ _ => exact absurd (hw.symm.trans hnone) (by simp)
      | release _ => exact .inl ⟨hw, hn.release⟩
      | serve hsome hf =>
        have hvw := Option.some.inj (hw.symm.trans hsome)
        subst hvw
        exact .inr ⟨_, _, hs, hn, .refl, .inl ⟨_, _, hf, rfl⟩⟩
      | leave _ => exact .inr ⟨_, _, hs, hn, .refl, .inr rfl⟩
    · exact .inr ⟨p₁, p₂, h₁, hn, h₂.tail hstep, hp⟩

/-! ## Stacks in arrays -/

/-- The stack in the first `n` entries of an array, from its top. -/
def arrayStack (f : ℕ → α) : ℕ → List α
  | 0 => []
  | n + 1 => f n :: arrayStack f n

theorem length_arrayStack (f : ℕ → α) (n : ℕ) : (arrayStack f n).length = n := by
  induction n with
  | zero => rfl
  | succ n ih => rw [arrayStack, List.length_cons, ih]

theorem arrayStack_congr {f g : ℕ → α} {n : ℕ} (h : ∀ k < n, g k = f k) :
    arrayStack g n = arrayStack f n := by
  induction n with
  | zero => rfl
  | succ n ih => rw [arrayStack, arrayStack, h n (by omega), ih fun k hk => h k (by omega)]

theorem arrayStack_push (f : ℕ → α) (n : ℕ) (x : α) :
    arrayStack (Function.update f n x) (n + 1) = x :: arrayStack f n := by
  rw [arrayStack, Function.update_self]
  refine congrArg _ (arrayStack_congr fun k hk => ?_)
  rw [Function.update_of_ne (by omega)]

theorem arrayStack_pop (f : ℕ → α) {n : ℕ} (hn : n ≠ 0) :
    arrayStack f n = f (n - 1) :: arrayStack f (n - 1) := by
  cases n with
  | zero => exact absurd rfl hn
  | succ n => rfl

end IdPools
