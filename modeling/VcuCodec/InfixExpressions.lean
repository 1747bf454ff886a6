import Mathlib.Data.List.ReduceOption
import Mathlib.Data.List.TakeWhile
import Mathlib.Order.Basic
import Mathlib.Tactic.Common

/-!
# Infix expressions and their postfix form

Expressions over operands `ν` and operators `ω`, written in infix form with
prefix signs and parentheses, and in postfix form.  The stack conversion from
the one to the other holds back each operator until one that binds no stronger
comes, or the parenthesis around it closes.
-/

namespace Infix

variable {ν ω : Type*}

/-- The operators of a language: the strength with which they bind, and which
are prefix signs. -/
structure Operators (ω : Type*) where
  prec : ω → ℕ
  isSign : ω → Bool
  sign_above : ∀ s o, isSign s = true → isSign o = false → prec o < prec s

/-- The symbols that an expression is written with. -/
inductive Sym (ν ω : Type*)
  | operand (n : ν)
  | operator (o : ω)
  | opening
  | closing

/-- An expression, with its parentheses. -/
inductive Expr (ν ω : Type*)
  | operand (n : ν)
  | sign (o : ω) (e : Expr ν ω)
  | binary (o : ω) (a b : Expr ν ω)
  | group (e : Expr ν ω)

namespace Expr

/-- The infix form. -/
def symbols : Expr ν ω → List (Sym ν ω)
  | operand n => [.operand n]
  | sign o e => .operator o :: e.symbols
  | binary o a b => a.symbols ++ .operator o :: b.symbols
  | group e => .opening :: (e.symbols ++ [.closing])

/-- The postfix form. -/
def polish : Expr ν ω → List (Sym ν ω)
  | operand n => [.operand n]
  | sign o e => e.polish ++ [.operator o]
  | binary o a b => a.polish ++ b.polish ++ [.operator o]
  | group e => e.polish

/-- The outermost operator of a binary expression satisfies `P`. -/
def Outer (P : ω → Prop) : Expr ν ω → Prop
  | binary o _ _ => P o
  | _ => True

/-- The usual grammar: signs bind strongest, the other operators by their
strength, and operators of one strength to the left. -/
def WellFormed (L : Operators ω) : Expr ν ω → Prop
  | operand _ => True
  | sign o e => L.isSign o = true ∧ e.Outer (fun _ => False) ∧ e.WellFormed L
  | binary o a b => L.isSign o = false ∧ (a.Outer (L.prec o ≤ L.prec ·) ∧ a.WellFormed L) ∧
      b.Outer (L.prec o < L.prec ·) ∧ b.WellFormed L
  | group e => e.WellFormed L

theorem Outer.mono {P Q : ω → Prop} {e : Expr ν ω} (h : e.Outer P) (hPQ : ∀ o, P o → Q o) :
    e.Outer Q := by
  cases e with
  | binary o a b => exact hPQ o h
  | operand n => trivial
  | sign o e => trivial
  | group e => trivial

end Expr

/-! ## Evaluation -/

/-- What the symbols mean. -/
structure Algebra (ν ω τ : Type*) where
  operand : ν → Option τ
  sign : ω → τ → Option τ
  binary : ω → τ → τ → Option τ

/-- The value of an expression. -/
def Expr.value {τ : Type*} (A : Algebra ν ω τ) : Expr ν ω → Option τ
  | operand n => A.operand n
  | sign o e => e.value A >>= A.sign o
  | binary o a b => do A.binary o (← a.value A) (← b.value A)
  | group e => e.value A

section Evaluation

variable {τ : Type*} (A : Algebra ν ω τ) (L : Operators ω)

/-- One symbol of a postfix form, on a stack of values. -/
def evalSym (s : List τ) : Sym ν ω → Option (List τ)
  | .operand n => (A.operand n).map (· :: s)
  | .operator o =>
    if L.isSign o then
      match s with
      | x :: s => (A.sign o x).map (· :: s)
      | [] => none
    else
      match s with
      | y :: x :: s => (A.binary o x y).map (· :: s)
      | _ => none
  | _ => none

/-- The symbols of a postfix form. -/
def evalPolish : List (Sym ν ω) → List τ → Option (List τ)
  | [], s => some s
  | x :: xs, s => (evalSym A L s x).bind (evalPolish xs)

theorem evalPolish_append (xs ys : List (Sym ν ω)) (s : List τ) :
    evalPolish A L (xs ++ ys) s = (evalPolish A L xs s).bind (evalPolish A L ys) := by
  induction xs generalizing s with
  | nil => rfl
  | cons x xs ih =>
    simp only [List.cons_append, evalPolish]
    cases evalSym A L s x with
    | none => rfl
    | some s' => exact ih s'

/-- The postfix form of an expression leaves its value on the stack. -/
theorem evalPolish_polish {e : Expr ν ω} (h : e.WellFormed L) (s : List τ) :
    evalPolish A L e.polish s = (e.value A).map (· :: s) := by
  induction e generalizing s with
  | operand n =>
    cases hn : A.operand n <;> simp [Expr.polish, evalPolish, evalSym, Expr.value, hn]
  | sign o e ih =>
    rw [Expr.polish, evalPolish_append, ih h.2.2]
    cases hv : e.value A with
    | none => simp [Expr.value, hv]
    | some x => cases hx : A.sign o x <;> simp [evalPolish, evalSym, Expr.value, h.1, hv, hx]
  | binary o a b iha ihb =>
    rw [Expr.polish, evalPolish_append, evalPolish_append, iha h.2.1.2]
    cases hv : a.value A with
    | none => simp [Expr.value, hv]
    | some x =>
      rw [Option.map_some, Option.bind_some, ihb h.2.2.2]
      cases hw : b.value A with
      | none => simp [Expr.value, hv, hw]
      | some y =>
        cases hy : A.binary o x y <;> simp [evalPolish, evalSym, Expr.value, h.1, hv, hw, hy]
  | group e ih => exact ih h s

end Evaluation

/-! ## The stack conversion -/

/-- A conversion on its way: what has been written, and what is held back, the
newest first, with `none` for an open parenthesis. -/
@[ext]
structure Yard (ν ω : Type*) where
  output : List (Sym ν ω)
  stack : List (Option ω)

/-- The operators of a stack, in the order in which they are written. -/
def released (s : List (Option ω)) : List (Sym ν ω) := s.reduceOption.map .operator

@[simp] theorem released_nil : released ([] : List (Option ω)) = ([] : List (Sym ν ω)) := rfl

@[simp] theorem released_append (s t : List (Option ω)) :
    (released (s ++ t) : List (Sym ν ω)) = released s ++ released t := by
  simp [released, List.reduceOption_append]

@[simp] theorem released_none (s : List (Option ω)) :
    (released (none :: s) : List (Sym ν ω)) = released s := rfl

@[simp] theorem released_some (o : ω) (s : List (Option ω)) :
    (released (some o :: s) : List (Sym ν ω)) = .operator o :: released s := rfl

/-- A held operator is written before `o`. -/
def Operators.yields (L : Operators ω) (o : ω) : Option ω → Bool
  | some p => L.prec o ≤ L.prec p
  | none => false

namespace Yard

variable (L : Operators ω)

/-- The symbol `x` of the infix form. -/
def step (y : Yard ν ω) : Sym ν ω → Yard ν ω
  | .operand n => { y with output := y.output ++ [.operand n] }
  | .operator o =>
    if L.isSign o then { y with stack := some o :: y.stack }
    else
      { output := y.output ++ released (y.stack.takeWhile (L.yields o))
        stack := some o :: y.stack.dropWhile (L.yields o) }
  | .opening => { y with stack := none :: y.stack }
  | .closing =>
    { output := y.output ++ released (y.stack.takeWhile Option.isSome)
      stack := (y.stack.dropWhile Option.isSome).tail }

def run (y : Yard ν ω) (xs : List (Sym ν ω)) : Yard ν ω := xs.foldl (step L) y

/-- The end of the infix form. -/
def finish (y : Yard ν ω) : List (Sym ν ω) := y.output ++ released y.stack

theorem run_append (y : Yard ν ω) (xs ys : List (Sym ν ω)) :
    run L y (xs ++ ys) = run L (run L y xs) ys := List.foldl_append ..

theorem run_cons (y : Yard ν ω) (x : Sym ν ω) (xs : List (Sym ν ω)) :
    run L y (x :: xs) = run L (step L y x) xs := rfl

end Yard

namespace Expr

/-- The operators that are held back after the expression, the newest first. -/
def held : Expr ν ω → List (Option ω)
  | operand _ => []
  | sign o e => e.held ++ [some o]
  | binary o _ b => b.held ++ [some o]
  | group _ => []

/-- What has been written after the expression. -/
def written : Expr ν ω → List (Sym ν ω)
  | operand n => [.operand n]
  | sign _ e => e.written
  | binary _ a b => a.polish ++ b.written
  | group e => e.polish

theorem written_released (e : Expr ν ω) : e.written ++ released e.held = e.polish := by
  induction e with
  | operand n => rfl
  | sign o e ih => simp only [written, held, released_append, ← List.append_assoc, ih]; rfl
  | binary o a b _ ihb =>
    simp only [written, held, released_append, polish]
    rw [List.append_assoc, ← List.append_assoc b.written, ihb, ← List.append_assoc]
    rfl
  | group e _ => exact List.append_nil _

variable {L : Operators ω}

variable {e : Expr ν ω} {o : ω}

/-- An operator that binds no stronger than the outermost one of an expression
releases all that the expression holds back. -/
theorem yields_of_held (h : e.WellFormed L) (ho : L.isSign o = false)
    (houter : e.Outer (L.prec o ≤ L.prec ·)) : ∀ p ∈ e.held, L.yields o p = true := by
  induction e with
  | operand n => simp [held]
  | group e _ => simp [held]
  | sign s e ih =>
    intro p hp
    rcases List.mem_append.mp hp with hp | hp
    · exact ih h.2.2 (h.2.1.mono fun _ h => h.elim) p hp
    · rw [List.mem_singleton.mp hp]
      exact decide_eq_true (Nat.le_of_lt (L.sign_above s o h.1 ho))
  | binary o' a b _ ihb =>
    intro p hp
    have houter : L.prec o ≤ L.prec o' := houter
    rcases List.mem_append.mp hp with hp | hp
    · exact ihb h.2.2.2 (h.2.2.1.mono fun _ h => houter.trans (Nat.le_of_lt h)) p hp
    · rw [List.mem_singleton.mp hp]
      exact decide_eq_true houter

theorem isSome_of_held : ∀ p ∈ e.held, p.isSome = true := by
  induction e with
  | operand n => simp [held]
  | group e _ => simp [held]
  | sign s e ih =>
    intro p hp
    rcases List.mem_append.mp hp with hp | hp
    · exact ih p hp
    · simp [List.mem_singleton.mp hp]
  | binary o a b _ ihb =>
    intro p hp
    rcases List.mem_append.mp hp with hp | hp
    · exact ihb p hp
    · simp [List.mem_singleton.mp hp]

/-- The newest held operator does not yield to the outermost one of `e`. -/
def Fits (L : Operators ω) (e : Expr ν ω) (s : List (Option ω)) : Prop :=
  e.Outer fun o => ∀ p ∈ s.head?, L.yields o p = false

theorem fits_nil : e.Fits L [] := by
  cases e <;> simp [Fits, Outer]

variable {s : List (Option ω)}

theorem fits_of_none : e.Fits L (none :: s) := by
  cases e with
  | binary o a b =>
    intro p hp
    obtain rfl : none = p := Option.some.inj hp
    rfl
  | operand n => trivial
  | sign o e => trivial
  | group e => trivial

theorem fits_of_factor (h : e.Outer fun _ => False) : e.Fits L s :=
  h.mono fun _ h => h.elim

theorem fits_of_right (h : e.Outer (L.prec o < L.prec ·)) : e.Fits L (some o :: s) :=
  h.mono fun o' ho' p hp => by
    obtain rfl : some o = p := Option.some.inj hp
    exact decide_eq_false (Nat.not_le.mpr ho')

theorem fits_of_left {a b : Expr ν ω}
    (h : (binary o a b).Fits L s) (ha : a.Outer (L.prec o ≤ L.prec ·)) : a.Fits L s :=
  ha.mono fun o' ho' p hp => by
    have hp' := h p hp
    cases p with
    | none => rfl
    | some p =>
      have hlt : ¬ L.prec o ≤ L.prec p := of_decide_eq_false hp'
      exact decide_eq_false (by omega)

theorem takeWhile_yields {a b : Expr ν ω}
    (h : (binary o a b).WellFormed L) (hs : (binary o a b).Fits L s) :
    (a.held ++ s).takeWhile (L.yields o) = a.held ∧ (a.held ++ s).dropWhile (L.yields o) = s := by
  have hall := yields_of_held h.2.1.2 h.1 h.2.1.1
  have hhead : ∀ p ∈ s.head?, L.yields o p = false := hs
  cases s with
  | nil =>
    rw [List.append_nil]
    exact ⟨List.takeWhile_eq_self_iff.mpr hall, List.dropWhile_eq_nil_iff.mpr hall⟩
  | cons p s =>
    have hp : ¬ L.yields o p = true := by simp [hhead p rfl]
    rw [List.takeWhile_append_of_pos hall, List.dropWhile_append_of_pos hall,
      List.takeWhile_cons_of_neg hp, List.dropWhile_cons_of_neg hp, List.append_nil]
    exact ⟨rfl, rfl⟩

end Expr

open Expr in
/-- The conversion writes the postfix form, but for the operators it holds back. -/
theorem Yard.run_symbols {L : Operators ω} {e : Expr ν ω} (h : e.WellFormed L) (y : Yard ν ω)
    (hs : e.Fits L y.stack) :
    run L y e.symbols = ⟨y.output ++ e.written, e.held ++ y.stack⟩ := by
  induction e generalizing y with
  | operand n => rfl
  | sign o e ih =>
    have hstep : step L y (.operator o) = { y with stack := some o :: y.stack } := by
      simp [step, h.1]
    rw [symbols, run_cons, hstep, ih h.2.2 _ (fits_of_factor h.2.1)]
    simp [written, held]
  | binary o a b iha ihb =>
    obtain ⟨htake, hdrop⟩ := takeWhile_yields h hs
    have hstep : step L ⟨y.output ++ a.written, a.held ++ y.stack⟩ (.operator o) =
        (⟨y.output ++ a.polish, some o :: y.stack⟩ : Yard ν ω) := by
      rw [step, if_neg (by simp [h.1])]
      simp only [htake, hdrop, List.append_assoc, written_released]
    rw [symbols, run_append, run_cons, iha h.2.1.2 _ (fits_of_left hs h.2.1.1), hstep,
      ihb h.2.2.2 _ (fits_of_right h.2.2.1)]
    simp [written, held]
  | group e ih =>
    have htake : (e.held ++ none :: y.stack).takeWhile Option.isSome = e.held := by
      rw [List.takeWhile_append_of_pos isSome_of_held, List.takeWhile_cons_of_neg (by simp),
        List.append_nil]
    have hdrop : (e.held ++ none :: y.stack).dropWhile Option.isSome = none :: y.stack := by
      rw [List.dropWhile_append_of_pos isSome_of_held, List.dropWhile_cons_of_neg (by simp)]
    rw [symbols, run_cons, run_append, step, ih h _ fits_of_none]
    change step L _ .closing = _
    simp only [step, htake, hdrop, List.append_assoc, written_released]
    rfl

theorem Yard.finish_symbols {L : Operators ω} {e : Expr ν ω} (h : e.WellFormed L) :
    finish (run L ⟨[], []⟩ e.symbols) = e.polish := by
  rw [run_symbols h _ Expr.fits_nil]
  simp only [finish, List.nil_append, List.append_nil, Expr.written_released]

end Infix
