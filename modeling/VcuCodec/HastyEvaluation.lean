import VcuCodec.HastySlips

/-!
# Evaluation behind the hasty conversion

When the symbols that the hasty conversion writes have a value: a neutral sign
needs one value on the stack, and no other trace of it is left.  For symbols
that spell no expression, it is enough to count the values.
-/

namespace Infix

variable {ν ω : Type*} {L : Operators ω}

/-! ## Neutral signs -/

namespace Signs

variable (N : Signs L)

/-- Every neutral sign of a postfix form comes behind an operand. -/
def Fed : List (Sym ν ω) → Prop
  | [] => True
  | .operand _ :: _ => True
  | .operator o :: xs => N.isNeutral o = false ∧ Fed xs
  | .opening :: xs => Fed xs
  | .closing :: xs => Fed xs

/-- In an infix form, no neutral sign in front of the first operand is followed
by another sign; `front` is the operator right in front of the form. -/
def Lone : Option ω → List (Sym ν ω) → Prop
  | _, [] => True
  | _, .operand _ :: _ => True
  | front, .operator o :: xs => (∀ p ∈ front, N.isNeutral p = false) ∧ Lone (some o) xs
  | _, .opening :: xs => Lone none xs
  | _, .closing :: xs => Lone none xs

theorem fed_append_operand (xs ys : List (Sym ν ω)) (n : ν) :
    N.Fed (xs ++ .operand n :: ys) ↔ N.Fed xs := by
  induction xs with
  | nil => exact Iff.rfl
  | cons x xs ih =>
    cases x with
    | operand m => exact Iff.rfl
    | operator o => exact and_congr_right fun _ => ih
    | opening => exact ih
    | closing => exact ih

variable {xs : List (Sym ν ω)}

theorem fed_append_operator (h : operands xs = 0) (o : ω) :
    N.Fed (xs ++ [.operator o]) ↔ N.Fed xs ∧ N.isNeutral o = false := by
  induction xs with
  | nil => exact and_comm
  | cons x xs ih =>
    cases x with
    | operand m => simp [operands] at h
    | operator p =>
      have hxs : operands xs = 0 := h
      simp only [List.cons_append, Fed, ih hxs, and_assoc]
    | opening => exact ih h
    | closing => exact ih h

/-- The neutral signs that the hasty conversion writes come behind an operand
exactly if each of them stands alone in front of the first one. -/
theorem fed_hastyRun {e : Expr ν ω} (hw : e.WellFormed L) {y : Yard ν ω} {front : Option ω}
    (hfront : ∀ o, L.isSign o = true → y.stack.takeWhile (L.yields o) = front.toList.map some)
    (hout : operands y.output = 0) (rest fin : List (Sym ν ω)) :
    N.Fed ((Yard.hastyRun L y (e.symbols ++ rest)).output ++ fin) ↔
      N.Fed y.output ∧ N.Lone front (e.symbols ++ rest) := by
  induction e generalizing y front rest with
  | operand n =>
    obtain ⟨r, hr⟩ := Yard.output_hastyRun (L := L) (Yard.hastyStep L y (.operand n)) rest
    have hrun : (Yard.hastyRun L y ((Expr.operand n).symbols ++ rest)).output =
        y.output ++ .operand n :: r := by
      rw [Expr.symbols, List.singleton_append, Yard.hastyRun_cons, ← hr]
      simp [Yard.hastyStep]
    rw [hrun, List.append_assoc, List.cons_append, N.fed_append_operand]
    exact (and_iff_left trivial).symm
  | sign o e ih =>
    have htop : ∀ o', L.isSign o' = true →
        (Yard.hastyStep L y (.operator o)).stack.takeWhile (L.yields o') =
          (some o).toList.map some := fun o' ho' => N.takeWhile_pushed hw.1 ho' _
    have hnext : (Yard.hastyStep L y (.operator o)).output =
        y.output ++ released (front.toList.map some) := by
      rw [← hfront o hw.1]
      rfl
    have hzero : operands (Yard.hastyStep L y (.operator o)).output = 0 := by
      rw [hnext, operands_append, hout, operands_released]
    rw [Expr.symbols, List.cons_append, Yard.hastyRun_cons, ih hw.2.2 htop hzero, hnext]
    cases front with
    | none => simp [Lone]
    | some p =>
      have hone : (released ((some p).toList.map some) : List (Sym ν ω)) = [.operator p] := rfl
      rw [hone, N.fed_append_operator hout]
      simp [Lone, and_assoc]
  | binary o a b iha _ =>
    rw [Expr.symbols, List.append_assoc]
    exact iha hw.2.1.2 hfront hout _
  | group e ih =>
    have htop : ∀ o, L.isSign o = true →
        (Yard.hastyStep L y .opening).stack.takeWhile (L.yields o) =
          (none : Option ω).toList.map some := fun _ _ => rfl
    rw [Expr.symbols, List.cons_append, List.append_assoc, Yard.hastyRun_cons]
    exact ih hw htop hout _

section Evaluation

variable {τ : Type*} {A : Algebra ν ω τ}

theorem evalSym_ne_nil {s s' : List τ} {x : Sym ν ω} (hs : s ≠ [])
    (h : evalSym A L s x = some s') : s' ≠ [] := by
  cases x with
  | operand n =>
    obtain ⟨v, -, rfl⟩ := Option.map_eq_some_iff.mp h
    simp
  | operator o =>
    simp only [evalSym] at h
    split at h
    · cases s with
      | nil => exact absurd rfl hs
      | cons v s =>
        obtain ⟨w, -, rfl⟩ := Option.map_eq_some_iff.mp h
        simp
    · cases s with
      | nil => exact absurd rfl hs
      | cons v s =>
        cases s with
        | nil => simp at h
        | cons u s =>
          obtain ⟨w, -, rfl⟩ := Option.map_eq_some_iff.mp h
          simp
  | opening => simp [evalSym] at h
  | closing => simp [evalSym] at h

variable {xs : List (Sym ν ω)}

/-- A neutral sign changes nothing where there is a value. -/
theorem evalPolish_plain (hA : ∀ o, N.isNeutral o = true → A.sign o = some)
    {s : List τ} (h : s ≠ [] ∨ N.Fed xs) : evalPolish A L (N.plain xs) s = evalPolish A L xs s := by
  induction xs generalizing s with
  | nil => rfl
  | cons x xs ih =>
    by_cases hk : N.keepsSym x = true
    · have hplain : N.plain (x :: xs) = x :: N.plain xs := List.filter_cons_of_pos hk
      rw [hplain, evalPolish, evalPolish]
      cases hx : evalSym A L s x with
      | none => rfl
      | some s' =>
        refine ih ?_
        cases x with
        | operand n =>
          obtain ⟨v, -, rfl⟩ := Option.map_eq_some_iff.mp hx
          exact .inl (by simp)
        | operator o => exact h.imp (evalSym_ne_nil · hx) And.right
        | opening => simp [evalSym] at hx
        | closing => simp [evalSym] at hx
    · have hplain : N.plain (x :: xs) = N.plain xs := List.filter_cons_of_neg hk
      cases x with
      | operand n => exact absurd rfl hk
      | opening => exact absurd rfl hk
      | closing => exact absurd rfl hk
      | operator o =>
        have ho : N.isNeutral o = true := by simpa [keepsSym] using hk
        have hs : s ≠ [] := h.resolve_right fun hf => by simp [Fed, ho] at hf
        have hsym : evalSym A L s (.operator o) = some s := by
          cases s with
          | nil => exact absurd rfl hs
          | cons v s => simp [evalSym, N.isSign o ho, hA o ho]
        rw [hplain, evalPolish, hsym]
        exact ih (.inl hs)

theorem fed_of_evalPolish {s' : List τ} (h : evalPolish A L xs [] = some s') : N.Fed xs := by
  induction xs with
  | nil => trivial
  | cons x xs ih =>
    cases x with
    | operand n => trivial
    | operator o => simp [evalPolish, evalSym] at h
    | opening => simp [evalPolish, evalSym] at h
    | closing => simp [evalPolish, evalSym] at h

end Evaluation

/-! ## Values that are spelled out -/

variable {ω' : Type*} (g : ω → ω')

/-- The values are postfix forms, with other names for the operators and without
the neutral signs. -/
def spelling (ν : Type*) : Algebra ν ω (List (Sym ν ω')) where
  operand n := some [.operand n]
  sign o x := some (if N.isNeutral o then x else x ++ [.operator (g o)])
  binary o x y := some (x ++ y ++ [.operator (g o)])

/-- A postfix form without its neutral signs, under the other names. -/
def spelled (xs : List (Sym ν ω)) : List (Sym ν ω') := (N.plain xs).map (Sym.retag g)

theorem spelled_append (xs ys : List (Sym ν ω)) :
    N.spelled g (xs ++ ys) = N.spelled g xs ++ N.spelled g ys := by
  simp [spelled]

theorem spelled_operator (o : ω) :
    N.spelled g ([.operator o] : List (Sym ν ω)) =
      if N.isNeutral o then [] else [.operator (g o)] := by
  cases hn : N.isNeutral o with
  | true => simp [spelled, plain, keepsSym, hn]
  | false => simp [spelled, plain, keepsSym, hn, Sym.retag]

theorem value_spelling {e : Expr ν ω} (hw : e.WellFormed L) :
    e.value (N.spelling g ν) = some (N.spelled g e.polish) := by
  induction e with
  | operand n => rfl
  | sign o e ih =>
    rw [Expr.value, ih hw.2.2, Expr.polish, spelled_append, spelled_operator]
    cases hn : N.isNeutral o <;> simp [spelling, hn]
  | binary o a b iha ihb =>
    rw [Expr.value, iha hw.2.1.2, ihb hw.2.2.2, Expr.polish, spelled_append, spelled_append,
      spelled_operator]
    simp [spelling, N.not_neutral hw.1]
  | group e ih => exact ih hw

/-- The values on the stack spell what has been read. -/
theorem flatten_evalPolish {s s' : List (List (Sym ν ω'))}
    (h : evalPolish (N.spelling g ν) L xs s = some s') :
    s'.reverse.flatten = s.reverse.flatten ++ N.spelled g xs := by
  induction xs generalizing s with
  | nil =>
    rw [Option.some.inj h]
    exact (List.append_nil _).symm
  | cons x xs ih =>
    obtain ⟨t, hx, hxs⟩ := Option.bind_eq_some_iff.mp h
    have hone : t.reverse.flatten = s.reverse.flatten ++ N.spelled g [x] := by
      cases x with
      | operand n =>
        obtain rfl : _ :: s = t := Option.some.inj hx
        have hspelled : N.spelled g [Sym.operand n] = [.operand n] := rfl
        simp [hspelled]
      | operator o =>
        rw [spelled_operator]
        cases hs : L.isSign o with
        | true =>
          simp only [evalSym, hs, if_true] at hx
          cases s with
          | nil => simp at hx
          | cons v s =>
            obtain rfl : _ :: s = t := Option.some.inj hx
            cases hn : N.isNeutral o <;> simp
        | false =>
          have hn := N.not_neutral hs
          simp only [evalSym, hs] at hx
          cases s with
          | nil => simp at hx
          | cons v s =>
            cases s with
            | nil => simp at hx
            | cons u s =>
              obtain rfl : _ :: s = t := Option.some.inj hx
              simp [hn]
      | opening => simp [evalSym] at hx
      | closing => simp [evalSym] at hx
    rw [ih hxs, hone, List.append_assoc, ← spelled_append, List.singleton_append]

end Signs

/-! ## Counting the values -/

variable (L)

/-- The number of values behind an operator; `none` if there are too few. -/
def countOperator (n : ℕ) (o : ω) : Option ℕ :=
  if L.isSign o then if 1 ≤ n then some n else none
  else if 2 ≤ n then some (n - 1) else none

def countSym (n : ℕ) : Sym ν ω → Option ℕ
  | .operand _ => some (n + 1)
  | .operator o => countOperator L n o
  | _ => none

/-- The number of values behind the symbols of a postfix form. -/
def count (n : ℕ) (xs : List (Sym ν ω)) : Option ℕ := xs.foldlM (countSym L) n

/-- The number of values, and the operators that wait for theirs. -/
def tallySym (t : ℕ × List (Option ω)) : Sym ν ω → Option (ℕ × List (Option ω))
  | .operand _ => some (t.1 + 1, t.2)
  | .operator o =>
    ((t.2.takeWhile (L.yields o)).reduceOption.foldlM (countOperator L) t.1).map
      (·, some o :: t.2.dropWhile (L.yields o))
  | .opening => some (t.1, none :: t.2)
  | .closing => (t.2.reduceOption.foldlM (countOperator L) t.1).map (·, [])

/-- At the end a parenthesis that is still open is one value more. -/
def countHeld (n : ℕ) : Option ω → Option ℕ
  | some o => countOperator L n o
  | none => some (n + 1)

/-- The number of values behind the symbols of an infix form, if each operator
is released by the next operator that binds no stronger, by the next closing
parenthesis, or by the end, whichever comes first. -/
def tally (xs : List (Sym ν ω)) : Option ℕ :=
  (xs.foldlM (tallySym L) (0, [])).bind fun t => t.2.foldlM (countHeld L) t.1

variable {L}

theorem count_append (n : ℕ) (xs ys : List (Sym ν ω)) :
    count L n (xs ++ ys) = (count L n xs).bind fun m => count L m ys := List.foldlM_append

theorem count_released (n : ℕ) (s : List (Option ω)) :
    count L n (released s : List (Sym ν ω)) = s.reduceOption.foldlM (countOperator L) n := by
  rw [count, released, List.foldlM_map]
  rfl

/-- What is written at the end for a held entry. -/
inductive Rests : Option ω → Sym ν ω → Prop
  | operator (o : ω) : Rests (some o) (.operator o)
  | operand (n : ν) : Rests none (.operand n)

theorem count_rests {s : List (Option ω)} {fin : List (Sym ν ω)} (h : List.Forall₂ Rests s fin)
    (n : ℕ) : count L n fin = s.foldlM (countHeld L) n := by
  induction h generalizing n with
  | nil => rfl
  | @cons p x s fin hx _ ih =>
    have hone : countSym L n x = countHeld L n p := by cases hx <;> rfl
    rw [count, List.foldlM_cons, List.foldlM_cons, hone]
    exact congrArg (countHeld L n p >>= ·) (funext ih)

/-- The tally counts what the hasty conversion writes. -/
theorem tally_hastyRun (xs : List (Sym ν ω)) {y : Yard ν ω} :
    ((count L 0 y.output).bind fun n => xs.foldlM (tallySym L) (n, y.stack)) =
      (count L 0 (Yard.hastyRun L y xs).output).map (·, (Yard.hastyRun L y xs).stack) := by
  induction xs generalizing y with
  | nil =>
    change (count L 0 y.output).bind _ = (count L 0 y.output).map _
    cases count L 0 y.output <;> rfl
  | cons x xs ih =>
    rw [Yard.hastyRun_cons, ← ih]
    have hone : ((count L 0 y.output).bind fun n => tallySym L (n, y.stack) x) =
        (count L 0 (Yard.hastyStep L y x).output).map (·, (Yard.hastyStep L y x).stack) := by
      cases x with
      | operand n =>
        simp only [Yard.hastyStep, count_append]
        cases count L 0 y.output <;> rfl
      | opening =>
        simp only [Yard.hastyStep]
        cases count L 0 y.output <;> rfl
      | operator o =>
        simp only [Yard.hastyStep, count_append, count_released]
        cases count L 0 y.output <;> rfl
      | closing =>
        simp only [Yard.hastyStep, count_append, count_released]
        cases count L 0 y.output <;> rfl
    have hmap : ∀ t : Option ℕ, (t.bind fun n =>
        xs.foldlM (tallySym L) (n, (Yard.hastyStep L y x).stack)) =
          (t.map (·, (Yard.hastyStep L y x).stack)).bind fun t => xs.foldlM (tallySym L) t := by
      intro t
      cases t <;> rfl
    rw [hmap, ← hone, Option.bind_assoc]
    rfl

theorem count_hastyRun {xs fin : List (Sym ν ω)}
    (h : List.Forall₂ Rests (Yard.hastyRun L ⟨[], []⟩ xs).stack fin) :
    count L 0 ((Yard.hastyRun L ⟨[], []⟩ xs).output ++ fin) = tally L xs := by
  have htally : xs.foldlM (tallySym L) (0, []) =
      (count L 0 (Yard.hastyRun L ⟨[], []⟩ xs).output).map
        (·, (Yard.hastyRun L ⟨[], []⟩ xs).stack) := tally_hastyRun xs (y := ⟨[], []⟩)
  rw [count_append, tally, htally]
  cases count L 0 (Yard.hastyRun L ⟨[], []⟩ xs).output with
  | none => rfl
  | some n => exact count_rests h n

section Evaluation

variable {τ : Type*} {A : Algebra ν ω τ}

theorem count_evalSym {x : Sym ν ω} {s s' : List τ} (h : evalSym A L s x = some s') :
    countSym L s.length x = some s'.length := by
  cases x with
  | operand n =>
    obtain ⟨v, -, rfl⟩ := Option.map_eq_some_iff.mp h
    rfl
  | operator o =>
    simp only [evalSym] at h
    split at h
    · next hs =>
      cases s with
      | nil => simp at h
      | cons v s =>
        obtain ⟨w, -, rfl⟩ := Option.map_eq_some_iff.mp h
        simp [countSym, countOperator, hs]
    · next hs =>
      cases s with
      | nil => simp at h
      | cons v s =>
        cases s with
        | nil => simp at h
        | cons u s =>
          obtain ⟨w, -, rfl⟩ := Option.map_eq_some_iff.mp h
          simp [countSym, countOperator, hs]
  | opening => simp [evalSym] at h
  | closing => simp [evalSym] at h

variable {xs : List (Sym ν ω)}

theorem count_evalPolish {s s' : List τ}
    (h : evalPolish A L xs s = some s') : count L s.length xs = some s'.length := by
  induction xs generalizing s with
  | nil => exact congrArg (fun s => some s.length) (Option.some.inj h)
  | cons x xs ih =>
    obtain ⟨t, hx, hxs⟩ := Option.bind_eq_some_iff.mp h
    rw [count, List.foldlM_cons, count_evalSym hx]
    exact ih hxs

/-- Where no operand and no operator fails, it is enough to count. -/
theorem exists_evalPolish (hoperand : ∀ n, ∃ v, A.operand n = some v)
    (hsign : ∀ o v, ∃ w, A.sign o v = some w) (hbinary : ∀ o u v, ∃ w, A.binary o u v = some w)
    {s : List τ} {m : ℕ} (h : count L s.length xs = some m) :
    ∃ s', evalPolish A L xs s = some s' := by
  induction xs generalizing s with
  | nil => exact ⟨s, rfl⟩
  | cons x xs ih =>
    rw [count, List.foldlM_cons] at h
    obtain ⟨k, hk, hxs⟩ := Option.bind_eq_some_iff.mp h
    have hone : ∃ t, evalSym A L s x = some t := by
      cases x with
      | operand n =>
        obtain ⟨v, hv⟩ := hoperand n
        exact ⟨v :: s, by simp [evalSym, hv]⟩
      | operator o =>
        cases hs : L.isSign o with
        | true =>
          cases s with
          | nil => simp [countSym, countOperator, hs] at hk
          | cons v s =>
            obtain ⟨w, hv⟩ := hsign o v
            exact ⟨w :: s, by simp [evalSym, hs, hv]⟩
        | false =>
          cases s with
          | nil => simp [countSym, countOperator, hs] at hk
          | cons v s =>
            cases s with
            | nil => simp [countSym, countOperator, hs] at hk
            | cons u s =>
              obtain ⟨w, hv⟩ := hbinary o u v
              exact ⟨w :: s, by simp [evalSym, hs, hv]⟩
      | opening => simp [countSym] at hk
      | closing => simp [countSym] at hk
    obtain ⟨t, ht⟩ := hone
    have hlen : t.length = k := Option.some.inj ((count_evalSym ht).symm.trans hk)
    obtain ⟨s', hs'⟩ := ih (hlen ▸ hxs)
    exact ⟨s', by rw [evalPolish, ht]; exact hs'⟩

end Evaluation

end Infix
