import VcuCodec.InfixExpressions

/-!
# A conversion that releases too early

The stack conversion of infix expressions with two changes: a closing
parenthesis releases every operator that is held back, and not only those
behind its opening one, and a sign releases the sign in front of it.  But for
the signs without a meaning, it still writes the postfix form of an expression
if no sign follows a sign and nothing but closing parentheses follows a closing
parenthesis in the right operand of an operator.
-/

namespace Infix

variable {ν ω : Type*}

namespace Yard

variable (L : Operators ω)

/-- The symbol `x` of the infix form, in haste. -/
def hastyStep (y : Yard ν ω) : Sym ν ω → Yard ν ω
  | .operand n => { y with output := y.output ++ [.operand n] }
  | .operator o =>
    { output := y.output ++ released (y.stack.takeWhile (L.yields o))
      stack := some o :: y.stack.dropWhile (L.yields o) }
  | .opening => { y with stack := none :: y.stack }
  | .closing => { output := y.output ++ released y.stack, stack := [] }

def hastyRun (y : Yard ν ω) (xs : List (Sym ν ω)) : Yard ν ω := xs.foldl (hastyStep L) y

theorem hastyRun_append (y : Yard ν ω) (xs ys : List (Sym ν ω)) :
    hastyRun L y (xs ++ ys) = hastyRun L (hastyRun L y xs) ys := List.foldl_append ..

theorem hastyRun_cons (y : Yard ν ω) (x : Sym ν ω) (xs : List (Sym ν ω)) :
    hastyRun L y (x :: xs) = hastyRun L (hastyStep L y x) xs := rfl

end Yard

/-- Behind a closing parenthesis come closing parentheses only. -/
def ClosesLast (xs : List (Sym ν ω)) : Prop :=
  ∀ pre post, xs = pre ++ .closing :: post → ∀ x ∈ post, x = .closing

theorem closesLast_of_notMem {xs : List (Sym ν ω)} (h : .closing ∉ xs) : ClosesLast xs := by
  rintro pre post rfl
  simp at h

variable {xs ys : List (Sym ν ω)}

theorem ClosesLast.of_append (h : ClosesLast (xs ++ ys)) : ClosesLast ys := by
  rintro pre post rfl
  exact h (xs ++ pre) post (by simp)

theorem ClosesLast.notMem {x : Sym ν ω} (h : ClosesLast (xs ++ x :: ys))
    (hx : x ≠ .closing) : .closing ∉ xs := fun hm => by
  obtain ⟨pre, post, rfl⟩ := List.append_of_mem hm
  exact hx (h pre (post ++ x :: ys) (by simp) x (by simp))

theorem closesLast_group {xs : List (Sym ν ω)} :
    ClosesLast (.opening :: (xs ++ [.closing])) ↔ ClosesLast xs := by
  constructor
  · intro h pre post hxs x hx
    exact h (.opening :: pre) (post ++ [.closing]) (by simp [hxs]) x (by simp [hx])
  · intro h pre post heq x hx
    cases pre with
    | nil => simp at heq
    | cons y pre =>
      rw [List.cons_append, List.cons.injEq] at heq
      rcases List.append_eq_append_iff.mp heq.2 with ⟨as, rfl, has⟩ | ⟨bs, rfl, hbs⟩
      · cases as with
        | nil =>
          rw [List.nil_append, List.cons.injEq] at has
          simp [← has.2] at hx
        | cons a as => simp at has
      · cases bs with
        | nil =>
          rw [List.nil_append, List.cons.injEq] at hbs
          simp [hbs.2] at hx
        | cons b bs =>
          rw [List.cons_append, List.cons.injEq] at hbs
          rw [hbs.2, List.mem_append, List.mem_singleton] at hx
          exact hx.elim (h pre bs (by rw [hbs.1]) x) id

theorem closesLast_cons {x : Sym ν ω} {xs : List (Sym ν ω)} (hx : x ≠ .closing) :
    ClosesLast (x :: xs) ↔ ClosesLast xs := by
  refine ⟨fun h => (show ClosesLast ([x] ++ xs) from h).of_append, fun h pre post heq => ?_⟩
  cases pre with
  | nil =>
    rw [List.nil_append, List.cons.injEq] at heq
    exact absurd heq.1 hx
  | cons y pre =>
    rw [List.cons_append, List.cons.injEq] at heq
    exact h pre post heq.2

theorem closesLast_append (hxs : .closing ∉ xs) (hys : ClosesLast ys) : ClosesLast (xs ++ ys) := by
  induction xs with
  | nil => exact hys
  | cons x xs ih =>
    have hx : x ≠ .closing := fun e => hxs (by simp [e])
    exact (closesLast_cons hx).mpr (ih fun hm => hxs (List.mem_cons_of_mem _ hm))

/-- The signs of a language bind equally strong, and some of them leave their
operand as it is. -/
structure Signs (L : Operators ω) where
  isNeutral : ω → Bool
  isSign : ∀ o, isNeutral o = true → L.isSign o = true
  prec_le : ∀ s s', L.isSign s = true → L.isSign s' = true → L.prec s ≤ L.prec s'

namespace Signs

variable {L : Operators ω} (N : Signs L)

/-- A held operator is no neutral sign. -/
def keeps : Option ω → Bool
  | some o => !N.isNeutral o
  | none => true

/-- A symbol is no neutral sign. -/
def keepsSym : Sym ν ω → Bool
  | .operator o => !N.isNeutral o
  | _ => true

/-- A stack without its neutral signs. -/
def strip (s : List (Option ω)) : List (Option ω) := s.filter N.keeps

/-- Symbols without neutral signs. -/
def plain (xs : List (Sym ν ω)) : List (Sym ν ω) := xs.filter N.keepsSym

@[simp] theorem strip_nil : N.strip [] = [] := rfl

@[simp] theorem strip_append (s t : List (Option ω)) :
    N.strip (s ++ t) = N.strip s ++ N.strip t := List.filter_append ..

@[simp] theorem strip_none (s : List (Option ω)) : N.strip (none :: s) = none :: N.strip s := rfl

variable {o : ω}

theorem strip_some (h : N.isNeutral o = false) (s : List (Option ω)) :
    N.strip (some o :: s) = some o :: N.strip s :=
  List.filter_cons_of_pos (by simp [keeps, h])

theorem strip_neutral (h : N.isNeutral o = true) (s : List (Option ω)) :
    N.strip (some o :: s) = N.strip s :=
  List.filter_cons_of_neg (by simp [keeps, h])

@[simp] theorem plain_append (xs ys : List (Sym ν ω)) :
    N.plain (xs ++ ys) = N.plain xs ++ N.plain ys := List.filter_append ..

@[simp] theorem plain_released (s : List (Option ω)) :
    N.plain (released s : List (Sym ν ω)) = released (N.strip s) := by
  induction s with
  | nil => rfl
  | cons p s ih =>
    cases p with
    | none => exact ih
    | some o =>
      cases ho : N.isNeutral o with
      | true =>
        rw [N.strip_neutral ho, released_some, ← ih]
        exact List.filter_cons_of_neg (by simp [keepsSym, ho])
      | false =>
        rw [N.strip_some ho, released_some, released_some, ← ih]
        exact List.filter_cons_of_pos (by simp [keepsSym, ho])

theorem not_neutral (h : L.isSign o = false) : N.isNeutral o = false :=
  Bool.eq_false_iff.mpr fun hn => by simp [N.isSign o hn] at h

theorem yields_of_not_keeps {p : Option ω} (h : N.keeps p = false) : L.yields o p = true := by
  cases p with
  | none => simp [keeps] at h
  | some p =>
    have hp : L.isSign p = true := N.isSign p (by simpa [keeps] using h)
    cases ho : L.isSign o with
    | true => exact decide_eq_true (N.prec_le o p ho hp)
    | false => exact decide_eq_true (L.sign_above p o hp ho).le

theorem takeWhile_strip (o : ω) (s : List (Option ω)) :
    N.strip (s.takeWhile (L.yields o)) = (N.strip s).takeWhile (L.yields o) := by
  have hp : (fun p => !N.keeps p || L.yields o p) = L.yields o := by
    funext p
    cases hk : N.keeps p with
    | true => rfl
    | false => exact (N.yields_of_not_keeps hk).symm
  rw [strip, strip, List.takeWhile_filter, hp]

theorem dropWhile_strip (o : ω) (s : List (Option ω)) :
    N.strip (s.dropWhile (L.yields o)) = (N.strip s).dropWhile (L.yields o) := by
  have hp : (fun p => !N.keeps p || L.yields o p) = L.yields o := by
    funext p
    cases hk : N.keeps p with
    | true => rfl
    | false => exact (N.yields_of_not_keeps hk).symm
  rw [strip, strip, List.dropWhile_filter, hp]

/-- The newest held operators are signs without a meaning, if they are signs. -/
def Calm (s : List (Option ω)) : Prop :=
  ∀ o, L.isSign o = true → N.strip (s.takeWhile (L.yields o)) = []

theorem calm_none (s : List (Option ω)) : N.Calm (none :: s) := fun _ _ => rfl

theorem calm_nil : N.Calm [] := fun _ _ => rfl

theorem calm_of_not_sign (ho : L.isSign o = false) (s : List (Option ω)) :
    N.Calm (some o :: s) := fun o' ho' => by
  have hno : ¬ L.yields o' (some o) = true := by
    simpa [Operators.yields] using L.sign_above o' o ho' ho
  rw [List.takeWhile_cons_of_neg hno]
  rfl

include N in
/-- Behind a sign that has released the signs in front of it. -/
theorem takeWhile_pushed {o o' : ω} (ho : L.isSign o = true) (ho' : L.isSign o' = true)
    (s : List (Option ω)) :
    (some o :: s.dropWhile (L.yields o)).takeWhile (L.yields o') = [some o] := by
  have heq : L.yields o' = L.yields o := by
    funext p
    cases p with
    | none => rfl
    | some p =>
      have h1 := N.prec_le o o' ho ho'
      have h2 := N.prec_le o' o ho' ho
      exact congrArg (fun n => decide (n ≤ L.prec p)) (by omega)
  have hyields : L.yields o' (some o) = true := decide_eq_true (N.prec_le o' o ho' ho)
  rw [List.takeWhile_cons_of_pos hyields, heq]
  cases h : s.dropWhile (L.yields o) with
  | nil => rfl
  | cons p t =>
    have hne : s.dropWhile (L.yields o) ≠ [] := by simp [h]
    have hp := List.head_dropWhile_not (L.yields o) hne
    simp only [h, List.head_cons] at hp
    rw [List.takeWhile_cons_of_neg (by simp [hp])]

theorem calm_neutral (ho : N.isNeutral o = true) (s : List (Option ω)) :
    N.Calm (some o :: s.dropWhile (L.yields o)) := fun o' ho' => by
  rw [N.takeWhile_pushed (N.isSign o ho) ho', N.strip_neutral ho]
  rfl

end Signs

namespace Expr

/-- The expression does not begin with a sign. -/
def Unsigned : Expr ν ω → Prop
  | sign _ _ => False
  | binary _ a _ => a.Unsigned
  | _ => True

/-- The expressions that the hasty conversion gets right. -/
def Safe {L : Operators ω} (N : Signs L) : Expr ν ω → Prop
  | operand _ => True
  | sign o e => e.Safe N ∧ (N.isNeutral o = false → e.Unsigned ∧ ClosesLast e.symbols)
  | binary _ a b => a.Safe N ∧ b.Safe N ∧ ClosesLast b.symbols
  | group e => e.Safe N

end Expr

/-! ## Expressions that are converted -/

namespace Yard

variable {L : Operators ω} (N : Signs L)

/-- Both conversions have written the same, and hold back the same operators,
but for neutral signs. -/
def Sync (c k : Yard ν ω) : Prop :=
  N.plain k.output = N.plain c.output ∧
    ∃ b, N.strip c.stack = N.strip k.stack ++ b ∧ ∀ p ∈ b, p = none

/-- The hasty conversion has written what the other one holds back. -/
def Flushed (c k : Yard ν ω) : Prop :=
  k.stack = [] ∧ N.plain k.output = N.plain c.output ++ released (N.strip c.stack)

theorem released_nones {b : List (Option ω)} (h : ∀ p ∈ b, p = none) :
    (released b : List (Sym ν ω)) = [] := by
  induction b with
  | nil => rfl
  | cons p b ih =>
    rw [h p List.mem_cons_self]
    exact ih fun p hp => h p (List.mem_cons_of_mem _ hp)

theorem yields_none (o : ω) : L.yields o none = false := rfl

theorem takeWhile_append_nones {o : ω} {s b : List (Option ω)} (hb : ∀ p ∈ b, p = none) :
    (s ++ b).takeWhile (L.yields o) = s.takeWhile (L.yields o) ∧
      (s ++ b).dropWhile (L.yields o) = s.dropWhile (L.yields o) ++ b := by
  induction s with
  | nil =>
    cases b with
    | nil => exact ⟨rfl, rfl⟩
    | cons p b =>
      have hp : ¬ L.yields o p = true := by simp [hb p List.mem_cons_self, yields_none]
      simp [hp]
  | cons p s ih =>
    by_cases hp : L.yields o p = true
    · simp [hp, ih]
    · simp [hp]

variable {N}

variable {c k : Yard ν ω}

theorem sync_sign {o : ω} (ho : L.isSign o = true) (hcalm : N.Calm k.stack)
    (h : Sync N c k) : Sync N (step L c (.operator o)) (hastyStep L k (.operator o)) := by
  obtain ⟨hout, b, hb, hnone⟩ := h
  have htake := hcalm o ho
  have hdrop : N.strip (k.stack.dropWhile (L.yields o)) = N.strip k.stack := by
    rw [← List.takeWhile_append_dropWhile (p := L.yields o) (l := k.stack), N.strip_append, htake,
      List.nil_append, List.takeWhile_append_dropWhile]
  have hstep : step L c (.operator o) = { c with stack := some o :: c.stack } := by
    simp [step, ho]
  rw [hstep]
  refine ⟨?_, b, ?_, hnone⟩
  · simp [hastyStep, hout, htake]
  · cases hn : N.isNeutral o with
    | true => simp only [hastyStep, N.strip_neutral hn, hdrop, hb]
    | false => simp only [hastyStep, N.strip_some hn, hdrop, hb, List.cons_append]

variable {s : List (Option ω)}

theorem sync_operator {o : ω} {a b : Expr ν ω}
    (hw : (Expr.binary o a b).WellFormed L) (hs : (Expr.binary o a b).Fits L s)
    (hc : c.stack = a.held ++ s) (h : Sync N c k ∨ Flushed N c k ∧ ∀ p ∈ N.strip s, p = none) :
    Sync N (step L c (.operator o)) (hastyStep L k (.operator o)) := by
  obtain ⟨htake, hdrop⟩ := Expr.takeWhile_yields hw hs
  have hn := N.not_neutral hw.1
  have hstep : step L c (.operator o) = ⟨c.output ++ released a.held, some o :: s⟩ := by
    rw [step, if_neg (by simp [hw.1])]
    simp only [hc, htake, hdrop]
  rw [hstep]
  rcases h with ⟨hout, b, hb, hnone⟩ | ⟨⟨hstack, hout⟩, hnone⟩
  · obtain ⟨htake', hdrop'⟩ :=
      takeWhile_append_nones (L := L) (o := o) (s := N.strip k.stack) hnone
    rw [← hb, ← N.takeWhile_strip, ← N.takeWhile_strip, hc, htake] at htake'
    rw [← hb, ← N.dropWhile_strip, ← N.dropWhile_strip, hc, hdrop] at hdrop'
    refine ⟨?_, b, ?_, hnone⟩
    · simp only [hastyStep, N.plain_append, N.plain_released, ← htake', hout]
    · simp only [hastyStep, N.strip_some hn, hdrop', List.cons_append]
  · refine ⟨?_, N.strip s, ?_, hnone⟩
    · simp [hastyStep, hstack, hout, hc, released_nones hnone]
    · simp [hastyStep, hstack, N.strip_some hn]

variable {e : Expr ν ω}

/-- A closing parenthesis releases what the other conversion holds back. -/
theorem flushed_closing (hc : c.stack = e.held ++ none :: s) (h : Sync N c k ∨ Flushed N c k) :
    Flushed N (step L c .closing) (hastyStep L k .closing) := by
  have htake : c.stack.takeWhile Option.isSome = e.held := by
    rw [hc, List.takeWhile_append_of_pos Expr.isSome_of_held, List.takeWhile_cons_of_neg (by simp),
      List.append_nil]
  have hdrop : c.stack.dropWhile Option.isSome = none :: s := by
    rw [hc, List.dropWhile_append_of_pos Expr.isSome_of_held, List.dropWhile_cons_of_neg (by simp)]
  have hstep : step L c .closing = ⟨c.output ++ released e.held, s⟩ := by
    simp only [step, htake, hdrop, List.tail_cons]
  rw [hstep]
  refine ⟨rfl, ?_⟩
  rcases h with ⟨hout, b, hb, hnone⟩ | ⟨hstack, hout⟩
  · have hrel : (released (N.strip c.stack) : List (Sym ν ω)) = released (N.strip k.stack) := by
      rw [hb, released_append, released_nones hnone, List.append_nil]
    simp only [hastyStep, hout, N.plain_append, N.plain_released, ← hrel, hc, N.strip_append,
      N.strip_none, released_append, released_none, List.append_assoc]
  · simp only [hastyStep, hstack, hout, hc, N.plain_append, N.plain_released, N.strip_append,
      N.strip_none, released_append, released_none, released_nil, List.append_nil,
      List.append_assoc]

theorem sync_or_flushed (hw : e.WellFormed L) (hsafe : e.Safe N)
    (hs : e.Fits L c.stack) (hsign : e.Unsigned ∨ N.Calm k.stack) (h : Sync N c k)
    (hlast : (∀ p ∈ N.strip c.stack, p = none) ∨ ClosesLast e.symbols) :
    (Sync N (run L c e.symbols) (hastyRun L k e.symbols) ∨
      Flushed N (run L c e.symbols) (hastyRun L k e.symbols)) ∧
      (.closing ∉ e.symbols → Sync N (run L c e.symbols) (hastyRun L k e.symbols)) := by
  induction e generalizing c k with
  | operand n =>
    obtain ⟨hout, b, hb, hnone⟩ := h
    have hsync : Sync N (run L c (Expr.operand n).symbols)
        (hastyRun L k (Expr.operand n).symbols) := by
      refine ⟨?_, b, hb, hnone⟩
      simp [run, hastyRun, step, hastyStep, Expr.symbols, hout]
    exact ⟨.inl hsync, fun _ => hsync⟩
  | sign o e ih =>
    obtain ⟨hsafe, hmeans⟩ := hsafe
    have hcalm : N.Calm k.stack := hsign.resolve_left id
    have hstep : step L c (.operator o) = { c with stack := some o :: c.stack } := by
      simp [step, hw.1]
    have hsync := sync_sign hw.1 hcalm h
    have hfits : e.Fits L (step L c (.operator o)).stack := Expr.fits_of_factor hw.2.1
    -- what a neutral sign leaves behind is calm, and what waits is as before
    have hnext : (e.Unsigned ∨ N.Calm (hastyStep L k (.operator o)).stack) ∧
        ((∀ p ∈ N.strip (step L c (.operator o)).stack, p = none) ∨ ClosesLast e.symbols) := by
      cases hn : N.isNeutral o with
      | true =>
        refine ⟨.inr (N.calm_neutral hn _), hlast.imp (fun hall => ?_) fun hcl => ?_⟩
        · rwa [hstep, N.strip_neutral hn]
        · exact (closesLast_cons (by simp)).mp hcl
      | false => exact ⟨.inl (hmeans hn).1, .inr (hmeans hn).2⟩
    obtain ⟨hend, hfree⟩ := ih hw.2.2 hsafe hfits hnext.1 hsync hnext.2
    exact ⟨hend, fun hm => hfree fun h => hm (List.mem_cons_of_mem _ h)⟩
  | binary o a b iha ihb =>
    obtain ⟨hsafea, hsafeb, hcl⟩ := hsafe
    -- where operators wait in front of the expression, its left operand closes nothing
    have hleft : (∀ p ∈ N.strip c.stack, p = none) ∨ .closing ∉ a.symbols :=
      hlast.imp_right fun h => h.notMem (by simp)
    obtain ⟨hend, hfree⟩ := iha hw.2.1.2 hsafea (Expr.fits_of_left hs hw.2.1.1) hsign h
      (hleft.imp_right closesLast_of_notMem)
    have hstack := run_symbols hw.2.1.2 c (Expr.fits_of_left hs hw.2.1.1)
    have hmid : Sync N (step L (run L c a.symbols) (.operator o))
        (hastyStep L (hastyRun L k a.symbols) (.operator o)) := by
      refine sync_operator hw hs (by rw [hstack]) ?_
      rcases hleft with hnone | hm
      · exact hend.imp_right fun h => ⟨h, hnone⟩
      · exact .inl (hfree hm)
    have htop : (step L (run L c a.symbols) (.operator o)).stack = some o :: c.stack := by
      obtain ⟨-, hdrop⟩ := Expr.takeWhile_yields hw hs
      rw [hstack, step, if_neg (by simp [hw.1])]
      simp only [hdrop]
    rw [Expr.symbols, run_append, hastyRun_append, run_cons, hastyRun_cons]
    obtain ⟨hend', hfree'⟩ := ihb hw.2.2.2 hsafeb (htop ▸ Expr.fits_of_right hw.2.2.1)
      (.inr (N.calm_of_not_sign hw.1 _)) hmid (.inr hcl)
    exact ⟨hend', fun hm => hfree' fun h => hm (by simp [h])⟩
  | group e ih =>
    have hsync : Sync N (step L c .opening) (hastyStep L k .opening) := by
      obtain ⟨hout, b, hb, hnone⟩ := h
      exact ⟨hout, b, by simp [step, hastyStep, hb], hnone⟩
    have hlast' : (∀ p ∈ N.strip (step L c .opening).stack, p = none) ∨ ClosesLast e.symbols := by
      refine hlast.imp (fun hall p hp => ?_) closesLast_group.mp
      exact (List.mem_cons.mp hp).elim id (hall p)
    obtain ⟨hend, -⟩ := ih hw hsafe Expr.fits_of_none (.inr (N.calm_none _)) hsync hlast'
    have hstack := run_symbols (e := e) hw (step L c .opening) Expr.fits_of_none
    rw [Expr.symbols, run_cons, hastyRun_cons, run_append, hastyRun_append]
    refine ⟨.inr (flushed_closing (L := L) (e := e) (s := c.stack) (by rw [hstack]; rfl) hend),
      fun hm => ?_⟩
    simp at hm

/-- A safe expression is converted into its postfix form, but for neutral signs,
and no parenthesis is held back behind it. -/
theorem hastyRun_safe (hw : e.WellFormed L) (hsafe : e.Safe N) :
    N.plain ((hastyRun L ⟨[], []⟩ e.symbols).output ++
        released (hastyRun L ⟨[], []⟩ e.symbols).stack) = N.plain e.polish ∧
      ∀ p ∈ (hastyRun L ⟨[], []⟩ e.symbols).stack, p.isSome = true := by
  have hs : e.Fits L (⟨[], []⟩ : Yard ν ω).stack := Expr.fits_nil
  obtain ⟨hend, -⟩ := sync_or_flushed hw hsafe (c := ⟨[], []⟩) (k := ⟨[], []⟩) hs
    (.inr N.calm_nil) ⟨rfl, [], rfl, by simp⟩ (.inl (by simp))
  have hrun := run_symbols hw ⟨[], []⟩ hs
  rw [← finish_symbols hw, finish, N.plain_append, N.plain_append, N.plain_released,
    N.plain_released]
  rcases hend with ⟨hout, b, hb, hnone⟩ | ⟨hstack, hout⟩
  · rw [hout, hb, released_append, released_nones hnone, List.append_nil]
    refine ⟨rfl, fun p hp => ?_⟩
    by_cases hk : N.keeps p = true
    · have hmem : p ∈ N.strip (run L ⟨[], []⟩ e.symbols).stack :=
        hb ▸ List.mem_append_left _ (List.mem_filter.mpr ⟨hp, hk⟩)
      rw [hrun, List.append_nil] at hmem
      exact Expr.isSome_of_held p (List.mem_of_mem_filter hmem)
    · cases p with
      | none => exact absurd rfl hk
      | some o => rfl
  · rw [hstack, hout]
    simp

end Yard

end Infix
