import VcuCodec.HastyConversion

/-!
# Where a conversion that releases too early goes wrong

An expression that is not safe has an operand in front of which the hasty
conversion has written an operator too many.
-/

namespace Infix

variable {ν ω : Type*}

/-- The number of operands among the symbols. -/
def operands (xs : List (Sym ν ω)) : ℕ := xs.countP fun x => x matches .operand _

/-- Another name for each operator. -/
def Sym.retag {ω' : Type*} (g : ω → ω') : Sym ν ω → Sym ν ω'
  | .operand n => .operand n
  | .operator o => .operator (g o)
  | .opening => .opening
  | .closing => .closing

@[simp] theorem operands_retag {ω' : Type*} (g : ω → ω') (xs : List (Sym ν ω)) :
    operands (xs.map (Sym.retag g)) = operands xs := by
  unfold operands
  rw [List.countP_map]
  congr 1
  funext x
  cases x <;> rfl

theorem operands_released (s : List (Option ω)) :
    operands (released s : List (Sym ν ω)) = 0 := by
  unfold operands released
  rw [List.countP_map]
  exact List.countP_eq_zero.mpr fun o _ => by simp

@[simp] theorem operands_append (xs ys : List (Sym ν ω)) :
    operands (xs ++ ys) = operands xs + operands ys := List.countP_append

theorem length_eq_of_operand {xs ys rest rest' : List (Sym ν ω)} {n m : ν}
    (h : xs ++ .operand n :: rest = ys ++ .operand m :: rest') (hc : operands xs = operands ys) :
    xs.length = ys.length := by
  rcases List.append_eq_append_iff.mp h with ⟨as, rfl, has⟩ | ⟨bs, rfl, hbs⟩
  · cases as with
    | nil => simp
    | cons a as =>
      rw [List.cons_append, List.cons.injEq] at has
      simp [operands, ← has.1] at hc
  · cases bs with
    | nil => simp
    | cons b bs =>
      rw [List.cons_append, List.cons.injEq] at hbs
      simp [operands, ← hbs.1] at hc

namespace Signs

variable {L : Operators ω} (N : Signs L)

/-- A held entry is an operator with a meaning. -/
def bears : Option ω → Bool
  | some o => !N.isNeutral o
  | none => false

/-- The number of operators with a meaning on a stack. -/
def weight (s : List (Option ω)) : ℕ := s.countP N.bears

@[simp] theorem weight_nil : N.weight [] = 0 := rfl

@[simp] theorem weight_none (s : List (Option ω)) : N.weight (none :: s) = N.weight s := rfl

theorem weight_some {o : ω} (h : N.isNeutral o = false) (s : List (Option ω)) :
    N.weight (some o :: s) = N.weight s + 1 :=
  List.countP_cons_of_pos (by simp [bears, h])

theorem weight_neutral {o : ω} (h : N.isNeutral o = true) (s : List (Option ω)) :
    N.weight (some o :: s) = N.weight s :=
  List.countP_cons_of_neg (by simp [bears, h])

@[simp] theorem weight_append (s t : List (Option ω)) :
    N.weight (s ++ t) = N.weight s + N.weight t := List.countP_append

variable {s t : List (Option ω)}

theorem weight_le (h : s.Sublist t) : N.weight s ≤ N.weight t :=
  h.countP_le

theorem weight_cons_le (o : ω) (h : N.weight s < N.weight t) :
    N.weight (some o :: s) < N.weight (some o :: t) := by
  cases hn : N.isNeutral o with
  | true => rwa [N.weight_neutral hn, N.weight_neutral hn]
  | false =>
    rw [N.weight_some hn, N.weight_some hn]
    omega

@[simp] theorem length_plain_released (s : List (Option ω)) :
    (N.plain (released s : List (Sym ν ω))).length = N.weight s := by
  induction s with
  | nil => rfl
  | cons p s ih =>
    cases p with
    | none => exact ih
    | some o =>
      rw [N.plain_released] at ih ⊢
      cases hn : N.isNeutral o with
      | true => rw [N.strip_neutral hn, N.weight_neutral hn, ih]
      | false => rw [N.strip_some hn, N.weight_some hn, released_some, List.length_cons, ih]

theorem weight_split (p : Option ω → Bool) (s : List (Option ω)) :
    N.weight (s.takeWhile p) + N.weight (s.dropWhile p) = N.weight s := by
  rw [← N.weight_append, List.takeWhile_append_dropWhile]

theorem weight_tail (s : List (Option ω)) :
    N.weight (s.dropWhile Option.isSome).tail = N.weight (s.dropWhile Option.isSome) := by
  cases h : s.dropWhile Option.isSome with
  | nil => rfl
  | cons p t =>
    have hne : s.dropWhile Option.isSome ≠ [] := by simp [h]
    have hp := List.head_dropWhile_not Option.isSome hne
    simp only [h, List.head_cons] at hp
    cases p with
    | none => rfl
    | some o => simp at hp

theorem operands_plain (xs : List (Sym ν ω)) : operands (N.plain xs) = operands xs := by
  unfold operands plain
  rw [List.countP_filter]
  congr 1
  funext x
  cases x <;> simp [keepsSym]

end Signs

namespace Yard

variable {L : Operators ω} {N : Signs L}

/-- The hasty conversion has written as many operands, and at least as many
operators: it holds back part of what the other one holds back. -/
structure Ahead (N : Signs L) (c k : Yard ν ω) : Prop where
  stack : k.stack.Sublist c.stack
  operands : operands k.output = operands c.output
  length : (N.plain k.output).length + N.weight k.stack =
    (N.plain c.output).length + N.weight c.stack

theorem sublist_dropWhile {α : Type*} {p : α → Bool} {s t : List α} (h : s.Sublist t) :
    (s.dropWhile p).Sublist (t.dropWhile p) := by
  induction h with
  | slnil => exact .slnil
  | @cons s t a h ih =>
    by_cases ha : p a = true
    · rwa [List.dropWhile_cons_of_pos ha]
    · rw [List.dropWhile_cons_of_neg ha]
      exact (List.dropWhile_sublist _).trans (h.cons a)
  | @cons_cons s t a h ih =>
    by_cases ha : p a = true
    · rwa [List.dropWhile_cons_of_pos ha, List.dropWhile_cons_of_pos ha]
    · rw [List.dropWhile_cons_of_neg ha, List.dropWhile_cons_of_neg ha]
      exact h.cons_cons a

variable {o : ω}

theorem step_sign {c : Yard ν ω} (ho : L.isSign o = true) :
    Yard.step L c (.operator o) = { c with stack := some o :: c.stack } := by
  simp [Yard.step, ho]

variable {c k : Yard ν ω}

theorem sublist_step (h : k.stack.Sublist c.stack) (x : Sym ν ω) :
    (hastyStep L k x).stack.Sublist (Yard.step L c x).stack := by
  cases x with
  | operand n => exact h
  | opening => exact h.cons_cons none
  | closing => exact List.nil_sublist _
  | operator o =>
    cases ho : L.isSign o with
    | true =>
      simp only [Yard.step, ho, if_true]
      exact ((List.dropWhile_sublist _).trans h).cons_cons _
    | false =>
      simp only [Yard.step, ho]
      exact (sublist_dropWhile h).cons_cons _

theorem sublist_run (h : k.stack.Sublist c.stack) (xs : List (Sym ν ω)) :
    (hastyRun L k xs).stack.Sublist (Yard.run L c xs).stack := by
  induction xs generalizing c k with
  | nil => exact h
  | cons x xs ih => exact ih (sublist_step h x)

theorem Ahead.step (h : Ahead N c k) (x : Sym ν ω) :
    Ahead N (Yard.step L c x) (hastyStep L k x) := by
  have hnext := sublist_step (L := L) h.stack x
  obtain ⟨-, hop, hlen⟩ := h
  cases x with
  | operand n =>
    refine ⟨hnext, ?_, ?_⟩
    · simp [Yard.step, hastyStep, hop]
    · simp [Yard.step, hastyStep]
      omega
  | opening => exact ⟨hnext, hop, hlen⟩
  | closing =>
    have hc := N.weight_split Option.isSome c.stack
    have ht := N.weight_tail c.stack
    refine ⟨hnext, ?_, ?_⟩
    · simp [Yard.step, hastyStep, hop, operands_released]
    · simp only [Yard.step, hastyStep, N.plain_append, List.length_append,
        N.length_plain_released, N.weight_nil]
      omega
  | operator o =>
    have hc := N.weight_split (L.yields o) c.stack
    have hk := N.weight_split (L.yields o) k.stack
    have ho : ∀ s, N.weight (some o :: s) = N.weight s + N.weight [some o] := fun s => by
      rw [← List.singleton_append, N.weight_append, Nat.add_comm]
    cases hs : L.isSign o with
    | true =>
      refine ⟨hnext, ?_, ?_⟩
      · simp [Yard.step, hs, hastyStep, hop, operands_released]
      · simp only [Yard.step, hs, if_true, hastyStep, N.plain_append, List.length_append,
          N.length_plain_released, ho (k.stack.dropWhile _), ho c.stack]
        omega
    | false =>
      refine ⟨hnext, ?_, ?_⟩
      · simp [Yard.step, hs, hastyStep, hop, operands_released]
      · simp only [Yard.step, hs, hastyStep, N.plain_append, List.length_append,
          N.length_plain_released, ho (k.stack.dropWhile _), Bool.false_eq_true, if_false,
          ho (c.stack.dropWhile _)]
        omega

theorem Ahead.run (h : Ahead N c k) (xs : List (Sym ν ω)) :
    Ahead N (Yard.run L c xs) (hastyRun L k xs) := by
  induction xs generalizing c k with
  | nil => exact h
  | cons x xs ih => exact ih (h.step x)

/-- At an operand of `xs` the hasty conversion holds back fewer operators. -/
def Slips (N : Signs L) (c k : Yard ν ω) (xs : List (Sym ν ω)) : Prop :=
  ∃ pre n post, xs = pre ++ .operand n :: post ∧
    N.weight (hastyRun L k pre).stack < N.weight (Yard.run L c pre).stack

theorem Slips.cons {x : Sym ν ω} {xs : List (Sym ν ω)}
    (h : Slips N (Yard.step L c x) (hastyStep L k x) xs) : Slips N c k (x :: xs) := by
  obtain ⟨pre, n, post, rfl, hlt⟩ := h
  exact ⟨x :: pre, n, post, rfl, hlt⟩

variable {xs ys : List (Sym ν ω)}

theorem Slips.append_left
    (h : Slips N (Yard.run L c xs) (hastyRun L k xs) ys) : Slips N c k (xs ++ ys) := by
  obtain ⟨pre, n, post, rfl, hlt⟩ := h
  rw [← run_append, ← hastyRun_append] at hlt
  exact ⟨xs ++ pre, n, post, by simp, hlt⟩

theorem Slips.append_right (h : Slips N c k xs) : Slips N c k (xs ++ ys) := by
  obtain ⟨pre, n, post, rfl, hlt⟩ := h
  exact ⟨pre, n, post ++ ys, by simp, hlt⟩

theorem output_step (c : Yard ν ω) (x : Sym ν ω) : c.output <+: (Yard.step L c x).output := by
  cases x with
  | operand n => exact List.prefix_append ..
  | opening => exact List.prefix_rfl
  | closing => exact List.prefix_append ..
  | operator o =>
    cases ho : L.isSign o with
    | true => simp [Yard.step, ho]
    | false => simp [Yard.step, ho]

theorem output_hastyStep (k : Yard ν ω) (x : Sym ν ω) :
    k.output <+: (hastyStep L k x).output := by
  cases x with
  | operand n => exact List.prefix_append ..
  | opening => exact List.prefix_rfl
  | closing => exact List.prefix_append ..
  | operator o => exact List.prefix_append ..

theorem output_foldl {f : Yard ν ω → Sym ν ω → Yard ν ω} (h : ∀ c x, c.output <+: (f c x).output)
    (c : Yard ν ω) (xs : List (Sym ν ω)) : c.output <+: (xs.foldl f c).output := by
  induction xs generalizing c with
  | nil => exact List.prefix_rfl
  | cons x xs ih => exact (h c x).trans (ih _)

theorem output_run (c : Yard ν ω) (xs : List (Sym ν ω)) :
    c.output <+: (Yard.run L c xs).output := output_foldl output_step c xs

theorem output_hastyRun (k : Yard ν ω) (xs : List (Sym ν ω)) :
    k.output <+: (hastyRun L k xs).output := output_foldl output_hastyStep k xs

/-- A slip shows in what is written, whatever is written at the end. -/
theorem Slips.output_ne {ω' : Type*} (g : ω → ω') {xs fin fin' : List (Sym ν ω)}
    (h : Slips N ⟨[], []⟩ ⟨[], []⟩ xs) :
    (N.plain ((hastyRun L ⟨[], []⟩ xs).output ++ fin)).map (Sym.retag g) ≠
      (N.plain ((Yard.run L ⟨[], []⟩ xs).output ++ fin')).map (Sym.retag g) := by
  obtain ⟨pre, n, post, rfl, hlt⟩ := h
  have hahead : Ahead N (Yard.run L ⟨[], []⟩ pre) (hastyRun L ⟨[], []⟩ pre : Yard ν ω) :=
    Ahead.run ⟨.slnil, rfl, rfl⟩ pre
  rw [run_append, hastyRun_append, run_cons, hastyRun_cons]
  obtain ⟨r, hr⟩ := output_run (L := L) (Yard.step L (Yard.run L ⟨[], []⟩ pre) (.operand n)) post
  obtain ⟨r', hr'⟩ := output_hastyRun (L := L)
    (hastyStep L (hastyRun L ⟨[], []⟩ pre) (.operand n)) post
  rw [← hr, ← hr']
  intro he
  simp only [Yard.step, hastyStep, N.plain_append, List.append_assoc, List.singleton_append,
    List.map_append] at he
  have hop : operands ((N.plain (hastyRun L ⟨[], []⟩ pre).output).map (Sym.retag g)) =
      operands ((N.plain (Yard.run L ⟨[], []⟩ pre).output).map (Sym.retag g)) := by
    simp only [operands_retag, N.operands_plain, hahead.operands]
  have hle := length_eq_of_operand he hop
  rw [List.length_map, List.length_map] at hle
  have := hahead.length
  omega

variable {e : Expr ν ω}

theorem slips_of_lt (hw : e.WellFormed L)
    (h : N.weight k.stack < N.weight c.stack) : Slips N c k e.symbols := by
  induction e generalizing c k with
  | operand n => exact ⟨[], n, [], rfl, h⟩
  | sign o e ih =>
    refine Slips.cons (ih hw.2.2 ?_)
    rw [step_sign hw.1]
    exact N.weight_cons_le o ((N.weight_le (List.dropWhile_sublist _)).trans_lt h)
  | binary o a b iha _ => exact (iha hw.2.1.2 h).append_right
  | group e ih =>
    have hnext : N.weight (hastyStep L k .opening).stack < N.weight (Yard.step L c .opening).stack :=
      h
    exact Slips.cons (ih hw hnext).append_right

theorem hastyStep_closed {k : Yard ν ω} {a : Expr ν ω} (hw : a.WellFormed L)
    (ho : L.isSign o = false) (houter : a.Outer (L.prec o ≤ L.prec ·))
    (h : k.stack.Sublist a.held) : (hastyStep L k (.operator o)).stack = [some o] := by
  have hall : ∀ p ∈ k.stack, L.yields o p = true := fun p hp =>
    Expr.yields_of_held hw ho houter p (h.subset hp)
  simp only [hastyStep, List.dropWhile_eq_nil_iff.mpr hall]

/-- Behind an expression with a closing parenthesis only its own operators are
held back. -/
theorem sublist_held (hw : e.WellFormed L) (h : .closing ∈ e.symbols)
    (k : Yard ν ω) : (hastyRun L k e.symbols).stack.Sublist e.held := by
  induction e generalizing k with
  | operand n => simp [Expr.symbols] at h
  | sign o e ih =>
    have hm : .closing ∈ e.symbols := by simpa [Expr.symbols] using h
    exact (ih hw.2.2 hm _).trans (List.sublist_append_left ..)
  | binary o a b iha ihb =>
    rw [Expr.symbols, hastyRun_append, hastyRun_cons]
    by_cases hm : .closing ∈ b.symbols
    · exact (ihb hw.2.2.2 hm _).trans (List.sublist_append_left ..)
    · have hma : .closing ∈ a.symbols := by simpa [Expr.symbols, hm] using h
      have hstack := hastyStep_closed hw.2.1.2 hw.1 hw.2.1.1 (iha hw.2.1.2 hma k)
      have hrun := run_symbols (e := b) hw.2.2.2 ⟨[], [some o]⟩ (Expr.fits_of_right hw.2.2.1)
      have hstart : (hastyStep L (hastyRun L k a.symbols) (.operator o)).stack.Sublist
          (⟨[], [some o]⟩ : Yard ν ω).stack := by rw [hstack]
      have hsub := sublist_run (L := L) hstart b.symbols
      rwa [hrun] at hsub
  | group e _ =>
    rw [Expr.symbols, hastyRun_cons, hastyRun_append]
    exact List.nil_sublist _

theorem run_left {a b : Expr ν ω}
    (hw : (Expr.binary o a b).WellFormed L) (hs : (Expr.binary o a b).Fits L c.stack)
    (h : k.stack.Sublist c.stack) :
    (Yard.step L (Yard.run L c a.symbols) (.operator o)).stack = some o :: c.stack ∧
      (hastyStep L (hastyRun L k a.symbols) (.operator o)).stack.Sublist
        (Yard.step L (Yard.run L c a.symbols) (.operator o)).stack := by
  refine ⟨?_, sublist_step (sublist_run h _) _⟩
  obtain ⟨-, hdrop⟩ := Expr.takeWhile_yields hw hs
  rw [run_symbols hw.2.1.2 c (Expr.fits_of_left hs hw.2.1.1), Yard.step, if_neg (by simp [hw.1])]
  simp only [hdrop]

/-- Where operators wait in front of an expression, one of them is written too
early if the expression goes on behind a closing parenthesis. -/
theorem slips_of_not_closesLast (hw : e.WellFormed L)
    (hs : e.Fits L c.stack) (h : k.stack.Sublist c.stack) (hwait : 0 < N.weight c.stack)
    (hcl : ¬ ClosesLast e.symbols) : Slips N c k e.symbols := by
  induction e generalizing c k with
  | operand n => exact absurd (closesLast_of_notMem (by simp [Expr.symbols])) hcl
  | sign o e ih =>
    have hnext := sublist_step (L := L) h (.operator o)
    rw [Expr.symbols, closesLast_cons (by simp)] at hcl
    refine Slips.cons (ih hw.2.2 (Expr.fits_of_factor hw.2.1) hnext ?_ hcl)
    rw [step_sign hw.1]
    exact hwait.trans_le (N.weight_le (List.sublist_cons_self ..))
  | binary o a b _ ihb =>
    obtain ⟨hstack, hnext⟩ := run_left hw hs h
    have hn := N.not_neutral hw.1
    refine Slips.append_left (Slips.cons ?_)
    by_cases hm : .closing ∈ a.symbols
    · -- what waits in front of the expression has been written
      have hk := hastyStep_closed hw.2.1.2 hw.1 hw.2.1.1 (sublist_held hw.2.1.2 hm k)
      refine slips_of_lt hw.2.2.2 ?_
      rw [hk, hstack, N.weight_some hn, N.weight_some hn, N.weight_nil]
      omega
    · have hclb : ¬ ClosesLast b.symbols := fun hb =>
        hcl (closesLast_append hm ((closesLast_cons (by simp)).mpr hb))
      refine ihb hw.2.2.2 ?_ hnext ?_ hclb
      · rw [hstack]
        exact Expr.fits_of_right hw.2.2.1
      · rw [hstack, N.weight_some hn]
        omega
  | group e ih =>
    have hcle : ¬ ClosesLast e.symbols := fun he => hcl (closesLast_group.mpr he)
    have hnext := sublist_step (L := L) h .opening
    exact Slips.cons (ih hw Expr.fits_of_none hnext hwait hcle).append_right

theorem slips_of_signs (hw : e.WellFormed L) (ho : L.isSign o = true)
    (hfactor : e.Outer fun _ => False) (hn : N.isNeutral o = false)
    (h : k.stack.Sublist c.stack) (hun : ¬ e.Unsigned) :
    Slips N (Yard.step L c (.operator o)) (hastyStep L k (.operator o)) e.symbols := by
  cases e with
  | sign o' e =>
    have hyields : L.yields o' (some o) = true := decide_eq_true (N.prec_le o' o hw.1 ho)
    have hsub := ((List.dropWhile_sublist (L.yields o')).trans
      (List.dropWhile_sublist (L.yields o))).trans h
    refine Slips.cons (slips_of_lt hw.2.2 ?_)
    rw [step_sign ho, step_sign hw.1]
    simp only [hastyStep, List.dropWhile_cons_of_pos hyields]
    refine N.weight_cons_le o' ?_
    rw [N.weight_some hn]
    exact Nat.lt_succ_of_le (N.weight_le hsub)
  | operand n => exact absurd trivial hun
  | binary o' a b => exact hfactor.elim
  | group e => exact absurd trivial hun

theorem slips_of_not_safe (hw : e.WellFormed L)
    (hs : e.Fits L c.stack) (h : k.stack.Sublist c.stack) (hsafe : ¬ e.Safe N) :
    Slips N c k e.symbols := by
  induction e generalizing c k with
  | operand n => exact absurd trivial hsafe
  | sign o e ih =>
    have hnext := sublist_step (L := L) h (.operator o)
    have hs' : e.Fits L (Yard.step L c (.operator o)).stack := Expr.fits_of_factor hw.2.1
    refine Slips.cons ?_
    by_cases he : e.Safe N
    · have hmeans : ¬ (N.isNeutral o = false → e.Unsigned ∧ ClosesLast e.symbols) :=
        fun hm => hsafe ⟨he, hm⟩
      obtain ⟨hn, hm⟩ := Classical.not_imp.mp hmeans
      by_cases hun : e.Unsigned
      · refine slips_of_not_closesLast hw.2.2 hs' hnext ?_ fun hcl => hm ⟨hun, hcl⟩
        rw [step_sign hw.1, N.weight_some hn]
        omega
      · exact slips_of_signs hw.2.2 hw.1 hw.2.1 hn h hun
    · exact ih hw.2.2 hs' hnext he
  | binary o a b iha ihb =>
    by_cases ha : a.Safe N
    · obtain ⟨hstack, hnext⟩ := run_left hw hs h
      have hs' := hstack ▸ Expr.fits_of_right (s := c.stack) hw.2.2.1
      refine Slips.append_left (Slips.cons ?_)
      by_cases hb : b.Safe N
      · refine slips_of_not_closesLast hw.2.2.2 hs' hnext ?_ fun hcl => hsafe ⟨ha, hb, hcl⟩
        rw [hstack, N.weight_some (N.not_neutral hw.1)]
        omega
      · exact ihb hw.2.2.2 hs' hnext hb
    · exact (iha hw.2.1.2 (Expr.fits_of_left hs hw.2.1.1) h ha).append_right
  | group e ih =>
    have hnext := sublist_step (L := L) h .opening
    exact Slips.cons (ih hw Expr.fits_of_none hnext hsafe).append_right

theorem safe_of_hastyRun {ω' : Type*} (g : ω → ω') (hw : e.WellFormed L) {fin : List (Sym ν ω)}
    (h : (N.plain ((hastyRun L ⟨[], []⟩ e.symbols).output ++ fin)).map (Sym.retag g) =
      (N.plain e.polish).map (Sym.retag g)) : e.Safe N := by
  by_contra hsafe
  have hs : e.Fits L (⟨[], []⟩ : Yard ν ω).stack := Expr.fits_nil
  have hslip := slips_of_not_safe hw (c := ⟨[], []⟩) (k := ⟨[], []⟩) hs .slnil hsafe
  rw [← finish_symbols hw, finish] at h
  exact hslip.output_ne g h

end Yard

end Infix
