import VcuCodec.ConfigParser
import VcuCodec.HastyEvaluation

/-!
# The value of an arithmetic setting

`toReversePolish` is the hasty stack conversion: the token in the loop of a
closing parenthesis hides the one that the loop waits for, and a sign counts as
left associative.  `parseArithmetic` therefore evaluates some expressions, but
not all, and accepts token sequences that are none.
-/

namespace VcuCodec.CfgParsing

open Infix

/-! ## The language -/

/-- The operators and the signs, by `precedences`. -/
def arith : Operators Token where
  prec token := precedences token.type
  isSign token := token.type = .unaryMinus || token.type = .unaryPlus
  sign_above := by
    intro s o hs ho
    obtain ⟨type, text, position⟩ := s
    obtain ⟨type', text', position'⟩ := o
    cases type <;> cases type' <;> simp_all [precedences]

/-- `UnaryPlus` leaves its operand as it is. -/
def arithSigns : Signs arith where
  isNeutral token := token.type = .unaryPlus
  isSign token h := by simp_all [arith]
  prec_le := by
    intro s o hs ho
    obtain ⟨type, text, position⟩ := s
    obtain ⟨type', text', position'⟩ := o
    cases type <;> cases type' <;> simp_all [precedences, arith]

def signType : TokenType → TokenType
  | .minus => .unaryMinus
  | .plus => .unaryPlus
  | type => type

/-- The sign that a token is where an operand is expected. -/
def asSign (token : Token) : Token := { token with type := signType token.type }

/-- The grammar: the tokens spell the expression. -/
inductive Spells : Expr Token Token → List Token → Prop
  | operand (token : Token) (h : isNumber token = true) : Spells (.operand token) [token]
  | sign {token : Token} {e : Expr Token Token} {tokens : List Token}
      (h : arith.isSign (asSign token) = true) (he : Spells e tokens) :
      Spells (.sign (asSign token) e) (token :: tokens)
  | binary {token : Token} {a b : Expr Token Token} {left right : List Token}
      (h : isOperator token = true) (ha : Spells a left) (hb : Spells b right) :
      Spells (.binary token a b) (left ++ token :: right)
  | group {opening closing : Token} {e : Expr Token Token} {tokens : List Token}
      (ho : opening.type = .openParen) (hc : closing.type = .closeParen) (he : Spells e tokens) :
      Spells (.group e) (opening :: (tokens ++ [closing]))

/-- The tokens form an infix expression of the usual grammar. -/
def IsExpression (tokens : List Token) : Prop :=
  ∃ e : Expr Token Token, e.WellFormed arith ∧ Spells e tokens

/-- What numbers, signs and operators mean; a division by zero has no value. -/
def ArithType.algebra {T : Type} (A : ArithType T) : Algebra Token Token T where
  operand token := (A.number token).toOption
  sign token x := some (if token.type = .unaryMinus then A.neg x else x)
  binary token x y :=
    match token.type with
    | .plus => some (A.add x y)
    | .minus => some (A.sub x y)
    | .multiply => some (A.mul x y)
    | .divide => if A.isZero y then none else some (A.div x y)
    | _ => none

/-- The tokens form an expression with the value `v`. -/
def ArithType.Evaluates {T : Type} (A : ArithType T) (tokens : List Token) (v : T) : Prop :=
  ∃ e : Expr Token Token, e.WellFormed arith ∧ Spells e tokens ∧ e.value A.algebra = some v

/-- `parseArithmetic` succeeds exactly for expressions with a value, and returns
that value, whatever type it is instantiated for. -/
def ParsesExactly (tokens : List Token) : Prop :=
  ∀ (T : Type) (A : ArithType T) (v : T),
    parseArithmetic A tokens = .ok v ↔ A.Evaluates tokens v

/-! ## `toReversePolish` is the hasty conversion -/

/-- A token of the postfix form. -/
def written (token : Token) : Sym Token Token :=
  if isOperator token then .operator token else .operand token

/-- A token of the operator stack. -/
def slot (token : Token) : Option Token := if token.type = .openParen then none else some token

/-- The operator tokens and the opening parentheses. -/
def opens (token : Token) : Bool := token.type = .openParen || isOperator token

/-- An operand is expected. -/
def atStart (treatedInputQueue : List Token) : Bool :=
  match treatedInputQueue.getLast? with
  | none => true
  | some lastToken => opens lastToken

/-- The symbol that a token is read as. -/
def read (start : Bool) (token : Token) : Option (Sym Token Token) :=
  if isNumber token then some (.operand token)
  else if isOperator token then some (.operator (if start then asSign token else token))
  else if token.type = .openParen then some .opening
  else if token.type = .closeParen then some .closing
  else none

def readAll : Bool → List Token → List (Sym Token Token)
  | _, [] => []
  | start, token :: tokens => (read start token).toList ++ readAll (opens token) tokens

/-- A token that the conversion does not reject. -/
def Accepted (token : Token) : Prop := token.type ≠ .identifier ∧ token.type ≠ .undefined

/-- The count of the values that the operators of the input find when they are
released comes out as one. -/
def Counted (tokens : List Token) : Prop :=
  (∀ token ∈ tokens, Accepted token) ∧ tally arith (readAll true tokens) = some 1

theorem atStart_append (queue : List Token) (token : Token) :
    atStart (queue ++ [token]) = opens token := by
  simp [atStart]

theorem opens_asSign (token : Token) : opens (asSign token) = opens token := by
  obtain ⟨type, text, position⟩ := token
  cases type <;> rfl

theorem isOperator_asSign (token : Token) : isOperator (asSign token) = isOperator token := by
  obtain ⟨type, text, position⟩ := token
  cases type <;> rfl

variable {token : Token}

theorem not_openParen (h : isOperator token = true) : token.type ≠ .openParen := by
  intro ht
  simp [isOperator, ht] at h

theorem tryTransformUnaryOp_eq (token : Token) (queue : List Token) :
    tryTransformUnaryOp .plus .unaryPlus (tryTransformUnaryOp .minus .unaryMinus token queue)
      queue = if atStart queue then asSign token else token := by
  obtain ⟨type, text, position⟩ := token
  unfold atStart
  cases hq : queue.getLast? with
  | none => cases type <;> simp [tryTransformUnaryOp, hq, asSign, signType]
  | some lastToken =>
    by_cases hl : opens lastToken = true
    · have hl' : (lastToken.type = .openParen || isOperator lastToken) = true := hl
      cases type <;> simp [tryTransformUnaryOp, hq, asSign, signType, hl, hl']
    · have hl' : ¬ (lastToken.type = .openParen || isOperator lastToken) = true := hl
      cases type <;> simp [tryTransformUnaryOp, hq, hl, hl']

theorem written_filter {stack : List Token}
    (h : ∀ token ∈ stack, isOperator token = true ∨ token.type = .openParen) :
    (stack.filter fun token => token.type ≠ .openParen).map written =
      released (stack.map slot) := by
  induction stack with
  | nil => rfl
  | cons top stack ih =>
    have ih := ih fun token ht => h token (List.mem_cons_of_mem _ ht)
    by_cases hp : top.type = .openParen
    · rw [List.filter_cons_of_neg (by simp [hp]), ih]
      simp [slot, hp]
    · have ho : isOperator top = true := (h top List.mem_cons_self).resolve_right hp
      rw [List.filter_cons_of_pos (by simp [hp]), List.map_cons, ih]
      simp [slot, hp, written, ho]

theorem popToParen_eq (position : ℤ × ℤ) (queue stack : List Token) :
    popToParen ⟨.undefined, "", position⟩ queue stack =
      (queue ++ stack.filter fun token => token.type ≠ .openParen, []) := by
  induction stack generalizing queue with
  | nil => simp [popToParen]
  | cons top stack ih =>
    rw [popToParen, if_pos (by simp), ih]
    by_cases hp : top.type = .openParen
    · simp [hp]
    · simp [hp]

theorem popOperators_eq (token : Token) (queue stack : List Token) :
    popOperators token queue stack =
      (queue ++ stack.takeWhile fun top => arith.yields token (slot top),
        stack.dropWhile fun top => arith.yields token (slot top)) := by
  induction stack generalizing queue with
  | nil => simp [popOperators]
  | cons top stack ih =>
    rw [popOperators]
    by_cases hp : top.type = .openParen
    · have hno : ¬ arith.yields token (slot top) = true := by simp [slot, hp, Operators.yields]
      simp [hp, hno]
    · have hslot : slot top = some top := if_neg hp
      by_cases hle : precedences token.type ≤ precedences top.type
      · have hyes : arith.yields token (slot top) = true := by
          rw [hslot]
          exact decide_eq_true hle
        rw [if_neg hp, if_pos (by simp [isLeftAssociative, hle]), ih]
        simp [hyes]
      · have hno : ¬ arith.yields token (slot top) = true := by
          rw [hslot]
          exact fun h => hle (of_decide_eq_true h)
        have hlt : ¬ precedences token.type < precedences top.type := fun h => hle h.le
        rw [if_neg hp, if_neg (by simp [hle, hlt])]
        simp [hno]

/-- A conversion on its way, and the hasty one of the symbols read so far. -/
structure Conversion.At (s : Conversion) (start : Bool) (y : Yard Token Token) : Prop where
  output : s.outputQueue.map written = y.output
  stack : s.operatorStack.map slot = y.stack
  held : ∀ token ∈ s.operatorStack, isOperator token = true ∨ token.type = .openParen
  start : atStart s.treatedInputQueue = start

variable {s : Conversion} {y : Yard Token Token}

theorem Conversion.At.treat {start : Bool} (h : s.At start y) (ht : Accepted token) :
    ∃ s', treat s token = .ok s' ∧
      s'.At (opens token) (Yard.hastyRun arith y (read start token).toList) := by
  obtain ⟨hout, hstack, hheld, hstart⟩ := h
  by_cases hn : isNumber token = true
  · have hop : isOperator token = false ∧ token.type ≠ .openParen ∧ token.type ≠ .closeParen := by
      obtain ⟨type, text, position⟩ := token
      cases type <;> simp_all [isNumber, isOperator]
    refine ⟨⟨s.outputQueue ++ [token], s.operatorStack, s.treatedInputQueue ++ [token]⟩, ?_, ?_⟩
    · simp [CfgParsing.treat, ht.1, ht.2, hn, hop]
      rfl
    · refine ⟨?_, ?_, hheld, atStart_append _ _⟩
      · simp [read, hn, Yard.hastyRun, Yard.hastyStep, hout, written, hop.1]
      · simp [read, hn, Yard.hastyRun, Yard.hastyStep, hstack]
  by_cases hop : isOperator token = true
  · have hread : (read start token).toList =
        [.operator (if atStart s.treatedInputQueue then asSign token else token)] := by
      simp [read, hn, hop, hstart]
    rw [hread]
    generalize hsign : (if atStart s.treatedInputQueue then asSign token else token) = sign
    have hopens : opens sign = opens token ∧ isOperator sign = true := by
      rw [← hsign]
      split
      · exact ⟨opens_asSign token, (isOperator_asSign token).trans hop⟩
      · exact ⟨rfl, hop⟩
    have htake : ((s.operatorStack.takeWhile fun top => arith.yields sign (slot top)).map written :
        List (Sym Token Token)) = released (y.stack.takeWhile (arith.yields sign)) := by
      have hfilter : (s.operatorStack.takeWhile fun top => arith.yields sign (slot top)).filter
          (fun token => token.type ≠ .openParen) =
            s.operatorStack.takeWhile fun top => arith.yields sign (slot top) := by
        refine List.filter_eq_self.mpr fun top htop => ?_
        have hyes := List.mem_takeWhile_imp htop
        by_cases hp : top.type = .openParen
        · simp [slot, hp, Operators.yields] at hyes
        · simpa using hp
      rw [← hfilter, written_filter, ← hstack, List.takeWhile_map]
      · rfl
      · exact fun top htop => hheld top ((List.takeWhile_sublist _).subset htop)
    refine ⟨⟨s.outputQueue ++ s.operatorStack.takeWhile fun top => arith.yields sign (slot top),
      sign :: s.operatorStack.dropWhile fun top => arith.yields sign (slot top),
      s.treatedInputQueue ++ [sign]⟩, ?_, ?_⟩
    · simp only [CfgParsing.treat, if_neg ht.1, if_pos hop, if_neg hn, tryTransformUnaryOp_eq,
        hsign, popOperators_eq]
      rfl
    · refine ⟨?_, ?_, ?_, ?_⟩
      · simp [Yard.hastyRun, Yard.hastyStep, hout, htake]
      · have hslot : slot sign = some sign := by simp [slot, not_openParen hopens.2]
        rw [List.map_cons, hslot]
        simp [Yard.hastyRun, Yard.hastyStep, ← hstack, List.dropWhile_map, Function.comp_def]
      · intro top htop
        rcases List.mem_cons.mp htop with rfl | htop
        · exact .inl hopens.2
        · exact hheld top ((List.dropWhile_sublist _).subset htop)
      · rw [atStart_append, hopens.1]
  by_cases hp : token.type = .openParen
  · refine ⟨⟨s.outputQueue, token :: s.operatorStack, s.treatedInputQueue ++ [token]⟩, ?_, ?_⟩
    · simp [CfgParsing.treat, hn, hop, hp]
      rfl
    · refine ⟨?_, ?_, ?_, atStart_append _ _⟩
      · simp [read, hn, hop, hp, Yard.hastyRun, Yard.hastyStep, hout]
      · simp [read, hn, hop, hp, Yard.hastyRun, Yard.hastyStep, hstack, slot]
      · exact fun top htop => (List.mem_cons.mp htop).elim (fun h => .inr (h ▸ hp)) (hheld top)
  by_cases hc : token.type = .closeParen
  · refine ⟨⟨s.outputQueue ++ s.operatorStack.filter fun token => token.type ≠ .openParen, [],
      s.treatedInputQueue ++ [token]⟩, ?_, ?_⟩
    · simp only [CfgParsing.treat, if_neg ht.1, if_neg hop, if_neg hn, if_neg hp, if_pos hc,
        popToParen_eq]
      rfl
    · refine ⟨?_, ?_, ?_, atStart_append _ _⟩
      · rw [List.map_append, written_filter hheld]
        simp [read, hn, hop, hc, Yard.hastyRun, Yard.hastyStep, hout, hstack]
      · simp [read, hn, hop, hc, Yard.hastyRun, Yard.hastyStep]
      · simp
  · refine ⟨⟨s.outputQueue, s.operatorStack, s.treatedInputQueue ++ [token]⟩, ?_, ?_⟩
    · simp [CfgParsing.treat, ht.1, ht.2, hn, hop, hp, hc]
      rfl
    · refine ⟨?_, ?_, hheld, atStart_append _ _⟩
      · simp [read, hn, hop, hp, hc, Yard.hastyRun, hout]
      · simp [read, hn, hop, hp, hc, Yard.hastyRun, hstack]

theorem treat_rejects (ht : ¬ Accepted token) (s' : Conversion) : treat s token ≠ .ok s' := by
  by_cases hi : token.type = .identifier
  · simp [treat, hi, throw, throwThe, MonadExceptOf.throw]
  · have hu : token.type = .undefined := by
      by_contra hu
      exact ht ⟨hi, hu⟩
    have hop : isOperator token = false := by simp [isOperator, hu]
    simp [treat, hu, hop, throw, throwThe, MonadExceptOf.throw]

theorem bind_eq_ok {ε α β : Type} {x : Except ε α} {f : α → Except ε β} {b : β} :
    x >>= f = .ok b ↔ ∃ a, x = .ok a ∧ f a = .ok b := by
  cases x with
  | error e => simp [bind, Except.bind]
  | ok a => simp [bind, Except.bind]

variable {tokens : List Token}

theorem Conversion.At.run {start : Bool}
    (h : s.At start y) (ht : ∀ token ∈ tokens, Accepted token) :
    ∃ s' last, tokens.foldlM CfgParsing.treat s = .ok s' ∧
      s'.At last (Yard.hastyRun arith y (readAll start tokens)) := by
  induction tokens generalizing s start y with
  | nil => exact ⟨s, start, rfl, h⟩
  | cons token tokens ih =>
    obtain ⟨s1, hs1, hat⟩ := h.treat (ht token List.mem_cons_self)
    obtain ⟨s', last, hs', hend⟩ := ih hat fun t htok => ht t (List.mem_cons_of_mem _ htok)
    refine ⟨s', last, bind_eq_ok.mpr ⟨s1, hs1, hs'⟩, ?_⟩
    rwa [readAll, Yard.hastyRun_append]

theorem accepted_of_foldlM {s s' : Conversion}
    (h : tokens.foldlM treat s = .ok s') : ∀ token ∈ tokens, Accepted token := by
  induction tokens generalizing s with
  | nil => simp
  | cons token tokens ih =>
    obtain ⟨s1, hs1, hs'⟩ := bind_eq_ok.mp h
    intro t ht
    rcases List.mem_cons.mp ht with rfl | ht
    · by_contra hno
      exact treat_rejects hno s1 hs1
    · exact ih hs' t ht

theorem rests_written {stack : List Token}
    (h : ∀ token ∈ stack, isOperator token = true ∨ token.type = .openParen) :
    List.Forall₂ Rests (stack.map slot) (stack.map written) := by
  induction stack with
  | nil => exact .nil
  | cons top stack ih =>
    refine .cons ?_ (ih fun token ht => h token (List.mem_cons_of_mem _ ht))
    by_cases hp : top.type = .openParen
    · have hop : isOperator top = false := by simp [isOperator, hp]
      simpa [slot, hp, written, hop] using Rests.operand (ω := Token) top
    · have ho : isOperator top = true := (h top List.mem_cons_self).resolve_right hp
      simpa [slot, hp, written, ho] using Rests.operator (ν := Token) top

/-- The hasty conversion of what the tokens are read as. -/
theorem toReversePolish_ok (h : ∀ token ∈ tokens, Accepted token) :
    ∃ out fin, toReversePolish tokens = .ok out ∧ out.map written =
        (Yard.hastyRun arith ⟨[], []⟩ (readAll true tokens)).output ++ fin ∧
      List.Forall₂ Rests (Yard.hastyRun arith ⟨[], []⟩ (readAll true tokens)).stack fin := by
  have hinit : (⟨[], [], []⟩ : Conversion).At true ⟨[], []⟩ := ⟨rfl, rfl, by simp, rfl⟩
  obtain ⟨s, last, hs, hat⟩ := hinit.run h
  refine ⟨s.outputQueue ++ s.operatorStack, s.operatorStack.map written, ?_, ?_, ?_⟩
  · exact bind_eq_ok.mpr ⟨s, hs, rfl⟩
  · rw [List.map_append, hat.output]
  · rw [← hat.stack]
    exact rests_written hat.held

theorem accepted_of_toReversePolish {tokens out : List Token}
    (h : toReversePolish tokens = .ok out) : ∀ token ∈ tokens, Accepted token := by
  obtain ⟨s, hs, -⟩ := bind_eq_ok.mp h
  exact accepted_of_foldlM hs

/-! ## `reversePolishEval` evaluates the postfix form -/

section Evaluation

variable {T : Type} (A : ArithType T)

/-- The values of a stack whose numbers are converted when they are popped. -/
def resolve : List (ArithToken T) → Option (List T)
  | [] => some []
  | back :: stack => (get A back).toOption.bind fun x => (resolve stack).map (x :: ·)

theorem toOption_bind {ε α β : Type} (x : Except ε α) (f : α → Except ε β) :
    (x >>= f).toOption = x.toOption.bind fun a => (f a).toOption := by
  cases x <;> rfl

variable {token : Token}

theorem applyOperator_sign (hs : arith.isSign token = true) (x : T) :
    (applyOperator A token [x]).toOption = A.algebra.sign token x := by
  obtain ⟨type, text, position⟩ := token
  have htype : type = .unaryMinus ∨ type = .unaryPlus := by simpa [arith] using hs
  rcases htype with rfl | rfl <;> rfl

theorem applyOperator_binary (hop : isOperator token = true)
    (hs : arith.isSign token = false) (x y : T) :
    (applyOperator A token [y, x]).toOption = A.algebra.binary token x y := by
  obtain ⟨type, text, position⟩ := token
  have htype : type = .plus ∨ type = .minus ∨ type = .multiply ∨ type = .divide := by
    cases type <;> simp_all [isOperator, arith]
  rcases htype with rfl | rfl | rfl | rfl
  · rfl
  · rfl
  · rfl
  · change Except.toOption (if A.isZero y then _ else _) = if A.isZero y then _ else _
    split <;> rfl

/-- What an operator leaves on the stack behind the operands it pops. -/
theorem evalToken_operator (hop : isOperator token = true) (stack : List (ArithToken T)) :
    (evalToken A stack token).toOption.bind (resolve A) =
      (popValues A token (getNumberOperand token) [] stack).toOption.bind fun popped =>
        (applyOperator A token popped.1).toOption.bind fun x =>
          (resolve A popped.2).map (x :: ·) := by
  rw [evalToken, if_neg (by simp [hop]), toOption_bind, Option.bind_assoc]
  congr 1
  funext popped
  rw [toOption_bind, Option.bind_assoc]
  rfl

/-- A token of the postfix form on a stack of values. -/
theorem resolve_evalToken (stack : List (ArithToken T)) (token : Token) :
    (evalToken A stack token).toOption.bind (resolve A) =
      (resolve A stack).bind fun s => evalSym A.algebra arith s (written token) := by
  by_cases hop : isOperator token = true
  · rw [evalToken_operator A hop, written, if_pos hop]
    cases hs : arith.isSign token with
    | true =>
      have hone : getNumberOperand token = 1 := by
        have h : (token.type = .unaryMinus || token.type = .unaryPlus) = true := hs
        rw [getNumberOperand, if_pos h]
      rw [hone]
      cases stack with
      | nil => simp [resolve, evalSym, hs, popValues, throw, throwThe, MonadExceptOf.throw,
          Except.toOption]
      | cons back stack =>
        simp only [popValues, toOption_bind, resolve]
        cases (get A back).toOption with
        | none => rfl
        | some x =>
          change (applyOperator A token [x]).toOption.bind _ = ((resolve A stack).map _).bind _
          rw [applyOperator_sign A hs]
          cases hr : A.algebra.sign token x <;> cases resolve A stack <;> simp [evalSym, hs, hr]
    | false =>
      have htwo : getNumberOperand token = 2 := by
        have h : ¬ (token.type = .unaryMinus || token.type = .unaryPlus) = true := by
          exact Bool.eq_false_iff.mp hs
        rw [getNumberOperand, if_neg h]
      rw [htwo]
      cases stack with
      | nil => simp [resolve, evalSym, hs, popValues, throw, throwThe, MonadExceptOf.throw,
          Except.toOption]
      | cons back stack =>
        cases stack with
        | nil =>
          simp only [popValues, toOption_bind, resolve]
          cases (get A back).toOption <;> simp [evalSym, hs, throw, throwThe, MonadExceptOf.throw,
            Except.toOption]
        | cons below stack =>
          simp only [popValues, toOption_bind, List.nil_append, resolve]
          cases (get A back).toOption with
          | none => rfl
          | some y =>
            cases (get A below).toOption with
            | none => rfl
            | some x =>
              change (applyOperator A token [y, x]).toOption.bind _ =
                (((resolve A stack).map _).map _).bind _
              rw [applyOperator_binary A hop hs]
              cases hr : A.algebra.binary token x y <;> cases resolve A stack <;>
                simp [evalSym, hs, hr]
  · have hpush : evalToken A stack token = .ok (⟨token, A.zero, false⟩ :: stack) := by
      rw [evalToken, if_pos (by simp [hop])]
      rfl
    rw [hpush, written, if_neg hop]
    change (A.number token).toOption.bind _ = _
    cases hn : (A.number token).toOption <;> cases resolve A stack <;>
      simp [evalSym, ArithType.algebra, hn]

theorem resolve_foldlM (tokens : List Token) (stack : List (ArithToken T)) :
    (tokens.foldlM (evalToken A) stack).toOption.bind (resolve A) =
      (resolve A stack).bind (evalPolish A.algebra arith (tokens.map written)) := by
  induction tokens generalizing stack with
  | nil =>
    change resolve A stack = _
    cases resolve A stack <;> rfl
  | cons token tokens ih =>
    rw [List.foldlM_cons, toOption_bind, Option.bind_assoc]
    simp only [ih]
    rw [← Option.bind_assoc, resolve_evalToken, Option.bind_assoc]
    rfl

variable {tokens : List Token}

theorem evalEnd_eq_ok {stack : List (ArithToken T)} {v : T} :
    evalEnd A tokens stack = .ok v ↔ resolve A stack = some [v] := by
  cases stack with
  | nil => simp [evalEnd, resolve, throw, throwThe, MonadExceptOf.throw]
  | cons back stack =>
    cases stack with
    | nil =>
      rw [evalEnd, resolve, resolve]
      cases get A back <;> simp [Except.toOption]
    | cons below stack =>
      have hno : ∀ r : Option T, (r.bind fun x => (resolve A (below :: stack)).map (x :: ·)) ≠
          some [v] := by
        intro r hr
        obtain ⟨x, -, hx⟩ := Option.bind_eq_some_iff.mp hr
        obtain ⟨s, hs, heq⟩ := Option.map_eq_some_iff.mp hx
        obtain ⟨y, -, hy⟩ := Option.bind_eq_some_iff.mp hs
        obtain ⟨t, -, rfl⟩ := Option.map_eq_some_iff.mp hy
        simp at heq
      refine ⟨fun h => ?_, fun h => absurd h (hno _)⟩
      simp [evalEnd, throw, throwThe, MonadExceptOf.throw] at h

theorem reversePolishEval_eq_ok {v : T} : reversePolishEval A tokens = .ok v ↔
      evalPolish A.algebra arith (tokens.map written) [] = some [v] := by
  have hrun := resolve_foldlM A tokens []
  rw [show resolve A [] = some [] from rfl, Option.bind_some] at hrun
  rw [← hrun, reversePolishEval, bind_eq_ok]
  cases hfold : tokens.foldlM (evalToken A) [] with
  | error e => simp [Except.toOption]
  | ok stack => simp [Except.toOption, evalEnd_eq_ok]

theorem parseArithmetic_eq_ok {v : T} :
    parseArithmetic A tokens = .ok v ↔ ∃ out, toReversePolish tokens = .ok out ∧
      evalPolish A.algebra arith (out.map written) [] = some [v] := by
  rw [parseArithmetic, bind_eq_ok]
  simp only [reversePolishEval_eq_ok]

end Evaluation

/-! ## Expressions -/

variable {e : Expr Token Token}

theorem Spells.readAll_eq (h : Spells e tokens) (hw : e.WellFormed arith) (rest : List Token) :
    readAll true (tokens ++ rest) = e.symbols ++ readAll false rest := by
  induction h generalizing rest with
  | operand token hn =>
    have hop : opens token = false := by
      obtain ⟨type, text, position⟩ := token
      cases type <;> simp_all [isNumber, opens, isOperator]
    simp [readAll, read, hn, hop, Expr.symbols]
  | @sign token e tokens hs he ih =>
    have hkind : isNumber token = false ∧ isOperator token = true := by
      obtain ⟨type, text, position⟩ := token
      cases type <;> simp_all [asSign, signType, arith, isNumber, isOperator]
    simp [readAll, read, hkind, opens, ih hw.2.2, Expr.symbols]
  | @binary token a b left right hop ha hb iha ihb =>
    have hnum : isNumber token = false := by
      obtain ⟨type, text, position⟩ := token
      cases type <;> simp_all [isNumber, isOperator]
    rw [List.append_assoc, iha hw.2.1.2]
    simp [readAll, read, hnum, hop, opens, ihb hw.2.2.2, Expr.symbols]
  | @group opening closing e tokens ho hc he ih =>
    simp [readAll, read, ho, hc, isNumber, isOperator, opens, ih hw, Expr.symbols]

theorem Spells.accepted (h : Spells e tokens) : ∀ token ∈ tokens, Accepted token := by
  induction h with
  | operand token hn =>
    intro t ht
    obtain rfl := List.mem_singleton.mp ht
    refine ⟨fun h => ?_, fun h => ?_⟩ <;> simp [isNumber, h] at hn
  | @sign token e tokens hs he ih =>
    refine List.forall_mem_cons.mpr ⟨⟨fun h => ?_, fun h => ?_⟩, ih⟩ <;>
      simp [asSign, signType, arith, h] at hs
  | @binary token a b left right hop ha hb iha ihb =>
    have ht : Accepted token := by
      refine ⟨fun h => ?_, fun h => ?_⟩ <;> simp [isOperator, h] at hop
    exact List.forall_mem_append.mpr ⟨iha, List.forall_mem_cons.mpr ⟨ht, ihb⟩⟩
  | @group opening closing e tokens ho hc he ih =>
    have hlast : ∀ t ∈ [closing], Accepted t := by simp [Accepted, hc]
    exact List.forall_mem_cons.mpr
      ⟨by simp [Accepted, ho], List.forall_mem_append.mpr ⟨ih, hlast⟩⟩

theorem Spells.polish_eq {e e' : Expr Token Token} (h : Spells e tokens)
    (hw : e.WellFormed arith) (h' : Spells e' tokens) (hw' : e'.WellFormed arith) :
    e.polish = e'.polish := by
  have hsym : e.symbols = e'.symbols := by
    have he := h.readAll_eq hw []
    rw [h'.readAll_eq hw' []] at he
    exact List.append_cancel_right he.symm
  rw [← Yard.finish_symbols hw, ← Yard.finish_symbols hw', hsym]

theorem Spells.evaluates_iff (h : Spells e tokens)
    (hw : e.WellFormed arith) {T : Type} (A : ArithType T) (v : T) :
    A.Evaluates tokens v ↔ evalPolish A.algebra arith e.polish [] = some [v] := by
  have hvalue : ∀ e' : Expr Token Token, e'.WellFormed arith →
      (evalPolish A.algebra arith e'.polish [] = some [v] ↔ e'.value A.algebra = some v) := by
    intro e' hw'
    rw [evalPolish_polish _ _ hw']
    simp
  constructor
  · rintro ⟨e', hw', h', hv⟩
    rw [h.polish_eq hw h' hw']
    exact (hvalue e' hw').mpr hv
  · intro hv
    exact ⟨e, hw, h, (hvalue e hw).mp hv⟩

theorem Spells.toReversePolish_ok (h : Spells e tokens) (hw : e.WellFormed arith) :
    ∃ out fin, toReversePolish tokens = .ok out ∧
      out.map written = (Yard.hastyRun arith ⟨[], []⟩ e.symbols).output ++ fin ∧
      List.Forall₂ Rests (Yard.hastyRun arith ⟨[], []⟩ e.symbols).stack fin := by
  have hread : readAll true tokens = e.symbols := by
    simpa [readAll] using h.readAll_eq hw []
  exact hread ▸ CfgParsing.toReversePolish_ok h.accepted

variable {fin : List (Sym Token Token)}

theorem released_of_rests {stack : List (Option Token)}
    (h : List.Forall₂ Rests stack fin) (hsome : ∀ p ∈ stack, p.isSome = true) :
    fin = released stack := by
  induction h with
  | nil => rfl
  | @cons p x stack fin hx _ ih =>
    have hp := hsome p List.mem_cons_self
    cases hx with
    | operator o => rw [released_some, ih fun p hm => hsome p (List.mem_cons_of_mem _ hm)]
    | operand n => simp at hp

theorem fed_iff_lone (hw : e.WellFormed arith) (fin : List (Sym Token Token)) :
    arithSigns.Fed ((Yard.hastyRun arith ⟨[], []⟩ e.symbols).output ++ fin) ↔
      arithSigns.Lone none e.symbols := by
  have hfront : ∀ o, arith.isSign o = true →
      (⟨[], []⟩ : Yard Token Token).stack.takeWhile (arith.yields o) =
        (none : Option Token).toList.map some := fun _ _ => rfl
  have h := arithSigns.fed_hastyRun hw hfront rfl [] fin
  rw [List.append_nil] at h
  exact h.trans (and_iff_right trivial)

/-- The postfix form of an expression that is converted has its value. -/
theorem evalPolish_out (hw : e.WellFormed arith) (hsafe : e.Safe arithSigns)
    (hlone : arithSigns.Lone none e.symbols)
    (hfin : List.Forall₂ Rests (Yard.hastyRun arith ⟨[], []⟩ e.symbols).stack fin) {T : Type}
    (A : ArithType T) :
    evalPolish A.algebra arith ((Yard.hastyRun arith ⟨[], []⟩ e.symbols).output ++ fin) [] =
      evalPolish A.algebra arith e.polish [] := by
  have hneutral : ∀ o, arithSigns.isNeutral o = true → A.algebra.sign o = some := by
    intro o ho
    have htype : o.type = .unaryPlus := of_decide_eq_true ho
    funext x
    simp [ArithType.algebra, htype]
  obtain ⟨hplain, hsome⟩ := Yard.hastyRun_safe hw hsafe
  have hpolish : arithSigns.Fed e.polish := by
    have hfirst := arithSigns.fed_of_evalPolish (A := arithSigns.spelling id Token)
      ((evalPolish_polish _ _ hw []).trans (by rw [arithSigns.value_spelling id hw]; rfl))
    exact hfirst
  rw [← arithSigns.evalPolish_plain hneutral (.inr ((fed_iff_lone hw fin).mpr hlone)),
    ← arithSigns.evalPolish_plain hneutral (.inr hpolish), released_of_rests hfin hsome, hplain]

/-! ## The expressions that are evaluated -/

/-- The tokens spell an expression in which no `-` sign is followed by a sign,
in which a closing parenthesis in the operand of a `-` sign, or in the right
operand of a binary operator, is followed there by closing parentheses only, and
in which no `+` sign in front of the first number is followed by a sign. -/
def Converted (tokens : List Token) : Prop :=
  ∃ e : Expr Token Token, e.WellFormed arith ∧ Spells e tokens ∧ e.Safe arithSigns ∧
    arithSigns.Lone none e.symbols

/-- The type whose values are postfix forms. -/
def ArithType.spelled : ArithType (List (Sym Token TokenType)) where
  zero := []
  add x y := x ++ y ++ [.operator .plus]
  sub x y := x ++ y ++ [.operator .minus]
  mul x y := x ++ y ++ [.operator .multiply]
  div x y := x ++ y ++ [.operator .divide]
  neg x := x ++ [.operator .unaryMinus]
  isZero _ := false
  toString _ := ""
  number token := .ok [.operand token]

variable {o : Token}

theorem sign_spelled (ho : arith.isSign o = true) :
    ArithType.spelled.algebra.sign o = (arithSigns.spelling Token.type Token).sign o := by
  obtain ⟨type, text, position⟩ := o
  have htype : type = .unaryMinus ∨ type = .unaryPlus := by simpa [arith] using ho
  funext x
  rcases htype with rfl | rfl <;> rfl

theorem binary_spelled (hop : isOperator o = true) (ho : arith.isSign o = false) :
    ArithType.spelled.algebra.binary o = (arithSigns.spelling Token.type Token).binary o := by
  obtain ⟨type, text, position⟩ := o
  have htype : type = .plus ∨ type = .minus ∨ type = .multiply ∨ type = .divide := by
    cases type <;> simp_all [isOperator, arith]
  funext x y
  rcases htype with rfl | rfl | rfl | rfl <;> rfl

theorem evalPolish_spelled {xs : List (Sym Token Token)}
    (h : ∀ o, .operator o ∈ xs → isOperator o = true) (s : List (List (Sym Token TokenType))) :
    evalPolish ArithType.spelled.algebra arith xs s =
      evalPolish (arithSigns.spelling Token.type Token) arith xs s := by
  induction xs generalizing s with
  | nil => rfl
  | cons x xs ih =>
    have hone : evalSym ArithType.spelled.algebra arith s x =
        evalSym (arithSigns.spelling Token.type Token) arith s x := by
      cases x with
      | operand n => rfl
      | opening => rfl
      | closing => rfl
      | operator o =>
        cases ho : arith.isSign o with
        | true => simp only [evalSym, ho, if_true, sign_spelled ho]
        | false =>
          simp only [evalSym, ho, Bool.false_eq_true, if_false,
            binary_spelled (h o List.mem_cons_self) ho]
    rw [evalPolish, evalPolish, hone]
    exact congrArg _ (funext fun s' => ih (fun o ho => h o (List.mem_cons_of_mem _ ho)) s')

theorem isOperator_written {out : List Token}
    (h : .operator o ∈ out.map written) : isOperator o = true := by
  obtain ⟨token, -, ht⟩ := List.mem_map.mp h
  by_cases hop : isOperator token = true
  · rw [written, if_pos hop] at ht
    obtain rfl := Sym.operator.inj ht
    exact hop
  · rw [written, if_neg hop] at ht
    cases ht

theorem Spells.isOperator_polish
    (h : Spells e tokens) : ∀ o, .operator o ∈ e.polish → isOperator o = true := by
  induction h with
  | operand token hn => simp [Expr.polish]
  | @sign token e tokens hs he ih =>
    intro o ho
    rcases List.mem_append.mp ho with ho | ho
    · exact ih o ho
    · obtain rfl := Sym.operator.inj (List.mem_singleton.mp ho)
      have hsign : (asSign token).type = .unaryMinus ∨ (asSign token).type = .unaryPlus := by
        simpa [arith] using hs
      rcases hsign with hsign | hsign <;> simp [isOperator, hsign]
  | @binary token a b left right hop ha hb iha ihb =>
    intro o ho
    rcases List.mem_append.mp ho with ho | ho
    · exact (List.mem_append.mp ho).elim (iha o) (ihb o)
    · exact Sym.operator.inj (List.mem_singleton.mp ho) ▸ hop
  | group ho hc he ih => exact ih

/-- An expression that is always evaluated is converted. -/
theorem Spells.converted (h : Spells e tokens)
    (hw : e.WellFormed arith) (hparses : ParsesExactly tokens) : Converted tokens := by
  obtain ⟨out, fin, hout, hwritten, hfin⟩ := h.toReversePolish_ok hw
  have hvalue : evalPolish ArithType.spelled.algebra arith e.polish [] =
      some [arithSigns.spelled Token.type e.polish] := by
    rw [evalPolish_spelled h.isOperator_polish, evalPolish_polish _ _ hw,
      arithSigns.value_spelling Token.type hw]
    rfl
  have hev := (h.evaluates_iff hw ArithType.spelled _).mpr hvalue
  obtain ⟨out', hout', hres⟩ := (parseArithmetic_eq_ok _).mp ((hparses _ _ _).mpr hev)
  obtain rfl : out = out' := Except.ok.inj (hout.symm.trans hout')
  rw [evalPolish_spelled fun o ho => isOperator_written ho, hwritten] at hres
  have hspelled : arithSigns.spelled Token.type e.polish = arithSigns.spelled Token.type
      ((Yard.hastyRun arith ⟨[], []⟩ e.symbols).output ++ fin) := by
    simpa using arithSigns.flatten_evalPolish Token.type hres
  refine ⟨e, hw, h, Yard.safe_of_hastyRun Token.type hw hspelled.symm, ?_⟩
  exact (fed_iff_lone hw fin).mp (arithSigns.fed_of_evalPolish hres)

/-- A converted expression is evaluated, whatever its numbers are. -/
theorem Converted.parsesExactly (h : Converted tokens) : ParsesExactly tokens := by
  obtain ⟨e, hw, hspells, hsafe, hlone⟩ := h
  obtain ⟨out, fin, hout, hwritten, hfin⟩ := hspells.toReversePolish_ok hw
  intro T A v
  rw [hspells.evaluates_iff hw, parseArithmetic_eq_ok, ← evalPolish_out hw hsafe hlone hfin A,
    ← hwritten]
  constructor
  · rintro ⟨out', hout', hv⟩
    obtain rfl : out = out' := Except.ok.inj (hout.symm.trans hout')
    exact hv
  · exact fun hv => ⟨out, hout, hv⟩

/-! ## Other token sequences -/

/-- The tokens have a value in some type exactly if the count comes out. -/
theorem counted_iff :
    Counted tokens ↔ ∃ (T : Type) (A : ArithType T) (v : T), parseArithmetic A tokens = .ok v := by
  constructor
  · rintro ⟨haccepted, htally⟩
    obtain ⟨out, fin, hout, hwritten, hfin⟩ := toReversePolish_ok haccepted
    have hcount : count arith 0 (out.map written) = some 1 := by
      rw [hwritten, count_hastyRun hfin, htally]
    obtain ⟨s, hs⟩ := exists_evalPolish (A := arithSigns.spelling Token.type Token)
      (s := []) (fun _ => ⟨_, rfl⟩) (fun _ _ => ⟨_, rfl⟩) (fun _ _ _ => ⟨_, rfl⟩) hcount
    have hlen := Option.some.inj ((count_evalPolish hs).symm.trans hcount)
    obtain ⟨v, rfl⟩ := List.length_eq_one_iff.mp hlen
    rw [← evalPolish_spelled fun o ho => isOperator_written ho] at hs
    exact ⟨_, .spelled, v, (parseArithmetic_eq_ok _).mpr ⟨out, hout, hs⟩⟩
  · rintro ⟨T, A, v, hv⟩
    obtain ⟨out, hout, hs⟩ := (parseArithmetic_eq_ok A).mp hv
    have haccepted := accepted_of_toReversePolish hout
    obtain ⟨out', fin, hout', hwritten, hfin⟩ := toReversePolish_ok haccepted
    obtain rfl : out = out' := Except.ok.inj (hout.symm.trans hout')
    refine ⟨haccepted, ?_⟩
    rw [← count_hastyRun hfin, ← hwritten]
    exact count_evalPolish hs

/-- `parseArithmetic` evaluates the expressions that are converted, and rejects
the other token sequences whose values do not count up to one. -/
theorem parsesExactly_iff (tokens : List Token) :
    ParsesExactly tokens ↔ Converted tokens ∨ ¬ IsExpression tokens ∧ ¬ Counted tokens := by
  by_cases hx : IsExpression tokens
  · obtain ⟨e, hw, h⟩ := hx
    constructor
    · exact fun hparses => .inl (h.converted hw hparses)
    · rintro (hc | ⟨hno, -⟩)
      · exact hc.parsesExactly
      · exact absurd ⟨e, hw, h⟩ hno
  · have hnone : ∀ (T : Type) (A : ArithType T) (v : T), ¬ A.Evaluates tokens v := by
      rintro T A v ⟨e, hw, h, -⟩
      exact hx ⟨e, hw, h⟩
    constructor
    · intro hparses
      refine .inr ⟨hx, fun hc => ?_⟩
      obtain ⟨T, A, v, hv⟩ := counted_iff.mp hc
      exact hnone T A v ((hparses T A v).mp hv)
    · rintro (⟨e, hw, h, -⟩ | ⟨-, hno⟩)
      · exact absurd ⟨e, hw, h⟩ hx
      · intro T A v
        exact iff_of_false (fun hv => hno (counted_iff.mpr ⟨T, A, v, hv⟩)) (hnone T A v)

/-- The tokens of `1 + (2) * 3`. -/
def sumOfProduct : List Token :=
  [⟨.integral, "1", (1, 1)⟩, ⟨.plus, "+", (1, 3)⟩, ⟨.openParen, "(", (1, 5)⟩,
    ⟨.integral, "2", (1, 6)⟩, ⟨.closeParen, ")", (1, 7)⟩, ⟨.multiply, "*", (1, 9)⟩,
    ⟨.integral, "3", (1, 11)⟩]

def sumOfProductExpr : Expr Token Token :=
  .binary ⟨.plus, "+", (1, 3)⟩ (.operand ⟨.integral, "1", (1, 1)⟩)
    (.binary ⟨.multiply, "*", (1, 9)⟩ (.group (.operand ⟨.integral, "2", (1, 6)⟩))
      (.operand ⟨.integral, "3", (1, 11)⟩))

/-- The value of `1 + (2) * 3` is 7, but `parseArithmetic<int>` returns 9. -/
theorem not_parsesExactly_sumOfProduct :
    parseArithmetic .int sumOfProduct = .ok 9 ∧ ArithType.int.Evaluates sumOfProduct 7 ∧
      ¬ ParsesExactly sumOfProduct := by
  have hspells : Spells sumOfProductExpr sumOfProduct :=
    .binary rfl (.operand _ rfl) (.binary rfl (.group rfl rfl (.operand _ rfl)) (.operand _ rfl))
  have hw : sumOfProductExpr.WellFormed arith := by
    simp [sumOfProductExpr, Expr.WellFormed, Expr.Outer, arith, precedences]
  have hvalue : ArithType.int.Evaluates sumOfProduct 7 := ⟨_, hw, hspells, by decide +kernel⟩
  have hparsed : parseArithmetic .int sumOfProduct = .ok 9 := by decide +kernel
  refine ⟨hparsed, hvalue, fun h => ?_⟩
  have hseven := (h ℤ .int 7).mpr hvalue
  rw [hparsed] at hseven
  simp at hseven

end VcuCodec.CfgParsing
