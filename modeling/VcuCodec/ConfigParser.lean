import VcuCodec.MachineInts

/-!
# Arithmetic in configuration files

The tokens of a setting's value (`lib_cfg_parsing/Tokenizer.h`), their
conversion into postfix form (`toReversePolish` in `Parser.cpp`) and its
evaluation (`reversePolishEval` in `Parser.h`).
-/

namespace VcuCodec.CfgParsing

inductive TokenType
  | undefined | identifier | openBracket | closeBracket | openParen | closeParen | equal
  | endOfLine | endOfFile | hexIntegral | integral | float | plus | minus | unaryMinus
  | unaryPlus | divide | multiply | or
  deriving DecidableEq

structure Token where
  type : TokenType
  text : String
  position : ℤ × ℤ
  deriving DecidableEq

/-- The token that an exception is about, and its message. -/
structure TokenError where
  token : Token
  msg : String
  deriving DecidableEq

def isNumber (token : Token) : Bool :=
  token.type = .integral || token.type = .hexIntegral || token.type = .float

def isOperator (token : Token) : Bool :=
  token.type = .plus || token.type = .minus || token.type = .multiply || token.type = .divide ||
    token.type = .unaryMinus || token.type = .unaryPlus

def isLeftAssociative (_ : Token) : Bool := true

def isRightAssociative (_ : Token) : Bool := true

/-! ## `toReversePolish` -/

/-- The map `precedences`; a type that it does not list has the default. -/
def precedences : TokenType → ℕ
  | .plus => 0
  | .minus => 0
  | .multiply => 5
  | .divide => 5
  | .unaryMinus => 7
  | .unaryPlus => 7
  | _ => 0

def tryTransformUnaryOp (tokenType unaryTokenType : TokenType) (token : Token)
    (treatedInputQueue : List Token) : Token :=
  if token.type = tokenType then
    match treatedInputQueue.getLast? with
    | none => { token with type := unaryTokenType }
    | some lastToken =>
      if lastToken.type = .openParen || isOperator lastToken then
        { token with type := unaryTokenType }
      else token
  else token

/-- The loop in front of an operator.  The back of the stack is the head of the
list. -/
def popOperators (token : Token) (outputQueue : List Token) :
    List Token → List Token × List Token
  | [] => (outputQueue, [])
  | topToken :: operatorStack =>
    if topToken.type = .openParen then (outputQueue, topToken :: operatorStack)
    else if (isLeftAssociative token && precedences token.type ≤ precedences topToken.type) ||
        (isRightAssociative token && precedences token.type < precedences topToken.type) then
      popOperators token (outputQueue ++ [topToken]) operatorStack
    else (outputQueue, topToken :: operatorStack)

/-- The loop behind a closing parenthesis.  Its body declares another
`operatorToken`: the one of the condition never changes. -/
def popToParen (operatorToken : Token) (outputQueue : List Token) :
    List Token → List Token × List Token
  | [] => (outputQueue, [])
  | top :: operatorStack =>
    if operatorToken.type ≠ .openParen then
      popToParen operatorToken
        (if top.type ≠ .openParen then outputQueue ++ [top] else outputQueue) operatorStack
    else (outputQueue, top :: operatorStack)

/-- The queues of the conversion. -/
structure Conversion where
  outputQueue : List Token
  operatorStack : List Token
  treatedInputQueue : List Token

/-- One token of the input. -/
def treat (s : Conversion) (token : Token) : Except TokenError Conversion :=
  if token.type = .identifier then
    throw ⟨token, "arithmetic expression do not support identifiers"⟩
  else
    let outputQueue := if isNumber token then s.outputQueue ++ [token] else s.outputQueue
    if isOperator token then
      let token := tryTransformUnaryOp .minus .unaryMinus token s.treatedInputQueue
      let token := tryTransformUnaryOp .plus .unaryPlus token s.treatedInputQueue
      let popped := popOperators token outputQueue s.operatorStack
      pure ⟨popped.1, token :: popped.2, s.treatedInputQueue ++ [token]⟩
    else if token.type = .openParen then
      pure ⟨outputQueue, token :: s.operatorStack, s.treatedInputQueue ++ [token]⟩
    else if token.type = .closeParen then
      let popped := popToParen ⟨.undefined, "", token.position⟩ outputQueue s.operatorStack
      pure ⟨popped.1, popped.2.tail, s.treatedInputQueue ++ [token]⟩
    else if token.type = .undefined then
      throw ⟨token, "invalid arithmetic expression"⟩
    else
      pure ⟨outputQueue, s.operatorStack, s.treatedInputQueue ++ [token]⟩

def toReversePolish (tokens : List Token) : Except TokenError (List Token) := do
  let s ← tokens.foldlM treat ⟨[], [], []⟩
  pure (s.outputQueue ++ s.operatorStack)

/-! ## `reversePolishEval` -/

/-- A type for which the templates are instantiated: its operators, the zero of
`T {}`, the test for zero, `std::to_string`, and `get` of a number token. -/
structure ArithType (T : Type) where
  zero : T
  add : T → T → T
  sub : T → T → T
  mul : T → T → T
  div : T → T → T
  neg : T → T
  isZero : T → Bool
  toString : T → String
  number : Token → Except TokenError T

structure ArithToken (T : Type) where
  token : Token
  value : T
  valid : Bool

section Evaluation

variable {T : Type} (A : ArithType T)

/-- The operator on the values that were popped, the last one first; there are
`getNumberOperand` of them. -/
def applyOperator (token : Token) (values : List T) : Except TokenError T :=
  match token.type with
  | .plus => pure (A.add (values.getD 1 A.zero) (values.getD 0 A.zero))
  | .minus => pure (A.sub (values.getD 1 A.zero) (values.getD 0 A.zero))
  | .unaryMinus => pure (A.neg (values.getD 0 A.zero))
  | .unaryPlus => pure (values.getD 0 A.zero)
  | .multiply => pure (A.mul (values.getD 1 A.zero) (values.getD 0 A.zero))
  | .divide =>
    if A.isZero (values.getD 0 A.zero) then throw ⟨token, "bad arith: division by 0"⟩
    else pure (A.div (values.getD 1 A.zero) (values.getD 0 A.zero))
  | _ => throw ⟨token, "not an arith expression"⟩

def getNumberOperand (token : Token) : ℕ :=
  if token.type = .unaryMinus || token.type = .unaryPlus then 1 else 2

def get (arith : ArithToken T) : Except TokenError T :=
  if !arith.valid then A.number arith.token else pure arith.value

/-- The loop that pops the operands of an operator. -/
def popValues (token : Token) : ℕ → List T → List (ArithToken T) →
    Except TokenError (List T × List (ArithToken T))
  | 0, values, stack => pure (values, stack)
  | _ + 1, _, [] => throw ⟨token, "bad arith expression: stack empty"⟩
  | i + 1, values, back :: stack => do
    let value ← get A back
    popValues token i (values ++ [value]) stack

/-- One token of the postfix form. -/
def evalToken (stack : List (ArithToken T)) (token : Token) :
    Except TokenError (List (ArithToken T)) :=
  if !isOperator token then pure (⟨token, A.zero, false⟩ :: stack)
  else do
    let (values, stack) ← popValues A token (getNumberOperand token) [] stack
    let result ← applyOperator A token values
    pure (⟨⟨.integral, A.toString result, token.position⟩, result, true⟩ :: stack)

def concealToken : Token := ⟨.undefined, "", (-1, -1)⟩

/-- What is left on the stack at the end. -/
def evalEnd (tokens : List Token) : List (ArithToken T) → Except TokenError T
  | [back] => get A back
  | [] => throw ⟨tokens.getLastD concealToken, "bad arith expression"⟩
  | back :: _ => throw ⟨back.token, "bad arith expression"⟩

def reversePolishEval (tokens : List Token) : Except TokenError T := do
  let stack ← tokens.foldlM (evalToken A) []
  evalEnd A tokens stack

def parseArithmetic (tokens : List Token) : Except TokenError T := do
  reversePolishEval A (← toReversePolish tokens)

end Evaluation

/-! ## The integer types -/

def isSpace (c : Char) : Bool := c = ' ' || ('\t' ≤ c && c ≤ '\r')

def digitValue (base : ℕ) (c : Char) : Option ℕ :=
  let d :=
    if '0' ≤ c && c ≤ '9' then c.toNat - '0'.toNat
    else if 'a' ≤ c && c ≤ 'z' then c.toNat - 'a'.toNat + 10
    else if 'A' ≤ c && c ≤ 'Z' then c.toNat - 'A'.toNat + 10
    else base
  if d < base then some d else none

/-- The digits at the front of a text. -/
def readDigits (base : ℕ) (n : ℕ) : List Char → ℕ
  | [] => n
  | c :: cs =>
    match digitValue base c with
    | some d => readDigits base (n * base + d) cs
    | none => n

/-- `std::strtol` to base 10 or 16, with a `long` of 64 bits. -/
def strtol (text : String) (base : ℕ) : ℤ :=
  let signed := text.toList.dropWhile isSpace
  let unsigned := if signed.head? = some '-' || signed.head? = some '+' then signed.tail else signed
  let digits :=
    if base = 16 && ['0', 'x'].isPrefixOf (unsigned.map Char.toLower) then unsigned.drop 2
    else unsigned
  let n : ℤ := readDigits base 0 digits
  if signed.head? = some '-' then max (-n) (-2 ^ 63) else min n (2 ^ 63 - 1)

/-- The general template `get`, with the conversion of a `long` to the type. -/
def getInteger (wrap : ℤ → ℤ) (token : Token) : Except TokenError ℤ :=
  if token.type = .hexIntegral then pure (wrap (strtol token.text 16))
  else if token.type = .integral then pure (wrap (strtol token.text 10))
  else throw ⟨token, "not an integer"⟩

/-- An integer type whose operators wrap around. -/
def ArithType.integer (wrap : ℤ → ℤ) : ArithType ℤ where
  zero := 0
  add x y := wrap (x + y)
  sub x y := wrap (x - y)
  mul x y := wrap (x * y)
  div x y := wrap (x.tdiv y)
  neg x := wrap (-x)
  isZero x := x = 0
  toString x := ToString.toString x
  number := getInteger wrap

/-- `parseArithmetic<int>`. -/
def ArithType.int : ArithType ℤ := .integer toInt32

/-- `parseArithmetic<uint32_t>`. -/
def ArithType.uint32 : ArithType ℤ := .integer fun x => toUInt32 x

/-- `parseArithmetic<long long>`. -/
def ArithType.longLong : ArithType ℤ := .integer fun x => x.bmod (2 ^ 64)

end VcuCodec.CfgParsing
