import VcuCodec.CheckedRuns
import VcuCodec.ConfigParser

/-!
# The tokenizer of configuration files

`lib_cfg_parsing/Tokenizer.cpp` and the loop over the tokens of a text
(`exe_encoder/CfgParser.cpp`).  An access behind the terminator of the text and a
position that does not fit into an `int` are out of bounds.
-/

namespace VcuCodec.CfgParsing

open CheckedRuns CheckedRuns.Checked

/-! ## Characters -/

def isBlank (c : Char) : Bool := c = ' ' || c = '\t'

def isAlpha (c : Char) : Bool := ('a' ≤ c && c ≤ 'z') || ('A' ≤ c && c ≤ 'Z')

def isDigit (c : Char) : Bool := '0' ≤ c && c ≤ '9'

def isAlnum (c : Char) : Bool := isAlpha c || isDigit c

def isXDigit (c : Char) : Bool := isDigit c || ('a' ≤ c && c ≤ 'f') || ('A' ≤ c && c ≤ 'F')

def isComma (c : Char) : Bool := c = ',' || c = '.'

/-- The tests of `getToken` for a single character, but for the ends of lines. -/
def symbolType : Char → Option TokenType
  | '[' => some .openBracket
  | ']' => some .closeBracket
  | '\x00' => some .endOfFile
  | '=' => some .equal
  | ':' => some .equal
  | '+' => some .plus
  | '-' => some .minus
  | '/' => some .divide
  | '*' => some .multiply
  | '(' => some .openParen
  | ')' => some .closeParen
  | '|' => some .or
  | _ => none

/-! ## `Tokenizer` -/

/-- The fields of a `Tokenizer` that change. -/
structure Cursor where
  line : ℤ
  columnStartPos : ℤ
  curPos : ℤ

def Cursor.init : Cursor := ⟨1, 0, 0⟩

section Tokenizer

variable (toParse : List Char) (rounds : ℕ)

/-- `toParse[pos]`, where the terminator may be read. -/
def charAt (pos : ℤ) : Checked Cursor Char :=
  if 0 ≤ pos ∧ pos ≤ toParse.length then pure (toParse.getD pos.toNat '\x00') else stuck .outOfBounds

/-- `(int)toParse.length()` -/
def last : ℤ := toInt32 toParse.length

def getChar (pos : ℤ) : Checked Cursor Char :=
  if last toParse < pos then pure '\x00' else charAt toParse pos

def curPos : Checked Cursor ℤ := step fun s => (s.curPos, s)

/-- `++curPos` -/
def advance : Checked Cursor Unit := do
  let pos ← curPos
  check (pos + 1 < 2 ^ 31)
  step fun s => ((), { s with curPos := s.curPos + 1 })

/-- A loop that moves on while the character at `curPos` has `p`. -/
def skipWhile (p : Char → Bool) : (rounds : ℕ) → Checked Cursor Unit
  | 0 => stuck .unfinished
  | rounds + 1 => do
    let pos ← curPos
    let c ← getChar toParse pos
    if p c then advance >>= fun _ => skipWhile p rounds else pure ()

def getPosition : Checked Cursor (ℤ × ℤ) := step fun s => ((s.line, s.curPos - s.columnStartPos), s)

def skipComment : Checked Cursor Unit := do
  let pos ← curPos
  let c ← getChar toParse pos
  if c = '#' then skipWhile toParse (fun c => c ≠ '\n') rounds else pure ()

def getNextChar : Checked Cursor Char := do
  skipWhile toParse isBlank rounds
  skipComment toParse rounds
  let pos ← curPos
  let c ← getChar toParse pos
  advance
  pure c

/-- The text from `startPos` to `curPos`. -/
def tokenText (startPos : ℤ) : Checked Cursor String := do
  let pos ← curPos
  pure (String.ofList ((toParse.drop startPos.toNat).take (pos - startPos).toNat))

def tokenizeIdentifier (token : Token) (startPos : ℤ) : Checked Cursor Token := do
  skipWhile toParse (fun c => isAlnum c || c = '_' || c = '.') rounds
  let text ← tokenText toParse startPos
  pure { token with text, type := .identifier }

def tokenizeHexToken (token : Token) (startPos : ℤ) : Checked Cursor Token := do
  skipWhile toParse isXDigit rounds
  let text ← tokenText toParse startPos
  pure { token with text, type := .hexIntegral }

/-- `tokenizeNumberToken` behind its tests for a leading 0. -/
def tokenizeDigits (token : Token) (startPos : ℤ) (type : TokenType) : Checked Cursor Token := do
  skipWhile toParse isDigit rounds
  let pos ← curPos
  let c ← getChar toParse pos
  let type ← readIf (isComma c = true)
    (do
      advance
      skipWhile toParse isDigit rounds
      pure .float) type
  let text ← tokenText toParse startPos
  pure { token with text, type }

def tokenizeNumberToken (token : Token) (startPos : ℤ) : Checked Cursor Token := do
  let first ← charAt toParse startPos
  if first = '0' then do
    let second ← charAt toParse (startPos + 1)
    if second.toLower = 'x' then do
      advance
      tokenizeHexToken toParse rounds token startPos
    else if isComma second then tokenizeDigits toParse rounds token startPos .float
    else do
      let pos ← curPos
      let c ← getChar toParse pos
      -- no support for octal
      tokenizeDigits toParse rounds token startPos (if isDigit c then .undefined else .integral)
  else tokenizeDigits toParse rounds token startPos .integral

/-- `getToken` calls itself behind a `\r`, at most `depth` times. -/
def getToken : (depth : ℕ) → Checked Cursor Token
  | 0 => stuck .unfinished
  | depth + 1 => do
    let c ← getNextChar toParse rounds
    let pos ← curPos
    let position ← getPosition
    let token : Token := ⟨.undefined, String.singleton c, position⟩
    if c = '\r' then getToken depth
    else if c = '\n' then
      step fun s => ({ token with type := .endOfLine }, { s with line := s.line + 1, columnStartPos := s.curPos })
    else
      match symbolType c with
      | some type => pure { token with type }
      | none =>
        if isAlpha c then tokenizeIdentifier toParse rounds token (pos - 1)
        else if isDigit c then tokenizeNumberToken toParse rounds token (pos - 1)
        else pure token

end Tokenizer

/-! ## `ParseConfig` -/

/-- An exception, which `ParseConfig` may catch. -/
inductive Thrown
  | runtimeError
  | other
  deriving DecidableEq

/-- What is done with a section and with a setting: the configuration and the parser after it, and
the exception that it throws. -/
structure ConfigCallbacks (π : Type) where
  tryFinalizeSection : π → π
  updateSection : π → String → π × Option Thrown
  parseIdentifiers : π → Token → List Token → π × Option Thrown

section ParseConfig

variable {π : Type} (cb : ConfigCallbacks π) (toParse : List Char) (rounds : ℕ)

def parseSection (parser : π) : Checked Cursor (π × Option Thrown) := do
  let «section» ← getToken toParse rounds rounds
  let closeBracket ← getToken toParse rounds rounds
  if closeBracket.type ≠ .closeBracket then pure (parser, some .runtimeError)
  else if «section».type ≠ .identifier then pure (parser, some .runtimeError)
  else pure (cb.updateSection (cb.tryFinalizeSection parser) «section».text)

/-- The loop of `parseIdentifier`: the tokens up to the end of the line. -/
def restOfLine : (n : ℕ) → Token → List Token → Checked Cursor (List Token)
  | 0, _, _ => stuck .unfinished
  | n + 1, token, tokens =>
    if token.type ≠ .endOfLine ∧ token.type ≠ .endOfFile then do
      let next ← getToken toParse rounds rounds
      restOfLine n next (tokens ++ [token])
    else pure tokens

def parseIdentifier (parser : π) (identToken : Token) : Checked Cursor (π × Option Thrown) := do
  let equal ← getToken toParse rounds rounds
  if equal.type ≠ .equal then pure (parser, some .runtimeError)
  else do
    let token ← getToken toParse rounds rounds
    let tokens ← restOfLine toParse rounds rounds token []
    if tokens = [] then pure (parser, some .runtimeError)
    else pure (cb.parseIdentifiers parser identToken tokens)

/-- The `switch` of `ParseConfig`, but for the end of the file. -/
def parseStatement (parser : π) (token : Token) : Checked Cursor (π × Option Thrown) :=
  if token.type = .openBracket then parseSection cb toParse rounds parser
  else if token.type = .identifier then parseIdentifier cb toParse rounds parser token
  else pure (parser, none)

/-- The loop of `ParseConfig`, with the exception that leaves it. -/
def parseLoop (strictMode : Bool) : (n : ℕ) → π → Checked Cursor (π × Option Thrown)
  | 0, _ => stuck .unfinished
  | n + 1, parser => do
    let token ← getToken toParse rounds rounds
    if token.type = .endOfFile then pure (cb.tryFinalizeSection parser, none)
    else do
      let r ← parseStatement cb toParse rounds parser token
      if r.2 = some .other ∨ (r.2 = some .runtimeError ∧ strictMode = true) then pure r
      else parseLoop strictMode n r.1

def parseConfig (strictMode : Bool) (parser : π) : Checked Cursor (π × Option Thrown) :=
  parseLoop cb toParse rounds strictMode rounds parser

end ParseConfig

end VcuCodec.CfgParsing
