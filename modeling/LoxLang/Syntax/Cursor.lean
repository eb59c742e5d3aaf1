import LoxLang.Syntax.Basic

/-!
# Reading tokens one after another

A reader of programs moves a cursor over a list of tokens that ends in the token for the end of
the source.  The cursor carries the complaints made so far and the next free reference number; a
reader that fails gives no result but keeps its cursor, so nothing that was read or complained
about is lost.

A cursor never moves past the end of the source, and the token at the cursor is the end of the
source once the list is used up.
-/

namespace LoxLang

/-- What a reader wanted to see, where something else stood. -/
inductive Expectation where
  | className
  | superclassName
  | classBody
  | classEnd
  | functionName
  | methodName
  | functionParen
  | methodParen
  | parameterName
  | parametersEnd
  | functionBody
  | methodBody
  | variableName
  | variableEnd
  | breakEnd
  | forParen
  | forCondition
  | forClauses
  | ifParen
  | ifCondition
  | whileParen
  | whileCondition
  | returnEnd
  | printEnd
  | expressionEnd
  | blockEnd
  | propertyName
  | argumentsEnd
  | superDot
  | superMethod
  | groupingEnd
  | expression
  deriving DecidableEq, Repr

/-- The wording of an expectation. -/
def Expectation.message : Expectation → String
  | .className => "Expect class name."
  | .superclassName => "Expect superclass name."
  | .classBody => "Expect '\x7b' before class body."
  | .classEnd => "Expect '\x7d' after class body."
  | .functionName => "Expect function name."
  | .methodName => "Expect method name."
  | .functionParen => "Expect '(' after function name."
  | .methodParen => "Expect '(' after method name."
  | .parameterName => "Expect parameter name."
  | .parametersEnd => "Expect ')' after parameters."
  | .functionBody => "Expect '\x7b' before function body."
  | .methodBody => "Expect '\x7b' before method body."
  | .variableName => "Expect variable name."
  | .variableEnd => "Expect ';' after variable declaration."
  | .breakEnd => "Expect ';' after break."
  | .forParen => "Expect '(' after 'for'."
  | .forCondition => "Expect ';' after loop condition."
  | .forClauses => "Expect ')' after for clauses."
  | .ifParen => "Expect '(' after 'if'."
  | .ifCondition => "Expect ')' after if condition."
  | .whileParen => "Expect '(' after 'while'."
  | .whileCondition => "Expect ')' after condition."
  | .returnEnd => "Expect ';' after return value."
  | .printEnd => "Expect ';' after value."
  | .expressionEnd => "Expect ';' after expression."
  | .blockEnd => "Expect '\x7d' after block."
  | .propertyName => "Expect property name after '.'."
  | .argumentsEnd => "Expect ')' after arguments."
  | .superDot => "Expect '.' after 'super'."
  | .superMethod => "Expect superclass method name."
  | .groupingEnd => "Expect ')' after expression."
  | .expression => "Expect expression."

/-- The largest number of parameters or arguments. -/
def maxArity : Nat := 8

/-- Why tokens are no program.  Only an unmet expectation ends the statement it is in. -/
inductive SyntaxCause where
  | expected (what : Expectation)
  | tooManyParameters
  | tooManyArguments
  | invalidTarget
  deriving DecidableEq, Repr

/-- The wording of a complaint. -/
def SyntaxCause.message : SyntaxCause → String
  | .expected what => what.message
  | .tooManyParameters => "Cannot have more than " ++ toString maxArity ++ " parameters."
  | .tooManyArguments => "Cannot have more than " ++ toString maxArity ++ " arguments."
  | .invalidTarget => "Invalid assignment target."

/-- Does a complaint end the statement it is in? -/
def SyntaxCause.isFatal : SyntaxCause → Bool
  | .expected _ => true
  | _ => false

/-- A complaint about the token at which it points.  `position` is the number of tokens read
before it was made. -/
structure SyntaxError where
  token : Token
  cause : SyntaxCause
  position : Nat
  deriving DecidableEq

/-- Where a reader stands. -/
structure Cursor where
  /-- The tokens not yet read. -/
  rest : List Token
  /-- How many tokens were read. -/
  position : Nat
  /-- The next free reference number. -/
  nextRef : RefId
  /-- The complaints so far, in order. -/
  errors : List SyntaxError

/-- The token that stands behind every list of tokens. -/
def Token.atEnd : Token := ⟨.eof, "", 1⟩

namespace Cursor

/-- The token at the cursor. -/
def token (c : Cursor) : Token := c.rest.headD .atEnd

/-- Is the cursor at the end of the source? -/
def isAtEnd (c : Cursor) : Bool := c.token.isEof

/-- Moves past the token at the cursor, unless that is the end of the source. -/
def advance (c : Cursor) : Cursor :=
  if c.isAtEnd then c else { c with rest := c.rest.tail, position := c.position + 1 }

/-- Adds a complaint about a token. -/
def complain (c : Cursor) (token : Token) (cause : SyntaxCause) : Cursor :=
  { c with errors := c.errors ++ [⟨token, cause, c.position⟩] }

/-- Does a statement start with this token? -/
def startsStatement (t : Token) : Bool :=
  match t.kind with
  | .keyword k =>
    k ∈ [.class_, .fun_, .var_, .for_, .if_, .while_, .print_, .return_, .break_]
  | _ => false

/-- How many tokens lie before the next place where a statement may start, behind `previous`:
just after a semicolon, just before a word that starts a statement, or the end of the source. -/
def skipCount (previous : Token) : List Token → Nat
  | [] => 0
  | t :: rest =>
    if t.isEof || previous.isMark .semicolon || startsStatement t then 0
    else skipCount t rest + 1

/-- Moves past the offending token and on to the next place where a statement may start. -/
def skipToStatement (c : Cursor) : Cursor :=
  match c.rest with
  | [] => c
  | t :: rest =>
    if t.isEof then c
    else
      let skipped := skipCount t rest
      { c with rest := rest.drop skipped, position := c.position + 1 + skipped }

end Cursor

/-! ## Readers -/

/-- A reader moves a cursor and may have a result. -/
def Reader (α : Type) : Type := Cursor → Option α × Cursor

namespace Reader

instance : Monad Reader where
  pure a := fun c => (some a, c)
  bind p f := fun c =>
    match p c with
    | (some a, c) => f a c
    | (none, c) => (none, c)

@[simp] theorem run_pure {α : Type} (a : α) (c : Cursor) :
    (pure a : Reader α) c = (some a, c) := rfl

@[simp] theorem run_bind {α β : Type} (p : Reader α) (f : α → Reader β) (c : Cursor) :
    (p >>= f) c = match p c with
      | (some a, c) => f a c
      | (none, c) => (none, c) := rfl

/-- No result. -/
def fail {α : Type} : Reader α := fun c => (none, c)

/-- The token at the cursor. -/
def peek : Reader Token := fun c => (some c.token, c)

/-- Moves past the token at the cursor. -/
def advance : Reader Unit := fun c => (some (), c.advance)

/-- Is the cursor at the end of the source? -/
def isAtEnd : Reader Bool := fun c => (some c.isAtEnd, c)

/-- Does the token at the cursor satisfy a test?  The end of the source satisfies none. -/
def check (test : Token → Bool) : Reader Bool :=
  fun c => (some (!c.isAtEnd && test c.token), c)

/-- Reads the token at the cursor if it satisfies a test. -/
def accept? (test : Token → Bool) : Reader (Option Token) := fun c =>
  if !c.isAtEnd && test c.token then (some (some c.token), c.advance) else (some none, c)

/-- Complains about a token and goes on. -/
def complain (token : Token) (cause : SyntaxCause) : Reader Unit :=
  fun c => (some (), c.complain token cause)

/-- Reads a token that has to satisfy a test, and fails with a complaint if it does not. -/
def expect (test : Token → Bool) (what : Expectation) : Reader Token := fun c =>
  if !c.isAtEnd && test c.token then (some c.token, c.advance)
  else (none, c.complain c.token (.expected what))

/-- Reads a mark. -/
def expectMark (m : Mark) (what : Expectation) : Reader Token := expect (·.isMark m) what

/-- Reads a name. -/
def expectName (what : Expectation) : Reader Token := expect Token.isIdentifier what

/-- A reference number that was not used before. -/
def freshRef : Reader RefId := fun c => (some c.nextRef, { c with nextRef := c.nextRef + 1 })

/-- Runs a reader; if it fails, moves on to where the next statement may start. -/
def recover {α : Type} (p : Reader α) : Reader (Option α) := fun c =>
  match p c with
  | (some a, c) => (some (some a), c)
  | (none, c) => (some none, c.skipToStatement)

end Reader

end LoxLang
