import LoxLang.Diagnostic
import LoxLang.Syntax.Cursor

/-!
# Reading programs

The grammar is read by recursive descent, one function per rule.  The levels of binary operators
are data (`Level`), from the loosest to the tightest, so one pair of functions reads all of them:
`operand` reads what stands between two operators of a level, and `chain` folds a run of operators
to the left.

```text
program     → declaration* end
declaration → classDecl | "fun" function | varDecl | statement
classDecl   → "class" NAME ( "<" NAME )? "{" function* "}"
function    → NAME "(" ( NAME ( "," NAME )* )? ")" block
varDecl     → "var" NAME ( "=" expression )? ";"
statement   → expression ";" | for | if | print | return | break | while | block
expression  → ( call "." )? NAME "=" expression | operand
unary       → ( "!" | "-" ) unary | call
call        → primary ( "(" arguments? ")" | "." NAME )*
primary     → constant | "this" | "super" "." NAME | NAME | "(" expression ")"
```

**Fuel.**  Each function uses one unit of fuel per call.  Between two tokens that are read there
are at most as many nested calls as there are rules, so fuel in proportion to the number of tokens
is never used up; `readProgram` supplies it.

**Recovery.**  A complaint of the kind "expected" ends the declaration it is in.  The declaration
is left out, the cursor moves to where the next statement may start, and reading goes on from
there, inside the same block or class.
-/

namespace LoxLang

/-! ## Levels of binary operators -/

/-- Levels of binary operators, loosest first. -/
inductive Level where
  | disjunction
  | conjunction
  | equality
  | comparison
  | term
  | factor
  deriving DecidableEq, Repr

namespace Level

/-- Is the token an operator of the level? -/
def isOperator (l : Level) (t : Token) : Bool :=
  match l with
  | .disjunction => t.isKeyword .or_
  | .conjunction => t.isKeyword .and_
  | .equality => t.isMark .bangEqual || t.isMark .equalEqual
  | .comparison =>
    t.isMark .greater || t.isMark .greaterEqual || t.isMark .less || t.isMark .lessEqual
  | .term => t.isMark .minus || t.isMark .plus
  | .factor => t.isMark .slash || t.isMark .star

/-- The next tighter level; there is none inside a factor. -/
def tighter? : Level → Option Level
  | .disjunction => some .conjunction
  | .conjunction => some .equality
  | .equality => some .comparison
  | .comparison => some .term
  | .term => some .factor
  | .factor => none

/-- The expression for an operation of the level.  The two loosest levels short-circuit. -/
def operation (l : Level) (left : Expr) (operator : Token) (right : Expr) : Expr :=
  match l with
  | .disjunction | .conjunction => .logical left operator right
  | _ => .binary left operator right

end Level

/-- Is the token an operator in front of its operand? -/
def isUnaryOperator (t : Token) : Bool := t.isMark .bang || t.isMark .minus

/-! ## Expressions -/

namespace Reader

mutual

/-- An expression.  An assignment is read as an operand first and turned into an assignment when
an equals sign follows; a target that is neither a name nor a property is complained about and
stays as it is. -/
def expression : Nat → Reader Expr
  | 0 => fail
  | n + 1 => do
    let target ← operand n (some .disjunction)
    match ← accept? (·.isMark .equal) with
    | none => pure target
    | some equals =>
      let value ← expression n
      match target with
      | .variable _ name =>
        let ref ← freshRef
        pure (.assign ref name value)
      | .get object name => pure (.set object name value)
      | other =>
        complain equals .invalidTarget
        pure other

/-- What stands between operators of the next looser level; without a level, a unary expression. -/
def operand : Nat → Option Level → Reader Expr
  | 0, _ => fail
  | n + 1, none => unary n
  | n + 1, some l => do
    let first ← operand n l.tighter?
    chain n l first

/-- A run of operators of one level behind a first operand, folded to the left. -/
def chain : Nat → Level → Expr → Reader Expr
  | 0, _, _ => fail
  | n + 1, l, left => do
    match ← accept? l.isOperator with
    | none => pure left
    | some operator =>
      let right ← operand n l.tighter?
      chain n l (l.operation left operator right)

/-- A unary operator with its operand, or a call. -/
def unary : Nat → Reader Expr
  | 0 => fail
  | n + 1 => do
    match ← accept? isUnaryOperator with
    | some operator =>
      let right ← unary n
      pure (.unary operator right)
    | none =>
      let first ← primary n
      suffixes n first

/-- Calls and property accesses behind an expression. -/
def suffixes : Nat → Expr → Reader Expr
  | 0, _ => fail
  | n + 1, e => do
    match ← accept? (·.isMark .leftParen) with
    | some _ =>
      let arguments ← argumentList n
      let paren ← expectMark .rightParen .argumentsEnd
      suffixes n (.call e paren arguments)
    | none =>
      match ← accept? (·.isMark .dot) with
      | some _ =>
        let name ← expectName .propertyName
        suffixes n (.get e name)
      | none => pure e

/-- The arguments of a call, up to the closing parenthesis. -/
def argumentList : Nat → Reader (List Expr)
  | 0 => fail
  | n + 1 => do
    if ← check (·.isMark .rightParen) then pure [] else argumentsFrom n 0

/-- One argument and those behind it, when `count` were read before. -/
def argumentsFrom : Nat → Nat → Reader (List Expr)
  | 0, _ => fail
  | n + 1, count => do
    if maxArity ≤ count then complain (← peek) .tooManyArguments
    let first ← expression n
    match ← accept? (·.isMark .comma) with
    | some _ =>
      let others ← argumentsFrom n (count + 1)
      pure (first :: others)
    | none => pure [first]

/-- A constant, a reference, or an expression in parentheses. -/
def primary : Nat → Reader Expr
  | 0 => fail
  | n + 1 => do
    let t ← peek
    match t.kind with
    | .keyword .false_ =>
      advance
      pure (.literal (.bool false))
    | .keyword .true_ =>
      advance
      pure (.literal (.bool true))
    | .keyword .nil_ =>
      advance
      pure (.literal .nil)
    | .number x =>
      advance
      pure (.literal (.number x))
    | .string s =>
      advance
      pure (.literal (.string s))
    | .keyword .this_ =>
      advance
      let ref ← freshRef
      pure (.this ref t)
    | .keyword .super_ =>
      advance
      let _ ← expectMark .dot .superDot
      let method ← expectName .superMethod
      let ref ← freshRef
      pure (.super ref t method)
    | .identifier =>
      advance
      let ref ← freshRef
      pure (.variable ref t)
    | .mark .leftParen =>
      advance
      let inner ← expression n
      let _ ← expectMark .rightParen .groupingEnd
      pure (.grouping inner)
    | _ =>
      complain t (.expected .expression)
      fail

end

/-! ## Declarations and statements -/

/-- An expression, unless the token at the cursor is the given mark. -/
def expressionUnless (n : Nat) (m : Mark) : Reader (Option Expr) := do
  if ← check (·.isMark m) then pure none
  else
    let e ← expression n
    pure (some e)

/-- An expression as a statement. -/
def expressionStatement (n : Nat) : Reader Stmt := do
  let e ← expression n
  let _ ← expectMark .semicolon .expressionEnd
  pure (.expression e)

/-- A variable declaration, behind its keyword. -/
def varDeclaration (n : Nat) : Reader Stmt := do
  let name ← expectName .variableName
  let initializer ←
    match ← accept? (·.isMark .equal) with
    | some _ =>
      let e ← expression n
      pure (some e)
    | none => pure none
  let _ ← expectMark .semicolon .variableEnd
  pure (.var name initializer)

/-- A print statement, behind its keyword. -/
def printStatement (n : Nat) : Reader Stmt := do
  let e ← expression n
  let _ ← expectMark .semicolon .printEnd
  pure (.print e)

/-- A return statement, behind its keyword. -/
def returnStatement (n : Nat) (keyword : Token) : Reader Stmt := do
  let value ← expressionUnless n .semicolon
  let _ ← expectMark .semicolon .returnEnd
  pure (.returnValue keyword value)

/-- A break statement, behind its keyword. -/
def breakStatement (keyword : Token) : Reader Stmt := do
  let _ ← expectMark .semicolon .breakEnd
  pure (.breakLoop keyword)

/-- The first clause of a `for` loop, with its semicolon. -/
def forInitializer (n : Nat) : Reader (Option Stmt) := do
  match ← accept? (·.isMark .semicolon) with
  | some _ => pure none
  | none =>
    match ← accept? (·.isKeyword .var_) with
    | some _ =>
      let s ← varDeclaration n
      pure (some s)
    | none =>
      let s ← expressionStatement n
      pure (some s)

/-- A function or a method, in the complaints about it. -/
inductive Role where
  | function
  | method
  deriving DecidableEq, Repr

/-- What is expected where the name should be. -/
def Role.nameExpectation : Role → Expectation
  | .function => .functionName
  | .method => .methodName

/-- What is expected where the parameters should start. -/
def Role.parenExpectation : Role → Expectation
  | .function => .functionParen
  | .method => .methodParen

/-- What is expected where the body should start. -/
def Role.bodyExpectation : Role → Expectation
  | .function => .functionBody
  | .method => .methodBody

/-- One parameter and those behind it, when `count` were read before. -/
def parametersFrom : Nat → Nat → Reader (List Token)
  | 0, _ => fail
  | n + 1, count => do
    if maxArity ≤ count then complain (← peek) .tooManyParameters
    let first ← expectName .parameterName
    match ← accept? (·.isMark .comma) with
    | some _ =>
      let others ← parametersFrom n (count + 1)
      pure (first :: others)
    | none => pure [first]

/-- The parameters of a function, up to the closing parenthesis. -/
def parameterList (n : Nat) : Reader (List Token) := do
  if ← check (·.isMark .rightParen) then pure [] else parametersFrom n 0

mutual

/-- A declaration, or nothing if it could not be read. -/
def declaration : Nat → Reader (Option Stmt)
  | 0 => fail
  | n + 1 => recover (declarationRule n)

/-- A declaration. -/
def declarationRule : Nat → Reader Stmt
  | 0 => fail
  | n + 1 => do
    let t ← peek
    match t.kind with
    | .keyword .class_ =>
      advance
      classDeclaration n
    | .keyword .fun_ =>
      advance
      let decl ← function n .function
      pure (.function decl)
    | .keyword .var_ =>
      advance
      varDeclaration n
    | _ => statement n

/-- A class declaration, behind its keyword. -/
def classDeclaration : Nat → Reader Stmt
  | 0 => fail
  | n + 1 => do
    let name ← expectName .className
    let superclass ←
      match ← accept? (·.isMark .less) with
      | some _ =>
        let parent ← expectName .superclassName
        let ref ← freshRef
        pure (some (.variable ref parent))
      | none => pure none
    let _ ← expectMark .leftBrace .classBody
    let methods ← methodList n
    let _ ← expectMark .rightBrace .classEnd
    pure (.classDecl name superclass methods)

/-- The methods of a class, up to the closing brace. -/
def methodList : Nat → Reader (List FunDecl)
  | 0 => fail
  | n + 1 => do
    let closed ← check (·.isMark .rightBrace)
    if closed || (← isAtEnd) then pure []
    else
      let first ← function n .method
      let others ← methodList n
      pure (first :: others)

/-- A function or method: name, parameters and body. -/
def function : Nat → Role → Reader FunDecl
  | 0, _ => fail
  | n + 1, role => do
    let name ← expectName role.nameExpectation
    let _ ← expectMark .leftParen role.parenExpectation
    let params ← parameterList n
    let _ ← expectMark .rightParen .parametersEnd
    let _ ← expectMark .leftBrace role.bodyExpectation
    let body ← block n
    pure (.mk name params body)

/-- The statements of a block and its closing brace, behind the opening brace. -/
def block : Nat → Reader (List Stmt)
  | 0 => fail
  | n + 1 => do
    let body ← blockItems n
    let _ ← expectMark .rightBrace .blockEnd
    pure body

/-- The declarations of a block, up to the closing brace. -/
def blockItems : Nat → Reader (List Stmt)
  | 0 => fail
  | n + 1 => do
    let closed ← check (·.isMark .rightBrace)
    if closed || (← isAtEnd) then pure []
    else
      let first ← declaration n
      let others ← blockItems n
      pure (first.toList ++ others)

/-- A statement. -/
def statement : Nat → Reader Stmt
  | 0 => fail
  | n + 1 => do
    let t ← peek
    match t.kind with
    | .keyword .break_ =>
      advance
      breakStatement t
    | .keyword .for_ =>
      advance
      forStatement n
    | .keyword .if_ =>
      advance
      ifStatement n
    | .keyword .while_ =>
      advance
      whileStatement n
    | .keyword .return_ =>
      advance
      returnStatement n t
    | .mark .leftBrace =>
      advance
      let body ← block n
      pure (.block body)
    | .keyword .print_ =>
      advance
      printStatement n
    | _ => expressionStatement n

/-- A `for` loop, behind its keyword. -/
def forStatement : Nat → Reader Stmt
  | 0 => fail
  | n + 1 => do
    let _ ← expectMark .leftParen .forParen
    let initializer ← forInitializer n
    let condition ← expressionUnless n .semicolon
    let _ ← expectMark .semicolon .forCondition
    let increment ← expressionUnless n .rightParen
    let _ ← expectMark .rightParen .forClauses
    let body ← statement n
    pure (.forLoop initializer condition increment body)

/-- A conditional, behind its keyword.  An `else` belongs to the nearest conditional. -/
def ifStatement : Nat → Reader Stmt
  | 0 => fail
  | n + 1 => do
    let _ ← expectMark .leftParen .ifParen
    let condition ← expression n
    let _ ← expectMark .rightParen .ifCondition
    let thenBranch ← statement n
    match ← accept? (·.isKeyword .else_) with
    | some _ =>
      let elseBranch ← statement n
      pure (.ifThen condition thenBranch (some elseBranch))
    | none => pure (.ifThen condition thenBranch none)

/-- A `while` loop, behind its keyword. -/
def whileStatement : Nat → Reader Stmt
  | 0 => fail
  | n + 1 => do
    let _ ← expectMark .leftParen .whileParen
    let condition ← expression n
    let _ ← expectMark .rightParen .whileCondition
    let body ← statement n
    pure (.whileLoop condition body)

end

/-- Declarations up to the end of the source. -/
def declarations : Nat → Reader (List Stmt)
  | 0 => fail
  | n + 1 => do
    if ← isAtEnd then pure []
    else
      let first ← declaration n
      let others ← declarations n
      pure (first.toList ++ others)

end Reader

/-! ## Whole programs -/

/-- What tokens are read as: the declarations that could be read, the complaints, the next free
reference number, and the tokens left over, of which there is only the end of the source. -/
structure Reading where
  program : List Stmt
  errors : List SyntaxError
  nextRef : RefId
  rest : List Token

/-- Nested calls of reading functions between two tokens that are read are fewer than this. -/
def fuelPerToken : Nat := 32

/-- **Reads a program** from tokens, with reference numbers from `nextRef` on. -/
def readProgram (tokens : List Token) (nextRef : RefId) : Reading :=
  let (program, c) :=
    Reader.declarations (fuelPerToken * (tokens.length + 1)) ⟨tokens, 0, nextRef, []⟩
  ⟨program.getD [], c.errors, c.nextRef, c.rest⟩

/-- The diagnostic of a complaint. -/
def SyntaxError.diagnostic (e : SyntaxError) : Diagnostic := .syntactic e.token e.cause.message

/-- The syntactic complaints of a reading. -/
def Reading.log (r : Reading) : Log := r.errors.map SyntaxError.diagnostic

/-- Reads a source: its program, and all lexical and then all syntactic complaints about it. -/
def readSource (source : String) (nextRef : RefId) : Reading × Log :=
  let reading := readProgram (tokensOf source) nextRef
  (reading, lexicalLog source ++ reading.log)

end LoxLang
