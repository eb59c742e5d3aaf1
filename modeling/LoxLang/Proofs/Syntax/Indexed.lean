import LoxLang.Syntax.Grammar

/-!
# Reading by position

A cursor holds the tokens that are left, and once there are none it shows the end of the source all
the same.  So it cannot be seen whether a reader ever looks where there is no token.

Here the same rules read from the whole list of tokens by position.  A reader looks at the token at
its position and at the one before it, and nowhere else.  Looking where there is no token is an
outcome of its own, and so is looking back from the first token.  A third one is kept apart from a
failure with a complaint: that the fuel has run out.  `LoxLang.Proofs.Syntax.Progress` compares
these readers with those over cursors and shows that neither accident happens.
-/

namespace LoxLang

/-- Where a reader by position stands. -/
structure Stand where
  /-- The position of the token that is next. -/
  current : Nat
  /-- The next free reference number. -/
  nextRef : RefId
  /-- The complaints so far, in order. -/
  errors : List SyntaxError

/-- How a reader by position ends. -/
inductive IndexedOutcome (α : Type) where
  | read (a : α) (s : Stand)
  /-- There is no result, but a complaint. -/
  | failed (s : Stand)
  /-- The reader has looked where there is no token. -/
  | outOfRange
  | exhausted

/-- A reader by position.  The list of tokens stays the same. -/
def IndexedReader (α : Type) : Type := List Token → Stand → IndexedOutcome α

namespace IndexedReader

instance : Monad IndexedReader where
  pure a := fun _ s => .read a s
  bind p f := fun tokens s =>
    match p tokens s with
    | .read a s => f a tokens s
    | .failed s => .failed s
    | .outOfRange => .outOfRange
    | .exhausted => .exhausted

@[simp] theorem run_pure {α : Type} (a : α) (tokens : List Token) (s : Stand) :
    (pure a : IndexedReader α) tokens s = .read a s := rfl

@[simp] theorem run_bind {α β : Type} (p : IndexedReader α) (f : α → IndexedReader β)
    (tokens : List Token) (s : Stand) : (p >>= f) tokens s = match p tokens s with
      | .read a s => f a tokens s
      | .failed s => .failed s
      | .outOfRange => .outOfRange
      | .exhausted => .exhausted := rfl

/-! ## Looking at tokens -/

/-- No result. -/
def fail {α : Type} : IndexedReader α := fun _ s => .failed s

/-- The fuel has run out. -/
def exhausted {α : Type} : IndexedReader α := fun _ _ => .exhausted

/-- The token at the position. -/
def peek : IndexedReader Token := fun tokens s =>
  match tokens[s.current]? with
  | some t => .read t s
  | none => .outOfRange

/-- The token before the position. -/
def previous : IndexedReader Token := fun tokens s =>
  match s.current with
  | 0 => .outOfRange
  | i + 1 =>
    match tokens[i]? with
    | some t => .read t s
    | none => .outOfRange

/-- Is the position that of the end of the source? -/
def isAtEnd : IndexedReader Bool := do
  let t ← peek
  pure t.isEof

/-- Does the token at the position satisfy a test?  The end of the source satisfies none. -/
def check (test : Token → Bool) : IndexedReader Bool := do
  if ← isAtEnd then pure false
  else
    let t ← peek
    pure (test t)

/-- Goes on by one position. -/
def step : IndexedReader Unit := fun _ s => .read () { s with current := s.current + 1 }

/-- Moves past the token at the position, unless that is the end of the source, and looks back at
the token before. -/
def advance : IndexedReader Token := do
  if ← isAtEnd then previous
  else
    step
    previous

/-- Reads the token at the position if it satisfies a test. -/
def accept? (test : Token → Bool) : IndexedReader (Option Token) := do
  if ← check test then
    let t ← advance
    pure (some t)
  else pure none

/-- Complains about a token and goes on. -/
def complain (token : Token) (cause : SyntaxCause) : IndexedReader Unit := fun _ s =>
  .read () { s with errors := s.errors ++ [⟨token, cause, s.current⟩] }

/-- Reads a token that has to satisfy a test, and fails with a complaint if it does not. -/
def expect (test : Token → Bool) (what : Expectation) : IndexedReader Token := do
  if ← check test then advance
  else
    let t ← peek
    complain t (.expected what)
    fail

/-- Reads a mark. -/
def expectMark (m : Mark) (what : Expectation) : IndexedReader Token := expect (·.isMark m) what

/-- Reads a name. -/
def expectName (what : Expectation) : IndexedReader Token := expect Token.isIdentifier what

/-- A reference number that was not used before. -/
def freshRef : IndexedReader RefId := fun _ s =>
  .read s.nextRef { s with nextRef := s.nextRef + 1 }

/-- Moves on to the next place where a statement may start, over at most so many tokens. -/
def skip : Nat → IndexedReader Unit
  | 0 => exhausted
  | n + 1 => do
    if ← isAtEnd then pure ()
    else if (← previous).isMark .semicolon then pure ()
    else if Cursor.startsStatement (← peek) then pure ()
    else
      let _ ← advance
      skip n

/-- Moves past the offending token and on to the next place where a statement may start. -/
def synchronize : IndexedReader Unit := fun tokens s =>
  (do
    let _ ← advance
    skip tokens.length : IndexedReader Unit) tokens s

/-- Runs a reader; if it fails, moves on to where the next statement may start. -/
def recover {α : Type} (p : IndexedReader α) : IndexedReader (Option α) := fun tokens s =>
  match p tokens s with
  | .read a s => .read (some a) s
  | .failed s => (do
      synchronize
      pure none : IndexedReader (Option α)) tokens s
  | .outOfRange => .outOfRange
  | .exhausted => .exhausted

/-! ## Expressions -/

mutual

/-- An expression. -/
def expression : Nat → IndexedReader Expr
  | 0 => exhausted
  | n + 1 => do
    let target ← operand n (some .disjunction)
    match ← accept? (·.isMark .equal) with
    | none => pure target
    | some equals =>
      let value ← expression n
      match target with
      | .variable _ name =>
        let ref ← freshRef
        pure (.assign ref name value)
      | .get object name => pure (.set object name value)
      | other =>
        complain equals .invalidTarget
        pure other

/-- What stands between operators of the next looser level; without a level, a unary expression. -/
def operand : Nat → Option Level → IndexedReader Expr
  | 0, _ => exhausted
  | n + 1, none => unary n
  | n + 1, some l => do
    let first ← operand n l.tighter?
    chain n l first

/-- A run of operators of one level behind a first operand. -/
def chain : Nat → Level → Expr → IndexedReader Expr
  | 0, _, _ => exhausted
  | n + 1, l, left => do
    match ← accept? l.isOperator with
    | none => pure left
    | some operator =>
      let right ← operand n l.tighter?
      chain n l (l.operation left operator right)

/-- A unary operator with its operand, or a call. -/
def unary : Nat → IndexedReader Expr
  | 0 => exhausted
  | n + 1 => do
    match ← accept? isUnaryOperator with
    | some operator =>
      let right ← unary n
      pure (.unary operator right)
    | none =>
      let first ← primary n
      suffixes n first

/-- Calls and property accesses behind an expression. -/
def suffixes : Nat → Expr → IndexedReader Expr
  | 0, _ => exhausted
  | n + 1, e => do
    match ← accept? (·.isMark .leftParen) with
    | some _ =>
      let arguments ← argumentList n
      let paren ← expectMark .rightParen .argumentsEnd
      suffixes n (.call e paren arguments)
    | none =>
      match ← accept? (·.isMark .dot) with
      | some _ =>
        let name ← expectName .propertyName
        suffixes n (.get e name)
      | none => pure e

/-- The arguments of a call, up to the closing parenthesis. -/
def argumentList : Nat → IndexedReader (List Expr)
  | 0 => exhausted
  | n + 1 => do
    if ← check (·.isMark .rightParen) then pure [] else argumentsFrom n 0

/-- One argument and those behind it, when `count` were read before. -/
def argumentsFrom : Nat → Nat → IndexedReader (List Expr)
  | 0, _ => exhausted
  | n + 1, count => do
    if maxArity ≤ count then complain (← peek) .tooManyArguments
    let first ← expression n
    match ← accept? (·.isMark .comma) with
    | some _ =>
      let others ← argumentsFrom n (count + 1)
      pure (first :: others)
    | none => pure [first]

/-- A constant, a reference, or an expression in parentheses. -/
def primary : Nat → IndexedReader Expr
  | 0 => exhausted
  | n + 1 => do
    let t ← peek
    match t.kind with
    | .keyword .false_ =>
      let _ ← advance
      pure (.literal (.bool false))
    | .keyword .true_ =>
      let _ ← advance
      pure (.literal (.bool true))
    | .keyword .nil_ =>
      let _ ← advance
      pure (.literal .nil)
    | .number x =>
      let _ ← advance
      pure (.literal (.number x))
    | .string s =>
      let _ ← advance
      pure (.literal (.string s))
    | .keyword .this_ =>
      let keyword ← advance
      let ref ← freshRef
      pure (.this ref keyword)
    | .keyword .super_ =>
      let keyword ← advance
      let _ ← expectMark .dot .superDot
      let method ← expectName .superMethod
      let ref ← freshRef
      pure (.super ref keyword method)
    | .identifier =>
      let name ← advance
      let ref ← freshRef
      pure (.variable ref name)
    | .mark .leftParen =>
      let _ ← advance
      let inner ← expression n
      let _ ← expectMark .rightParen .groupingEnd
      pure (.grouping inner)
    | _ =>
      complain t (.expected .expression)
      fail

end

/-! ## Declarations and statements -/

/-- An expression, unless the token at the position is the given mark. -/
def expressionUnless (n : Nat) (m : Mark) : IndexedReader (Option Expr) := do
  if ← check (·.isMark m) then pure none
  else
    let e ← expression n
    pure (some e)

/-- An expression as a statement. -/
def expressionStatement (n : Nat) : IndexedReader Stmt := do
  let e ← expression n
  let _ ← expectMark .semicolon .expressionEnd
  pure (.expression e)

/-- A variable declaration, behind its keyword. -/
def varDeclaration (n : Nat) : IndexedReader Stmt := do
  let name ← expectName .variableName
  let initializer ←
    match ← accept? (·.isMark .equal) with
    | some _ =>
      let e ← expression n
      pure (some e)
    | none => pure none
  let _ ← expectMark .semicolon .variableEnd
  pure (.var name initializer)

/-- A print statement, behind its keyword. -/
def printStatement (n : Nat) : IndexedReader Stmt := do
  let e ← expression n
  let _ ← expectMark .semicolon .printEnd
  pure (.print e)

/-- A return statement, behind its keyword. -/
def returnStatement (n : Nat) (keyword : Token) : IndexedReader Stmt := do
  let value ← expressionUnless n .semicolon
  let _ ← expectMark .semicolon .returnEnd
  pure (.returnValue keyword value)

/-- A break statement, behind its keyword. -/
def breakStatement (keyword : Token) : IndexedReader Stmt := do
  let _ ← expectMark .semicolon .breakEnd
  pure (.breakLoop keyword)

/-- The first clause of a `for` loop, with its semicolon. -/
def forInitializer (n : Nat) : IndexedReader (Option Stmt) := do
  match ← accept? (·.isMark .semicolon) with
  | some _ => pure none
  | none =>
    match ← accept? (·.isKeyword .var_) with
    | some _ =>
      let s ← varDeclaration n
      pure (some s)
    | none =>
      let s ← expressionStatement n
      pure (some s)

/-- One parameter and those behind it, when `count` were read before. -/
def parametersFrom : Nat → Nat → IndexedReader (List Token)
  | 0, _ => exhausted
  | n + 1, count => do
    if maxArity ≤ count then complain (← peek) .tooManyParameters
    let first ← expectName .parameterName
    match ← accept? (·.isMark .comma) with
    | some _ =>
      let others ← parametersFrom n (count + 1)
      pure (first :: others)
    | none => pure [first]

/-- The parameters of a function, up to the closing parenthesis. -/
def parameterList (n : Nat) : IndexedReader (List Token) := do
  if ← check (·.isMark .rightParen) then pure [] else parametersFrom n 0

mutual

/-- A declaration, or nothing if it could not be read. -/
def declaration : Nat → IndexedReader (Option Stmt)
  | 0 => exhausted
  | n + 1 => recover (declarationRule n)

/-- A declaration. -/
def declarationRule : Nat → IndexedReader Stmt
  | 0 => exhausted
  | n + 1 => do
    let t ← peek
    match t.kind with
    | .keyword .class_ =>
      let _ ← advance
      classDeclaration n
    | .keyword .fun_ =>
      let _ ← advance
      let decl ← function n .function
      pure (.function decl)
    | .keyword .var_ =>
      let _ ← advance
      varDeclaration n
    | _ => statement n

/-- A class declaration, behind its keyword. -/
def classDeclaration : Nat → IndexedReader Stmt
  | 0 => exhausted
  | n + 1 => do
    let name ← expectName .className
    let superclass ←
      match ← accept? (·.isMark .less) with
      | some _ =>
        let parent ← expectName .superclassName
        let ref ← freshRef
        pure (some (.variable ref parent))
      | none => pure none
    let _ ← expectMark .leftBrace .classBody
    let methods ← methodList n
    let _ ← expectMark .rightBrace .classEnd
    pure (.classDecl name superclass methods)

/-- The methods of a class, up to the closing brace. -/
def methodList : Nat → IndexedReader (List FunDecl)
  | 0 => exhausted
  | n + 1 => do
    let closed ← check (·.isMark .rightBrace)
    if closed || (← isAtEnd) then pure []
    else
      let first ← function n .method
      let others ← methodList n
      pure (first :: others)

/-- A function or method: name, parameters and body. -/
def function : Nat → Reader.Role → IndexedReader FunDecl
  | 0, _ => exhausted
  | n + 1, role => do
    let name ← expectName role.nameExpectation
    let _ ← expectMark .leftParen role.parenExpectation
    let params ← parameterList n
    let _ ← expectMark .rightParen .parametersEnd
    let _ ← expectMark .leftBrace role.bodyExpectation
    let body ← block n
    pure (.mk name params body)

/-- The statements of a block and its closing brace, behind the opening brace. -/
def block : Nat → IndexedReader (List Stmt)
  | 0 => exhausted
  | n + 1 => do
    let body ← blockItems n
    let _ ← expectMark .rightBrace .blockEnd
    pure body

/-- The declarations of a block, up to the closing brace. -/
def blockItems : Nat → IndexedReader (List Stmt)
  | 0 => exhausted
  | n + 1 => do
    let closed ← check (·.isMark .rightBrace)
    if closed || (← isAtEnd) then pure []
    else
      let first ← declaration n
      let others ← blockItems n
      pure (first.toList ++ others)

/-- A statement.  The keyword of a `break` or a `return` is looked up again behind it. -/
def statement : Nat → IndexedReader Stmt
  | 0 => exhausted
  | n + 1 => do
    let t ← peek
    match t.kind with
    | .keyword .break_ =>
      let keyword ← advance
      breakStatement keyword
    | .keyword .for_ =>
      let _ ← advance
      forStatement n
    | .keyword .if_ =>
      let _ ← advance
      ifStatement n
    | .keyword .while_ =>
      let _ ← advance
      whileStatement n
    | .keyword .return_ =>
      let keyword ← advance
      returnStatement n keyword
    | .mark .leftBrace =>
      let _ ← advance
      let body ← block n
      pure (.block body)
    | .keyword .print_ =>
      let _ ← advance
      printStatement n
    | _ => expressionStatement n

/-- A `for` loop, behind its keyword. -/
def forStatement : Nat → IndexedReader Stmt
  | 0 => exhausted
  | n + 1 => do
    let _ ← expectMark .leftParen .forParen
    let initializer ← forInitializer n
    let condition ← expressionUnless n .semicolon
    let _ ← expectMark .semicolon .forCondition
    let increment ← expressionUnless n .rightParen
    let _ ← expectMark .rightParen .forClauses
    let body ← statement n
    pure (.forLoop initializer condition increment body)

/-- A conditional, behind its keyword. -/
def ifStatement : Nat → IndexedReader Stmt
  | 0 => exhausted
  | n + 1 => do
    let _ ← expectMark .leftParen .ifParen
    let condition ← expression n
    let _ ← expectMark .rightParen .ifCondition
    let thenBranch ← statement n
    match ← accept? (·.isKeyword .else_) with
    | some _ =>
      let elseBranch ← statement n
      pure (.ifThen condition thenBranch (some elseBranch))
    | none => pure (.ifThen condition thenBranch none)

/-- A `while` loop, behind its keyword. -/
def whileStatement : Nat → IndexedReader Stmt
  | 0 => exhausted
  | n + 1 => do
    let _ ← expectMark .leftParen .whileParen
    let condition ← expression n
    let _ ← expectMark .rightParen .whileCondition
    let body ← statement n
    pure (.whileLoop condition body)

end

/-- Declarations up to the end of the source. -/
def declarations : Nat → IndexedReader (List Stmt)
  | 0 => exhausted
  | n + 1 => do
    if ← isAtEnd then pure []
    else
      let first ← declaration n
      let others ← declarations n
      pure (first.toList ++ others)

end IndexedReader

end LoxLang
