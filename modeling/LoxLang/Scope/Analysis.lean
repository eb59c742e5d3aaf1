import LoxLang.Bindings
import LoxLang.Diagnostic
import LoxLang.Scope.Distance

/-!
# The analysis of scopes

One walk over a program finds, for every reference, the scope that binds it, and complains about
what the grammar cannot rule out: a name declared twice in one scope, a variable read in its own
initializer, and `break`, `return`, `this` and `super` in places where they mean nothing.

The walk keeps a stack of local scopes.  A name in a scope is *declared* from its declaration on
and *defined* once its initializer is done; the global scope is not on the stack.  What surrounds
a place, which decides whether `break` and the others make sense there, is handed down and not
kept, so it is the same after a part of the program as before it.

**A variable read in its own initializer** means the next binding out.  The read skips the scope
of the variable itself and takes the innermost scope further out that has defined the name; if
there is none, a global has to exist already, either declared earlier in the same walk or left by
an earlier unit.
-/

namespace LoxLang

/-- Why a program cannot run, though it follows the grammar. -/
inductive ResolutionCause where
  | alreadyDeclared
  | ownInitializer
  | breakOutsideLoop
  | returnAtTopLevel
  | returnFromInitializer
  | thisOutsideClass
  | superOutsideClass
  | superWithoutSuperclass
  deriving DecidableEq, Repr

/-- The wording of a complaint. -/
def ResolutionCause.message : ResolutionCause → String
  | .alreadyDeclared => "Variable with this name already declared in this scope."
  | .ownInitializer => "Cannot read local variable in its own initializer."
  | .breakOutsideLoop => "Cannot break outside of a loop."
  | .returnAtTopLevel => "Cannot return from top-level code."
  | .returnFromInitializer => "Cannot return a value from a constructor."
  | .thisOutsideClass => "Cannot use 'this' outside of a class."
  | .superOutsideClass => "Cannot use 'super' outside of a class."
  | .superWithoutSuperclass => "Cannot use 'super' in a class with no superclass."

/-- A complaint about the token at which it points. -/
structure ResolutionError where
  token : Token
  cause : ResolutionCause
  deriving DecidableEq

/-- The diagnostic of a complaint. -/
def ResolutionError.diagnostic (e : ResolutionError) : Diagnostic :=
  .resolution e.token e.cause.message

/-! ## What surrounds a place -/

/-- The innermost function around a place. -/
inductive FunctionContext where
  | none
  | function
  | method
  | initializer
  deriving DecidableEq, Repr

/-- The innermost class around a place. -/
inductive ClassContext where
  | none
  | base
  | derived
  deriving DecidableEq, Repr

/-- What surrounds a place. -/
structure Surroundings where
  function : FunctionContext
  cls : ClassContext
  /-- Is there a loop around the place, inside the same function? -/
  inLoop : Bool
  deriving DecidableEq, Repr

/-- Nothing surrounds the top level. -/
def Surroundings.topLevel : Surroundings := ⟨.none, .none, false⟩

/-! ## Scopes on the stack -/

/-- A local scope: its names, and whether each is defined yet. -/
abbrev LocalScope := Bindings Bool

/-- The state of the walk. -/
structure Analysis where
  /-- The local scopes around the place, innermost first. -/
  scopes : List LocalScope
  /-- The names defined at top level so far. -/
  topLevel : List String
  distances : Distances
  errors : List ResolutionError

namespace Analysis

/-- Adds a complaint. -/
def complain (a : Analysis) (token : Token) (cause : ResolutionCause) : Analysis :=
  { a with errors := a.errors ++ [⟨token, cause⟩] }

/-- Enters a scope with the given names, all of them defined. -/
def push (a : Analysis) (names : List String) : Analysis :=
  { a with scopes := Bindings.empty.insertAll (names.map fun name => (name, true)) :: a.scopes }

/-- Leaves the innermost scope. -/
def pop (a : Analysis) : Analysis := { a with scopes := a.scopes.tail }

/-- Declares a name in the innermost scope; nothing is declared at top level. -/
def declare (a : Analysis) (name : Token) : Analysis :=
  match a.scopes with
  | [] => a
  | scope :: outer =>
    let declared := { a with scopes := scope.insert name.lexeme false :: outer }
    if scope.contains name.lexeme then declared.complain name .alreadyDeclared else declared

/-- Defines a name in the innermost scope, or at top level. -/
def define (a : Analysis) (name : Token) : Analysis :=
  match a.scopes with
  | [] => { a with topLevel := name.lexeme :: a.topLevel }
  | scope :: outer => { a with scopes := scope.insert name.lexeme true :: outer }

/-- Declares and defines a name. -/
def introduce (a : Analysis) (name : Token) : Analysis := (a.declare name).define name

/-- How many scopes out the first scope that satisfies a test is. -/
def distance? (test : LocalScope → Bool) (scopes : List LocalScope) : Option Nat :=
  scopes.findIdx? test

/-- Records how far out the innermost scope with the name is; a name in no scope is global. -/
def bind (a : Analysis) (ref : RefId) (name : String) : Analysis :=
  match distance? (·.contains name) a.scopes with
  | some d => { a with distances := a.distances.record ref d }
  | none => a

/-- Is the name declared, but not yet defined, in the innermost scope? -/
def isInitializing (a : Analysis) (name : String) : Bool :=
  match a.scopes with
  | [] => false
  | scope :: _ => scope.find? name == some false

/-- Records a read of a variable in its own initializer, past the innermost scope. -/
def bindOuter (a : Analysis) (isGlobal : String → Bool) (ref : RefId) (name : Token) : Analysis :=
  match distance? (·.find? name.lexeme == some true) a.scopes.tail with
  | some d => { a with distances := a.distances.record ref (d + 1) }
  | none =>
    if name.lexeme ∈ a.topLevel || isGlobal name.lexeme then a
    else a.complain name .ownInitializer

/-- A read of a variable. -/
def read (a : Analysis) (isGlobal : String → Bool) (ref : RefId) (name : Token) : Analysis :=
  if a.isInitializing name.lexeme then a.bindOuter isGlobal ref name else a.bind ref name.lexeme

/-- The complaint about a `super`, if it stands where there is no superclass. -/
def checkSuper (a : Analysis) (cls : ClassContext) (keyword : Token) : Analysis :=
  match cls with
  | .none => a.complain keyword .superOutsideClass
  | .base => a.complain keyword .superWithoutSuperclass
  | .derived => a

end Analysis

/-! ## The walk

`isGlobal` tells which names earlier units have bound globally. -/

section Walk

variable (isGlobal : String → Bool)

mutual

/-- Walks over an expression. -/
def Expr.analyse (at_ : Surroundings) : Expr → Analysis → Analysis
  | .literal _, a => a
  | .grouping inner, a => inner.analyse at_ a
  | .unary _ right, a => right.analyse at_ a
  | .binary left _ right, a => right.analyse at_ (left.analyse at_ a)
  | .logical left _ right, a => right.analyse at_ (left.analyse at_ a)
  | .variable ref name, a => a.read isGlobal ref name
  | .assign ref name value, a => (value.analyse at_ a).bind ref name.lexeme
  | .call callee _ arguments, a => Expr.analyseAll at_ arguments (callee.analyse at_ a)
  | .get object _, a => object.analyse at_ a
  | .set object _ value, a => object.analyse at_ (value.analyse at_ a)
  | .this ref keyword, a =>
    if at_.cls = .none then a.complain keyword .thisOutsideClass else a.bind ref keyword.lexeme
  | .super ref keyword _, a => (a.checkSuper at_.cls keyword).bind ref keyword.lexeme

/-- Walks over expressions from left to right. -/
def Expr.analyseAll (at_ : Surroundings) : List Expr → Analysis → Analysis
  | [], a => a
  | e :: rest, a => Expr.analyseAll at_ rest (e.analyse at_ a)

end

mutual

/-- Walks over a statement. -/
def Stmt.analyse (at_ : Surroundings) : Stmt → Analysis → Analysis
  | .expression e, a => e.analyse isGlobal at_ a
  | .print e, a => e.analyse isGlobal at_ a
  | .var name none, a => a.introduce name
  | .var name (some e), a => (e.analyse isGlobal at_ (a.declare name)).define name
  | .block body, a => (Stmt.analyseAll at_ body (a.push [])).pop
  | .ifThen condition thenBranch none, a =>
    thenBranch.analyse at_ (condition.analyse isGlobal at_ a)
  | .ifThen condition thenBranch (some elseBranch), a =>
    elseBranch.analyse at_ (thenBranch.analyse at_ (condition.analyse isGlobal at_ a))
  | .whileLoop condition body, a =>
    body.analyse { at_ with inLoop := true } (condition.analyse isGlobal at_ a)
  | .breakLoop keyword, a => if at_.inLoop then a else a.complain keyword .breakOutsideLoop
  | .returnValue keyword value, a =>
    let a := if at_.function = .none then a.complain keyword .returnAtTopLevel else a
    match value with
    | none => a
    | some e =>
      let a :=
        if at_.function = .initializer then a.complain keyword .returnFromInitializer else a
      e.analyse isGlobal at_ a
  | .function decl, a => decl.analyse at_ .function (a.introduce decl.name)
  | .classDecl name none methods, a =>
    (FunDecl.analyseMethods { at_ with cls := .base } methods
      ((a.introduce name).push ["this"])).pop
  | .classDecl name (some superclass) methods, a =>
    let inside := { at_ with cls := .derived }
    let a := (superclass.analyse isGlobal inside (a.introduce name)).push ["super"]
    (FunDecl.analyseMethods inside methods (a.push ["this"])).pop.pop

/-- Walks over statements in order. -/
def Stmt.analyseAll (at_ : Surroundings) : List Stmt → Analysis → Analysis
  | [], a => a
  | s :: rest, a => Stmt.analyseAll at_ rest (s.analyse at_ a)

/-- Walks over a function: parameters and body share one scope, and no loop reaches into it. -/
def FunDecl.analyse (at_ : Surroundings) (context : FunctionContext) : FunDecl → Analysis → Analysis
  | .mk _ params body, a =>
    let a := params.foldl Analysis.introduce (a.push [])
    (Stmt.analyseAll { at_ with function := context, inLoop := false } body a).pop

/-- Walks over the methods of a class. -/
def FunDecl.analyseMethods (at_ : Surroundings) : List FunDecl → Analysis → Analysis
  | [], a => a
  | d :: rest, a =>
    let context := if d.isInitializer then .initializer else .method
    FunDecl.analyseMethods at_ rest (d.analyse at_ context a)

end

/-- **The analysis of a program**, started at top level with the distances recorded so far. -/
def analyseProgram (program : List Stmt) (distances : Distances) : Analysis :=
  Stmt.analyseAll isGlobal .topLevel program ⟨[], [], distances, []⟩

end Walk

/-- The complaints of an analysis. -/
def Analysis.log (a : Analysis) : Log := a.errors.map ResolutionError.diagnostic

end LoxLang
