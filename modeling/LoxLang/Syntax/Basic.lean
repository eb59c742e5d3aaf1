import LoxLang.Token.Basic

/-!
# Programs

A program is a list of statements.  The tree keeps the tokens that later stages report on: the
operator of an operation, the name of a reference, the closing parenthesis of a call.

**Every reference has a number of its own.**  Reads, assignments, `this` and `super` are the
expressions that refer to a binding; the analysis of scopes records, under that number, how many
scopes out the binding is.  Numbers are never used twice, not even by programs that are read one
after another, so one table of distances serves a whole session.

There is no node for a `for` loop.  It is written out as a `while` loop when a program is read
(`Stmt.forLoop`).
-/

namespace LoxLang

/-- The number of a reference. -/
abbrev RefId := Nat

/-- Constants that stand in a program. -/
inductive Literal where
  | nil
  | bool (b : Bool)
  | number (x : Float)
  | string (s : String)
  deriving DecidableEq

/-- Expressions. -/
inductive Expr where
  | literal (value : Literal)
  | grouping (inner : Expr)
  | unary (operator : Token) (right : Expr)
  | binary (left : Expr) (operator : Token) (right : Expr)
  | logical (left : Expr) (operator : Token) (right : Expr)
  | variable (ref : RefId) (name : Token)
  | assign (ref : RefId) (name : Token) (value : Expr)
  /-- The closing parenthesis is where a failing call is reported. -/
  | call (callee : Expr) (paren : Token) (arguments : List Expr)
  | get (object : Expr) (name : Token)
  | set (object : Expr) (name : Token) (value : Expr)
  | this (ref : RefId) (keyword : Token)
  | super (ref : RefId) (keyword : Token) (method : Token)

mutual

/-- Statements. -/
inductive Stmt where
  | expression (e : Expr)
  | print (e : Expr)
  | var (name : Token) (initializer : Option Expr)
  | block (body : List Stmt)
  | ifThen (condition : Expr) (thenBranch : Stmt) (elseBranch : Option Stmt)
  | whileLoop (condition : Expr) (body : Stmt)
  | breakLoop (keyword : Token)
  | returnValue (keyword : Token) (value : Option Expr)
  | function (decl : FunDecl)
  | classDecl (name : Token) (superclass : Option Expr) (methods : List FunDecl)

/-- The declaration of a function or method. -/
inductive FunDecl where
  | mk (name : Token) (params : List Token) (body : List Stmt)

end

namespace FunDecl

/-- The declared name. -/
def name : FunDecl → Token
  | .mk name _ _ => name

/-- The parameters, in order. -/
def params : FunDecl → List Token
  | .mk _ params _ => params

/-- The statements of the body. -/
def body : FunDecl → List Stmt
  | .mk _ _ body => body

end FunDecl

/-- The name of the method that sets up a new instance. -/
def initializerName : String := "init"

/-- Does a method set up new instances? -/
def FunDecl.isInitializer (d : FunDecl) : Bool := d.name.lexeme = initializerName

/-- The constant that a literal token carries. -/
def Token.literal? (t : Token) : Option Literal :=
  match t.kind with
  | .string contents => some (.string contents)
  | .number value => some (.number value)
  | _ => none

/-- **A `for` loop written out**: the initializer in a scope of its own, around a `while` loop
that runs the increment behind the body.  A missing condition is always true. -/
def Stmt.forLoop (initializer : Option Stmt) (condition increment : Option Expr) (body : Stmt) :
    Stmt :=
  let step := match increment with
    | some e => .block [body, .expression e]
    | none => body
  let loop := .whileLoop (condition.getD (.literal (.bool true))) step
  match initializer with
  | some s => .block [s, loop]
  | none => loop

end LoxLang
