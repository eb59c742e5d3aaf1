import LoxLang.Scope.Distance

/-!
# The references of a program

A report on scopes lists every reference of a program in the order of the source.  An assignment
stands before its value, and the clauses of a `for` loop stand where the written-out loop has
them.
-/

namespace LoxLang

/-- How a reference uses its binding. -/
inductive ReferenceUse where
  | read
  | assign
  | this
  | super
  deriving DecidableEq, Repr

/-- The name of a use in reports. -/
def ReferenceUse.name : ReferenceUse → String
  | .read => "read"
  | .assign => "assign"
  | .this => "this"
  | .super => "super"

/-- A reference: its use, its number, and the token that names the binding. -/
structure Reference where
  use : ReferenceUse
  ref : RefId
  token : Token
  deriving DecidableEq

mutual

/-- The references in an expression. -/
def Expr.references : Expr → List Reference
  | .literal _ => []
  | .grouping inner => inner.references
  | .unary _ right => right.references
  | .binary left _ right => left.references ++ right.references
  | .logical left _ right => left.references ++ right.references
  | .variable ref name => [⟨.read, ref, name⟩]
  | .assign ref name value => ⟨.assign, ref, name⟩ :: value.references
  | .call callee _ arguments => callee.references ++ Expr.allReferences arguments
  | .get object _ => object.references
  | .set object _ value => object.references ++ value.references
  | .this ref keyword => [⟨.this, ref, keyword⟩]
  | .super ref keyword _ => [⟨.super, ref, keyword⟩]

/-- The references in several expressions. -/
def Expr.allReferences : List Expr → List Reference
  | [] => []
  | e :: rest => e.references ++ Expr.allReferences rest

end

mutual

/-- The references in a statement. -/
def Stmt.references : Stmt → List Reference
  | .expression e => e.references
  | .print e => e.references
  | .var _ none => []
  | .var _ (some e) => e.references
  | .block body => Stmt.allReferences body
  | .ifThen condition thenBranch none => condition.references ++ thenBranch.references
  | .ifThen condition thenBranch (some elseBranch) =>
    condition.references ++ thenBranch.references ++ elseBranch.references
  | .whileLoop condition body => condition.references ++ body.references
  | .breakLoop _ => []
  | .returnValue _ none => []
  | .returnValue _ (some e) => e.references
  | .function decl => decl.references
  | .classDecl _ none methods => FunDecl.allReferences methods
  | .classDecl _ (some superclass) methods =>
    superclass.references ++ FunDecl.allReferences methods

/-- The references in several statements. -/
def Stmt.allReferences : List Stmt → List Reference
  | [] => []
  | s :: rest => s.references ++ Stmt.allReferences rest

/-- The references in the body of a function. -/
def FunDecl.references : FunDecl → List Reference
  | .mk _ _ body => Stmt.allReferences body

/-- The references in the bodies of methods. -/
def FunDecl.allReferences : List FunDecl → List Reference
  | [] => []
  | d :: rest => d.references ++ FunDecl.allReferences rest

end

end LoxLang
