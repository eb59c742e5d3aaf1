import LoxLang.Proofs.Scope.Lexical
import LoxLang.Scope.Analysis

/-!
# Places of a program, and what is wrong at them

Whether a declaration, a reference, a `break` or a `return` is allowed depends on what it is inside
of.  A *place* is one of these, together with everything that encloses it, innermost first, and with
the names that were defined at top level before it.  The rules are read off that list alone: which
scope is the innermost, which function, which class, and whether a loop comes before the nearest
function (`ProgramPlace.violation?`).

The places of a program are listed in the order in which they are resolved.  Nothing here keeps a
stack or sets and restores a context; `LoxLang.Proofs.Scope.Violations` compares this with the walk
that does.
-/

namespace LoxLang

/-! ## What encloses a place -/

/-- Something that a place can be inside of. -/
inductive Ancestor where
  /-- A scope, with the names that it declares before the place. -/
  | scope (σ : LexicalScope)
  /-- The parameters and the body of a function or method. -/
  | function (decl : FunDecl) (isMethod : Bool)
  /-- The methods of a class. -/
  | methods (hasSuperclass : Bool)
  | loopBody
  /-- The initializer of a variable. -/
  | initializer (name : Token)

namespace Ancestor

def scope? : Ancestor → Option LexicalScope
  | .scope σ => some σ
  | _ => none

def function? : Ancestor → Option (FunDecl × Bool)
  | .function decl isMethod => some (decl, isMethod)
  | _ => none

def methods? : Ancestor → Option Bool
  | .methods hasSuperclass => some hasSuperclass
  | _ => none

def isLoopBody : Ancestor → Bool
  | .loopBody => true
  | _ => false

/-- Declares a name in the innermost scope, if there is one. -/
def declare : List Ancestor → Token → List Ancestor
  | [], _ => []
  | .scope σ :: outer, name => .scope { σ with names := name.lexeme :: σ.names } :: outer
  | x :: outer, name => x :: declare outer name

end Ancestor

/-- Where a place is. -/
structure Location where
  /-- What encloses the place, innermost first. -/
  ancestors : List Ancestor
  /-- The names defined at top level before the place. -/
  topLevel : List String

namespace Location

/-- The start of a program. -/
def start : Location := ⟨[], []⟩

/-- Inside something more. -/
def enter (l : Location) (x : Ancestor) : Location := { l with ancestors := x :: l.ancestors }

/-- The scopes around the place, innermost first. -/
def scopes (l : Location) : LexicalContext := l.ancestors.filterMap Ancestor.scope?

/-- The innermost function, and whether it is a method. -/
def function? (l : Location) : Option (FunDecl × Bool) :=
  l.ancestors.findSome? Ancestor.function?

/-- Has the innermost class a superclass? -/
def hasSuperclass? (l : Location) : Option Bool := l.ancestors.findSome? Ancestor.methods?

/-- Is there the body of a loop around the place, inside the same function? -/
def inLoop (l : Location) : Bool :=
  (l.ancestors.takeWhile (·.function?.isNone)).any Ancestor.isLoopBody

/-- The local variable in whose initializer the place is, and the scopes that enclose the variable's
own scope.  An expression has no scopes inside, so nothing comes between. -/
def own? (l : Location) : Option (Token × LexicalContext) :=
  match l.ancestors with
  | .initializer name :: outer =>
    match outer.filterMap Ancestor.scope? with
    | _ :: enclosing => some (name, enclosing)
    | [] => none
  | _ => none

/-- Behind the declaration of a name, whose scope is the innermost. -/
def declare (l : Location) (name : Token) : Location :=
  { l with ancestors := Ancestor.declare l.ancestors name }

/-- Behind the definition of a name, if that is at top level. -/
def define (l : Location) (name : Token) : Location :=
  match l.scopes with
  | [] => { l with topLevel := name.lexeme :: l.topLevel }
  | _ => l

/-- Behind a name that is declared and defined. -/
def introduce (l : Location) (name : Token) : Location := (l.declare name).define name

end Location

/-! ## Places -/

/-- What can be wrong where it stands. -/
inductive Node where
  | declaration (name : Token)
  | reference (r : Reference)
  | breakLoop (keyword : Token)
  | returnValue (keyword : Token) (hasValue : Bool)

/-- A node of a program, where it stands. -/
structure ProgramPlace where
  node : Node
  location : Location

/-- The violation at a reference. -/
def Reference.violation? (isGlobal : String → Bool) (l : Location) (r : Reference) :
    Option ResolutionCause :=
  match r.use with
  | .read =>
    match l.own? with
    | some (name, enclosing) =>
      if name.lexeme = r.token.lexeme ∧ (∀ σ ∈ enclosing, σ.declares r.token.lexeme = false) ∧
          r.token.lexeme ∉ l.topLevel ∧ isGlobal r.token.lexeme = false then
        some .ownInitializer
      else none
    | none => none
  | .assign => none
  | .this => if l.hasSuperclass?.isNone then some .thisOutsideClass else none
  | .super =>
    match l.hasSuperclass? with
    | none => some .superOutsideClass
    | some false => some .superWithoutSuperclass
    | some true => none

/-- **The violation at a place**, if there is one.  `isGlobal` tells which names earlier units have
bound globally. -/
def ProgramPlace.violation? (isGlobal : String → Bool) (p : ProgramPlace) :
    Option ResolutionError :=
  match p.node with
  | .declaration name =>
    if p.location.scopes.declaresHere name.lexeme then some ⟨name, .alreadyDeclared⟩ else none
  | .reference r => (r.violation? isGlobal p.location).map fun cause => ⟨r.token, cause⟩
  | .breakLoop keyword =>
    if p.location.inLoop then none else some ⟨keyword, .breakOutsideLoop⟩
  | .returnValue keyword hasValue =>
    match p.location.function? with
    | none => some ⟨keyword, .returnAtTopLevel⟩
    | some (decl, isMethod) =>
      if hasValue && isMethod && decl.isInitializer then some ⟨keyword, .returnFromInitializer⟩
      else none

/-! ## The places of a program -/

mutual

/-- The places of an expression, in the order in which they are resolved. -/
def Expr.places (l : Location) : Expr → List ProgramPlace
  | .literal _ => []
  | .grouping inner => inner.places l
  | .unary _ right => right.places l
  | .binary left _ right => left.places l ++ right.places l
  | .logical left _ right => left.places l ++ right.places l
  | .variable ref name => [⟨.reference ⟨.read, ref, name⟩, l⟩]
  | .assign ref name value => value.places l ++ [⟨.reference ⟨.assign, ref, name⟩, l⟩]
  | .call callee _ arguments => callee.places l ++ Expr.placesAll l arguments
  | .get object _ => object.places l
  | .set object _ value => value.places l ++ object.places l
  | .this ref keyword => [⟨.reference ⟨.this, ref, keyword⟩, l⟩]
  | .super ref keyword _ => [⟨.reference ⟨.super, ref, keyword⟩, l⟩]

/-- The places of expressions. -/
def Expr.placesAll (l : Location) : List Expr → List ProgramPlace
  | [] => []
  | e :: rest => e.places l ++ Expr.placesAll l rest

end

/-- Behind a statement. -/
def Stmt.behind (l : Location) : Stmt → Location
  | .var name _ | .classDecl name _ _ => l.introduce name
  | .function decl => l.introduce decl.name
  | _ => l

/-- The places of parameters, each of which is declared for the next. -/
def parameterPlaces (l : Location) : List Token → List ProgramPlace
  | [] => []
  | name :: rest => ⟨.declaration name, l⟩ :: parameterPlaces (l.introduce name) rest

mutual

/-- The places of a statement. -/
def Stmt.places (l : Location) : Stmt → List ProgramPlace
  | .expression e => e.places l
  | .print e => e.places l
  | .var name none => [⟨.declaration name, l⟩]
  | .var name (some e) =>
    ⟨.declaration name, l⟩ :: e.places ((l.declare name).enter (.initializer name))
  | .block body => Stmt.placesAll (l.enter (.scope ⟨.block body, []⟩)) body
  | .ifThen condition thenBranch none => condition.places l ++ thenBranch.places l
  | .ifThen condition thenBranch (some elseBranch) =>
    condition.places l ++ thenBranch.places l ++ elseBranch.places l
  | .whileLoop condition body => condition.places l ++ body.places (l.enter .loopBody)
  | .breakLoop keyword => [⟨.breakLoop keyword, l⟩]
  | .returnValue keyword none => [⟨.returnValue keyword false, l⟩]
  | .returnValue keyword (some e) => ⟨.returnValue keyword true, l⟩ :: e.places l
  | .function decl => ⟨.declaration decl.name, l⟩ :: decl.places (l.introduce decl.name) false
  | .classDecl name none methods =>
    ⟨.declaration name, l⟩ ::
      FunDecl.methodPlaces ((l.introduce name).enter (.methods false)) methods
  | .classDecl name (some superclass) methods =>
    let parent : Ancestor := .scope ⟨.parent name methods, ["super"]⟩
    ⟨.declaration name, l⟩ :: (superclass.places (l.introduce name) ++
      FunDecl.methodPlaces (((l.introduce name).enter (.methods true)).enter parent) methods)

/-- The places of statements, each of which is around for the next. -/
def Stmt.placesAll (l : Location) : List Stmt → List ProgramPlace
  | [] => []
  | s :: rest => s.places l ++ Stmt.placesAll (s.behind l) rest

/-- The places of a function or method: parameters and body share one scope. -/
def FunDecl.places (l : Location) (isMethod : Bool) : FunDecl → List ProgramPlace
  | .mk name params body =>
    let decl := FunDecl.mk name params body
    let inside := (l.enter (.function decl isMethod)).enter (.scope ⟨.call decl, []⟩)
    parameterPlaces inside params ++ Stmt.placesAll (params.foldl Location.introduce inside) body

/-- The places of methods. -/
def FunDecl.methodPlaces (l : Location) : List FunDecl → List ProgramPlace
  | [] => []
  | d :: rest =>
    d.places (l.enter (.scope d.receiverScope)) true ++ FunDecl.methodPlaces l rest

end

/-- **The places of a program.** -/
def programPlaces (program : List Stmt) : List ProgramPlace := Stmt.placesAll .start program

end LoxLang
