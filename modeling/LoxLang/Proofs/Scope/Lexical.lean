import LoxLang.Scope.Reference
import Mathlib.Tactic.Common

/-!
# Lexical scopes

What a reference means, read off the text of a program alone.  A *site* is a reference together
with the scopes that enclose it, innermost first; each of these is a region of the program, and
the names that the region declares before the reference.  The global scope is not among them.

The visible declaration of a name is in the innermost scope that declares it before the reference.
There is one exception: a read inside the initializer of a local variable does not see that
variable, and looks for the name further out.  An assignment in the same place is no read and does
see it, although nothing is bound there yet.

Nothing here mentions the analysis of scopes or a running machine.  The analysis is compared with
sites in `LoxLang.Proofs.Scope.Resolution`, the machine in `LoxLang.Proofs.Machine.Alignment`.
-/

namespace LoxLang

/-! ## Regions and sites -/

/-- A region of a program that has names of its own.  Entering it at run time makes a frame. -/
inductive Region where
  | block (body : List Stmt)
  /-- The parameters and the body of a function or method. -/
  | call (decl : FunDecl)
  /-- What is around a method for the instance that it is bound to. -/
  | receiver (method : FunDecl)
  /-- What is around the methods of a class for its superclass. -/
  | parent (name : Token) (methods : List FunDecl)

/-- A region, and the names that it declares before a place inside it. -/
structure LexicalScope where
  region : Region
  names : List String

/-- Does the region declare a name before the place? -/
def LexicalScope.declares (σ : LexicalScope) (name : String) : Bool := decide (name ∈ σ.names)

/-- The scopes around a place, innermost first. -/
abbrev LexicalContext := List LexicalScope

/-- A reference, where it stands. -/
structure Site where
  reference : Reference
  scopes : LexicalContext
  /-- The local variable in whose initializer the reference stands. -/
  pending : Option String

namespace Site

/-- The name that a reference looks for. -/
def name (s : Site) : String := s.reference.token.lexeme

/-- Is the site a read of a local variable in its own initializer? -/
def isOwnRead (s : Site) : Bool :=
  decide (s.reference.use = .read) && decide (s.pending = some s.name)

/-- Is the site an assignment to a local variable in its own initializer? -/
def isOwnAssignment (s : Site) : Bool :=
  decide (s.reference.use = .assign) && decide (s.pending = some s.name)

/-- The variable in whose initializer a site stands is declared once in its scope. -/
def OwnOnce (s : Site) : Prop :=
  ∀ x, s.pending = some x → ∃ σ outer, s.scopes = σ :: outer ∧ σ.names.count x = 1

/-- **How many scopes out the visible declaration is**; a reference without one is global. -/
def visible? (s : Site) : Option Nat :=
  if s.isOwnRead then (s.scopes.tail.findIdx? (·.declares s.name)).map (· + 1)
  else s.scopes.findIdx? (·.declares s.name)

/-- **A read of a variable in its own initializer is answered**: if no variable further out is
visible it means a global, and then that one has to be known. -/
def Answered (known : String → Prop) (s : Site) : Prop :=
  s.isOwnRead = true → s.visible? = none → known s.name

lemma Answered.mono {known known' : String → Prop} {s : Site} (h : s.Answered known)
    (hknown : ∀ name, known name → known' name) : s.Answered known' :=
  fun hown hvisible => hknown _ (h hown hvisible)

/-- Where no variable is pending there is nothing to answer. -/
lemma answered_of_pending {known : String → Prop} {s : Site} (h : s.pending = none) :
    s.Answered known := by
  intro hown
  simp [isOwnRead, h] at hown

end Site

/-! ## The sites of a program -/

namespace LexicalContext

/-- A name declared in the innermost scope; at top level nothing is declared. -/
def declare : LexicalContext → Token → LexicalContext
  | [], _ => []
  | σ :: outer, name => { σ with names := name.lexeme :: σ.names } :: outer

/-- Does the innermost scope declare a name?  At top level there is none. -/
def declaresHere : LexicalContext → String → Bool
  | [], _ => false
  | σ :: _, name => σ.declares name

/-- The variable that is pending in its initializer.  A global is not. -/
def pending : LexicalContext → Token → Option String
  | [], _ => none
  | _ :: _, name => some name.lexeme

end LexicalContext

mutual

/-- The sites of an expression, in the order in which they are resolved. -/
def Expr.sites (Γ : LexicalContext) (pending : Option String) : Expr → List Site
  | .literal _ => []
  | .grouping inner => inner.sites Γ pending
  | .unary _ right => right.sites Γ pending
  | .binary left _ right => left.sites Γ pending ++ right.sites Γ pending
  | .logical left _ right => left.sites Γ pending ++ right.sites Γ pending
  | .variable ref name => [⟨⟨.read, ref, name⟩, Γ, pending⟩]
  | .assign ref name value => value.sites Γ pending ++ [⟨⟨.assign, ref, name⟩, Γ, pending⟩]
  | .call callee _ arguments => callee.sites Γ pending ++ Expr.sitesAll Γ pending arguments
  | .get object _ => object.sites Γ pending
  | .set object _ value => value.sites Γ pending ++ object.sites Γ pending
  | .this ref keyword => [⟨⟨.this, ref, keyword⟩, Γ, pending⟩]
  | .super ref keyword _ => [⟨⟨.super, ref, keyword⟩, Γ, pending⟩]

/-- The sites of expressions. -/
def Expr.sitesAll (Γ : LexicalContext) (pending : Option String) : List Expr → List Site
  | [] => []
  | e :: rest => e.sites Γ pending ++ Expr.sitesAll Γ pending rest

end

/-- The scopes around what follows a statement. -/
def Stmt.after (Γ : LexicalContext) : Stmt → LexicalContext
  | .var name _ | .classDecl name _ _ => Γ.declare name
  | .function decl => Γ.declare decl.name
  | _ => Γ

/-- The scopes around what follows statements. -/
def Stmt.afterAll (Γ : LexicalContext) : List Stmt → LexicalContext
  | [] => Γ
  | s :: rest => Stmt.afterAll (s.after Γ) rest

/-- The scope of a call: the parameters are declared from the start. -/
def FunDecl.scope (d : FunDecl) : LexicalScope := ⟨.call d, d.params.map Token.lexeme⟩

/-- The scope around a method. -/
def FunDecl.receiverScope (d : FunDecl) : LexicalScope := ⟨.receiver d, ["this"]⟩

mutual

/-- The sites of a statement. -/
def Stmt.sites (Γ : LexicalContext) : Stmt → List Site
  | .expression e => e.sites Γ none
  | .print e => e.sites Γ none
  | .var _ none => []
  | .var name (some e) => e.sites (Γ.declare name) (Γ.pending name)
  | .block body => Stmt.sitesAll (⟨.block body, []⟩ :: Γ) body
  | .ifThen condition thenBranch none => condition.sites Γ none ++ thenBranch.sites Γ
  | .ifThen condition thenBranch (some elseBranch) =>
    condition.sites Γ none ++ thenBranch.sites Γ ++ elseBranch.sites Γ
  | .whileLoop condition body => condition.sites Γ none ++ body.sites Γ
  | .breakLoop _ => []
  | .returnValue _ none => []
  | .returnValue _ (some e) => e.sites Γ none
  | .function decl => decl.sites (Γ.declare decl.name)
  | .classDecl name none methods => FunDecl.methodSites (Γ.declare name) methods
  | .classDecl name (some superclass) methods =>
    superclass.sites (Γ.declare name) none ++
      FunDecl.methodSites (⟨.parent name methods, ["super"]⟩ :: Γ.declare name) methods

/-- The sites of statements, each of which is around for the next. -/
def Stmt.sitesAll (Γ : LexicalContext) : List Stmt → List Site
  | [] => []
  | s :: rest => s.sites Γ ++ Stmt.sitesAll (s.after Γ) rest

/-- The sites of a function. -/
def FunDecl.sites (Γ : LexicalContext) : FunDecl → List Site
  | .mk name params body => Stmt.sitesAll ((FunDecl.mk name params body).scope :: Γ) body

/-- The sites of methods. -/
def FunDecl.methodSites (Γ : LexicalContext) : List FunDecl → List Site
  | [] => []
  | d :: rest => d.sites (d.receiverScope :: Γ) ++ FunDecl.methodSites Γ rest

end

/-- **The sites of a program.** -/
def programSites (program : List Stmt) : List Site := Stmt.sitesAll [] program

mutual

/-- An expression has no scopes inside. -/
lemma Expr.place_of_mem_sites {Γ : LexicalContext} {pending : Option String} : (e : Expr) →
    ∀ s ∈ e.sites Γ pending, s.scopes = Γ ∧ s.pending = pending
  | .literal _ => List.forall_mem_nil _
  | .grouping inner => inner.place_of_mem_sites
  | .unary _ right => right.place_of_mem_sites
  | .binary left _ right | .logical left _ right =>
    List.forall_mem_append.mpr ⟨left.place_of_mem_sites, right.place_of_mem_sites⟩
  | .variable _ _ | .this _ _ | .super _ _ _ => List.forall_mem_singleton.mpr ⟨rfl, rfl⟩
  | .assign _ _ value =>
    List.forall_mem_append.mpr
      ⟨value.place_of_mem_sites, List.forall_mem_singleton.mpr ⟨rfl, rfl⟩⟩
  | .call callee _ arguments =>
    List.forall_mem_append.mpr
      ⟨callee.place_of_mem_sites, Expr.place_of_mem_sitesAll arguments⟩
  | .get object _ => object.place_of_mem_sites
  | .set object _ value =>
    List.forall_mem_append.mpr ⟨value.place_of_mem_sites, object.place_of_mem_sites⟩

lemma Expr.place_of_mem_sitesAll {Γ : LexicalContext} {pending : Option String} :
    (es : List Expr) → ∀ s ∈ Expr.sitesAll Γ pending es, s.scopes = Γ ∧ s.pending = pending
  | [] => List.forall_mem_nil _
  | e :: rest =>
    List.forall_mem_append.mpr ⟨e.place_of_mem_sites, Expr.place_of_mem_sitesAll rest⟩

end

lemma FunDecl.sites_eq (Γ : LexicalContext) (d : FunDecl) :
    d.sites Γ = Stmt.sitesAll (d.scope :: Γ) d.body := by
  cases d
  rw [FunDecl.sites, FunDecl.body]

/-- The sites of a method are among those of its class. -/
lemma FunDecl.mem_methodSites {Γ : LexicalContext} {ds : List FunDecl} {d : FunDecl} {s : Site}
    (hd : d ∈ ds) (hs : s ∈ d.sites (d.receiverScope :: Γ)) : s ∈ FunDecl.methodSites Γ ds := by
  induction ds with
  | nil => simp at hd
  | cons first rest ih =>
    rw [FunDecl.methodSites, List.mem_append]
    rcases List.mem_cons.mp hd with rfl | hd
    · exact .inl hs
    · exact .inr (ih hd)

/-- A statement changes the innermost scope only. -/
lemma Stmt.exists_after (σ : LexicalScope) (Γ : LexicalContext) (s : Stmt) :
    ∃ names, s.after (σ :: Γ) = { σ with names := names } :: Γ := by
  cases s <;> exact ⟨_, rfl⟩

/-- At top level no statement opens a scope for what follows. -/
lemma Stmt.after_nil (s : Stmt) : s.after [] = [] := by
  cases s <;> rfl

lemma programSites_cons (s : Stmt) (rest : List Stmt) :
    programSites (s :: rest) = s.sites [] ++ programSites rest := by
  rw [programSites, Stmt.sitesAll, s.after_nil]
  rfl

lemma programSites_append (before rest : List Stmt) :
    programSites (before ++ rest) = programSites before ++ programSites rest := by
  induction before with
  | nil => rfl
  | cons s before ih =>
    rw [List.cons_append, programSites_cons, programSites_cons, ih, List.append_assoc]

lemma Stmt.exists_afterAll (σ : LexicalScope) (Γ : LexicalContext) (body : List Stmt) :
    ∃ names, Stmt.afterAll (σ :: Γ) body = { σ with names := names } :: Γ := by
  induction body generalizing σ with
  | nil => exact ⟨σ.names, rfl⟩
  | cons s rest ih =>
    obtain ⟨names, hs⟩ := s.exists_after σ Γ
    rw [Stmt.afterAll, hs]
    exact ih _

end LoxLang
