import LoxLang.Scope.Reference
import Mathlib.Data.List.Forall2

/-!
# Programs that are alike

Two programs are alike when they are the same tree, up to three things.  Tokens may stand on other
lines; references may have other numbers; and the names that a scope declares may be renamed, along
with the references that are bound to this scope.  What may stand for what is said by a `Likeness`.
Which renaming holds in which scope is said by a list that goes along with the scopes around a
place, the innermost first; the globals are never renamed.

A reference does not tell the scope that it is bound to.  Its recorded distance does, and so a
likeness also says which distances a reference may have.
-/

namespace LoxLang

/-! ## Renamings -/

/-- **A renaming of names.**  No two names become one, and the two words that a scope can bind
though they are no names stay as they are. -/
structure Renaming where
  apply : String → String
  injective : Function.Injective apply
  this : apply "this" = "this"
  super : apply "super" = "super"

instance : CoeFun Renaming fun _ => String → String := ⟨Renaming.apply⟩

/-- Nothing is renamed. -/
def Renaming.identity : Renaming := ⟨id, Function.injective_id, rfl, rfl⟩

@[simp] lemma Renaming.identity_apply (name : String) : Renaming.identity name = name := rfl

/-- The renaming that holds where a reference leads: in the scope so many hops out, and none at the
globals. -/
def renamingAt (Γ : List Renaming) : Option Nat → Renaming
  | none => .identity
  | some d => Γ.getD d .identity

/-- Nothing is renamed in the scopes around a place. -/
def Plain (Γ : List Renaming) : Prop := ∀ π ∈ Γ, π = Renaming.identity

lemma plain_nil : Plain [] := fun _ h => nomatch h

lemma Plain.cons {Γ : List Renaming} (h : Plain Γ) : Plain (.identity :: Γ) :=
  List.forall_mem_cons.mpr ⟨rfl, h⟩

lemma Plain.renamingAt {Γ : List Renaming} (h : Plain Γ) (distance : Option Nat) :
    renamingAt Γ distance = .identity := by
  cases distance with
  | none => rfl
  | some d =>
    rw [LoxLang.renamingAt, List.getD_eq_getElem?_getD]
    cases hd : Γ[d]? with
    | none => rfl
    | some π => exact h π (List.mem_of_getElem? hd)

/-! ## Functions that a statement makes -/

mutual

/-- The functions and methods that a statement itself can make, not counting those inside of them; a
method comes with whether it is an initializer. -/
def Stmt.makes : Stmt → List (FunDecl × Bool)
  | .block body => Stmt.makesAll body
  | .ifThen _ thenBranch none => thenBranch.makes
  | .ifThen _ thenBranch (some elseBranch) => thenBranch.makes ++ elseBranch.makes
  | .whileLoop _ body => body.makes
  | .function decl => [(decl, false)]
  | .classDecl _ _ methods => methods.map fun d => (d, d.isInitializer)
  | _ => []

/-- The functions and methods that statements can make. -/
def Stmt.makesAll : List Stmt → List (FunDecl × Bool)
  | [] => []
  | s :: rest => s.makes ++ Stmt.makesAll rest

end

/-! ## What corresponds to what -/

/-- **What corresponds to what** in two programs, or in two machines, that are alike. -/
structure Likeness where
  token : Token → Token → Prop
  ref : RefId → RefId → Prop
  /-- The distances that a reference of the first program may have recorded. -/
  distance : RefId → Option Nat → Prop
  /-- The renamings that may hold in a scope. -/
  renames : Renaming → Prop
  /-- The functions of the first program, and whether they are initializers. -/
  function : FunDecl → Bool → Prop
  /-- The names that may be bound globally. -/
  global : String → Prop
  kind : ∀ {t t'}, token t t' → t'.kind = t.kind
  identity : renames .identity
  inner : ∀ {d init}, function d init → ∀ f ∈ Stmt.makesAll d.body, function f.1 f.2

namespace Likeness

variable (ρ : Likeness)

/-- Tokens that correspond and have their text in common. -/
structure Same (t t' : Token) : Prop where
  token : ρ.token t t'
  lexeme : t'.lexeme = t.lexeme

/-- Tokens that name the same thing, where a renaming holds. -/
structure Named (π : Renaming) (t t' : Token) : Prop where
  token : ρ.token t t'
  lexeme : t'.lexeme = π t.lexeme

/-- References that are bound to the same scope, by the name that it has there. -/
structure Refers (Γ : List Renaming) (ref : RefId) (t : Token) (ref' : RefId) (t' : Token) :
    Prop where
  number : ρ.ref ref ref'
  token : ρ.token t t'
  lexeme : ∀ {distance}, ρ.distance ref distance → t'.lexeme = renamingAt Γ distance t.lexeme

variable {ρ}

lemma Same.named {t t' : Token} (h : ρ.Same t t') : ρ.Named .identity t t' := ⟨h.token, h.lexeme⟩

lemma Same.refers {t t' : Token} (h : ρ.Same t t') {ref ref' : RefId} (href : ρ.ref ref ref')
    {Γ : List Renaming} (hΓ : Plain Γ) : ρ.Refers Γ ref t ref' t' := by
  refine ⟨href, h.token, fun {distance} _ => ?_⟩
  rw [hΓ.renamingAt]
  exact h.lexeme

end Likeness

/-! ## Trees -/

section Trees

variable (ρ : Likeness)

/-- Expressions that are alike, in scopes with the given renamings. -/
inductive Expr.Like (Γ : List Renaming) : Expr → Expr → Prop
  | literal (value : Literal) : Expr.Like Γ (.literal value) (.literal value)
  | grouping {inner inner' : Expr} (hinner : inner.Like Γ inner') :
      Expr.Like Γ (.grouping inner) (.grouping inner')
  | unary {operator operator' : Token} {right right' : Expr}
      (hoperator : ρ.Same operator operator') (hright : right.Like Γ right') :
      Expr.Like Γ (.unary operator right) (.unary operator' right')
  | binary {left left' right right' : Expr} {operator operator' : Token} (hleft : left.Like Γ left')
      (hoperator : ρ.Same operator operator') (hright : right.Like Γ right') :
      Expr.Like Γ (.binary left operator right) (.binary left' operator' right')
  | logical {left left' right right' : Expr} {operator operator' : Token}
      (hleft : left.Like Γ left') (hoperator : ρ.Same operator operator')
      (hright : right.Like Γ right') :
      Expr.Like Γ (.logical left operator right) (.logical left' operator' right')
  | variable {ref ref' : RefId} {name name' : Token} (hname : ρ.Refers Γ ref name ref' name') :
      Expr.Like Γ (.variable ref name) (.variable ref' name')
  | assign {ref ref' : RefId} {name name' : Token} {value value' : Expr}
      (hname : ρ.Refers Γ ref name ref' name') (hvalue : value.Like Γ value') :
      Expr.Like Γ (.assign ref name value) (.assign ref' name' value')
  | call {callee callee' : Expr} {paren paren' : Token} {arguments arguments' : List Expr}
      (hcallee : callee.Like Γ callee') (hparen : ρ.token paren paren')
      (harguments : List.Forall₂ (Expr.Like Γ) arguments arguments') :
      Expr.Like Γ (.call callee paren arguments) (.call callee' paren' arguments')
  | get {object object' : Expr} {name name' : Token} (hobject : object.Like Γ object')
      (hname : ρ.Same name name') : Expr.Like Γ (.get object name) (.get object' name')
  | set {object object' value value' : Expr} {name name' : Token} (hobject : object.Like Γ object')
      (hname : ρ.Same name name') (hvalue : value.Like Γ value') :
      Expr.Like Γ (.set object name value) (.set object' name' value')
  | this {ref ref' : RefId} {keyword keyword' : Token}
      (hkeyword : ρ.Refers Γ ref keyword ref' keyword') :
      Expr.Like Γ (.this ref keyword) (.this ref' keyword')
  | super {ref ref' : RefId} {keyword keyword' method method' : Token} (href : ρ.ref ref ref')
      (hkeyword : ρ.Same keyword keyword') (hmethod : ρ.Same method method') :
      Expr.Like Γ (.super ref keyword method) (.super ref' keyword' method')

mutual

/-- Statements that are alike.  A function or class keeps its name, because that is what it is
printed as. -/
inductive Stmt.Like : List Renaming → Stmt → Stmt → Prop
  | expression {Γ : List Renaming} {e e' : Expr} (he : e.Like ρ Γ e') :
      Stmt.Like Γ (.expression e) (.expression e')
  | print {Γ : List Renaming} {e e' : Expr} (he : e.Like ρ Γ e') :
      Stmt.Like Γ (.print e) (.print e')
  | var {Γ : List Renaming} {name name' : Token} {value value' : Option Expr}
      (hname : ρ.Named (renamingAt Γ (some 0)) name name')
      (hvalue : Option.Rel (Expr.Like ρ Γ) value value') :
      Stmt.Like Γ (.var name value) (.var name' value')
  | block {Γ : List Renaming} {body body' : List Stmt} {π : Renaming} (hπ : ρ.renames π)
      (hbody : Stmt.LikeAll (π :: Γ) body body') : Stmt.Like Γ (.block body) (.block body')
  | ifThen {Γ : List Renaming} {condition condition' : Expr} {thenBranch thenBranch' : Stmt}
      (hcondition : condition.Like ρ Γ condition') (hthen : Stmt.Like Γ thenBranch thenBranch') :
      Stmt.Like Γ (.ifThen condition thenBranch none) (.ifThen condition' thenBranch' none)
  | ifElse {Γ : List Renaming} {condition condition' : Expr}
      {thenBranch thenBranch' elseBranch elseBranch' : Stmt}
      (hcondition : condition.Like ρ Γ condition') (hthen : Stmt.Like Γ thenBranch thenBranch')
      (helse : Stmt.Like Γ elseBranch elseBranch') :
      Stmt.Like Γ (.ifThen condition thenBranch (some elseBranch))
        (.ifThen condition' thenBranch' (some elseBranch'))
  | whileLoop {Γ : List Renaming} {condition condition' : Expr} {body body' : Stmt}
      (hcondition : condition.Like ρ Γ condition') (hbody : Stmt.Like Γ body body') :
      Stmt.Like Γ (.whileLoop condition body) (.whileLoop condition' body')
  | breakLoop {Γ : List Renaming} {keyword keyword' : Token}
      (hkeyword : ρ.Same keyword keyword') :
      Stmt.Like Γ (.breakLoop keyword) (.breakLoop keyword')
  | returnValue {Γ : List Renaming} {keyword keyword' : Token} {value value' : Option Expr}
      (hkeyword : ρ.Same keyword keyword') (hvalue : Option.Rel (Expr.Like ρ Γ) value value') :
      Stmt.Like Γ (.returnValue keyword value) (.returnValue keyword' value')
  | function {Γ : List Renaming} {decl decl' : FunDecl} (hdecl : FunDecl.Like Γ decl decl')
      (hname : renamingAt Γ (some 0) decl.name.lexeme = decl.name.lexeme) :
      Stmt.Like Γ (.function decl) (.function decl')
  | baseClass {Γ : List Renaming} {name name' : Token} {methods methods' : List FunDecl}
      (hname : ρ.Same name name') (hkept : renamingAt Γ (some 0) name.lexeme = name.lexeme)
      (hmethods : FunDecl.LikeAll (.identity :: Γ) methods methods') :
      Stmt.Like Γ (.classDecl name none methods) (.classDecl name' none methods')
  | derivedClass {Γ : List Renaming} {name name' : Token} {superclass superclass' : Expr}
      {methods methods' : List FunDecl} (hname : ρ.Same name name')
      (hkept : renamingAt Γ (some 0) name.lexeme = name.lexeme)
      (hsuperclass : superclass.Like ρ Γ superclass')
      (hmethods : FunDecl.LikeAll (.identity :: .identity :: Γ) methods methods') :
      Stmt.Like Γ (.classDecl name (some superclass) methods)
        (.classDecl name' (some superclass') methods')

/-- Lists of statements that are alike. -/
inductive Stmt.LikeAll : List Renaming → List Stmt → List Stmt → Prop
  | nil {Γ : List Renaming} : Stmt.LikeAll Γ [] []
  | cons {Γ : List Renaming} {s s' : Stmt} {rest rest' : List Stmt} (hs : Stmt.Like Γ s s')
      (hrest : Stmt.LikeAll Γ rest rest') : Stmt.LikeAll Γ (s :: rest) (s' :: rest')

/-- Functions that are alike.  The parameters and the body share one scope. -/
inductive FunDecl.Like : List Renaming → FunDecl → FunDecl → Prop
  | mk {Γ : List Renaming} {name name' : Token} {params params' : List Token}
      {body body' : List Stmt} {π : Renaming} (hπ : ρ.renames π) (hname : ρ.Same name name')
      (hparams : List.Forall₂ (ρ.Named π) params params')
      (hbody : Stmt.LikeAll (π :: Γ) body body') :
      FunDecl.Like Γ (.mk name params body) (.mk name' params' body')

/-- Lists of functions that are alike. -/
inductive FunDecl.LikeAll : List Renaming → List FunDecl → List FunDecl → Prop
  | nil {Γ : List Renaming} : FunDecl.LikeAll Γ [] []
  | cons {Γ : List Renaming} {d d' : FunDecl} {rest rest' : List FunDecl}
      (hd : FunDecl.Like Γ d d') (hrest : FunDecl.LikeAll Γ rest rest') :
      FunDecl.LikeAll Γ (d :: rest) (d' :: rest')

end

end Trees

section Declarations

variable {ρ : Likeness} {Γ : List Renaming} {d d' : FunDecl}

lemma FunDecl.Like.name (h : d.Like ρ Γ d') : ρ.Same d.name d'.name := by
  cases h with
  | mk _ hname _ _ => exact hname

/-- The scope of a function, with its parameters and its body. -/
lemma FunDecl.Like.exists_renaming (h : d.Like ρ Γ d') :
    ∃ π, ρ.renames π ∧ List.Forall₂ (ρ.Named π) d.params d'.params ∧
      Stmt.LikeAll ρ (π :: Γ) d.body d'.body := by
  cases h with
  | mk hπ _ hparams hbody => exact ⟨_, hπ, hparams, hbody⟩

lemma FunDecl.Like.arity (h : d.Like ρ Γ d') : d'.params.length = d.params.length := by
  obtain ⟨_, _, hparams, _⟩ := h.exists_renaming
  exact hparams.length_eq.symm

lemma FunDecl.Like.isInitializer (h : d.Like ρ Γ d') : d'.isInitializer = d.isInitializer := by
  rw [FunDecl.isInitializer, h.name.lexeme, FunDecl.isInitializer]

end Declarations

/-! ## Results that may be missing -/

section Rel

variable {α β : Type} {R : α → α → Prop} {x y : Option α}

lemma rel_cases (h : Option.Rel R x y) :
    x = none ∧ y = none ∨ ∃ a b, x = some a ∧ y = some b ∧ R a b := by
  cases h with
  | none => exact .inl ⟨rfl, rfl⟩
  | some h => exact .inr ⟨_, _, rfl, rfl, h⟩

lemma rel_mono {R' : α → α → Prop} (hR : ∀ {a b}, R a b → R' a b) (h : Option.Rel R x y) :
    Option.Rel R' x y := by
  cases h with
  | none => exact .none
  | some h => exact .some (hR h)

lemma rel_map {S : β → β → Prop} {f f' : α → β} (hf : ∀ {a b}, R a b → S (f a) (f' b))
    (h : Option.Rel R x y) : Option.Rel S (x.map f) (y.map f') := by
  cases h with
  | none => exact .none
  | some h => exact .some (hf h)

lemma rel_isSome (h : Option.Rel R x y) : y.isSome = x.isSome := by
  cases h <;> rfl

end Rel

/-! ## Less strict likenesses -/

/-- The second likeness is no more strict than the first, for the references with a given property
and whatever the names that may be global. -/
structure Likeness.Le (S : RefId → Prop) (ρ ρ' : Likeness) : Prop where
  token : ∀ {t t'}, ρ.token t t' → ρ'.token t t'
  ref : ∀ {ref ref'}, S ref → ρ.ref ref ref' → ρ'.ref ref ref'
  distance : ∀ {ref distance}, ρ'.distance ref distance → ρ.distance ref distance
  renames : ∀ {π}, ρ.renames π → ρ'.renames π
  function : ∀ {d init}, ρ.function d init → ρ'.function d init

section Mono

variable {S : RefId → Prop} {ρ ρ' : Likeness}

lemma Likeness.Same.mono (hρ : ρ.Le S ρ') {t t' : Token} (h : ρ.Same t t') : ρ'.Same t t' :=
  ⟨hρ.token h.token, h.lexeme⟩

lemma Likeness.Named.mono (hρ : ρ.Le S ρ') {π : Renaming} {t t' : Token} (h : ρ.Named π t t') :
    ρ'.Named π t t' := ⟨hρ.token h.token, h.lexeme⟩

lemma Likeness.Refers.mono (hρ : ρ.Le S ρ') {Γ : List Renaming} {ref ref' : RefId} {t t' : Token}
    (href : S ref) (h : ρ.Refers Γ ref t ref' t') : ρ'.Refers Γ ref t ref' t' :=
  ⟨hρ.ref href h.number, hρ.token h.token, fun hd => h.lexeme (hρ.distance hd)⟩

/-- Every reference in a list has the property. -/
def Reference.AllIn (S : RefId → Prop) (references : List Reference) : Prop :=
  ∀ r ∈ references, S r.ref

open Reference (AllIn)

lemma Reference.AllIn.head {r : Reference} {l : List Reference} (h : AllIn S (r :: l)) : S r.ref :=
  h r List.mem_cons_self

lemma Reference.AllIn.tail {r : Reference} {l : List Reference} (h : AllIn S (r :: l)) :
    AllIn S l := (List.forall_mem_cons.mp h).2

lemma Reference.AllIn.left {l l' : List Reference} (h : AllIn S (l ++ l')) : AllIn S l :=
  (List.forall_mem_append.mp h).1

lemma Reference.AllIn.right {l l' : List Reference} (h : AllIn S (l ++ l')) : AllIn S l' :=
  (List.forall_mem_append.mp h).2

mutual

lemma Expr.Like.mono (hρ : ρ.Le S ρ') {Γ : List Renaming} : (e : Expr) → {e' : Expr} →
    AllIn S e.references → e.Like ρ Γ e' → e.Like ρ' Γ e'
  | .literal _, _, _, .literal value => .literal value
  | .grouping inner, _, h, .grouping hinner => .grouping (Expr.Like.mono hρ inner h hinner)
  | .unary _ right, _, h, .unary hoperator hright =>
    .unary (hoperator.mono hρ) (Expr.Like.mono hρ right h hright)
  | .binary left _ right, _, h, .binary hleft hoperator hright =>
    .binary (Expr.Like.mono hρ left (AllIn.left h) hleft) (hoperator.mono hρ)
      (Expr.Like.mono hρ right (AllIn.right h) hright)
  | .logical left _ right, _, h, .logical hleft hoperator hright =>
    .logical (Expr.Like.mono hρ left (AllIn.left h) hleft) (hoperator.mono hρ)
      (Expr.Like.mono hρ right (AllIn.right h) hright)
  | .variable _ _, _, h, .variable hname => .variable (hname.mono hρ (AllIn.head h))
  | .assign _ _ value, _, h, .assign hname hvalue =>
    .assign (hname.mono hρ (AllIn.head h)) (Expr.Like.mono hρ value (AllIn.tail h) hvalue)
  | .call callee _ arguments, _, h, .call hcallee hparen harguments =>
    .call (Expr.Like.mono hρ callee (AllIn.left h) hcallee) (hρ.token hparen)
      (Expr.Like.monoAll hρ arguments (AllIn.right h) harguments)
  | .get object _, _, h, .get hobject hname =>
    .get (Expr.Like.mono hρ object h hobject) (hname.mono hρ)
  | .set object _ value, _, h, .set hobject hname hvalue =>
    .set (Expr.Like.mono hρ object (AllIn.left h) hobject) (hname.mono hρ)
      (Expr.Like.mono hρ value (AllIn.right h) hvalue)
  | .this _ _, _, h, .this hkeyword => .this (hkeyword.mono hρ (AllIn.head h))
  | .super _ _ _, _, h, .super href hkeyword hmethod =>
    .super (hρ.ref (AllIn.head h) href) (hkeyword.mono hρ) (hmethod.mono hρ)

lemma Expr.Like.monoAll (hρ : ρ.Le S ρ') {Γ : List Renaming} : (es : List Expr) →
    {es' : List Expr} → AllIn S (Expr.allReferences es) → List.Forall₂ (Expr.Like ρ Γ) es es' →
    List.Forall₂ (Expr.Like ρ' Γ) es es'
  | [], _, _, .nil => .nil
  | e :: rest, _, h, .cons he hrest =>
    .cons (Expr.Like.mono hρ e (AllIn.left h) he) (Expr.Like.monoAll hρ rest (AllIn.right h) hrest)

end

mutual

lemma Stmt.Like.mono (hρ : ρ.Le S ρ') : (s : Stmt) → {Γ : List Renaming} → {s' : Stmt} →
    AllIn S s.references → s.Like ρ Γ s' → s.Like ρ' Γ s'
  | .expression e, _, _, h, .expression he => .expression (Expr.Like.mono hρ e h he)
  | .print e, _, _, h, .print he => .print (Expr.Like.mono hρ e h he)
  | .var _ none, _, _, _, .var hname .none => .var (hname.mono hρ) .none
  | .var _ (some e), _, _, h, .var hname (.some he) =>
    .var (hname.mono hρ) (.some (Expr.Like.mono hρ e h he))
  | .block body, _, _, h, .block hπ hbody =>
    .block (hρ.renames hπ) (Stmt.LikeAll.mono hρ body h hbody)
  | .ifThen condition thenBranch none, _, _, h, .ifThen hcondition hthen =>
    .ifThen (Expr.Like.mono hρ condition (AllIn.left h) hcondition)
      (Stmt.Like.mono hρ thenBranch (AllIn.right h) hthen)
  | .ifThen condition thenBranch (some elseBranch), _, _, h, .ifElse hcondition hthen helse =>
    .ifElse (Expr.Like.mono hρ condition (AllIn.left (AllIn.left h)) hcondition)
      (Stmt.Like.mono hρ thenBranch (AllIn.right (AllIn.left h)) hthen)
      (Stmt.Like.mono hρ elseBranch (AllIn.right h) helse)
  | .whileLoop condition body, _, _, h, .whileLoop hcondition hbody =>
    .whileLoop (Expr.Like.mono hρ condition (AllIn.left h) hcondition)
      (Stmt.Like.mono hρ body (AllIn.right h) hbody)
  | .breakLoop _, _, _, _, .breakLoop hkeyword => .breakLoop (hkeyword.mono hρ)
  | .returnValue _ none, _, _, _, .returnValue hkeyword .none =>
    .returnValue (hkeyword.mono hρ) .none
  | .returnValue _ (some e), _, _, h, .returnValue hkeyword (.some he) =>
    .returnValue (hkeyword.mono hρ) (.some (Expr.Like.mono hρ e h he))
  | .function decl, _, _, h, .function hdecl hname =>
    .function (FunDecl.Like.mono hρ decl h hdecl) hname
  | .classDecl _ none methods, _, _, h, .baseClass hname hkept hmethods =>
    .baseClass (hname.mono hρ) hkept (FunDecl.LikeAll.mono hρ methods h hmethods)
  | .classDecl _ (some superclass) methods, _, _, h,
      .derivedClass hname hkept hsuperclass hmethods =>
    .derivedClass (hname.mono hρ) hkept (Expr.Like.mono hρ superclass (AllIn.left h) hsuperclass)
      (FunDecl.LikeAll.mono hρ methods (AllIn.right h) hmethods)

lemma Stmt.LikeAll.mono (hρ : ρ.Le S ρ') : (body : List Stmt) → {Γ : List Renaming} →
    {body' : List Stmt} → AllIn S (Stmt.allReferences body) → Stmt.LikeAll ρ Γ body body' →
    Stmt.LikeAll ρ' Γ body body'
  | [], _, _, _, .nil => .nil
  | s :: rest, _, _, h, .cons hs hrest =>
    .cons (Stmt.Like.mono hρ s (AllIn.left h) hs) (Stmt.LikeAll.mono hρ rest (AllIn.right h) hrest)

lemma FunDecl.Like.mono (hρ : ρ.Le S ρ') : (d : FunDecl) → {Γ : List Renaming} → {d' : FunDecl} →
    AllIn S d.references → d.Like ρ Γ d' → d.Like ρ' Γ d'
  | .mk _ _ body, _, _, h, .mk hπ hname hparams hbody =>
    .mk (hρ.renames hπ) (hname.mono hρ) (hparams.imp fun _ _ hp => hp.mono hρ)
      (Stmt.LikeAll.mono hρ body h hbody)

lemma FunDecl.LikeAll.mono (hρ : ρ.Le S ρ') : (ds : List FunDecl) → {Γ : List Renaming} →
    {ds' : List FunDecl} → AllIn S (FunDecl.allReferences ds) → FunDecl.LikeAll ρ Γ ds ds' →
    FunDecl.LikeAll ρ' Γ ds ds'
  | [], _, _, _, .nil => .nil
  | d :: rest, _, _, h, .cons hd hrest =>
    .cons (FunDecl.Like.mono hρ d (AllIn.left h) hd)
      (FunDecl.LikeAll.mono hρ rest (AllIn.right h) hrest)

end

end Mono

end LoxLang
