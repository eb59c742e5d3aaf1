import LoxLang.Proofs.Scope.Placement

/-!
# What stands inside methods

A `this` means something inside a method only, and a `super` only inside a method of a class with a
superclass.  The walk hands down the innermost class around a place and complains where there is
none.  Here the same is said with the scopes around a site (`LexicalContext.Inside`): between a site
and the scope of the instance there are only blocks and functions, and around the scope of the
instance is the one of the superclass.  A class inside a method hides both for its own methods.

What is in between cannot hide `this` or `super`, because blocks and functions declare names and no
name is a keyword.  For the same reason no declaration and no assignment can bind them anew
(`Stmt.Tidy`).
-/

namespace LoxLang

/-! ## Class statements -/

/-- A class statement. -/
structure ClassDecl where
  name : Token
  superclass : Option Expr
  methods : List FunDecl

mutual

/-- The class statements in a statement, at any depth. -/
def Stmt.classes : Stmt → List ClassDecl
  | .block body => Stmt.allClasses body
  | .ifThen _ thenBranch none => thenBranch.classes
  | .ifThen _ thenBranch (some elseBranch) => thenBranch.classes ++ elseBranch.classes
  | .whileLoop _ body => body.classes
  | .function decl => decl.classes
  | .classDecl name superclass methods =>
    ⟨name, superclass, methods⟩ :: FunDecl.allClasses methods
  | .expression _ | .print _ | .var _ _ | .breakLoop _ | .returnValue _ _ => []

/-- The class statements in several statements. -/
def Stmt.allClasses : List Stmt → List ClassDecl
  | [] => []
  | s :: rest => s.classes ++ Stmt.allClasses rest

/-- The class statements in the body of a function. -/
def FunDecl.classes : FunDecl → List ClassDecl
  | .mk _ _ body => Stmt.allClasses body

/-- The class statements in the bodies of methods. -/
def FunDecl.allClasses : List FunDecl → List ClassDecl
  | [] => []
  | d :: rest => d.classes ++ FunDecl.allClasses rest

end

/-! ## Names that are bound -/

/-- A name that a program can bind is no keyword. -/
def Token.IsBindable (t : Token) : Prop := Keyword.ofWord? t.lexeme = none

lemma Token.IsBindable.ne_spelling {t : Token} (h : t.IsBindable) (k : Keyword) :
    t.lexeme ≠ k.spelling := by
  intro heq
  rw [Token.IsBindable, heq, Keyword.ofWord?_spelling] at h
  cases h

mutual

/-- Every assignment in an expression is to a name. -/
def Expr.Tidy : Expr → Prop
  | .literal _ | .variable _ _ | .this _ _ | .super _ _ _ => True
  | .grouping inner => inner.Tidy
  | .unary _ right => right.Tidy
  | .binary left _ right | .logical left _ right => left.Tidy ∧ right.Tidy
  | .assign _ name value => name.IsBindable ∧ value.Tidy
  | .call callee _ arguments => callee.Tidy ∧ Expr.AllTidy arguments
  | .get object _ => object.Tidy
  | .set object _ value => object.Tidy ∧ value.Tidy

def Expr.AllTidy : List Expr → Prop
  | [] => True
  | e :: rest => e.Tidy ∧ Expr.AllTidy rest

end

section Tidy

variable (K : ClassDecl → Prop)

mutual

/-- **A statement binds nothing but names**, and its class statements are among those of `K`, each
with a name for its superclass. -/
def Stmt.Tidy : Stmt → Prop
  | .expression e | .print e => e.Tidy
  | .var name none => name.IsBindable
  | .var name (some e) => name.IsBindable ∧ e.Tidy
  | .block body => Stmt.AllTidy body
  | .ifThen condition thenBranch none => condition.Tidy ∧ thenBranch.Tidy
  | .ifThen condition thenBranch (some elseBranch) =>
    condition.Tidy ∧ thenBranch.Tidy ∧ elseBranch.Tidy
  | .whileLoop condition body => condition.Tidy ∧ body.Tidy
  | .breakLoop _ | .returnValue _ none => True
  | .returnValue _ (some e) => e.Tidy
  | .function decl => decl.name.IsBindable ∧ decl.Tidy
  | .classDecl name superclass methods => K ⟨name, superclass, methods⟩ ∧ name.IsBindable ∧
    (∀ e, superclass = some e → ∃ ref parent, e = .variable ref parent) ∧ FunDecl.AllTidy methods

def Stmt.AllTidy : List Stmt → Prop
  | [] => True
  | s :: rest => s.Tidy ∧ Stmt.AllTidy rest

def FunDecl.Tidy : FunDecl → Prop
  | .mk _ params body => (∀ p ∈ params, p.IsBindable) ∧ Stmt.AllTidy body

def FunDecl.AllTidy : List FunDecl → Prop
  | [] => True
  | d :: rest => d.Tidy ∧ FunDecl.AllTidy rest

end

end Tidy

section Tidy

variable {K : ClassDecl → Prop}

lemma FunDecl.Tidy.params {d : FunDecl} (h : d.Tidy K) : ∀ p ∈ d.params, p.IsBindable := by
  cases d
  exact h.1

lemma FunDecl.Tidy.body {d : FunDecl} (h : d.Tidy K) : Stmt.AllTidy K d.body := by
  cases d
  exact h.2

lemma FunDecl.AllTidy.mem {ds : List FunDecl} (h : FunDecl.AllTidy K ds) {d : FunDecl}
    (hd : d ∈ ds) : d.Tidy K := by
  induction ds with
  | nil => cases hd
  | cons first rest ih =>
    rcases List.mem_cons.mp hd with rfl | hd
    · exact h.1
    · exact ih h.2 hd

mutual

/-- The methods of every class in a tidy statement are tidy. -/
lemma Stmt.Tidy.classes : (s : Stmt) → s.Tidy K → ∀ c ∈ s.classes, FunDecl.AllTidy K c.methods
  | .block body, h => Stmt.AllTidy.classes body h
  | .ifThen _ thenBranch none, h => Stmt.Tidy.classes thenBranch h.2
  | .ifThen _ thenBranch (some elseBranch), h =>
    List.forall_mem_append.mpr
      ⟨Stmt.Tidy.classes thenBranch h.2.1, Stmt.Tidy.classes elseBranch h.2.2⟩
  | .whileLoop _ body, h => Stmt.Tidy.classes body h.2
  | .function decl, h => FunDecl.Tidy.classes decl h.2
  | .classDecl _ _ methods, h =>
    List.forall_mem_cons.mpr ⟨h.2.2.2, FunDecl.AllTidy.classes methods h.2.2.2⟩
  | .expression _, _ | .print _, _ | .var _ _, _ | .breakLoop _, _ | .returnValue _ _, _ =>
    List.forall_mem_nil _

lemma Stmt.AllTidy.classes : (body : List Stmt) → Stmt.AllTidy K body →
    ∀ c ∈ Stmt.allClasses body, FunDecl.AllTidy K c.methods
  | [], _ => List.forall_mem_nil _
  | s :: rest, h =>
    List.forall_mem_append.mpr ⟨Stmt.Tidy.classes s h.1, Stmt.AllTidy.classes rest h.2⟩

lemma FunDecl.Tidy.classes : (d : FunDecl) → d.Tidy K →
    ∀ c ∈ d.classes, FunDecl.AllTidy K c.methods
  | .mk _ _ body, h => Stmt.AllTidy.classes body h.2

lemma FunDecl.AllTidy.classes : (ds : List FunDecl) → FunDecl.AllTidy K ds →
    ∀ c ∈ FunDecl.allClasses ds, FunDecl.AllTidy K c.methods
  | [], _ => List.forall_mem_nil _
  | d :: rest, h =>
    List.forall_mem_append.mpr ⟨FunDecl.Tidy.classes d h.1, FunDecl.AllTidy.classes rest h.2⟩

end

/-! ## What is read binds names -/

lemma Token.Named.isBindable {t : Token} (h : t.Named Token.IsSpelled) : t.IsBindable :=
  h.2.ofWord?_of_isIdentifier h.1

mutual

lemma Expr.tidy : (e : Expr) → e.Formed Token.IsSpelled → e.Tidy
  | .literal _, _ | .variable _ _, _ | .this _ _, _ | .super _ _ _, _ => trivial
  | .grouping inner, h => inner.tidy h
  | .unary _ right, h => right.tidy h
  | .binary left _ right, h | .logical left _ right, h => ⟨left.tidy h.1, right.tidy h.2⟩
  | .assign _ _ value, h => ⟨h.1.isBindable, value.tidy h.2⟩
  | .call callee _ arguments, h => ⟨callee.tidy h.1, Expr.allTidy arguments h.2⟩
  | .get object _, h => object.tidy h
  | .set object _ value, h => ⟨object.tidy h.1, value.tidy h.2⟩

lemma Expr.allTidy : (es : List Expr) → Expr.AllFormed Token.IsSpelled es → Expr.AllTidy es
  | [], _ => trivial
  | e :: rest, h => ⟨e.tidy h.1, Expr.allTidy rest h.2⟩

end

mutual

lemma Stmt.tidy : (s : Stmt) → s.Formed Token.IsSpelled → (∀ c ∈ s.classes, K c) → s.Tidy K
  | .expression e, h, _ | .print e, h, _ => e.tidy h
  | .var _ none, h, _ => h.1.isBindable
  | .var _ (some e), h, _ => ⟨h.1.isBindable, e.tidy (h.2 e rfl)⟩
  | .block body, h, hK => Stmt.allTidy body h hK
  | .ifThen condition thenBranch none, h, hK => ⟨condition.tidy h.1, thenBranch.tidy h.2.1 hK⟩
  | .ifThen condition thenBranch (some elseBranch), h, hK => by
    rw [Stmt.classes, List.forall_mem_append] at hK
    exact ⟨condition.tidy h.1, thenBranch.tidy h.2.1.1 hK.1, elseBranch.tidy h.2.2.1 hK.2⟩
  | .whileLoop condition body, h, hK => ⟨condition.tidy h.1, body.tidy h.2.1 hK⟩
  | .breakLoop _, _, _ | .returnValue _ none, _, _ => trivial
  | .returnValue _ (some e), h, _ => e.tidy (h e rfl)
  | .function (.mk _ params body), h, hK =>
    ⟨h.1.isBindable, fun p hp => (h.2.1 p hp).isBindable, Stmt.allTidy body h.2.2 hK⟩
  | .classDecl _ _ methods, h, hK => by
    rw [Stmt.classes, List.forall_mem_cons] at hK
    exact ⟨hK.1, h.1.isBindable, h.2.1, FunDecl.allTidy methods h.2.2 hK.2⟩

lemma Stmt.allTidy : (body : List Stmt) → Stmt.AllFormed Token.IsSpelled body →
    (∀ c ∈ Stmt.allClasses body, K c) → Stmt.AllTidy K body
  | [], _, _ => trivial
  | s :: rest, h, hK => by
    rw [Stmt.allClasses, List.forall_mem_append] at hK
    exact ⟨s.tidy h.1 hK.1, Stmt.allTidy rest h.2 hK.2⟩

lemma FunDecl.allTidy : (ds : List FunDecl) → FunDecl.AllFormed Token.IsSpelled ds →
    (∀ c ∈ FunDecl.allClasses ds, K c) → FunDecl.AllTidy K ds
  | [], _, _ => trivial
  | .mk _ _ body :: rest, h, hK => by
    rw [FunDecl.allClasses, List.forall_mem_append] at hK
    exact ⟨⟨fun p hp => (h.1.2.1 p hp).isBindable, Stmt.allTidy body h.1.2.2 hK.1⟩,
      FunDecl.allTidy rest h.2 hK.2⟩

end

/-- **A program that was read is tidy**, whether there were complaints about it or not. -/
lemma tidy_readProgram {source : String} {n : RefId}
    (hK : ∀ c ∈ Stmt.allClasses (readProgram (tokensOf source) n).program, K c) :
    Stmt.AllTidy K (readProgram (tokensOf source) n).program :=
  Stmt.allTidy _ (shaped_readProgram (isSpelled_tokensOf source) n).formed hK

end Tidy

/-! ## Scopes inside methods -/

/-- A block or a function, which can only declare names. -/
structure LexicalScope.IsPlain (σ : LexicalScope) : Prop where
  region : (∃ body, σ.region = .block body) ∨ ∃ d, σ.region = .call d
  names : ∀ x ∈ σ.names, Keyword.ofWord? x = none

namespace LexicalScope.IsPlain

variable {σ : LexicalScope}

lemma declares_keyword (h : σ.IsPlain) (k : Keyword) : σ.declares k.spelling = false := by
  rw [LexicalScope.declares, decide_eq_false_iff_not]
  intro hmem
  have hword := h.names _ hmem
  rw [Keyword.ofWord?_spelling] at hword
  cases hword

lemma declare (h : σ.IsPlain) {name : Token} (hname : name.IsBindable) :
    LexicalScope.IsPlain { σ with names := name.lexeme :: σ.names } :=
  ⟨h.region, List.forall_mem_cons.mpr ⟨hname, h.names⟩⟩

lemma block (body : List Stmt) : LexicalScope.IsPlain ⟨.block body, []⟩ :=
  ⟨.inl ⟨body, rfl⟩, List.forall_mem_nil _⟩

lemma call {d : FunDecl} (h : ∀ p ∈ d.params, p.IsBindable) : d.scope.IsPlain :=
  ⟨.inr ⟨d, rfl⟩, List.forall_mem_map.mpr h⟩

end LexicalScope.IsPlain

/-- The scope around the methods of a class, for its superclass. -/
def ClassDecl.parentScope (c : ClassDecl) : LexicalScope := ⟨.parent c.name c.methods, ["super"]⟩

/-- **The innermost class around a place**, as the scopes around it show.  The body of a method has
the scope of the instance around it, and around that one the scope of the superclass, if there is
one. -/
inductive LexicalContext.Inside (K : ClassDecl → Prop) : ClassContext → LexicalContext → Prop
  | top : Inside K .none []
  | inner {cls σ Γ} (hσ : σ.IsPlain) (h : Inside K cls Γ) : Inside K cls (σ :: Γ)
  | base {cls σ Γ} {d : FunDecl} (hσ : σ.IsPlain) (h : Inside K cls Γ) :
      Inside K .base (σ :: d.receiverScope :: Γ)
  | derived {cls σ Γ} {c : ClassDecl} {d : FunDecl} (hσ : σ.IsPlain) (hc : K c) (hd : d ∈ c.methods)
      (h : Inside K cls Γ) : Inside K .derived (σ :: d.receiverScope :: c.parentScope :: Γ)

namespace LexicalContext.Inside

variable {K : ClassDecl → Prop} {cls : ClassContext} {Γ : LexicalContext}

lemma declare (h : Γ.Inside K cls) {name : Token} (hname : name.IsBindable) :
    (Γ.declare name).Inside K cls := by
  cases h with
  | top => exact .top
  | inner hσ h => exact .inner (hσ.declare hname) h
  | base hσ h => exact .base (hσ.declare hname) h
  | derived hσ hc hd h => exact .derived (hσ.declare hname) hc hd h

/-- Inside a class there is a method, with blocks and functions between it and the place. -/
lemma exists_receiver (h : Γ.Inside K cls) (hcls : cls ≠ .none) :
    ∃ inner, ∃ d : FunDecl, ∃ outer, Γ = inner ++ d.receiverScope :: outer ∧
      ∀ σ ∈ inner, σ.IsPlain := by
  induction h with
  | top => exact absurd rfl hcls
  | @inner cls σ Γ hσ _ ih =>
    obtain ⟨inner, d, outer, rfl, hinner⟩ := ih hcls
    exact ⟨σ :: inner, d, outer, rfl, List.forall_mem_cons.mpr ⟨hσ, hinner⟩⟩
  | @base cls σ Γ d hσ _ _ => exact ⟨[σ], d, Γ, rfl, List.forall_mem_singleton.mpr hσ⟩
  | @derived cls σ Γ c d hσ _ _ _ _ =>
    exact ⟨[σ], d, c.parentScope :: Γ, rfl, List.forall_mem_singleton.mpr hσ⟩

/-- Inside a class with a superclass, the scope of the superclass is around that of the
instance. -/
lemma exists_parent (h : Γ.Inside K .derived) :
    ∃ inner c, ∃ d ∈ c.methods, ∃ outer, K c ∧
      Γ = inner ++ d.receiverScope :: c.parentScope :: outer ∧ ∀ σ ∈ inner, σ.IsPlain := by
  generalize hcls : ClassContext.derived = cls at h
  induction h with
  | top => cases hcls
  | @inner cls σ Γ hσ _ ih =>
    obtain ⟨inner, c, d, hd, outer, hc, rfl, hinner⟩ := ih hcls
    exact ⟨σ :: inner, c, d, hd, outer, hc, rfl, List.forall_mem_cons.mpr ⟨hσ, hinner⟩⟩
  | base => cases hcls
  | @derived cls σ Γ c d hσ hc hd _ _ =>
    exact ⟨[σ], c, d, hd, Γ, hc, rfl, List.forall_mem_singleton.mpr hσ⟩

end LexicalContext.Inside

/-- Where a site with `this` or `super` stands. -/
structure Site.Housed (K : ClassDecl → Prop) (s : Site) : Prop where
  this : s.reference.use = .this → ∃ cls, cls ≠ .none ∧ s.scopes.Inside K cls
  super : s.reference.use = .super → s.scopes.Inside K .derived

/-! ## What is visible inside methods -/

/-- The first scope that declares a name is the one behind those that do not. -/
lemma LexicalContext.findIdx?_declares {inner outer : LexicalContext} {σ : LexicalScope}
    {name : String} (hinner : ∀ τ ∈ inner, τ.declares name = false)
    (hσ : σ.declares name = true) :
    (inner ++ σ :: outer).findIdx? (·.declares name) = some inner.length := by
  induction inner with
  | nil => simp [List.findIdx?_cons, hσ]
  | cons τ rest ih =>
    rw [List.forall_mem_cons] at hinner
    rw [List.cons_append, List.findIdx?_cons, hinner.1, ih hinner.2]
    rfl

lemma Site.visible?_of_ne_read {site : Site} (huse : site.reference.use ≠ .read) :
    site.visible? = site.scopes.findIdx? (·.declares site.name) := by
  simp [visible?, isOwnRead, huse]

section Visible

variable {site : Site} {inner outer : LexicalContext} {d : FunDecl}

/-- Nothing between a place and the method around it hides `this`. -/
lemma visible?_this (hscopes : site.scopes = inner ++ d.receiverScope :: outer)
    (hinner : ∀ σ ∈ inner, σ.IsPlain) (huse : site.reference.use ≠ .read)
    (hname : site.name = "this") : site.visible? = some inner.length := by
  rw [Site.visible?_of_ne_read huse, hscopes, hname]
  apply LexicalContext.findIdx?_declares
  · exact fun σ hσ => (hinner σ hσ).declares_keyword .this_
  · simp [LexicalScope.declares, FunDecl.receiverScope]

/-- Nor does anything hide `super`, which is in the scope around that of the instance. -/
lemma visible?_super {c : ClassDecl}
    (hscopes : site.scopes = inner ++ d.receiverScope :: c.parentScope :: outer)
    (hinner : ∀ σ ∈ inner, σ.IsPlain) (huse : site.reference.use ≠ .read)
    (hname : site.name = "super") : site.visible? = some (inner.length + 1) := by
  have hsplit : site.scopes = (inner ++ [d.receiverScope]) ++ c.parentScope :: outer := by
    simp [hscopes]
  rw [Site.visible?_of_ne_read huse, hsplit, hname, LexicalContext.findIdx?_declares]
  · simp
  · rw [List.forall_mem_append, List.forall_mem_singleton]
    constructor
    · exact fun σ hσ => (hinner σ hσ).declares_keyword .super_
    · simp [LexicalScope.declares, FunDecl.receiverScope]
  · simp [LexicalScope.declares, ClassDecl.parentScope]

end Visible

/-! ## What the walk accepts -/

section Quiet

variable {K : ClassDecl → Prop} (isGlobal : String → Bool)

mutual

lemma Expr.housed_of_quiet (at_ : Surroundings) {Γ : LexicalContext} {pending : Option String}
    (hΓ : Γ.Inside K at_.cls) : (e : Expr) → (a : Analysis) →
    (e.analyse isGlobal at_ a).errors = [] → ∀ s ∈ e.sites Γ pending, s.Housed K
  | .literal _, _, _ => List.forall_mem_nil _
  | .grouping inner, a, h => inner.housed_of_quiet at_ hΓ a h
  | .unary _ right, a, h => right.housed_of_quiet at_ hΓ a h
  | .binary left _ right, a, h | .logical left _ right, a, h => by
    have hleft := quiet_before (right.prefix_analyse isGlobal at_ _) h
    exact List.forall_mem_append.mpr
      ⟨left.housed_of_quiet at_ hΓ a hleft, right.housed_of_quiet at_ hΓ _ h⟩
  | .variable _ _, _, _ => List.forall_mem_singleton.mpr ⟨by simp, by simp⟩
  | .assign _ _ value, a, h => by
    rw [Expr.analyse, Analysis.errors_bind] at h
    exact List.forall_mem_append.mpr
      ⟨value.housed_of_quiet at_ hΓ a h, List.forall_mem_singleton.mpr ⟨by simp, by simp⟩⟩
  | .call callee _ arguments, a, h => by
    have hcallee := quiet_before (Expr.prefix_analyseAll isGlobal at_ arguments _) h
    exact List.forall_mem_append.mpr
      ⟨callee.housed_of_quiet at_ hΓ a hcallee, Expr.allHoused_of_quiet at_ hΓ arguments _ h⟩
  | .get object _, a, h => object.housed_of_quiet at_ hΓ a h
  | .set object _ value, a, h => by
    have hvalue := quiet_before (object.prefix_analyse isGlobal at_ _) h
    exact List.forall_mem_append.mpr
      ⟨value.housed_of_quiet at_ hΓ a hvalue, object.housed_of_quiet at_ hΓ _ h⟩
  | .this _ keyword, a, h => by
    have hcls : at_.cls ≠ .none := by
      intro hnone
      rw [Expr.analyse, if_pos hnone] at h
      simp [Analysis.complain] at h
    exact List.forall_mem_singleton.mpr ⟨fun _ => ⟨at_.cls, hcls, hΓ⟩, by simp⟩
  | .super _ keyword _, a, h => by
    rw [Expr.analyse, Analysis.errors_bind] at h
    refine List.forall_mem_singleton.mpr ⟨by simp, fun _ => ?_⟩
    cases hcls : at_.cls with
    | derived => rwa [hcls] at hΓ
    | none | base =>
      rw [hcls] at h
      simp [Analysis.checkSuper, Analysis.complain] at h

lemma Expr.allHoused_of_quiet (at_ : Surroundings) {Γ : LexicalContext} {pending : Option String}
    (hΓ : Γ.Inside K at_.cls) : (es : List Expr) → (a : Analysis) →
    (Expr.analyseAll isGlobal at_ es a).errors = [] → ∀ s ∈ Expr.sitesAll Γ pending es, s.Housed K
  | [], _, _ => List.forall_mem_nil _
  | e :: rest, a, h => by
    have hfirst := quiet_before (Expr.prefix_analyseAll isGlobal at_ rest _) h
    exact List.forall_mem_append.mpr
      ⟨e.housed_of_quiet at_ hΓ a hfirst, Expr.allHoused_of_quiet at_ hΓ rest _ h⟩

end

/-- Statements declare names only. -/
lemma Stmt.inside_after {Γ : LexicalContext} {cls : ClassContext} (hΓ : Γ.Inside K cls) {s : Stmt}
    (hs : s.Tidy K) : (s.after Γ).Inside K cls := by
  cases s with
  | var name value =>
    cases value with
    | none => exact hΓ.declare hs
    | some e => exact hΓ.declare hs.1
  | function decl => exact hΓ.declare hs.1
  | classDecl name superclass methods => exact hΓ.declare hs.2.1
  | _ => exact hΓ

mutual

lemma Stmt.housed_of_quiet (at_ : Surroundings) {Γ : LexicalContext} (hΓ : Γ.Inside K at_.cls) :
    (s : Stmt) → s.Tidy K → (a : Analysis) → (s.analyse isGlobal at_ a).errors = [] →
    ∀ site ∈ s.sites Γ, site.Housed K
  | .expression e, _, a, h | .print e, _, a, h => e.housed_of_quiet isGlobal at_ hΓ a h
  | .var _ none, _, _, _ | .breakLoop _, _, _, _ | .returnValue _ none, _, _, _ =>
    List.forall_mem_nil _
  | .var name (some e), hs, a, h => by
    rw [Stmt.analyse, Analysis.errors_define] at h
    exact e.housed_of_quiet isGlobal at_ (hΓ.declare hs.1) _ h
  | .block body, hs, a, h => Stmt.allHoused_of_quiet at_ (.inner (.block body) hΓ) body hs _ h
  | .ifThen condition thenBranch none, hs, a, h => by
    have hcondition := quiet_before (thenBranch.prefix_analyse isGlobal at_ _) h
    exact List.forall_mem_append.mpr ⟨condition.housed_of_quiet isGlobal at_ hΓ a hcondition,
      thenBranch.housed_of_quiet at_ hΓ hs.2 _ h⟩
  | .ifThen condition thenBranch (some elseBranch), hs, a, h => by
    have hthen := quiet_before (elseBranch.prefix_analyse isGlobal at_ _) h
    have hcondition := quiet_before (thenBranch.prefix_analyse isGlobal at_ _) hthen
    refine List.forall_mem_append.mpr ⟨List.forall_mem_append.mpr ⟨?_, ?_⟩, ?_⟩
    · exact condition.housed_of_quiet isGlobal at_ hΓ a hcondition
    · exact thenBranch.housed_of_quiet at_ hΓ hs.2.1 _ hthen
    · exact elseBranch.housed_of_quiet at_ hΓ hs.2.2 _ h
  | .whileLoop condition body, hs, a, h => by
    have hcondition := quiet_before (body.prefix_analyse isGlobal { at_ with inLoop := true } _) h
    exact List.forall_mem_append.mpr ⟨condition.housed_of_quiet isGlobal at_ hΓ a hcondition,
      body.housed_of_quiet { at_ with inLoop := true } hΓ hs.2 _ h⟩
  | .returnValue _ (some e), _, _, h => e.housed_of_quiet isGlobal at_ hΓ _ h
  | .function decl, hs, _, h =>
    decl.housed_of_quiet at_ .function (.inner (.call hs.2.params) (hΓ.declare hs.1)) hs.2 _ h
  | .classDecl name none methods, hs, _, h =>
    FunDecl.allHoused_of_quiet { at_ with cls := .base } methods
      (fun _ hd => .base (.call (hs.2.2.2.mem hd).params) (hΓ.declare hs.2.1)) hs.2.2.2 _ h
  | .classDecl name (some superclass) methods, hs, a, h => by
    obtain ⟨hK, hname, hsuperclass, hmethods⟩ := hs
    obtain ⟨ref, parent, rfl⟩ := hsuperclass superclass rfl
    refine List.forall_mem_append.mpr ⟨List.forall_mem_singleton.mpr ⟨by simp, by simp⟩, ?_⟩
    exact FunDecl.allHoused_of_quiet { at_ with cls := .derived } methods
      (fun _ hd => .derived (.call (hmethods.mem hd).params) hK hd (hΓ.declare hname)) hmethods _ h

lemma Stmt.allHoused_of_quiet (at_ : Surroundings) {Γ : LexicalContext}
    (hΓ : Γ.Inside K at_.cls) : (body : List Stmt) → Stmt.AllTidy K body → (a : Analysis) →
    (Stmt.analyseAll isGlobal at_ body a).errors = [] →
    ∀ site ∈ Stmt.sitesAll Γ body, site.Housed K
  | [], _, _, _ => List.forall_mem_nil _
  | s :: rest, hs, a, h => by
    have hfirst := quiet_before (Stmt.prefix_analyseAll isGlobal at_ rest _) h
    exact List.forall_mem_append.mpr ⟨s.housed_of_quiet at_ hΓ hs.1 a hfirst,
      Stmt.allHoused_of_quiet at_ (Stmt.inside_after hΓ hs.1) rest hs.2 _ h⟩

lemma FunDecl.housed_of_quiet (at_ : Surroundings) (context : FunctionContext)
    {Γ : LexicalContext} : {d : FunDecl} → LexicalContext.Inside K at_.cls (d.scope :: Γ) →
    d.Tidy K → (a : Analysis) → (d.analyse isGlobal at_ context a).errors = [] →
    ∀ site ∈ d.sites Γ, site.Housed K
  | .mk _ _ body, hΓ, hd, _, h => Stmt.allHoused_of_quiet
    { at_ with function := context, inLoop := false } hΓ body hd.2 _ h

lemma FunDecl.allHoused_of_quiet (at_ : Surroundings) {Γ : LexicalContext} : (ds : List FunDecl) →
    (∀ d ∈ ds, LexicalContext.Inside K at_.cls (d.scope :: d.receiverScope :: Γ)) →
    FunDecl.AllTidy K ds → (a : Analysis) → (FunDecl.analyseMethods isGlobal at_ ds a).errors = [] →
    ∀ site ∈ FunDecl.methodSites Γ ds, site.Housed K
  | [], _, _, _, _ => List.forall_mem_nil _
  | d :: rest, hΓ, hds, a, h => by
    have hfirst := quiet_before (FunDecl.prefix_analyseMethods isGlobal at_ rest _) h
    rw [List.forall_mem_cons] at hΓ
    exact List.forall_mem_append.mpr ⟨FunDecl.housed_of_quiet at_ _ hΓ.1 hds.1 a hfirst,
      FunDecl.allHoused_of_quiet at_ rest hΓ.2 hds.2 _ h⟩

end

/-- **Every `this` and `super` of a program without a complaint stands inside a method.** -/
lemma housed_of_quiet {program : List Stmt} (hprogram : Stmt.AllTidy K program)
    {distances : Distances} (h : (analyseProgram isGlobal program distances).errors = []) :
    ∀ site ∈ programSites program, site.Housed K :=
  Stmt.allHoused_of_quiet isGlobal .topLevel .top program hprogram _ h

end Quiet

end LoxLang
