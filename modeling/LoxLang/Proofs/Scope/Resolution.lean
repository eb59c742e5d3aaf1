import LoxLang.Proofs.Scope.Lexical
import LoxLang.Proofs.Syntax.Formation
import LoxLang.Scope.Analysis

/-!
# The analysis records what is visible

The walk over a program keeps a stack of scopes in which names are declared and defined one after
another.  At every place of the program that stack knows exactly the names of the lexical scopes
around the place (`Reflects`), so for every site the recorded distance is that of the visible
declaration, and there is none if there is no such declaration.

The walk goes on after a complaint, and then its records may be anything.  The complaints only
grow, so a walk that ends without one had none on the way.
-/

namespace LoxLang

/-! ## Complaints only grow -/

namespace Analysis

variable (a : Analysis)

lemma prefix_complain (token : Token) (cause : ResolutionCause) :
    a.errors <+: (a.complain token cause).errors := List.prefix_append _ _

lemma prefix_complain_if (c : Prop) [Decidable c] (token : Token) (cause : ResolutionCause) :
    a.errors <+: (if c then a.complain token cause else a).errors := by
  split
  · exact prefix_complain _ _ _
  · exact List.prefix_rfl

lemma prefix_declare (name : Token) : a.errors <+: (a.declare name).errors := by
  unfold declare
  split
  · exact List.prefix_rfl
  · split
    · exact prefix_complain _ _ _
    · exact List.prefix_rfl

@[simp] lemma errors_define (name : Token) : (a.define name).errors = a.errors := by
  unfold define
  split <;> rfl

lemma prefix_introduce (name : Token) : a.errors <+: (a.introduce name).errors := by
  rw [introduce, errors_define]
  exact prefix_declare a name

@[simp] lemma errors_bind (ref : RefId) (name : String) : (a.bind ref name).errors = a.errors := by
  unfold bind
  split <;> rfl

lemma prefix_read (isGlobal : String → Bool) (ref : RefId) (name : Token) :
    a.errors <+: (a.read isGlobal ref name).errors := by
  unfold read bindOuter
  split
  · split
    · exact List.prefix_rfl
    · split
      · exact List.prefix_rfl
      · exact prefix_complain _ _ _
  · have hsame := errors_bind a ref name.lexeme
    exact hsame ▸ List.prefix_rfl

lemma prefix_checkSuper (cls : ClassContext) (keyword : Token) :
    a.errors <+: (a.checkSuper cls keyword).errors := by
  cases cls
  · exact prefix_complain _ _ _
  · exact prefix_complain _ _ _
  · exact List.prefix_rfl

lemma prefix_introduceAll (params : List Token) :
    a.errors <+: (params.foldl introduce a).errors := by
  induction params generalizing a with
  | nil => exact List.prefix_rfl
  | cons name rest ih => exact (prefix_introduce a name).trans (ih _)

end Analysis

section Prefix

variable (isGlobal : String → Bool)

mutual

lemma Expr.prefix_analyse (at_ : Surroundings) : (e : Expr) → (a : Analysis) →
    a.errors <+: (e.analyse isGlobal at_ a).errors
  | .literal _, a => List.prefix_rfl
  | .grouping inner, a => inner.prefix_analyse at_ a
  | .unary _ right, a => right.prefix_analyse at_ a
  | .binary left _ right, a => (left.prefix_analyse at_ a).trans (right.prefix_analyse at_ _)
  | .logical left _ right, a => (left.prefix_analyse at_ a).trans (right.prefix_analyse at_ _)
  | .variable ref name, a => a.prefix_read isGlobal ref name
  | .assign ref name value, a => by
    rw [Expr.analyse, Analysis.errors_bind]
    exact value.prefix_analyse at_ a
  | .call callee _ arguments, a =>
    (callee.prefix_analyse at_ a).trans (Expr.prefix_analyseAll at_ arguments _)
  | .get object _, a => object.prefix_analyse at_ a
  | .set object _ value, a => (value.prefix_analyse at_ a).trans (object.prefix_analyse at_ _)
  | .this ref keyword, a => by
    rw [Expr.analyse]
    split
    · exact a.prefix_complain _ _
    · have hsame := a.errors_bind ref keyword.lexeme
      exact hsame ▸ List.prefix_rfl
  | .super ref keyword _, a => by
    rw [Expr.analyse, Analysis.errors_bind]
    exact a.prefix_checkSuper _ _

lemma Expr.prefix_analyseAll (at_ : Surroundings) : (es : List Expr) → (a : Analysis) →
    a.errors <+: (Expr.analyseAll isGlobal at_ es a).errors
  | [], _ => List.prefix_rfl
  | e :: rest, a => (e.prefix_analyse at_ a).trans (Expr.prefix_analyseAll at_ rest _)

end

mutual

lemma Stmt.prefix_analyse (at_ : Surroundings) : (s : Stmt) → (a : Analysis) →
    a.errors <+: (s.analyse isGlobal at_ a).errors
  | .expression e, a => e.prefix_analyse isGlobal at_ a
  | .print e, a => e.prefix_analyse isGlobal at_ a
  | .var name none, a => a.prefix_introduce name
  | .var name (some e), a => by
    rw [Stmt.analyse, Analysis.errors_define]
    exact (a.prefix_declare name).trans (e.prefix_analyse isGlobal at_ _)
  | .block body, a => Stmt.prefix_analyseAll at_ body (a.push [])
  | .ifThen condition thenBranch none, a =>
    (condition.prefix_analyse isGlobal at_ a).trans (thenBranch.prefix_analyse at_ _)
  | .ifThen condition thenBranch (some elseBranch), a =>
    ((condition.prefix_analyse isGlobal at_ a).trans (thenBranch.prefix_analyse at_ _)).trans
      (elseBranch.prefix_analyse at_ _)
  | .whileLoop condition body, a =>
    (condition.prefix_analyse isGlobal at_ a).trans (body.prefix_analyse _ _)
  | .breakLoop keyword, a => by
    rw [Stmt.analyse]
    split
    · exact List.prefix_rfl
    · exact a.prefix_complain _ _
  | .returnValue keyword none, a => a.prefix_complain_if _ _ _
  | .returnValue keyword (some e), a =>
    ((a.prefix_complain_if _ _ _).trans (Analysis.prefix_complain_if _ _ _ _)).trans
      (e.prefix_analyse isGlobal at_ _)
  | .function decl, a =>
    (a.prefix_introduce decl.name).trans (decl.prefix_analyse at_ .function _)
  | .classDecl name none methods, a =>
    (a.prefix_introduce name).trans
      (FunDecl.prefix_analyseMethods _ methods ((a.introduce name).push ["this"]))
  | .classDecl name (some superclass) methods, a => by
    have hsuperclass := superclass.prefix_analyse isGlobal { at_ with cls := .derived }
      (a.introduce name)
    refine ((a.prefix_introduce name).trans hsuperclass).trans ?_
    exact FunDecl.prefix_analyseMethods _ methods
      (((superclass.analyse isGlobal _ (a.introduce name)).push ["super"]).push ["this"])

lemma Stmt.prefix_analyseAll (at_ : Surroundings) : (body : List Stmt) → (a : Analysis) →
    a.errors <+: (Stmt.analyseAll isGlobal at_ body a).errors
  | [], _ => List.prefix_rfl
  | s :: rest, a => (s.prefix_analyse at_ a).trans (Stmt.prefix_analyseAll at_ rest _)

lemma FunDecl.prefix_analyse (at_ : Surroundings) (context : FunctionContext) :
    (d : FunDecl) → (a : Analysis) → a.errors <+: (d.analyse isGlobal at_ context a).errors
  | .mk _ params body, a =>
    ((a.push []).prefix_introduceAll params).trans (Stmt.prefix_analyseAll _ body _)

lemma FunDecl.prefix_analyseMethods (at_ : Surroundings) : (ds : List FunDecl) →
    (a : Analysis) → a.errors <+: (FunDecl.analyseMethods isGlobal at_ ds a).errors
  | [], _ => List.prefix_rfl
  | d :: rest, a => (d.prefix_analyse at_ _ a).trans (FunDecl.prefix_analyseMethods at_ rest _)

end

end Prefix

/-! ## The stack knows the names around a place -/

/-- The scope knows the names of a lexical scope, and which of them is declared but not defined. -/
def LocalScope.Knows (scope : LocalScope) (σ : LexicalScope) (pending : Option String) : Prop :=
  ∀ name, scope.find? name = if name ∈ σ.names then some (decide (pending ≠ some name)) else none

lemma LocalScope.Knows.contains {scope : LocalScope} {σ : LexicalScope} {pending : Option String}
    (h : scope.Knows σ pending) (name : String) : scope.contains name = σ.declares name := by
  rw [Bindings.contains, h name, LexicalScope.declares]
  by_cases hname : name ∈ σ.names
  · simp [hname]
  · simp [hname]

/-- **The stack of the walk reflects the scopes around a place.**  Only in the innermost scope can a
variable be pending. -/
inductive Reflects : List LocalScope → LexicalContext → Option String → Prop
  | nil : Reflects [] [] none
  | cons {scope scopes σ Γ pending} (hscope : LocalScope.Knows scope σ pending)
      (hpending : ∀ x, pending = some x → x ∈ σ.names) (h : Reflects scopes Γ none) :
      Reflects (scope :: scopes) (σ :: Γ) pending

lemma Bindings.find?_insertAll_const {α : Type} (names : List String) (value : α)
    (b : Bindings α) (name : String) :
    (b.insertAll (names.map fun n => (n, value))).find? name =
      if name ∈ names then some value else b.find? name := by
  induction names generalizing b with
  | nil => simp [insertAll]
  | cons n rest ih =>
    have hstep : b.insertAll ((n :: rest).map fun n => (n, value)) =
        (b.insert n value).insertAll (rest.map fun n => (n, value)) := rfl
    rw [hstep, ih]
    by_cases hname : name = n
    · subst hname
      simp
    · simp [hname, find?_insert_of_ne _ hname]

namespace Reflects

variable {a : Analysis} {scopes : List LocalScope} {Γ : LexicalContext} {pending : Option String}

lemma push (h : Reflects a.scopes Γ none) (region : Region) (names : List String) :
    Reflects (a.push names).scopes (⟨region, names⟩ :: Γ) none := by
  refine .cons (fun name => ?_) (by simp) h
  rw [Bindings.find?_insertAll_const]
  simp

lemma pop {σ : LexicalScope} (h : Reflects a.scopes (σ :: Γ) none) :
    Reflects a.pop.scopes Γ none := by
  unfold Analysis.pop
  rcases hscopes : a.scopes with _ | ⟨scope, scopes⟩
  · rw [hscopes] at h
    cases h
  · rw [hscopes] at h
    cases h with
    | cons _ _ h => exact h

lemma declare (h : Reflects a.scopes Γ none) (name : Token) :
    Reflects (a.declare name).scopes (Γ.declare name) (Γ.pending name) := by
  unfold Analysis.declare
  rcases hscopes : a.scopes with _ | ⟨scope, scopes⟩
  · rw [hscopes] at h
    cases h
    rw [hscopes]
    exact .nil
  · rw [hscopes] at h
    cases h with
    | @cons _ _ σ Γ _ hscope _ h =>
      have hdeclared : Reflects (scope.insert name.lexeme false :: scopes)
          (LexicalContext.declare (σ :: Γ) name) (some name.lexeme) := by
        refine .cons (fun other => ?_) (by simp) h
        by_cases hother : other = name.lexeme
        · subst hother
          simp
        · rw [Bindings.find?_insert_of_ne _ hother, hscope other]
          simp [hother, Ne.symm hother]
      simp only
      split <;> exact hdeclared

lemma define {name : Token} (h : Reflects a.scopes (Γ.declare name) (Γ.pending name)) :
    Reflects (a.define name).scopes (Γ.declare name) none := by
  unfold Analysis.define
  rcases hscopes : a.scopes with _ | ⟨scope, scopes⟩
  · rw [hscopes] at h
    rcases Γ with _ | ⟨σ, Γ⟩
    · simpa [hscopes, LexicalContext.pending] using h
    · cases h
  · rw [hscopes] at h
    rcases Γ with _ | ⟨σ, Γ⟩
    · cases h
    · cases h with
      | cons hscope _ h =>
        refine .cons (fun other => ?_) (by simp) h
        by_cases hother : other = name.lexeme
        · subst hother
          simp
        · rw [Bindings.find?_insert_of_ne _ hother, hscope other]
          simp [hother, LexicalContext.pending, Ne.symm hother]

lemma introduce (h : Reflects a.scopes Γ none) (name : Token) :
    Reflects (a.introduce name).scopes (Γ.declare name) none := (h.declare name).define

/-- The innermost scope with a name, looked for on either side. -/
lemma findIdx?_contains (h : Reflects scopes Γ pending) (name : String) :
    Analysis.distance? (·.contains name) scopes = Γ.findIdx? (·.declares name) := by
  induction h with
  | nil => rfl
  | @cons scope scopes σ Γ pending hscope _ _ ih =>
    simp only [Analysis.distance?, List.findIdx?_cons, hscope.contains name] at ih ⊢
    rw [ih]

/-- The innermost scope that has defined a name, when nothing is pending. -/
lemma findIdx?_defined (h : Reflects scopes Γ none) (name : String) :
    Analysis.distance? (·.find? name == some true) scopes =
      Γ.findIdx? (·.declares name) := by
  generalize hnone : (none : Option String) = pending at h
  induction h with
  | nil => rfl
  | @cons scope scopes σ Γ pending hscope _ _ ih =>
    have hdefined : (scope.find? name == some true) = σ.declares name := by
      rw [hscope name, LexicalScope.declares]
      by_cases hname : name ∈ σ.names <;> simp [hname, ← hnone]
    have ih := ih rfl
    simp only [Analysis.distance?, List.findIdx?_cons, hdefined] at ih ⊢
    rw [ih]

lemma isInitializing (h : Reflects a.scopes Γ pending) (name : String) :
    a.isInitializing name = decide (pending = some name) := by
  unfold Analysis.isInitializing
  rcases hscopes : a.scopes with _ | ⟨scope, scopes⟩
  · rw [hscopes] at h
    cases h
    simp
  · rw [hscopes] at h
    cases h with
    | @cons _ _ σ _ _ hscope hpending _ =>
      simp only
      rw [hscope name]
      by_cases hname : pending = some name
      · simp [hpending name hname, hname]
      · by_cases hmem : name ∈ σ.names <;> simp [hname, hmem]

lemma tail (h : Reflects scopes Γ pending) : Reflects scopes.tail Γ.tail none := by
  cases h with
  | nil => exact .nil
  | cons _ _ h => exact h

end Reflects

/-! ## What is recorded -/

/-- Records the distance of the visible declaration. -/
def Distances.recordSite (d : Distances) (s : Site) : Distances :=
  match s.visible? with
  | some k => d.record s.reference.ref k
  | none => d

namespace Reflects

variable {a : Analysis} {Γ : LexicalContext} {pending : Option String}

lemma distances_bind (h : Reflects a.scopes Γ pending) {use : ReferenceUse} (huse : use ≠ .read)
    (ref : RefId) (name : Token) : (a.bind ref name.lexeme).distances =
      a.distances.recordSite ⟨⟨use, ref, name⟩, Γ, pending⟩ := by
  have hvisible : Site.visible? ⟨⟨use, ref, name⟩, Γ, pending⟩ =
      Γ.findIdx? (·.declares name.lexeme) := by
    simp [Site.visible?, Site.isOwnRead, huse, Site.name]
  rw [Distances.recordSite, hvisible, Analysis.bind, h.findIdx?_contains]
  cases Γ.findIdx? (·.declares name.lexeme) <;> rfl

lemma distances_read (h : Reflects a.scopes Γ pending) (isGlobal : String → Bool) (ref : RefId)
    (name : Token) : (a.read isGlobal ref name).distances =
      a.distances.recordSite ⟨⟨.read, ref, name⟩, Γ, pending⟩ := by
  rw [Analysis.read, h.isInitializing]
  by_cases hown : pending = some name.lexeme
  · have hvisible : Site.visible? ⟨⟨.read, ref, name⟩, Γ, pending⟩ =
        (Γ.tail.findIdx? (·.declares name.lexeme)).map (· + 1) := by
      simp [Site.visible?, Site.isOwnRead, Site.name, hown]
    simp only [hown, decide_true, if_true]
    rw [Distances.recordSite, ← hown, hvisible, Analysis.bindOuter, h.tail.findIdx?_defined]
    cases Γ.tail.findIdx? (·.declares name.lexeme) with
    | some d => rfl
    | none =>
      simp only [Option.map_none]
      split <;> rfl
  · have hvisible : Site.visible? ⟨⟨.read, ref, name⟩, Γ, pending⟩ =
        Γ.findIdx? (·.declares name.lexeme) := by
      simp [Site.visible?, Site.isOwnRead, Site.name, hown]
    simp only [hown, decide_false, Bool.false_eq_true, if_false]
    rw [Distances.recordSite, hvisible, Analysis.bind, h.findIdx?_contains]
    cases Γ.findIdx? (·.declares name.lexeme) <;> rfl

end Reflects

/-! ## What is complained about -/

/-- **A declaration is complained about** if its scope has the name already. -/
lemma Reflects.errors_declare {a : Analysis} {Λ : LexicalContext} {pending : Option String}
    (h : Reflects a.scopes Λ pending) (t : Token) : (a.declare t).errors =
      if Λ.declaresHere t.lexeme = true then a.errors ++ [⟨t, .alreadyDeclared⟩] else a.errors := by
  generalize hscopes : a.scopes = scopes at h
  cases h with
  | nil =>
    rw [Analysis.declare, hscopes]
    rfl
  | @cons scope scopes σ Λ _ hknows _ _ =>
    have hhere : LexicalContext.declaresHere (σ :: Λ) t.lexeme = scope.contains t.lexeme :=
      (hknows.contains t.lexeme).symm
    rw [Analysis.declare, hscopes, hhere]
    by_cases hagain : scope.contains t.lexeme = true
    · simp only [if_pos hagain]
      rfl
    · simp only [if_neg hagain]

/-- What is declared without complaint was not there before. -/
lemma Reflects.not_mem_of_quiet {a : Analysis} {σ : LexicalScope} {Λ : LexicalContext}
    (h : Reflects a.scopes (σ :: Λ) none) {t : Token} (hquiet : (a.declare t).errors = []) :
    t.lexeme ∉ σ.names := by
  intro hmem
  have hhere : LexicalContext.declaresHere (σ :: Λ) t.lexeme = true := decide_eq_true hmem
  rw [h.errors_declare, if_pos hhere] at hquiet
  simp at hquiet

/-- **A read is complained about** if it stands in the initializer of the variable it names, and
neither a scope further out nor the top level has another one of that name. -/
lemma Reflects.errors_read {a : Analysis} {Λ : LexicalContext} {pending : Option String}
    (h : Reflects a.scopes Λ pending) (known : String → Bool) (ref : RefId) (t : Token) :
    (a.read known ref t).errors =
      if Site.isOwnRead ⟨⟨.read, ref, t⟩, Λ, pending⟩ = true ∧
          Site.visible? ⟨⟨.read, ref, t⟩, Λ, pending⟩ = none ∧
          ¬(t.lexeme ∈ a.topLevel ∨ known t.lexeme = true) then
        a.errors ++ [⟨t, .ownInitializer⟩]
      else a.errors := by
  rw [Analysis.read, h.isInitializing]
  by_cases hown : pending = some t.lexeme
  · have hread : Site.isOwnRead ⟨⟨.read, ref, t⟩, Λ, pending⟩ = true := by
      simp [Site.isOwnRead, Site.name, hown]
    have hvisible : Site.visible? ⟨⟨.read, ref, t⟩, Λ, pending⟩ =
        (Λ.tail.findIdx? (·.declares t.lexeme)).map (· + 1) := by
      rw [Site.visible?, if_pos hread]
      rfl
    rw [hvisible, hread, if_pos (decide_eq_true hown), Analysis.bindOuter,
      h.tail.findIdx?_defined]
    cases Λ.tail.findIdx? (·.declares t.lexeme) with
    | some d => simp
    | none =>
      by_cases hglobal : t.lexeme ∈ a.topLevel ∨ known t.lexeme = true
      · simp [hglobal]
      · simp [hglobal, Analysis.complain]
  · have hread : ¬Site.isOwnRead ⟨⟨.read, ref, t⟩, Λ, pending⟩ = true := by
      simp [Site.isOwnRead, Site.name, hown]
    rw [if_neg (by simpa using hown), a.errors_bind ref t.lexeme]
    exact (if_neg fun hcomplains => hread hcomplains.1).symm

namespace Analysis

@[simp] lemma topLevel_declare (a : Analysis) (t : Token) :
    (a.declare t).topLevel = a.topLevel := by
  unfold declare
  split
  · rfl
  · simp only
    split <;> rfl

@[simp] lemma topLevel_bind (a : Analysis) (ref : RefId) (name : String) :
    (a.bind ref name).topLevel = a.topLevel := by
  unfold bind
  split <;> rfl

@[simp] lemma topLevel_read (a : Analysis) (known : String → Bool) (ref : RefId) (t : Token) :
    (a.read known ref t).topLevel = a.topLevel := by
  unfold read bindOuter
  split
  · split
    · rfl
    · split <;> rfl
  · exact topLevel_bind a ref t.lexeme

@[simp] lemma topLevel_checkSuper (a : Analysis) (cls : ClassContext) (keyword : Token) :
    (a.checkSuper cls keyword).topLevel = a.topLevel := by
  cases cls <;> rfl

lemma subset_topLevel_define (a : Analysis) (t : Token) :
    a.topLevel ⊆ (a.define t).topLevel := by
  unfold define
  split
  · exact List.subset_cons_self _ _
  · exact List.Subset.refl _

/-- **What the walk knows to be a global**: what was defined at top level so far, and what earlier
units bound. -/
def Knows (a : Analysis) (isGlobal : String → Bool) (name : String) : Prop :=
  name ∈ a.topLevel ∨ isGlobal name = true

lemma Knows.mono {a a' : Analysis} {isGlobal : String → Bool} {name : String}
    (h : a.Knows isGlobal name) (hsubset : a.topLevel ⊆ a'.topLevel) : a'.Knows isGlobal name :=
  h.imp_left fun hname => hsubset hname

end Analysis

/-- A read that is not complained about is answered by what the walk knows. -/
lemma Reflects.answered_read {a : Analysis} {Λ : LexicalContext} {pending : Option String}
    (h : Reflects a.scopes Λ pending) {isGlobal : String → Bool} {ref : RefId} {t : Token}
    (hquiet : (a.read isGlobal ref t).errors = []) :
    Site.Answered (a.Knows isGlobal) ⟨⟨.read, ref, t⟩, Λ, pending⟩ := by
  intro hown hvisible
  by_contra hunknown
  rw [h.errors_read, if_pos ⟨hown, hvisible, hunknown⟩] at hquiet
  simp at hquiet

/-! ## Walks over expressions -/

@[simp] lemma Analysis.scopes_bind (a : Analysis) (ref : RefId) (name : String) :
    (a.bind ref name).scopes = a.scopes := by
  unfold Analysis.bind
  split <;> rfl

@[simp] lemma Analysis.scopes_read (a : Analysis) (isGlobal : String → Bool) (ref : RefId)
    (name : Token) : (a.read isGlobal ref name).scopes = a.scopes := by
  unfold Analysis.read Analysis.bindOuter
  split
  · split
    · rfl
    · split <;> rfl
  · exact scopes_bind a ref name.lexeme

@[simp] lemma Analysis.scopes_checkSuper (a : Analysis) (cls : ClassContext) (keyword : Token) :
    (a.checkSuper cls keyword).scopes = a.scopes := by
  cases cls <;> rfl

lemma Analysis.checkSuper_of_errors {a : Analysis} {cls : ClassContext} {keyword : Token}
    (h : (a.checkSuper cls keyword).errors = []) : a.checkSuper cls keyword = a := by
  cases cls <;> simp_all [Analysis.checkSuper, Analysis.complain]

section Expressions

variable (isGlobal : String → Bool) (at_ : Surroundings)

mutual

@[simp] lemma Expr.scopes_analyse : (e : Expr) → (a : Analysis) →
    (e.analyse isGlobal at_ a).scopes = a.scopes
  | .literal _, _ => rfl
  | .grouping inner, a => inner.scopes_analyse a
  | .unary _ right, a => right.scopes_analyse a
  | .binary left _ right, a => (right.scopes_analyse _).trans (left.scopes_analyse a)
  | .logical left _ right, a => (right.scopes_analyse _).trans (left.scopes_analyse a)
  | .variable ref name, a => a.scopes_read isGlobal ref name
  | .assign ref name value, a => (Analysis.scopes_bind _ ref _).trans (value.scopes_analyse a)
  | .call callee _ arguments, a =>
    (Expr.scopes_analyseAll arguments _).trans (callee.scopes_analyse a)
  | .get object _, a => object.scopes_analyse a
  | .set object _ value, a => (object.scopes_analyse _).trans (value.scopes_analyse a)
  | .this ref keyword, a => by
    rw [Expr.analyse]
    split
    · rfl
    · exact a.scopes_bind ref _
  | .super ref keyword _, a =>
    (Analysis.scopes_bind _ ref _).trans (a.scopes_checkSuper at_.cls keyword)

@[simp] lemma Expr.scopes_analyseAll : (es : List Expr) → (a : Analysis) →
    (Expr.analyseAll isGlobal at_ es a).scopes = a.scopes
  | [], _ => rfl
  | e :: rest, a => (Expr.scopes_analyseAll rest _).trans (e.scopes_analyse a)

end

/-- Nothing was complained about before a walk that ends without a complaint. -/
lemma quiet_before {a a' : Analysis} (h : a.errors <+: a'.errors) (hquiet : a'.errors = []) :
    a.errors = [] := by
  rw [hquiet] at h
  exact List.prefix_nil.mp h

mutual

/-- The walk over an expression records its sites. -/
lemma Expr.distances_analyse {Γ : LexicalContext} {pending : Option String} : (e : Expr) →
    (a : Analysis) → Reflects a.scopes Γ pending → (e.analyse isGlobal at_ a).errors = [] →
    (e.analyse isGlobal at_ a).distances = (e.sites Γ pending).foldl .recordSite a.distances
  | .literal _, _, _, _ => rfl
  | .grouping inner, a, h, hquiet => inner.distances_analyse a h hquiet
  | .unary _ right, a, h, hquiet => right.distances_analyse a h hquiet
  | .binary left _ right, a, h, hquiet => by
    have hleft := left.distances_analyse a h
      (quiet_before (right.prefix_analyse isGlobal at_ _) hquiet)
    have hright := right.distances_analyse (left.analyse isGlobal at_ a) (by simpa using h) hquiet
    rw [Expr.analyse, hright, hleft, Expr.sites, List.foldl_append]
  | .logical left _ right, a, h, hquiet => by
    have hleft := left.distances_analyse a h
      (quiet_before (right.prefix_analyse isGlobal at_ _) hquiet)
    have hright := right.distances_analyse (left.analyse isGlobal at_ a) (by simpa using h) hquiet
    rw [Expr.analyse, hright, hleft, Expr.sites, List.foldl_append]
  | .variable ref name, a, h, _ => h.distances_read isGlobal ref name
  | .assign ref name value, a, h, hquiet => by
    rw [Expr.analyse, Analysis.errors_bind] at hquiet
    have hvalue := value.distances_analyse a h hquiet
    have h' : Reflects (value.analyse isGlobal at_ a).scopes Γ pending := by simpa using h
    rw [Expr.analyse, h'.distances_bind (by simp : ReferenceUse.assign ≠ .read), hvalue, Expr.sites,
      List.foldl_append]
    rfl
  | .call callee _ arguments, a, h, hquiet => by
    have hcallee := callee.distances_analyse a h
      (quiet_before (Expr.prefix_analyseAll isGlobal at_ arguments _) hquiet)
    have harguments := Expr.distances_analyseAll arguments (callee.analyse isGlobal at_ a)
      (by simpa using h) hquiet
    rw [Expr.analyse, harguments, hcallee, Expr.sites, List.foldl_append]
  | .get object _, a, h, hquiet => object.distances_analyse a h hquiet
  | .set object _ value, a, h, hquiet => by
    have hvalue := value.distances_analyse a h
      (quiet_before (object.prefix_analyse isGlobal at_ _) hquiet)
    have hobject :=
      object.distances_analyse (value.analyse isGlobal at_ a) (by simpa using h) hquiet
    rw [Expr.analyse, hobject, hvalue, Expr.sites, List.foldl_append]
  | .this ref keyword, a, h, hquiet => by
    rw [Expr.analyse] at hquiet ⊢
    split at hquiet
    · simp [Analysis.complain] at hquiet
    · next hcls =>
      rw [if_neg hcls, h.distances_bind (by simp : ReferenceUse.this ≠ .read)]
      rfl
  | .super ref keyword _, a, h, hquiet => by
    rw [Expr.analyse, Analysis.errors_bind] at hquiet
    rw [Expr.analyse, Analysis.checkSuper_of_errors hquiet,
      h.distances_bind (by simp : ReferenceUse.super ≠ .read)]
    rfl

lemma Expr.distances_analyseAll {Γ : LexicalContext} {pending : Option String} :
    (es : List Expr) → (a : Analysis) → Reflects a.scopes Γ pending →
    (Expr.analyseAll isGlobal at_ es a).errors = [] →
    (Expr.analyseAll isGlobal at_ es a).distances =
      (Expr.sitesAll Γ pending es).foldl .recordSite a.distances
  | [], _, _, _ => rfl
  | e :: rest, a, h, hquiet => by
    have hfirst := e.distances_analyse a h
      (quiet_before (Expr.prefix_analyseAll isGlobal at_ rest _) hquiet)
    have hrest :=
      Expr.distances_analyseAll rest (e.analyse isGlobal at_ a) (by simpa using h) hquiet
    rw [Expr.analyseAll, hrest, hfirst, Expr.sitesAll, List.foldl_append]

end

mutual

/-- The walk over an expression defines nothing. -/
@[simp] lemma Expr.topLevel_analyse : (e : Expr) → (a : Analysis) →
    (e.analyse isGlobal at_ a).topLevel = a.topLevel
  | .literal _, _ => rfl
  | .grouping inner, a => inner.topLevel_analyse a
  | .unary _ right, a => right.topLevel_analyse a
  | .binary left _ right, a | .logical left _ right, a =>
    (right.topLevel_analyse _).trans (left.topLevel_analyse a)
  | .variable ref name, a => a.topLevel_read isGlobal ref name
  | .assign ref name value, a => (Analysis.topLevel_bind _ ref _).trans (value.topLevel_analyse a)
  | .call callee _ arguments, a =>
    (Expr.topLevel_analyseAll arguments _).trans (callee.topLevel_analyse a)
  | .get object _, a => object.topLevel_analyse a
  | .set object _ value, a => (object.topLevel_analyse _).trans (value.topLevel_analyse a)
  | .this ref keyword, a => by
    rw [Expr.analyse]
    split
    · rfl
    · exact a.topLevel_bind ref _
  | .super ref keyword _, a =>
    (Analysis.topLevel_bind _ ref _).trans (a.topLevel_checkSuper at_.cls keyword)

@[simp] lemma Expr.topLevel_analyseAll : (es : List Expr) → (a : Analysis) →
    (Expr.analyseAll isGlobal at_ es a).topLevel = a.topLevel
  | [], _ => rfl
  | e :: rest, a => (Expr.topLevel_analyseAll rest _).trans (e.topLevel_analyse a)

end

lemma Expr.knows_analyse (e : Expr) (a : Analysis) :
    (e.analyse isGlobal at_ a).Knows isGlobal = a.Knows isGlobal := by
  funext name
  rw [Analysis.Knows, e.topLevel_analyse, Analysis.Knows]

/-- A reference that is no read is answered by anything. -/
lemma answered_of_ne_read {known : String → Prop} {s : Site} (h : s.reference.use ≠ .read) :
    s.Answered known := by
  intro hown
  simp [Site.isOwnRead, h] at hown

mutual

/-- **The walk over an expression answers its sites**, or else it complains. -/
lemma Expr.answered_analyse {Γ : LexicalContext} {pending : Option String} : (e : Expr) →
    (a : Analysis) → Reflects a.scopes Γ pending → (e.analyse isGlobal at_ a).errors = [] →
    ∀ s ∈ e.sites Γ pending, s.Answered (a.Knows isGlobal)
  | .literal _, _, _, _ => List.forall_mem_nil _
  | .grouping inner, a, h, hquiet => inner.answered_analyse a h hquiet
  | .unary _ right, a, h, hquiet => right.answered_analyse a h hquiet
  | .binary left _ right, a, h, hquiet | .logical left _ right, a, h, hquiet => by
    have hright := right.answered_analyse (left.analyse isGlobal at_ a) (by simpa using h) hquiet
    rw [left.knows_analyse] at hright
    refine List.forall_mem_append.mpr ⟨left.answered_analyse a h ?_, hright⟩
    exact quiet_before (right.prefix_analyse isGlobal at_ _) hquiet
  | .variable ref name, a, h, hquiet => List.forall_mem_singleton.mpr (h.answered_read hquiet)
  | .assign ref name value, a, h, hquiet => by
    rw [Expr.analyse, Analysis.errors_bind] at hquiet
    refine List.forall_mem_append.mpr ⟨value.answered_analyse a h hquiet, ?_⟩
    exact List.forall_mem_singleton.mpr (answered_of_ne_read (by simp))
  | .call callee _ arguments, a, h, hquiet => by
    have harguments := Expr.answered_analyseAll arguments (callee.analyse isGlobal at_ a)
      (by simpa using h) hquiet
    rw [callee.knows_analyse] at harguments
    refine List.forall_mem_append.mpr ⟨callee.answered_analyse a h ?_, harguments⟩
    exact quiet_before (Expr.prefix_analyseAll isGlobal at_ arguments _) hquiet
  | .get object _, a, h, hquiet => object.answered_analyse a h hquiet
  | .set object _ value, a, h, hquiet => by
    have hobject :=
      object.answered_analyse (value.analyse isGlobal at_ a) (by simpa using h) hquiet
    rw [value.knows_analyse] at hobject
    refine List.forall_mem_append.mpr ⟨value.answered_analyse a h ?_, hobject⟩
    exact quiet_before (object.prefix_analyse isGlobal at_ _) hquiet
  | .this _ _, _, _, _ | .super _ _ _, _, _, _ =>
    List.forall_mem_singleton.mpr (answered_of_ne_read (by simp))

lemma Expr.answered_analyseAll {Γ : LexicalContext} {pending : Option String} :
    (es : List Expr) → (a : Analysis) → Reflects a.scopes Γ pending →
    (Expr.analyseAll isGlobal at_ es a).errors = [] →
    ∀ s ∈ Expr.sitesAll Γ pending es, s.Answered (a.Knows isGlobal)
  | [], _, _, _ => List.forall_mem_nil _
  | e :: rest, a, h, hquiet => by
    have hrest := Expr.answered_analyseAll rest (e.analyse isGlobal at_ a) (by simpa using h) hquiet
    rw [e.knows_analyse] at hrest
    refine List.forall_mem_append.mpr ⟨e.answered_analyse a h ?_, hrest⟩
    exact quiet_before (Expr.prefix_analyseAll isGlobal at_ rest _) hquiet

end

end Expressions

/-! ## Walks over statements -/

/-- A walk from `a` to `a'` that records and answers `sites` and ends where the scopes around are
`Γ`. -/
structure Walked (isGlobal : String → Bool) (a a' : Analysis) (Γ : LexicalContext)
    (sites : List Site) : Prop where
  reflects : Reflects a'.scopes Γ none
  distances : a'.distances = sites.foldl .recordSite a.distances
  ownOnce : ∀ s ∈ sites, s.OwnOnce
  topLevel : a.topLevel ⊆ a'.topLevel
  answered : ∀ s ∈ sites, s.Answered (a'.Knows isGlobal)

namespace Walked

variable {isGlobal : String → Bool} {a a₁ a₂ : Analysis} {Γ Γ₁ Γ₂ : LexicalContext}
  {sites sites₁ sites₂ : List Site}

lemma refl (h : Reflects a.scopes Γ none) : Walked isGlobal a a Γ [] :=
  ⟨h, rfl, List.forall_mem_nil _, List.Subset.refl _, List.forall_mem_nil _⟩

lemma trans (h₁ : Walked isGlobal a a₁ Γ₁ sites₁) (h₂ : Walked isGlobal a₁ a₂ Γ₂ sites₂) :
    Walked isGlobal a a₂ Γ₂ (sites₁ ++ sites₂) where
  reflects := h₂.reflects
  distances := by rw [h₂.distances, h₁.distances, List.foldl_append]
  ownOnce := List.forall_mem_append.mpr ⟨h₁.ownOnce, h₂.ownOnce⟩
  topLevel := List.Subset.trans h₁.topLevel h₂.topLevel
  answered := List.forall_mem_append.mpr
    ⟨fun s hs => (h₁.answered s hs).mono fun _ hname => hname.mono h₂.topLevel, h₂.answered⟩

lemma pop {σ : LexicalScope} (h : Walked isGlobal a a₁ (σ :: Γ) sites) :
    Walked isGlobal a a₁.pop Γ sites :=
  ⟨h.reflects.pop, h.distances, h.ownOnce, h.topLevel, h.answered⟩

lemma push (h : Walked isGlobal a a₁ Γ sites) (region : Region) (names : List String) :
    Walked isGlobal a (a₁.push names) (⟨region, names⟩ :: Γ) sites :=
  ⟨h.reflects.push region names, h.distances, h.ownOnce, h.topLevel, h.answered⟩

end Walked

section Statements

variable (isGlobal : String → Bool) {Γ : LexicalContext} {a : Analysis}

lemma distances_declare (a : Analysis) (name : Token) :
    (a.declare name).distances = a.distances := by
  unfold Analysis.declare
  split
  · rfl
  · simp only
    split <;> rfl

lemma distances_define (a : Analysis) (name : Token) :
    (a.define name).distances = a.distances := by
  unfold Analysis.define
  split <;> rfl

lemma walked_introduce (h : Reflects a.scopes Γ none) (name : Token) :
    Walked isGlobal a (a.introduce name) (Γ.declare name) [] where
  reflects := h.introduce name
  distances := by
    rw [Analysis.introduce, distances_define, distances_declare]
    rfl
  ownOnce := List.forall_mem_nil _
  topLevel := by
    have hdefined := (a.declare name).subset_topLevel_define name
    rwa [Analysis.topLevel_declare] at hdefined
  answered := List.forall_mem_nil _

lemma walked_push (h : Reflects a.scopes Γ none) (region : Region) (names : List String) :
    Walked isGlobal a (a.push names) (⟨region, names⟩ :: Γ) [] := (Walked.refl h).push region names

lemma walked_introduceAll {σ : LexicalScope} (h : Reflects a.scopes (σ :: Γ) none)
    (params : List Token) : Walked isGlobal a (params.foldl .introduce a)
      ({ σ with names := (params.map Token.lexeme).reverse ++ σ.names } :: Γ) [] := by
  induction params generalizing a σ with
  | nil => exact .refl h
  | cons name rest ih =>
    have hfirst := walked_introduce isGlobal h name
    have hrest := hfirst.trans (ih hfirst.reflects)
    simpa [LexicalContext.declare] using hrest

/-- The stack knows names, not regions, and knows them in no order. -/
lemma Reflects.rename {scopes : List LocalScope} {σ τ : LexicalScope}
    (h : Reflects scopes (σ :: Γ) none) (hnames : ∀ name, name ∈ σ.names ↔ name ∈ τ.names) :
    Reflects scopes (τ :: Γ) none := by
  cases h with
  | cons hscope _ h =>
    refine .cons (fun name => ?_) (by simp) h
    rw [hscope name]
    simp [hnames name]

lemma walked_expression (e : Expr) (at_ : Surroundings) (h : Reflects a.scopes Γ none)
    (hquiet : (e.analyse isGlobal at_ a).errors = []) :
    Walked isGlobal a (e.analyse isGlobal at_ a) Γ (e.sites Γ none) := by
  refine ⟨by simpa using h, e.distances_analyse isGlobal at_ a h hquiet, fun s hs x hx => ?_,
    by simp, fun s hs => Site.answered_of_pending (e.place_of_mem_sites s hs).2⟩
  rw [(e.place_of_mem_sites s hs).2] at hx
  cases hx

/-- A local variable that is declared without complaint is the only one of its name. -/
lemma ownOnce_initializer {e : Expr} {name : Token} (h : Reflects a.scopes Γ none)
    (hquiet : (a.declare name).errors = []) :
    ∀ s ∈ e.sites (Γ.declare name) (Γ.pending name), s.OwnOnce := by
  intro s hs x hx
  obtain ⟨hscopes, hpending⟩ := e.place_of_mem_sites s hs
  rw [hpending] at hx
  rcases Γ with _ | ⟨σ, outer⟩
  · cases hx
  · cases hx
    have hnew := h.not_mem_of_quiet hquiet
    refine ⟨_, outer, hscopes, ?_⟩
    rw [List.count_cons_self, List.count_eq_zero.mpr hnew]

lemma Stmt.after_of_isDeclaration {s : Stmt} (h : s.isDeclaration = false) : s.after Γ = Γ := by
  cases s <;> simp_all [Stmt.isDeclaration, Stmt.after]

end Statements

section Walks

variable (isGlobal : String → Bool) {P : Token → Prop}

mutual

/-- **The walk over a statement records its sites.** -/
lemma Stmt.walked {Γ : LexicalContext} (at_ : Surroundings) : (s : Stmt) → (a : Analysis) →
    s.Formed P → Reflects a.scopes Γ none → (s.analyse isGlobal at_ a).errors = [] →
    Walked isGlobal a (s.analyse isGlobal at_ a) (s.after Γ) (s.sites Γ)
  | .expression e, a, _, h, hquiet => walked_expression isGlobal e at_ h hquiet
  | .print e, a, _, h, hquiet => walked_expression isGlobal e at_ h hquiet
  | .var name none, a, _, h, _ => walked_introduce isGlobal h name
  | .var name (some e), a, _, h, hquiet => by
    rw [Stmt.analyse, Analysis.errors_define] at hquiet
    have hreflects : Reflects (e.analyse isGlobal at_ (a.declare name)).scopes (Γ.declare name)
        (Γ.pending name) := by simpa using h.declare name
    have hdeclared := quiet_before (e.prefix_analyse isGlobal at_ _) hquiet
    have hdefined := (e.analyse isGlobal at_ (a.declare name)).subset_topLevel_define name
    rw [e.topLevel_analyse, Analysis.topLevel_declare] at hdefined
    refine ⟨hreflects.define, ?_, ownOnce_initializer h hdeclared, hdefined, fun s hs => ?_⟩
    · rw [Stmt.analyse, distances_define,
        e.distances_analyse isGlobal at_ _ (h.declare name) hquiet, distances_declare]
      rfl
    · have hanswered := e.answered_analyse isGlobal at_ (a.declare name) (h.declare name) hquiet
      refine (hanswered s hs).mono fun _ hname => hname.mono ?_
      rwa [Analysis.topLevel_declare]
  | .block body, a, hformed, h, hquiet => by
    have hpush := walked_push isGlobal h (.block body) []
    have hbody := hpush.trans (Stmt.walkedAll at_ body (a.push []) hformed hpush.reflects hquiet)
    obtain ⟨names, hafter⟩ := Stmt.exists_afterAll ⟨.block body, []⟩ Γ body
    rw [hafter] at hbody
    exact hbody.pop
  | .ifThen condition thenBranch none, a, hformed, h, hquiet => by
    obtain ⟨-, hthen, hdecl⟩ := hformed
    have hcondition := walked_expression isGlobal condition at_ h
      (quiet_before (thenBranch.prefix_analyse isGlobal at_ _) hquiet)
    have hbranch := Stmt.walked at_ thenBranch _ hthen hcondition.reflects hquiet
    rw [Stmt.after_of_isDeclaration hdecl] at hbranch
    exact hcondition.trans hbranch
  | .ifThen condition thenBranch (some elseBranch), a, hformed, h, hquiet => by
    obtain ⟨-, ⟨hthen, hthenDecl⟩, helse, helseDecl⟩ := hformed
    have hquietThen := quiet_before (elseBranch.prefix_analyse isGlobal at_ _) hquiet
    have hcondition := walked_expression isGlobal condition at_ h
      (quiet_before (thenBranch.prefix_analyse isGlobal at_ _) hquietThen)
    have hfirst := Stmt.walked at_ thenBranch _ hthen hcondition.reflects hquietThen
    rw [Stmt.after_of_isDeclaration hthenDecl] at hfirst
    have hsecond := Stmt.walked at_ elseBranch _ helse hfirst.reflects hquiet
    rw [Stmt.after_of_isDeclaration helseDecl] at hsecond
    exact (hcondition.trans hfirst).trans hsecond
  | .whileLoop condition body, a, hformed, h, hquiet => by
    obtain ⟨-, hbody, hdecl⟩ := hformed
    have hcondition := walked_expression isGlobal condition at_ h
      (quiet_before (body.prefix_analyse isGlobal _ _) hquiet)
    have hround := Stmt.walked _ body _ hbody hcondition.reflects hquiet
    rw [Stmt.after_of_isDeclaration hdecl] at hround
    exact hcondition.trans hround
  | .breakLoop keyword, a, _, h, hquiet => by
    rw [Stmt.analyse] at hquiet ⊢
    split at hquiet
    · next hloop =>
      rw [if_pos hloop]
      exact .refl h
    · simp [Analysis.complain] at hquiet
  | .returnValue keyword none, a, _, h, hquiet => by
    rw [Stmt.analyse] at hquiet ⊢
    split at hquiet
    · simp [Analysis.complain] at hquiet
    · next hplace =>
      rw [if_neg hplace]
      exact .refl h
  | .returnValue keyword (some e), a, _, h, hquiet => by
    rw [Stmt.analyse] at hquiet ⊢
    have hquiet' := quiet_before (e.prefix_analyse isGlobal at_ _) hquiet
    split at hquiet'
    · simp [Analysis.complain] at hquiet'
    · next hinit =>
      split at hquiet'
      · simp [Analysis.complain] at hquiet'
      · next hplace =>
        simp only [hplace, hinit, if_false] at hquiet ⊢
        exact walked_expression isGlobal e at_ h hquiet
  | .function decl, a, hformed, h, hquiet => by
    have hname := walked_introduce isGlobal h decl.name
    exact hname.trans (FunDecl.walked at_ .function decl _ hformed hname.reflects hquiet)
  | .classDecl name none methods, a, hformed, h, hquiet => by
    have hname := (walked_introduce isGlobal h name).push (.parent name methods) ["this"]
    have hmethods := FunDecl.walkedMethods _ _ methods _ hformed.2.2 hname.reflects hquiet
    exact (hname.trans hmethods).pop
  | .classDecl name (some superclass) methods, a, hformed, h, hquiet => by
    have hname := walked_introduce isGlobal h name
    let at_' : Surroundings := { at_ with cls := .derived }
    have hprefix := FunDecl.prefix_analyseMethods isGlobal at_' methods
      (((superclass.analyse isGlobal at_' (a.introduce name)).push ["super"]).push ["this"])
    have hsuperclass := hname.trans
      (walked_expression isGlobal superclass at_' hname.reflects (quiet_before hprefix hquiet))
    have hparent := hsuperclass.push (.parent name methods) ["super"]
    have hthis := hparent.push (.parent name methods) ["this"]
    have hmethods := FunDecl.walkedMethods _ _ methods _ hformed.2.2 hthis.reflects hquiet
    exact (hthis.trans hmethods).pop.pop

/-- The walk over statements records their sites. -/
lemma Stmt.walkedAll {Γ : LexicalContext} (at_ : Surroundings) : (body : List Stmt) →
    (a : Analysis) → Stmt.AllFormed P body → Reflects a.scopes Γ none →
    (Stmt.analyseAll isGlobal at_ body a).errors = [] →
    Walked isGlobal a (Stmt.analyseAll isGlobal at_ body a) (Stmt.afterAll Γ body)
      (Stmt.sitesAll Γ body)
  | [], a, _, h, _ => .refl h
  | s :: rest, a, hformed, h, hquiet => by
    have hfirst := Stmt.walked at_ s a hformed.1 h
      (quiet_before (Stmt.prefix_analyseAll isGlobal at_ rest _) hquiet)
    exact hfirst.trans (Stmt.walkedAll at_ rest _ hformed.2 hfirst.reflects hquiet)

/-- The walk over a function records its sites. -/
lemma FunDecl.walked {Γ : LexicalContext} (at_ : Surroundings) (context : FunctionContext) :
    (d : FunDecl) → (a : Analysis) → d.Formed P → Reflects a.scopes Γ none →
    (d.analyse isGlobal at_ context a).errors = [] →
    Walked isGlobal a (d.analyse isGlobal at_ context a) Γ (d.sites Γ)
  | .mk name params body, a, hformed, h, hquiet => by
    have hpush := walked_push isGlobal h (.call (.mk name params body)) []
    have hparams := hpush.trans (walked_introduceAll isGlobal hpush.reflects params)
    have hscope : Reflects (params.foldl Analysis.introduce (a.push [])).scopes
        ((FunDecl.mk name params body).scope :: Γ) none :=
      hparams.reflects.rename (by simp [FunDecl.scope, FunDecl.params])
    have hbody := Stmt.walkedAll _ body _ hformed.2.2 hscope hquiet
    obtain ⟨names, hafter⟩ := Stmt.exists_afterAll (FunDecl.mk name params body).scope Γ body
    rw [hafter] at hbody
    exact (hparams.trans hbody).pop

/-- The walk over methods records their sites.  The walk has one scope of the instance for all of
them, where each method lexically has its own. -/
lemma FunDecl.walkedMethods {Γ : LexicalContext} (at_ : Surroundings) (region : Region) :
    (ds : List FunDecl) → (a : Analysis) → FunDecl.AllFormed P ds →
    Reflects a.scopes (⟨region, ["this"]⟩ :: Γ) none →
    (FunDecl.analyseMethods isGlobal at_ ds a).errors = [] →
    Walked isGlobal a (FunDecl.analyseMethods isGlobal at_ ds a) (⟨region, ["this"]⟩ :: Γ)
      (FunDecl.methodSites Γ ds)
  | [], _, _, h, _ => .refl h
  | d :: rest, a, hformed, h, hquiet => by
    have hscope : Reflects a.scopes (d.receiverScope :: Γ) none := h.rename fun _ => Iff.rfl
    have hfirst := FunDecl.walked at_ _ d a hformed.1 hscope
      (quiet_before (FunDecl.prefix_analyseMethods isGlobal at_ rest _) hquiet)
    have hback : Reflects (d.analyse isGlobal at_ _ a).scopes (⟨region, ["this"]⟩ :: Γ) none :=
      hfirst.reflects.rename fun _ => Iff.rfl
    have hrest := FunDecl.walkedMethods at_ region rest _ hformed.2 hback hquiet
    exact hfirst.trans hrest

end

end Walks

/-! ## Every reference is a site -/

section References

mutual

/-- Sites are listed in the order in which they are resolved, references in that of the source. -/
lemma Expr.perm_sites (Γ : LexicalContext) (pending : Option String) : (e : Expr) →
    ((e.sites Γ pending).map Site.reference).Perm e.references
  | .literal _ => .nil
  | .grouping inner => inner.perm_sites Γ pending
  | .unary _ right => right.perm_sites Γ pending
  | .binary left _ right | .logical left _ right => by
    rw [Expr.sites, List.map_append]
    exact (left.perm_sites Γ pending).append (right.perm_sites Γ pending)
  | .variable _ _ | .this _ _ | .super _ _ _ => .refl _
  | .assign ref name value => by
    rw [Expr.sites, List.map_append]
    exact ((value.perm_sites Γ pending).append_right _).trans List.perm_append_comm
  | .call callee _ arguments => by
    rw [Expr.sites, List.map_append]
    exact (callee.perm_sites Γ pending).append (Expr.perm_sitesAll Γ pending arguments)
  | .get object _ => object.perm_sites Γ pending
  | .set object _ value => by
    rw [Expr.sites, List.map_append]
    exact ((value.perm_sites Γ pending).append (object.perm_sites Γ pending)).trans
      List.perm_append_comm

lemma Expr.perm_sitesAll (Γ : LexicalContext) (pending : Option String) : (es : List Expr) →
    ((Expr.sitesAll Γ pending es).map Site.reference).Perm (Expr.allReferences es)
  | [] => .nil
  | e :: rest => by
    rw [Expr.sitesAll, List.map_append]
    exact (e.perm_sites Γ pending).append (Expr.perm_sitesAll Γ pending rest)

end

mutual

lemma Stmt.perm_sites (Γ : LexicalContext) : (s : Stmt) →
    ((s.sites Γ).map Site.reference).Perm s.references
  | .expression e | .print e | .returnValue _ (some e) => e.perm_sites Γ none
  | .var _ none | .breakLoop _ | .returnValue _ none => .nil
  | .var _ (some e) => e.perm_sites _ _
  | .block body => Stmt.perm_sitesAll _ body
  | .ifThen condition thenBranch none => by
    rw [Stmt.sites, List.map_append]
    exact (condition.perm_sites Γ none).append (thenBranch.perm_sites Γ)
  | .ifThen condition thenBranch (some elseBranch) => by
    rw [Stmt.sites, List.map_append, List.map_append]
    exact ((condition.perm_sites Γ none).append (thenBranch.perm_sites Γ)).append
      (elseBranch.perm_sites Γ)
  | .whileLoop condition body => by
    rw [Stmt.sites, List.map_append]
    exact (condition.perm_sites Γ none).append (body.perm_sites Γ)
  | .function decl => decl.perm_sites _
  | .classDecl _ none methods => FunDecl.perm_methodSites _ methods
  | .classDecl _ (some superclass) methods => by
    rw [Stmt.sites, List.map_append]
    exact (superclass.perm_sites _ none).append (FunDecl.perm_methodSites _ methods)

lemma Stmt.perm_sitesAll (Γ : LexicalContext) : (body : List Stmt) →
    ((Stmt.sitesAll Γ body).map Site.reference).Perm (Stmt.allReferences body)
  | [] => .nil
  | s :: rest => by
    rw [Stmt.sitesAll, List.map_append]
    exact (s.perm_sites Γ).append (Stmt.perm_sitesAll _ rest)

lemma FunDecl.perm_sites (Γ : LexicalContext) : (d : FunDecl) →
    ((d.sites Γ).map Site.reference).Perm d.references
  | .mk _ _ body => Stmt.perm_sitesAll _ body

lemma FunDecl.perm_methodSites (Γ : LexicalContext) : (ds : List FunDecl) →
    ((FunDecl.methodSites Γ ds).map Site.reference).Perm (FunDecl.allReferences ds)
  | [] => .nil
  | d :: rest => by
    rw [FunDecl.methodSites, List.map_append]
    exact (d.perm_sites _).append (FunDecl.perm_methodSites Γ rest)

end

end References

/-! ## Only the references of a program are recorded -/

section Untouched

variable {ref : RefId}

namespace Analysis

lemma find?_bind (a : Analysis) {other : RefId} (h : ref ≠ other) (name : String) :
    (a.bind other name).distances.find? ref = a.distances.find? ref := by
  unfold bind
  split
  · exact Distances.find?_record_of_ne _ h _
  · rfl

lemma find?_read (a : Analysis) (isGlobal : String → Bool) {other : RefId} (h : ref ≠ other)
    (name : Token) :
    (a.read isGlobal other name).distances.find? ref = a.distances.find? ref := by
  unfold read bindOuter
  split
  · split
    · exact Distances.find?_record_of_ne _ h _
    · split <;> rfl
  · exact find?_bind a h _

@[simp] lemma distances_checkSuper (a : Analysis) (cls : ClassContext) (keyword : Token) :
    (a.checkSuper cls keyword).distances = a.distances := by
  cases cls <;> rfl

@[simp] lemma distances_introduce (a : Analysis) (name : Token) :
    (a.introduce name).distances = a.distances := by
  rw [introduce, distances_define, distances_declare]

@[simp] lemma distances_introduceAll (a : Analysis) (params : List Token) :
    (params.foldl introduce a).distances = a.distances := by
  induction params generalizing a with
  | nil => rfl
  | cons name rest ih => rw [List.foldl_cons, ih, distances_introduce]

end Analysis

variable (isGlobal : String → Bool)

mutual

lemma Expr.find?_analyse (at_ : Surroundings) : (e : Expr) → (a : Analysis) →
    (∀ r ∈ e.references, ref ≠ r.ref) →
    (e.analyse isGlobal at_ a).distances.find? ref = a.distances.find? ref
  | .literal _, _, _ => rfl
  | .grouping inner, a, h => inner.find?_analyse at_ a h
  | .unary _ right, a, h => right.find?_analyse at_ a h
  | .binary left _ right, a, h | .logical left _ right, a, h => by
    simp only [Expr.references, List.forall_mem_append] at h
    rw [Expr.analyse, right.find?_analyse at_ _ h.2, left.find?_analyse at_ a h.1]
  | .variable other name, a, h => by
    rw [Expr.analyse, a.find?_read isGlobal (h ⟨.read, other, name⟩ (List.mem_singleton_self _))]
  | .assign other name value, a, h => by
    simp only [Expr.references, List.forall_mem_cons] at h
    rw [Expr.analyse, Analysis.find?_bind _ h.1, value.find?_analyse at_ a h.2]
  | .call callee _ arguments, a, h => by
    simp only [Expr.references, List.forall_mem_append] at h
    rw [Expr.analyse, Expr.find?_analyseAll at_ arguments _ h.2, callee.find?_analyse at_ a h.1]
  | .get object _, a, h => object.find?_analyse at_ a h
  | .set object _ value, a, h => by
    simp only [Expr.references, List.forall_mem_append] at h
    rw [Expr.analyse, object.find?_analyse at_ _ h.1, value.find?_analyse at_ a h.2]
  | .this other keyword, a, h => by
    rw [Expr.analyse]
    split
    · rfl
    · exact a.find?_bind (h ⟨.this, other, keyword⟩ (List.mem_singleton_self _)) _
  | .super other keyword method, a, h => by
    rw [Expr.analyse,
      Analysis.find?_bind _ (h ⟨.super, other, keyword⟩ (List.mem_singleton_self _)),
      Analysis.distances_checkSuper]

lemma Expr.find?_analyseAll (at_ : Surroundings) : (es : List Expr) → (a : Analysis) →
    (∀ r ∈ Expr.allReferences es, ref ≠ r.ref) →
    (Expr.analyseAll isGlobal at_ es a).distances.find? ref = a.distances.find? ref
  | [], _, _ => rfl
  | e :: rest, a, h => by
    simp only [Expr.allReferences, List.forall_mem_append] at h
    rw [Expr.analyseAll, Expr.find?_analyseAll at_ rest _ h.2, e.find?_analyse at_ a h.1]

end

mutual

lemma Stmt.find?_analyse (at_ : Surroundings) : (s : Stmt) → (a : Analysis) →
    (∀ r ∈ s.references, ref ≠ r.ref) →
    (s.analyse isGlobal at_ a).distances.find? ref = a.distances.find? ref
  | .expression e, a, h | .print e, a, h => e.find?_analyse isGlobal at_ a h
  | .var name none, a, _ => by rw [Stmt.analyse, Analysis.distances_introduce]
  | .var name (some e), a, h => by
    rw [Stmt.analyse, distances_define, e.find?_analyse isGlobal at_ _ h, distances_declare]
  | .block body, a, h => Stmt.find?_analyseAll at_ body (a.push []) h
  | .ifThen condition thenBranch none, a, h => by
    simp only [Stmt.references, List.forall_mem_append] at h
    rw [Stmt.analyse, thenBranch.find?_analyse at_ _ h.2,
      condition.find?_analyse isGlobal at_ a h.1]
  | .ifThen condition thenBranch (some elseBranch), a, h => by
    simp only [Stmt.references, List.forall_mem_append] at h
    rw [Stmt.analyse, elseBranch.find?_analyse at_ _ h.2, thenBranch.find?_analyse at_ _ h.1.2,
      condition.find?_analyse isGlobal at_ a h.1.1]
  | .whileLoop condition body, a, h => by
    simp only [Stmt.references, List.forall_mem_append] at h
    rw [Stmt.analyse, body.find?_analyse _ _ h.2, condition.find?_analyse isGlobal at_ a h.1]
  | .breakLoop keyword, a, _ => by
    rw [Stmt.analyse]
    split <;> rfl
  | .returnValue keyword none, a, _ => by
    simp only [Stmt.analyse]
    split <;> rfl
  | .returnValue keyword (some e), a, h => by
    simp only [Stmt.analyse]
    rw [e.find?_analyse isGlobal at_ _ h]
    split <;> split <;> rfl
  | .function decl, a, h => by
    rw [Stmt.analyse, decl.find?_analyse at_ .function _ h, Analysis.distances_introduce]
  | .classDecl name none methods, a, h => by
    have hmethods := FunDecl.find?_analyseMethods { at_ with cls := .base } methods
      ((a.introduce name).push ["this"]) h
    rw [Stmt.analyse]
    exact hmethods.trans (by rw [Analysis.push, Analysis.distances_introduce])
  | .classDecl name (some superclass) methods, a, h => by
    simp only [Stmt.references, List.forall_mem_append] at h
    have hmethods := FunDecl.find?_analyseMethods { at_ with cls := .derived } methods
      (((superclass.analyse isGlobal { at_ with cls := .derived } (a.introduce name)).push
        ["super"]).push ["this"]) h.2
    have hsuperclass := superclass.find?_analyse isGlobal { at_ with cls := .derived }
      (a.introduce name) h.1
    rw [Analysis.distances_introduce] at hsuperclass
    exact hmethods.trans hsuperclass

lemma Stmt.find?_analyseAll (at_ : Surroundings) : (body : List Stmt) → (a : Analysis) →
    (∀ r ∈ Stmt.allReferences body, ref ≠ r.ref) →
    (Stmt.analyseAll isGlobal at_ body a).distances.find? ref = a.distances.find? ref
  | [], _, _ => rfl
  | s :: rest, a, h => by
    simp only [Stmt.allReferences, List.forall_mem_append] at h
    rw [Stmt.analyseAll, Stmt.find?_analyseAll at_ rest _ h.2, s.find?_analyse at_ a h.1]

lemma FunDecl.find?_analyse (at_ : Surroundings) (context : FunctionContext) : (d : FunDecl) →
    (a : Analysis) → (∀ r ∈ d.references, ref ≠ r.ref) →
    (d.analyse isGlobal at_ context a).distances.find? ref = a.distances.find? ref
  | .mk _ params body, a, h => by
    have hbody := Stmt.find?_analyseAll { at_ with function := context, inLoop := false } body
      (params.foldl Analysis.introduce (a.push [])) h
    rw [Analysis.distances_introduceAll] at hbody
    exact hbody

lemma FunDecl.find?_analyseMethods (at_ : Surroundings) : (ds : List FunDecl) →
    (a : Analysis) → (∀ r ∈ FunDecl.allReferences ds, ref ≠ r.ref) →
    (FunDecl.analyseMethods isGlobal at_ ds a).distances.find? ref = a.distances.find? ref
  | [], _, _ => rfl
  | d :: rest, a, h => by
    simp only [FunDecl.allReferences, List.forall_mem_append] at h
    rw [FunDecl.analyseMethods, FunDecl.find?_analyseMethods at_ rest _ h.2,
      d.find?_analyse at_ _ a h.1]

end

end Untouched

/-! ## Programs -/

namespace Distances

lemma find?_recordSite_of_ne (d : Distances) {s : Site} {ref : RefId}
    (h : ref ≠ s.reference.ref) : (d.recordSite s).find? ref = d.find? ref := by
  unfold recordSite
  split
  · exact find?_record_of_ne d h _
  · rfl

lemma find?_recordSite_self (d : Distances) (s : Site) (h : d.find? s.reference.ref = none) :
    (d.recordSite s).find? s.reference.ref = s.visible? := by
  unfold recordSite
  split
  · next k hvisible => rw [find?_record_self, hvisible]
  · next hvisible => rw [h, hvisible]

lemma find?_recordSites_of_ne (sites : List Site) (d : Distances) {ref : RefId}
    (h : ∀ s ∈ sites, ref ≠ s.reference.ref) :
    (sites.foldl recordSite d).find? ref = d.find? ref := by
  induction sites generalizing d with
  | nil => rfl
  | cons s rest ih =>
    rw [List.forall_mem_cons] at h
    rw [List.foldl_cons, ih _ h.2, find?_recordSite_of_ne d h.1]

/-- Sites that are numbered apart do not overwrite each other's record. -/
lemma find?_recordSites (sites : List Site) (d : Distances)
    (hapart : (sites.map (·.reference.ref)).Nodup)
    (hfree : ∀ s ∈ sites, d.find? s.reference.ref = none) :
    ∀ s ∈ sites, (sites.foldl recordSite d).find? s.reference.ref = s.visible? := by
  induction sites generalizing d with
  | nil => simp
  | cons first rest ih =>
    rw [List.map_cons, List.nodup_cons] at hapart
    rw [List.forall_mem_cons] at hfree ⊢
    have hne : ∀ s ∈ rest, first.reference.ref ≠ s.reference.ref := fun s hs heq =>
      hapart.1 (List.mem_map.mpr ⟨s, hs, heq.symm⟩)
    refine ⟨?_, ih (d.recordSite first) hapart.2 fun s hs => ?_⟩
    · rw [List.foldl_cons, find?_recordSites_of_ne rest _ hne,
        find?_recordSite_self d first hfree.1]
    · rw [find?_recordSite_of_ne d (hne s hs).symm]
      exact hfree.2 s hs

end Distances

section Programs

variable {n n' : RefId} {ts : List Token} {program : List Stmt} {isGlobal : String → Bool}
  {distances : Distances}

/-- The sites of a program that was read are numbered apart. -/
lemma Derives.numbered_programSites (h : Derives .declarations n ts n' program) :
    Numbered n n' ((programSites program).map Site.reference) :=
  h.numbered.perm (Stmt.perm_sitesAll [] program).symm

/-- An analysis leaves alone what other programs have recorded. -/
lemma Derives.find?_analyseProgram (h : Derives .declarations n ts n' program) {ref : Nat}
    (href : ref < n ∨ n' ≤ ref) :
    (analyseProgram isGlobal program distances).distances.find? ref = distances.find? ref := by
  refine Stmt.find?_analyseAll isGlobal .topLevel program ⟨[], [], distances, []⟩ ?_
  intro r hr heq
  have hbounds := h.numbered.bounds r hr
  rcases href with href | href
  · exact Nat.not_lt.mpr hbounds.1 (heq ▸ href)
  · exact Nat.not_lt.mpr href (heq ▸ hbounds.2)

/-- **The analysis records what is visible**: after an analysis without complaint the table has,
for every site of the program, the distance of the visible declaration. -/
lemma find?_programSite {P : Token → Prop} (hformed : Stmt.AllFormed P program)
    (hnumbered : Numbered n n' (Stmt.allReferences program))
    (hquiet : (analyseProgram isGlobal program distances).errors = [])
    (hfree : ∀ ref : Nat, n ≤ ref → distances.find? ref = none) :
    ∀ s ∈ programSites program,
      (analyseProgram isGlobal program distances).distances.find? s.reference.ref = s.visible? := by
  have hsites := hnumbered.perm (Stmt.perm_sitesAll [] program).symm
  have hwalked := Stmt.walkedAll isGlobal .topLevel program ⟨[], [], distances, []⟩ hformed .nil
    hquiet
  rw [analyseProgram, hwalked.distances]
  refine Distances.find?_recordSites _ distances ?_ ?_
  · have hnodup := hsites.nodup
    rwa [List.map_map] at hnodup
  · intro s hs
    exact hfree _ (hsites.bounds _ (List.mem_map_of_mem hs)).1

lemma Derives.find?_site (h : Derives .declarations n ts n' program)
    (hquiet : (analyseProgram isGlobal program distances).errors = [])
    (hfree : ∀ ref : Nat, n ≤ ref → distances.find? ref = none) :
    ∀ s ∈ programSites program,
      (analyseProgram isGlobal program distances).distances.find? s.reference.ref = s.visible? :=
  find?_programSite (Stmt.allFormed_of_areNormal program h.fits) h.numbered hquiet hfree

end Programs

end LoxLang
