import LoxLang.Proofs.Scope.Resolution
import LoxLang.Proofs.Syntax.Likeness

/-!
# The analysis of programs that are alike

Two walks over programs that are alike, with nothing renamed, go step by step.  What each single
step keeps, the walk over a whole program keeps (`Analysis.Steps`); so a relation between walks is
shown to hold in the end by one lemma for each step.

The walks may differ in what is global: one may take the names of an earlier program from its own
record of the top level, and the other from what the run of that program has bound.  So long as
every name that counts as global in one walk counts as global in the other, the second has nothing
to complain about that the first had not (`Analysis.Like`).

What a program binds at top level is read off its statements (`Stmt.binds`): that is all that the
walk can add to its record of the top level, and all that a run can bind globally.
-/

namespace LoxLang

/-! ## Walks over programs that are alike -/

/-- **A relation between two walks that every step keeps.**  `known` and `known'` are the names that
earlier units have bound. -/
structure Analysis.Steps (ρ : Likeness) (known known' : String → Bool)
    (S : Analysis → Analysis → Prop) : Prop where
  complain : ∀ {a a' t t'}, S a a' → ρ.Same t t' → ∀ cause,
    S (a.complain t cause) (a'.complain t' cause)
  push : ∀ {a a'}, S a a' → ∀ names, S (a.push names) (a'.push names)
  pop : ∀ {a a'}, S a a' → S a.pop a'.pop
  declare : ∀ {a a' t t'}, S a a' → ρ.Same t t' → S (a.declare t) (a'.declare t')
  define : ∀ {a a' t t'}, S a a' → ρ.Same t t' → S (a.define t) (a'.define t')
  bind : ∀ {a a' ref ref'}, S a a' → ρ.ref ref ref' → ∀ name,
    S (a.bind ref name) (a'.bind ref' name)
  read : ∀ {a a' ref ref' t t'}, S a a' → ρ.ref ref ref' → ρ.Same t t' →
    S (a.read known ref t) (a'.read known' ref' t')

/-- Nothing is renamed, and every reference may be global. -/
structure Likeness.Keeps (ρ : Likeness) : Prop where
  renames : ∀ {π}, ρ.renames π → π = Renaming.identity
  distance : ∀ ref, ρ.distance ref none

lemma Likeness.Keeps.same {ρ : Likeness} (hρ : ρ.Keeps) {Γ : List Renaming} {ref ref' : RefId}
    {t t' : Token} (h : ρ.Refers Γ ref t ref' t') : ρ.Same t t' :=
  ⟨h.token, h.lexeme (hρ.distance ref)⟩

lemma Likeness.Named.same {ρ : Likeness} {Γ : List Renaming} (hΓ : Plain Γ) {t t' : Token}
    (h : ρ.Named (renamingAt Γ (some 0)) t t') : ρ.Same t t' :=
  ⟨h.token, by rw [h.lexeme, hΓ.renamingAt]; rfl⟩

namespace Analysis.Steps

variable {ρ : Likeness} {known known' : String → Bool} {S : Analysis → Analysis → Prop}
  (h : Analysis.Steps ρ known known' S) {a a' : Analysis}

include h

lemma introduce {t t' : Token} (ha : S a a') (ht : ρ.Same t t') :
    S (a.introduce t) (a'.introduce t') := h.define (h.declare ha ht) ht

lemma introduceAll {params params' : List Token} (hparams : List.Forall₂ ρ.Same params params')
    (ha : S a a') :
    S (params.foldl Analysis.introduce a) (params'.foldl Analysis.introduce a') := by
  induction hparams generalizing a a' with
  | nil => exact ha
  | cons hname _ ih => exact ih (h.introduce ha hname)

lemma complain_if (ha : S a a') (c : Prop) [Decidable c] {t t' : Token} (ht : ρ.Same t t')
    (cause : ResolutionCause) :
    S (if c then a.complain t cause else a) (if c then a'.complain t' cause else a') := by
  by_cases hc : c
  · simp only [if_pos hc]
    exact h.complain ha ht cause
  · simp only [if_neg hc]
    exact ha

lemma checkSuper (ha : S a a') (cls : ClassContext) {t t' : Token} (ht : ρ.Same t t') :
    S (a.checkSuper cls t) (a'.checkSuper cls t') := by
  cases cls with
  | none | base => exact h.complain ha ht _
  | derived => exact ha

end Analysis.Steps

section Walks

variable {ρ : Likeness} {known known' : String → Bool} {S : Analysis → Analysis → Prop}

mutual

lemma Expr.steps_analyse (hS : Analysis.Steps ρ known known' S) (hρ : ρ.Keeps)
    (at_ : Surroundings) : (e : Expr) → {Γ : List Renaming} → {e' : Expr} →
    {a a' : Analysis} → e.Like ρ Γ e' → S a a' →
    S (e.analyse known at_ a) (e'.analyse known' at_ a')
  | .literal _, _, _, _, _, .literal _, h => h
  | .grouping inner, _, _, _, _, .grouping hinner, h => by
    simp only [Expr.analyse]
    exact inner.steps_analyse hS hρ at_ hinner h
  | .unary _ right, _, _, _, _, .unary _ hright, h => by
    simp only [Expr.analyse]
    exact right.steps_analyse hS hρ at_ hright h
  | .binary left _ right, _, _, _, _, .binary hleft _ hright, h => by
    simp only [Expr.analyse]
    exact right.steps_analyse hS hρ at_ hright (left.steps_analyse hS hρ at_ hleft h)
  | .logical left _ right, _, _, _, _, .logical hleft _ hright, h => by
    simp only [Expr.analyse]
    exact right.steps_analyse hS hρ at_ hright (left.steps_analyse hS hρ at_ hleft h)
  | .variable _ _, _, _, _, _, .variable hname, h => hS.read h hname.number (hρ.same hname)
  | .assign _ name value, _, _, _, _, .assign hname hvalue, h => by
    simp only [Expr.analyse, (hρ.same hname).lexeme]
    exact hS.bind (value.steps_analyse hS hρ at_ hvalue h) hname.number name.lexeme
  | .call callee _ arguments, _, _, _, _, .call hcallee _ harguments, h => by
    simp only [Expr.analyse]
    exact Expr.steps_analyseAll hS hρ at_ arguments harguments
      (callee.steps_analyse hS hρ at_ hcallee h)
  | .get object _, _, _, _, _, .get hobject _, h => by
    simp only [Expr.analyse]
    exact object.steps_analyse hS hρ at_ hobject h
  | .set object _ value, _, _, _, _, .set hobject _ hvalue, h => by
    simp only [Expr.analyse]
    exact object.steps_analyse hS hρ at_ hobject (value.steps_analyse hS hρ at_ hvalue h)
  | .this _ keyword, _, _, _, _, .this hkeyword, h => by
    simp only [Expr.analyse, (hρ.same hkeyword).lexeme]
    split
    · exact hS.complain h (hρ.same hkeyword) _
    · exact hS.bind h hkeyword.number keyword.lexeme
  | .super _ keyword _, _, _, _, _, .super href hkeyword _, h => by
    simp only [Expr.analyse, hkeyword.lexeme]
    exact hS.bind (hS.checkSuper h at_.cls hkeyword) href keyword.lexeme

lemma Expr.steps_analyseAll (hS : Analysis.Steps ρ known known' S) (hρ : ρ.Keeps)
    (at_ : Surroundings) : (es : List Expr) → {Γ : List Renaming} →
    {es' : List Expr} → {a a' : Analysis} → List.Forall₂ (Expr.Like ρ Γ) es es' → S a a' →
    S (Expr.analyseAll known at_ es a) (Expr.analyseAll known' at_ es' a')
  | [], _, _, _, _, .nil, h => h
  | e :: rest, _, _, _, _, .cons he hrest, h => by
    simp only [Expr.analyseAll]
    exact Expr.steps_analyseAll hS hρ at_ rest hrest (e.steps_analyse hS hρ at_ he h)

end

mutual

lemma Stmt.steps_analyse (hS : Analysis.Steps ρ known known' S) (hρ : ρ.Keeps)
    (at_ : Surroundings) : (s : Stmt) → {Γ : List Renaming} → {s' : Stmt} →
    {a a' : Analysis} → Plain Γ → s.Like ρ Γ s' → S a a' →
    S (s.analyse known at_ a) (s'.analyse known' at_ a')
  | .expression e, _, _, _, _, _, .expression he, h => by
    simp only [Stmt.analyse]
    exact e.steps_analyse hS hρ at_ he h
  | .print e, _, _, _, _, _, .print he, h => by
    simp only [Stmt.analyse]
    exact e.steps_analyse hS hρ at_ he h
  | .var _ none, _, _, _, _, hΓ, .var hname .none, h => hS.introduce h (hname.same hΓ)
  | .var _ (some e), _, _, _, _, hΓ, .var hname (.some he), h => by
    simp only [Stmt.analyse]
    have hsame := hname.same hΓ
    exact hS.define (e.steps_analyse hS hρ at_ he (hS.declare h hsame)) hsame
  | .block body, _, _, _, _, hΓ, .block hπ hbody, h => by
    simp only [Stmt.analyse]
    have hinside := hρ.renames hπ ▸ hbody
    exact hS.pop (Stmt.steps_analyseAll hS hρ at_ body hΓ.cons hinside (hS.push h []))
  | .ifThen condition thenBranch none, _, _, _, _, hΓ, .ifThen hcondition hthen, h => by
    simp only [Stmt.analyse]
    exact thenBranch.steps_analyse hS hρ at_ hΓ hthen
      (condition.steps_analyse hS hρ at_ hcondition h)
  | .ifThen condition thenBranch (some elseBranch), _, _, _, _, hΓ, .ifElse hcondition hthen helse,
      h => by
    simp only [Stmt.analyse]
    exact elseBranch.steps_analyse hS hρ at_ hΓ helse (thenBranch.steps_analyse hS hρ at_ hΓ hthen
      (condition.steps_analyse hS hρ at_ hcondition h))
  | .whileLoop condition body, _, _, _, _, hΓ, .whileLoop hcondition hbody, h => by
    simp only [Stmt.analyse]
    exact body.steps_analyse hS hρ _ hΓ hbody (condition.steps_analyse hS hρ at_ hcondition h)
  | .breakLoop _, _, _, _, _, _, .breakLoop hkeyword, h => by
    simp only [Stmt.analyse]
    split
    · exact h
    · exact hS.complain h hkeyword _
  | .returnValue _ none, _, _, _, _, _, .returnValue hkeyword .none, h =>
    hS.complain_if h _ hkeyword _
  | .returnValue _ (some e), _, _, _, _, _, .returnValue hkeyword (.some he), h => by
    simp only [Stmt.analyse]
    exact e.steps_analyse hS hρ at_ he
      (hS.complain_if (hS.complain_if h _ hkeyword _) _ hkeyword _)
  | .function decl, _, _, _, _, hΓ, .function hdecl _, h => by
    simp only [Stmt.analyse]
    exact decl.steps_analyse hS hρ at_ .function hΓ hdecl (hS.introduce h hdecl.name)
  | .classDecl _ none methods, _, _, _, _, hΓ, .baseClass hname _ hmethods, h => by
    simp only [Stmt.analyse]
    exact hS.pop (FunDecl.steps_analyseMethods hS hρ _ methods hΓ.cons hmethods
      (hS.push (hS.introduce h hname) ["this"]))
  | .classDecl _ (some superclass) methods, _, _, _, _, hΓ,
      .derivedClass hname _ hsuperclass hmethods, h => by
    simp only [Stmt.analyse]
    have hsuper := superclass.steps_analyse hS hρ { at_ with cls := .derived } hsuperclass
      (hS.introduce h hname)
    exact hS.pop (hS.pop (FunDecl.steps_analyseMethods hS hρ _ methods hΓ.cons.cons hmethods
      (hS.push (hS.push hsuper ["super"]) ["this"])))
termination_by structural s => s

lemma Stmt.steps_analyseAll (hS : Analysis.Steps ρ known known' S) (hρ : ρ.Keeps)
    (at_ : Surroundings) : (body : List Stmt) → {Γ : List Renaming} →
    {body' : List Stmt} → {a a' : Analysis} → Plain Γ → Stmt.LikeAll ρ Γ body body' → S a a' →
    S (Stmt.analyseAll known at_ body a) (Stmt.analyseAll known' at_ body' a')
  | [], _, _, _, _, _, .nil, h => h
  | s :: rest, _, _, _, _, hΓ, .cons hs hrest, h => by
    simp only [Stmt.analyseAll]
    exact Stmt.steps_analyseAll hS hρ at_ rest hΓ hrest (s.steps_analyse hS hρ at_ hΓ hs h)
termination_by structural body => body

lemma FunDecl.steps_analyse (hS : Analysis.Steps ρ known known' S) (hρ : ρ.Keeps)
    (at_ : Surroundings) (context : FunctionContext) : (d : FunDecl) →
    {Γ : List Renaming} → {d' : FunDecl} → {a a' : Analysis} → Plain Γ → d.Like ρ Γ d' → S a a' →
    S (d.analyse known at_ context a) (d'.analyse known' at_ context a')
  | .mk _ _ body, _, _, _, _, hΓ, .mk hπ _ hparams hbody, h => by
    simp only [FunDecl.analyse]
    obtain rfl := hρ.renames hπ
    have hsame := hparams.imp fun _ _ hp => Likeness.Same.mk hp.token hp.lexeme
    exact hS.pop (Stmt.steps_analyseAll hS hρ _ body hΓ.cons hbody
      (hS.introduceAll hsame (hS.push h [])))
termination_by structural d => d

lemma FunDecl.steps_analyseMethods (hS : Analysis.Steps ρ known known' S) (hρ : ρ.Keeps)
    (at_ : Surroundings) : (ds : List FunDecl) →
    {Γ : List Renaming} → {ds' : List FunDecl} → {a a' : Analysis} → Plain Γ →
    FunDecl.LikeAll ρ Γ ds ds' → S a a' →
    S (FunDecl.analyseMethods known at_ ds a) (FunDecl.analyseMethods known' at_ ds' a')
  | [], _, _, _, _, _, .nil, h => h
  | d :: rest, _, _, _, _, hΓ, .cons hd hrest, h => by
    simp only [FunDecl.analyseMethods, hd.isInitializer]
    exact FunDecl.steps_analyseMethods hS hρ at_ rest hΓ hrest (d.steps_analyse hS hρ at_ _ hΓ hd h)
termination_by structural ds => ds

end

end Walks

/-! ## What is global in one walk and in the other -/

/-- **The second walk is where the first is**, and has no complaint that the first had not.  `known`
and `known'` are the names that earlier units have bound. -/
structure Analysis.Like (known known' : String → Bool) (a a' : Analysis) : Prop where
  scopes : a'.scopes = a.scopes
  distances : a'.distances = a.distances
  global : ∀ name, name ∈ a.topLevel ∨ known name = true → name ∈ a'.topLevel ∨ known' name = true
  quiet : a.errors = [] → a'.errors = []

namespace Analysis.Like

variable {known known' : String → Bool} {a a' : Analysis} {t t' : Token}

lemma complain (h : Analysis.Like known known' a a') (t t' : Token) (cause : ResolutionCause) :
    Analysis.Like known known' (a.complain t cause) (a'.complain t' cause) :=
  ⟨h.scopes, h.distances, h.global, by simp [Analysis.complain]⟩

/-- The first walk may complain alone. -/
lemma complain_left (h : Analysis.Like known known' a a') (t : Token) (cause : ResolutionCause) :
    Analysis.Like known known' (a.complain t cause) a' :=
  ⟨h.scopes, h.distances, h.global, by simp [Analysis.complain]⟩

lemma complain_if (h : Analysis.Like known known' a a') (c : Prop) [Decidable c]
    (cause : ResolutionCause) : Analysis.Like known known' (if c then a.complain t cause else a)
      (if c then a'.complain t' cause else a') := by
  by_cases hc : c
  · simp only [if_pos hc]
    exact h.complain t t' cause
  · simp only [if_neg hc]
    exact h

lemma push (h : Analysis.Like known known' a a') (names : List String) :
    Analysis.Like known known' (a.push names) (a'.push names) :=
  ⟨by simp only [Analysis.push, h.scopes], h.distances, h.global, h.quiet⟩

lemma pop (h : Analysis.Like known known' a a') : Analysis.Like known known' a.pop a'.pop :=
  ⟨by simp only [Analysis.pop, h.scopes], h.distances, h.global, h.quiet⟩

lemma declare (h : Analysis.Like known known' a a') (ht : t'.lexeme = t.lexeme) :
    Analysis.Like known known' (a.declare t) (a'.declare t') := by
  simp only [Analysis.declare, h.scopes, ht]
  rcases a.scopes with _ | ⟨scope, outer⟩
  · exact h
  · have hdeclared : Analysis.Like known known'
        { a with scopes := scope.insert t.lexeme false :: outer }
        { a' with scopes := scope.insert t.lexeme false :: outer } :=
      ⟨rfl, h.distances, h.global, h.quiet⟩
    exact hdeclared.complain_if _ _

lemma define (h : Analysis.Like known known' a a') (ht : t'.lexeme = t.lexeme) :
    Analysis.Like known known' (a.define t) (a'.define t') := by
  simp only [Analysis.define, h.scopes, ht]
  rcases a.scopes with _ | ⟨scope, outer⟩
  · refine ⟨rfl, h.distances, fun name hname => ?_, h.quiet⟩
    simp only [List.mem_cons] at hname ⊢
    rcases hname with (hname | hname) | hname
    · exact .inl (.inl hname)
    · exact (h.global name (.inl hname)).imp_left .inr
    · exact (h.global name (.inr hname)).imp_left .inr
  · exact ⟨rfl, h.distances, h.global, h.quiet⟩

lemma bind (h : Analysis.Like known known' a a') (ref : RefId) (name : String) :
    Analysis.Like known known' (a.bind ref name) (a'.bind ref name) := by
  simp only [Analysis.bind, h.scopes]
  split
  · exact ⟨rfl, by simp only [h.distances], h.global, h.quiet⟩
  · exact h

lemma bindOuter (h : Analysis.Like known known' a a') (ref : RefId) (ht : t'.lexeme = t.lexeme) :
    Analysis.Like known known' (a.bindOuter known ref t) (a'.bindOuter known' ref t') := by
  simp only [Analysis.bindOuter, h.scopes, ht]
  split
  · exact ⟨rfl, by simp only [h.distances], h.global, h.quiet⟩
  · by_cases hknown : t.lexeme ∈ a.topLevel ∨ known t.lexeme = true
    · have hknown' := h.global _ hknown
      rw [if_pos (by simpa using hknown), if_pos (by simpa using hknown')]
      exact h
    · -- Only the first walk is sure to complain, and that is enough.
      rw [if_neg (by simpa using hknown)]
      split
      · exact h.complain_left t _
      · exact h.complain t t' _

lemma read (h : Analysis.Like known known' a a') (ref : RefId) (ht : t'.lexeme = t.lexeme) :
    Analysis.Like known known' (a.read known ref t) (a'.read known' ref t') := by
  have hinitializing : a'.isInitializing t'.lexeme = a.isInitializing t.lexeme := by
    simp only [Analysis.isInitializing, h.scopes, ht]
  rw [Analysis.read, Analysis.read, hinitializing]
  split
  · exact h.bindOuter ref ht
  · rw [ht]
    exact h.bind ref t.lexeme

/-- The relation is kept where numbers stay as they are. -/
lemma steps {ρ : Likeness} (href : ∀ {ref ref'}, ρ.ref ref ref' → ref' = ref) :
    Analysis.Steps ρ known known' (Analysis.Like known known') where
  complain h _ cause := h.complain _ _ cause
  push h names := h.push names
  pop h := h.pop
  declare h ht := h.declare ht.lexeme
  define h ht := h.define ht.lexeme
  bind h hnumber name := href hnumber ▸ h.bind _ name
  read h hnumber ht := href hnumber ▸ h.read _ ht.lexeme

end Analysis.Like

/-! ## What is bound at top level -/

/-- The names that a statement binds in the scope it stands in. -/
def Stmt.binds : Stmt → List String
  | .var name _ => [name.lexeme]
  | .function decl => [decl.name.lexeme]
  | .classDecl name _ _ => [name.lexeme]
  | .ifThen _ thenBranch none => thenBranch.binds
  | .ifThen _ thenBranch (some elseBranch) => thenBranch.binds ++ elseBranch.binds
  | .whileLoop _ body => body.binds
  | _ => []

/-- The walk is as deep in scopes as before, and what was bound at top level still is. -/
structure Analysis.Grows (a a' : Analysis) : Prop where
  depth : a'.scopes.length = a.scopes.length
  topLevel : ∀ {name}, name ∈ a.topLevel → name ∈ a'.topLevel

namespace Analysis.Grows

variable {a a' a'' : Analysis}

lemma refl (a : Analysis) : a.Grows a := ⟨rfl, id⟩

lemma trans (h : a.Grows a') (h' : a'.Grows a'') : a.Grows a'' :=
  ⟨h'.depth.trans h.depth, fun hname => h'.topLevel (h.topLevel hname)⟩

lemma scopes_eq_nil (h : a.Grows a') (hscopes : a.scopes = []) : a'.scopes = [] := by
  have hdepth := h.depth
  rw [hscopes] at hdepth
  exact List.eq_nil_of_length_eq_zero hdepth

lemma complain (h : a.Grows a') (t : Token) (cause : ResolutionCause) :
    a.Grows (a'.complain t cause) := ⟨h.depth, h.topLevel⟩

lemma complain_if (h : a.Grows a') (c : Prop) [Decidable c] (t : Token) (cause : ResolutionCause) :
    a.Grows (if c then a'.complain t cause else a') := by
  split
  · exact h.complain t cause
  · exact h

lemma pop {names : List String} (h : (a.push names).Grows a') : a.Grows a'.pop := by
  refine ⟨?_, h.topLevel⟩
  have hdepth := h.depth
  simp only [Analysis.push, List.length_cons] at hdepth
  simp only [Analysis.pop, List.length_tail]
  omega

lemma declare (a : Analysis) (name : Token) : a.Grows (a.declare name) := by
  unfold Analysis.declare
  split
  · exact .refl a
  · next scope outer hscopes =>
    have hdeclared : a.Grows { a with scopes := scope.insert name.lexeme false :: outer } :=
      ⟨by simp [hscopes], id⟩
    exact hdeclared.complain_if _ _ _

lemma define (a : Analysis) (name : Token) : a.Grows (a.define name) := by
  unfold Analysis.define
  split
  · exact ⟨rfl, List.mem_cons_of_mem _⟩
  · next hscopes => exact ⟨by simp [hscopes], id⟩

lemma introduce (a : Analysis) (name : Token) : a.Grows (a.introduce name) :=
  (declare a name).trans (define _ name)

lemma introduceAll (params : List Token) (a : Analysis) :
    a.Grows (params.foldl Analysis.introduce a) := by
  induction params generalizing a with
  | nil => exact .refl a
  | cons name rest ih => exact (introduce a name).trans (ih _)

lemma bind (a : Analysis) (ref : RefId) (name : String) : a.Grows (a.bind ref name) := by
  unfold Analysis.bind
  split
  · exact ⟨rfl, id⟩
  · exact .refl a

lemma read (a : Analysis) (known : String → Bool) (ref : RefId) (name : Token) :
    a.Grows (a.read known ref name) := by
  unfold Analysis.read Analysis.bindOuter
  split
  · split
    · exact ⟨rfl, id⟩
    · split
      · exact .refl a
      · exact (refl a).complain _ _
  · exact bind a ref _

lemma checkSuper (a : Analysis) (cls : ClassContext) (keyword : Token) :
    a.Grows (a.checkSuper cls keyword) := by
  cases cls with
  | none | base => exact (refl a).complain _ _
  | derived => exact .refl a

end Analysis.Grows

section TopLevel

variable (known : String → Bool)

mutual

lemma Expr.grows_analyse (at_ : Surroundings) : (e : Expr) → (a : Analysis) →
    a.Grows (e.analyse known at_ a)
  | .literal _, a => .refl a
  | .grouping inner, a => inner.grows_analyse at_ a
  | .unary _ right, a => right.grows_analyse at_ a
  | .binary left _ right, a => (left.grows_analyse at_ a).trans (right.grows_analyse at_ _)
  | .logical left _ right, a => (left.grows_analyse at_ a).trans (right.grows_analyse at_ _)
  | .variable ref name, a => .read a known ref name
  | .assign ref name value, a => (value.grows_analyse at_ a).trans (.bind _ ref _)
  | .call callee _ arguments, a =>
    (callee.grows_analyse at_ a).trans (Expr.grows_analyseAll at_ arguments _)
  | .get object _, a => object.grows_analyse at_ a
  | .set object _ value, a => (value.grows_analyse at_ a).trans (object.grows_analyse at_ _)
  | .this ref keyword, a => by
    rw [Expr.analyse]
    split
    · exact (Analysis.Grows.refl a).complain _ _
    · exact .bind a ref _
  | .super ref keyword _, a => (Analysis.Grows.checkSuper a at_.cls keyword).trans (.bind _ ref _)

lemma Expr.grows_analyseAll (at_ : Surroundings) : (es : List Expr) → (a : Analysis) →
    a.Grows (Expr.analyseAll known at_ es a)
  | [], a => .refl a
  | e :: rest, a => (e.grows_analyse at_ a).trans (Expr.grows_analyseAll at_ rest _)

end

mutual

lemma Stmt.grows_analyse (at_ : Surroundings) : (s : Stmt) → (a : Analysis) →
    a.Grows (s.analyse known at_ a)
  | .expression e, a => e.grows_analyse known at_ a
  | .print e, a => e.grows_analyse known at_ a
  | .var name none, a => .introduce a name
  | .var name (some e), a =>
    ((Analysis.Grows.declare a name).trans (e.grows_analyse known at_ _)).trans (.define _ name)
  | .block body, a => (Stmt.grows_analyseAll at_ body (a.push [])).pop
  | .ifThen condition thenBranch none, a =>
    (condition.grows_analyse known at_ a).trans (thenBranch.grows_analyse at_ _)
  | .ifThen condition thenBranch (some elseBranch), a =>
    ((condition.grows_analyse known at_ a).trans (thenBranch.grows_analyse at_ _)).trans
      (elseBranch.grows_analyse at_ _)
  | .whileLoop condition body, a =>
    (condition.grows_analyse known at_ a).trans (body.grows_analyse _ _)
  | .breakLoop _, a => by
    rw [Stmt.analyse]
    split
    · exact .refl a
    · exact (Analysis.Grows.refl a).complain _ _
  | .returnValue _ none, a => (Analysis.Grows.refl a).complain_if _ _ _
  | .returnValue _ (some e), a =>
    (((Analysis.Grows.refl a).complain_if _ _ _).complain_if _ _ _).trans
      (e.grows_analyse known at_ _)
  | .function decl, a =>
    (Analysis.Grows.introduce a decl.name).trans (decl.grows_analyse at_ .function _)
  | .classDecl name none methods, a =>
    (Analysis.Grows.introduce a name).trans
      (FunDecl.grows_analyseMethods _ methods ((a.introduce name).push ["this"])).pop
  | .classDecl name (some superclass) methods, a =>
    ((Analysis.Grows.introduce a name).trans (superclass.grows_analyse known _ _)).trans
      (FunDecl.grows_analyseMethods _ methods
        (((superclass.analyse known _ (a.introduce name)).push ["super"]).push ["this"])).pop.pop

lemma Stmt.grows_analyseAll (at_ : Surroundings) : (body : List Stmt) → (a : Analysis) →
    a.Grows (Stmt.analyseAll known at_ body a)
  | [], a => .refl a
  | s :: rest, a => (s.grows_analyse at_ a).trans (Stmt.grows_analyseAll at_ rest _)

lemma FunDecl.grows_analyse (at_ : Surroundings) (context : FunctionContext) : (d : FunDecl) →
    (a : Analysis) → a.Grows (d.analyse known at_ context a)
  | .mk _ params body, a =>
    ((Analysis.Grows.introduceAll params (a.push [])).trans
      (Stmt.grows_analyseAll _ body _)).pop

lemma FunDecl.grows_analyseMethods (at_ : Surroundings) : (ds : List FunDecl) →
    (a : Analysis) → a.Grows (FunDecl.analyseMethods known at_ ds a)
  | [], a => .refl a
  | d :: rest, a => (d.grows_analyse at_ _ a).trans (FunDecl.grows_analyseMethods at_ rest _)

end

lemma Analysis.mem_topLevel_define {a : Analysis} (h : a.scopes = []) (name : Token) :
    name.lexeme ∈ (a.define name).topLevel := by
  simp [Analysis.define, h]

lemma Analysis.mem_topLevel_introduce {a : Analysis} (h : a.scopes = []) (name : Token) :
    name.lexeme ∈ (a.introduce name).topLevel :=
  mem_topLevel_define ((Grows.declare a name).scopes_eq_nil h) name

/-- **The walk knows what a statement binds at top level.** -/
lemma Stmt.mem_topLevel_analyse {a : Analysis} (at_ : Surroundings) (hscopes : a.scopes = []) :
    (s : Stmt) → ∀ name ∈ s.binds, name ∈ (s.analyse known at_ a).topLevel
  | .var name none, _, hmem => by
    rw [Stmt.binds, List.mem_singleton] at hmem
    exact hmem ▸ Analysis.mem_topLevel_introduce hscopes name
  | .var name (some e), _, hmem => by
    rw [Stmt.binds, List.mem_singleton] at hmem
    have hinside := ((Analysis.Grows.declare a name).trans (e.grows_analyse known at_ _))
    exact hmem ▸ Analysis.mem_topLevel_define (hinside.scopes_eq_nil hscopes) name
  | .function decl, _, hmem => by
    rw [Stmt.binds, List.mem_singleton] at hmem
    exact hmem ▸ (decl.grows_analyse known at_ .function _).topLevel
      (Analysis.mem_topLevel_introduce hscopes decl.name)
  | .classDecl name none methods, _, hmem => by
    rw [Stmt.binds, List.mem_singleton] at hmem
    exact hmem ▸ (FunDecl.grows_analyseMethods known _ methods
      ((a.introduce name).push ["this"])).topLevel
        (Analysis.mem_topLevel_introduce hscopes name)
  | .classDecl name (some superclass) methods, _, hmem => by
    rw [Stmt.binds, List.mem_singleton] at hmem
    exact hmem ▸ (FunDecl.grows_analyseMethods known _ methods
      (((superclass.analyse known _ (a.introduce name)).push ["super"]).push ["this"])).topLevel
        ((superclass.grows_analyse known _ _).topLevel
          (Analysis.mem_topLevel_introduce hscopes name))
  | .ifThen condition thenBranch none, name, hmem => by
    rw [Stmt.binds] at hmem
    have hcondition := (condition.grows_analyse known at_ a).scopes_eq_nil hscopes
    exact thenBranch.mem_topLevel_analyse at_ hcondition name hmem
  | .ifThen condition thenBranch (some elseBranch), name, hmem => by
    rw [Stmt.binds, List.mem_append] at hmem
    have hcondition := (condition.grows_analyse known at_ a).scopes_eq_nil hscopes
    have hthen := (thenBranch.grows_analyse known at_ _).scopes_eq_nil hcondition
    rcases hmem with hmem | hmem
    · exact (elseBranch.grows_analyse known at_ _).topLevel
        (thenBranch.mem_topLevel_analyse at_ hcondition name hmem)
    · exact elseBranch.mem_topLevel_analyse at_ hthen name hmem
  | .whileLoop condition body, name, hmem => by
    rw [Stmt.binds] at hmem
    have hcondition := (condition.grows_analyse known at_ a).scopes_eq_nil hscopes
    exact body.mem_topLevel_analyse _ hcondition name hmem

lemma Stmt.mem_topLevel_analyseAll (at_ : Surroundings) : (body : List Stmt) → {a : Analysis} →
    a.scopes = [] → ∀ s ∈ body, ∀ name ∈ s.binds,
      name ∈ (Stmt.analyseAll known at_ body a).topLevel
  | first :: rest, a, hscopes, s, hs, name, hname => by
    rw [Stmt.analyseAll]
    have hrest := (first.grows_analyse known at_ a).scopes_eq_nil hscopes
    rcases List.mem_cons.mp hs with rfl | hs
    · exact (Stmt.grows_analyseAll known at_ rest _).topLevel
        (s.mem_topLevel_analyse known at_ hscopes name hname)
    · exact Stmt.mem_topLevel_analyseAll at_ rest hrest s hs name hname

lemma Stmt.analyseAll_append (at_ : Surroundings) (body rest : List Stmt) (a : Analysis) :
    Stmt.analyseAll known at_ (body ++ rest) a =
      Stmt.analyseAll known at_ rest (Stmt.analyseAll known at_ body a) := by
  induction body generalizing a with
  | nil => rfl
  | cons s body ih => exact ih _

end TopLevel

end LoxLang
