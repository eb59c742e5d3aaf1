import LoxLang.Proofs.Scope.Hygiene
import Mathlib.Data.List.Pairwise

/-!
# The locals of a program

**A declaration is given by its scope and its name.**  A scope is given by its place, the indices of
the statements and methods on the way down to the block or function that has it.  All local
variables and parameters of a program are listed in this way in `programLocals`.

In a program that is accepted no scope declares a name twice (`Stmt.allDistinct`), so there is one
declaration for a place and a name, and the functions and classes of the scope are called otherwise.
-/

namespace LoxLang

/-! ## The locals of a program -/

/-- The variable that a statement declares. -/
def Stmt.varName? : Stmt → Option String
  | .var name _ => some name.lexeme
  | _ => none

/-- What a statement declares. -/
def Stmt.declared? : Stmt → Option String
  | .var name _ | .classDecl name _ _ => some name.lexeme
  | .function decl => some decl.name.lexeme
  | _ => none

/-- Further down, behind the statement or method with the index `i`. -/
def placedUnder (i : Nat) (locals : List (List Nat × String)) : List (List Nat × String) :=
  locals.map fun entry => (i :: entry.1, entry.2)

mutual

/-- **The local variables and parameters declared inside a statement**, each with the place of its
scope. -/
def Stmt.locals : Stmt → List (List Nat × String)
  | .block body => (body.filterMap Stmt.varName?).map (([], ·)) ++ Stmt.allLocals 0 body
  | .ifThen _ thenBranch none => placedUnder 0 thenBranch.locals
  | .ifThen _ thenBranch (some elseBranch) =>
    placedUnder 0 thenBranch.locals ++ placedUnder 1 elseBranch.locals
  | .whileLoop _ body => placedUnder 0 body.locals
  | .function decl => decl.locals
  | .classDecl _ _ methods => FunDecl.allLocals 0 methods
  | _ => []

def Stmt.allLocals (i : Nat) : List Stmt → List (List Nat × String)
  | [] => []
  | s :: rest => placedUnder i s.locals ++ Stmt.allLocals (i + 1) rest

def FunDecl.locals : FunDecl → List (List Nat × String)
  | .mk _ params body =>
    (params.map Token.lexeme ++ body.filterMap Stmt.varName?).map (([], ·)) ++
      Stmt.allLocals 0 body

def FunDecl.allLocals (i : Nat) : List FunDecl → List (List Nat × String)
  | [] => []
  | d :: rest => placedUnder i d.locals ++ FunDecl.allLocals (i + 1) rest

end

/-- The local variables and parameters of a program.  What it declares at top level is global. -/
def programLocals (program : List Stmt) : List (List Nat × String) := Stmt.allLocals 0 program

lemma mem_placedUnder {i : Nat} {locals : List (List Nat × String)} {place : List Nat}
    {name : String} : (place, name) ∈ placedUnder i locals ↔
      ∃ rest, place = i :: rest ∧ (rest, name) ∈ locals := by
  simp only [placedUnder, List.mem_map, Prod.mk.injEq, Prod.exists]
  constructor
  · rintro ⟨rest, other, hmem, rfl, rfl⟩
    exact ⟨rest, rfl, hmem⟩
  · rintro ⟨rest, rfl, hmem⟩
    exact ⟨rest, name, hmem, rfl, rfl⟩

/-- Lists of locals one after another, the first of which stands under the index `i`. -/
def placedFrom : Nat → List (List (List Nat × String)) → List (List Nat × String)
  | _, [] => []
  | i, first :: rest => placedUnder i first ++ placedFrom (i + 1) rest

lemma Stmt.allLocals_eq (i : Nat) (body : List Stmt) :
    Stmt.allLocals i body = placedFrom i (body.map Stmt.locals) := by
  induction body generalizing i with
  | nil => rfl
  | cons s rest ih => rw [Stmt.allLocals, ih, List.map_cons, placedFrom]

lemma FunDecl.allLocals_eq (i : Nat) (ds : List FunDecl) :
    FunDecl.allLocals i ds = placedFrom i (ds.map FunDecl.locals) := by
  induction ds generalizing i with
  | nil => rfl
  | cons d rest ih => rw [FunDecl.allLocals, ih, List.map_cons, placedFrom]

lemma exists_of_mem_placedFrom {i : Nat} {lists : List (List (List Nat × String))}
    {place : List Nat} {name : String} (h : (place, name) ∈ placedFrom i lists) :
    ∃ j rest, i ≤ j ∧ place = j :: rest := by
  induction lists generalizing i with
  | nil => cases h
  | cons first others ih =>
    rw [placedFrom, List.mem_append] at h
    rcases h with h | h
    · obtain ⟨rest, rfl, -⟩ := mem_placedUnder.mp h
      exact ⟨i, rest, Nat.le_refl i, rfl⟩
    · obtain ⟨j, rest, hle, rfl⟩ := ih h
      exact ⟨j, rest, Nat.le_of_succ_le hle, rfl⟩

/-- **Every marked scope declares the name**, among scopes whose locals are listed. -/
def Marks (marked : List Nat → Bool) (name : String) (locals : List (List Nat × String)) : Prop :=
  ∀ place, marked place = true → (place, name) ∈ locals

/-- The same of statements or methods, the first of which has the index `i`. -/
def MarksFrom (marked : List Nat → Bool) (name : String) (i : Nat)
    (lists : List (List (List Nat × String))) : Prop :=
  ∀ j place, i ≤ j → marked (j :: place) = true → (j :: place, name) ∈ placedFrom i lists

section Marks

variable {marked : List Nat → Bool} {name : String} {i : Nat} {first : List (List Nat × String)}
  {rest : List (List (List Nat × String))}

lemma MarksFrom.head (h : MarksFrom marked name i (first :: rest)) :
    Marks (fun place => marked (i :: place)) name first := by
  intro place hplace
  have hmem := h i place (Nat.le_refl i) hplace
  rw [placedFrom, List.mem_append] at hmem
  rcases hmem with hmem | hmem
  · obtain ⟨other, heq, hother⟩ := mem_placedUnder.mp hmem
    cases heq
    exact hother
  · obtain ⟨j, other, hle, heq⟩ := exists_of_mem_placedFrom hmem
    cases heq
    exact absurd hle (Nat.not_succ_le_self i)

lemma MarksFrom.tail (h : MarksFrom marked name i (first :: rest)) :
    MarksFrom marked name (i + 1) rest := by
  intro j place hle hplace
  have hmem := h j place (Nat.le_of_succ_le hle) hplace
  rw [placedFrom, List.mem_append] at hmem
  rcases hmem with hmem | hmem
  · obtain ⟨other, heq, -⟩ := mem_placedUnder.mp hmem
    cases heq
    exact absurd hle (Nat.not_succ_le_self i)
  · exact hmem

/-- The scopes further in than one with names of its own. -/
lemma Marks.inside {names : List String} {lists : List (List (List Nat × String))}
    (h : Marks marked name (names.map (([], ·)) ++ placedFrom 0 lists)) :
    MarksFrom marked name 0 lists := by
  intro j place _ hplace
  rcases List.mem_append.mp (h _ hplace) with hmem | hmem
  · simp at hmem
  · exact hmem

/-- The scope itself. -/
lemma Marks.here {names : List String} {lists : List (List (List Nat × String))}
    (h : Marks marked name (names.map (([], ·)) ++ placedFrom 0 lists))
    (hmarked : marked [] = true) :
    name ∈ names := by
  rcases List.mem_append.mp (h _ hmarked) with hmem | hmem
  · simpa using hmem
  · obtain ⟨j, other, -, heq⟩ := exists_of_mem_placedFrom hmem
    cases heq

/-- A part of a statement that is no scope. -/
lemma Marks.under {others : List (List Nat × String)} {i : Nat}
    (h : Marks marked name (placedUnder i first ++ others))
    (hothers : ∀ place, (i :: place, name) ∉ others) :
    Marks (fun place => marked (i :: place)) name first := by
  intro place hplace
  rcases List.mem_append.mp (h _ hplace) with hmem | hmem
  · obtain ⟨other, heq, hother⟩ := mem_placedUnder.mp hmem
    cases heq
    exact hother
  · exact absurd hmem (hothers place)

/-- The order of lists of locals does not matter. -/
lemma Marks.swap {locals others : List (List Nat × String)}
    (h : Marks marked name (locals ++ others)) :
    Marks marked name (others ++ locals) :=
  fun place hplace => List.mem_append.mpr (List.mem_append.mp (h place hplace)).symm

end Marks

/-! ## No scope declares a name twice -/

mutual

/-- **No scope in a statement declares a name twice.** -/
def Stmt.Distinct : Stmt → Prop
  | .block body => (body.filterMap Stmt.declared?).Nodup ∧ Stmt.AllDistinct body
  | .ifThen _ thenBranch none => thenBranch.Distinct
  | .ifThen _ thenBranch (some elseBranch) => thenBranch.Distinct ∧ elseBranch.Distinct
  | .whileLoop _ body => body.Distinct
  | .function decl => decl.Distinct
  | .classDecl _ _ methods => FunDecl.AllDistinct methods
  | _ => True

def Stmt.AllDistinct : List Stmt → Prop
  | [] => True
  | s :: rest => s.Distinct ∧ Stmt.AllDistinct rest

def FunDecl.Distinct : FunDecl → Prop
  | .mk _ params body =>
    (params.map Token.lexeme ++ body.filterMap Stmt.declared?).Nodup ∧ Stmt.AllDistinct body

def FunDecl.AllDistinct : List FunDecl → Prop
  | [] => True
  | d :: rest => d.Distinct ∧ FunDecl.AllDistinct rest

end

lemma Stmt.after_eq (Λ : LexicalContext) (s : Stmt) :
    s.declared? = none ∧ s.after Λ = Λ ∨
      ∃ t, s.declared? = some t.lexeme ∧ s.after Λ = Λ.declare t ∧
        ∀ known at_ a, (a.declare t).errors <+: (s.analyse known at_ a).errors := by
  cases s with
  | var name value =>
    refine .inr ⟨name, rfl, rfl, fun known at_ a => ?_⟩
    cases value with
    | none =>
      have hdefined : ((Stmt.var name none).analyse known at_ a).errors =
          (a.declare name).errors := by
        rw [Stmt.analyse, Analysis.introduce, Analysis.errors_define]
      exact hdefined ▸ List.prefix_rfl
    | some e =>
      rw [Stmt.analyse, Analysis.errors_define]
      exact e.prefix_analyse known at_ _
  | function decl =>
    refine .inr ⟨decl.name, rfl, rfl, fun known at_ a => ?_⟩
    have hdeclared : (a.declare decl.name).errors = (a.introduce decl.name).errors := by
      rw [Analysis.introduce, Analysis.errors_define]
    rw [hdeclared]
    exact decl.prefix_analyse known at_ .function _
  | classDecl name superclass methods =>
    refine .inr ⟨name, rfl, rfl, fun known at_ a => ?_⟩
    have hdeclared : (a.declare name).errors = (a.introduce name).errors := by
      rw [Analysis.introduce, Analysis.errors_define]
    rw [hdeclared]
    cases superclass with
    | none => exact FunDecl.prefix_analyseMethods known _ methods ((a.introduce name).push ["this"])
    | some e =>
      exact (e.prefix_analyse known _ _).trans (FunDecl.prefix_analyseMethods known _ methods
        (((e.analyse known _ (a.introduce name)).push ["super"]).push ["this"]))
  | _ => exact .inl ⟨rfl, rfl⟩

section Distinct

variable (known : String → Bool)

/-- The statements of a scope declare different names, and none that was there before. -/
lemma Stmt.nodup_declared (at_ : Surroundings) (body : List Stmt) {σ : LexicalScope}
    {Λ : LexicalContext} {a : Analysis} (hnormal : Stmt.areNormal body = true)
    (h : Reflects a.scopes (σ :: Λ) none)
    (hquiet : (Stmt.analyseAll known at_ body a).errors = []) (hσ : σ.names.Nodup) :
    (σ.names ++ body.filterMap Stmt.declared?).Nodup := by
  induction body generalizing σ a with
  | nil => simpa using hσ
  | cons s rest ih =>
    simp only [Stmt.areNormal, Bool.and_eq_true] at hnormal
    have hbefore := quiet_before (Stmt.prefix_analyseAll known at_ rest _) hquiet
    have hafter := (Stmt.walked known at_ s a (s.formed_of_isNormal hnormal.1) h hbefore).reflects
    obtain ⟨hnone, hsame⟩ | ⟨t, hsome, hdeclare, hgrows⟩ := s.after_eq (σ :: Λ)
    · rw [hsame] at hafter
      rw [List.filterMap_cons_none hnone]
      exact ih hnormal.2 hafter hquiet hσ
    · rw [hdeclare] at hafter
      have hnew := h.not_mem_of_quiet (quiet_before (hgrows known at_ a) hbefore)
      have hrest := ih hnormal.2 hafter hquiet (List.nodup_cons.mpr ⟨hnew, hσ⟩)
      rw [List.filterMap_cons_some hsome]
      exact List.perm_middle.nodup_iff.mpr hrest

/-- Parameters that are introduced without complaint have different names. -/
lemma nodup_params (params : List Token) {σ : LexicalScope} {Λ : LexicalContext} {a : Analysis}
    (h : Reflects a.scopes (σ :: Λ) none) (hquiet : (params.foldl Analysis.introduce a).errors = [])
    (hσ : σ.names.Nodup) : (σ.names ++ params.map Token.lexeme).Nodup := by
  induction params generalizing σ a with
  | nil => simpa using hσ
  | cons t rest ih =>
    have hfirst : (a.introduce t).errors = [] :=
      quiet_before (Analysis.prefix_introduceAll (a.introduce t) rest) hquiet
    rw [Analysis.introduce, Analysis.errors_define] at hfirst
    have hnew := h.not_mem_of_quiet hfirst
    have hrest := ih (h.introduce t) hquiet (List.nodup_cons.mpr ⟨hnew, hσ⟩)
    exact List.perm_middle.nodup_iff.mpr hrest

mutual

lemma Stmt.distinct {Λ : LexicalContext} (at_ : Surroundings) : (s : Stmt) → (a : Analysis) →
    s.isNormal = true → Reflects a.scopes Λ none → (s.analyse known at_ a).errors = [] → s.Distinct
  | .expression _, _, _, _, _ | .print _, _, _, _, _ | .var _ _, _, _, _, _
  | .breakLoop _, _, _, _, _ | .returnValue _ _, _, _, _, _ => by
    simp [Stmt.Distinct]
  | .block body, a, hnormal, h, hquiet => by
    rw [Stmt.isNormal] at hnormal
    have hpush := h.push (.block body) []
    rw [Stmt.Distinct]
    constructor
    · exact Stmt.nodup_declared known at_ body hnormal hpush hquiet List.nodup_nil
    · exact Stmt.allDistinct at_ body (a.push []) hnormal hpush hquiet
  | .ifThen condition thenBranch none, a, hnormal, h, hquiet => by
    simp only [Stmt.isNormal, Bool.and_eq_true] at hnormal
    rw [Stmt.Distinct]
    exact thenBranch.distinct at_ _ hnormal.1.2 (by simpa using h) hquiet
  | .ifThen condition thenBranch (some elseBranch), a, hnormal, h, hquiet => by
    simp only [Stmt.isNormal, Bool.and_eq_true, Bool.not_eq_true'] at hnormal
    obtain ⟨⟨⟨⟨⟨-, hnormalThen⟩, hthenDecl⟩, -⟩, hnormalElse⟩, -⟩ := hnormal
    have hquietThen := quiet_before (elseBranch.prefix_analyse known at_ _) hquiet
    have htest : Reflects (condition.analyse known at_ a).scopes Λ none := by simpa using h
    have hformed := thenBranch.formed_of_isNormal hnormalThen
    have hbranch := (Stmt.walked known at_ thenBranch _ hformed htest hquietThen).reflects
    rw [Stmt.after_of_isDeclaration hthenDecl] at hbranch
    rw [Stmt.Distinct]
    constructor
    · exact thenBranch.distinct at_ _ hnormalThen htest hquietThen
    · exact elseBranch.distinct at_ _ hnormalElse hbranch hquiet
  | .whileLoop condition body, a, hnormal, h, hquiet => by
    simp only [Stmt.isNormal, Bool.and_eq_true] at hnormal
    rw [Stmt.Distinct]
    exact body.distinct _ _ hnormal.1.2 (by simpa using h) hquiet
  | .function decl, a, hnormal, h, hquiet => by
    rw [Stmt.isNormal] at hnormal
    rw [Stmt.Distinct]
    exact decl.distinct at_ .function _ hnormal (h.introduce decl.name) hquiet
  | .classDecl name none methods, a, hnormal, h, hquiet => by
    simp only [Stmt.isNormal, Bool.and_eq_true] at hnormal
    have hthis := (h.introduce name).push (.parent name methods) ["this"]
    rw [Stmt.Distinct]
    exact FunDecl.allDistinct _ (.parent name methods) methods _ hnormal.2 hthis hquiet
  | .classDecl name (some superclass) methods, a, hnormal, h, hquiet => by
    simp only [Stmt.isNormal, Bool.and_eq_true] at hnormal
    have hsuper : Reflects (superclass.analyse known { at_ with cls := .derived }
        (a.introduce name)).scopes (Λ.declare name) none := by simpa using h.introduce name
    have hparent := hsuper.push (.parent name methods) ["super"]
    have hthis := hparent.push (.parent name methods) ["this"]
    rw [Stmt.Distinct]
    exact FunDecl.allDistinct _ (.parent name methods) methods _ hnormal.2 hthis hquiet

lemma Stmt.allDistinct {Λ : LexicalContext} (at_ : Surroundings) : (body : List Stmt) →
    (a : Analysis) → Stmt.areNormal body = true → Reflects a.scopes Λ none →
    (Stmt.analyseAll known at_ body a).errors = [] → Stmt.AllDistinct body
  | [], _, _, _, _ => trivial
  | s :: rest, a, hnormal, h, hquiet => by
    simp only [Stmt.areNormal, Bool.and_eq_true] at hnormal
    have hbefore := quiet_before (Stmt.prefix_analyseAll known at_ rest _) hquiet
    have hafter := (Stmt.walked known at_ s a (s.formed_of_isNormal hnormal.1) h hbefore).reflects
    exact ⟨s.distinct at_ a hnormal.1 h hbefore,
      Stmt.allDistinct at_ rest _ hnormal.2 hafter hquiet⟩

lemma FunDecl.distinct {Λ : LexicalContext} (at_ : Surroundings) (context : FunctionContext) :
    (d : FunDecl) → (a : Analysis) → d.isNormal = true → Reflects a.scopes Λ none →
    (d.analyse known at_ context a).errors = [] → d.Distinct
  | .mk name params body, a, hnormal, h, hquiet => by
    simp only [FunDecl.isNormal, Bool.and_eq_true] at hnormal
    have hpush := h.push (.call (.mk name params body)) []
    have hbefore := quiet_before (Stmt.prefix_analyseAll known _ body _) hquiet
    have hparams := nodup_params params hpush hbefore List.nodup_nil
    have hscope : Reflects (params.foldl Analysis.introduce (a.push [])).scopes
        ((FunDecl.mk name params body).scope :: Λ) none :=
      (walked_introduceAll known hpush params).reflects.rename
        (by simp [FunDecl.scope, FunDecl.params])
    rw [FunDecl.Distinct]
    constructor
    · exact Stmt.nodup_declared known _ body hnormal.2 hscope hquiet hparams
    · exact Stmt.allDistinct _ body _ hnormal.2 hscope hquiet

lemma FunDecl.allDistinct {Λ : LexicalContext} (at_ : Surroundings) (region : Region) :
    (ds : List FunDecl) → (a : Analysis) → FunDecl.areNormal ds = true →
    Reflects a.scopes (⟨region, ["this"]⟩ :: Λ) none →
    (FunDecl.analyseMethods known at_ ds a).errors = [] → FunDecl.AllDistinct ds
  | [], _, _, _, _ => trivial
  | d :: rest, a, hnormal, h, hquiet => by
    simp only [FunDecl.areNormal, Bool.and_eq_true] at hnormal
    have hbefore := quiet_before (FunDecl.prefix_analyseMethods known at_ rest _) hquiet
    have hfirst := FunDecl.walked known at_ _ d a (d.formed_of_isNormal hnormal.1) h hbefore
    exact ⟨d.distinct at_ _ a hnormal.1 h hbefore,
      FunDecl.allDistinct at_ region rest _ hnormal.2 hfirst.reflects hquiet⟩

end

end Distinct

/-- If a scope declares a name as a variable or parameter, it declares no function or class of that
name. -/
lemma Stmt.varName?_of_nodup (names : List String) {body : List Stmt} {name : String}
    (hnodup : (names ++ body.filterMap Stmt.declared?).Nodup)
    (hname : name ∈ names ++ body.filterMap Stmt.varName?) :
    ∀ s ∈ body, s.declared? = some name → s.varName? = some name := by
  intro s hs hdeclared
  rw [List.nodup_append] at hnodup
  obtain ⟨-, hbody, hapart⟩ := hnodup
  rcases List.mem_append.mp hname with hname | hname
  · exact absurd rfl (hapart name hname name (List.mem_filterMap.mpr ⟨s, hs, hdeclared⟩))
  · obtain ⟨v, hv, hvariable⟩ := List.mem_filterMap.mp hname
    have hdeclaredVariable : v.declared? = some name := by
      cases v with
      | var => exact hvariable
      | _ => cases hvariable
    have hpairwise := List.pairwise_filterMap.mp hbody
    have hsymmetric : Std.Symm fun s s' : Stmt =>
        ∀ b, s.declared? = some b → ∀ b', s'.declared? = some b' → b ≠ b' :=
      ⟨fun _ _ hne b hb b' hb' => (hne b' hb' b hb).symm⟩
    by_cases hsame : v = s
    · exact hsame ▸ hvariable
    · have hne := hpairwise.forall hv hs hsame
      exact absurd rfl (hne name hdeclaredVariable name hdeclared)

lemma Stmt.varName?_of_isDeclaration {s : Stmt} (h : s.isDeclaration = false) {name : String}
    (hname : s.declared? = some name) : s.varName? = some name := by
  cases s with
  | var | function | classDecl => cases h
  | _ => cases hname

/-! ## What is a local is a name -/

section Names

variable {ρ : Likeness}

mutual

lemma Stmt.ofWord?_locals (hρ : ∀ {t t'}, ρ.token t t' → t.IsSpelled) : (s : Stmt) →
    {Γ : List Renaming} → s.isNormal = true → s.Like ρ Γ s →
    (∀ name, s.varName? = some name → Keyword.ofWord? name = none) ∧
      ∀ entry ∈ s.locals, Keyword.ofWord? entry.2 = none
  | .expression _, _, _, _ | .print _, _, _, _ | .breakLoop _, _, _, _
  | .returnValue _ _, _, _, _ => by simp [Stmt.varName?, Stmt.locals]
  | .var name _, _, hnormal, .var hname _ => by
    simp only [Stmt.isNormal, Bool.and_eq_true] at hnormal
    have hword := (hρ hname.token).ofWord?_of_isIdentifier hnormal.1
    simpa [Stmt.varName?, Stmt.locals] using hword
  | .block body, _, hnormal, .block _ hbody => by
    rw [Stmt.isNormal] at hnormal
    obtain ⟨hhere, hinside⟩ := Stmt.ofWord?_allLocals hρ body 0 hnormal hbody
    simp only [Stmt.locals, List.forall_mem_append, List.forall_mem_map]
    exact ⟨by simp [Stmt.varName?], hhere, hinside⟩
  | .ifThen _ thenBranch none, _, hnormal, .ifThen _ hthen => by
    simp only [Stmt.isNormal, Bool.and_eq_true] at hnormal
    simp only [Stmt.locals, placedUnder, List.forall_mem_map]
    exact ⟨by simp [Stmt.varName?], (thenBranch.ofWord?_locals hρ hnormal.1.2 hthen).2⟩
  | .ifThen _ thenBranch (some elseBranch), _, hnormal, .ifElse _ hthen helse => by
    simp only [Stmt.isNormal, Bool.and_eq_true] at hnormal
    simp only [Stmt.locals, placedUnder, List.forall_mem_append, List.forall_mem_map]
    exact ⟨by simp [Stmt.varName?], (thenBranch.ofWord?_locals hρ hnormal.1.1.1.1.2 hthen).2,
      (elseBranch.ofWord?_locals hρ hnormal.1.2 helse).2⟩
  | .whileLoop _ body, _, hnormal, .whileLoop _ hbody => by
    simp only [Stmt.isNormal, Bool.and_eq_true] at hnormal
    simp only [Stmt.locals, placedUnder, List.forall_mem_map]
    exact ⟨by simp [Stmt.varName?], (body.ofWord?_locals hρ hnormal.1.2 hbody).2⟩
  | .function decl, _, hnormal, .function hdecl _ => by
    rw [Stmt.isNormal] at hnormal
    rw [Stmt.locals]
    exact ⟨by simp [Stmt.varName?], decl.ofWord?_locals hρ hnormal hdecl⟩
  | .classDecl _ none methods, _, hnormal, .baseClass _ _ hmethods => by
    simp only [Stmt.isNormal, Bool.and_eq_true] at hnormal
    rw [Stmt.locals]
    exact ⟨by simp [Stmt.varName?], FunDecl.ofWord?_allLocals hρ methods 0 hnormal.2 hmethods⟩
  | .classDecl _ (some _) methods, _, hnormal, .derivedClass _ _ _ hmethods => by
    simp only [Stmt.isNormal, Bool.and_eq_true] at hnormal
    rw [Stmt.locals]
    exact ⟨by simp [Stmt.varName?], FunDecl.ofWord?_allLocals hρ methods 0 hnormal.2 hmethods⟩

/-- **The locals of statements are no keywords**, nor are the variables that they declare. -/
lemma Stmt.ofWord?_allLocals (hρ : ∀ {t t'}, ρ.token t t' → t.IsSpelled) : (body : List Stmt) →
    (i : Nat) → {Γ : List Renaming} → Stmt.areNormal body = true → Stmt.LikeAll ρ Γ body body →
    (∀ name ∈ body.filterMap Stmt.varName?, Keyword.ofWord? name = none) ∧
      ∀ entry ∈ Stmt.allLocals i body, Keyword.ofWord? entry.2 = none
  | [], _, _, _, _ => by simp [Stmt.allLocals]
  | s :: rest, i, _, hnormal, .cons hs hrest => by
    simp only [Stmt.areNormal, Bool.and_eq_true] at hnormal
    obtain ⟨hvariable, hlocals⟩ := s.ofWord?_locals hρ hnormal.1 hs
    obtain ⟨hvariables, hothers⟩ := Stmt.ofWord?_allLocals hρ rest (i + 1) hnormal.2 hrest
    constructor
    · intro name hname
      obtain ⟨other, hother, heq⟩ := List.mem_filterMap.mp hname
      rcases List.mem_cons.mp hother with rfl | hother
      · exact hvariable name heq
      · exact hvariables name (List.mem_filterMap.mpr ⟨other, hother, heq⟩)
    · simp only [Stmt.allLocals, placedUnder, List.forall_mem_append, List.forall_mem_map]
      exact ⟨hlocals, hothers⟩

lemma FunDecl.ofWord?_locals (hρ : ∀ {t t'}, ρ.token t t' → t.IsSpelled) : (d : FunDecl) →
    {Γ : List Renaming} → d.isNormal = true → d.Like ρ Γ d →
    ∀ entry ∈ d.locals, Keyword.ofWord? entry.2 = none
  | .mk _ params body, _, hnormal, .mk _ _ hparams hbody => by
    simp only [FunDecl.isNormal, Bool.and_eq_true] at hnormal
    obtain ⟨hvariables, hlocals⟩ := Stmt.ofWord?_allLocals hρ body 0 hnormal.2 hbody
    simp only [FunDecl.locals, List.forall_mem_append, List.forall_mem_map]
    refine ⟨⟨fun p hp => ?_, hvariables⟩, hlocals⟩
    have hnamed := List.forall₂_same.mp hparams p hp
    exact (hρ hnamed.token).ofWord?_of_isIdentifier (List.all_eq_true.mp hnormal.1.1.2 p hp)

lemma FunDecl.ofWord?_allLocals (hρ : ∀ {t t'}, ρ.token t t' → t.IsSpelled) : (ds : List FunDecl) →
    (i : Nat) → {Γ : List Renaming} → FunDecl.areNormal ds = true → FunDecl.LikeAll ρ Γ ds ds →
    ∀ entry ∈ FunDecl.allLocals i ds, Keyword.ofWord? entry.2 = none
  | [], _, _, _, _ => by simp [FunDecl.allLocals]
  | d :: rest, i, _, hnormal, .cons hd hrest => by
    simp only [FunDecl.areNormal, Bool.and_eq_true] at hnormal
    simp only [FunDecl.allLocals, placedUnder, List.forall_mem_append, List.forall_mem_map]
    exact ⟨d.ofWord?_locals hρ hnormal.1 hd,
      FunDecl.ofWord?_allLocals hρ rest (i + 1) hnormal.2 hrest⟩

end

end Names

end LoxLang
