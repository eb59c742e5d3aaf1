import LoxLang.Proofs.Scope.Placement
import LoxLang.Proofs.Syntax.Likeness

/-!
# Renamed locals are resolved alike

A local can be called something else without a change to what any reference is bound to, provided
that the new name gets in nobody's way.  What has to be ruled out is said once, for all renamings
that hold somewhere in the program (`Likeness.Hygienic`): two names of the program that are renamed,
each in its own scope, never become one.  This is weaker than one injective renaming for the whole
program, which there is not: where a scope is renamed, another one that declares the same name need
not be.

Two walks are followed side by side, over a program and over the renamed one.  Each stack of scopes
reflects the lexical scopes around the place, and those of the second program are those of the first
with their names renamed (`Analysis.Renamed`).  A reference is then bound equally far out in both
(`Site.Renamed.visible?`).  The one thing that can change is *how* the walk gets there: a read in
the initializer of a renamed variable may no longer be a read of the variable's own name, and then
it finds the outer binding without having to skip the inner one.

Nothing is assumed of the second walk.  That it has no complaint is part of what is shown.
-/

namespace LoxLang

/-! ## Names that are kept apart -/

/-- **Names with a property are kept apart** by the renamings of a likeness, and all names of a
program have the property.  References keep their numbers. -/
structure Likeness.Hygienic (ρ : Likeness) (N : String → Prop) : Prop where
  apart : ∀ {π π'}, ρ.renames π → ρ.renames π' → ∀ {name other}, N name → N other →
    π name = π' other → name = other
  number : ∀ {ref ref'}, ρ.ref ref ref' → ref' = ref
  token : ∀ {t t'}, ρ.token t t' → N t.lexeme
  this : N "this"
  super : N "super"

lemma renamingAt_cons_succ (π : Renaming) (Γ : List Renaming) (distance : Option Nat) :
    renamingAt (π :: Γ) (distance.map (· + 1)) = renamingAt Γ distance := by
  cases distance with
  | none => rfl
  | some d => rfl

/-- A lexical scope with its names renamed. -/
def LexicalScope.rename (π : Renaming) (σ : LexicalScope) : LexicalScope :=
  { σ with names := σ.names.map π }

lemma LexicalScope.declares_rename (π : Renaming) (σ : LexicalScope) (name : String) :
    (σ.rename π).declares (π name) = σ.declares name := by
  rw [declares, declares, decide_eq_decide]
  exact List.mem_map_of_injective π.injective

/-- **The scopes around a place, with the names of each of them renamed.** -/
inductive LexicalContext.Renamed (ρ : Likeness) (N : String → Prop) :
    List Renaming → LexicalContext → LexicalContext → Prop
  | nil : Renamed ρ N [] [] []
  | cons {π Γ σ Λ Λ'} (hπ : ρ.renames π) (hnames : ∀ name ∈ σ.names, N name)
      (h : Renamed ρ N Γ Λ Λ') : Renamed ρ N (π :: Γ) (σ :: Λ) (σ.rename π :: Λ')

section Contexts

variable {ρ : Likeness} {N : String → Prop} {Γ : List Renaming} {Λ Λ' : LexicalContext}

namespace LexicalContext.Renamed

lemma renames (h : Λ.Renamed ρ N Γ Λ') (distance : Option Nat) :
    ρ.renames (renamingAt Γ distance) := by
  induction h generalizing distance with
  | nil => cases distance <;> exact ρ.identity
  | cons hπ _ _ ih =>
    cases distance with
    | none => exact ρ.identity
    | some d =>
      cases d with
      | zero => exact hπ
      | succ d => exact ih (some d)

lemma unique {Λ'' : LexicalContext} (h : Λ.Renamed ρ N Γ Λ') (h' : Λ.Renamed ρ N Γ Λ'') :
    Λ'' = Λ' := by
  induction h generalizing Λ'' with
  | nil =>
    cases h'
    rfl
  | cons _ _ _ ih =>
    cases h' with
    | cons _ _ h' => rw [ih h']

/-- A scope that does not declare a name does not declare it when both are renamed. -/
lemma declares_eq_false (hρ : ρ.Hygienic N) {π π' : Renaming} (hπ : ρ.renames π)
    (hπ' : ρ.renames π') {σ : LexicalScope} (hnames : ∀ other ∈ σ.names, N other) {name : String}
    (hname : N name) (hnot : σ.declares name = false) :
    (σ.rename π).declares (π' name) = false := by
  simp only [LexicalScope.declares, decide_eq_false_iff_not] at hnot ⊢
  intro hmem
  obtain ⟨other, hother, heq⟩ := List.mem_map.mp hmem
  have hsame : other = name := hρ.apart hπ hπ' (hnames other hother) hname heq
  exact hnot (hsame ▸ hother)

/-- **The innermost scope with a name is as far out when all is renamed.** -/
lemma findIdx? (hρ : ρ.Hygienic N) (h : Λ.Renamed ρ N Γ Λ') {name : String} (hname : N name) :
    Λ'.findIdx? (·.declares (renamingAt Γ (Λ.findIdx? (·.declares name)) name)) =
      Λ.findIdx? (·.declares name) := by
  induction h with
  | nil => rfl
  | @cons π Γ σ Λ Λ' hπ hnames h ih =>
    by_cases hσ : σ.declares name = true
    · have hfound : (σ :: Λ).findIdx? (·.declares name) = some 0 := by
        rw [List.findIdx?_cons, if_pos hσ]
      have hfound' : (σ.rename π).declares (π name) = true := by
        rw [σ.declares_rename, hσ]
      rw [hfound, List.findIdx?_cons]
      exact if_pos hfound'
    · have hfurther : (σ :: Λ).findIdx? (·.declares name) =
          (Λ.findIdx? (·.declares name)).map (· + 1) := by
        rw [List.findIdx?_cons, if_neg hσ]
      have hnot := declares_eq_false hρ hπ (h.renames (Λ.findIdx? (·.declares name))) hnames hname
        (Bool.not_eq_true _ ▸ hσ)
      rw [hfurther, renamingAt_cons_succ, List.findIdx?_cons, hnot, ih]
      rfl

lemma declare (h : Λ.Renamed ρ N Γ Λ') {t t' : Token} (ht : N t.lexeme)
    (hnamed : t'.lexeme = renamingAt Γ (some 0) t.lexeme) :
    (Λ.declare t).Renamed ρ N Γ (Λ'.declare t') := by
  cases h with
  | nil => exact .nil
  | @cons π Γ σ Λ Λ' hπ hnames h =>
    have hscope : { σ.rename π with names := t'.lexeme :: (σ.rename π).names } =
        LexicalScope.rename π { σ with names := t.lexeme :: σ.names } := by
      rw [hnamed]
      rfl
    show LexicalContext.Renamed ρ N _ _
      ({ σ.rename π with names := t'.lexeme :: (σ.rename π).names } :: Λ')
    rw [hscope]
    exact .cons hπ (List.forall_mem_cons.mpr ⟨ht, hnames⟩) h

end LexicalContext.Renamed

/-! ## References -/

/-- **A reference and the renamed one**, by the name that it has in the scope it is bound to. -/
structure Site.Renamed (ρ : Likeness) (N : String → Prop) (Γ : List Renaming) (site site' : Site) :
    Prop where
  use : site'.reference.use = site.reference.use
  ref : site'.reference.ref = site.reference.ref
  scopes : site.scopes.Renamed ρ N Γ site'.scopes
  pending : site'.pending = site.pending.map (renamingAt Γ (some 0))
  /-- The variable in whose initializer the site stands is declared in the innermost scope. -/
  declared : ∀ x, site.pending = some x → N x
  usual : N site.name
  name : site'.name = renamingAt Γ site.visible? site.name

namespace Site.Renamed

variable {site site' : Site}

/-- A renamed read of a variable in its own initializer was one before. -/
lemma isOwnRead_of_renamed (hρ : ρ.Hygienic N) (h : site.Renamed ρ N Γ site')
    (hown : site'.isOwnRead = true) : site.isOwnRead = true := by
  simp only [Site.isOwnRead, Bool.and_eq_true, decide_eq_true_eq] at hown ⊢
  obtain ⟨hread, hpending⟩ := hown
  rw [h.pending] at hpending
  obtain ⟨x, hx, heq⟩ := Option.map_eq_some_iff.mp hpending
  rw [h.name] at heq
  have hsame : x = site.name := hρ.apart (h.scopes.renames _) (h.scopes.renames _)
    (h.declared x hx) h.usual heq
  exact ⟨h.use ▸ hread, hsame ▸ hx⟩

/-- **A renamed reference is bound as far out as before.** -/
lemma visible? (hρ : ρ.Hygienic N) (h : site.Renamed ρ N Γ site') :
    site'.visible? = site.visible? := by
  have hname := h.name
  have hscopes := h.scopes
  by_cases hown : site.isOwnRead = true
  · have hvisible : site.visible? =
        (site.scopes.tail.findIdx? (·.declares site.name)).map (· + 1) := by
      rw [Site.visible?, if_pos hown]
    rw [hvisible] at hname ⊢
    generalize hΛ : site.scopes = Λ at hname hscopes ⊢
    generalize hΛ' : site'.scopes = Λ' at hscopes
    cases hscopes with
    | nil =>
      rw [Site.visible?, hΛ']
      by_cases hown' : site'.isOwnRead = true
      · rw [if_pos hown']
        rfl
      · rw [if_neg hown']
        rfl
    | @cons π Γ σ Λ Λ' hπ hnames htail =>
      simp only [List.tail_cons, renamingAt_cons_succ] at hname ⊢
      have hfurther := htail.findIdx? hρ h.usual
      rw [← hname] at hfurther
      rw [Site.visible?, hΛ']
      by_cases hown' : site'.isOwnRead = true
      · rw [if_pos hown', List.tail_cons, hfurther]
      · -- The name of the variable was changed and that of the read was not, or the other way.
        have hne : π site.name ≠ site'.name := by
          intro heq
          apply hown'
          simp only [Site.isOwnRead, Bool.and_eq_true, decide_eq_true_eq] at hown ⊢
          refine ⟨h.use ▸ hown.1, ?_⟩
          rw [h.pending, hown.2, Option.map_some]
          exact congrArg some heq
        have hnot : (σ.rename π).declares site'.name = false := by
          simp only [LexicalScope.declares, decide_eq_false_iff_not]
          intro hmem
          obtain ⟨other, hother, heq⟩ := List.mem_map.mp hmem
          have hsame : other = site.name :=
            hρ.apart hπ (htail.renames _) (hnames other hother) h.usual (heq.trans hname)
          exact hne (hsame ▸ heq)
        rw [if_neg hown', List.findIdx?_cons, hnot, hfurther]
        rfl
  · have hvisible : site.visible? = site.scopes.findIdx? (·.declares site.name) := by
      rw [Site.visible?, if_neg hown]
    have hown' : ¬site'.isOwnRead = true := fun h' => hown (h.isOwnRead_of_renamed hρ h')
    rw [hvisible] at hname ⊢
    rw [Site.visible?, if_neg hown', hname]
    exact hscopes.findIdx? hρ h.usual

end Site.Renamed

/-! ## Two walks -/

/-- **Two walks at the same place** of a program and of the renamed one.  The second has no
complaint; of the first that is known from where it ends. -/
structure Analysis.Renamed (ρ : Likeness) (N : String → Prop) (Γ : List Renaming)
    (Λ : LexicalContext) (pending : Option String) (a a' : Analysis) : Prop where
  reflects : Reflects a.scopes Λ pending
  renamed : ∃ Λ', Λ.Renamed ρ N Γ Λ' ∧
    Reflects a'.scopes Λ' (pending.map (renamingAt Γ (some 0)))
  topLevel : a'.topLevel = a.topLevel
  distances : a'.distances = a.distances
  quiet : a'.errors = []

namespace Analysis

namespace Renamed

variable {pending : Option String} {a a' : Analysis}

lemma push (h : a.Renamed ρ N Γ Λ none a') {π : Renaming} (hπ : ρ.renames π) (region : Region)
    (names : List String) (hnames : ∀ name ∈ names, N name ∧ π name = name) :
    (a.push names).Renamed ρ N (π :: Γ) (⟨region, names⟩ :: Λ) none (a'.push names) := by
  obtain ⟨Λ', hΛ, hreflects⟩ := h.renamed
  have hscope : LexicalScope.rename π ⟨region, names⟩ = ⟨region, names⟩ := by
    have hkept : names.map π = names :=
      (List.map_congr_left fun name hname => (hnames name hname).2).trans (List.map_id names)
    rw [LexicalScope.rename, hkept]
  refine ⟨h.reflects.push region names, ⟨⟨region, names⟩ :: Λ', ?_, hreflects.push region names⟩,
    h.topLevel, h.distances, h.quiet⟩
  have hcons : LexicalContext.Renamed ρ N (π :: Γ) (⟨region, names⟩ :: Λ)
      (LexicalScope.rename π ⟨region, names⟩ :: Λ') :=
    .cons hπ (fun name hname => (hnames name hname).1) hΛ
  rwa [hscope] at hcons

lemma pop {π : Renaming} {σ : LexicalScope} (h : a.Renamed ρ N (π :: Γ) (σ :: Λ) none a') :
    a.pop.Renamed ρ N Γ Λ none a'.pop := by
  obtain ⟨_, hΛ, hreflects⟩ := h.renamed
  cases hΛ with
  | cons _ _ hΛ =>
    exact ⟨h.reflects.pop, ⟨_, hΛ, hreflects.pop⟩, h.topLevel, h.distances, h.quiet⟩

/-- What is declared for the first time is so when it is renamed. -/
lemma quiet_declare (h : a.Renamed ρ N Γ Λ none a') {t t' : Token}
    (hnamed : t'.lexeme = renamingAt Γ (some 0) t.lexeme) (hquiet : (a.declare t).errors = []) :
    (a'.declare t').errors = [] := by
  obtain ⟨Λ', hΛ, hreflects⟩ := h.renamed
  rw [h.reflects.errors_declare] at hquiet
  rw [hreflects.errors_declare]
  have hsame : Λ'.declaresHere t'.lexeme = Λ.declaresHere t.lexeme := by
    cases hΛ with
    | nil => rfl
    | @cons π _ σ _ _ _ _ _ =>
      rw [hnamed]
      exact σ.declares_rename π t.lexeme
  rw [hsame]
  by_cases hagain : Λ.declaresHere t.lexeme = true
  · rw [if_pos hagain] at hquiet
    simp at hquiet
  · rw [if_neg hagain]
    exact h.quiet

lemma pending_eq (hΛ : Λ.Renamed ρ N Γ Λ') {t t' : Token}
    (hnamed : t'.lexeme = renamingAt Γ (some 0) t.lexeme) :
    Λ'.pending t' = (Λ.pending t).map (renamingAt Γ (some 0)) := by
  cases hΛ with
  | nil => rfl
  | cons _ _ _ => exact congrArg some hnamed

lemma declare (h : a.Renamed ρ N Γ Λ none a') {t t' : Token} (ht : N t.lexeme)
    (hnamed : t'.lexeme = renamingAt Γ (some 0) t.lexeme) (hquiet : (a.declare t).errors = []) :
    (a.declare t).Renamed ρ N Γ (Λ.declare t) (Λ.pending t) (a'.declare t') := by
  obtain ⟨Λ', hΛ, hreflects⟩ := h.renamed
  refine ⟨h.reflects.declare t, ⟨Λ'.declare t', hΛ.declare ht hnamed, ?_⟩, ?_, ?_,
    h.quiet_declare hnamed hquiet⟩
  · rw [← pending_eq hΛ hnamed]
    exact hreflects.declare t'
  · rw [topLevel_declare, topLevel_declare, h.topLevel]
  · rw [distances_declare, distances_declare, h.distances]

lemma define (hΛ : Λ.Renamed ρ N Γ Λ') {t t' : Token} (ht : N t.lexeme)
    (hnamed : t'.lexeme = renamingAt Γ (some 0) t.lexeme)
    (h : a.Renamed ρ N Γ (Λ.declare t) (Λ.pending t) a') :
    (a.define t).Renamed ρ N Γ (Λ.declare t) none (a'.define t') := by
  obtain ⟨Λ₁, hΛ₁, hreflects⟩ := h.renamed
  obtain rfl := (hΛ.declare ht hnamed).unique hΛ₁
  rw [← pending_eq hΛ hnamed] at hreflects
  refine ⟨h.reflects.define, ⟨Λ'.declare t', hΛ₁, hreflects.define⟩, ?_, ?_, ?_⟩
  · have hreflects₀ := h.reflects
    cases hΛ with
    | nil =>
      generalize hscopes : a.scopes = scopes at hreflects₀
      generalize hscopes' : a'.scopes = scopes' at hreflects
      cases hreflects₀
      cases hreflects
      simp only [Analysis.define, hscopes, hscopes', h.topLevel]
      rw [hnamed]
      rfl
    | cons _ _ _ =>
      generalize hscopes : a.scopes = scopes at hreflects₀
      generalize hscopes' : a'.scopes = scopes' at hreflects
      cases hreflects₀
      cases hreflects
      simp only [Analysis.define, hscopes, hscopes', h.topLevel]
  · rw [distances_define, distances_define, h.distances]
  · rw [errors_define, h.quiet]

lemma introduce (h : a.Renamed ρ N Γ Λ none a') {t t' : Token} (ht : N t.lexeme)
    (hnamed : t'.lexeme = renamingAt Γ (some 0) t.lexeme) (hquiet : (a.introduce t).errors = []) :
    (a.introduce t).Renamed ρ N Γ (Λ.declare t) none (a'.introduce t') := by
  obtain ⟨Λ', hΛ, -⟩ := h.renamed
  rw [Analysis.introduce, errors_define] at hquiet
  exact define hΛ ht hnamed (h.declare ht hnamed hquiet)

/-- The parameters of a function, in the scope of its body. -/
lemma introduceAll (hρ : ρ.Hygienic N) {π : Renaming} {σ : LexicalScope}
    {params params' : List Token}
    (hparams : List.Forall₂ (ρ.Named π) params params')
    (h : a.Renamed ρ N (π :: Γ) (σ :: Λ) none a')
    (hquiet : (params.foldl Analysis.introduce a).errors = []) :
    (params.foldl Analysis.introduce a).Renamed ρ N (π :: Γ)
      ({ σ with names := (params.map Token.lexeme).reverse ++ σ.names } :: Λ) none
      (params'.foldl Analysis.introduce a') := by
  induction hparams generalizing a a' σ with
  | nil => exact h
  | @cons t t' rest _ ht _ ih =>
    have hfirst : (a.introduce t).errors = [] :=
      quiet_before (prefix_introduceAll (a.introduce t) rest) hquiet
    have hrest := ih (h.introduce (hρ.token ht.token) ht.lexeme hfirst) hquiet
    simpa using hrest

/-- The stack knows names, not regions, and knows them in no order. -/
lemma rearrange {π : Renaming} {σ : LexicalScope} (h : a.Renamed ρ N (π :: Γ) (σ :: Λ) none a')
    (τ : LexicalScope) (hnames : ∀ name, name ∈ σ.names ↔ name ∈ τ.names) :
    a.Renamed ρ N (π :: Γ) (τ :: Λ) none a' := by
  obtain ⟨_, hΛ, hreflects⟩ := h.renamed
  cases hΛ with
  | cons hπ husual hΛ =>
    refine ⟨h.reflects.rename hnames, ⟨_, .cons hπ (fun name hname => ?_) hΛ, ?_⟩, h.topLevel,
      h.distances, h.quiet⟩
    · exact husual name ((hnames name).mpr hname)
    · apply hreflects.rename
      intro name
      simp only [LexicalScope.rename, List.mem_map, hnames]

/-! ### References -/

/-- The sites of a reference in the two programs. -/
lemma site (h : a.Renamed ρ N Γ Λ pending a') {use : ReferenceUse} {ref : RefId}
    {t t' : Token} (ht : N t.lexeme)
    (hname : t'.lexeme = renamingAt Γ (Site.visible? ⟨⟨use, ref, t⟩, Λ, pending⟩) t.lexeme) :
    ∃ Λ', Reflects a'.scopes Λ' (pending.map (renamingAt Γ (some 0))) ∧
      Site.Renamed ρ N Γ ⟨⟨use, ref, t⟩, Λ, pending⟩
        ⟨⟨use, ref, t'⟩, Λ', pending.map (renamingAt Γ (some 0))⟩ := by
  obtain ⟨Λ', hΛ, hreflects⟩ := h.renamed
  refine ⟨Λ', hreflects, rfl, rfl, hΛ, rfl, fun x hx => ?_, ht, hname⟩
  have hreflects₀ := h.reflects
  generalize a.scopes = scopes at hreflects₀
  cases hreflects₀ with
  | nil => cases hx
  | cons _ hpending _ =>
    cases hΛ with
    | cons _ hnames _ => exact hnames x (hpending x hx)

/-- References that are bound equally far out are recorded alike. -/
lemma recordSite_eq (hρ : ρ.Hygienic N) {site site' : Site} (h : site.Renamed ρ N Γ site')
    (d : Distances) : d.recordSite site' = d.recordSite site := by
  rw [Distances.recordSite, Distances.recordSite, h.visible? hρ, h.ref]

lemma bind (hρ : ρ.Hygienic N) (h : a.Renamed ρ N Γ Λ pending a') {use : ReferenceUse}
    (huse : use ≠ .read) {ref : RefId} {t t' : Token} (ht : N t.lexeme)
    (hname : t'.lexeme = renamingAt Γ (Site.visible? ⟨⟨use, ref, t⟩, Λ, pending⟩) t.lexeme) :
    (a.bind ref t.lexeme).Renamed ρ N Γ Λ pending (a'.bind ref t'.lexeme) := by
  obtain ⟨Λ', hreflects, hsite⟩ := h.site ht hname
  refine ⟨?_, ⟨Λ', hsite.scopes, ?_⟩, ?_, ?_, ?_⟩
  · rw [scopes_bind]
    exact h.reflects
  · rw [scopes_bind]
    exact hreflects
  · rw [topLevel_bind, topLevel_bind, h.topLevel]
  · rw [hreflects.distances_bind huse, h.reflects.distances_bind huse, h.distances,
      recordSite_eq hρ hsite]
  · rw [errors_bind, h.quiet]

/-- The second walk has no complaint about a read if the first has none. -/
lemma quiet_read (hρ : ρ.Hygienic N) (h : a.Renamed ρ N Γ Λ pending a') {known : String → Bool}
    {ref : RefId} {t t' : Token} (ht : N t.lexeme)
    (hname : t'.lexeme = renamingAt Γ (Site.visible? ⟨⟨.read, ref, t⟩, Λ, pending⟩) t.lexeme)
    (hquiet : (a.read known ref t).errors = []) : (a'.read known ref t').errors = [] := by
  obtain ⟨Λ', hreflects, hsite⟩ := h.site ht hname
  have hfound := hsite.visible? hρ
  rw [hreflects.errors_read]
  rw [h.reflects.errors_read] at hquiet
  apply (if_neg · |>.trans h.quiet)
  rintro ⟨hown, hnone, hglobal⟩
  rw [hfound] at hnone
  rw [hnone] at hname
  have hsame : t'.lexeme = t.lexeme := hname
  rw [hsame, h.topLevel] at hglobal
  rw [if_pos ⟨hsite.isOwnRead_of_renamed hρ hown, hnone, hglobal⟩] at hquiet
  simp at hquiet

lemma read (hρ : ρ.Hygienic N) (h : a.Renamed ρ N Γ Λ pending a') {known : String → Bool}
    {ref : RefId} {t t' : Token} (ht : N t.lexeme)
    (hname : t'.lexeme = renamingAt Γ (Site.visible? ⟨⟨.read, ref, t⟩, Λ, pending⟩) t.lexeme)
    (hquiet : (a.read known ref t).errors = []) :
    (a.read known ref t).Renamed ρ N Γ Λ pending (a'.read known ref t') := by
  obtain ⟨Λ', hreflects, hsite⟩ := h.site ht hname
  refine ⟨?_, ⟨Λ', hsite.scopes, ?_⟩, ?_, ?_, h.quiet_read hρ ht hname hquiet⟩
  · rw [scopes_read]
    exact h.reflects
  · rw [scopes_read]
    exact hreflects
  · rw [topLevel_read, topLevel_read, h.topLevel]
  · rw [hreflects.distances_read, h.reflects.distances_read, h.distances, recordSite_eq hρ hsite]

end Renamed

end Analysis

end Contexts

/-! ## Walks over expressions -/

/-- **The distance of a site is one that its reference may have recorded**, and a `super` is spelled
as one. -/
structure Site.Kept (ρ : Likeness) (site : Site) : Prop where
  recorded : ρ.distance site.reference.ref site.visible?
  super : site.reference.use = .super → site.name = "super"

section Expressions

variable {ρ : Likeness} {N : String → Prop} {Γ : List Renaming} {Λ : LexicalContext}
  {pending : Option String} {known : String → Bool}

mutual

lemma Expr.renamed_analyse (hρ : ρ.Hygienic N) (at_ : Surroundings) : (e : Expr) → {e' : Expr} →
    {a a' : Analysis} → e.Like ρ Γ e' → (∀ site ∈ e.sites Λ pending, site.Kept ρ) →
    a.Renamed ρ N Γ Λ pending a' → (e.analyse known at_ a).errors = [] →
    (e.analyse known at_ a).Renamed ρ N Γ Λ pending (e'.analyse known at_ a')
  | .literal _, _, _, _, .literal _, _, h, _ => h
  | .grouping inner, _, _, _, .grouping hinner, hsites, h, hquiet => by
    simp only [Expr.analyse] at hquiet ⊢
    exact inner.renamed_analyse hρ at_ hinner hsites h hquiet
  | .unary _ right, _, _, _, .unary _ hright, hsites, h, hquiet => by
    simp only [Expr.analyse] at hquiet ⊢
    exact right.renamed_analyse hρ at_ hright hsites h hquiet
  | .binary left _ right, _, _, _, .binary hleft _ hright, hsites, h, hquiet
  | .logical left _ right, _, _, _, .logical hleft _ hright, hsites, h, hquiet => by
    simp only [Expr.analyse] at hquiet ⊢
    rw [Expr.sites, List.forall_mem_append] at hsites
    have hbefore := quiet_before (right.prefix_analyse known at_ _) hquiet
    have hfirst := left.renamed_analyse hρ at_ hleft hsites.1 h hbefore
    exact right.renamed_analyse hρ at_ hright hsites.2 hfirst hquiet
  | .variable ref name, _, _, _, .variable hname, hsites, h, hquiet => by
    simp only [Expr.analyse] at hquiet ⊢
    obtain rfl := hρ.number hname.number
    have hkept := hsites _ (List.mem_singleton_self _)
    exact h.read hρ (hρ.token hname.token) (hname.lexeme hkept.recorded) hquiet
  | .assign ref name value, _, _, _, .assign hname hvalue, hsites, h, hquiet => by
    simp only [Expr.analyse, Analysis.errors_bind] at hquiet ⊢
    obtain rfl := hρ.number hname.number
    rw [Expr.sites, List.forall_mem_append, List.forall_mem_singleton] at hsites
    have hassigned := value.renamed_analyse hρ at_ hvalue hsites.1 h hquiet
    exact hassigned.bind hρ (by simp : ReferenceUse.assign ≠ .read) (hρ.token hname.token)
      (hname.lexeme hsites.2.recorded)
  | .call callee _ arguments, _, _, _, .call hcallee _ harguments, hsites, h, hquiet => by
    simp only [Expr.analyse] at hquiet ⊢
    rw [Expr.sites, List.forall_mem_append] at hsites
    have hbefore := quiet_before (Expr.prefix_analyseAll known at_ arguments _) hquiet
    have hfirst := callee.renamed_analyse hρ at_ hcallee hsites.1 h hbefore
    exact Expr.renamed_analyseAll hρ at_ arguments harguments hsites.2 hfirst hquiet
  | .get object _, _, _, _, .get hobject _, hsites, h, hquiet => by
    simp only [Expr.analyse] at hquiet ⊢
    exact object.renamed_analyse hρ at_ hobject hsites h hquiet
  | .set object _ value, _, _, _, .set hobject _ hvalue, hsites, h, hquiet => by
    simp only [Expr.analyse] at hquiet ⊢
    rw [Expr.sites, List.forall_mem_append] at hsites
    have hbefore := quiet_before (object.prefix_analyse known at_ _) hquiet
    have hfirst := value.renamed_analyse hρ at_ hvalue hsites.1 h hbefore
    exact object.renamed_analyse hρ at_ hobject hsites.2 hfirst hquiet
  | .this ref keyword, _, _, _, .this hkeyword, hsites, h, hquiet => by
    simp only [Expr.analyse] at hquiet ⊢
    by_cases hcls : at_.cls = .none
    · rw [if_pos hcls] at hquiet
      simp [Analysis.complain] at hquiet
    · rw [if_neg hcls, if_neg hcls]
      obtain rfl := hρ.number hkeyword.number
      have hkept := hsites _ (List.mem_singleton_self _)
      exact h.bind hρ (by simp : ReferenceUse.this ≠ .read) (hρ.token hkeyword.token)
        (hkeyword.lexeme hkept.recorded)
  | .super ref keyword method, _, a, a', @Like.super _ _ _ _ _ keyword' _ _ hnumber hkeyword _,
      hsites, h, hquiet => by
    simp only [Expr.analyse, Analysis.errors_bind] at hquiet ⊢
    have hderived : at_.cls = .derived := by
      cases hcls : at_.cls with
      | none | base => simp [hcls, Analysis.checkSuper, Analysis.complain] at hquiet
      | derived => rfl
    have hspelled := (hsites _ (List.mem_singleton_self _)).super rfl
    have hname : keyword'.lexeme = renamingAt Γ
        (Site.visible? ⟨⟨.super, ref, keyword⟩, Λ, pending⟩) keyword.lexeme := by
      have hsuper : keyword.lexeme = "super" := hspelled
      rw [hkeyword.lexeme, hsuper, Renaming.super]
    obtain rfl := hρ.number hnumber
    rw [hderived]
    exact h.bind hρ (by simp : ReferenceUse.super ≠ .read) (hρ.token hkeyword.token) hname

lemma Expr.renamed_analyseAll (hρ : ρ.Hygienic N) (at_ : Surroundings) : (es : List Expr) →
    {es' : List Expr} → {a a' : Analysis} → List.Forall₂ (Expr.Like ρ Γ) es es' →
    (∀ site ∈ Expr.sitesAll Λ pending es, site.Kept ρ) → a.Renamed ρ N Γ Λ pending a' →
    (Expr.analyseAll known at_ es a).errors = [] →
    (Expr.analyseAll known at_ es a).Renamed ρ N Γ Λ pending (Expr.analyseAll known at_ es' a')
  | [], _, _, _, .nil, _, h, _ => h
  | e :: rest, _, _, _, .cons he hrest, hsites, h, hquiet => by
    simp only [Expr.analyseAll] at hquiet ⊢
    rw [Expr.sitesAll, List.forall_mem_append] at hsites
    have hbefore := quiet_before (Expr.prefix_analyseAll known at_ rest _) hquiet
    have hfirst := e.renamed_analyse hρ at_ he hsites.1 h hbefore
    exact Expr.renamed_analyseAll hρ at_ rest hrest hsites.2 hfirst hquiet

end

end Expressions

/-! ## Walks over statements -/

section Statements

variable {ρ : Likeness} {N : String → Prop} {known : String → Bool}

mutual

/-- **The walk over a renamed statement** ends where the walk over the statement does. -/
lemma Stmt.renamed_analyse (hρ : ρ.Hygienic N) (at_ : Surroundings) : (s : Stmt) →
    {Γ : List Renaming} → {Λ : LexicalContext} → {s' : Stmt} → {a a' : Analysis} →
    s.isNormal = true → s.Like ρ Γ s' → (∀ site ∈ s.sites Λ, site.Kept ρ) →
    a.Renamed ρ N Γ Λ none a' → (s.analyse known at_ a).errors = [] →
    (s.analyse known at_ a).Renamed ρ N Γ (s.after Λ) none (s'.analyse known at_ a')
  | .expression e, _, _, _, _, _, _, .expression he, hsites, h, hquiet
  | .print e, _, _, _, _, _, _, .print he, hsites, h, hquiet => by
    simp only [Stmt.analyse] at hquiet ⊢
    exact e.renamed_analyse hρ at_ he hsites h hquiet
  | .var _ none, _, _, _, _, _, _, .var hname .none, _, h, hquiet => by
    simp only [Stmt.analyse] at hquiet ⊢
    exact h.introduce (hρ.token hname.token) hname.lexeme hquiet
  | .var name (some e), _, Λ, _, _, _, _, .var hname (.some he), hsites, h, hquiet => by
    simp only [Stmt.analyse, Analysis.errors_define] at hquiet ⊢
    obtain ⟨Λ', hΛ, -⟩ := h.renamed
    have ht := hρ.token hname.token
    have hbefore := quiet_before (e.prefix_analyse known at_ _) hquiet
    have hdeclared := h.declare ht hname.lexeme hbefore
    have hvalue := e.renamed_analyse hρ at_ he hsites hdeclared hquiet
    exact Analysis.Renamed.define hΛ ht hname.lexeme hvalue
  | .block body, _, Λ, _, _, _, hnormal, .block hπ hbody, hsites, h, hquiet => by
    rw [Stmt.isNormal] at hnormal
    simp only [Stmt.analyse] at hquiet ⊢
    have hpush := h.push hπ (.block body) [] (by simp)
    have hinside := Stmt.renamed_analyseAll hρ at_ body hnormal hbody hsites hpush hquiet
    obtain ⟨names, hafter⟩ := Stmt.exists_afterAll ⟨.block body, []⟩ Λ body
    rw [hafter] at hinside
    exact hinside.pop
  | .ifThen condition thenBranch none, _, _, _, _, _, hnormal, .ifThen hcondition hthen, hsites, h,
      hquiet => by
    simp only [Stmt.isNormal, Bool.and_eq_true, Bool.not_eq_true'] at hnormal
    obtain ⟨⟨-, hnormalThen⟩, hdecl⟩ := hnormal
    simp only [Stmt.analyse] at hquiet ⊢
    rw [Stmt.sites, List.forall_mem_append] at hsites
    have hbefore := quiet_before (thenBranch.prefix_analyse known at_ _) hquiet
    have htest := condition.renamed_analyse hρ at_ hcondition hsites.1 h hbefore
    have hbranch := thenBranch.renamed_analyse hρ at_ hnormalThen hthen hsites.2 htest hquiet
    rwa [Stmt.after_of_isDeclaration hdecl] at hbranch
  | .ifThen condition thenBranch (some elseBranch), _, _, _, _, _, hnormal,
      .ifElse hcondition hthen helse, hsites, h, hquiet => by
    simp only [Stmt.isNormal, Bool.and_eq_true, Bool.not_eq_true'] at hnormal
    obtain ⟨⟨⟨⟨⟨-, hnormalThen⟩, hthenDecl⟩, -⟩, hnormalElse⟩, helseDecl⟩ := hnormal
    simp only [Stmt.analyse] at hquiet ⊢
    rw [Stmt.sites, List.forall_mem_append, List.forall_mem_append] at hsites
    have hquietThen := quiet_before (elseBranch.prefix_analyse known at_ _) hquiet
    have hbefore := quiet_before (thenBranch.prefix_analyse known at_ _) hquietThen
    have htest := condition.renamed_analyse hρ at_ hcondition hsites.1.1 h hbefore
    have hfirst := thenBranch.renamed_analyse hρ at_ hnormalThen hthen hsites.1.2 htest hquietThen
    rw [Stmt.after_of_isDeclaration hthenDecl] at hfirst
    have hsecond := elseBranch.renamed_analyse hρ at_ hnormalElse helse hsites.2 hfirst hquiet
    rwa [Stmt.after_of_isDeclaration helseDecl] at hsecond
  | .whileLoop condition body, _, _, _, _, _, hnormal, .whileLoop hcondition hbody, hsites, h,
      hquiet => by
    simp only [Stmt.isNormal, Bool.and_eq_true, Bool.not_eq_true'] at hnormal
    obtain ⟨⟨-, hnormalBody⟩, hdecl⟩ := hnormal
    simp only [Stmt.analyse] at hquiet ⊢
    rw [Stmt.sites, List.forall_mem_append] at hsites
    have hbefore := quiet_before (body.prefix_analyse known _ _) hquiet
    have htest := condition.renamed_analyse hρ at_ hcondition hsites.1 h hbefore
    have hround := body.renamed_analyse hρ _ hnormalBody hbody hsites.2 htest hquiet
    rwa [Stmt.after_of_isDeclaration hdecl] at hround
  | .breakLoop _, _, _, _, _, _, _, .breakLoop _, _, h, hquiet => by
    simp only [Stmt.analyse] at hquiet ⊢
    by_cases hloop : at_.inLoop = true
    · rw [if_pos hloop, if_pos hloop]
      exact h
    · rw [if_neg hloop] at hquiet
      simp [Analysis.complain] at hquiet
  | .returnValue _ none, _, _, _, _, _, _, .returnValue _ .none, _, h, hquiet => by
    simp only [Stmt.analyse] at hquiet ⊢
    by_cases hplace : at_.function = .none
    · rw [if_pos hplace] at hquiet
      simp [Analysis.complain] at hquiet
    · rw [if_neg hplace, if_neg hplace]
      exact h
  | .returnValue _ (some e), _, _, _, _, _, _, .returnValue _ (.some he), hsites, h, hquiet => by
    simp only [Stmt.analyse] at hquiet ⊢
    have hbefore := quiet_before (e.prefix_analyse known at_ _) hquiet
    by_cases hinit : at_.function = .initializer
    · rw [if_pos hinit] at hbefore
      simp [Analysis.complain] at hbefore
    · rw [if_neg hinit] at hbefore
      by_cases hplace : at_.function = .none
      · rw [if_pos hplace] at hbefore
        simp [Analysis.complain] at hbefore
      · simp only [if_neg hinit, if_neg hplace] at hquiet ⊢
        exact e.renamed_analyse hρ at_ he hsites h hquiet
  | .function decl, _, _, _, _, _, hnormal, .function hdecl hkept, hsites, h, hquiet => by
    rw [Stmt.isNormal] at hnormal
    simp only [Stmt.analyse] at hquiet ⊢
    have hbefore := quiet_before (decl.prefix_analyse known at_ .function _) hquiet
    have hnamed := hdecl.name.lexeme.trans hkept.symm
    have hname := h.introduce (hρ.token hdecl.name.token) hnamed hbefore
    exact decl.renamed_analyse hρ at_ .function hnormal hdecl hsites hname hquiet
  | .classDecl name none methods, _, _, _, _, _, hnormal, .baseClass hname hkept hmethods, hsites,
      h, hquiet => by
    simp only [Stmt.isNormal, Bool.and_eq_true] at hnormal
    simp only [Stmt.analyse] at hquiet ⊢
    have hbefore := quiet_before
      (FunDecl.prefix_analyseMethods known _ methods ((Analysis.introduce _ name).push ["this"]))
      hquiet
    have hnamed := hname.lexeme.trans hkept.symm
    have hintroduced := h.introduce (hρ.token hname.token) hnamed hbefore
    have hthis := hintroduced.push ρ.identity (.parent name methods) ["this"]
      (by simpa using hρ.this)
    exact (FunDecl.renamed_analyseMethods hρ _ _ methods hnormal.2 hmethods hsites hthis hquiet).pop
  | .classDecl name (some superclass) methods, _, _, _, a, _, hnormal,
      .derivedClass hname hkept hsuperclass hmethods, hsites, h, hquiet => by
    simp only [Stmt.isNormal, Bool.and_eq_true] at hnormal
    rw [Stmt.sites, List.forall_mem_append] at hsites
    simp only [Stmt.analyse] at hquiet ⊢
    have hquietSuper := quiet_before (FunDecl.prefix_analyseMethods known _ methods
      (((superclass.analyse known _ (a.introduce name)).push ["super"]).push ["this"])) hquiet
    have hbefore := quiet_before (superclass.prefix_analyse known _ _) hquietSuper
    have hnamed := hname.lexeme.trans hkept.symm
    have hintroduced := h.introduce (hρ.token hname.token) hnamed hbefore
    have hparent := superclass.renamed_analyse hρ _ hsuperclass hsites.1 hintroduced hquietSuper
    have hsuper := hparent.push ρ.identity (.parent name methods) ["super"]
      (by simpa using hρ.super)
    have hthis := hsuper.push ρ.identity (.parent name methods) ["this"]
      (by simpa using hρ.this)
    exact (FunDecl.renamed_analyseMethods hρ _ _ methods hnormal.2 hmethods hsites.2 hthis
      hquiet).pop.pop
termination_by structural s => s

lemma Stmt.renamed_analyseAll (hρ : ρ.Hygienic N) (at_ : Surroundings) : (body : List Stmt) →
    {Γ : List Renaming} → {Λ : LexicalContext} → {body' : List Stmt} → {a a' : Analysis} →
    Stmt.areNormal body = true → Stmt.LikeAll ρ Γ body body' →
    (∀ site ∈ Stmt.sitesAll Λ body, site.Kept ρ) → a.Renamed ρ N Γ Λ none a' →
    (Stmt.analyseAll known at_ body a).errors = [] →
    (Stmt.analyseAll known at_ body a).Renamed ρ N Γ (Stmt.afterAll Λ body) none
      (Stmt.analyseAll known at_ body' a')
  | [], _, _, _, _, _, _, .nil, _, h, _ => h
  | s :: rest, _, _, _, _, _, hnormal, .cons hs hrest, hsites, h, hquiet => by
    simp only [Stmt.areNormal, Bool.and_eq_true] at hnormal
    rw [Stmt.sitesAll, List.forall_mem_append] at hsites
    simp only [Stmt.analyseAll] at hquiet ⊢
    have hbefore := quiet_before (Stmt.prefix_analyseAll known at_ rest _) hquiet
    have hfirst := s.renamed_analyse hρ at_ hnormal.1 hs hsites.1 h hbefore
    exact Stmt.renamed_analyseAll hρ at_ rest hnormal.2 hrest hsites.2 hfirst hquiet
termination_by structural body => body

lemma FunDecl.renamed_analyse (hρ : ρ.Hygienic N) (at_ : Surroundings) (context : FunctionContext) :
    (d : FunDecl) → {Γ : List Renaming} → {Λ : LexicalContext} → {d' : FunDecl} →
    {a a' : Analysis} → d.isNormal = true → d.Like ρ Γ d' → (∀ site ∈ d.sites Λ, site.Kept ρ) →
    a.Renamed ρ N Γ Λ none a' → (d.analyse known at_ context a).errors = [] →
    (d.analyse known at_ context a).Renamed ρ N Γ Λ none (d'.analyse known at_ context a')
  | .mk name params body, _, Λ, _, a, _, hnormal, .mk hπ _ hparams hbody, hsites, h, hquiet => by
    simp only [FunDecl.isNormal, Bool.and_eq_true] at hnormal
    simp only [FunDecl.analyse] at hquiet ⊢
    have hbefore := quiet_before (Stmt.prefix_analyseAll known _ body _) hquiet
    have hpush := h.push hπ (.call (.mk name params body)) [] (by simp)
    have hintroduced := Analysis.Renamed.introduceAll hρ hparams hpush hbefore
    have hscope : (params.foldl Analysis.introduce (a.push [])).Renamed ρ N _
        ((FunDecl.mk name params body).scope :: Λ) none _ :=
      hintroduced.rearrange _ (by simp [FunDecl.scope, FunDecl.params])
    have hinside := Stmt.renamed_analyseAll hρ _ body hnormal.2 hbody hsites hscope hquiet
    obtain ⟨names, hafter⟩ := Stmt.exists_afterAll (FunDecl.mk name params body).scope Λ body
    rw [hafter] at hinside
    exact hinside.pop
termination_by structural d => d

lemma FunDecl.renamed_analyseMethods (hρ : ρ.Hygienic N) (at_ : Surroundings) (region : Region) :
    (ds : List FunDecl) → {π : Renaming} → {Γ : List Renaming} → {Λ : LexicalContext} →
    {ds' : List FunDecl} → {a a' : Analysis} → FunDecl.areNormal ds = true →
    FunDecl.LikeAll ρ (π :: Γ) ds ds' → (∀ site ∈ FunDecl.methodSites Λ ds, site.Kept ρ) →
    a.Renamed ρ N (π :: Γ) (⟨region, ["this"]⟩ :: Λ) none a' →
    (FunDecl.analyseMethods known at_ ds a).errors = [] →
    (FunDecl.analyseMethods known at_ ds a).Renamed ρ N (π :: Γ) (⟨region, ["this"]⟩ :: Λ) none
      (FunDecl.analyseMethods known at_ ds' a')
  | [], _, _, _, _, _, _, _, .nil, _, h, _ => h
  | d :: rest, _, _, Λ, _, _, _, hnormal, .cons hd hrest, hsites, h, hquiet => by
    simp only [FunDecl.areNormal, Bool.and_eq_true] at hnormal
    rw [FunDecl.methodSites, List.forall_mem_append] at hsites
    simp only [FunDecl.analyseMethods, hd.isInitializer] at hquiet ⊢
    have hbefore := quiet_before (FunDecl.prefix_analyseMethods known at_ rest _) hquiet
    -- The walk has one scope of the instance for all methods, where each lexically has its own.
    have hscope := h.rearrange d.receiverScope fun _ => Iff.rfl
    have hfirst := d.renamed_analyse hρ at_ _ hnormal.1 hd hsites.1 hscope hbefore
    have hback := hfirst.rearrange ⟨region, ["this"]⟩ fun _ => Iff.rfl
    exact FunDecl.renamed_analyseMethods hρ at_ region rest hnormal.2 hrest hsites.2 hback hquiet
termination_by structural ds => ds

end

/-- **The analysis of a renamed program**: what is renamed hygienically is accepted if the program
was, and every reference has the distance recorded that it had. -/
theorem renamed_analyseProgram (hρ : ρ.Hygienic N) {program program' : List Stmt}
    (hnormal : Stmt.areNormal program = true) (hlike : Stmt.LikeAll ρ [] program program')
    (hsites : ∀ site ∈ programSites program, site.Kept ρ) {d : Distances}
    (hquiet : (analyseProgram known program d).errors = []) :
    (analyseProgram known program' d).errors = [] ∧
      (analyseProgram known program' d).distances = (analyseProgram known program d).distances := by
  have hstart : Analysis.Renamed ρ N [] [] none ⟨[], [], d, []⟩ ⟨[], [], d, []⟩ :=
    ⟨.nil, ⟨[], .nil, .nil⟩, rfl, rfl, rfl⟩
  have hend := Stmt.renamed_analyseAll hρ .topLevel program hnormal hlike hsites hstart hquiet
  exact ⟨hend.quiet, hend.distances⟩

end Statements

end LoxLang
