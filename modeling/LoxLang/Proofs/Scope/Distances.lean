import LoxLang.Proofs.Scope.Methods

/-!
# Distances are lexical

The distance of a reference is a number of scopes: those strictly inside the innermost scope that
declares the name before the reference.  Scopes are blocks, functions, the scope of an instance
around each method, and around the methods of a class with a superclass the scope of that one.

What counts as a declaration depends on the reference.  A read inside the initializer of a local
variable does not count that variable (`Site.candidates`).  The analysis skips the whole scope
instead, which is the same as long as no scope declares a name twice, and twice is what it complains
about (`Site.OwnOnce`).

For `super` and `this` the scopes are known: the one for `super` is around the one for `this`, and
what is inside of both declares neither.  So the distance of a `super` is one more than that of a
`this` in the same place.
-/

namespace LoxLang

/-! ## Declarations that count -/

namespace Site

/-- **The names declared before a site**, scope by scope from the inside out.  A read does not count
the variable in whose initializer it stands. -/
def candidates (s : Site) : List (List String) :=
  match s.reference.use, s.pending, s.scopes.map LexicalScope.names with
  | .read, some own, innermost :: outer => innermost.erase own :: outer
  | _, _, names => names

/-- The scope that is `d` scopes out has a declaration that counts. -/
def BoundAt (s : Site) (d : Nat) : Prop := ∃ names, s.candidates[d]? = some names ∧ s.name ∈ names

/-- **The lexical distance of a site**: the innermost scope with a declaration that counts is `d`
scopes out. -/
def HasDistance (s : Site) (d : Nat) : Prop := s.BoundAt d ∧ ∀ k < d, ¬s.BoundAt k

variable {s : Site}

lemma findIdx?_map_names (name : String) (Γ : LexicalContext) :
    (Γ.map LexicalScope.names).findIdx? (fun names => decide (name ∈ names)) =
      Γ.findIdx? (·.declares name) := by
  rw [List.findIdx?_map]
  rfl

/-- What is visible is the innermost declaration that counts. -/
lemma OwnOnce.visible?_eq (h : s.OwnOnce) :
    s.visible? = s.candidates.findIdx? fun names => decide (s.name ∈ names) := by
  by_cases hread : s.reference.use = .read
  · cases hpending : s.pending with
    | none =>
      have hown : s.isOwnRead = false := by simp [isOwnRead, hpending]
      have hall : s.candidates = s.scopes.map LexicalScope.names := by
        simp [candidates, hread, hpending]
      rw [hall, findIdx?_map_names]
      simp [visible?, hown]
    | some own =>
      obtain ⟨σ, outer, hscopes, honce⟩ := h own hpending
      have hall : s.candidates = σ.names.erase own :: outer.map LexicalScope.names := by
        simp [candidates, hread, hpending, hscopes]
      rw [hall, List.findIdx?_cons, findIdx?_map_names]
      by_cases hname : own = s.name
      · have hown : s.isOwnRead = true := by simp [isOwnRead, hread, hpending, hname]
        have hgone : s.name ∉ σ.names.erase own := by
          rw [← hname, ← List.count_eq_zero, List.count_erase_self, honce]
        simp [visible?, hown, hscopes, hgone]
      · have hown : s.isOwnRead = false := by simp [isOwnRead, hpending, hname]
        have hsame : s.name ∈ σ.names.erase own ↔ s.name ∈ σ.names :=
          List.mem_erase_of_ne (Ne.symm hname)
        simp [visible?, hown, hscopes, hsame, List.findIdx?_cons, LexicalScope.declares]
  · have hall : s.candidates = s.scopes.map LexicalScope.names := by
      simp only [candidates]
      split
      · next huse _ _ => exact absurd huse hread
      · rfl
    rw [visible?_of_ne_read hread, hall, findIdx?_map_names]

lemma OwnOnce.visible?_eq_some_iff (h : s.OwnOnce) (d : Nat) :
    s.visible? = some d ↔ s.HasDistance d := by
  rw [h.visible?_eq, List.findIdx?_eq_some_iff_getElem]
  simp only [HasDistance, BoundAt, List.getElem?_eq_some_iff, decide_eq_true_eq]
  constructor
  · rintro ⟨hd, hmem, hinner⟩
    refine ⟨⟨_, ⟨hd, rfl⟩, hmem⟩, ?_⟩
    rintro k hk ⟨names, ⟨_, rfl⟩, hnames⟩
    exact hinner k hk hnames
  · rintro ⟨⟨names, ⟨hd, rfl⟩, hmem⟩, hinner⟩
    refine ⟨hd, hmem, fun k hk hnames => hinner k hk ?_⟩
    exact ⟨_, ⟨hk.trans hd, rfl⟩, hnames⟩

lemma OwnOnce.isSome_visible?_iff (h : s.OwnOnce) :
    s.visible?.isSome = true ↔ ∃ names ∈ s.candidates, s.name ∈ names := by
  rw [h.visible?_eq, List.findIdx?_isSome]
  simp

end Site

/-! ## Programs -/

section Programs

variable {isGlobal : String → Bool} {program : List Stmt} {distances : Distances}

/-- In a program without a complaint every local variable that is being initialized is the only one
of its name in its scope. -/
lemma ownOnce_programSite {P : Token → Prop} (hformed : Stmt.AllFormed P program)
    (hquiet : (analyseProgram isGlobal program distances).errors = []) :
    ∀ s ∈ programSites program, s.OwnOnce :=
  (Stmt.walkedAll isGlobal .topLevel program ⟨[], [], distances, []⟩ hformed .nil hquiet).ownOnce

/-- **The distance of a `super` is one more than that of a `this`** in the same place. -/
lemma Site.Housed.exists_distance {K : ClassDecl → Prop} {site : Site} (h : site.Housed K)
    (huse : site.reference.use = .super) (hname : site.name = "super") :
    ∃ d, site.visible? = some (d + 1) ∧
      ∀ other : Site, other.scopes = site.scopes → other.reference.use = .this →
        other.name = "this" → other.visible? = some d := by
  obtain ⟨inner, c, d, -, outer, -, hscopes, hinner⟩ := (h.super huse).exists_parent
  refine ⟨inner.length, visible?_super hscopes hinner (by simp [huse]) hname, ?_⟩
  intro other hsame hthis hother
  exact visible?_this (hsame.trans hscopes) hinner (by simp [hthis]) hother

end Programs

/-- **Recorded distances are the lexical ones.**  A source is read and analysed without complaint,
and none of its references had a distance before.  Then the sites of the program are its references,
each with a number of its own, and a site has a recorded distance if and only if a scope around it
has a declaration that counts; the distance is that of the innermost such scope.

For a `super` the distance is one more than the lexical distance of a `this` that stood in the same
place, and one more than the distance recorded for a `this` that does. -/
theorem analyseProgram_records_lexical_distances (isGlobal : String → Bool) (source : String)
    (n : RefId) (distances : Distances)
    (hfree : ∀ ref : Nat, n ≤ ref → distances.find? ref = none)
    (hquiet : (analyseProgram isGlobal (readProgram (tokensOf source) n).program
      distances).errors = []) :
    let program := (readProgram (tokensOf source) n).program
    let recorded := (analyseProgram isGlobal program distances).distances
    ((programSites program).map Site.reference).Perm (Stmt.allReferences program) ∧
      ((Stmt.allReferences program).map Reference.ref).Nodup ∧
      (∀ site ∈ programSites program,
        ((recorded.find? site.reference.ref).isSome = true ↔
          ∃ names ∈ site.candidates, site.name ∈ names) ∧
        ∀ d, recorded.find? site.reference.ref = some d ↔ site.HasDistance d) ∧
      ∀ site ∈ programSites program, site.reference.use = .super → ∃ d,
        recorded.find? site.reference.ref = some (d + 1) ∧
        (∀ ref token, token.lexeme = "this" →
          Site.HasDistance { site with reference := ⟨.this, ref, token⟩ } d) ∧
        ∀ other ∈ programSites program, other.reference.use = .this →
          other.scopes = site.scopes → recorded.find? other.reference.ref = some d := by
  intro program recorded
  have hshaped := shaped_readProgram (isSpelled_tokensOf source) n
  have hsites := find?_programSite hshaped.formed hshaped.numbered hquiet hfree
  have hperm := Stmt.perm_sitesAll [] program
  have hown := ownOnce_programSite hshaped.formed hquiet
  have hhoused := housed_of_quiet (K := fun _ => True) isGlobal
    (tidy_readProgram fun _ _ => trivial) hquiet
  have hspelled : ∀ site ∈ programSites program, site.reference.Formed Token.IsSpelled :=
    fun site hsite => hshaped.spelled _ (hperm.mem_iff.mp (List.mem_map_of_mem hsite))
  refine ⟨hperm, hshaped.numbered.nodup, fun site hsite => ?_, fun site hsite huse => ?_⟩
  · rw [hsites site hsite]
    exact ⟨(hown site hsite).isSome_visible?_iff, (hown site hsite).visible?_eq_some_iff⟩
  · have hsuper := hspelled site hsite
    obtain ⟨d, hdistance, hthis⟩ := (hhoused site hsite).exists_distance huse
      (hsuper.token.lexeme_of_isKeyword (hsuper.super huse))
    refine ⟨d, (hsites site hsite).trans hdistance, fun ref token htoken => ?_, ?_⟩
    · have honce : Site.OwnOnce { site with reference := ⟨.this, ref, token⟩ } := hown site hsite
      exact (honce.visible?_eq_some_iff d).mp (hthis _ rfl rfl htoken)
    · intro other hother hotherUse hsame
      have hspelling := hspelled other hother
      rw [hsites other hother]
      exact hthis other hsame hotherUse
        (hspelling.token.lexeme_of_isKeyword (hspelling.this hotherUse))

/-- The inner `a` is being initialized, so its read is of the outer one.  The block and the method
are inside of the scope of the instance, which is inside of that of the superclass. -/
theorem analyseProgram_records_super_outside_this :
    let source := "class A \x7b m() \x7b\x7d \x7d class B < A \x7b m() \x7b var a = 1; " ++
      "\x7b var a = a; super.m(); return this; \x7d \x7d \x7d"
    let program := (readProgram (tokensOf source) 0).program
    let analysis := analyseProgram (fun _ => false) program .empty
    analysis.errors = [] ∧
      (Stmt.allReferences program).map (fun r => analysis.distances.find? r.ref) =
        [none, some 1, some 3, some 2] ∧
      ∀ site ∈ programSites program, ∀ d,
        analysis.distances.find? site.reference.ref = some d ↔ site.HasDistance d := by
  intro source program analysis
  have hquiet : analysis.errors = [] := by decide +kernel
  have hlexical := (analyseProgram_records_lexical_distances (fun _ => false) source 0 .empty
    (fun _ _ => rfl) hquiet).2.2.1
  exact ⟨hquiet, by decide +kernel, fun site hsite => (hlexical site hsite).2⟩

end LoxLang
