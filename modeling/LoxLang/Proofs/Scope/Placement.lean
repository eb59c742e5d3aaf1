import LoxLang.Proofs.Scope.Resolution
import LoxLang.Token.Scan

/-!
# Where `this` and `super` stand

The machine relies on two facts about programs that no single declaration shows.  A `super` is
followed together with the `this` one scope further in, so wherever `super` is visible, the scope
before it has to declare `this`.  And no variable is called `this` or `super`, so that neither can
be the variable whose initializer is being evaluated.

Both come from the spelling of tokens.  A word that spells a keyword is never a name, and a keyword
is always spelled as it is; this is so in every source, and thus in every program that was read.
-/

namespace LoxLang

/-! ## Spelling -/

/-- A keyword is spelled as it is, and a name does not spell a keyword. -/
def Token.IsSpelled (t : Token) : Prop :=
  match t.kind with
  | .keyword k => t.lexeme = k.spelling
  | .identifier => Keyword.ofWord? t.lexeme = none
  | _ => True

/-- The token of a segment is spelled. -/
lemma Segment.isSpelled_item? {s : Segment} {line : Nat} {t : Token}
    (h : s.item? line = some (.token t)) : t.IsSpelled := by
  unfold Segment.item? at h
  split at h
  case h_8 =>
    simp only [Option.some.injEq, Item.token.injEq] at h
    subst h
    simp only [Token.IsSpelled, Kind.ofWord]
    split
    · next k hkind =>
      split at hkind
      · next hword =>
        cases hkind
        exact (Keyword.spelling_of_ofWord? hword).symm
      · cases hkind
    · next hkind =>
      split at hkind
      · cases hkind
      · assumption
    · trivial
  case h_10 => simp at h
  all_goals
    simp only [Option.some.injEq, Item.token.injEq, reduceCtorEq] at h
    try subst h
    try trivial

lemma isSpelled_itemsFrom (line : Nat) (segments : List Segment) {t : Token}
    (h : Item.token t ∈ itemsFrom line segments) : t.IsSpelled := by
  induction segments generalizing line with
  | nil =>
    simp only [itemsFrom, List.mem_singleton, Item.token.injEq] at h
    subst h
    trivial
  | cons s rest ih =>
    simp only [itemsFrom] at h
    split at h
    · next item hitem =>
      rcases List.mem_cons.mp h with rfl | h
      · exact Segment.isSpelled_item? hitem
      · exact ih _ h
    · exact ih _ h

/-- **Every token of a source is spelled.** -/
lemma isSpelled_tokensOf (source : String) : ∀ t ∈ tokensOf source, t.IsSpelled := by
  intro t ht
  obtain ⟨item, hitem, htoken⟩ := List.mem_filterMap.mp ht
  cases item with
  | complaint line cause => simp [Item.token?] at htoken
  | token u =>
    simp only [Item.token?, Option.some.injEq] at htoken
    subst htoken
    exact isSpelled_itemsFrom 1 _ hitem

lemma usual_isSpelled : Token.Usual Token.IsSpelled where
  mark _ := trivial
  word _ := rfl
  literal value := by
    rcases value with _ | (_ | _) | _ | _
    · exact rfl
    · exact rfl
    · exact rfl
    · trivial
    · trivial

namespace Token

variable {t : Token}

lemma IsSpelled.lexeme_of_isKeyword (h : t.IsSpelled) {k : Keyword} (hk : t.isKeyword k = true) :
    t.lexeme = k.spelling := by
  simp only [isKeyword, decide_eq_true_eq] at hk
  simpa [IsSpelled, hk] using h

lemma IsSpelled.ofWord?_of_isIdentifier (h : t.IsSpelled) (hname : t.isIdentifier = true) :
    Keyword.ofWord? t.lexeme = none := by
  simp only [isIdentifier, decide_eq_true_eq] at hname
  simpa [IsSpelled, hname] using h

/-- A name is no keyword. -/
lemma IsSpelled.ne_spelling (h : t.IsSpelled) (hname : t.isIdentifier = true) (k : Keyword) :
    t.lexeme ≠ k.spelling := by
  intro heq
  have hnone := h.ofWord?_of_isIdentifier hname
  rw [heq, Keyword.ofWord?_spelling] at hnone
  cases hnone

end Token

/-! ## Scopes around `super` -/

/-- Nothing but the scope around the methods of a class declares `super`, and the scope one further
in declares `this`. -/
inductive LexicalContext.Paired : LexicalContext → Prop
  | nil : Paired []
  | cons {σ Γ} (hsuper : "super" ∉ σ.names) (h : Paired Γ) : Paired (σ :: Γ)
  | method {σ τ Γ} (hthis : "this" ∈ σ.names) (hsuper : "super" ∉ σ.names) (h : Paired Γ) :
      Paired (σ :: τ :: Γ)

namespace LexicalContext

variable {Γ : LexicalContext}

/-- **The scope before a visible `super` declares `this`.** -/
lemma Paired.exists_this (h : Γ.Paired) {d : Nat}
    (hd : Γ.findIdx? (·.declares "super") = some d) :
    ∃ j σ, d = j + 1 ∧ Γ[j]? = some σ ∧ "this" ∈ σ.names := by
  induction h generalizing d with
  | nil => simp at hd
  | @cons σ Γ hsuper _ ih =>
    have hσ : σ.declares "super" = false := by simp [LexicalScope.declares, hsuper]
    rw [List.findIdx?_cons, hσ] at hd
    simp only [Bool.false_eq_true, if_false, Option.map_eq_some_iff] at hd
    obtain ⟨d', hd', rfl⟩ := hd
    obtain ⟨j, τ, rfl, hτ, hthis⟩ := ih hd'
    exact ⟨j + 1, τ, rfl, hτ, hthis⟩
  | @method σ τ Γ hthis hsuper _ ih =>
    have hσ : σ.declares "super" = false := by simp [LexicalScope.declares, hsuper]
    rw [List.findIdx?_cons, hσ, List.findIdx?_cons] at hd
    simp only [Bool.false_eq_true, if_false] at hd
    by_cases hτ : τ.declares "super" = true
    · rw [if_pos hτ] at hd
      simp only [Option.map_some, Option.some.injEq] at hd
      exact ⟨0, σ, hd.symm, rfl, hthis⟩
    · rw [if_neg hτ, Option.map_map, Option.map_eq_some_iff] at hd
      obtain ⟨d', hd', rfl⟩ := hd
      obtain ⟨j, υ, rfl, hυ, hthis⟩ := ih hd'
      exact ⟨j + 2, υ, rfl, hυ, hthis⟩

lemma Paired.declare (h : Γ.Paired) {name : Token} (hname : name.lexeme ≠ "super") :
    (Γ.declare name).Paired := by
  cases h with
  | nil => exact .nil
  | cons hsuper h => exact .cons (by simp [Ne.symm hname, hsuper]) h
  | method hthis hsuper h => exact .method (by simp [hthis]) (by simp [Ne.symm hname, hsuper]) h

end LexicalContext

/-- What is known of every site of a program that was read from a source. -/
structure Site.Placed (s : Site) : Prop where
  paired : s.scopes.Paired
  /-- The variable in whose initializer the site stands is no keyword. -/
  pending : ∀ x, s.pending = some x → Keyword.ofWord? x = none
  this : s.reference.use = .this → s.name = "this"
  super : s.reference.use = .super → s.name = "super"

lemma Token.IsSpelled.name_ne_super {name : Token} (h : name.IsSpelled)
    (hname : name.isIdentifier = true) : name.lexeme ≠ "super" := h.ne_spelling hname .super_

lemma Expr.mem_laterTokens {es : List Expr} {t : Token} (h : t ∈ Expr.laterTokens es) :
    t = Mark.comma.token ∨ t ∈ Expr.argumentTokens es := by
  cases es with
  | nil => simp [Expr.laterTokens] at h
  | cons e rest =>
    rw [Expr.laterTokens, List.mem_cons] at h
    exact h

lemma mem_intersperse {α : Type} {a b : α} {l : List α} (h : a ∈ l) : a ∈ l.intersperse b := by
  obtain ⟨i, hi⟩ := List.mem_iff_getElem?.mp h
  exact List.mem_iff_getElem?.mpr ⟨2 * i, by rw [List.getElem?_intersperse_two_mul, hi]⟩

section Placed

variable {Γ : LexicalContext}

mutual

lemma Expr.placed {pending : Option String} (hΓ : Γ.Paired)
    (hpending : ∀ x, pending = some x → Keyword.ofWord? x = none) : (e : Expr) →
    e.isNormal = true → (∀ t ∈ e.tokens, t.IsSpelled) → ∀ s ∈ e.sites Γ pending, s.Placed
  | .literal _, _, _ => by simp [Expr.sites]
  | .grouping inner, hnormal, hspelled => by
    rw [Expr.isNormal] at hnormal
    refine Expr.placed hΓ hpending inner hnormal fun t ht => hspelled t ?_
    simp [Expr.tokens, ht]
  | .unary _ right, hnormal, hspelled => by
    simp only [Expr.isNormal, Bool.and_eq_true] at hnormal
    refine Expr.placed hΓ hpending right hnormal.1.2 fun t ht => hspelled t ?_
    simp [Expr.tokens, ht]
  | .binary left _ right, hnormal, hspelled | .logical left _ right, hnormal, hspelled => by
    simp only [Expr.isNormal, Bool.and_eq_true] at hnormal
    rw [Expr.sites, List.forall_mem_append]
    constructor
    · refine Expr.placed hΓ hpending left hnormal.1.2 fun t ht => hspelled t ?_
      simp [Expr.tokens, ht]
    · refine Expr.placed hΓ hpending right hnormal.2 fun t ht => hspelled t ?_
      simp [Expr.tokens, ht]
  | .variable _ _, _, _ => by
    simp only [Expr.sites, List.forall_mem_singleton]
    exact ⟨hΓ, hpending, by simp, by simp⟩
  | .assign _ _ value, hnormal, hspelled => by
    simp only [Expr.isNormal, Bool.and_eq_true] at hnormal
    rw [Expr.sites, List.forall_mem_append, List.forall_mem_singleton]
    constructor
    · refine Expr.placed hΓ hpending value hnormal.2 fun t ht => hspelled t ?_
      simp [Expr.tokens, ht]
    · exact ⟨hΓ, hpending, by simp, by simp⟩
  | .call callee _ arguments, hnormal, hspelled => by
    simp only [Expr.isNormal, Bool.and_eq_true] at hnormal
    rw [Expr.sites, List.forall_mem_append]
    constructor
    · refine Expr.placed hΓ hpending callee hnormal.1.1.1.1 fun t ht => hspelled t ?_
      simp [Expr.tokens, ht]
    · refine Expr.placedAll hΓ hpending arguments hnormal.2 fun t ht => ?_
      rcases Expr.mem_laterTokens ht with rfl | ht
      · exact usual_isSpelled.mark .comma
      · exact hspelled t (by simp [Expr.tokens, ht])
  | .get object _, hnormal, hspelled => by
    simp only [Expr.isNormal, Bool.and_eq_true] at hnormal
    refine Expr.placed hΓ hpending object hnormal.1.1 fun t ht => hspelled t ?_
    simp [Expr.tokens, ht]
  | .set object _ value, hnormal, hspelled => by
    simp only [Expr.isNormal, Bool.and_eq_true] at hnormal
    rw [Expr.sites, List.forall_mem_append]
    constructor
    · refine Expr.placed hΓ hpending value hnormal.2 fun t ht => hspelled t ?_
      simp [Expr.tokens, ht]
    · refine Expr.placed hΓ hpending object hnormal.1.1.1 fun t ht => hspelled t ?_
      simp [Expr.tokens, ht]
  | .this _ keyword, hnormal, hspelled => by
    rw [Expr.isNormal] at hnormal
    have hkeyword := (hspelled keyword (by simp [Expr.tokens])).lexeme_of_isKeyword hnormal
    simp only [Expr.sites, List.forall_mem_singleton]
    exact ⟨hΓ, hpending, fun _ => hkeyword, by simp⟩
  | .super _ keyword _, hnormal, hspelled => by
    simp only [Expr.isNormal, Bool.and_eq_true] at hnormal
    have hkeyword := (hspelled keyword (by simp [Expr.tokens])).lexeme_of_isKeyword hnormal.1
    simp only [Expr.sites, List.forall_mem_singleton]
    exact ⟨hΓ, hpending, by simp, fun _ => hkeyword⟩

lemma Expr.placedAll {pending : Option String} (hΓ : Γ.Paired)
    (hpending : ∀ x, pending = some x → Keyword.ofWord? x = none) : (es : List Expr) →
    Expr.areNormal es = true → (∀ t ∈ Expr.laterTokens es, t.IsSpelled) →
    ∀ s ∈ Expr.sitesAll Γ pending es, s.Placed
  | [], _, _ => by simp [Expr.sitesAll]
  | e :: rest, hnormal, hspelled => by
    simp only [Expr.areNormal, Bool.and_eq_true] at hnormal
    rw [Expr.sitesAll, List.forall_mem_append]
    constructor
    · refine Expr.placed hΓ hpending e hnormal.1 fun t ht => hspelled t ?_
      simp [Expr.laterTokens, ht]
    · refine Expr.placedAll hΓ hpending rest hnormal.2 fun t ht => hspelled t ?_
      simp [Expr.laterTokens, ht]

end

/-- The superclass of a class is a name, and names are placed. -/
lemma Expr.placed_of_isName (hΓ : Γ.Paired) {e : Expr} (h : e.isName = true) :
    ∀ s ∈ e.sites Γ none, s.Placed := by
  obtain ⟨ref, name, rfl, -⟩ := Expr.exists_of_isName h
  simp only [Expr.sites, List.forall_mem_singleton]
  exact ⟨hΓ, by simp, by simp, by simp⟩

lemma LexicalContext.ofWord?_pending {name : Token} (hspelled : name.IsSpelled)
    (hname : name.isIdentifier = true) :
    ∀ x, Γ.pending name = some x → Keyword.ofWord? x = none := by
  intro x hx
  cases Γ with
  | nil => simp [LexicalContext.pending] at hx
  | cons σ Γ =>
    simp only [LexicalContext.pending, Option.some.injEq] at hx
    rw [← hx]
    exact hspelled.ofWord?_of_isIdentifier hname

/-- Statements declare names only. -/
lemma Stmt.paired_after (hΓ : Γ.Paired) {s : Stmt} (hnormal : s.isNormal = true)
    (hspelled : ∀ t ∈ s.tokens, t.IsSpelled) : (s.after Γ).Paired := by
  cases s with
  | var name value =>
    simp only [Stmt.isNormal, Bool.and_eq_true] at hnormal
    exact hΓ.declare ((hspelled name (by simp [Stmt.tokens])).name_ne_super hnormal.1)
  | function decl =>
    obtain ⟨name, params, body⟩ := decl
    simp only [Stmt.isNormal, FunDecl.isNormal, Bool.and_eq_true] at hnormal
    have hname := hspelled name (by simp [Stmt.tokens, FunDecl.tokens])
    exact hΓ.declare (hname.name_ne_super hnormal.1.1.1)
  | classDecl name superclass methods =>
    simp only [Stmt.isNormal, Bool.and_eq_true] at hnormal
    exact hΓ.declare ((hspelled name (by simp [Stmt.tokens])).name_ne_super hnormal.1.1)
  | _ => exact hΓ

mutual

lemma Stmt.placed {Γ : LexicalContext} (hΓ : Γ.Paired) : (s : Stmt) → s.isNormal = true →
    (∀ t ∈ s.tokens, t.IsSpelled) → ∀ site ∈ s.sites Γ, site.Placed
  | .expression e, hnormal, hspelled | .print e, hnormal, hspelled => by
    rw [Stmt.isNormal] at hnormal
    refine e.placed hΓ (by simp) hnormal fun t ht => hspelled t ?_
    simp [Stmt.tokens, ht]
  | .var _ none, _, _ | .breakLoop _, _, _ | .returnValue _ none, _, _ => by simp [Stmt.sites]
  | .var name (some e), hnormal, hspelled => by
    simp only [Stmt.isNormal, Bool.and_eq_true, Option.all_some] at hnormal
    have hname := hspelled name (by simp [Stmt.tokens])
    refine e.placed (hΓ.declare (hname.name_ne_super hnormal.1))
      (LexicalContext.ofWord?_pending hname hnormal.1) hnormal.2 fun t ht => hspelled t ?_
    simp [Stmt.tokens, Expr.initializerTokens, ht]
  | .block body, hnormal, hspelled => by
    rw [Stmt.isNormal] at hnormal
    refine Stmt.placedAll (.cons (by simp) hΓ) body hnormal fun t ht => hspelled t ?_
    simp [Stmt.tokens, ht]
  | .ifThen condition thenBranch none, hnormal, hspelled => by
    simp only [Stmt.isNormal, Bool.and_eq_true] at hnormal
    rw [Stmt.sites, List.forall_mem_append]
    constructor
    · refine condition.placed hΓ (by simp) hnormal.1.1 fun t ht => hspelled t ?_
      simp [Stmt.tokens, ht]
    · refine Stmt.placed hΓ thenBranch hnormal.1.2 fun t ht => hspelled t ?_
      simp [Stmt.tokens, ht]
  | .ifThen condition thenBranch (some elseBranch), hnormal, hspelled => by
    simp only [Stmt.isNormal, Bool.and_eq_true] at hnormal
    rw [Stmt.sites, List.forall_mem_append, List.forall_mem_append]
    refine ⟨⟨?_, ?_⟩, ?_⟩
    · refine condition.placed hΓ (by simp) hnormal.1.1.1.1.1 fun t ht => hspelled t ?_
      simp [Stmt.tokens, ht]
    · refine Stmt.placed hΓ thenBranch hnormal.1.1.1.1.2 fun t ht => hspelled t ?_
      simp [Stmt.tokens, ht]
    · refine Stmt.placed hΓ elseBranch hnormal.1.2 fun t ht => hspelled t ?_
      simp [Stmt.tokens, ht]
  | .whileLoop condition body, hnormal, hspelled => by
    simp only [Stmt.isNormal, Bool.and_eq_true] at hnormal
    rw [Stmt.sites, List.forall_mem_append]
    constructor
    · refine condition.placed hΓ (by simp) hnormal.1.1 fun t ht => hspelled t ?_
      simp [Stmt.tokens, ht]
    · refine Stmt.placed hΓ body hnormal.1.2 fun t ht => hspelled t ?_
      simp [Stmt.tokens, ht]
  | .returnValue _ (some e), hnormal, hspelled => by
    simp only [Stmt.isNormal, Bool.and_eq_true, Option.all_some] at hnormal
    refine e.placed hΓ (by simp) hnormal.2 fun t ht => hspelled t ?_
    simp [Stmt.tokens, Expr.optionTokens, ht]
  | .function decl, hnormal, hspelled => by
    have hafter := Stmt.paired_after hΓ hnormal hspelled
    rw [Stmt.isNormal] at hnormal
    refine FunDecl.placed hafter decl hnormal fun t ht => hspelled t ?_
    simp [Stmt.tokens, ht]
  | .classDecl name none methods, hnormal, hspelled => by
    have hafter := Stmt.paired_after hΓ hnormal hspelled
    simp only [Stmt.isNormal, Bool.and_eq_true] at hnormal
    refine FunDecl.placedMethods (fun d => .cons (by simp [FunDecl.receiverScope]) hafter) methods
      hnormal.2 fun t ht => hspelled t ?_
    simp [Stmt.tokens, ht]
  | .classDecl name (some superclass) methods, hnormal, hspelled => by
    have hafter := Stmt.paired_after hΓ hnormal hspelled
    simp only [Stmt.isNormal, Bool.and_eq_true, Option.all_some] at hnormal
    rw [Stmt.sites, List.forall_mem_append]
    constructor
    · exact Expr.placed_of_isName hafter hnormal.1.2
    · refine FunDecl.placedMethods (fun d => .method (by simp [FunDecl.receiverScope])
        (by simp [FunDecl.receiverScope]) hafter) methods hnormal.2 fun t ht => hspelled t ?_
      simp [Stmt.tokens, ht]

lemma Stmt.placedAll {Γ : LexicalContext} (hΓ : Γ.Paired) : (body : List Stmt) →
    Stmt.areNormal body = true → (∀ t ∈ Stmt.tokensAll body, t.IsSpelled) →
    ∀ site ∈ Stmt.sitesAll Γ body, site.Placed
  | [], _, _ => by simp [Stmt.sitesAll]
  | s :: rest, hnormal, hspelled => by
    simp only [Stmt.areNormal, Bool.and_eq_true] at hnormal
    simp only [Stmt.tokensAll, List.forall_mem_append] at hspelled
    rw [Stmt.sitesAll, List.forall_mem_append]
    exact ⟨Stmt.placed hΓ s hnormal.1 hspelled.1,
      Stmt.placedAll (Stmt.paired_after hΓ hnormal.1 hspelled.1) rest hnormal.2 hspelled.2⟩

lemma FunDecl.placed {Γ : LexicalContext} (hΓ : Γ.Paired) : (d : FunDecl) → d.isNormal = true →
    (∀ t ∈ d.tokens, t.IsSpelled) → ∀ site ∈ d.sites Γ, site.Placed
  | .mk name params body, hnormal, hspelled => by
    simp only [FunDecl.isNormal, Bool.and_eq_true] at hnormal
    have hparams : "super" ∉ params.map Token.lexeme := by
      intro hsuper
      obtain ⟨p, hp, hlexeme⟩ := List.mem_map.mp hsuper
      have hname : p.isIdentifier = true := List.all_eq_true.mp hnormal.1.1.2 p hp
      have hspelled := hspelled p (by simp [FunDecl.tokens, mem_intersperse hp])
      exact hspelled.name_ne_super hname hlexeme
    refine Stmt.placedAll (.cons hparams hΓ) body hnormal.2 fun t ht => hspelled t ?_
    simp [FunDecl.tokens, ht]

lemma FunDecl.placedMethods {Γ : LexicalContext}
    (hΓ : ∀ d : FunDecl, LexicalContext.Paired (d.receiverScope :: Γ)) :
    (ds : List FunDecl) → FunDecl.areNormal ds = true → (∀ t ∈ FunDecl.tokensAll ds, t.IsSpelled) →
    ∀ site ∈ FunDecl.methodSites Γ ds, site.Placed
  | [], _, _ => by simp [FunDecl.methodSites]
  | d :: rest, hnormal, hspelled => by
    simp only [FunDecl.areNormal, Bool.and_eq_true] at hnormal
    simp only [FunDecl.tokensAll, List.forall_mem_append] at hspelled
    rw [FunDecl.methodSites, List.forall_mem_append]
    exact ⟨FunDecl.placed (hΓ d) d hnormal.1 hspelled.1,
      FunDecl.placedMethods hΓ rest hnormal.2 hspelled.2⟩

end

/-- **The sites of a program that was read are placed**, if its tokens are spelled. -/
lemma Derives.placed {n n' : RefId} {ts : List Token} {program : List Stmt}
    (h : Derives .declarations n ts n' program) (hts : ∀ t ∈ ts, t.IsSpelled) :
    ∀ site ∈ programSites program, site.Placed :=
  Stmt.placedAll .nil program h.fits (h.forall_tokens usual_isSpelled hts)

end Placed

end LoxLang
