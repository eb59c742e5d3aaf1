import LoxLang.Proofs.Scope.Locals
import LoxLang.Proofs.Token.Replacement
import Mathlib.Logic.Equiv.Basic

/-!
# Calling a local something else

To rename a local variable or parameter is to change its declaration and the reads and assignments
that are bound to it, and nothing else.  Which these are is read off the table of distances: a
reference belongs to the scope that its recorded distance leads to, and one without a distance is
global (`Expr.rename`, `Stmt.rename`).  The locals of the renamed program are those of the program,
with the one name in place of the other (`programLocals_renameProgram`).

A function or class keeps its name, which is what it is printed as.  That none is called like the
renamed local, in the scope of this local, follows from the scope's declaring no name twice.  So a
program and its renamed version are alike (`like_renameProgram`), and nothing more is needed of them
to compare their analyses and their runs.
-/

namespace LoxLang

/-! ## Renaming -/

/-- Spells a token differently if it has a certain text, and if this is asked for. -/
def Token.respell (old new : String) (asked : Bool) (t : Token) : Token :=
  if asked = true ∧ t.lexeme = old then { t with lexeme := new } else t

/-- Is the scope marked that a reference leads to?  The marks are those of the scopes around the
reference, innermost first; the globals are never marked. -/
def isMarked (marks : List Bool) : Option Nat → Bool
  | none => false
  | some d => marks.getD d false

section Rename

variable (distances : Distances) (old new : String)

mutual

/-- Renames, in an expression, the reads and assignments that lead to a marked scope. -/
def Expr.rename (marks : List Bool) : Expr → Expr
  | .literal value => .literal value
  | .grouping inner => .grouping (inner.rename marks)
  | .unary operator right => .unary operator (right.rename marks)
  | .binary left operator right => .binary (left.rename marks) operator (right.rename marks)
  | .logical left operator right => .logical (left.rename marks) operator (right.rename marks)
  | .variable ref name =>
    .variable ref (name.respell old new (isMarked marks (distances.find? ref)))
  | .assign ref name value =>
    .assign ref (name.respell old new (isMarked marks (distances.find? ref))) (value.rename marks)
  | .call callee paren arguments =>
    .call (callee.rename marks) paren (Expr.renameAll marks arguments)
  | .get object name => .get (object.rename marks) name
  | .set object name value => .set (object.rename marks) name (value.rename marks)
  | .this ref keyword => .this ref keyword
  | .super ref keyword method => .super ref keyword method

def Expr.renameAll (marks : List Bool) : List Expr → List Expr
  | [] => []
  | e :: rest => e.rename marks :: Expr.renameAll marks rest

end

mutual

/-- Renames, in a statement, the variables and parameters of marked scopes and the references that
lead to them.  `marks` tells of the scopes around the statement, and `marked` of those inside it, by
their places. -/
def Stmt.rename (marks : List Bool) (marked : List Nat → Bool) : Stmt → Stmt
  | .expression e => .expression (e.rename distances old new marks)
  | .print e => .print (e.rename distances old new marks)
  | .var name none => .var (name.respell old new (isMarked marks (some 0))) none
  | .var name (some e) =>
    .var (name.respell old new (isMarked marks (some 0))) (some (e.rename distances old new marks))
  | .block body => .block (Stmt.renameAll (marked [] :: marks) marked 0 body)
  | .ifThen condition thenBranch none =>
    .ifThen (condition.rename distances old new marks)
      (thenBranch.rename marks fun place => marked (0 :: place)) none
  | .ifThen condition thenBranch (some elseBranch) =>
    .ifThen (condition.rename distances old new marks)
      (thenBranch.rename marks fun place => marked (0 :: place))
      (some (elseBranch.rename marks fun place => marked (1 :: place)))
  | .whileLoop condition body =>
    .whileLoop (condition.rename distances old new marks)
      (body.rename marks fun place => marked (0 :: place))
  | .breakLoop keyword => .breakLoop keyword
  | .returnValue keyword none => .returnValue keyword none
  | .returnValue keyword (some e) => .returnValue keyword (some (e.rename distances old new marks))
  | .function decl => .function (decl.rename marks marked)
  | .classDecl name none methods =>
    .classDecl name none (FunDecl.renameAll (false :: marks) marked 0 methods)
  | .classDecl name (some superclass) methods =>
    .classDecl name (some (superclass.rename distances old new marks))
      (FunDecl.renameAll (false :: false :: marks) marked 0 methods)

/-- Renames in statements, the first of which has the index `i`. -/
def Stmt.renameAll (marks : List Bool) (marked : List Nat → Bool) (i : Nat) :
    List Stmt → List Stmt
  | [] => []
  | s :: rest =>
    s.rename marks (fun place => marked (i :: place)) :: Stmt.renameAll marks marked (i + 1) rest

/-- Renames in a function.  Its parameters and its body share one scope. -/
def FunDecl.rename (marks : List Bool) (marked : List Nat → Bool) : FunDecl → FunDecl
  | .mk name params body =>
    .mk name (params.map (Token.respell old new (marked [])))
      (Stmt.renameAll (marked [] :: marks) marked 0 body)

/-- Renames in methods, the first of which has the index `i`.  The scopes of the instance and of the
superclass, which are around methods, are never marked. -/
def FunDecl.renameAll (marks : List Bool) (marked : List Nat → Bool) (i : Nat) :
    List FunDecl → List FunDecl
  | [] => []
  | d :: rest =>
    d.rename marks (fun place => marked (i :: place)) ::
      FunDecl.renameAll marks marked (i + 1) rest

end

/-- **Renames one local**: the declaration of `old` in the scope at a place, and the reads and
assignments that are bound to it. -/
def renameProgram (place : List Nat) (program : List Stmt) : List Stmt :=
  Stmt.renameAll distances old new [] (fun other => decide (other = place)) 0 program

end Rename

/-! ## The locals of a renamed program -/

/-- The other name, if a name is the one to be replaced and this is asked for. -/
def respellName (old new : String) (asked : Bool) (name : String) : String :=
  if asked = true ∧ name = old then new else name

/-- A local whose name is replaced if its scope is marked. -/
def respellLocal (old new : String) (marked : List Nat → Bool) (entry : List Nat × String) :
    List Nat × String :=
  (entry.1, respellName old new (marked entry.1) entry.2)

section Locals

variable {distances : Distances} {old new : String}

lemma lexeme_respell_eq (asked : Bool) (t : Token) :
    (t.respell old new asked).lexeme = respellName old new asked t.lexeme := by
  rw [Token.respell, respellName]
  split <;> rfl

/-- Locals under an index are respelled by what is marked under this index. -/
lemma placedUnder_map_respellLocal (i : Nat) (marked : List Nat → Bool)
    (locals : List (List Nat × String)) :
    placedUnder i (locals.map (respellLocal old new fun place => marked (i :: place))) =
      (placedUnder i locals).map (respellLocal old new marked) := by
  rw [placedUnder, placedUnder, List.map_map, List.map_map]
  rfl

lemma map_respellName (marked : List Nat → Bool) (names : List String) :
    (names.map (respellName old new (marked []))).map (([], ·)) =
      (names.map (([], ·))).map (respellLocal old new marked) := by
  rw [List.map_map, List.map_map]
  rfl

lemma Stmt.varName?_rename (marks : List Bool) (marked : List Nat → Bool) (s : Stmt) :
    (s.rename distances old new marks marked).varName? =
      s.varName?.map (respellName old new (isMarked marks (some 0))) := by
  rcases s with _ | _ | ⟨name, _ | _⟩ | _ | ⟨_, _, _ | _⟩ | _ | _ | ⟨_, _ | _⟩ | _ | ⟨_, _ | _, _⟩
  case var.none | var.some => exact congrArg some (lexeme_respell_eq _ name)
  all_goals rfl

/-- The variables that statements declare in the scope around them. -/
lemma Stmt.filterMap_varName?_renameAll (mark : Bool) (marks : List Bool)
    (marked : List Nat → Bool) (body : List Stmt) (i : Nat) :
    (Stmt.renameAll distances old new (mark :: marks) marked i body).filterMap Stmt.varName? =
      (body.filterMap Stmt.varName?).map (respellName old new mark) := by
  induction body generalizing i with
  | nil => rfl
  | cons s rest ih =>
    have hname : (s.rename distances old new (mark :: marks) fun place =>
        marked (i :: place)).varName? = s.varName?.map (respellName old new mark) :=
      s.varName?_rename _ _
    rw [Stmt.renameAll]
    cases hs : s.varName? with
    | none =>
      rw [hs] at hname
      rw [List.filterMap_cons_none hname, List.filterMap_cons_none hs, ih]
    | some name =>
      rw [hs] at hname
      rw [List.filterMap_cons_some hname, List.filterMap_cons_some hs, ih, List.map_cons]

mutual

/-- **The locals of a renamed statement** are those of the statement, respelled in marked scopes. -/
lemma Stmt.locals_rename : (s : Stmt) → (marks : List Bool) → (marked : List Nat → Bool) →
    (s.rename distances old new marks marked).locals =
      s.locals.map (respellLocal old new marked)
  | .block body, marks, marked => by
    simp only [Stmt.rename, Stmt.locals, Stmt.filterMap_varName?_renameAll, map_respellName,
      Stmt.allLocals_renameAll body, List.map_append]
  | .ifThen _ thenBranch none, marks, marked => by
    simp only [Stmt.rename, Stmt.locals, thenBranch.locals_rename, placedUnder_map_respellLocal]
  | .ifThen _ thenBranch (some elseBranch), marks, marked => by
    simp only [Stmt.rename, Stmt.locals, thenBranch.locals_rename, elseBranch.locals_rename,
      placedUnder_map_respellLocal, List.map_append]
  | .whileLoop _ body, marks, marked => by
    simp only [Stmt.rename, Stmt.locals, body.locals_rename, placedUnder_map_respellLocal]
  | .function decl, marks, marked => by
    simp only [Stmt.rename, Stmt.locals, decl.locals_rename]
  | .classDecl _ none methods, marks, marked => by
    simp only [Stmt.rename, Stmt.locals, FunDecl.allLocals_renameAll methods]
  | .classDecl _ (some _) methods, marks, marked => by
    simp only [Stmt.rename, Stmt.locals, FunDecl.allLocals_renameAll methods]
  | .expression _, _, _ | .print _, _, _ | .var _ none, _, _ | .var _ (some _), _, _
  | .breakLoop _, _, _ | .returnValue _ none, _, _ | .returnValue _ (some _), _, _ => rfl

lemma Stmt.allLocals_renameAll : (body : List Stmt) → (marks : List Bool) →
    (marked : List Nat → Bool) → (i : Nat) →
    Stmt.allLocals i (Stmt.renameAll distances old new marks marked i body) =
      (Stmt.allLocals i body).map (respellLocal old new marked)
  | [], _, _, _ => rfl
  | s :: rest, marks, marked, i => by
    simp only [Stmt.renameAll, Stmt.allLocals, s.locals_rename, placedUnder_map_respellLocal,
      Stmt.allLocals_renameAll rest, List.map_append]

lemma FunDecl.locals_rename : (d : FunDecl) → (marks : List Bool) → (marked : List Nat → Bool) →
    (d.rename distances old new marks marked).locals =
      d.locals.map (respellLocal old new marked)
  | .mk name params body, marks, marked => by
    have hparams : (params.map (Token.respell old new (marked []))).map Token.lexeme =
        (params.map Token.lexeme).map (respellName old new (marked [])) := by
      rw [List.map_map, List.map_map]
      exact List.map_congr_left fun t _ => lexeme_respell_eq _ t
    simp only [FunDecl.rename, FunDecl.locals, hparams, Stmt.filterMap_varName?_renameAll,
      ← List.map_append, map_respellName, Stmt.allLocals_renameAll body]

lemma FunDecl.allLocals_renameAll : (ds : List FunDecl) → (marks : List Bool) →
    (marked : List Nat → Bool) → (i : Nat) →
    FunDecl.allLocals i (FunDecl.renameAll distances old new marks marked i ds) =
      (FunDecl.allLocals i ds).map (respellLocal old new marked)
  | [], _, _, _ => rfl
  | d :: rest, marks, marked, i => by
    simp only [FunDecl.renameAll, FunDecl.allLocals, d.locals_rename, placedUnder_map_respellLocal,
      FunDecl.allLocals_renameAll rest, List.map_append]

end

/-- **The locals of a program in which one is renamed**: this one has the new name, and the others
are as they were. -/
lemma programLocals_renameProgram (place : List Nat) (program : List Stmt) :
    programLocals (renameProgram distances old new place program) =
      (programLocals program).map fun entry =>
        if entry = (place, old) then (place, new) else entry := by
  rw [programLocals, renameProgram, Stmt.allLocals_renameAll, programLocals]
  refine List.map_congr_left fun entry _ => ?_
  obtain ⟨other, name⟩ := entry
  by_cases hplace : other = place <;> by_cases hname : name = old <;>
    simp [respellLocal, respellName, hplace, hname]

end Locals

/-! ## A program and the renamed one are alike -/

lemma Token.respelled_respell (old new : String) (asked : Bool) {t : Token}
    (ht : t.isIdentifier = true) : t.Respelled old new (t.respell old new asked) := by
  unfold Token.respell
  split
  · next h => exact ⟨rfl, rfl, .inr ⟨of_decide_eq_true ht, h.2, rfl⟩⟩
  · exact .refl t

/-- A token of a source in which a name does not occur. -/
structure Token.Without (name : String) (t : Token) : Prop where
  spelled : t.IsSpelled
  fresh : t.lexeme ≠ name

section Exchange

variable {old new : String} (hold : Keyword.ofWord? old = none) (hnew : Keyword.ofWord? new = none)

/-- Two names that are no keywords, exchanged. -/
def Renaming.exchange : Renaming where
  apply := Equiv.swap old new
  injective := (Equiv.swap old new).injective
  this := by
    have hthis : Keyword.ofWord? "this" ≠ none := by decide
    exact Equiv.swap_apply_of_ne_of_ne (fun h => hthis (h ▸ hold)) fun h => hthis (h ▸ hnew)
  super := by
    have hsuper : Keyword.ofWord? "super" ≠ none := by decide
    exact Equiv.swap_apply_of_ne_of_ne (fun h => hsuper (h ▸ hold)) fun h => hsuper (h ▸ hnew)

/-- The renaming of a scope that is marked or not. -/
def Renaming.ofMark (mark : Bool) : Renaming := if mark then .exchange hold hnew else .identity

lemma Renaming.ofMark_apply (mark : Bool) {name : String} (hname : name ≠ new) :
    Renaming.ofMark hold hnew mark name = if mark = true ∧ name = old then new else name := by
  cases mark with
  | false => simp [ofMark]
  | true =>
    show Equiv.swap old new name = _
    by_cases heq : name = old
    · simp [heq]
    · rw [Equiv.swap_apply_of_ne_of_ne heq hname]
      simp [heq]

lemma Token.lexeme_respell (mark : Bool) {t : Token} (ht : t.lexeme ≠ new) :
    (t.respell old new mark).lexeme = Renaming.ofMark hold hnew mark t.lexeme := by
  rw [Renaming.ofMark_apply hold hnew mark ht, Token.respell]
  split <;> rfl

lemma renamingAt_ofMark (marks : List Bool) (distance : Option Nat) :
    renamingAt (marks.map (.ofMark hold hnew)) distance =
      .ofMark hold hnew (isMarked marks distance) := by
  cases distance with
  | none => rfl
  | some d =>
    rw [renamingAt, isMarked, List.getD_eq_getElem?_getD, List.getD_eq_getElem?_getD,
      List.getElem?_map]
    cases marks[d]? <;> rfl

/-- **One name is replaced by another**, in marked scopes, and the tokens have a given property. -/
def Likeness.respelled (P : Token → Prop) (distances : Distances) : Likeness where
  token t t' := t.Respelled old new t' ∧ P t
  ref ref ref' := ref' = ref
  distance ref distance := distances.find? ref = distance
  renames π := ∃ mark, π = .ofMark hold hnew mark
  function _ _ := True
  global _ := True
  kind h := h.1.kind
  identity := ⟨false, rfl⟩
  inner _ _ _ := trivial

end Exchange

section Alike

variable {old new : String} (hold : Keyword.ofWord? old = none) (hnew : Keyword.ofWord? new = none)
  {distances : Distances}

/-- A name that occurs nowhere gets in nobody's way. -/
lemma Likeness.hygienic_respelled :
    (respelled hold hnew (·.Without new) distances).Hygienic (· ≠ new) where
  apart := by
    rintro _ _ ⟨mark, rfl⟩ ⟨mark', rfl⟩ name other hname hother heq
    rw [Renaming.ofMark_apply hold hnew mark hname,
      Renaming.ofMark_apply hold hnew mark' hother] at heq
    split at heq <;> split at heq <;> simp_all
  number h := h
  token h := h.2.fresh
  this h := by
    rw [← h] at hnew
    exact absurd hnew (by decide)
  super h := by
    rw [← h] at hnew
    exact absurd hnew (by decide)

/-- A name that is respelled where a mark asks for it. -/
lemma named_respell (mark : Bool) {t : Token} (ht : t.Without new) (hname : t.isIdentifier = true) :
    (Likeness.respelled hold hnew (·.Without new) distances).Named (.ofMark hold hnew mark) t
      (t.respell old new mark) :=
  ⟨⟨Token.respelled_respell old new mark hname, ht⟩, Token.lexeme_respell hold hnew mark ht.fresh⟩

/-- A reference that is respelled where its distance leads to a marked scope. -/
lemma refers_respell (marks : List Bool) (ref : RefId) {t : Token} (ht : t.Without new)
    (hname : t.isIdentifier = true) :
    (Likeness.respelled hold hnew (·.Without new) distances).Refers
      (marks.map (.ofMark hold hnew)) ref t ref
      (t.respell old new (isMarked marks (distances.find? ref))) := by
  have hnamed : (Likeness.respelled hold hnew (·.Without new) distances).Named _ t _ :=
    named_respell hold hnew (isMarked marks (distances.find? ref)) ht hname
  refine ⟨rfl, hnamed.token, ?_⟩
  rintro _ rfl
  rw [renamingAt_ofMark]
  exact hnamed.lexeme

/-- Something else than a renamed local keeps its name, in the scope of that local too. -/
lemma renamingAt_of_spares (marks : List Bool) {t : Token} (ht : t.Without new)
    (hspares : isMarked marks (some 0) = true → t.lexeme ≠ old) :
    renamingAt (marks.map (.ofMark hold hnew)) (some 0) t.lexeme = t.lexeme := by
  rw [renamingAt_ofMark, Renaming.ofMark_apply hold hnew _ ht.fresh]
  exact if_neg fun hrenamed => hspares hrenamed.1 hrenamed.2

lemma same_respelled {t : Token} (ht : t.Without new) :
    (Likeness.respelled hold hnew (·.Without new) distances).Same t t :=
  ⟨⟨.refl t, ht⟩, rfl⟩

section Trees

variable {ρ : Likeness}

mutual

lemma Expr.like_rename (hρ : ∀ {t t'}, ρ.token t t' → t.Without new) (marks : List Bool)
    {Γ : List Renaming} : (e : Expr) →
    e.isNormal = true → e.Like ρ Γ e →
    e.Like (.respelled hold hnew (·.Without new) distances) (marks.map (.ofMark hold hnew))
      (e.rename distances old new marks)
  | .literal value, _, _ => .literal value
  | .grouping inner, hnormal, .grouping hinner => by
    rw [Expr.isNormal] at hnormal
    rw [Expr.rename]
    exact .grouping (inner.like_rename hρ marks hnormal hinner)
  | .unary operator right, hnormal, .unary hoperator hright => by
    simp only [Expr.isNormal, Bool.and_eq_true] at hnormal
    rw [Expr.rename]
    exact .unary (same_respelled hold hnew (hρ hoperator.token))
      (right.like_rename hρ marks hnormal.1.2 hright)
  | .binary left operator right, hnormal, .binary hleft hoperator hright => by
    simp only [Expr.isNormal, Bool.and_eq_true] at hnormal
    rw [Expr.rename]
    exact .binary (left.like_rename hρ marks hnormal.1.2 hleft)
      (same_respelled hold hnew (hρ hoperator.token)) (right.like_rename hρ marks hnormal.2 hright)
  | .logical left operator right, hnormal, .logical hleft hoperator hright => by
    simp only [Expr.isNormal, Bool.and_eq_true] at hnormal
    rw [Expr.rename]
    exact .logical (left.like_rename hρ marks hnormal.1.2 hleft)
      (same_respelled hold hnew (hρ hoperator.token)) (right.like_rename hρ marks hnormal.2 hright)
  | .variable ref name, hnormal, .variable hname => by
    rw [Expr.isNormal] at hnormal
    rw [Expr.rename]
    exact .variable (refers_respell hold hnew marks ref (hρ hname.token) hnormal)
  | .assign ref name value, hnormal, .assign hname hvalue => by
    simp only [Expr.isNormal, Bool.and_eq_true] at hnormal
    rw [Expr.rename]
    exact .assign (refers_respell hold hnew marks ref (hρ hname.token) hnormal.1)
      (value.like_rename hρ marks hnormal.2 hvalue)
  | .call callee paren arguments, hnormal, .call hcallee hparen harguments => by
    simp only [Expr.isNormal, Bool.and_eq_true] at hnormal
    rw [Expr.rename]
    exact .call (callee.like_rename hρ marks hnormal.1.1.1.1 hcallee) ⟨.refl paren, hρ hparen⟩
      (Expr.like_renameAll hρ marks arguments hnormal.2 harguments)
  | .get object name, hnormal, .get hobject hname => by
    simp only [Expr.isNormal, Bool.and_eq_true] at hnormal
    rw [Expr.rename]
    exact .get (object.like_rename hρ marks hnormal.1.1 hobject)
      (same_respelled hold hnew (hρ hname.token))
  | .set object name value, hnormal, .set hobject hname hvalue => by
    simp only [Expr.isNormal, Bool.and_eq_true] at hnormal
    rw [Expr.rename]
    exact .set (object.like_rename hρ marks hnormal.1.1.1 hobject)
      (same_respelled hold hnew (hρ hname.token)) (value.like_rename hρ marks hnormal.2 hvalue)
  | .this ref keyword, hnormal, .this hkeyword => by
    rw [Expr.isNormal] at hnormal
    rw [Expr.rename]
    have hspelled : keyword.lexeme = "this" :=
      (hρ hkeyword.token).spelled.lexeme_of_isKeyword hnormal
    refine .this ⟨rfl, ⟨.refl keyword, (hρ hkeyword.token)⟩, fun {distance} _ => ?_⟩
    rw [hspelled, Renaming.this]
  | .super ref keyword method, _, .super _ hkeyword hmethod => by
    rw [Expr.rename]
    exact .super rfl (same_respelled hold hnew (hρ hkeyword.token))
      (same_respelled hold hnew (hρ hmethod.token))

lemma Expr.like_renameAll (hρ : ∀ {t t'}, ρ.token t t' → t.Without new) (marks : List Bool)
    {Γ : List Renaming} : (es : List Expr) →
    Expr.areNormal es = true → List.Forall₂ (Expr.Like ρ Γ) es es →
    List.Forall₂
      (Expr.Like (.respelled hold hnew (·.Without new) distances) (marks.map (.ofMark hold hnew)))
      es (Expr.renameAll distances old new marks es)
  | [], _, _ => by
    rw [Expr.renameAll]
    exact .nil
  | e :: rest, hnormal, .cons he hrest => by
    simp only [Expr.areNormal, Bool.and_eq_true] at hnormal
    rw [Expr.renameAll]
    exact .cons (e.like_rename hρ marks hnormal.1 he)
      (Expr.like_renameAll hρ marks rest hnormal.2 hrest)

end

mutual

lemma Stmt.like_rename (hρ : ∀ {t t'}, ρ.token t t' → t.Without new) : (s : Stmt) →
    (marks : List Bool) → (marked : List Nat → Bool) → {Γ : List Renaming} → s.isNormal = true →
    s.Like ρ Γ s → s.Distinct → Marks marked old s.locals →
    (isMarked marks (some 0) = true → s.declared? = some old → s.varName? = some old) →
    s.Like (.respelled hold hnew (·.Without new) distances) (marks.map (.ofMark hold hnew))
      (s.rename distances old new marks marked)
  | .expression e, marks, _, _, hnormal, .expression he, _, _, _ => by
    rw [Stmt.isNormal] at hnormal
    rw [Stmt.rename]
    exact .expression (e.like_rename hold hnew hρ marks hnormal he)
  | .print e, marks, _, _, hnormal, .print he, _, _, _ => by
    rw [Stmt.isNormal] at hnormal
    rw [Stmt.rename]
    exact .print (e.like_rename hold hnew hρ marks hnormal he)
  | .var name none, marks, _, _, hnormal, .var hname .none, _, _, _ => by
    simp only [Stmt.isNormal, Bool.and_eq_true] at hnormal
    rw [Stmt.rename]
    refine .var ?_ .none
    rw [renamingAt_ofMark]
    exact named_respell hold hnew _ (hρ hname.token) hnormal.1
  | .var name (some e), marks, _, _, hnormal, .var hname (.some he), _, _, _ => by
    simp only [Stmt.isNormal, Bool.and_eq_true, Option.all_some] at hnormal
    rw [Stmt.rename]
    refine .var ?_ (.some (e.like_rename hold hnew hρ marks hnormal.2 he))
    rw [renamingAt_ofMark]
    exact named_respell hold hnew _ (hρ hname.token) hnormal.1
  | .block body, marks, marked, _, hnormal, .block _ hbody, hdistinct, hmarks, _ => by
    rw [Stmt.isNormal] at hnormal
    rw [Stmt.Distinct] at hdistinct
    rw [Stmt.locals, Stmt.allLocals_eq] at hmarks
    rw [Stmt.rename]
    refine .block ⟨marked [], rfl⟩ (Stmt.like_renameAll hρ body (marked [] :: marks) marked 0
      hnormal hbody hdistinct.2 hmarks.inside fun hmarked s hs => ?_)
    exact Stmt.varName?_of_nodup [] hdistinct.1 (hmarks.here hmarked) s hs
  | .ifThen condition thenBranch none, marks, marked, _, hnormal, .ifThen hcondition hthen,
      hdistinct, hmarks, _ => by
    simp only [Stmt.isNormal, Bool.and_eq_true, Bool.not_eq_true'] at hnormal
    rw [Stmt.Distinct] at hdistinct
    rw [Stmt.locals, ← List.append_nil (placedUnder 0 _)] at hmarks
    rw [Stmt.rename]
    exact .ifThen (condition.like_rename hold hnew hρ marks hnormal.1.1 hcondition)
      (thenBranch.like_rename hρ marks _ hnormal.1.2 hthen hdistinct (hmarks.under (by simp))
        fun _ => Stmt.varName?_of_isDeclaration hnormal.2)
  | .ifThen condition thenBranch (some elseBranch), marks, marked, _, hnormal,
      .ifElse hcondition hthen helse, hdistinct, hmarks, _ => by
    simp only [Stmt.isNormal, Bool.and_eq_true, Bool.not_eq_true'] at hnormal
    obtain ⟨⟨⟨⟨⟨hnormalTest, hnormalThen⟩, hthenDecl⟩, -⟩, hnormalElse⟩, helseDecl⟩ := hnormal
    rw [Stmt.Distinct] at hdistinct
    rw [Stmt.locals] at hmarks
    have hmarksThen := hmarks.under (by simp [mem_placedUnder])
    have hmarksElse := hmarks.swap.under (by simp [mem_placedUnder])
    rw [Stmt.rename]
    exact .ifElse (condition.like_rename hold hnew hρ marks hnormalTest hcondition)
      (thenBranch.like_rename hρ marks _ hnormalThen hthen hdistinct.1 hmarksThen
        fun _ => Stmt.varName?_of_isDeclaration hthenDecl)
      (elseBranch.like_rename hρ marks _ hnormalElse helse hdistinct.2 hmarksElse
        fun _ => Stmt.varName?_of_isDeclaration helseDecl)
  | .whileLoop condition body, marks, marked, _, hnormal, .whileLoop hcondition hbody, hdistinct,
      hmarks, _ => by
    simp only [Stmt.isNormal, Bool.and_eq_true, Bool.not_eq_true'] at hnormal
    rw [Stmt.Distinct] at hdistinct
    rw [Stmt.locals, ← List.append_nil (placedUnder 0 _)] at hmarks
    rw [Stmt.rename]
    exact .whileLoop (condition.like_rename hold hnew hρ marks hnormal.1.1 hcondition)
      (body.like_rename hρ marks _ hnormal.1.2 hbody hdistinct (hmarks.under (by simp))
        fun _ => Stmt.varName?_of_isDeclaration hnormal.2)
  | .breakLoop keyword, _, _, _, _, .breakLoop hkeyword, _, _, _ => by
    rw [Stmt.rename]
    exact .breakLoop (same_respelled hold hnew (hρ hkeyword.token))
  | .returnValue keyword none, _, _, _, _, .returnValue hkeyword .none, _, _, _ => by
    rw [Stmt.rename]
    exact .returnValue (same_respelled hold hnew (hρ hkeyword.token)) .none
  | .returnValue keyword (some e), marks, _, _, hnormal, .returnValue hkeyword (.some he), _, _,
    _ => by
    simp only [Stmt.isNormal, Bool.and_eq_true, Option.all_some] at hnormal
    rw [Stmt.rename]
    exact .returnValue (same_respelled hold hnew (hρ hkeyword.token))
      (.some (e.like_rename hold hnew hρ marks hnormal.2 he))
  | .function decl, marks, marked, _, hnormal, .function hdecl _, hdistinct, hmarks, hspares => by
    rw [Stmt.isNormal] at hnormal
    rw [Stmt.Distinct] at hdistinct
    rw [Stmt.locals] at hmarks
    rw [Stmt.rename]
    refine .function (decl.like_rename hρ marks marked hnormal hdecl hdistinct hmarks) ?_
    exact renamingAt_of_spares hold hnew marks (hρ hdecl.name.token) fun hmarked heq =>
      nomatch hspares hmarked (congrArg some heq)
  | .classDecl name none methods, marks, marked, _, hnormal, .baseClass hname _ hmethods, hdistinct,
      hmarks, hspares => by
    simp only [Stmt.isNormal, Bool.and_eq_true] at hnormal
    rw [Stmt.Distinct] at hdistinct
    rw [Stmt.locals, FunDecl.allLocals_eq] at hmarks
    rw [Stmt.rename]
    refine .baseClass (same_respelled hold hnew (hρ hname.token)) ?_
      (FunDecl.like_renameAll hρ methods (false :: marks) marked 0 hnormal.2 hmethods hdistinct
        fun j place _ => hmarks (j :: place))
    exact renamingAt_of_spares hold hnew marks (hρ hname.token) fun hmarked heq =>
      nomatch hspares hmarked (congrArg some heq)
  | .classDecl name (some superclass) methods, marks, marked, _, hnormal,
      .derivedClass hname _ hsuperclass hmethods, hdistinct, hmarks, hspares => by
    simp only [Stmt.isNormal, Bool.and_eq_true, Option.all_some] at hnormal
    rw [Stmt.Distinct] at hdistinct
    rw [Stmt.locals, FunDecl.allLocals_eq] at hmarks
    rw [Stmt.rename]
    have hparent : superclass.isNormal = true := by
      obtain ⟨ref, parent, rfl, hparent⟩ := Expr.exists_of_isName hnormal.1.2
      exact decide_eq_true hparent
    refine .derivedClass (same_respelled hold hnew (hρ hname.token)) ?_
      (superclass.like_rename hold hnew hρ marks hparent hsuperclass)
      (FunDecl.like_renameAll hρ methods (false :: false :: marks) marked 0 hnormal.2 hmethods
        hdistinct fun j place _ => hmarks (j :: place))
    exact renamingAt_of_spares hold hnew marks (hρ hname.token) fun hmarked heq =>
      nomatch hspares hmarked (congrArg some heq)

lemma Stmt.like_renameAll (hρ : ∀ {t t'}, ρ.token t t' → t.Without new) : (body : List Stmt) →
    (marks : List Bool) → (marked : List Nat → Bool) → (i : Nat) → {Γ : List Renaming} →
    Stmt.areNormal body = true → Stmt.LikeAll ρ Γ body body → Stmt.AllDistinct body →
    MarksFrom marked old i (body.map Stmt.locals) →
    (isMarked marks (some 0) = true → ∀ s ∈ body, s.declared? = some old →
      s.varName? = some old) →
    Stmt.LikeAll (.respelled hold hnew (·.Without new) distances) (marks.map (.ofMark hold hnew))
      body (Stmt.renameAll distances old new marks marked i body)
  | [], _, _, _, _, _, _, _, _, _ => by
    rw [Stmt.renameAll]
    exact .nil
  | s :: rest, marks, marked, i, _, hnormal, .cons hs hrest, hdistinct, hmarks, hspares => by
    simp only [Stmt.areNormal, Bool.and_eq_true] at hnormal
    rw [Stmt.AllDistinct] at hdistinct
    rw [Stmt.renameAll]
    exact .cons
      (s.like_rename hρ marks _ hnormal.1 hs hdistinct.1 hmarks.head fun hmarked =>
        hspares hmarked s List.mem_cons_self)
      (Stmt.like_renameAll hρ rest marks marked (i + 1) hnormal.2 hrest hdistinct.2 hmarks.tail
        fun hmarked s hs => hspares hmarked s (List.mem_cons_of_mem _ hs))

lemma FunDecl.like_rename (hρ : ∀ {t t'}, ρ.token t t' → t.Without new) : (d : FunDecl) →
    (marks : List Bool) → (marked : List Nat → Bool) → {Γ : List Renaming} → d.isNormal = true →
    d.Like ρ Γ d → d.Distinct → Marks marked old d.locals →
    d.Like (.respelled hold hnew (·.Without new) distances) (marks.map (.ofMark hold hnew))
      (d.rename distances old new marks marked)
  | .mk name params body, marks, marked, _, hnormal, .mk _ hname hparams hbody, hdistinct,
      hmarks => by
    simp only [FunDecl.isNormal, Bool.and_eq_true] at hnormal
    rw [FunDecl.Distinct] at hdistinct
    rw [FunDecl.locals, Stmt.allLocals_eq] at hmarks
    rw [FunDecl.rename]
    refine .mk ⟨marked [], rfl⟩ (same_respelled hold hnew (hρ hname.token)) ?_
      (Stmt.like_renameAll hρ body (marked [] :: marks) marked 0 hnormal.2 hbody hdistinct.2
        hmarks.inside fun hmarked s hs => ?_)
    · rw [List.forall₂_map_right_iff, List.forall₂_same]
      intro p hp
      have hnamed := List.forall₂_same.mp hparams p hp
      exact named_respell hold hnew _ (hρ hnamed.token) (List.all_eq_true.mp hnormal.1.1.2 p hp)
    · exact Stmt.varName?_of_nodup _ hdistinct.1 (hmarks.here hmarked) s hs

lemma FunDecl.like_renameAll (hρ : ∀ {t t'}, ρ.token t t' → t.Without new) : (ds : List FunDecl) →
    (marks : List Bool) → (marked : List Nat → Bool) → (i : Nat) → {Γ : List Renaming} →
    FunDecl.areNormal ds = true → FunDecl.LikeAll ρ Γ ds ds → FunDecl.AllDistinct ds →
    MarksFrom marked old i (ds.map FunDecl.locals) →
    FunDecl.LikeAll (.respelled hold hnew (·.Without new) distances) (marks.map (.ofMark hold hnew))
      ds (FunDecl.renameAll distances old new marks marked i ds)
  | [], _, _, _, _, _, _, _, _ => by
    rw [FunDecl.renameAll]
    exact .nil
  | d :: rest, marks, marked, i, _, hnormal, .cons hd hrest, hdistinct, hmarks => by
    simp only [FunDecl.areNormal, Bool.and_eq_true] at hnormal
    rw [FunDecl.AllDistinct] at hdistinct
    rw [FunDecl.renameAll]
    exact .cons (d.like_rename hρ marks _ hnormal.1 hd hdistinct.1 hmarks.head)
      (FunDecl.like_renameAll hρ rest marks marked (i + 1) hnormal.2 hrest hdistinct.2 hmarks.tail)

end

/-- **A program in which one local is renamed is like the program itself.** -/
lemma like_renameProgram (hρ : ∀ {t t'}, ρ.token t t' → t.Without new) {program : List Stmt}
    (hnormal : Stmt.areNormal program = true) (hself : Stmt.LikeAll ρ [] program program)
    (hdistinct : Stmt.AllDistinct program) {place : List Nat}
    (hlocal : (place, old) ∈ programLocals program) :
    Stmt.LikeAll (.respelled hold hnew (·.Without new) distances) [] program
      (renameProgram distances old new place program) := by
  refine Stmt.like_renameAll hold hnew hρ program [] _ 0 hnormal hself hdistinct ?_
    (by simp [isMarked])
  intro j rest _ hmarked
  rw [of_decide_eq_true hmarked, ← Stmt.allLocals_eq]
  exact hlocal

end Trees

end Alike

end LoxLang
