import LoxLang.Proofs.Syntax.Numbering
import LoxLang.Proofs.Syntax.Soundness
import Mathlib.Order.Nat

/-!
# The form of what is read

A reader that complains may go on, and what it gives back need not be what any tokens spell: a
declaration can be missing, an invalid target can have lost the value behind it, a call can have too
many arguments.  So a derivation is not to be had.  What holds of every tree that is read, with or
without a complaint, is less, and it is what the analysis of scopes relies on.

Names are bound and assigned where the grammar has names, a superclass is a variable, and no
declaration is a branch or the body of a loop (`Stmt.Formed`).  References are numbered apart, and
each of them is spelled as its use demands (`Reference.Formed`).  All of this is said relative to a
property of the tokens, which every token in the tree inherits.
-/

namespace LoxLang

/-! ## Trees that can be read -/

section Formed

variable (P : Token → Prop)

/-- A name among the tokens. -/
def Token.Named (t : Token) : Prop := t.isIdentifier = true ∧ P t

/-- A reference is spelled as its use demands. -/
structure Reference.Formed (r : Reference) : Prop where
  token : P r.token
  this : r.use = .this → r.token.isKeyword .this_ = true
  super : r.use = .super → r.token.isKeyword .super_ = true

mutual

/-- Every variable in an expression is a name, and so is what is assigned to. -/
def Expr.Formed : Expr → Prop
  | .literal _ | .this _ _ | .super _ _ _ => True
  | .variable _ name => name.Named P
  | .grouping inner => inner.Formed
  | .unary _ right => right.Formed
  | .binary left _ right | .logical left _ right => left.Formed ∧ right.Formed
  | .assign _ name value => name.Named P ∧ value.Formed
  | .call callee _ arguments => callee.Formed ∧ Expr.AllFormed arguments
  | .get object _ => object.Formed
  | .set object _ value => object.Formed ∧ value.Formed

def Expr.AllFormed : List Expr → Prop
  | [] => True
  | e :: rest => e.Formed ∧ Expr.AllFormed rest

end

mutual

/-- **A statement binds names**, a superclass in it is a variable, and no declaration in it is a
branch or the body of a loop. -/
def Stmt.Formed : Stmt → Prop
  | .expression e | .print e => e.Formed P
  | .var name value => name.Named P ∧ ∀ e ∈ value, e.Formed P
  | .block body => Stmt.AllFormed body
  | .ifThen condition thenBranch none =>
    condition.Formed P ∧ thenBranch.Formed ∧ thenBranch.isDeclaration = false
  | .ifThen condition thenBranch (some elseBranch) =>
    condition.Formed P ∧ (thenBranch.Formed ∧ thenBranch.isDeclaration = false) ∧
      elseBranch.Formed ∧ elseBranch.isDeclaration = false
  | .whileLoop condition body => condition.Formed P ∧ body.Formed ∧ body.isDeclaration = false
  | .breakLoop _ => True
  | .returnValue _ value => ∀ e ∈ value, e.Formed P
  | .function decl => decl.Formed
  | .classDecl name superclass methods => name.Named P ∧
    (∀ e ∈ superclass, ∃ ref parent, e = .variable ref parent) ∧ FunDecl.AllFormed methods

def Stmt.AllFormed : List Stmt → Prop
  | [] => True
  | s :: rest => s.Formed ∧ Stmt.AllFormed rest

def FunDecl.Formed : FunDecl → Prop
  | .mk name params body => name.Named P ∧ (∀ p ∈ params, p.Named P) ∧ Stmt.AllFormed body

def FunDecl.AllFormed : List FunDecl → Prop
  | [] => True
  | d :: rest => d.Formed ∧ FunDecl.AllFormed rest

end

end Formed

section Loops

variable {P : Token → Prop}

/-- A loop that is written out keeps the form of its parts. -/
lemma Stmt.formed_forLoop {initializer : Option Stmt} {condition increment : Option Expr}
    {body : Stmt} (hinitializer : ∀ s ∈ initializer, s.Formed P)
    (hcondition : ∀ e ∈ condition, e.Formed P) (hincrement : ∀ e ∈ increment, e.Formed P)
    (hbody : body.Formed P ∧ body.isDeclaration = false) :
    (Stmt.forLoop initializer condition increment body).Formed P ∧
      (Stmt.forLoop initializer condition increment body).isDeclaration = false := by
  have htest : (condition.getD (.literal (.bool true))).Formed P := by
    cases condition with
    | none => trivial
    | some e => exact hcondition e rfl
  cases initializer <;> cases increment <;>
    simp_all [Stmt.forLoop, Stmt.Formed, Stmt.AllFormed, Stmt.isDeclaration]

end Loops

/-! ## Normal trees -/

section Normal

mutual

lemma Expr.formed_of_isNormal : (e : Expr) → e.isNormal = true → e.Formed fun _ => True
  | .literal _, _ | .this _ _, _ | .super _ _ _, _ => trivial
  | .variable _ _, h => ⟨h, trivial⟩
  | .grouping inner, h => inner.formed_of_isNormal h
  | .unary _ right, h => by
    simp only [Expr.isNormal, Bool.and_eq_true] at h
    exact right.formed_of_isNormal h.1.2
  | .binary left _ right, h | .logical left _ right, h => by
    simp only [Expr.isNormal, Bool.and_eq_true] at h
    exact ⟨left.formed_of_isNormal h.1.2, right.formed_of_isNormal h.2⟩
  | .assign _ _ value, h => by
    simp only [Expr.isNormal, Bool.and_eq_true] at h
    exact ⟨⟨h.1, trivial⟩, value.formed_of_isNormal h.2⟩
  | .call callee _ arguments, h => by
    simp only [Expr.isNormal, Bool.and_eq_true] at h
    exact ⟨callee.formed_of_isNormal h.1.1.1.1, Expr.allFormed_of_areNormal arguments h.2⟩
  | .get object _, h => by
    simp only [Expr.isNormal, Bool.and_eq_true] at h
    exact object.formed_of_isNormal h.1.1
  | .set object _ value, h => by
    simp only [Expr.isNormal, Bool.and_eq_true] at h
    exact ⟨object.formed_of_isNormal h.1.1.1, value.formed_of_isNormal h.2⟩

lemma Expr.allFormed_of_areNormal : (es : List Expr) → Expr.areNormal es = true →
    Expr.AllFormed (fun _ => True) es
  | [], _ => trivial
  | e :: rest, h => by
    simp only [Expr.areNormal, Bool.and_eq_true] at h
    exact ⟨e.formed_of_isNormal h.1, Expr.allFormed_of_areNormal rest h.2⟩

end

lemma Expr.optionFormed_of_isNormal {o : Option Expr} (h : o.all Expr.isNormal = true) :
    ∀ e ∈ o, e.Formed fun _ => True := by
  rintro e ⟨⟩
  exact e.formed_of_isNormal h

mutual

/-- A statement that can be read without a complaint is formed. -/
lemma Stmt.formed_of_isNormal : (s : Stmt) → s.isNormal = true → s.Formed fun _ => True
  | .expression e, h | .print e, h => e.formed_of_isNormal h
  | .var _ _, h => by
    simp only [Stmt.isNormal, Bool.and_eq_true] at h
    exact ⟨⟨h.1, trivial⟩, Expr.optionFormed_of_isNormal h.2⟩
  | .block body, h => Stmt.allFormed_of_areNormal body h
  | .ifThen condition thenBranch none, h => by
    simp only [Stmt.isNormal, Bool.and_eq_true, Bool.not_eq_true'] at h
    exact ⟨condition.formed_of_isNormal h.1.1, thenBranch.formed_of_isNormal h.1.2, h.2⟩
  | .ifThen condition thenBranch (some elseBranch), h => by
    simp only [Stmt.isNormal, Bool.and_eq_true, Bool.not_eq_true'] at h
    obtain ⟨⟨⟨⟨⟨hcondition, hthen⟩, hthenDecl⟩, -⟩, helse⟩, helseDecl⟩ := h
    exact ⟨condition.formed_of_isNormal hcondition,
      ⟨thenBranch.formed_of_isNormal hthen, hthenDecl⟩,
      elseBranch.formed_of_isNormal helse, helseDecl⟩
  | .whileLoop condition body, h => by
    simp only [Stmt.isNormal, Bool.and_eq_true, Bool.not_eq_true'] at h
    exact ⟨condition.formed_of_isNormal h.1.1, body.formed_of_isNormal h.1.2, h.2⟩
  | .breakLoop _, _ => trivial
  | .returnValue _ _, h => by
    simp only [Stmt.isNormal, Bool.and_eq_true] at h
    exact Expr.optionFormed_of_isNormal h.2
  | .function decl, h => decl.formed_of_isNormal h
  | .classDecl _ superclass methods, h => by
    simp only [Stmt.isNormal, Bool.and_eq_true] at h
    refine ⟨⟨h.1.1, trivial⟩, ?_, FunDecl.allFormed_of_areNormal methods h.2⟩
    rintro e ⟨⟩
    obtain ⟨ref, parent, rfl, -⟩ := Expr.exists_of_isName (e := e) h.1.2
    exact ⟨ref, parent, rfl⟩

lemma Stmt.allFormed_of_areNormal : (body : List Stmt) → Stmt.areNormal body = true →
    Stmt.AllFormed (fun _ => True) body
  | [], _ => trivial
  | s :: rest, h => by
    simp only [Stmt.areNormal, Bool.and_eq_true] at h
    exact ⟨s.formed_of_isNormal h.1, Stmt.allFormed_of_areNormal rest h.2⟩

lemma FunDecl.formed_of_isNormal : (d : FunDecl) → d.isNormal = true → d.Formed fun _ => True
  | .mk _ params body, h => by
    simp only [FunDecl.isNormal, Bool.and_eq_true] at h
    refine ⟨⟨h.1.1.1, trivial⟩, fun p hp => ⟨List.all_eq_true.mp h.1.1.2 p hp, trivial⟩, ?_⟩
    exact Stmt.allFormed_of_areNormal body h.2

lemma FunDecl.allFormed_of_areNormal : (ds : List FunDecl) → FunDecl.areNormal ds = true →
    FunDecl.AllFormed (fun _ => True) ds
  | [], _ => trivial
  | d :: rest, h => by
    simp only [FunDecl.areNormal, Bool.and_eq_true] at h
    exact ⟨d.formed_of_isNormal h.1, FunDecl.allFormed_of_areNormal rest h.2⟩

end

end Normal

/-! ## What readers give back -/

/-- **What is known of everything that is read**: its form, and its references, which have numbers
apart from `n` on and below `n'`. -/
structure Shaped (P : Token → Prop) (n n' : RefId) (form : Prop) (references : List Reference) :
    Prop where
  formed : form
  numbered : Numbered n n' references
  spelled : ∀ r ∈ references, r.Formed P

namespace Shaped

variable {P : Token → Prop} {n n₁ n₂ n' : RefId} {F G : Prop} {l l' : List Reference}

lemma nil (hF : F) : Shaped P n n' F [] := ⟨hF, .nil, by simp⟩

/-- One reference, with the number that was free. -/
lemma one {r : Reference} (hF : F) (hr : r.Formed P) (hlow : n ≤ r.ref) (hhigh : r.ref < n') :
    Shaped P n n' F [r] :=
  ⟨hF, ⟨by simp, by simpa using ⟨hlow, hhigh⟩⟩, by simpa using hr⟩

lemma mono (h : Shaped P n₁ n₂ F l) (hn : n ≤ n₁) (hn' : n₂ ≤ n') : Shaped P n n' F l :=
  ⟨h.formed, h.numbered.mono hn hn', h.spelled⟩

lemma imp (h : Shaped P n n' F l) (hFG : F → G) : Shaped P n n' G l :=
  ⟨hFG h.formed, h.numbered, h.spelled⟩

lemma append (h : Shaped P n n₁ F l) (h' : Shaped P n₁ n' G l') (hn : n ≤ n₁) (hn' : n₁ ≤ n') :
    Shaped P n n' (F ∧ G) (l ++ l') :=
  ⟨⟨h.formed, h'.formed⟩, h.numbered.append h'.numbered hn hn',
    List.forall_mem_append.mpr ⟨h.spelled, h'.spelled⟩⟩

lemma perm (h : Shaped P n n' F l) (hl : l.Perm l') : Shaped P n n' F l' :=
  ⟨h.formed, h.numbered.perm hl, fun r hr => h.spelled r (hl.mem_iff.mpr hr)⟩

end Shaped

/-- The tokens that a cursor has yet to read have the property. -/
def Cursor.Holds (P : Token → Prop) (c : Cursor) : Prop := ∀ t ∈ c.rest, P t

/-- **What a reader leaves and gives back**, whether it complains or not. -/
inductive Yields {α : Type} (P : Token → Prop) (p : Reader α) (c : Cursor)
    (post : Cursor → α → Prop) : Prop
  | read {a : α} {c' : Cursor} (hrun : p c = (some a, c')) (hc : c'.Holds P)
      (hle : c.nextRef ≤ c'.nextRef) (hpost : post c' a)
  | failed {c' : Cursor} (hrun : p c = (none, c')) (hc : c'.Holds P) (hle : c.nextRef ≤ c'.nextRef)

section Primitives

variable {α β : Type} {P : Token → Prop} {p : Reader α} {c : Cursor}
  {post post' : Cursor → α → Prop}

lemma Yields.mono (h : Yields P p c post')
    (hpost : ∀ c' a, c.nextRef ≤ c'.nextRef → post' c' a → post c' a) : Yields P p c post := by
  cases h with
  | read hrun hc hle h => exact .read hrun hc hle (hpost _ _ hle h)
  | failed hrun hc hle => exact .failed hrun hc hle

/-- **One reader behind another.** -/
lemma Yields.bind {f : α → Reader β} {post₂ : Cursor → β → Prop} (h : Yields P p c post)
    (hnext : ∀ a c₁, c₁.Holds P → c.nextRef ≤ c₁.nextRef → post c₁ a → Yields P (f a) c₁ post₂) :
    Yields P (p >>= f) c post₂ := by
  cases h with
  | @read a c₁ hrun hc₁ hle hpost =>
    have hrun' : (p >>= f) c = f a c₁ := by rw [Reader.run_bind, hrun]
    cases hnext a c₁ hc₁ hle hpost with
    | read hrun₂ hc₂ hle₂ hpost₂ =>
      exact .read (hrun'.trans hrun₂) hc₂ (hle.trans hle₂) hpost₂
    | failed hrun₂ hc₂ hle₂ => exact .failed (hrun'.trans hrun₂) hc₂ (hle.trans hle₂)
  | @failed c₁ hrun hc₁ hle =>
    have hrun' : (p >>= f) c = (none, c₁) := by rw [Reader.run_bind, hrun]
    exact .failed hrun' hc₁ hle

lemma yields_pure {a : α} (hc : c.Holds P) (ha : post c a) : Yields P (pure a) c post :=
  .read rfl hc (Nat.le_refl _) ha

lemma yields_fail (hc : c.Holds P) : Yields P (Reader.fail : Reader α) c post :=
  .failed rfl hc (Nat.le_refl _)

lemma Cursor.Holds.advance (hc : c.Holds P) : c.advance.Holds P := by
  unfold Cursor.advance
  split
  · exact hc
  · exact fun t ht => hc t (List.mem_of_mem_tail ht)

/-- The token at the cursor is one of those to be read, before the end of the source. -/
lemma Cursor.Holds.token (hc : c.Holds P) (hopen : c.isAtEnd = false) : P c.token := by
  rcases hrest : c.rest with _ | ⟨t, rest⟩
  · simp [Cursor.isAtEnd, Cursor.token, hrest, Token.atEnd, Token.isEof] at hopen
  · have htoken : c.token = t := by simp [Cursor.token, hrest]
    exact htoken ▸ hc t (by simp [hrest])

/-- A reader that only looks, before another one. -/
lemma Yields.looking {q : Reader β} {b : β} {f : β → Reader α} (hq : q c = (some b, c))
    (h : Yields P (f b) c post) : Yields P (q >>= f) c post := by
  have hrun : (q >>= f) c = f b c := by rw [Reader.run_bind, hq]
  cases h with
  | read hrun' hc hle hpost => exact .read (hrun.trans hrun') hc hle hpost
  | failed hrun' hc hle => exact .failed (hrun.trans hrun') hc hle

lemma yields_advance (hc : c.Holds P) : Yields P Reader.advance c fun _ _ => True :=
  .read rfl hc.advance (Nat.le_of_eq Cursor.nextRef_advance.symm) trivial

lemma yields_complain (hc : c.Holds P) {t : Token} {cause : SyntaxCause} :
    Yields P (Reader.complain t cause) c fun _ _ => True := .read rfl hc (Nat.le_refl _) trivial

lemma yields_accept? (hc : c.Holds P) {test : Token → Bool} :
    Yields P (Reader.accept? test) c fun _ _ => True := by
  by_cases hpass : (!c.isAtEnd && test c.token) = true
  · exact .read (if_pos hpass) hc.advance (Nat.le_of_eq Cursor.nextRef_advance.symm) trivial
  · exact .read (if_neg hpass) hc (Nat.le_refl _) trivial

/-- A token that has to pass a test passes it, and is one of those to be read. -/
lemma yields_expect (hc : c.Holds P) {test : Token → Bool} {what : Expectation} :
    Yields P (Reader.expect test what) c fun _ t => test t = true ∧ P t := by
  by_cases hpass : (!c.isAtEnd && test c.token) = true
  · obtain ⟨hopen, htest⟩ : c.isAtEnd = false ∧ test c.token = true := by simpa using hpass
    exact .read (if_pos hpass) hc.advance (Nat.le_of_eq Cursor.nextRef_advance.symm)
      ⟨htest, hc.token hopen⟩
  · have hrun : Reader.expect test what c = (none, c.complain c.token (.expected what)) :=
      if_neg hpass
    exact .failed hrun hc (Nat.le_refl _)

/-- A fresh number is the one that was free. -/
lemma yields_freshRef (hc : c.Holds P) :
    Yields P Reader.freshRef c fun c' ref => ref = c.nextRef ∧ c'.nextRef = c.nextRef + 1 :=
  .read rfl hc (Nat.le_succ _) ⟨rfl, rfl⟩

lemma Cursor.Holds.skipToStatement (hc : c.Holds P) : c.skipToStatement.Holds P := by
  intro t ht
  obtain ⟨skipped, hskipped, -⟩ := c.exists_skipped
  exact hc t (by rw [hskipped]; exact List.mem_append_right _ ht)

/-- Recovery gives back what was read, or nothing. -/
lemma yields_recover (h : Yields P p c post) :
    Yields P (Reader.recover p) c fun c' o => ∀ a ∈ o, post c' a := by
  cases h with
  | @read a c' hrun hc hle hpost =>
    have hrun' : Reader.recover p c = (some (some a), c') := by simp [Reader.recover, hrun]
    exact .read hrun' hc hle (by simpa using hpost)
  | @failed c' hrun hc hle =>
    have hrun' : Reader.recover p c = (some none, c'.skipToStatement) := by
      simp [Reader.recover, hrun]
    refine .read hrun' hc.skipToStatement ?_ (by simp)
    rw [Cursor.nextRef_skipToStatement]
    exact hle

end Primitives

/-! ## Expressions -/

/-- An expression that was read from the cursor on. -/
abbrev Cursor.ShapedExpr (P : Token → Prop) (c : Cursor) : Cursor → Expr → Prop := fun c' e =>
  Shaped P c.nextRef c'.nextRef (e.Formed P) e.references

/-- With fuel `n`, expressions have the form of expressions. -/
structure ExpressionsFormed (P : Token → Prop) (n : Nat) : Prop where
  expression : ∀ c : Cursor, c.Holds P → Yields P (Reader.expression n) c (c.ShapedExpr P)
  operand : ∀ (level : Option Level) (c : Cursor), c.Holds P →
    Yields P (Reader.operand n level) c (c.ShapedExpr P)
  chain : ∀ (l : Level) (left : Expr) (c₀ c : Cursor), c.Holds P → c₀.nextRef ≤ c.nextRef →
    c₀.ShapedExpr P c left → Yields P (Reader.chain n l left) c (c₀.ShapedExpr P)
  unary : ∀ c : Cursor, c.Holds P → Yields P (Reader.unary n) c (c.ShapedExpr P)
  suffixes : ∀ (first : Expr) (c₀ c : Cursor), c.Holds P → c₀.nextRef ≤ c.nextRef →
    c₀.ShapedExpr P c first → Yields P (Reader.suffixes n first) c (c₀.ShapedExpr P)
  argumentList : ∀ c : Cursor, c.Holds P → Yields P (Reader.argumentList n) c fun c' es =>
    Shaped P c.nextRef c'.nextRef (Expr.AllFormed P es) (Expr.allReferences es)
  argumentsFrom : ∀ (count : Nat) (c : Cursor), c.Holds P →
    Yields P (Reader.argumentsFrom n count) c fun c' es =>
      Shaped P c.nextRef c'.nextRef (Expr.AllFormed P es) (Expr.allReferences es)
  primary : ∀ c : Cursor, c.Holds P → Yields P (Reader.primary n) c (c.ShapedExpr P)

section Expressions

variable {P : Token → Prop} {n : Nat} {c : Cursor}

/-- A target becomes an assignment if it can be assigned to; the value behind any other target is
lost. -/
lemma yields_assignment {target value : Expr} {equals : Token} {c₀ c₁ : Cursor} (hc : c.Holds P)
    (hle : c₀.nextRef ≤ c₁.nextRef) (hle₁ : c₁.nextRef ≤ c.nextRef)
    (htarget : c₀.ShapedExpr P c₁ target) (hvalue : c₁.ShapedExpr P c value) :
    Yields P
      (match target with
        | .variable _ name => do
          let ref ← Reader.freshRef
          pure (.assign ref name value)
        | .get object name => pure (.set object name value)
        | other => do
          Reader.complain equals .invalidTarget
          pure other) c (c₀.ShapedExpr P) := by
  cases target
  case «variable» ref name =>
    refine (yields_freshRef hc).bind fun ref c₂ hc₂ hle₂ href => yields_pure hc₂ ?_
    have hname : name.Named P := htarget.formed
    have hassigned : Shaped P c.nextRef c₂.nextRef (name.Named P) [⟨.assign, ref, name⟩] :=
      .one hname ⟨hname.2, by simp, by simp⟩ (Nat.le_of_eq href.1.symm)
        (href.1 ▸ href.2 ▸ Nat.lt_succ_self _)
    have hboth := (hvalue.mono hle (Nat.le_refl _)).append hassigned (hle.trans hle₁) hle₂
    exact (hboth.perm List.perm_append_comm).imp And.symm
  case get object name =>
    exact yields_pure hc (Shaped.append (F := object.Formed P) htarget hvalue hle hle₁)
  all_goals
    refine (yields_complain hc).bind fun _ c₂ hc₂ hle₂ _ => yields_pure hc₂ ?_
    exact htarget.mono (Nat.le_refl _) (hle₁.trans hle₂)

lemma yields_expression (ih : ExpressionsFormed P n) (hc : c.Holds P) :
    Yields P (Reader.expression (n + 1)) c (c.ShapedExpr P) := by
  rw [Reader.expression]
  refine (ih.operand (some .disjunction) c hc).bind fun target c₁ hc₁ hle₁ htarget => ?_
  refine (yields_accept? hc₁).bind fun equals c₂ hc₂ hle₂ _ => ?_
  have htarget₂ : c.ShapedExpr P c₂ target := htarget.mono (Nat.le_refl _) hle₂
  rcases equals with _ | equals
  · exact yields_pure hc₂ htarget₂
  · refine (ih.expression c₂ hc₂).bind fun value c₃ hc₃ hle₃ hvalue => ?_
    exact yields_assignment hc₃ (hle₁.trans hle₂) hle₃ htarget₂ hvalue

lemma yields_operand (ih : ExpressionsFormed P n) (level : Option Level) (hc : c.Holds P) :
    Yields P (Reader.operand (n + 1) level) c (c.ShapedExpr P) := by
  rcases level with _ | l
  · rw [Reader.operand]
    exact ih.unary c hc
  · rw [Reader.operand]
    refine (ih.operand l.tighter? c hc).bind fun first c₁ hc₁ hle₁ hfirst => ?_
    exact ih.chain l first c c₁ hc₁ hle₁ hfirst

lemma Level.formed_operation (l : Level) {left right : Expr} (operator : Token)
    (h : left.Formed P ∧ right.Formed P) : (l.operation left operator right).Formed P := by
  cases l <;> exact h

lemma yields_chain (ih : ExpressionsFormed P n) (l : Level) (left : Expr) {c₀ : Cursor}
    (hc : c.Holds P) (hle : c₀.nextRef ≤ c.nextRef) (hleft : c₀.ShapedExpr P c left) :
    Yields P (Reader.chain (n + 1) l left) c (c₀.ShapedExpr P) := by
  rw [Reader.chain]
  refine (yields_accept? hc).bind fun operator c₁ hc₁ hle₁ _ => ?_
  have hleft₁ : c₀.ShapedExpr P c₁ left := hleft.mono (Nat.le_refl _) hle₁
  rcases operator with _ | operator
  · exact yields_pure hc₁ hleft₁
  · refine (ih.operand l.tighter? c₁ hc₁).bind fun right c₂ hc₂ hle₂ hright => ?_
    refine ih.chain l _ c₀ c₂ hc₂ (hle.trans (hle₁.trans hle₂)) ?_
    have hboth := hleft₁.append hright (hle.trans hle₁) hle₂
    rw [Cursor.ShapedExpr, Level.references_operation]
    exact hboth.imp (l.formed_operation operator)

lemma yields_unary (ih : ExpressionsFormed P n) (hc : c.Holds P) :
    Yields P (Reader.unary (n + 1)) c (c.ShapedExpr P) := by
  rw [Reader.unary]
  refine (yields_accept? hc).bind fun operator c₁ hc₁ hle₁ _ => ?_
  rcases operator with _ | operator
  · refine (ih.primary c₁ hc₁).bind fun first c₂ hc₂ hle₂ hfirst => ?_
    exact ih.suffixes first c c₂ hc₂ (hle₁.trans hle₂) (hfirst.mono hle₁ (Nat.le_refl _))
  · refine (ih.unary c₁ hc₁).bind fun right c₂ hc₂ hle₂ hright => yields_pure hc₂ ?_
    exact hright.mono hle₁ (Nat.le_refl _)

lemma yields_suffixes (ih : ExpressionsFormed P n) (first : Expr) {c₀ : Cursor} (hc : c.Holds P)
    (hle : c₀.nextRef ≤ c.nextRef) (hfirst : c₀.ShapedExpr P c first) :
    Yields P (Reader.suffixes (n + 1) first) c (c₀.ShapedExpr P) := by
  rw [Reader.suffixes]
  refine (yields_accept? hc).bind fun left c₁ hc₁ hle₁ _ => ?_
  have hfirst₁ : c₀.ShapedExpr P c₁ first := hfirst.mono (Nat.le_refl _) hle₁
  rcases left with _ | left
  · refine (yields_accept? hc₁).bind fun dot c₂ hc₂ hle₂ _ => ?_
    have hfirst₂ : c₀.ShapedExpr P c₂ first := hfirst₁.mono (Nat.le_refl _) hle₂
    rcases dot with _ | dot
    · exact yields_pure hc₂ hfirst₂
    · refine (yields_expect hc₂).bind fun name c₃ hc₃ hle₃ _ => ?_
      exact ih.suffixes _ c₀ c₃ hc₃ (hle.trans (hle₁.trans (hle₂.trans hle₃)))
        (hfirst₂.mono (Nat.le_refl _) hle₃)
  · refine (ih.argumentList c₁ hc₁).bind fun arguments c₂ hc₂ hle₂ harguments => ?_
    refine (yields_expect hc₂).bind fun paren c₃ hc₃ hle₃ _ => ?_
    have hcall := hfirst₁.append harguments (hle.trans hle₁) hle₂
    exact ih.suffixes _ c₀ c₃ hc₃ (hle.trans (hle₁.trans (hle₂.trans hle₃)))
      (hcall.mono (Nat.le_refl _) hle₃)

lemma yields_argumentList (ih : ExpressionsFormed P n) (hc : c.Holds P) :
    Yields P (Reader.argumentList (n + 1)) c fun c' es =>
      Shaped P c.nextRef c'.nextRef (Expr.AllFormed P es) (Expr.allReferences es) := by
  rw [Reader.argumentList]
  refine .looking rfl ?_
  split
  · exact yields_pure hc (.nil trivial)
  · exact ih.argumentsFrom 0 c hc

/-- A complaint about too many entries, before the next one. -/
lemma yields_limited {α : Type} {count : Nat} {cause : SyntaxCause} (hc : c.Holds P)
    {p : Reader α} {post : Cursor → α → Prop}
    (h : ∀ c', c'.Holds P → c.nextRef ≤ c'.nextRef → Yields P p c' post) :
    Yields P
      (do
        if maxArity ≤ count then Reader.complain (← Reader.peek) cause
        p) c post := by
  split
  · refine .looking rfl ?_
    exact (yields_complain hc).bind fun _ c₁ hc₁ hle₁ _ => h c₁ hc₁ hle₁
  · exact h c hc (Nat.le_refl _)

lemma yields_argumentsFrom (ih : ExpressionsFormed P n) (count : Nat) (hc : c.Holds P) :
    Yields P (Reader.argumentsFrom (n + 1) count) c fun c' es =>
      Shaped P c.nextRef c'.nextRef (Expr.AllFormed P es) (Expr.allReferences es) := by
  rw [Reader.argumentsFrom]
  refine yields_limited hc fun c₁ hc₁ hle₁ => ?_
  refine (ih.expression c₁ hc₁).bind fun first c₂ hc₂ hle₂ hfirst => ?_
  refine (yields_accept? hc₂).bind fun comma c₃ hc₃ hle₃ _ => ?_
  have hfirst₃ := hfirst.mono hle₁ hle₃
  rcases comma with _ | comma
  · have hle : c.nextRef ≤ c₃.nextRef := hle₁.trans (hle₂.trans hle₃)
    exact yields_pure hc₃ (hfirst₃.append (.nil trivial) hle (Nat.le_refl _))
  · refine (ih.argumentsFrom (count + 1) c₃ hc₃).bind fun others c₄ hc₄ hle₄ hothers => ?_
    exact yields_pure hc₄ (hfirst₃.append hothers (hle₁.trans (hle₂.trans hle₃)) hle₄)

/-- A constant has no references. -/
lemma yields_constant (hc : c.Holds P) (value : Literal) :
    Yields P (Reader.advance >>= fun _ => pure (.literal value)) c (c.ShapedExpr P) :=
  (yields_advance hc).bind fun _ _ hc₁ _ _ => yields_pure hc₁ (.nil trivial)

/-- A reference with a fresh number. -/
lemma yields_reference {make : RefId → Expr} {use : ReferenceUse} {t : Token} {c₀ : Cursor}
    (hc : c.Holds P) (hle : c₀.nextRef ≤ c.nextRef)
    (hreference : ∀ ref, (make ref).references = [⟨use, ref, t⟩])
    (hmake : ∀ ref, (make ref).Formed P) (ht : ∀ ref, Reference.Formed P ⟨use, ref, t⟩) :
    Yields P (Reader.freshRef >>= fun ref => pure (make ref)) c (c₀.ShapedExpr P) := by
  refine (yields_freshRef hc).bind fun ref c₁ hc₁ hle₁ href => yields_pure hc₁ ?_
  rw [Cursor.ShapedExpr, hreference]
  exact .one (hmake ref) (ht ref) (href.1 ▸ hle) (href.1 ▸ href.2 ▸ Nat.lt_succ_self _)

lemma yields_primary (ih : ExpressionsFormed P n) (hc : c.Holds P) :
    Yields P (Reader.primary (n + 1)) c (c.ShapedExpr P) := by
  rw [Reader.primary]
  refine .looking rfl ?_
  have hread : ∀ {k : Kind}, c.token.kind = k → k ≠ .eof → P c.token := fun h hk =>
    hc.token (Cursor.isAtEnd_eq_false_of_kind h hk)
  split
  case h_6 h =>
    refine (yields_advance hc).bind fun _ c₁ hc₁ hle₁ _ => ?_
    have hkeyword : c.token.isKeyword .this_ = true := by simp [Token.isKeyword, h]
    exact yields_reference hc₁ hle₁ (fun _ => rfl) (fun _ => trivial)
      fun _ => ⟨hread h (by simp), fun _ => hkeyword, by simp⟩
  case h_7 h =>
    refine (yields_advance hc).bind fun _ c₁ hc₁ hle₁ _ => ?_
    refine (yields_expect hc₁).bind fun dot c₂ hc₂ hle₂ _ => ?_
    refine (yields_expect hc₂).bind fun method c₃ hc₃ hle₃ _ => ?_
    have hkeyword : c.token.isKeyword .super_ = true := by simp [Token.isKeyword, h]
    exact yields_reference hc₃ (hle₁.trans (hle₂.trans hle₃)) (fun _ => rfl) (fun _ => trivial)
      fun _ => ⟨hread h (by simp), by simp, fun _ => hkeyword⟩
  case h_8 h =>
    refine (yields_advance hc).bind fun _ c₁ hc₁ hle₁ _ => ?_
    have hname : c.token.Named P := ⟨by simp [Token.isIdentifier, h], hread h (by simp)⟩
    exact yields_reference hc₁ hle₁ (fun _ => rfl) (fun _ => hname)
      fun _ => ⟨hname.2, by simp, by simp⟩
  case h_9 h =>
    refine (yields_advance hc).bind fun _ c₁ hc₁ hle₁ _ => ?_
    refine (ih.expression c₁ hc₁).bind fun inner c₂ hc₂ hle₂ hinner => ?_
    refine (yields_expect hc₂).bind fun right c₃ hc₃ hle₃ _ => yields_pure hc₃ ?_
    exact hinner.mono hle₁ hle₃
  case h_10 => exact (yields_complain hc).bind fun _ c₁ hc₁ _ _ => yields_fail hc₁
  all_goals exact yields_constant hc _

end Expressions

/-- **Expressions that are read have the form of expressions.** -/
lemma expressionsFormed (P : Token → Prop) (n : Nat) : ExpressionsFormed P n := by
  induction n with
  | zero =>
    constructor
    all_goals
      intros
      exact yields_fail (by assumption)
  | succ n ih =>
    exact {
      expression := fun _ hc => yields_expression ih hc
      operand := fun level _ hc => yields_operand ih level hc
      chain := fun l left _ _ hc hle hleft => yields_chain ih l left hc hle hleft
      unary := fun _ hc => yields_unary ih hc
      suffixes := fun first _ _ hc hle hfirst => yields_suffixes ih first hc hle hfirst
      argumentList := fun _ hc => yields_argumentList ih hc
      argumentsFrom := fun count _ hc => yields_argumentsFrom ih count hc
      primary := fun _ hc => yields_primary ih hc }

/-! ## Clauses of statements and declarations -/

/-- An expression, or nothing, that was read from the cursor on. -/
abbrev Cursor.ShapedOption (P : Token → Prop) (c : Cursor) : Cursor → Option Expr → Prop :=
  fun c' o => Shaped P c.nextRef c'.nextRef (∀ e ∈ o, e.Formed P)
    (Phrase.optionalExpression.references o)

/-- A statement that was read from the cursor on. -/
abbrev Cursor.ShapedStmt (P : Token → Prop) (c : Cursor) : Cursor → Stmt → Prop := fun c' s =>
  Shaped P c.nextRef c'.nextRef (s.Formed P) s.references

/-- A statement that can be a branch or the body of a loop. -/
abbrev Cursor.ShapedBranch (P : Token → Prop) (c : Cursor) : Cursor → Stmt → Prop := fun c' s =>
  Shaped P c.nextRef c'.nextRef (s.Formed P ∧ s.isDeclaration = false) s.references

section Clauses

variable {P : Token → Prop} {n : Nat} {c : Cursor}

lemma yields_expressionUnless (hc : c.Holds P) (m : Mark) :
    Yields P (Reader.expressionUnless n m) c (c.ShapedOption P) := by
  refine .looking rfl ?_
  split
  · exact yields_pure hc (.nil (by simp))
  · refine ((expressionsFormed P n).expression c hc).bind fun e c₁ hc₁ hle₁ he => ?_
    exact yields_pure hc₁ (he.imp fun h => by simpa using h)

lemma yields_expressionStatement (hc : c.Holds P) :
    Yields P (Reader.expressionStatement n) c (c.ShapedBranch P) := by
  refine ((expressionsFormed P n).expression c hc).bind fun e c₁ hc₁ hle₁ he => ?_
  refine (yields_expect hc₁).bind fun semicolon c₂ hc₂ hle₂ _ => yields_pure hc₂ ?_
  exact (he.mono (Nat.le_refl _) hle₂).imp fun h => ⟨h, rfl⟩

lemma yields_varDeclaration (hc : c.Holds P) :
    Yields P (Reader.varDeclaration n) c (c.ShapedStmt P) := by
  refine (yields_expect hc).bind fun name c₁ hc₁ hle₁ hname => ?_
  refine (yields_accept? hc₁).bind fun equals c₂ hc₂ hle₂ _ => ?_
  rcases equals with _ | equals
  · refine (yields_expect hc₂).bind fun semicolon c₃ hc₃ hle₃ _ => yields_pure hc₃ ?_
    exact .nil ⟨hname, by simp⟩
  · refine ((expressionsFormed P n).expression c₂ hc₂).bind fun e c₃ hc₃ hle₃ he => ?_
    refine (yields_expect hc₃).bind fun semicolon c₄ hc₄ hle₄ _ => yields_pure hc₄ ?_
    exact (he.mono (hle₁.trans hle₂) hle₄).imp fun h => ⟨hname, by simpa using h⟩

lemma yields_printStatement (hc : c.Holds P) :
    Yields P (Reader.printStatement n) c (c.ShapedBranch P) := by
  refine ((expressionsFormed P n).expression c hc).bind fun e c₁ hc₁ hle₁ he => ?_
  refine (yields_expect hc₁).bind fun semicolon c₂ hc₂ hle₂ _ => yields_pure hc₂ ?_
  exact (he.mono (Nat.le_refl _) hle₂).imp fun h => ⟨h, rfl⟩

lemma yields_returnStatement (hc : c.Holds P) (keyword : Token) :
    Yields P (Reader.returnStatement n keyword) c (c.ShapedBranch P) := by
  refine (yields_expressionUnless hc .semicolon).bind fun value c₁ hc₁ hle₁ hvalue => ?_
  refine (yields_expect hc₁).bind fun semicolon c₂ hc₂ hle₂ _ => yields_pure hc₂ ?_
  rw [Cursor.ShapedBranch, Stmt.references_returnValue]
  exact (hvalue.mono (Nat.le_refl _) hle₂).imp fun h => ⟨h, rfl⟩

lemma yields_breakStatement (hc : c.Holds P) (keyword : Token) :
    Yields P (Reader.breakStatement keyword) c (c.ShapedBranch P) :=
  (yields_expect hc).bind fun _ _ hc₁ _ _ => yields_pure hc₁ (.nil ⟨trivial, rfl⟩)

lemma yields_forInitializer (hc : c.Holds P) :
    Yields P (Reader.forInitializer n) c fun c' o =>
      Shaped P c.nextRef c'.nextRef (∀ s ∈ o, s.Formed P) (Phrase.forInitializer.references o) := by
  refine (yields_accept? hc).bind fun semicolon c₁ hc₁ hle₁ _ => ?_
  rcases semicolon with _ | semicolon
  · refine (yields_accept? hc₁).bind fun keyword c₂ hc₂ hle₂ _ => ?_
    have hle := hle₁.trans hle₂
    rcases keyword with _ | keyword
    · refine (yields_expressionStatement hc₂).bind fun s c₃ hc₃ hle₃ hs => yields_pure hc₃ ?_
      exact (hs.mono hle (Nat.le_refl _)).imp fun h => by simpa using h.1
    · refine (yields_varDeclaration hc₂).bind fun s c₃ hc₃ hle₃ hs => yields_pure hc₃ ?_
      exact (hs.mono hle (Nat.le_refl _)).imp fun h => by simpa using h
  · exact yields_pure hc₁ (.nil (by simp))

lemma yields_parametersFrom (count : Nat) (hc : c.Holds P) :
    Yields P (Reader.parametersFrom n count) c fun _ params => ∀ p ∈ params, p.Named P := by
  induction n generalizing c count with
  | zero => exact yields_fail hc
  | succ n ih =>
    refine yields_limited hc fun c₁ hc₁ _ => ?_
    refine (yields_expect hc₁).bind fun first c₂ hc₂ _ hfirst => ?_
    refine (yields_accept? hc₂).bind fun comma c₃ hc₃ _ _ => ?_
    rcases comma with _ | comma
    · exact yields_pure hc₃ (List.forall_mem_singleton.mpr hfirst)
    · exact (ih (count + 1) hc₃).bind fun others c₄ hc₄ _ hothers =>
        yields_pure hc₄ (List.forall_mem_cons.mpr ⟨hfirst, hothers⟩)

lemma yields_parameterList (hc : c.Holds P) :
    Yields P (Reader.parameterList n) c fun _ params => ∀ p ∈ params, p.Named P := by
  refine .looking rfl ?_
  split
  · exact yields_pure hc (List.forall_mem_nil _)
  · exact yields_parametersFrom 0 hc

end Clauses

/-! ## Declarations and statements -/

/-- With fuel `n`, declarations and statements have the form of these. -/
structure DeclarationsFormed (P : Token → Prop) (n : Nat) : Prop where
  declaration : ∀ c : Cursor, c.Holds P → Yields P (Reader.declaration n) c fun c' o =>
    ∀ s ∈ o, c.ShapedStmt P c' s
  declarationRule : ∀ c : Cursor, c.Holds P → Yields P (Reader.declarationRule n) c (c.ShapedStmt P)
  classDeclaration : ∀ c : Cursor, c.Holds P →
    Yields P (Reader.classDeclaration n) c (c.ShapedStmt P)
  methodList : ∀ c : Cursor, c.Holds P → Yields P (Reader.methodList n) c fun c' ds =>
    Shaped P c.nextRef c'.nextRef (FunDecl.AllFormed P ds) (FunDecl.allReferences ds)
  function : ∀ (role : Reader.Role) (c : Cursor), c.Holds P →
    Yields P (Reader.function n role) c fun c' d =>
      Shaped P c.nextRef c'.nextRef (d.Formed P) d.references
  block : ∀ c : Cursor, c.Holds P → Yields P (Reader.block n) c fun c' body =>
    Shaped P c.nextRef c'.nextRef (Stmt.AllFormed P body) (Stmt.allReferences body)
  blockItems : ∀ c : Cursor, c.Holds P → Yields P (Reader.blockItems n) c fun c' body =>
    Shaped P c.nextRef c'.nextRef (Stmt.AllFormed P body) (Stmt.allReferences body)
  statement : ∀ c : Cursor, c.Holds P → Yields P (Reader.statement n) c (c.ShapedBranch P)
  forStatement : ∀ c : Cursor, c.Holds P → Yields P (Reader.forStatement n) c (c.ShapedBranch P)
  ifStatement : ∀ c : Cursor, c.Holds P → Yields P (Reader.ifStatement n) c (c.ShapedBranch P)
  whileStatement : ∀ c : Cursor, c.Holds P → Yields P (Reader.whileStatement n) c (c.ShapedBranch P)

section Declarations

variable {P : Token → Prop} {n : Nat} {c : Cursor}

/-- What stands behind a keyword. -/
lemma yields_behind {p : Reader Stmt} {form : Stmt → Prop} (hc : c.Holds P)
    (h : ∀ c₁ : Cursor, c₁.Holds P → Yields P p c₁ fun c' s =>
      Shaped P c₁.nextRef c'.nextRef (form s) s.references) :
    Yields P (Reader.advance >>= fun _ => p) c fun c' s =>
      Shaped P c.nextRef c'.nextRef (form s) s.references :=
  (yields_advance hc).bind fun _ c₁ hc₁ hle₁ _ =>
    (h c₁ hc₁).mono fun _ _ _ hs => hs.mono hle₁ (Nat.le_refl _)

lemma yields_declarationRule (ih : DeclarationsFormed P n) (hc : c.Holds P) :
    Yields P (Reader.declarationRule (n + 1)) c (c.ShapedStmt P) := by
  rw [Reader.declarationRule]
  refine .looking rfl ?_
  split
  · exact yields_behind hc fun c₁ hc₁ => ih.classDeclaration c₁ hc₁
  · exact yields_behind hc fun c₁ hc₁ => (ih.function .function c₁ hc₁).bind
      fun decl c₂ hc₂ _ hdecl => yields_pure hc₂ hdecl
  · exact yields_behind hc fun c₁ hc₁ => yields_varDeclaration hc₁
  · exact (ih.statement c hc).mono fun _ _ _ hs => hs.imp And.left

lemma yields_classDeclaration (ih : DeclarationsFormed P n) (hc : c.Holds P) :
    Yields P (Reader.classDeclaration (n + 1)) c (c.ShapedStmt P) := by
  -- The body of a class, behind its name and the name of its superclass.
  have hbody : ∀ (name : Token) (superclass : Option Expr) (c₁ : Cursor), c₁.Holds P →
      c.nextRef ≤ c₁.nextRef → name.Named P →
      Shaped P c.nextRef c₁.nextRef (∀ e ∈ superclass, ∃ ref parent, e = .variable ref parent)
        (Phrase.superclass.references superclass) →
      Yields P (do
        let _ ← Reader.expectMark .leftBrace .classBody
        let methods ← Reader.methodList n
        let _ ← Reader.expectMark .rightBrace .classEnd
        pure (Stmt.classDecl name superclass methods)) c₁ (c.ShapedStmt P) := by
    intro name superclass c₁ hc₁ hle₁ hname hsuperclass
    refine (yields_expect hc₁).bind fun left c₂ hc₂ hle₂ _ => ?_
    refine (ih.methodList c₂ hc₂).bind fun methods c₃ hc₃ hle₃ hmethods => ?_
    refine (yields_expect hc₃).bind fun right c₄ hc₄ hle₄ _ => yields_pure hc₄ ?_
    rw [Cursor.ShapedStmt, Stmt.references_classDecl]
    refine (hsuperclass.append (hmethods.mono hle₂ hle₄) hle₁ (hle₂.trans (hle₃.trans hle₄))).imp ?_
    exact fun h => ⟨hname, h⟩
  rw [Reader.classDeclaration]
  refine (yields_expect hc).bind fun name c₁ hc₁ hle₁ hname => ?_
  refine (yields_accept? hc₁).bind fun less c₂ hc₂ hle₂ _ => ?_
  have hle := hle₁.trans hle₂
  rcases less with _ | less
  · exact hbody name none c₂ hc₂ hle hname (.nil (by simp))
  · refine (yields_expect hc₂).bind fun parent c₃ hc₃ hle₃ hparent => ?_
    refine (yields_freshRef hc₃).bind fun ref c₄ hc₄ hle₄ href => ?_
    refine hbody name (some (.variable ref parent)) c₄ hc₄ (hle.trans (hle₃.trans hle₄)) hname ?_
    refine .one (by simp) ⟨hparent.2, by simp, by simp⟩ ?_ ?_
    · exact href.1 ▸ hle.trans hle₃
    · exact href.1 ▸ href.2 ▸ Nat.lt_succ_self _

lemma yields_methodList (ih : DeclarationsFormed P n) (hc : c.Holds P) :
    Yields P (Reader.methodList (n + 1)) c fun c' ds =>
      Shaped P c.nextRef c'.nextRef (FunDecl.AllFormed P ds) (FunDecl.allReferences ds) := by
  rw [Reader.methodList]
  refine .looking rfl (.looking rfl ?_)
  split
  · exact yields_pure hc (.nil trivial)
  · refine (ih.function .method c hc).bind fun first c₁ hc₁ hle₁ hfirst => ?_
    refine (ih.methodList c₁ hc₁).bind fun others c₂ hc₂ hle₂ hothers => ?_
    exact yields_pure hc₂ (hfirst.append hothers hle₁ hle₂)

lemma yields_function (ih : DeclarationsFormed P n) (role : Reader.Role) (hc : c.Holds P) :
    Yields P (Reader.function (n + 1) role) c fun c' d =>
      Shaped P c.nextRef c'.nextRef (d.Formed P) d.references := by
  rw [Reader.function]
  refine (yields_expect hc).bind fun name c₁ hc₁ hle₁ hname => ?_
  refine (yields_expect hc₁).bind fun left c₂ hc₂ hle₂ _ => ?_
  refine (yields_parameterList hc₂).bind fun params c₃ hc₃ hle₃ hparams => ?_
  refine (yields_expect hc₃).bind fun right c₄ hc₄ hle₄ _ => ?_
  refine (yields_expect hc₄).bind fun brace c₅ hc₅ hle₅ _ => ?_
  refine (ih.block c₅ hc₅).bind fun body c₆ hc₆ hle₆ hbody => yields_pure hc₆ ?_
  have hle := hle₁.trans (hle₂.trans (hle₃.trans (hle₄.trans hle₅)))
  exact (hbody.mono hle (Nat.le_refl _)).imp fun h => ⟨hname, hparams, h⟩

lemma yields_block (ih : DeclarationsFormed P n) (hc : c.Holds P) :
    Yields P (Reader.block (n + 1)) c fun c' body =>
      Shaped P c.nextRef c'.nextRef (Stmt.AllFormed P body) (Stmt.allReferences body) := by
  rw [Reader.block]
  refine (ih.blockItems c hc).bind fun body c₁ hc₁ hle₁ hbody => ?_
  refine (yields_expect hc₁).bind fun right c₂ hc₂ hle₂ _ => yields_pure hc₂ ?_
  exact hbody.mono (Nat.le_refl _) hle₂

/-- A declaration, if it could be read, in front of others. -/
lemma Shaped.declarations {first : Option Stmt} {others : List Stmt} {n₀ n₁ n₂ : RefId}
    (hfirst : ∀ s ∈ first, Shaped P n₀ n₁ (s.Formed P) s.references)
    (hothers : Shaped P n₁ n₂ (Stmt.AllFormed P others) (Stmt.allReferences others))
    (hle : n₀ ≤ n₁) (hle₁ : n₁ ≤ n₂) :
    Shaped P n₀ n₂ (Stmt.AllFormed P (first.toList ++ others))
      (Stmt.allReferences (first.toList ++ others)) := by
  cases first with
  | none => exact hothers.mono hle (Nat.le_refl _)
  | some s => exact (hfirst s rfl).append hothers hle hle₁

lemma yields_blockItems (ih : DeclarationsFormed P n) (hc : c.Holds P) :
    Yields P (Reader.blockItems (n + 1)) c fun c' body =>
      Shaped P c.nextRef c'.nextRef (Stmt.AllFormed P body) (Stmt.allReferences body) := by
  rw [Reader.blockItems]
  refine .looking rfl (.looking rfl ?_)
  split
  · exact yields_pure hc (.nil trivial)
  · refine (ih.declaration c hc).bind fun first c₁ hc₁ hle₁ hfirst => ?_
    refine (ih.blockItems c₁ hc₁).bind fun others c₂ hc₂ hle₂ hothers => ?_
    exact yields_pure hc₂ (.declarations hfirst hothers hle₁ hle₂)

lemma yields_statement (ih : DeclarationsFormed P n) (hc : c.Holds P) :
    Yields P (Reader.statement (n + 1)) c (c.ShapedBranch P) := by
  rw [Reader.statement]
  refine .looking rfl ?_
  split
  · exact yields_behind hc fun c₁ hc₁ => yields_breakStatement hc₁ _
  · exact yields_behind hc fun c₁ hc₁ => ih.forStatement c₁ hc₁
  · exact yields_behind hc fun c₁ hc₁ => ih.ifStatement c₁ hc₁
  · exact yields_behind hc fun c₁ hc₁ => ih.whileStatement c₁ hc₁
  · exact yields_behind hc fun c₁ hc₁ => yields_returnStatement hc₁ _
  · exact yields_behind hc fun c₁ hc₁ => (ih.block c₁ hc₁).bind
      fun body c₂ hc₂ _ hbody => yields_pure hc₂ (hbody.imp fun h => ⟨h, rfl⟩)
  · exact yields_behind hc fun c₁ hc₁ => yields_printStatement hc₁
  · exact yields_expressionStatement hc

lemma yields_forStatement (ih : DeclarationsFormed P n) (hc : c.Holds P) :
    Yields P (Reader.forStatement (n + 1)) c (c.ShapedBranch P) := by
  rw [Reader.forStatement]
  refine (yields_expect hc).bind fun left c₁ hc₁ hle₁ _ => ?_
  refine (yields_forInitializer hc₁).bind fun initializer c₂ hc₂ hle₂ hinitializer => ?_
  refine (yields_expressionUnless hc₂ _).bind fun condition c₃ hc₃ hle₃ hcondition => ?_
  refine (yields_expect hc₃).bind fun semicolon c₄ hc₄ hle₄ _ => ?_
  refine (yields_expressionUnless hc₄ _).bind fun increment c₅ hc₅ hle₅ hincrement => ?_
  refine (yields_expect hc₅).bind fun right c₆ hc₆ hle₆ _ => ?_
  refine (ih.statement c₆ hc₆).bind fun body c₇ hc₇ hle₇ hbody => yields_pure hc₇ ?_
  -- The increment is read before the body and stands behind it.
  have hround := ((hincrement.mono hle₄ hle₆).append hbody (hle₄.trans (hle₅.trans hle₆))
    hle₇).perm List.perm_append_comm
  have hle := hle₄.trans (hle₅.trans (hle₆.trans hle₇))
  have hloop := hcondition.append hround hle₃ hle
  have hall := (hinitializer.mono hle₁ (Nat.le_refl _)).append hloop (hle₁.trans hle₂)
    (hle₃.trans hle)
  rw [Cursor.ShapedBranch, Stmt.references_forLoop]
  refine hall.imp fun hparts => ?_
  obtain ⟨hinitializer, hcondition, hincrement, hbody⟩ := hparts
  exact Stmt.formed_forLoop hinitializer hcondition hincrement hbody

lemma yields_ifStatement (ih : DeclarationsFormed P n) (hc : c.Holds P) :
    Yields P (Reader.ifStatement (n + 1)) c (c.ShapedBranch P) := by
  rw [Reader.ifStatement]
  refine (yields_expect hc).bind fun left c₁ hc₁ hle₁ _ => ?_
  refine ((expressionsFormed P n).expression c₁ hc₁).bind
    fun condition c₂ hc₂ hle₂ hcondition => ?_
  refine (yields_expect hc₂).bind fun right c₃ hc₃ hle₃ _ => ?_
  refine (ih.statement c₃ hc₃).bind fun thenBranch c₄ hc₄ hle₄ hthen => ?_
  refine (yields_accept? hc₄).bind fun keyword c₅ hc₅ hle₅ _ => ?_
  have hle := hle₁.trans (hle₂.trans hle₃)
  have hboth := (hcondition.mono hle₁ hle₃).append (hthen.mono (Nat.le_refl _) hle₅) hle
    (hle₄.trans hle₅)
  rcases keyword with _ | keyword
  · exact yields_pure hc₅ (hboth.imp fun h => ⟨h, rfl⟩)
  · refine (ih.statement c₅ hc₅).bind fun elseBranch c₆ hc₆ hle₆ helse => yields_pure hc₆ ?_
    have hall := hboth.append helse (hle.trans (hle₄.trans hle₅)) hle₆
    refine hall.imp fun hparts => ?_
    obtain ⟨⟨hcondition, hthen⟩, helse⟩ := hparts
    exact ⟨⟨hcondition, hthen, helse⟩, rfl⟩

lemma yields_whileStatement (ih : DeclarationsFormed P n) (hc : c.Holds P) :
    Yields P (Reader.whileStatement (n + 1)) c (c.ShapedBranch P) := by
  rw [Reader.whileStatement]
  refine (yields_expect hc).bind fun left c₁ hc₁ hle₁ _ => ?_
  refine ((expressionsFormed P n).expression c₁ hc₁).bind
    fun condition c₂ hc₂ hle₂ hcondition => ?_
  refine (yields_expect hc₂).bind fun right c₃ hc₃ hle₃ _ => ?_
  refine (ih.statement c₃ hc₃).bind fun body c₄ hc₄ hle₄ hbody => yields_pure hc₄ ?_
  have hall := (hcondition.mono hle₁ hle₃).append hbody (hle₁.trans (hle₂.trans hle₃)) hle₄
  exact hall.imp fun h => ⟨h, rfl⟩

end Declarations

/-- **Declarations and statements that are read have the form of these.** -/
lemma declarationsFormed (P : Token → Prop) (n : Nat) : DeclarationsFormed P n := by
  induction n with
  | zero =>
    constructor
    all_goals
      intros
      exact yields_fail (by assumption)
  | succ n ih =>
    exact {
      declaration := fun c hc => yields_recover (ih.declarationRule c hc)
      declarationRule := fun _ hc => yields_declarationRule ih hc
      classDeclaration := fun _ hc => yields_classDeclaration ih hc
      methodList := fun _ hc => yields_methodList ih hc
      function := fun role _ hc => yields_function ih role hc
      block := fun _ hc => yields_block ih hc
      blockItems := fun _ hc => yields_blockItems ih hc
      statement := fun _ hc => yields_statement ih hc
      forStatement := fun _ hc => yields_forStatement ih hc
      ifStatement := fun _ hc => yields_ifStatement ih hc
      whileStatement := fun _ hc => yields_whileStatement ih hc }

lemma yields_declarations {P : Token → Prop} {n : Nat} {c : Cursor} (hc : c.Holds P) :
    Yields P (Reader.declarations n) c fun c' body =>
      Shaped P c.nextRef c'.nextRef (Stmt.AllFormed P body) (Stmt.allReferences body) := by
  induction n generalizing c with
  | zero => exact yields_fail hc
  | succ n ih =>
    rw [Reader.declarations]
    refine .looking rfl ?_
    split
    · exact yields_pure hc (.nil trivial)
    · refine ((declarationsFormed P n).declaration c hc).bind fun first c₁ hc₁ hle₁ hfirst => ?_
      refine (ih hc₁).bind fun others c₂ hc₂ hle₂ hothers => ?_
      exact yields_pure hc₂ (.declarations hfirst hothers hle₁ hle₂)

/-- **What is read has the form of a program**, and its references are numbered apart, whether
there are complaints or not. -/
lemma shaped_readProgram {P : Token → Prop} {tokens : List Token} (htokens : ∀ t ∈ tokens, P t)
    (n : RefId) :
    Shaped P n (readProgram tokens n).nextRef (Stmt.AllFormed P (readProgram tokens n).program)
      (Stmt.allReferences (readProgram tokens n).program) := by
  unfold readProgram
  have hread := yields_declarations (n := fuelPerToken * (tokens.length + 1))
    (c := ⟨tokens, 0, n, []⟩) htokens
  cases hread with
  | read hrun hc hle hshaped =>
    simp only [hrun]
    exact hshaped
  | failed hrun hc hle =>
    simp only [hrun]
    exact .nil trivial

/-! ## Readings one after another -/

/-- Token lists are read one after another: each reading numbers its references from where the
one before it stopped, whatever either of them complained about. -/
def readInTurn : List (List Token) → RefId → List Reading
  | [], _ => []
  | tokens :: later, n =>
    readProgram tokens n :: readInTurn later (readProgram tokens n).nextRef

/-- The references of everything that was read. -/
def Reading.allReferences (readings : List Reading) : List Reference :=
  readings.flatMap fun r => Stmt.allReferences r.program

/-- A reading numbers its references apart, between its own start and where the next begins. -/
lemma numbered_readProgram (tokens : List Token) (n : RefId) :
    Numbered n (readProgram tokens n).nextRef
      (Stmt.allReferences (readProgram tokens n).program) :=
  (shaped_readProgram (P := fun _ => True) (fun _ _ => trivial) n).numbered

/-- All numbers of readings in turn lie from the first start on, so a list of readings is numbered
apart because its first reading ends where the others begin. -/
lemma exists_numbered_readInTurn (sources : List (List Token)) (n : RefId) :
    ∃ n', n ≤ n' ∧ Numbered n n' (Reading.allReferences (readInTurn sources n)) := by
  induction sources generalizing n with
  | nil => exact ⟨n, Nat.le_refl n, .nil⟩
  | cons tokens later ih =>
    have hle : n ≤ (readProgram tokens n).nextRef := le_nextRef_readProgram tokens n
    obtain ⟨n', hle', hlater⟩ := ih (readProgram tokens n).nextRef
    exact ⟨n', hle.trans hle', (numbered_readProgram tokens n).append hlater hle hle'⟩

/-- **No two references share a number**: not within a tree, and not across the trees of any token
lists read one after another, with or without complaints.  One table of distances can hold them
all. -/
theorem nodup_refs_readInTurn (sources : List (List Token)) (n : RefId) :
    ((Reading.allReferences (readInTurn sources n)).map Reference.ref).Nodup := by
  obtain ⟨_, _, hnumbered⟩ := exists_numbered_readInTurn sources n
  exact hnumbered.nodup

end LoxLang
