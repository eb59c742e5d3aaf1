import LoxLang.Proofs.Syntax.Completeness
import LoxLang.Proofs.Syntax.Likeness
import LoxLang.Proofs.Syntax.Numbering

/-!
# Reading does not look at lines and numbers

Tokens that correspond are read as programs that are alike, with the same complaints at the same
places (`like_readProgram`).  Where a token stands and from which number on references are numbered
makes no difference, whether the tokens are a program or not.

Two readings are followed side by side (`Reader.Agree`): one lemma for each thing that a reader can
do, then one case for each rule, by induction on the fuel.
-/

namespace LoxLang

/-! ## Trees without renamings -/

section Alike

variable (ρ : Likeness)

/-- Expressions that are alike where nothing is renamed. -/
def Expr.Alike (e e' : Expr) : Prop := ∀ Γ : List Renaming, Plain Γ → e.Like ρ Γ e'

def Stmt.Alike (s s' : Stmt) : Prop := ∀ Γ : List Renaming, Plain Γ → s.Like ρ Γ s'

def Stmt.AlikeAll (body body' : List Stmt) : Prop :=
  ∀ Γ : List Renaming, Plain Γ → Stmt.LikeAll ρ Γ body body'

def FunDecl.Alike (d d' : FunDecl) : Prop := ∀ Γ : List Renaming, Plain Γ → d.Like ρ Γ d'

def FunDecl.AlikeAll (ds ds' : List FunDecl) : Prop :=
  ∀ Γ : List Renaming, Plain Γ → FunDecl.LikeAll ρ Γ ds ds'

variable {ρ}

lemma Expr.alikeAll {es es' : List Expr} (h : List.Forall₂ (Expr.Alike ρ) es es')
    {Γ : List Renaming} (hΓ : Plain Γ) : List.Forall₂ (Expr.Like ρ Γ) es es' :=
  h.imp fun _ _ he => he Γ hΓ

lemma Expr.alike_option {o o' : Option Expr} (h : Option.Rel (Expr.Alike ρ) o o')
    {Γ : List Renaming} (hΓ : Plain Γ) : Option.Rel (Expr.Like ρ Γ) o o' :=
  rel_mono (fun he => he Γ hΓ) h

lemma Level.alike_operation (l : Level) {left left' right right' : Expr}
    {operator operator' : Token} (hleft : left.Alike ρ left')
    (hoperator : ρ.Same operator operator') (hright : right.Alike ρ right') :
    (l.operation left operator right).Alike ρ (l.operation left' operator' right') := by
  intro Γ hΓ
  cases l
  case disjunction | conjunction => exact .logical (hleft Γ hΓ) hoperator (hright Γ hΓ)
  all_goals exact .binary (hleft Γ hΓ) hoperator (hright Γ hΓ)

lemma Stmt.alikeAll_toList {first first' : Option Stmt} {others others' : List Stmt}
    (hfirst : Option.Rel (Stmt.Alike ρ) first first') (hothers : Stmt.AlikeAll ρ others others') :
    Stmt.AlikeAll ρ (first.toList ++ others) (first'.toList ++ others') := by
  cases hfirst with
  | none => exact hothers
  | some hs => exact fun Γ hΓ => .cons (hs Γ hΓ) (hothers Γ hΓ)

/-- Loops that are alike are alike when they are written out. -/
lemma Stmt.alike_forLoop {initializer initializer' : Option Stmt}
    {condition condition' increment increment' : Option Expr} {body body' : Stmt}
    (hinitializer : Option.Rel (Stmt.Alike ρ) initializer initializer')
    (hcondition : Option.Rel (Expr.Alike ρ) condition condition')
    (hincrement : Option.Rel (Expr.Alike ρ) increment increment') (hbody : body.Alike ρ body') :
    (Stmt.forLoop initializer condition increment body).Alike ρ
      (Stmt.forLoop initializer' condition' increment' body') := by
  have htest : (condition.getD (.literal (.bool true))).Alike ρ
      (condition'.getD (.literal (.bool true))) := by
    cases hcondition with
    | none => exact fun _ _ => .literal _
    | some h => exact h
  have hloop : ∀ {step step' : Stmt}, step.Alike ρ step' →
      (Stmt.whileLoop (condition.getD (.literal (.bool true))) step).Alike ρ
        (.whileLoop (condition'.getD (.literal (.bool true))) step') :=
    fun hstep Γ hΓ => .whileLoop (htest Γ hΓ) (hstep Γ hΓ)
  have hinside : ∀ {loop loop' : Stmt}, loop.Alike ρ loop' → ∀ {first first' : Stmt},
      first.Alike ρ first' → (Stmt.block [first, loop]).Alike ρ (.block [first', loop']) :=
    fun hloop _ _ hfirst _ hΓ =>
      .block ρ.identity (.cons (hfirst _ hΓ.cons) (.cons (hloop _ hΓ.cons) .nil))
  have hstep : ∀ {e e' : Expr}, e.Alike ρ e' →
      (Stmt.block [body, .expression e]).Alike ρ (.block [body', .expression e']) :=
    fun he _ hΓ =>
      .block ρ.identity (.cons (hbody _ hΓ.cons) (.cons (.expression (he _ hΓ.cons)) .nil))
  cases hincrement with
  | none =>
    cases hinitializer with
    | none => exact hloop hbody
    | some hs => exact hinside (hloop hbody) hs
  | some he =>
    cases hinitializer with
    | none => exact hloop (hstep he)
    | some hs => exact hinside (hloop (hstep he)) hs

end Alike

/-! ## Cursors side by side -/

/-- The same complaint at tokens that correspond. -/
structure SyntaxError.Like (ρ : Likeness) (e e' : SyntaxError) : Prop where
  token : ρ.Same e.token e'.token
  cause : e'.cause = e.cause
  position : e'.position = e.position

/-- **Cursors at the same place** of tokens that correspond, with as many numbers handed out since
`n` and `n'`. -/
structure Cursor.Like (ρ : Likeness) (n n' : RefId) (c c' : Cursor) : Prop where
  rest : List.Forall₂ ρ.Same c.rest c'.rest
  /-- The end of the source is still to come. -/
  ended : ∃ t ∈ c.rest, t.isEof = true
  position : c'.position = c.position
  errors : List.Forall₂ (SyntaxError.Like ρ) c.errors c'.errors
  numbers : ∃ i, c.nextRef = n + i ∧ c'.nextRef = n' + i

section SameKind

variable {ρ : Likeness} {t t' : Token}

lemma Likeness.Same.kind (h : ρ.Same t t') : t'.kind = t.kind := ρ.kind h.token

/-- A test that looks at the kind only. -/
def OfKind {α : Type} (test : Token → α) : Prop :=
  ∀ {t t' : Token}, t'.kind = t.kind → test t' = test t

lemma ofKind_isMark (m : Mark) : OfKind (·.isMark m) := fun h => by simp only [Token.isMark, h]

lemma ofKind_isKeyword (k : Keyword) : OfKind (·.isKeyword k) :=
  fun h => by simp only [Token.isKeyword, h]

lemma ofKind_isIdentifier : OfKind Token.isIdentifier := fun h => by
  simp only [Token.isIdentifier, h]

lemma ofKind_isEof : OfKind Token.isEof := fun h => by simp only [Token.isEof, h]

lemma ofKind_isUnaryOperator : OfKind isUnaryOperator := fun h => by
  simp only [isUnaryOperator, Token.isMark, h]

lemma Level.ofKind_isOperator (l : Level) : OfKind l.isOperator := fun h => by
  cases l <;> simp only [Level.isOperator, Token.isMark, Token.isKeyword, h]

lemma ofKind_startsStatement : OfKind Cursor.startsStatement := fun h => by
  simp only [Cursor.startsStatement, h]

end SameKind

namespace Cursor.Like

variable {ρ : Likeness} {n n' : RefId} {c c' : Cursor}

lemma token (h : c.Like ρ n n' c') : ρ.Same c.token c'.token := by
  obtain ⟨t, ht, -⟩ := h.ended
  have hrest := h.rest
  unfold Cursor.token
  cases hrest' : c.rest with
  | nil =>
    rw [hrest'] at ht
    cases ht
  | cons _ _ =>
    rw [hrest'] at hrest
    obtain ⟨_, _, hhead, _, heq⟩ := List.forall₂_cons_left_iff.mp hrest
    rw [heq]
    exact hhead

lemma isAtEnd (h : c.Like ρ n n' c') : c'.isAtEnd = c.isAtEnd := ofKind_isEof h.token.kind

lemma complain (h : c.Like ρ n n' c') {t t' : Token} (ht : ρ.Same t t') (cause : SyntaxCause) :
    (c.complain t cause).Like ρ n n' (c'.complain t' cause) := by
  refine ⟨h.rest, h.ended, h.position, ?_, h.numbers⟩
  exact List.rel_append h.errors (.cons ⟨ht, rfl, h.position⟩ .nil)

lemma advance (h : c.Like ρ n n' c') : c.advance.Like ρ n n' c'.advance := by
  unfold Cursor.advance
  rw [h.isAtEnd]
  by_cases hend : c.isAtEnd = true
  · rw [if_pos hend, if_pos hend]
    exact h
  · rw [if_neg hend, if_neg hend]
    refine ⟨?_, ?_, congrArg (· + 1) h.position, h.errors, h.numbers⟩
    · have hrest := h.rest
      revert hrest
      generalize c.rest = ts, c'.rest = ts'
      intro hrest
      cases hrest with
      | nil => exact .nil
      | cons _ htail => exact htail
    · obtain ⟨t, ht, heof⟩ := h.ended
      refine ⟨t, ?_, heof⟩
      -- The token at the cursor is not the end of the source, so the end is behind it.
      unfold Cursor.isAtEnd Cursor.token at hend
      cases hrest : c.rest with
      | nil =>
        rw [hrest] at ht
        cases ht
      | cons first others =>
        rw [hrest] at ht hend
        rcases List.mem_cons.mp ht with rfl | ht
        · exact absurd heof hend
        · exact ht

lemma skipCount_eq {t t' : Token} {ts ts' : List Token} (ht : ρ.Same t t')
    (hts : List.Forall₂ ρ.Same ts ts') : skipCount t' ts' = skipCount t ts := by
  induction hts generalizing t t' with
  | nil => rfl
  | cons hu _ ih =>
    simp only [skipCount, ofKind_isEof hu.kind, ofKind_isMark _ ht.kind,
      ofKind_startsStatement hu.kind, ih hu]

/-- Skipping stops at the end of the source. -/
lemma exists_eof_drop_skipCount (t : Token) {ts : List Token} (h : ∃ u ∈ ts, u.isEof = true) :
    ∃ u ∈ ts.drop (skipCount t ts), u.isEof = true := by
  induction ts generalizing t with
  | nil => exact h
  | cons first others ih =>
    unfold skipCount
    split
    · exact h
    · next hgoes =>
      rw [List.drop_succ_cons]
      obtain ⟨u, hu, heof⟩ := h
      rcases List.mem_cons.mp hu with rfl | hu
      · simp [heof] at hgoes
      · exact ih first ⟨u, hu, heof⟩

lemma skipToStatement (h : c.Like ρ n n' c') :
    c.skipToStatement.Like ρ n n' c'.skipToStatement := by
  obtain ⟨hrest, hended, hposition, herrors, hnumbers⟩ := h
  unfold Cursor.skipToStatement
  rcases c with ⟨ts, position, nextRef, errors⟩
  rcases c' with ⟨ts', position', nextRef', errors'⟩
  simp only at hrest hended hposition herrors hnumbers ⊢
  cases hrest with
  | nil => exact ⟨.nil, hended, hposition, herrors, hnumbers⟩
  | @cons t t' rest rest' ht hrest =>
    simp only [ofKind_isEof ht.kind, skipCount_eq ht hrest]
    by_cases hend : t.isEof = true
    · rw [if_pos hend, if_pos hend]
      exact ⟨.cons ht hrest, hended, hposition, herrors, hnumbers⟩
    · rw [if_neg hend, if_neg hend]
      refine ⟨List.forall₂_drop _ hrest, ?_, by simp only [hposition], herrors, hnumbers⟩
      obtain ⟨u, hu, heof⟩ := hended
      rcases List.mem_cons.mp hu with rfl | hu
      · exact absurd heof hend
      · exact exists_eof_drop_skipCount t ⟨u, hu, heof⟩

end Cursor.Like

/-! ## Readers side by side -/

/-- **Two readers agree**: from the same place they come to the same place, with results that `Q`
relates. -/
def Reader.Agree {α : Type} (ρ : Likeness) (n n' : RefId) (x x' : Reader α) (Q : α → α → Prop) :
    Prop :=
  ∀ c c' : Cursor, c.Like ρ n n' c' →
    Option.Rel Q (x c).1 (x' c').1 ∧ (x c).2.Like ρ n n' (x' c').2

namespace Reader.Agree

variable {α β : Type} {ρ : Likeness} {n n' : RefId} {Q : α → α → Prop}

lemma pure {a a' : α} (h : Q a a') : Agree ρ n n' (Pure.pure a) (Pure.pure a') Q :=
  fun _ _ hc => ⟨.some h, hc⟩

lemma fail : Agree ρ n n' (Reader.fail : Reader α) Reader.fail Q := fun _ _ hc => ⟨.none, hc⟩

lemma bind {x x' : Reader α} {f f' : α → Reader β} {R : β → β → Prop}
    (hx : Agree ρ n n' x x' Q) (hf : ∀ a a', Q a a' → Agree ρ n n' (f a) (f' a') R) :
    Agree ρ n n' (x >>= f) (x' >>= f') R := by
  intro c c' hc
  obtain ⟨hresult, hcursor⟩ := hx c c' hc
  rw [Reader.run_bind, Reader.run_bind]
  rcases hxc : x c with ⟨result, c₁⟩
  rcases hxc' : x' c' with ⟨result', c₁'⟩
  rw [hxc, hxc'] at hresult hcursor
  cases hresult with
  | none => exact ⟨.none, hcursor⟩
  | some h => exact hf _ _ h _ _ hcursor

lemma ite {b : Prop} [Decidable b] {x x' y y' : Reader α} (hx : Agree ρ n n' x x' Q)
    (hy : Agree ρ n n' y y' Q) : Agree ρ n n' (if b then x else y) (if b then x' else y') Q := by
  by_cases h : b
  · rw [if_pos h, if_pos h]
    exact hx
  · rw [if_neg h, if_neg h]
    exact hy

lemma peek : Agree ρ n n' Reader.peek Reader.peek ρ.Same := fun _ _ hc => ⟨.some hc.token, hc⟩

lemma advance : Agree ρ n n' Reader.advance Reader.advance (· = ·) :=
  fun _ _ hc => ⟨.some rfl, hc.advance⟩

lemma isAtEnd : Agree ρ n n' Reader.isAtEnd Reader.isAtEnd (· = ·) :=
  fun _ _ hc => ⟨.some hc.isAtEnd.symm, hc⟩

lemma complain {t t' : Token} (ht : ρ.Same t t') (cause : SyntaxCause) :
    Agree ρ n n' (Reader.complain t cause) (Reader.complain t' cause) (· = ·) :=
  fun _ _ hc => ⟨.some rfl, hc.complain ht cause⟩

/-- Something that may be complained about first. -/
lemma complainIf {b : Prop} [Decidable b] {x x' : Reader α} (hx : Agree ρ n n' x x' Q)
    (cause : SyntaxCause) :
    Agree ρ n n' (if b then (do Reader.complain (← Reader.peek) cause; x) else x)
      (if b then (do Reader.complain (← Reader.peek) cause; x') else x') Q :=
  .ite (peek.bind fun _ _ ht => (complain ht cause).bind fun _ _ _ => hx) hx

variable {test : Token → Bool} (htest : OfKind test)

include htest

/-- Tests that look at kinds come out the same. -/
lemma passes {c c' : Cursor} (hc : c.Like ρ n n' c') :
    (!c'.isAtEnd && test c'.token) = (!c.isAtEnd && test c.token) := by
  rw [hc.isAtEnd, htest hc.token.kind]

lemma check : Agree ρ n n' (Reader.check test) (Reader.check test) (· = ·) :=
  fun _ _ hc => ⟨.some (passes htest hc).symm, hc⟩

lemma accept? :
    Agree ρ n n' (Reader.accept? test) (Reader.accept? test) (Option.Rel ρ.Same) := by
  intro c c' hc
  unfold Reader.accept?
  rw [passes htest hc]
  split
  · exact ⟨.some (.some hc.token), hc.advance⟩
  · exact ⟨.some .none, hc⟩

lemma expect (what : Expectation) :
    Agree ρ n n' (Reader.expect test what) (Reader.expect test what) ρ.Same := by
  intro c c' hc
  unfold Reader.expect
  rw [passes htest hc]
  split
  · exact ⟨.some hc.token, hc.advance⟩
  · exact ⟨.none, hc.complain hc.token _⟩

omit htest

lemma expectMark (m : Mark) (what : Expectation) :
    Agree ρ n n' (Reader.expectMark m what) (Reader.expectMark m what) ρ.Same :=
  expect (ofKind_isMark m) what

lemma expectName (what : Expectation) :
    Agree ρ n n' (Reader.expectName what) (Reader.expectName what) ρ.Same :=
  expect ofKind_isIdentifier what

lemma freshRef (href : ∀ i, ρ.ref (n + i) (n' + i)) :
    Agree ρ n n' Reader.freshRef Reader.freshRef ρ.ref := by
  intro c c' hc
  obtain ⟨i, hi, hi'⟩ := hc.numbers
  refine ⟨.some ?_, hc.rest, hc.ended, hc.position, hc.errors, i + 1, ?_, ?_⟩
  · rw [hi, hi']
    exact href i
  · exact congrArg (· + 1) hi
  · exact congrArg (· + 1) hi'

lemma recover {x x' : Reader α} (hx : Agree ρ n n' x x' Q) :
    Agree ρ n n' (Reader.recover x) (Reader.recover x') (Option.Rel Q) := by
  intro c c' hc
  obtain ⟨hresult, hcursor⟩ := hx c c' hc
  unfold Reader.recover
  rcases hxc : x c with ⟨result, c₁⟩
  rcases hxc' : x' c' with ⟨result', c₁'⟩
  rw [hxc, hxc'] at hresult hcursor
  cases hresult with
  | none => exact ⟨.some .none, hcursor.skipToStatement⟩
  | some h => exact ⟨.some (.some h), hcursor⟩

end Reader.Agree

/-! ## Rules -/

section Rules

open Reader (Agree)

/-- **The rules for expressions agree**, with a given amount of fuel. -/
structure ExpressionsAgree (ρ : Likeness) (n n' : RefId) (fuel : Nat) : Prop where
  expression : Agree ρ n n' (Reader.expression fuel) (Reader.expression fuel) (Expr.Alike ρ)
  operand : ∀ l, Agree ρ n n' (Reader.operand fuel l) (Reader.operand fuel l) (Expr.Alike ρ)
  chain : ∀ l {e e'}, Expr.Alike ρ e e' →
    Agree ρ n n' (Reader.chain fuel l e) (Reader.chain fuel l e') (Expr.Alike ρ)
  unary : Agree ρ n n' (Reader.unary fuel) (Reader.unary fuel) (Expr.Alike ρ)
  suffixes : ∀ {e e'}, Expr.Alike ρ e e' →
    Agree ρ n n' (Reader.suffixes fuel e) (Reader.suffixes fuel e') (Expr.Alike ρ)
  argumentList : Agree ρ n n' (Reader.argumentList fuel) (Reader.argumentList fuel)
    (List.Forall₂ (Expr.Alike ρ))
  argumentsFrom : ∀ count, Agree ρ n n' (Reader.argumentsFrom fuel count)
    (Reader.argumentsFrom fuel count) (List.Forall₂ (Expr.Alike ρ))
  primary : Agree ρ n n' (Reader.primary fuel) (Reader.primary fuel) (Expr.Alike ρ)

variable {ρ : Likeness} {n n' : RefId} {fuel : Nat}

namespace ExpressionsAgree

/-- A target becomes the same kind of assignment. -/
lemma succ_expression (href : ∀ i, ρ.ref (n + i) (n' + i)) (hdistance : ∀ ref, ρ.distance ref none)
    (h : ExpressionsAgree ρ n n' fuel) :
    Agree ρ n n' (Reader.expression (fuel + 1)) (Reader.expression (fuel + 1)) (Expr.Alike ρ) := by
  simp only [Reader.expression]
  refine (h.operand _).bind fun target target' htarget => ?_
  refine (Agree.accept? (ofKind_isMark _)).bind fun equals equals' hequals => ?_
  cases hequals with
  | none => exact .pure htarget
  | some hequals =>
    refine h.expression.bind fun value value' hvalue => ?_
    cases htarget [] plain_nil with
    | «variable» hname =>
      refine (Agree.freshRef href).bind fun ref ref' href => .pure fun Γ hΓ => ?_
      have hsame : ρ.Same _ _ := ⟨hname.token, hname.lexeme (hdistance _)⟩
      exact .assign (hsame.refers href hΓ) (hvalue Γ hΓ)
    | get _ hname =>
      refine .pure fun Γ hΓ => ?_
      cases htarget Γ hΓ with
      | get hobject _ => exact .set hobject hname (hvalue Γ hΓ)
    | _ => exact (Agree.complain hequals _).bind fun _ _ _ => .pure htarget

lemma succ_operand (h : ExpressionsAgree ρ n n' fuel) (l : Option Level) :
    Agree ρ n n' (Reader.operand (fuel + 1) l) (Reader.operand (fuel + 1) l) (Expr.Alike ρ) := by
  cases l with
  | none => exact h.unary
  | some l => exact (h.operand _).bind fun _ _ hfirst => h.chain l hfirst

lemma succ_chain (h : ExpressionsAgree ρ n n' fuel) (l : Level) {e e' : Expr}
    (he : e.Alike ρ e') :
    Agree ρ n n' (Reader.chain (fuel + 1) l e) (Reader.chain (fuel + 1) l e') (Expr.Alike ρ) := by
  refine (Agree.accept? l.ofKind_isOperator).bind fun operator operator' hoperator => ?_
  cases hoperator with
  | none => exact .pure he
  | some hoperator =>
    refine (h.operand _).bind fun _ _ hright => h.chain l ?_
    exact l.alike_operation he hoperator hright

lemma succ_unary (h : ExpressionsAgree ρ n n' fuel) :
    Agree ρ n n' (Reader.unary (fuel + 1)) (Reader.unary (fuel + 1)) (Expr.Alike ρ) := by
  refine (Agree.accept? ofKind_isUnaryOperator).bind fun operator operator' hoperator => ?_
  cases hoperator with
  | none => exact h.primary.bind fun _ _ hfirst => h.suffixes hfirst
  | some hoperator =>
    exact h.unary.bind fun _ _ hright => .pure fun Γ hΓ => .unary hoperator (hright Γ hΓ)

lemma succ_suffixes (h : ExpressionsAgree ρ n n' fuel) {e e' : Expr} (he : e.Alike ρ e') :
    Agree ρ n n' (Reader.suffixes (fuel + 1) e) (Reader.suffixes (fuel + 1) e')
      (Expr.Alike ρ) := by
  refine (Agree.accept? (ofKind_isMark _)).bind fun paren paren' hparen => ?_
  cases hparen with
  | some _ =>
    refine h.argumentList.bind fun _ _ harguments => ?_
    refine (Agree.expectMark _ _).bind fun _ _ hparen => h.suffixes fun Γ hΓ => ?_
    exact .call (he Γ hΓ) hparen.token (Expr.alikeAll harguments hΓ)
  | none =>
    refine (Agree.accept? (ofKind_isMark _)).bind fun dot dot' hdot => ?_
    cases hdot with
    | some _ =>
      refine (Agree.expectName _).bind fun _ _ hname => h.suffixes fun Γ hΓ => ?_
      exact .get (he Γ hΓ) hname
    | none => exact .pure he

lemma succ_argumentList (h : ExpressionsAgree ρ n n' fuel) :
    Agree ρ n n' (Reader.argumentList (fuel + 1)) (Reader.argumentList (fuel + 1))
      (List.Forall₂ (Expr.Alike ρ)) := by
  refine (Agree.check (ofKind_isMark _)).bind fun closed closed' heq => ?_
  subst heq
  exact .ite (.pure .nil) (h.argumentsFrom 0)

lemma succ_argumentsFrom (h : ExpressionsAgree ρ n n' fuel) (count : Nat) :
    Agree ρ n n' (Reader.argumentsFrom (fuel + 1) count) (Reader.argumentsFrom (fuel + 1) count)
      (List.Forall₂ (Expr.Alike ρ)) := by
  simp only [Reader.argumentsFrom]
  refine .complainIf ?_ _
  refine h.expression.bind fun _ _ hfirst => ?_
  refine (Agree.accept? (ofKind_isMark _)).bind fun comma comma' hcomma => ?_
  cases hcomma with
  | none => exact .pure (.cons hfirst .nil)
  | some _ => exact (h.argumentsFrom _).bind fun _ _ hothers => .pure (.cons hfirst hothers)

lemma succ_primary (href : ∀ i, ρ.ref (n + i) (n' + i)) (h : ExpressionsAgree ρ n n' fuel) :
    Agree ρ n n' (Reader.primary (fuel + 1)) (Reader.primary (fuel + 1)) (Expr.Alike ρ) := by
  have hliteral : ∀ value, Agree ρ n n' (do Reader.advance; pure (.literal value))
      (do Reader.advance; pure (.literal value)) (Expr.Alike ρ) := fun value =>
    Agree.advance.bind fun _ _ _ => .pure fun _ _ => .literal value
  refine Agree.peek.bind fun t t' ht => ?_
  rw [ht.kind]
  split
  · exact hliteral _
  · exact hliteral _
  · exact hliteral _
  · exact hliteral _
  · exact hliteral _
  · refine Agree.advance.bind fun _ _ _ => (Agree.freshRef href).bind fun _ _ href => ?_
    exact .pure fun Γ hΓ => .this (ht.refers href hΓ)
  · refine Agree.advance.bind fun _ _ _ => (Agree.expectMark _ _).bind fun _ _ _ => ?_
    refine (Agree.expectName _).bind fun _ _ hmethod => ?_
    refine (Agree.freshRef href).bind fun _ _ href => ?_
    exact .pure fun Γ hΓ => .super href ht hmethod
  · refine Agree.advance.bind fun _ _ _ => (Agree.freshRef href).bind fun _ _ href => ?_
    exact .pure fun Γ hΓ => .variable (ht.refers href hΓ)
  · refine Agree.advance.bind fun _ _ _ => h.expression.bind fun _ _ hinner => ?_
    refine (Agree.expectMark _ _).bind fun _ _ _ => .pure fun Γ hΓ => ?_
    exact .grouping (hinner Γ hΓ)
  · exact (Agree.complain ht _).bind fun _ _ _ => .fail

end ExpressionsAgree

lemma expressionsAgree (href : ∀ i, ρ.ref (n + i) (n' + i))
    (hdistance : ∀ ref, ρ.distance ref none) (fuel : Nat) : ExpressionsAgree ρ n n' fuel := by
  induction fuel with
  | zero => constructor <;> intros <;> exact .fail
  | succ fuel ih =>
    exact ⟨ih.succ_expression href hdistance, ih.succ_operand, ih.succ_chain, ih.succ_unary,
      ih.succ_suffixes, ih.succ_argumentList, ih.succ_argumentsFrom, ih.succ_primary href⟩

/-! ### Declarations and statements -/

section Statements

variable (h : ExpressionsAgree ρ n n' fuel)

include h

lemma agree_expressionUnless (m : Mark) :
    Agree ρ n n' (Reader.expressionUnless fuel m) (Reader.expressionUnless fuel m)
      (Option.Rel (Expr.Alike ρ)) := by
  refine (Agree.check (ofKind_isMark _)).bind fun closed closed' heq => ?_
  subst heq
  exact .ite (.pure .none) (h.expression.bind fun _ _ he => .pure (.some he))

lemma agree_expressionStatement :
    Agree ρ n n' (Reader.expressionStatement fuel) (Reader.expressionStatement fuel)
      (Stmt.Alike ρ) := by
  refine h.expression.bind fun _ _ he => (Agree.expectMark _ _).bind fun _ _ _ => ?_
  exact .pure fun Γ hΓ => .expression (he Γ hΓ)

lemma agree_varDeclaration :
    Agree ρ n n' (Reader.varDeclaration fuel) (Reader.varDeclaration fuel) (Stmt.Alike ρ) := by
  refine (Agree.expectName _).bind fun name name' hname => ?_
  have hend : ∀ value value', Option.Rel (Expr.Alike ρ) value value' → Agree ρ n n'
      (do let _ ← Reader.expectMark .semicolon .variableEnd; pure (.var name value))
      (do let _ ← Reader.expectMark .semicolon .variableEnd; pure (.var name' value'))
      (Stmt.Alike ρ) := fun value value' hvalue =>
    (Agree.expectMark _ _).bind fun _ _ _ => .pure fun Γ hΓ =>
      .var (hΓ.renamingAt _ ▸ hname.named) (Expr.alike_option hvalue hΓ)
  refine (Agree.accept? (ofKind_isMark _)).bind fun equals equals' hequals => ?_
  cases hequals with
  | none => exact (Agree.pure .none).bind hend
  | some _ =>
    exact h.expression.bind fun _ _ he => (Agree.pure (.some he)).bind hend

lemma agree_printStatement :
    Agree ρ n n' (Reader.printStatement fuel) (Reader.printStatement fuel) (Stmt.Alike ρ) := by
  refine h.expression.bind fun _ _ he => (Agree.expectMark _ _).bind fun _ _ _ => ?_
  exact .pure fun Γ hΓ => .print (he Γ hΓ)

lemma agree_returnStatement {keyword keyword' : Token} (hkeyword : ρ.Same keyword keyword') :
    Agree ρ n n' (Reader.returnStatement fuel keyword) (Reader.returnStatement fuel keyword')
      (Stmt.Alike ρ) := by
  refine (agree_expressionUnless h _).bind fun _ _ hvalue => ?_
  refine (Agree.expectMark _ _).bind fun _ _ _ => .pure fun Γ hΓ => ?_
  exact .returnValue hkeyword (Expr.alike_option hvalue hΓ)

lemma agree_forInitializer :
    Agree ρ n n' (Reader.forInitializer fuel) (Reader.forInitializer fuel)
      (Option.Rel (Stmt.Alike ρ)) := by
  refine (Agree.accept? (ofKind_isMark _)).bind fun semicolon semicolon' hsemicolon => ?_
  cases hsemicolon with
  | some _ => exact .pure .none
  | none =>
    refine (Agree.accept? (ofKind_isKeyword _)).bind fun keyword keyword' hkeyword => ?_
    cases hkeyword with
    | some _ => exact (agree_varDeclaration h).bind fun _ _ hs => .pure (.some hs)
    | none => exact (agree_expressionStatement h).bind fun _ _ hs => .pure (.some hs)

end Statements

lemma agree_breakStatement {keyword keyword' : Token} (hkeyword : ρ.Same keyword keyword') :
    Agree ρ n n' (Reader.breakStatement keyword) (Reader.breakStatement keyword')
      (Stmt.Alike ρ) :=
  (Agree.expectMark _ _).bind fun _ _ _ => .pure fun _ _ => .breakLoop hkeyword

lemma agree_parametersFrom (fuel count : Nat) :
    Agree ρ n n' (Reader.parametersFrom fuel count) (Reader.parametersFrom fuel count)
      (List.Forall₂ ρ.Same) := by
  induction fuel generalizing count with
  | zero => exact .fail
  | succ fuel ih =>
    simp only [Reader.parametersFrom]
    refine .complainIf ?_ _
    refine (Agree.expectName _).bind fun _ _ hfirst => ?_
    refine (Agree.accept? (ofKind_isMark _)).bind fun comma comma' hcomma => ?_
    cases hcomma with
    | none => exact .pure (.cons hfirst .nil)
    | some _ => exact (ih _).bind fun _ _ hothers => .pure (.cons hfirst hothers)

lemma agree_parameterList (fuel : Nat) :
    Agree ρ n n' (Reader.parameterList fuel) (Reader.parameterList fuel) (List.Forall₂ ρ.Same) := by
  refine (Agree.check (ofKind_isMark _)).bind fun closed closed' heq => ?_
  subst heq
  exact .ite (.pure .nil) (agree_parametersFrom fuel 0)

/-- **The rules for declarations and statements agree**, with a given amount of fuel. -/
structure StatementsAgree (ρ : Likeness) (n n' : RefId) (fuel : Nat) : Prop where
  declaration : Agree ρ n n' (Reader.declaration fuel) (Reader.declaration fuel)
    (Option.Rel (Stmt.Alike ρ))
  declarationRule : Agree ρ n n' (Reader.declarationRule fuel) (Reader.declarationRule fuel)
    (Stmt.Alike ρ)
  classDeclaration : Agree ρ n n' (Reader.classDeclaration fuel) (Reader.classDeclaration fuel)
    (Stmt.Alike ρ)
  methodList : Agree ρ n n' (Reader.methodList fuel) (Reader.methodList fuel) (FunDecl.AlikeAll ρ)
  function : ∀ role, Agree ρ n n' (Reader.function fuel role) (Reader.function fuel role)
    (FunDecl.Alike ρ)
  block : Agree ρ n n' (Reader.block fuel) (Reader.block fuel) (Stmt.AlikeAll ρ)
  blockItems : Agree ρ n n' (Reader.blockItems fuel) (Reader.blockItems fuel) (Stmt.AlikeAll ρ)
  statement : Agree ρ n n' (Reader.statement fuel) (Reader.statement fuel) (Stmt.Alike ρ)
  forStatement : Agree ρ n n' (Reader.forStatement fuel) (Reader.forStatement fuel) (Stmt.Alike ρ)
  ifStatement : Agree ρ n n' (Reader.ifStatement fuel) (Reader.ifStatement fuel) (Stmt.Alike ρ)
  whileStatement : Agree ρ n n' (Reader.whileStatement fuel) (Reader.whileStatement fuel)
    (Stmt.Alike ρ)

namespace StatementsAgree

lemma succ_declarationRule (he : ExpressionsAgree ρ n n' fuel) (h : StatementsAgree ρ n n' fuel) :
    Agree ρ n n' (Reader.declarationRule (fuel + 1)) (Reader.declarationRule (fuel + 1))
      (Stmt.Alike ρ) := by
  refine Agree.peek.bind fun t t' ht => ?_
  rw [ht.kind]
  split
  · exact Agree.advance.bind fun _ _ _ => h.classDeclaration
  · refine Agree.advance.bind fun _ _ _ => (h.function _).bind fun _ _ hdecl => ?_
    exact .pure fun Γ hΓ => .function (hdecl Γ hΓ) (by rw [hΓ.renamingAt]; rfl)
  · exact Agree.advance.bind fun _ _ _ => agree_varDeclaration he
  · exact h.statement

lemma succ_classDeclaration (href : ∀ i, ρ.ref (n + i) (n' + i))
    (h : StatementsAgree ρ n n' fuel) :
    Agree ρ n n' (Reader.classDeclaration (fuel + 1)) (Reader.classDeclaration (fuel + 1))
      (Stmt.Alike ρ) := by
  refine (Agree.expectName _).bind fun name name' hname => ?_
  have hend : ∀ superclass superclass', Option.Rel (Expr.Alike ρ) superclass superclass' →
      Agree ρ n n' (do
        let _ ← Reader.expectMark .leftBrace .classBody
        let methods ← Reader.methodList fuel
        let _ ← Reader.expectMark .rightBrace .classEnd
        pure (.classDecl name superclass methods)) (do
        let _ ← Reader.expectMark .leftBrace .classBody
        let methods ← Reader.methodList fuel
        let _ ← Reader.expectMark .rightBrace .classEnd
        pure (.classDecl name' superclass' methods)) (Stmt.Alike ρ) := by
    intro superclass superclass' hsuperclass
    refine (Agree.expectMark _ _).bind fun _ _ _ => h.methodList.bind fun _ _ hmethods => ?_
    refine (Agree.expectMark _ _).bind fun _ _ _ => .pure fun Γ hΓ => ?_
    have hkept : renamingAt Γ (some 0) name.lexeme = name.lexeme := by
      rw [hΓ.renamingAt]
      rfl
    cases hsuperclass with
    | none => exact .baseClass hname hkept (hmethods _ hΓ.cons)
    | some he => exact .derivedClass hname hkept (he Γ hΓ) (hmethods _ hΓ.cons.cons)
  refine (Agree.accept? (ofKind_isMark _)).bind fun less less' hless => ?_
  cases hless with
  | none => exact (Agree.pure .none).bind hend
  | some _ =>
    refine (Agree.expectName _).bind fun _ _ hparent => ?_
    refine (Agree.freshRef href).bind fun _ _ href => ?_
    exact (Agree.pure (.some fun Γ hΓ => .variable (hparent.refers href hΓ))).bind hend

lemma succ_methodList (h : StatementsAgree ρ n n' fuel) :
    Agree ρ n n' (Reader.methodList (fuel + 1)) (Reader.methodList (fuel + 1))
      (FunDecl.AlikeAll ρ) := by
  refine (Agree.check (ofKind_isMark _)).bind fun closed closed' heq => ?_
  subst heq
  refine Agree.isAtEnd.bind fun ended ended' heq => ?_
  subst heq
  refine .ite (.pure fun _ _ => .nil) ?_
  refine (h.function _).bind fun _ _ hfirst => h.methodList.bind fun _ _ hothers => ?_
  exact .pure fun Γ hΓ => .cons (hfirst Γ hΓ) (hothers Γ hΓ)

lemma succ_function (h : StatementsAgree ρ n n' fuel) (role : Reader.Role) :
    Agree ρ n n' (Reader.function (fuel + 1) role) (Reader.function (fuel + 1) role)
      (FunDecl.Alike ρ) := by
  refine (Agree.expectName _).bind fun _ _ hname => (Agree.expectMark _ _).bind fun _ _ _ => ?_
  refine (agree_parameterList fuel).bind fun _ _ hparams => ?_
  refine (Agree.expectMark _ _).bind fun _ _ _ => (Agree.expectMark _ _).bind fun _ _ _ => ?_
  refine h.block.bind fun _ _ hbody => .pure fun Γ hΓ => ?_
  exact .mk ρ.identity hname (hparams.imp fun _ _ hp => hp.named) (hbody _ hΓ.cons)

lemma succ_blockItems (h : StatementsAgree ρ n n' fuel) :
    Agree ρ n n' (Reader.blockItems (fuel + 1)) (Reader.blockItems (fuel + 1))
      (Stmt.AlikeAll ρ) := by
  refine (Agree.check (ofKind_isMark _)).bind fun closed closed' heq => ?_
  subst heq
  refine Agree.isAtEnd.bind fun ended ended' heq => ?_
  subst heq
  refine .ite (.pure fun _ _ => .nil) ?_
  refine h.declaration.bind fun first first' hfirst => h.blockItems.bind fun _ _ hothers => ?_
  exact .pure (Stmt.alikeAll_toList hfirst hothers)

lemma succ_statement (he : ExpressionsAgree ρ n n' fuel) (h : StatementsAgree ρ n n' fuel) :
    Agree ρ n n' (Reader.statement (fuel + 1)) (Reader.statement (fuel + 1)) (Stmt.Alike ρ) := by
  refine Agree.peek.bind fun t t' ht => ?_
  rw [ht.kind]
  split
  · exact Agree.advance.bind fun _ _ _ => agree_breakStatement ht
  · exact Agree.advance.bind fun _ _ _ => h.forStatement
  · exact Agree.advance.bind fun _ _ _ => h.ifStatement
  · exact Agree.advance.bind fun _ _ _ => h.whileStatement
  · exact Agree.advance.bind fun _ _ _ => agree_returnStatement he ht
  · refine Agree.advance.bind fun _ _ _ => h.block.bind fun _ _ hbody => ?_
    exact .pure fun Γ hΓ => .block ρ.identity (hbody _ hΓ.cons)
  · exact Agree.advance.bind fun _ _ _ => agree_printStatement he
  · exact agree_expressionStatement he

lemma succ_forStatement (he : ExpressionsAgree ρ n n' fuel) (h : StatementsAgree ρ n n' fuel) :
    Agree ρ n n' (Reader.forStatement (fuel + 1)) (Reader.forStatement (fuel + 1))
      (Stmt.Alike ρ) := by
  refine (Agree.expectMark _ _).bind fun _ _ _ => ?_
  refine (agree_forInitializer he).bind fun _ _ hinitializer => ?_
  refine (agree_expressionUnless he _).bind fun _ _ hcondition => ?_
  refine (Agree.expectMark _ _).bind fun _ _ _ => ?_
  refine (agree_expressionUnless he _).bind fun _ _ hincrement => ?_
  refine (Agree.expectMark _ _).bind fun _ _ _ => h.statement.bind fun _ _ hbody => ?_
  exact .pure (Stmt.alike_forLoop hinitializer hcondition hincrement hbody)

lemma succ_ifStatement (he : ExpressionsAgree ρ n n' fuel) (h : StatementsAgree ρ n n' fuel) :
    Agree ρ n n' (Reader.ifStatement (fuel + 1)) (Reader.ifStatement (fuel + 1))
      (Stmt.Alike ρ) := by
  refine (Agree.expectMark _ _).bind fun _ _ _ => he.expression.bind fun _ _ hcondition => ?_
  refine (Agree.expectMark _ _).bind fun _ _ _ => h.statement.bind fun _ _ hthen => ?_
  refine (Agree.accept? (ofKind_isKeyword _)).bind fun keyword keyword' hkeyword => ?_
  cases hkeyword with
  | none => exact .pure fun Γ hΓ => .ifThen (hcondition Γ hΓ) (hthen Γ hΓ)
  | some _ =>
    refine h.statement.bind fun _ _ helse => .pure fun Γ hΓ => ?_
    exact .ifElse (hcondition Γ hΓ) (hthen Γ hΓ) (helse Γ hΓ)

lemma succ_whileStatement (he : ExpressionsAgree ρ n n' fuel) (h : StatementsAgree ρ n n' fuel) :
    Agree ρ n n' (Reader.whileStatement (fuel + 1)) (Reader.whileStatement (fuel + 1))
      (Stmt.Alike ρ) := by
  refine (Agree.expectMark _ _).bind fun _ _ _ => he.expression.bind fun _ _ hcondition => ?_
  refine (Agree.expectMark _ _).bind fun _ _ _ => h.statement.bind fun _ _ hbody => ?_
  exact .pure fun Γ hΓ => .whileLoop (hcondition Γ hΓ) (hbody Γ hΓ)

end StatementsAgree

lemma statementsAgree (href : ∀ i, ρ.ref (n + i) (n' + i))
    (hdistance : ∀ ref, ρ.distance ref none) (fuel : Nat) : StatementsAgree ρ n n' fuel := by
  induction fuel with
  | zero => constructor <;> intros <;> exact .fail
  | succ fuel ih =>
    have he := expressionsAgree href hdistance fuel
    exact {
      declaration := ih.declarationRule.recover
      declarationRule := ih.succ_declarationRule he
      classDeclaration := ih.succ_classDeclaration href
      methodList := ih.succ_methodList
      function := ih.succ_function
      block := ih.blockItems.bind fun _ _ hbody =>
        (Agree.expectMark _ _).bind fun _ _ _ => .pure hbody
      blockItems := ih.succ_blockItems
      statement := ih.succ_statement he
      forStatement := ih.succ_forStatement he
      ifStatement := ih.succ_ifStatement he
      whileStatement := ih.succ_whileStatement he }

lemma agree_declarations (href : ∀ i, ρ.ref (n + i) (n' + i))
    (hdistance : ∀ ref, ρ.distance ref none) (fuel : Nat) :
    Agree ρ n n' (Reader.declarations fuel) (Reader.declarations fuel) (Stmt.AlikeAll ρ) := by
  induction fuel with
  | zero => exact .fail
  | succ fuel ih =>
    refine Agree.isAtEnd.bind fun ended ended' heq => ?_
    subst heq
    refine .ite (.pure fun _ _ => .nil) ?_
    refine (statementsAgree href hdistance fuel).declaration.bind fun _ _ hfirst => ?_
    exact ih.bind fun _ _ hothers => .pure (Stmt.alikeAll_toList hfirst hothers)

end Rules

/-! ## Whole programs -/

/-- **Tokens that correspond are read alike**, from whatever numbers on: the programs are alike, the
complaints are the same, and as many numbers are handed out. -/
theorem like_readProgram {ρ : Likeness} {ts ts' : List Token} {n n' : RefId}
    (hts : List.Forall₂ ρ.Same ts ts') (heof : ∃ t ∈ ts, t.isEof = true)
    (href : ∀ i, ρ.ref (n + i) (n' + i)) (hdistance : ∀ ref, ρ.distance ref none) :
    Stmt.AlikeAll ρ (readProgram ts n).program (readProgram ts' n').program ∧
      List.Forall₂ (SyntaxError.Like ρ) (readProgram ts n).errors (readProgram ts' n').errors ∧
      ∃ i, (readProgram ts n).nextRef = n + i ∧ (readProgram ts' n').nextRef = n' + i := by
  have hcursor : Cursor.Like ρ n n' ⟨ts, 0, n, []⟩ ⟨ts', 0, n', []⟩ :=
    ⟨hts, heof, rfl, .nil, 0, rfl, rfl⟩
  obtain ⟨hprogram, hlast⟩ := agree_declarations href hdistance
    (fuelPerToken * (ts.length + 1)) _ _ hcursor
  simp only [readProgram, ← hts.length_eq]
  refine ⟨?_, hlast.errors, hlast.numbers⟩
  rcases rel_cases hprogram with ⟨hnone, hnone'⟩ | ⟨program, program', hsome, hsome', hlike⟩
  · rw [hnone, hnone']
    exact fun _ _ => .nil
  · rw [hsome, hsome']
    exact hlike

/-- A program followed by another one. -/
lemma Derives.append {n n₁ n₂ : RefId} {ts us : List Token} {program others : List Stmt}
    (h : Derives .declarations n ts n₁ program) (h' : Derives .declarations n₁ us n₂ others) :
    Derives .declarations n (ts ++ us) n₂ (program ++ others) := by
  induction program generalizing n ts with
  | nil =>
    cases h
    exact h'
  | cons s rest ih =>
    cases h with
    | moreDeclarations hs hbody =>
      rw [List.append_assoc]
      exact .moreDeclarations hs (ih hbody)

end LoxLang
