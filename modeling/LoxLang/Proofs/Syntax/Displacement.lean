import LoxLang.Proofs.Syntax.Indexed
import Mathlib.Tactic.Common

/-!
# Reading behind other tokens

A reader by position looks at the token at its position and at the one before it.  So what it does
does not change when other tokens are put in front of all tokens and it starts behind them: every
position is moved by the number of these tokens, and nothing else is different
(`IndexedReader.Shifts`).

Two things are left out.  A reader that looks back from the first token finds nothing, and behind
other tokens it would find one of them; that this never happens is known already.  And a reader that
has run out of fuel would have gone on with more, so a reader behind other tokens may have more of
it, as there are more tokens then.
-/

namespace LoxLang

/-! ## Places behind other tokens -/

/-- The complaint with so many more tokens in front of the place where it was made. -/
def SyntaxError.later (k : Nat) (e : SyntaxError) : SyntaxError :=
  { e with position := e.position + k }

@[simp] lemma SyntaxError.diagnostic_later (k : Nat) (e : SyntaxError) :
    (e.later k).diagnostic = e.diagnostic := rfl

/-- Where a reader stands with so many more tokens in front of its place. -/
def Stand.behind (k : Nat) (s : Stand) : Stand :=
  ⟨s.current + k, s.nextRef, s.errors.map (.later k)⟩

/-- How a reader ends with so many more tokens in front of its place. -/
def IndexedOutcome.behind {α : Type} (k : Nat) : IndexedOutcome α → IndexedOutcome α
  | .read a s => .read a (s.behind k)
  | .failed s => .failed (s.behind k)
  | .outOfRange => .outOfRange
  | .exhausted => .exhausted

namespace IndexedReader

/-- **The second reader does behind the tokens `front` what the first one does without them**,
unless the first one runs out of fuel or looks where there is no token. -/
def Shifts {α : Type} (front tokens : List Token) (q q' : IndexedReader α) : Prop :=
  ∀ s, q tokens s = .exhausted ∨ q tokens s = .outOfRange ∨
    q' (front ++ tokens) (s.behind front.length) = (q tokens s).behind front.length

namespace Shifts

variable {α β : Type} {front tokens : List Token}

/-! ## What a reader can do -/

lemma exhausted {q : IndexedReader α} :
    Shifts front tokens IndexedReader.exhausted q := fun _ => .inl rfl

lemma pure (a : α) : Shifts front tokens (Pure.pure a) (Pure.pure a) :=
  fun _ => .inr (.inr rfl)

lemma fail : Shifts front tokens (IndexedReader.fail : IndexedReader α) IndexedReader.fail :=
  fun _ => .inr (.inr rfl)

lemma bind {q q' : IndexedReader α} {f f' : α → IndexedReader β}
    (h : Shifts front tokens q q') (hf : ∀ a, Shifts front tokens (f a) (f' a)) :
    Shifts front tokens (q >>= f) (q' >>= f') := by
  intro s
  rw [run_bind, run_bind]
  rcases h s with hq | hq | hq
  · exact .inl (by rw [hq])
  · exact .inr (.inl (by rw [hq]))
  · rw [hq]
    cases q tokens s with
    | read a s₁ => exact hf a s₁
    | failed s₁ => exact .inr (.inr rfl)
    | outOfRange => exact .inr (.inl rfl)
    | exhausted => exact .inl rfl

lemma ite {b : Prop} [Decidable b] {q q' r r' : IndexedReader α}
    (hq : Shifts front tokens q q') (hr : Shifts front tokens r r') :
    Shifts front tokens (if b then q else r) (if b then q' else r') := by
  by_cases h : b
  · rw [if_pos h, if_pos h]
    exact hq
  · rw [if_neg h, if_neg h]
    exact hr

/-- The token at a position is found behind the other tokens. -/
lemma getElem?_behind (i : Nat) : (front ++ tokens)[i + front.length]? = tokens[i]? := by
  rw [Nat.add_comm, List.getElem?_append_right (Nat.le_add_right _ _), Nat.add_sub_cancel_left]

lemma peek : Shifts front tokens IndexedReader.peek IndexedReader.peek := by
  intro s
  simp only [IndexedReader.peek, Stand.behind, getElem?_behind]
  cases tokens[s.current]? with
  | none => exact .inr (.inl rfl)
  | some t => exact .inr (.inr rfl)

lemma previous : Shifts front tokens IndexedReader.previous IndexedReader.previous := by
  intro s
  obtain ⟨current, nextRef, errors⟩ := s
  cases current with
  | zero => exact .inr (.inl rfl)
  | succ i =>
    simp only [IndexedReader.previous, Stand.behind, Nat.add_right_comm, getElem?_behind]
    cases tokens[i]? with
    | none => exact .inr (.inl rfl)
    | some t =>
      refine .inr (.inr ?_)
      simp [IndexedOutcome.behind, Stand.behind, Nat.add_right_comm]

lemma step : Shifts front tokens IndexedReader.step IndexedReader.step := by
  intro s
  refine .inr (.inr ?_)
  simp [IndexedReader.step, IndexedOutcome.behind, Stand.behind, Nat.add_right_comm]

lemma complain (t : Token) (cause : SyntaxCause) : Shifts front tokens
    (IndexedReader.complain t cause) (IndexedReader.complain t cause) := by
  intro s
  refine .inr (.inr ?_)
  simp [IndexedReader.complain, IndexedOutcome.behind, Stand.behind, SyntaxError.later]

lemma freshRef : Shifts front tokens IndexedReader.freshRef IndexedReader.freshRef :=
  fun _ => .inr (.inr rfl)

lemma isAtEnd : Shifts front tokens IndexedReader.isAtEnd IndexedReader.isAtEnd :=
  peek.bind fun _ => .pure _

lemma check (test : Token → Bool) :
    Shifts front tokens (IndexedReader.check test) (IndexedReader.check test) :=
  isAtEnd.bind fun _ => .ite (.pure _) (peek.bind fun _ => .pure _)

lemma advance : Shifts front tokens IndexedReader.advance IndexedReader.advance :=
  isAtEnd.bind fun _ => .ite previous (step.bind fun _ => previous)

lemma accept? (test : Token → Bool) :
    Shifts front tokens (IndexedReader.accept? test) (IndexedReader.accept? test) :=
  (check test).bind fun _ => .ite (advance.bind fun _ => .pure _) (.pure _)

lemma expect (test : Token → Bool) (what : Expectation) :
    Shifts front tokens (IndexedReader.expect test what) (IndexedReader.expect test what) :=
  (check test).bind fun _ =>
    .ite advance (peek.bind fun _ => (complain _ _).bind fun _ => .fail)

lemma expectMark (m : Mark) (what : Expectation) : Shifts front tokens
    (IndexedReader.expectMark m what) (IndexedReader.expectMark m what) := expect _ what

lemma expectName (what : Expectation) : Shifts front tokens
    (IndexedReader.expectName what) (IndexedReader.expectName what) := expect _ what

/-- Something that may be complained about first. -/
lemma complainIf {b : Prop} [Decidable b] {q q' : IndexedReader α}
    (h : Shifts front tokens q q') (cause : SyntaxCause) : Shifts front tokens
      (if b then (do IndexedReader.complain (← IndexedReader.peek) cause; q) else q)
      (if b then (do IndexedReader.complain (← IndexedReader.peek) cause; q') else q') :=
  .ite (peek.bind fun _ => (complain _ _).bind fun _ => h) h

/-! ## Recovery -/

lemma skip {n m : Nat} (hle : n ≤ m) :
    Shifts front tokens (IndexedReader.skip n) (IndexedReader.skip m) := by
  induction n generalizing m with
  | zero => exact .exhausted
  | succ n ih =>
    obtain ⟨m, rfl⟩ := Nat.exists_eq_add_of_le' (Nat.le_trans (Nat.succ_pos n) hle)
    refine isAtEnd.bind fun _ => .ite (.pure _) (previous.bind fun _ => .ite (.pure _) ?_)
    exact peek.bind fun _ => .ite (.pure _) (advance.bind fun _ => ih (Nat.le_of_succ_le_succ hle))

/-- The fuel of recovery is the number of all tokens. -/
lemma synchronize :
    Shifts front tokens IndexedReader.synchronize IndexedReader.synchronize := by
  have hle : tokens.length ≤ (front ++ tokens).length := by simp
  exact fun s => advance.bind (fun _ => skip hle) s

lemma recover {q q' : IndexedReader α} (h : Shifts front tokens q q') :
    Shifts front tokens (IndexedReader.recover q) (IndexedReader.recover q') := by
  intro s
  simp only [IndexedReader.recover]
  rcases h s with hq | hq | hq
  · exact .inl (by rw [hq])
  · exact .inr (.inl (by rw [hq]))
  · rw [hq]
    cases q tokens s with
    | read a s₁ => exact .inr (.inr rfl)
    | failed s₁ => exact synchronize.bind (fun _ => .pure none) s₁
    | outOfRange => exact .inr (.inl rfl)
    | exhausted => exact .inl rfl

end Shifts

end IndexedReader

/-! ## Expressions -/

section Rules

open IndexedReader (Shifts)

variable {front tokens : List Token} {n m : Nat}

/-- **The rules for expressions read the same behind other tokens**, with as much fuel at least. -/
structure ExpressionsShift (front tokens : List Token) (n m : Nat) :
    Prop where
  expression : Shifts front tokens (IndexedReader.expression n) (IndexedReader.expression m)
  operand : ∀ l, Shifts front tokens (IndexedReader.operand n l) (IndexedReader.operand m l)
  chain : ∀ l left, Shifts front tokens
    (IndexedReader.chain n l left) (IndexedReader.chain m l left)
  unary : Shifts front tokens (IndexedReader.unary n) (IndexedReader.unary m)
  suffixes : ∀ e, Shifts front tokens (IndexedReader.suffixes n e) (IndexedReader.suffixes m e)
  argumentList : Shifts front tokens (IndexedReader.argumentList n) (IndexedReader.argumentList m)
  argumentsFrom : ∀ count,
    Shifts front tokens (IndexedReader.argumentsFrom n count) (IndexedReader.argumentsFrom m count)
  primary : Shifts front tokens (IndexedReader.primary n) (IndexedReader.primary m)

namespace ExpressionsShift

lemma succ_expression (h : ExpressionsShift front tokens n m) :
    Shifts front tokens (IndexedReader.expression (n + 1)) (IndexedReader.expression (m + 1)) := by
  refine (h.operand _).bind fun target => (Shifts.accept? _).bind fun equals => ?_
  cases equals with
  | none => exact .pure _
  | some equals =>
    refine h.expression.bind fun value => ?_
    cases target with
    | «variable» => exact Shifts.freshRef.bind fun _ => .pure _
    | get => exact .pure _
    | _ => exact (Shifts.complain _ _).bind fun _ => .pure _

lemma succ_operand (h : ExpressionsShift front tokens n m) (l : Option Level) :
    Shifts front tokens (IndexedReader.operand (n + 1) l) (IndexedReader.operand (m + 1) l) := by
  cases l with
  | none => exact h.unary
  | some l => exact (h.operand _).bind fun _ => h.chain l _

lemma succ_chain (h : ExpressionsShift front tokens n m) (l : Level) (left : Expr) :
    Shifts front tokens
      (IndexedReader.chain (n + 1) l left) (IndexedReader.chain (m + 1) l left) := by
  refine (Shifts.accept? _).bind fun operator => ?_
  cases operator with
  | none => exact .pure _
  | some operator => exact (h.operand _).bind fun _ => h.chain l _

lemma succ_unary (h : ExpressionsShift front tokens n m) :
    Shifts front tokens (IndexedReader.unary (n + 1)) (IndexedReader.unary (m + 1)) := by
  refine (Shifts.accept? _).bind fun operator => ?_
  cases operator with
  | none => exact h.primary.bind fun _ => h.suffixes _
  | some operator => exact h.unary.bind fun _ => .pure _

lemma succ_suffixes (h : ExpressionsShift front tokens n m) (e : Expr) :
    Shifts front tokens (IndexedReader.suffixes (n + 1) e) (IndexedReader.suffixes (m + 1) e) := by
  refine (Shifts.accept? _).bind fun paren => ?_
  cases paren with
  | some _ =>
    exact h.argumentList.bind fun _ => (Shifts.expectMark _ _).bind fun _ => h.suffixes _
  | none =>
    refine (Shifts.accept? _).bind fun dot => ?_
    cases dot with
    | some _ => exact (Shifts.expectName _).bind fun _ => h.suffixes _
    | none => exact .pure _

lemma succ_argumentList (h : ExpressionsShift front tokens n m) :
    Shifts front tokens (IndexedReader.argumentList (n + 1)) (IndexedReader.argumentList (m + 1)) :=
  (Shifts.check _).bind fun _ => .ite (.pure _) (h.argumentsFrom 0)

lemma succ_argumentsFrom (h : ExpressionsShift front tokens n m) (count : Nat) :
    Shifts front tokens
      (IndexedReader.argumentsFrom (n + 1) count) (IndexedReader.argumentsFrom (m + 1) count) := by
  refine .complainIf (h.expression.bind fun first => ?_) _
  refine (Shifts.accept? _).bind fun comma => ?_
  cases comma with
  | none => exact .pure _
  | some _ => exact (h.argumentsFrom _).bind fun _ => .pure _

lemma succ_primary (h : ExpressionsShift front tokens n m) :
    Shifts front tokens (IndexedReader.primary (n + 1)) (IndexedReader.primary (m + 1)) := by
  refine Shifts.peek.bind fun t => ?_
  split
  case h_6 | h_8 => exact Shifts.advance.bind fun _ => Shifts.freshRef.bind fun _ => .pure _
  case h_7 =>
    refine Shifts.advance.bind fun _ => (Shifts.expectMark _ _).bind fun _ => ?_
    exact (Shifts.expectName _).bind fun _ => Shifts.freshRef.bind fun _ => .pure _
  case h_9 =>
    refine Shifts.advance.bind fun _ => h.expression.bind fun _ => ?_
    exact (Shifts.expectMark _ _).bind fun _ => .pure _
  case h_10 => exact (Shifts.complain _ _).bind fun _ => .fail
  -- What is left are the constants.
  all_goals exact Shifts.advance.bind fun _ => .pure _

end ExpressionsShift

lemma expressionsShift (hle : n ≤ m) : ExpressionsShift front tokens n m := by
  induction n generalizing m with
  | zero => constructor <;> intros <;> exact .exhausted
  | succ n ih =>
    obtain ⟨m, rfl⟩ := Nat.exists_eq_add_of_le' (Nat.le_trans (Nat.succ_pos n) hle)
    have ih := ih (Nat.le_of_succ_le_succ hle)
    exact ⟨ih.succ_expression, ih.succ_operand, ih.succ_chain, ih.succ_unary, ih.succ_suffixes,
      ih.succ_argumentList, ih.succ_argumentsFrom, ih.succ_primary⟩

/-! ## Declarations and statements -/

section Clauses

variable (h : ExpressionsShift front tokens n m)

include h

lemma shifts_expressionUnless (mark : Mark) :
    Shifts front tokens
      (IndexedReader.expressionUnless n mark) (IndexedReader.expressionUnless m mark) :=
  (Shifts.check _).bind fun _ => .ite (.pure _) (h.expression.bind fun _ => .pure _)

lemma shifts_expressionStatement :
    Shifts front tokens
      (IndexedReader.expressionStatement n) (IndexedReader.expressionStatement m) :=
  h.expression.bind fun _ => (Shifts.expectMark _ _).bind fun _ => .pure _

lemma shifts_varDeclaration :
    Shifts front tokens (IndexedReader.varDeclaration n) (IndexedReader.varDeclaration m) := by
  refine (Shifts.expectName _).bind fun name => (Shifts.accept? _).bind fun equals => ?_
  have hend : ∀ value, Shifts front tokens
      (do let _ ← IndexedReader.expectMark .semicolon .variableEnd; pure (Stmt.var name value))
      (do let _ ← IndexedReader.expectMark .semicolon .variableEnd; pure (Stmt.var name value)) :=
    fun _ => (Shifts.expectMark _ _).bind fun _ => .pure _
  cases equals with
  | none => exact (Shifts.pure none).bind hend
  | some _ => exact h.expression.bind fun _ => (Shifts.pure _).bind hend

lemma shifts_printStatement :
    Shifts front tokens (IndexedReader.printStatement n) (IndexedReader.printStatement m) :=
  h.expression.bind fun _ => (Shifts.expectMark _ _).bind fun _ => .pure _

lemma shifts_returnStatement (keyword : Token) :
    Shifts front tokens
      (IndexedReader.returnStatement n keyword) (IndexedReader.returnStatement m keyword) :=
  (shifts_expressionUnless h _).bind fun _ => (Shifts.expectMark _ _).bind fun _ => .pure _

lemma shifts_forInitializer :
    Shifts front tokens (IndexedReader.forInitializer n) (IndexedReader.forInitializer m) := by
  refine (Shifts.accept? _).bind fun semicolon => ?_
  cases semicolon with
  | some _ => exact .pure _
  | none =>
    refine (Shifts.accept? _).bind fun keyword => ?_
    cases keyword with
    | some _ => exact (shifts_varDeclaration h).bind fun _ => .pure _
    | none => exact (shifts_expressionStatement h).bind fun _ => .pure _

end Clauses

lemma shifts_breakStatement (keyword : Token) :
    Shifts front tokens
      (IndexedReader.breakStatement keyword) (IndexedReader.breakStatement keyword) :=
  (Shifts.expectMark _ _).bind fun _ => .pure _

lemma shifts_parametersFrom (hle : n ≤ m) (count : Nat) :
    Shifts front tokens
      (IndexedReader.parametersFrom n count) (IndexedReader.parametersFrom m count) := by
  induction n generalizing m count with
  | zero => exact .exhausted
  | succ n ih =>
    obtain ⟨m, rfl⟩ := Nat.exists_eq_add_of_le' (Nat.le_trans (Nat.succ_pos n) hle)
    refine .complainIf ((Shifts.expectName _).bind fun first => ?_) _
    refine (Shifts.accept? _).bind fun comma => ?_
    cases comma with
    | none => exact .pure _
    | some _ => exact (ih (Nat.le_of_succ_le_succ hle) _).bind fun _ => .pure _

lemma shifts_parameterList (hle : n ≤ m) :
    Shifts front tokens (IndexedReader.parameterList n) (IndexedReader.parameterList m) :=
  (Shifts.check _).bind fun _ => .ite (.pure _) (shifts_parametersFrom hle 0)

/-- **The rules for declarations and statements read the same behind other tokens**, with as much
fuel at least. -/
structure DeclarationsShift (front tokens : List Token) (n m : Nat) :
    Prop where
  declaration : Shifts front tokens (IndexedReader.declaration n) (IndexedReader.declaration m)
  declarationRule : Shifts front tokens
    (IndexedReader.declarationRule n) (IndexedReader.declarationRule m)
  classDeclaration : Shifts front tokens
    (IndexedReader.classDeclaration n) (IndexedReader.classDeclaration m)
  methodList : Shifts front tokens (IndexedReader.methodList n) (IndexedReader.methodList m)
  function : ∀ role, Shifts front tokens
    (IndexedReader.function n role) (IndexedReader.function m role)
  block : Shifts front tokens (IndexedReader.block n) (IndexedReader.block m)
  blockItems : Shifts front tokens (IndexedReader.blockItems n) (IndexedReader.blockItems m)
  statement : Shifts front tokens (IndexedReader.statement n) (IndexedReader.statement m)
  forStatement : Shifts front tokens (IndexedReader.forStatement n) (IndexedReader.forStatement m)
  ifStatement : Shifts front tokens (IndexedReader.ifStatement n) (IndexedReader.ifStatement m)
  whileStatement : Shifts front tokens
    (IndexedReader.whileStatement n) (IndexedReader.whileStatement m)

namespace DeclarationsShift

lemma succ_declarationRule (he : ExpressionsShift front tokens n m)
    (h : DeclarationsShift front tokens n m) :
    Shifts front tokens
      (IndexedReader.declarationRule (n + 1)) (IndexedReader.declarationRule (m + 1)) := by
  refine Shifts.peek.bind fun t => ?_
  split
  · exact Shifts.advance.bind fun _ => h.classDeclaration
  · exact Shifts.advance.bind fun _ => (h.function _).bind fun _ => .pure _
  · exact Shifts.advance.bind fun _ => shifts_varDeclaration he
  · exact h.statement

lemma succ_classDeclaration (h : DeclarationsShift front tokens n m) :
    Shifts front tokens
      (IndexedReader.classDeclaration (n + 1)) (IndexedReader.classDeclaration (m + 1)) := by
  refine (Shifts.expectName _).bind fun name => (Shifts.accept? _).bind fun less => ?_
  have hend : ∀ superclass, Shifts front tokens (do
        let _ ← IndexedReader.expectMark .leftBrace .classBody
        let methods ← IndexedReader.methodList n
        let _ ← IndexedReader.expectMark .rightBrace .classEnd
        pure (Stmt.classDecl name superclass methods))
      (do
        let _ ← IndexedReader.expectMark .leftBrace .classBody
        let methods ← IndexedReader.methodList m
        let _ ← IndexedReader.expectMark .rightBrace .classEnd
        pure (Stmt.classDecl name superclass methods)) := fun _ =>
    (Shifts.expectMark _ _).bind fun _ => h.methodList.bind fun _ =>
      (Shifts.expectMark _ _).bind fun _ => .pure _
  cases less with
  | none => exact (Shifts.pure none).bind hend
  | some _ =>
    refine (Shifts.expectName _).bind fun _ => Shifts.freshRef.bind fun _ => ?_
    exact (Shifts.pure _).bind hend

lemma succ_methodList (h : DeclarationsShift front tokens n m) :
    Shifts front tokens (IndexedReader.methodList (n + 1)) (IndexedReader.methodList (m + 1)) :=
  (Shifts.check _).bind fun _ => Shifts.isAtEnd.bind fun _ => .ite (.pure _) <|
    (h.function _).bind fun _ => h.methodList.bind fun _ => .pure _

lemma succ_function (h : DeclarationsShift front tokens n m) (hle : n ≤ m)
    (role : Reader.Role) :
    Shifts front tokens
      (IndexedReader.function (n + 1) role) (IndexedReader.function (m + 1) role) := by
  refine (Shifts.expectName _).bind fun _ => (Shifts.expectMark _ _).bind fun _ => ?_
  refine (shifts_parameterList hle).bind fun _ => (Shifts.expectMark _ _).bind fun _ => ?_
  exact (Shifts.expectMark _ _).bind fun _ => h.block.bind fun _ => .pure _

lemma succ_block (h : DeclarationsShift front tokens n m) :
    Shifts front tokens (IndexedReader.block (n + 1)) (IndexedReader.block (m + 1)) :=
  h.blockItems.bind fun _ => (Shifts.expectMark _ _).bind fun _ => .pure _

lemma succ_blockItems (h : DeclarationsShift front tokens n m) :
    Shifts front tokens (IndexedReader.blockItems (n + 1)) (IndexedReader.blockItems (m + 1)) :=
  (Shifts.check _).bind fun _ => Shifts.isAtEnd.bind fun _ => .ite (.pure _) <|
    h.declaration.bind fun _ => h.blockItems.bind fun _ => .pure _

lemma succ_statement (he : ExpressionsShift front tokens n m)
    (h : DeclarationsShift front tokens n m) :
    Shifts front tokens (IndexedReader.statement (n + 1)) (IndexedReader.statement (m + 1)) := by
  refine Shifts.peek.bind fun t => ?_
  split
  · exact Shifts.advance.bind fun _ => shifts_breakStatement _
  · exact Shifts.advance.bind fun _ => h.forStatement
  · exact Shifts.advance.bind fun _ => h.ifStatement
  · exact Shifts.advance.bind fun _ => h.whileStatement
  · exact Shifts.advance.bind fun _ => shifts_returnStatement he _
  · exact Shifts.advance.bind fun _ => h.block.bind fun _ => .pure _
  · exact Shifts.advance.bind fun _ => shifts_printStatement he
  · exact shifts_expressionStatement he

lemma succ_forStatement (he : ExpressionsShift front tokens n m)
    (h : DeclarationsShift front tokens n m) :
    Shifts front tokens
      (IndexedReader.forStatement (n + 1)) (IndexedReader.forStatement (m + 1)) := by
  refine (Shifts.expectMark _ _).bind fun _ => (shifts_forInitializer he).bind fun _ => ?_
  refine (shifts_expressionUnless he _).bind fun _ => (Shifts.expectMark _ _).bind fun _ => ?_
  refine (shifts_expressionUnless he _).bind fun _ => (Shifts.expectMark _ _).bind fun _ => ?_
  exact h.statement.bind fun _ => .pure _

lemma succ_ifStatement (he : ExpressionsShift front tokens n m)
    (h : DeclarationsShift front tokens n m) :
    Shifts front tokens
      (IndexedReader.ifStatement (n + 1)) (IndexedReader.ifStatement (m + 1)) := by
  refine (Shifts.expectMark _ _).bind fun _ => he.expression.bind fun _ => ?_
  refine (Shifts.expectMark _ _).bind fun _ => h.statement.bind fun _ => ?_
  refine (Shifts.accept? _).bind fun keyword => ?_
  cases keyword with
  | none => exact .pure _
  | some _ => exact h.statement.bind fun _ => .pure _

lemma succ_whileStatement (he : ExpressionsShift front tokens n m)
    (h : DeclarationsShift front tokens n m) :
    Shifts front tokens
      (IndexedReader.whileStatement (n + 1)) (IndexedReader.whileStatement (m + 1)) := by
  refine (Shifts.expectMark _ _).bind fun _ => he.expression.bind fun _ => ?_
  exact (Shifts.expectMark _ _).bind fun _ => h.statement.bind fun _ => .pure _

end DeclarationsShift

lemma declarationsShift (hle : n ≤ m) : DeclarationsShift front tokens n m := by
  induction n generalizing m with
  | zero => constructor <;> intros <;> exact .exhausted
  | succ n ih =>
    obtain ⟨m, rfl⟩ := Nat.exists_eq_add_of_le' (Nat.le_trans (Nat.succ_pos n) hle)
    have hle := Nat.le_of_succ_le_succ hle
    have ih := ih hle
    have he : ExpressionsShift front tokens n m := expressionsShift hle
    exact {
      declaration := ih.declarationRule.recover
      declarationRule := ih.succ_declarationRule he
      classDeclaration := ih.succ_classDeclaration
      methodList := ih.succ_methodList
      function := ih.succ_function hle
      block := ih.succ_block
      blockItems := ih.succ_blockItems
      statement := ih.succ_statement he
      forStatement := ih.succ_forStatement he
      ifStatement := ih.succ_ifStatement he
      whileStatement := ih.succ_whileStatement he }

/-- **Declarations up to the end of the source read the same behind other tokens.** -/
lemma shifts_declarations (hle : n ≤ m) :
    Shifts front tokens (IndexedReader.declarations n) (IndexedReader.declarations m) := by
  induction n generalizing m with
  | zero => exact .exhausted
  | succ n ih =>
    obtain ⟨m, rfl⟩ := Nat.exists_eq_add_of_le' (Nat.le_trans (Nat.succ_pos n) hle)
    have hle := Nat.le_of_succ_le_succ hle
    refine Shifts.isAtEnd.bind fun _ => .ite (.pure _) ?_
    exact (declarationsShift hle).declaration.bind fun _ => (ih hle).bind fun _ => .pure _

end Rules

end LoxLang
