import LoxLang.Syntax.Grammar
import Mathlib.Tactic.Common

/-!
# Derivations

What tokens are read as when nothing is wrong with them, as a relation: `Derives p n ts n' r` says
that the tokens `ts` are a phrase of the kind `p`, that they mean `r`, and that with reference
numbers handed out from `n` on the next free one is `n'`.  The relation follows the grammar and
knows nothing of cursors, fuel and complaints; the reader of programs is compared with it in both
directions, and every fact about programs without complaints is then an induction over a
derivation.

Two choices keep the relation unambiguous.  A chain of binary operators and a chain of calls are
left recursive, so that the tree of a derivation is the tree that folding to the left builds.  And
a statement carries a flag `isOpen` that tells whether it ends in a conditional without an `else`:
only a statement that does not may stand before an `else`, which binds every `else` to the nearest
conditional.  The flag cannot be read off the tree, because a `for` loop that ends in such a
conditional is a block once it is written out.
-/

namespace LoxLang

/-- The constant that a token writes by itself. -/
def Token.constant? (t : Token) : Option Literal :=
  match t.kind with
  | .keyword .false_ => some (.bool false)
  | .keyword .true_ => some (.bool true)
  | .keyword .nil_ => some .nil
  | .number x => some (.number x)
  | .string s => some (.string s)
  | _ => none

/-! ## Phrases -/

/-- The kinds of phrases that a program is made of. -/
inductive Phrase where
  | expression
  /-- What stands between operators looser than the level; without a level, a unary expression. -/
  | operand (level : Option Level)
  /-- A primary expression with calls and property accesses behind it. -/
  | suffixed
  /-- The entries of an argument list, when `count` stand before them. -/
  | arguments (count : Nat)
  | argumentList
  /-- The names of a parameter list, when `count` stand before them. -/
  | parameters (count : Nat)
  | parameterList
  | optionalExpression
  /-- The value of a variable declaration, with its equals sign. -/
  | initializer
  | forInitializer
  /-- `isOpen` tells whether the statement ends in a conditional without an `else`. -/
  | statement (isOpen : Bool)
  /-- The name behind the `<` of a class declaration. -/
  | superclass
  | function
  | methods
  | declaration
  | declarations

/-- What a phrase of each kind is read as. -/
abbrev Phrase.Result : Phrase → Type
  | .expression | .operand _ | .suffixed => Expr
  | .arguments _ | .argumentList => List Expr
  | .parameters _ | .parameterList => List Token
  | .optionalExpression | .initializer | .superclass => Option Expr
  | .forInitializer => Option Stmt
  | .statement _ | .declaration => Stmt
  | .function => FunDecl
  | .methods => List FunDecl
  | .declarations => List Stmt

/-! ## The relation -/

/-- **Tokens, what they are read as, and the numbers of their references.** -/
inductive Derives : (p : Phrase) → RefId → List Token → RefId → p.Result → Prop
  -- Expressions.
  | constant {n t value} (ht : t.constant? = some value) :
      Derives .suffixed n [t] n (.literal value)
  | name {n name} (hname : name.kind = .identifier) :
      Derives .suffixed n [name] (n + 1) (.variable n name)
  | this {n keyword} (hkeyword : keyword.kind = .keyword .this_) :
      Derives .suffixed n [keyword] (n + 1) (.this n keyword)
  | super {n keyword dot method} (hkeyword : keyword.kind = .keyword .super_)
      (hdot : dot.kind = .mark .dot) (hmethod : method.kind = .identifier) :
      Derives .suffixed n [keyword, dot, method] (n + 1) (.super n keyword method)
  | grouping {n left ts right n' inner} (hleft : left.kind = .mark .leftParen)
      (hinner : Derives .expression n ts n' inner) (hright : right.kind = .mark .rightParen) :
      Derives .suffixed n (left :: (ts ++ [right])) n' (.grouping inner)
  | call {n ts n₁ callee left args n₂ arguments paren}
      (hcallee : Derives .suffixed n ts n₁ callee) (hleft : left.kind = .mark .leftParen)
      (harguments : Derives .argumentList n₁ args n₂ arguments)
      (hparen : paren.kind = .mark .rightParen) :
      Derives .suffixed n (ts ++ left :: (args ++ [paren])) n₂ (.call callee paren arguments)
  | get {n ts n' object dot name} (hobject : Derives .suffixed n ts n' object)
      (hdot : dot.kind = .mark .dot) (hname : name.kind = .identifier) :
      Derives .suffixed n (ts ++ [dot, name]) n' (.get object name)
  | noArguments {n} : Derives .argumentList n [] n []
  | someArguments {n ts n' arguments} (h : Derives (.arguments 0) n ts n' arguments) :
      Derives .argumentList n ts n' arguments
  | lastArgument {n ts n' e count} (hcount : count < maxArity)
      (he : Derives .expression n ts n' e) : Derives (.arguments count) n ts n' [e]
  | moreArguments {n ts n₁ e comma others n₂ arguments count} (hcount : count < maxArity)
      (he : Derives .expression n ts n₁ e) (hcomma : comma.kind = .mark .comma)
      (hothers : Derives (.arguments (count + 1)) n₁ others n₂ arguments) :
      Derives (.arguments count) n (ts ++ comma :: others) n₂ (e :: arguments)
  | unprefixed {n ts n' e} (h : Derives .suffixed n ts n' e) : Derives (.operand none) n ts n' e
  | prefixed {n operator ts n' right} (hoperator : isUnaryOperator operator = true)
      (hright : Derives (.operand none) n ts n' right) :
      Derives (.operand none) n (operator :: ts) n' (.unary operator right)
  | single {n ts n' e l} (h : Derives (.operand l.tighter?) n ts n' e) :
      Derives (.operand (some l)) n ts n' e
  | chain {n ts n₁ left operator others n₂ right l}
      (hleft : Derives (.operand (some l)) n ts n₁ left)
      (hoperator : l.isOperator operator = true)
      (hright : Derives (.operand l.tighter?) n₁ others n₂ right) :
      Derives (.operand (some l)) n (ts ++ operator :: others) n₂ (l.operation left operator right)
  | plain {n ts n' e} (h : Derives (.operand (some .disjunction)) n ts n' e) :
      Derives .expression n ts n' e
  | assign {n name equals ts n' value} (hname : name.kind = .identifier)
      (hequals : equals.kind = .mark .equal) (hvalue : Derives .expression (n + 1) ts n' value) :
      Derives .expression n (name :: equals :: ts) (n' + 1) (.assign n' name value)
  | set {n ts n₁ object dot name equals others n₂ value}
      (hobject : Derives .suffixed n ts n₁ object) (hdot : dot.kind = .mark .dot)
      (hname : name.kind = .identifier) (hequals : equals.kind = .mark .equal)
      (hvalue : Derives .expression n₁ others n₂ value) :
      Derives .expression n (ts ++ dot :: name :: equals :: others) n₂ (.set object name value)
  | absent {n} : Derives .optionalExpression n [] n none
  | present {n ts n' e} (h : Derives .expression n ts n' e) :
      Derives .optionalExpression n ts n' (some e)
  -- Statements.
  | expressionStatement {n ts n' e semicolon} (he : Derives .expression n ts n' e)
      (hsemicolon : semicolon.kind = .mark .semicolon) :
      Derives (.statement false) n (ts ++ [semicolon]) n' (.expression e)
  | printStatement {n keyword ts n' e semicolon} (hkeyword : keyword.kind = .keyword .print_)
      (he : Derives .expression n ts n' e) (hsemicolon : semicolon.kind = .mark .semicolon) :
      Derives (.statement false) n (keyword :: (ts ++ [semicolon])) n' (.print e)
  | returnStatement {n keyword ts n' value semicolon}
      (hkeyword : keyword.kind = .keyword .return_)
      (hvalue : Derives .optionalExpression n ts n' value)
      (hsemicolon : semicolon.kind = .mark .semicolon) :
      Derives (.statement false) n (keyword :: (ts ++ [semicolon])) n' (.returnValue keyword value)
  | breakStatement {n keyword semicolon} (hkeyword : keyword.kind = .keyword .break_)
      (hsemicolon : semicolon.kind = .mark .semicolon) :
      Derives (.statement false) n [keyword, semicolon] n (.breakLoop keyword)
  | block {n left ts n' body right} (hleft : left.kind = .mark .leftBrace)
      (hbody : Derives .declarations n ts n' body) (hright : right.kind = .mark .rightBrace) :
      Derives (.statement false) n (left :: (ts ++ [right])) n' (.block body)
  | ifThen {n keyword left ts n₁ condition right branch n₂ thenBranch isOpen}
      (hkeyword : keyword.kind = .keyword .if_) (hleft : left.kind = .mark .leftParen)
      (hcondition : Derives .expression n ts n₁ condition)
      (hright : right.kind = .mark .rightParen)
      (hthen : Derives (.statement isOpen) n₁ branch n₂ thenBranch) :
      Derives (.statement true) n (keyword :: left :: (ts ++ right :: branch)) n₂
        (.ifThen condition thenBranch none)
  | ifElse {n keyword left ts n₁ condition right branch n₂ thenBranch otherwise other n₃ elseBranch
        isOpen}
      (hkeyword : keyword.kind = .keyword .if_) (hleft : left.kind = .mark .leftParen)
      (hcondition : Derives .expression n ts n₁ condition)
      (hright : right.kind = .mark .rightParen)
      (hthen : Derives (.statement false) n₁ branch n₂ thenBranch)
      (hotherwise : otherwise.kind = .keyword .else_)
      (helse : Derives (.statement isOpen) n₂ other n₃ elseBranch) :
      Derives (.statement isOpen) n
        (keyword :: left :: (ts ++ right :: (branch ++ otherwise :: other))) n₃
        (.ifThen condition thenBranch (some elseBranch))
  | whileLoop {n keyword left ts n₁ condition right rest n₂ body isOpen}
      (hkeyword : keyword.kind = .keyword .while_) (hleft : left.kind = .mark .leftParen)
      (hcondition : Derives .expression n ts n₁ condition)
      (hright : right.kind = .mark .rightParen)
      (hbody : Derives (.statement isOpen) n₁ rest n₂ body) :
      Derives (.statement isOpen) n (keyword :: left :: (ts ++ right :: rest)) n₂
        (.whileLoop condition body)
  | forLoop {n keyword left first n₁ initializer ts n₂ condition semicolon step n₃ increment right
        rest n₄ body isOpen}
      (hkeyword : keyword.kind = .keyword .for_) (hleft : left.kind = .mark .leftParen)
      (hinitializer : Derives .forInitializer n first n₁ initializer)
      (hcondition : Derives .optionalExpression n₁ ts n₂ condition)
      (hsemicolon : semicolon.kind = .mark .semicolon)
      (hincrement : Derives .optionalExpression n₂ step n₃ increment)
      (hright : right.kind = .mark .rightParen)
      (hbody : Derives (.statement isOpen) n₃ rest n₄ body) :
      Derives (.statement isOpen) n
        (keyword :: left :: (first ++ (ts ++ semicolon :: (step ++ right :: rest)))) n₄
        (.forLoop initializer condition increment body)
  | forNothing {n semicolon} (hsemicolon : semicolon.kind = .mark .semicolon) :
      Derives .forInitializer n [semicolon] n none
  | forVariable {n keyword name ts n' value semicolon} (hkeyword : keyword.kind = .keyword .var_)
      (hname : name.kind = .identifier) (hvalue : Derives .initializer n ts n' value)
      (hsemicolon : semicolon.kind = .mark .semicolon) :
      Derives .forInitializer n (keyword :: name :: (ts ++ [semicolon])) n' (some (.var name value))
  | forExpression {n ts n' e semicolon} (he : Derives .expression n ts n' e)
      (hsemicolon : semicolon.kind = .mark .semicolon) :
      Derives .forInitializer n (ts ++ [semicolon]) n' (some (.expression e))
  -- Declarations.
  | noInitializer {n} : Derives .initializer n [] n none
  | someInitializer {n equals ts n' e} (hequals : equals.kind = .mark .equal)
      (he : Derives .expression n ts n' e) : Derives .initializer n (equals :: ts) n' (some e)
  | variableDeclaration {n keyword name ts n' value semicolon}
      (hkeyword : keyword.kind = .keyword .var_) (hname : name.kind = .identifier)
      (hvalue : Derives .initializer n ts n' value)
      (hsemicolon : semicolon.kind = .mark .semicolon) :
      Derives .declaration n (keyword :: name :: (ts ++ [semicolon])) n' (.var name value)
  | functionDeclaration {n keyword ts n' decl} (hkeyword : keyword.kind = .keyword .fun_)
      (hdecl : Derives .function n ts n' decl) :
      Derives .declaration n (keyword :: ts) n' (.function decl)
  | classDeclaration {n keyword name ts n₁ superclass left rest n₂ methods right}
      (hkeyword : keyword.kind = .keyword .class_) (hname : name.kind = .identifier)
      (hsuperclass : Derives .superclass n ts n₁ superclass)
      (hleft : left.kind = .mark .leftBrace) (hmethods : Derives .methods n₁ rest n₂ methods)
      (hright : right.kind = .mark .rightBrace) :
      Derives .declaration n (keyword :: name :: (ts ++ left :: (rest ++ [right]))) n₂
        (.classDecl name superclass methods)
  | statement {n ts n' s isOpen} (h : Derives (.statement isOpen) n ts n' s) :
      Derives .declaration n ts n' s
  | noSuperclass {n} : Derives .superclass n [] n none
  | someSuperclass {n less parent} (hless : less.kind = .mark .less)
      (hparent : parent.kind = .identifier) :
      Derives .superclass n [less, parent] (n + 1) (some (.variable n parent))
  | noMethods {n} : Derives .methods n [] n []
  | moreMethods {n ts n₁ decl rest n₂ methods} (hdecl : Derives .function n ts n₁ decl)
      (hmethods : Derives .methods n₁ rest n₂ methods) :
      Derives .methods n (ts ++ rest) n₂ (decl :: methods)
  | function {n name left ts n₁ params right brace rest n₂ body close}
      (hname : name.kind = .identifier) (hleft : left.kind = .mark .leftParen)
      (hparams : Derives .parameterList n ts n₁ params) (hright : right.kind = .mark .rightParen)
      (hbrace : brace.kind = .mark .leftBrace) (hbody : Derives .declarations n₁ rest n₂ body)
      (hclose : close.kind = .mark .rightBrace) :
      Derives .function n (name :: left :: (ts ++ right :: brace :: (rest ++ [close]))) n₂
        (.mk name params body)
  | noParameters {n} : Derives .parameterList n [] n []
  | someParameters {n ts n' params} (h : Derives (.parameters 0) n ts n' params) :
      Derives .parameterList n ts n' params
  | lastParameter {n name count} (hcount : count < maxArity) (hname : name.kind = .identifier) :
      Derives (.parameters count) n [name] n [name]
  | moreParameters {n name comma ts n' params count} (hcount : count < maxArity)
      (hname : name.kind = .identifier) (hcomma : comma.kind = .mark .comma)
      (hothers : Derives (.parameters (count + 1)) n ts n' params) :
      Derives (.parameters count) n (name :: comma :: ts) n' (name :: params)
  | noDeclarations {n} : Derives .declarations n [] n []
  | moreDeclarations {n ts n₁ s rest n₂ body} (hs : Derives .declaration n ts n₁ s)
      (hbody : Derives .declarations n₁ rest n₂ body) :
      Derives .declarations n (ts ++ rest) n₂ (s :: body)

/-! ## The tokens of a phrase -/

/-- Can an expression start with a token of this kind? -/
def Kind.startsExpression : Kind → Bool
  | .identifier | .number _ | .string _ => true
  | .keyword k => k ∈ [.false_, .true_, .nil_, .this_, .super_]
  | .mark m => m ∈ [.leftParen, .bang, .minus]
  | .eof => false

/-- Can a statement start with a token of this kind? -/
def Kind.startsStatement (k : Kind) : Bool :=
  k.startsExpression || k ∈ [.mark .leftBrace, .keyword .print_, .keyword .return_,
    .keyword .break_, .keyword .if_, .keyword .while_, .keyword .for_]

/-- Can a declaration start with a token of this kind? -/
def Kind.startsDeclaration (k : Kind) : Bool :=
  k.startsStatement || k ∈ [.keyword .var_, .keyword .fun_, .keyword .class_]

lemma Kind.startsStatement_of_expression {k : Kind} (h : k.startsExpression = true) :
    k.startsStatement = true := by
  simp [Kind.startsStatement, h]

lemma Kind.startsDeclaration_of_statement {k : Kind} (h : k.startsStatement = true) :
    k.startsDeclaration = true := by
  simp [Kind.startsDeclaration, h]

lemma Token.startsExpression_of_constant {t : Token} {value : Literal}
    (h : t.constant? = some value) : t.kind.startsExpression = true := by
  unfold Token.constant? at h
  split at h <;> simp_all [Kind.startsExpression]

lemma startsExpression_of_isUnaryOperator {t : Token} (h : isUnaryOperator t = true) :
    t.kind.startsExpression = true := by
  simp only [isUnaryOperator, Token.isMark, Bool.or_eq_true, decide_eq_true_eq] at h
  rcases h with h | h <;> simp [h, Kind.startsExpression]

lemma Level.ne_eof_of_isOperator {l : Level} {t : Token} (h : l.isOperator t = true) :
    t.kind ≠ .eof := by
  intro he
  cases l <;> simp [Level.isOperator, Token.isMark, Token.isKeyword, he] at h

lemma Kind.ne_eof_of_startsExpression {k : Kind} (h : k.startsExpression = true) : k ≠ .eof := by
  rintro rfl
  simp [Kind.startsExpression] at h

/-- What the first token of a phrase can be. -/
def Phrase.Starts : Phrase → Kind → Prop
  | .expression, k | .operand _, k | .suffixed, k | .arguments _, k => k.startsExpression = true
  | .statement _, k => k.startsStatement = true
  | .declaration, k => k.startsDeclaration = true
  | .function, k | .parameters _, k => k = .identifier
  | _, _ => True

/-- Phrases that have a token at least. -/
def Phrase.isSolid : Phrase → Bool
  | .argumentList | .parameterList | .optionalExpression | .initializer | .superclass | .methods
  | .declarations => false
  | _ => true

namespace Derives

variable {p : Phrase} {n n' : Nat} {ts : List Token} {r : p.Result}

/-- The end of the source is in no phrase. -/
lemma ne_eof (h : Derives p n ts n' r) : ∀ t ∈ ts, t.kind ≠ .eof := by
  induction h with
  | constant ht =>
    simpa using Kind.ne_eof_of_startsExpression (Token.startsExpression_of_constant ht)
  | chain _ hoperator _ ihleft ihright =>
    have := Level.ne_eof_of_isOperator hoperator
    simp_all [or_imp]
  | prefixed hoperator _ ih =>
    have := Kind.ne_eof_of_startsExpression (startsExpression_of_isUnaryOperator hoperator)
    simp_all
  | _ => simp_all [or_imp]

/-- Numbers are only handed out. -/
lemma ref_le (h : Derives p n ts n' r) : n ≤ n' := by
  induction h <;> omega

/-- A solid phrase has a first token, which tells what the phrase can be. -/
lemma exists_head (h : Derives p n ts n' r) (hp : p.isSolid = true) :
    ∃ t rest, ts = t :: rest ∧ p.Starts t.kind := by
  induction h with
  | constant ht => exact ⟨_, _, rfl, Token.startsExpression_of_constant ht⟩
  | prefixed hoperator => exact ⟨_, _, rfl, startsExpression_of_isUnaryOperator hoperator⟩
  | call _ _ _ _ ih | get _ _ _ ih | lastArgument _ _ ih | moreArguments _ _ _ _ ih
  | unprefixed _ ih | single _ ih | chain _ _ _ ih | plain _ ih | set _ _ _ _ _ ih =>
    obtain ⟨t, rest, rfl, ht⟩ := ih rfl
    exact ⟨t, _, rfl, ht⟩
  | expressionStatement _ _ ih =>
    obtain ⟨t, rest, rfl, ht⟩ := ih rfl
    exact ⟨t, _, rfl, Kind.startsStatement_of_expression ht⟩
  | statement _ ih =>
    obtain ⟨t, rest, rfl, ht⟩ := ih rfl
    exact ⟨t, _, rfl, Kind.startsDeclaration_of_statement ht⟩
  | forExpression _ _ ih =>
    obtain ⟨t, rest, rfl, _⟩ := ih rfl
    exact ⟨t, _, rfl, trivial⟩
  | noArguments | someArguments | absent | present | noInitializer | someInitializer
  | noSuperclass | someSuperclass | noMethods | moreMethods | noParameters | someParameters
  | noDeclarations | moreDeclarations => simp [Phrase.isSolid] at hp
  | _ =>
    refine ⟨_, _, rfl, ?_⟩
    simp_all [Phrase.Starts, Kind.startsExpression, Kind.startsStatement, Kind.startsDeclaration]

end Derives

/-! ## Targets of assignments

An assignment is read as an operand first.  The operands that can be assigned to are those that
are no operation, and they are derived without passing through a level. -/

/-- Can an expression stand before an equals sign? -/
def Expr.isTarget : Expr → Bool
  | .variable .. | .get .. => true
  | _ => false

@[simp] lemma Level.isTarget_operation (l : Level) (left : Expr) (operator : Token) (right : Expr) :
    (l.operation left operator right).isTarget = false := by
  cases l <;> rfl

/-- An operand that is a target is a suffixed expression. -/
def Phrase.TargetSuffixed : (p : Phrase) → RefId → List Token → RefId → p.Result → Prop
  | .operand _, n, ts, n', e => e.isTarget = true → Derives .suffixed n ts n' e
  | _, _, _, _, _ => True

namespace Derives

variable {n n' : Nat} {ts : List Token}

lemma targetSuffixed {p : Phrase} {r : p.Result} (h : Derives p n ts n' r) :
    p.TargetSuffixed n ts n' r := by
  induction h with
  | unprefixed h => exact fun _ => h
  | prefixed => simp [Phrase.TargetSuffixed, Expr.isTarget]
  | single _ ih => exact ih
  | chain => simp [Phrase.TargetSuffixed]
  | _ => trivial

/-- The only spelling of a variable. -/
lemma variable_inv {level : Option Level} {ref : RefId} {name : Token}
    (h : Derives (.operand level) n ts n' (.variable ref name)) :
    ts = [name] ∧ ref = n ∧ n' = n + 1 ∧ name.kind = .identifier := by
  cases h.targetSuffixed rfl with
  | name hname => exact ⟨rfl, rfl, rfl, hname⟩

/-- The only spelling of a property access. -/
lemma get_inv {level : Option Level} {object : Expr} {name : Token}
    (h : Derives (.operand level) n ts n' (.get object name)) :
    ∃ ts' dot, ts = ts' ++ [dot, name] ∧ Derives .suffixed n ts' n' object ∧
      dot.kind = .mark .dot ∧ name.kind = .identifier := by
  cases h.targetSuffixed rfl with
  | get hobject hdot hname => exact ⟨_, _, rfl, hobject, hdot, hname⟩

end Derives

end LoxLang
