import LoxLang.Proofs.Syntax.Completeness
import LoxLang.Syntax.Text
import Mathlib.Data.List.Forall2

/-!
# Normal trees and their tokens

Acceptance does not fix the tree: a swapped level, a chain folded to the right or an `else` at the
wrong conditional accept the same tokens.  Here the trees that a reader may build are singled out
(`Stmt.isNormal`) and written back as tokens (`Stmt.tokens`), with parentheses only where the tree
has a grouping, and the reader is shown to be an inverse of writing:

* what is read without a complaint is normal, and written back it is what was read;
* a normal program is read back from its tokens, up to the numbers of its references.

Both are proved through derivations, the first by induction over a derivation and the second by
induction over the tree.  `for` loops are left out of the first statement, since they are written
out when they are read.

The tree keeps names, operators and the keywords that later stages report on, so these are written
back as they were; marks, other keywords and literals are lost and are written in their usual
spelling on line zero.
-/

namespace LoxLang

/-! ## Tokens up to what a tree loses -/

/-- The spelling that a kind has in every source.  Names and literals have none. -/
def Kind.spelling? : Kind → Option String
  | .mark m => some m.spelling
  | .keyword k => some k.spelling
  | .eof => some ""
  | .identifier | .string _ | .number _ => none

/-- Is the token a string or a number? -/
def Token.isLiteral (t : Token) : Bool :=
  match t.kind with
  | .string _ | .number _ => true
  | _ => false

/-- Is a mark or a keyword not spelled as it is?  No source contains such a token. -/
def Token.isMisspelled (t : Token) : Bool := t.kind.spelling?.any (· ≠ t.lexeme)

/-- **Is `s` the token `t`, up to the spelling of a literal and the line?**  A misspelled mark or
keyword is recognised by its kind alone. -/
def Token.alike (s t : Token) : Bool :=
  s.kind = t.kind && (t.isLiteral || s.lexeme = t.lexeme || t.isMisspelled)

/-- Are tokens alike one by one? -/
abbrev TokensAlike (us ts : List Token) : Prop := List.Forall₂ (fun s t => s.alike t = true) us ts

@[simp] lemma Token.alike_refl (t : Token) : t.alike t = true := by simp [Token.alike]

/-- A mark in its usual spelling. -/
def Mark.token (m : Mark) : Token := ⟨.mark m, m.spelling, 0⟩

/-- A keyword in its usual spelling. -/
def Keyword.token (k : Keyword) : Token := ⟨.keyword k, k.spelling, 0⟩

/-- A constant as a token. -/
def Literal.token : Literal → Token
  | .nil => Keyword.nil_.token
  | .bool true => Keyword.true_.token
  | .bool false => Keyword.false_.token
  | .number x => ⟨.number x, (Literal.number x).text, 0⟩
  | .string s => ⟨.string s, "\"" ++ s ++ "\"", 0⟩

lemma Mark.alike_token {m : Mark} {t : Token} (h : t.kind = .mark m) : m.token.alike t = true := by
  simp only [Token.alike, Mark.token, h, Token.isMisspelled, Kind.spelling?, Token.isLiteral,
    Option.any_some]
  by_cases hlexeme : m.spelling = t.lexeme <;> simp [hlexeme]

lemma Keyword.alike_token {k : Keyword} {t : Token} (h : t.kind = .keyword k) :
    k.token.alike t = true := by
  simp only [Token.alike, Keyword.token, h, Token.isMisspelled, Kind.spelling?, Token.isLiteral,
    Option.any_some]
  by_cases hlexeme : k.spelling = t.lexeme <;> simp [hlexeme]

lemma Literal.alike_token {value : Literal} {t : Token} (h : t.constant? = some value) :
    value.token.alike t = true := by
  unfold Token.constant? at h
  split at h
  case h_1 hkind | h_2 hkind | h_3 hkind =>
    cases h
    exact Keyword.alike_token hkind
  case h_4 hkind | h_5 hkind =>
    cases h
    simp [Token.alike, Literal.token, Token.isLiteral, hkind]
  case h_6 => simp at h

lemma Literal.constant?_token (value : Literal) : value.token.constant? = some value := by
  rcases value with _ | (_ | _) | _ | _ <;> rfl

/-! ## Writing a tree as tokens -/

mutual

/-- The tokens of an expression. -/
def Expr.tokens : Expr → List Token
  | .literal value => [value.token]
  | .grouping inner => Mark.leftParen.token :: (inner.tokens ++ [Mark.rightParen.token])
  | .unary operator right => operator :: right.tokens
  | .binary left operator right => left.tokens ++ operator :: right.tokens
  | .logical left operator right => left.tokens ++ operator :: right.tokens
  | .variable _ name => [name]
  | .assign _ name value => name :: Mark.equal.token :: value.tokens
  | .call callee paren arguments =>
    callee.tokens ++ Mark.leftParen.token :: (Expr.argumentTokens arguments ++ [paren])
  | .get object name => object.tokens ++ [Mark.dot.token, name]
  | .set object name value =>
    object.tokens ++ Mark.dot.token :: name :: Mark.equal.token :: value.tokens
  | .this _ keyword => [keyword]
  | .super _ keyword method => [keyword, Mark.dot.token, method]

/-- The tokens of arguments, with commas between them. -/
def Expr.argumentTokens : List Expr → List Token
  | [] => []
  | e :: others => e.tokens ++ Expr.laterTokens others

/-- The tokens of arguments that stand behind others. -/
def Expr.laterTokens : List Expr → List Token
  | [] => []
  | e :: others => Mark.comma.token :: (e.tokens ++ Expr.laterTokens others)

end

/-- The tokens of the optional value of a variable. -/
def Expr.initializerTokens : Option Expr → List Token
  | none => []
  | some e => Mark.equal.token :: e.tokens

/-- The tokens of the optional superclass of a class. -/
def Expr.superclassTokens : Option Expr → List Token
  | none => []
  | some e => Mark.less.token :: e.tokens

/-- The tokens of an optional expression. -/
def Expr.optionTokens : Option Expr → List Token
  | none => []
  | some e => e.tokens

mutual

/-- The tokens of a statement. -/
def Stmt.tokens : Stmt → List Token
  | .expression e => e.tokens ++ [Mark.semicolon.token]
  | .print e => Keyword.print_.token :: (e.tokens ++ [Mark.semicolon.token])
  | .var name value =>
    Keyword.var_.token :: name :: (Expr.initializerTokens value ++ [Mark.semicolon.token])
  | .block body => Mark.leftBrace.token :: (Stmt.tokensAll body ++ [Mark.rightBrace.token])
  | .ifThen condition thenBranch none =>
    Keyword.if_.token :: Mark.leftParen.token ::
      (condition.tokens ++ Mark.rightParen.token :: thenBranch.tokens)
  | .ifThen condition thenBranch (some elseBranch) =>
    Keyword.if_.token :: Mark.leftParen.token :: (condition.tokens ++ Mark.rightParen.token ::
      (thenBranch.tokens ++ Keyword.else_.token :: elseBranch.tokens))
  | .whileLoop condition body =>
    Keyword.while_.token :: Mark.leftParen.token ::
      (condition.tokens ++ Mark.rightParen.token :: body.tokens)
  | .breakLoop keyword => [keyword, Mark.semicolon.token]
  | .returnValue keyword value =>
    keyword :: (Expr.optionTokens value ++ [Mark.semicolon.token])
  | .function decl => Keyword.fun_.token :: decl.tokens
  | .classDecl name superclass methods =>
    Keyword.class_.token :: name :: (Expr.superclassTokens superclass ++
      Mark.leftBrace.token :: (FunDecl.tokensAll methods ++ [Mark.rightBrace.token]))

/-- The tokens of statements one behind another. -/
def Stmt.tokensAll : List Stmt → List Token
  | [] => []
  | s :: rest => s.tokens ++ Stmt.tokensAll rest

/-- The tokens of a function or method. -/
def FunDecl.tokens : FunDecl → List Token
  | .mk name params body =>
    name :: Mark.leftParen.token :: (params.intersperse Mark.comma.token ++
      Mark.rightParen.token :: Mark.leftBrace.token ::
        (Stmt.tokensAll body ++ [Mark.rightBrace.token]))

/-- The tokens of methods one behind another. -/
def FunDecl.tokensAll : List FunDecl → List Token
  | [] => []
  | d :: rest => d.tokens ++ FunDecl.tokensAll rest

end

/-! ## Normal trees -/

/-- How tightly the operators of a level bind. -/
def Level.rank : Level → Nat
  | .disjunction => 1
  | .conjunction => 2
  | .equality => 3
  | .comparison => 4
  | .term => 5
  | .factor => 6

/-- The level that an operator belongs to. -/
def Token.level? (t : Token) : Option Level :=
  [Level.disjunction, .conjunction, .equality, .comparison, .term, .factor].find? (·.isOperator t)

/-- Do the operators of the level leave out their right operand at times? -/
def Level.shortCircuits : Level → Bool
  | .disjunction | .conjunction => true
  | _ => false

/-- **How tightly an expression holds together**, from assignments at 0 over the levels of binary
operators, unary operations at 7 and calls at 8 to primary expressions at 9. -/
def Expr.rank : Expr → Nat
  | .assign .. | .set .. => 0
  | .binary _ operator _ | .logical _ operator _ => (operator.level?.map Level.rank).getD 0
  | .unary .. => 7
  | .call .. | .get .. => 8
  | .literal _ | .grouping _ | .variable .. | .this .. | .super .. => 9

/-- May expressions of these ranks stand to the left and to the right of the operator?  On the left
the same level may stand again, on the right only a tighter one. -/
def Token.admits (operator : Token) (shortCircuits : Bool) (left right : Nat) : Bool :=
  operator.level?.any fun l =>
    l.shortCircuits = shortCircuits && decide (l.rank ≤ left) && decide (l.rank < right)

mutual

/-- Is an expression one that can be read?  Every operand holds together as tightly as its place
asks for, and every token is of the kind that the node needs. -/
def Expr.isNormal : Expr → Bool
  | .literal _ => true
  | .grouping inner => inner.isNormal
  | .unary operator right => isUnaryOperator operator && right.isNormal && decide (7 ≤ right.rank)
  | .binary left operator right =>
    operator.admits false left.rank right.rank && left.isNormal && right.isNormal
  | .logical left operator right =>
    operator.admits true left.rank right.rank && left.isNormal && right.isNormal
  | .variable _ name => name.isIdentifier
  | .assign _ name value => name.isIdentifier && value.isNormal
  | .call callee paren arguments =>
    callee.isNormal && decide (8 ≤ callee.rank) && paren.isMark .rightParen &&
      decide (arguments.length ≤ maxArity) && Expr.areNormal arguments
  | .get object name => object.isNormal && decide (8 ≤ object.rank) && name.isIdentifier
  | .set object name value =>
    object.isNormal && decide (8 ≤ object.rank) && name.isIdentifier && value.isNormal
  | .this _ keyword => keyword.isKeyword .this_
  | .super _ keyword method => keyword.isKeyword .super_ && method.isIdentifier

/-- Are all expressions normal? -/
def Expr.areNormal : List Expr → Bool
  | [] => true
  | e :: others => e.isNormal && Expr.areNormal others

end

/-- Can a superclass be read?  It is a name. -/
def Expr.isName : Expr → Bool
  | .variable _ name => name.isIdentifier
  | _ => false

/-- Does the statement only stand among declarations, not as a branch or a loop body? -/
def Stmt.isDeclaration : Stmt → Bool
  | .var .. | .function _ | .classDecl .. => true
  | _ => false

/-- Does the statement end in a conditional without an `else`? -/
def Stmt.endsOpen : Stmt → Bool
  | .ifThen _ _ none => true
  | .ifThen _ _ (some elseBranch) => elseBranch.endsOpen
  | .whileLoop _ body => body.endsOpen
  | _ => false

mutual

/-- Is a statement one that can be read? -/
def Stmt.isNormal : Stmt → Bool
  | .expression e | .print e => e.isNormal
  | .var name value => name.isIdentifier && value.all Expr.isNormal
  | .block body => Stmt.areNormal body
  | .ifThen condition thenBranch none =>
    condition.isNormal && thenBranch.isNormal && !thenBranch.isDeclaration
  | .ifThen condition thenBranch (some elseBranch) =>
    condition.isNormal && thenBranch.isNormal && !thenBranch.isDeclaration &&
      !thenBranch.endsOpen && elseBranch.isNormal && !elseBranch.isDeclaration
  | .whileLoop condition body => condition.isNormal && body.isNormal && !body.isDeclaration
  | .breakLoop keyword => keyword.isKeyword .break_
  | .returnValue keyword value => keyword.isKeyword .return_ && value.all Expr.isNormal
  | .function decl => decl.isNormal
  | .classDecl name superclass methods =>
    name.isIdentifier && superclass.all Expr.isName && FunDecl.areNormal methods

/-- Are all statements normal? -/
def Stmt.areNormal : List Stmt → Bool
  | [] => true
  | s :: rest => s.isNormal && Stmt.areNormal rest

/-- Is a function or method one that can be read? -/
def FunDecl.isNormal : FunDecl → Bool
  | .mk name params body =>
    name.isIdentifier && params.all Token.isIdentifier && decide (params.length ≤ maxArity) &&
      Stmt.areNormal body

/-- Are all functions normal? -/
def FunDecl.areNormal : List FunDecl → Bool
  | [] => true
  | d :: rest => d.isNormal && FunDecl.areNormal rest

end

/-! ## Programs up to the numbers of references -/

mutual

/-- An expression in which every reference has the number zero. -/
def Expr.unnumbered : Expr → Expr
  | .literal value => .literal value
  | .grouping inner => .grouping inner.unnumbered
  | .unary operator right => .unary operator right.unnumbered
  | .binary left operator right => .binary left.unnumbered operator right.unnumbered
  | .logical left operator right => .logical left.unnumbered operator right.unnumbered
  | .variable _ name => .variable 0 name
  | .assign _ name value => .assign 0 name value.unnumbered
  | .call callee paren arguments => .call callee.unnumbered paren (Expr.unnumberedAll arguments)
  | .get object name => .get object.unnumbered name
  | .set object name value => .set object.unnumbered name value.unnumbered
  | .this _ keyword => .this 0 keyword
  | .super _ keyword method => .super 0 keyword method

/-- Expressions in which every reference has the number zero. -/
def Expr.unnumberedAll : List Expr → List Expr
  | [] => []
  | e :: others => e.unnumbered :: Expr.unnumberedAll others

end

mutual

/-- A statement in which every reference has the number zero. -/
def Stmt.unnumbered : Stmt → Stmt
  | .expression e => .expression e.unnumbered
  | .print e => .print e.unnumbered
  | .var name value => .var name (value.map Expr.unnumbered)
  | .block body => .block (Stmt.unnumberedAll body)
  | .ifThen condition thenBranch none => .ifThen condition.unnumbered thenBranch.unnumbered none
  | .ifThen condition thenBranch (some elseBranch) =>
    .ifThen condition.unnumbered thenBranch.unnumbered (some elseBranch.unnumbered)
  | .whileLoop condition body => .whileLoop condition.unnumbered body.unnumbered
  | .breakLoop keyword => .breakLoop keyword
  | .returnValue keyword value => .returnValue keyword (value.map Expr.unnumbered)
  | .function decl => .function decl.unnumbered
  | .classDecl name superclass methods =>
    .classDecl name (superclass.map Expr.unnumbered) (FunDecl.unnumberedAll methods)

/-- Statements in which every reference has the number zero. -/
def Stmt.unnumberedAll : List Stmt → List Stmt
  | [] => []
  | s :: rest => s.unnumbered :: Stmt.unnumberedAll rest

/-- A function in which every reference has the number zero. -/
def FunDecl.unnumbered : FunDecl → FunDecl
  | .mk name params body => .mk name params (Stmt.unnumberedAll body)

/-- Functions in which every reference has the number zero. -/
def FunDecl.unnumberedAll : List FunDecl → List FunDecl
  | [] => []
  | d :: rest => d.unnumbered :: FunDecl.unnumberedAll rest

end

/-! ## What is read is normal -/

namespace Level

variable {l : Level} {t : Token}

lemma level?_of_isOperator (h : l.isOperator t = true) : t.level? = some l := by
  have hone : ∀ k : Level, k.isOperator t = decide (k = l) := by
    intro k
    by_cases hk : k = l
    · simp [hk, h]
    · simpa [hk] using fun hoperator => hk (Token.level_eq_of_isOperator h hoperator)
  cases l <;> simp [Token.level?, List.find?, hone]

lemma isOperator_of_level? (h : t.level? = some l) : l.isOperator t = true := by
  unfold Token.level? at h
  exact List.find?_some (p := fun k : Level => k.isOperator t) h

/-- The rank that an operand of the level has at least; without a level, that of a unary one. -/
def operandRank : Option Level → Nat
  | some l => l.rank
  | none => 7

lemma operandRank_tighter (l : Level) : operandRank l.tighter? = l.rank + 1 := by cases l <;> rfl

lemma rank_operation (h : l.isOperator t = true) (left right : Expr) :
    (l.operation left t right).rank = l.rank := by
  cases l <;> simp [Level.operation, Expr.rank, level?_of_isOperator h]

lemma isNormal_operation (h : l.isOperator t = true) {left right : Expr}
    (hleft : left.isNormal = true) (hright : right.isNormal = true)
    (hleftRank : l.rank ≤ left.rank) (hrightRank : l.rank < right.rank) :
    (l.operation left t right).isNormal = true := by
  have hadmits : t.admits l.shortCircuits left.rank right.rank = true := by
    simp [Token.admits, level?_of_isOperator h, hleftRank, hrightRank]
  cases l <;>
    simpa [Level.operation, Expr.isNormal, Level.shortCircuits, hleft, hright] using hadmits

@[simp] lemma tokens_operation (l : Level) (left right : Expr) :
    (l.operation left t right).tokens = left.tokens ++ t :: right.tokens := by
  cases l <;> simp [Level.operation, Expr.tokens]

end Level

/-- What reading a phrase of each kind gives: a normal tree that fits its place.  A statement may be
less open than its tokens, because a `for` loop that is written out can be a block. -/
def Phrase.Fits : (p : Phrase) → p.Result → Prop
  | .expression, e => e.isNormal = true
  | .operand level, e => e.isNormal = true ∧ Level.operandRank level ≤ e.rank
  | .suffixed, e => e.isNormal = true ∧ 8 ≤ e.rank
  | .arguments count, es => Expr.areNormal es = true ∧ es ≠ [] ∧ count + es.length ≤ maxArity
  | .argumentList, es => Expr.areNormal es = true ∧ es.length ≤ maxArity
  | .parameters count, names =>
    names.all Token.isIdentifier = true ∧ names ≠ [] ∧ count + names.length ≤ maxArity
  | .parameterList, names => names.all Token.isIdentifier = true ∧ names.length ≤ maxArity
  | .optionalExpression, o | .initializer, o => o.all Expr.isNormal = true
  | .forInitializer, o => o.all Stmt.isNormal = true
  | .statement isOpen, s =>
    s.isNormal = true ∧ s.isDeclaration = false ∧ (s.endsOpen = true → isOpen = true)
  | .superclass, o => o.all Expr.isName = true
  | .function, d => d.isNormal = true
  | .methods, ds => FunDecl.areNormal ds = true
  | .declaration, s => s.isNormal = true
  | .declarations, body => Stmt.areNormal body = true

/-- A loop whose parts are normal is normal once it is written out. -/
lemma Stmt.fits_forLoop {initializer : Option Stmt} {condition increment : Option Expr}
    {body : Stmt} {isOpen : Bool} (hinitializer : initializer.all Stmt.isNormal = true)
    (hcondition : condition.all Expr.isNormal = true)
    (hincrement : increment.all Expr.isNormal = true)
    (hbody : (Phrase.statement isOpen).Fits body) :
    (Phrase.statement isOpen).Fits (Stmt.forLoop initializer condition increment body) := by
  obtain ⟨hnormal, hdecl, hopen⟩ := hbody
  have htest : (condition.getD (.literal (.bool true))).isNormal = true := by
    cases condition with
    | none => simp [Expr.isNormal]
    | some e => simpa using hcondition
  cases initializer <;> cases increment <;>
    simp_all [Phrase.Fits, Stmt.forLoop, Stmt.isNormal, Stmt.areNormal, Stmt.isDeclaration,
      Stmt.endsOpen]

/-- **What is read is normal.** -/
lemma Derives.fits {p : Phrase} {n n' : RefId} {ts : List Token} {r : p.Result}
    (h : Derives p n ts n' r) : p.Fits r := by
  induction h with
  | constant => exact ⟨by simp [Expr.isNormal], by simp [Expr.rank]⟩
  | name hname => exact ⟨by simp [Expr.isNormal, Token.isIdentifier, hname], by simp [Expr.rank]⟩
  | this hkeyword => exact ⟨by simp [Expr.isNormal, Token.isKeyword, hkeyword], by simp [Expr.rank]⟩
  | super hkeyword _ hmethod =>
    exact ⟨by simp [Expr.isNormal, Token.isKeyword, Token.isIdentifier, hkeyword, hmethod],
      by simp [Expr.rank]⟩
  | grouping _ _ _ ih => exact ⟨by simpa [Phrase.Fits, Expr.isNormal] using ih, by simp [Expr.rank]⟩
  | call _ _ _ hparen ihcallee iharguments =>
    obtain ⟨hcallee, hrank⟩ := ihcallee
    obtain ⟨harguments, hlength⟩ := iharguments
    exact ⟨by simp [Expr.isNormal, Token.isMark, hcallee, hrank, hparen, harguments, hlength],
      by simp [Expr.rank]⟩
  | get _ _ hname ih =>
    exact ⟨by simp [Expr.isNormal, Token.isIdentifier, ih.1, ih.2, hname], by simp [Expr.rank]⟩
  | noArguments => exact ⟨rfl, Nat.zero_le _⟩
  | someArguments _ ih => exact ⟨ih.1, by simpa using ih.2.2⟩
  | lastArgument hcount _ ih =>
    have hnormal : Expr.isNormal _ = true := ih
    exact ⟨by simp [Expr.areNormal, hnormal], by simp, hcount⟩
  | moreArguments _ _ _ _ ihe ihothers =>
    have hnormal : Expr.isNormal _ = true := ihe
    obtain ⟨hnormals, -, hlength⟩ := ihothers
    exact ⟨by simp [Expr.areNormal, hnormal, hnormals], by simp,
      by simp only [List.length_cons]; omega⟩
  | unprefixed _ ih => exact ⟨ih.1, by simp only [Level.operandRank]; have := ih.2; omega⟩
  | prefixed hoperator _ ih =>
    obtain ⟨hnormal, hrank⟩ := ih
    simp only [Level.operandRank] at hrank
    exact ⟨by simp [Expr.isNormal, hoperator, hnormal, hrank],
      by simp [Expr.rank, Level.operandRank]⟩
  | @single _ _ _ _ l _ ih =>
    obtain ⟨hnormal, hrank⟩ := ih
    rw [Level.operandRank_tighter] at hrank
    exact ⟨hnormal, by simp only [Level.operandRank]; omega⟩
  | @chain _ _ _ _ _ _ _ _ l _ hoperator _ ihleft ihright =>
    obtain ⟨hleft, hleftRank⟩ := ihleft
    obtain ⟨hright, hrightRank⟩ := ihright
    rw [Level.operandRank_tighter] at hrightRank
    exact ⟨Level.isNormal_operation hoperator hleft hright hleftRank (by omega),
      by simp [Level.rank_operation hoperator, Level.operandRank]⟩
  | plain _ ih => exact ih.1
  | assign hname _ _ ih =>
    have hnormal : Expr.isNormal _ = true := ih
    simp [Phrase.Fits, Expr.isNormal, Token.isIdentifier, hname, hnormal]
  | set _ _ hname _ _ ihobject ihvalue =>
    have hvalue : Expr.isNormal _ = true := ihvalue
    simp [Phrase.Fits, Expr.isNormal, Token.isIdentifier, ihobject.1, ihobject.2, hname, hvalue]
  | absent | noInitializer | noSuperclass | noMethods | noDeclarations | forNothing => rfl
  | present _ ih | someInitializer _ _ ih => exact ih
  | expressionStatement _ _ ih | printStatement _ _ _ ih | block _ _ _ ih =>
    exact ⟨by simpa [Phrase.Fits, Stmt.isNormal] using ih, rfl, by simp [Stmt.endsOpen]⟩
  | returnStatement hkeyword _ _ ih =>
    have hvalue : Option.all Expr.isNormal _ = true := ih
    exact ⟨by simp [Stmt.isNormal, Token.isKeyword, hkeyword, hvalue], rfl, by simp [Stmt.endsOpen]⟩
  | breakStatement hkeyword =>
    exact ⟨by simp [Stmt.isNormal, Token.isKeyword, hkeyword], rfl, by simp [Stmt.endsOpen]⟩
  | ifThen _ _ _ _ _ ihcondition ihthen =>
    have hcondition : Expr.isNormal _ = true := ihcondition
    obtain ⟨hthen, hdecl, -⟩ := ihthen
    exact ⟨by simp [Stmt.isNormal, hcondition, hthen, hdecl], rfl, by simp [Stmt.endsOpen]⟩
  | ifElse _ _ _ _ _ _ _ ihcondition ihthen ihelse =>
    have hcondition : Expr.isNormal _ = true := ihcondition
    obtain ⟨hthen, hdecl, hopen⟩ := ihthen
    obtain ⟨helse, hdecl', hopen'⟩ := ihelse
    simp only [Bool.false_eq_true, imp_false, Bool.not_eq_true] at hopen
    exact ⟨by simp [Stmt.isNormal, hcondition, hthen, hdecl, hopen, helse, hdecl'], rfl,
      by simpa [Stmt.endsOpen] using hopen'⟩
  | whileLoop _ _ _ _ _ ihcondition ihbody =>
    have hcondition : Expr.isNormal _ = true := ihcondition
    obtain ⟨hbody, hdecl, hopen⟩ := ihbody
    exact ⟨by simp [Stmt.isNormal, hcondition, hbody, hdecl], rfl,
      by simpa [Stmt.endsOpen] using hopen⟩
  | forLoop _ _ _ _ _ _ _ _ ihinitializer ihcondition ihincrement ihbody =>
    exact Stmt.fits_forLoop ihinitializer ihcondition ihincrement ihbody
  | forVariable _ hname _ _ ih | variableDeclaration _ hname _ _ ih =>
    have hvalue : Option.all Expr.isNormal _ = true := ih
    simp [Phrase.Fits, Stmt.isNormal, Token.isIdentifier, hname, hvalue]
  | forExpression _ _ ih | functionDeclaration _ _ ih =>
    simpa [Phrase.Fits, Stmt.isNormal] using ih
  | classDeclaration _ hname _ _ _ _ ihsuperclass ihmethods =>
    have hsuperclass : Option.all Expr.isName _ = true := ihsuperclass
    have hmethods : FunDecl.areNormal _ = true := ihmethods
    simp [Phrase.Fits, Stmt.isNormal, Token.isIdentifier, hname, hsuperclass, hmethods]
  | statement _ ih => exact ih.1
  | someSuperclass _ hparent => simp [Phrase.Fits, Expr.isName, Token.isIdentifier, hparent]
  | moreMethods _ _ ihdecl ihmethods =>
    have hdecl : FunDecl.isNormal _ = true := ihdecl
    have hmethods : FunDecl.areNormal _ = true := ihmethods
    simp [Phrase.Fits, FunDecl.areNormal, hdecl, hmethods]
  | function hname _ _ _ _ _ _ ihparams ihbody =>
    obtain ⟨hparams, hlength⟩ := ihparams
    have hbody : Stmt.areNormal _ = true := ihbody
    rw [Phrase.Fits, FunDecl.isNormal, hparams, hbody]
    simp [Token.isIdentifier, hname, hlength]
  | noParameters => exact ⟨rfl, Nat.zero_le _⟩
  | someParameters _ ih => exact ⟨ih.1, by simpa using ih.2.2⟩
  | lastParameter hcount hname => exact ⟨by simp [Token.isIdentifier, hname], by simp, hcount⟩
  | moreParameters _ hname _ _ ih =>
    obtain ⟨hnames, -, hlength⟩ := ih
    refine ⟨?_, by simp, by simp only [List.length_cons]; omega⟩
    rw [List.all_cons, hnames]
    simp [Token.isIdentifier, hname]
  | moreDeclarations _ _ ihs ihbody =>
    have hs : Stmt.isNormal _ = true := ihs
    have hbody : Stmt.areNormal _ = true := ihbody
    simp [Phrase.Fits, Stmt.areNormal, hs, hbody]

/-! ## What is read is written back -/

/-- The tokens of what a phrase is read as.  The first clause of a `for` loop is written as the
statement that it is, and one that is missing leaves its semicolon. -/
def Phrase.tokens : (p : Phrase) → p.Result → List Token
  | .expression, e | .operand _, e | .suffixed, e => e.tokens
  | .arguments _, es | .argumentList, es => Expr.argumentTokens es
  | .parameters _, names | .parameterList, names => names.intersperse Mark.comma.token
  | .optionalExpression, o => Expr.optionTokens o
  | .initializer, o => Expr.initializerTokens o
  | .forInitializer, o => (o.map Stmt.tokens).getD [Mark.semicolon.token]
  | .statement _, s | .declaration, s => s.tokens
  | .superclass, o => Expr.superclassTokens o
  | .function, d => d.tokens
  | .methods, ds => FunDecl.tokensAll ds
  | .declarations, body => Stmt.tokensAll body

section Alike

variable {ts us vs ws : List Token} {s t : Token}

lemma TokensAlike.append (h : TokensAlike us ts) (h' : TokensAlike vs ws) :
    TokensAlike (us ++ vs) (ts ++ ws) := List.rel_append h h'

lemma TokensAlike.mark {m : Mark} (ht : t.kind = .mark m) (h : TokensAlike us ts) :
    TokensAlike (m.token :: us) (t :: ts) := .cons (Mark.alike_token ht) h

lemma TokensAlike.word {k : Keyword} (ht : t.kind = .keyword k) (h : TokensAlike us ts) :
    TokensAlike (k.token :: us) (t :: ts) := .cons (Keyword.alike_token ht) h

/-- Tokens that the tree keeps. -/
lemma TokensAlike.kept (t : Token) (h : TokensAlike us ts) : TokensAlike (t :: us) (t :: ts) :=
  .cons t.alike_refl h

lemma laterTokens_of_ne_nil {es : List Expr} (h : es ≠ []) :
    Expr.laterTokens es = Mark.comma.token :: Expr.argumentTokens es := by
  cases es with
  | nil => exact absurd rfl h
  | cons e others => simp [Expr.laterTokens, Expr.argumentTokens]

lemma intersperse_cons_of_ne_nil {comma name : Token} {names : List Token} (h : names ≠ []) :
    (name :: names).intersperse comma = name :: comma :: names.intersperse comma := by
  cases names with
  | nil => exact absurd rfl h
  | cons next others => rfl

end Alike

/-- **What is read has the tokens that were read**, if there are no `for` loops. -/
lemma Derives.alike_tokens {p : Phrase} {n n' : RefId} {ts : List Token} {r : p.Result}
    (h : Derives p n ts n' r) (hfor : ∀ t ∈ ts, t.kind ≠ .keyword .for_) :
    TokensAlike (p.tokens r) ts := by
  induction h with
  | constant ht => exact .cons (Literal.alike_token ht) .nil
  | name | this => exact .kept _ .nil
  | super _ hdot _ => exact .kept _ (.mark hdot (.kept _ .nil))
  | grouping hleft _ hright ih =>
    have halike := ih fun t ht => hfor t (by simp [ht])
    exact .mark hleft (halike.append (.mark hright .nil))
  | call _ hleft _ hparen ihcallee iharguments =>
    have hcallee := ihcallee fun t ht => hfor t (by simp [ht])
    have harguments := iharguments fun t ht => hfor t (by simp [ht])
    exact hcallee.append (.mark hleft (harguments.append (.kept _ .nil)))
  | get _ hdot hname ih =>
    have hobject := ih fun t ht => hfor t (by simp [ht])
    exact hobject.append (.mark hdot (.kept _ .nil))
  | noArguments | absent | noInitializer | noSuperclass | noMethods | noParameters
  | noDeclarations => exact .nil
  | someArguments _ ih | unprefixed _ ih | single _ ih | plain _ ih | present _ ih
  | statement _ ih | someParameters _ ih => exact ih hfor
  | lastArgument _ _ ih =>
    simpa [Phrase.tokens, Expr.argumentTokens, Expr.laterTokens] using ih hfor
  | moreArguments _ _ hcomma hothers ihe ihothers =>
    have hfirst := ihe fun t ht => hfor t (by simp [ht])
    have hrest := ihothers fun t ht => hfor t (by simp [ht])
    rw [Phrase.tokens, Expr.argumentTokens, laterTokens_of_ne_nil hothers.fits.2.1]
    exact hfirst.append (.mark hcomma hrest)
  | prefixed _ _ ih => exact .kept _ (ih fun t ht => hfor t (by simp [ht]))
  | chain _ _ _ ihleft ihright =>
    have hleft := ihleft fun t ht => hfor t (by simp [ht])
    have hright := ihright fun t ht => hfor t (by simp [ht])
    rw [Phrase.tokens, Level.tokens_operation]
    exact hleft.append (.kept _ hright)
  | assign _ hequals _ ih =>
    have hvalue := ih fun t ht => hfor t (by simp [ht])
    exact .kept _ (.mark hequals hvalue)
  | set _ hdot _ hequals _ ihobject ihvalue =>
    have hobject := ihobject fun t ht => hfor t (by simp [ht])
    have hvalue := ihvalue fun t ht => hfor t (by simp [ht])
    exact hobject.append (.mark hdot (.kept _ (.mark hequals hvalue)))
  | expressionStatement _ hsemicolon ih | forExpression _ hsemicolon ih =>
    have hvalue := ih fun t ht => hfor t (by simp [ht])
    exact hvalue.append (.mark hsemicolon .nil)
  | printStatement hkeyword _ hsemicolon ih =>
    have hvalue := ih fun t ht => hfor t (by simp [ht])
    exact .word hkeyword (hvalue.append (.mark hsemicolon .nil))
  | returnStatement _ _ hsemicolon ih =>
    have hvalue := ih fun t ht => hfor t (by simp [ht])
    exact .kept _ (hvalue.append (.mark hsemicolon .nil))
  | breakStatement _ hsemicolon => exact .kept _ (.mark hsemicolon .nil)
  | block hleft _ hright ih =>
    have hbody := ih fun t ht => hfor t (by simp [ht])
    exact .mark hleft (hbody.append (.mark hright .nil))
  | ifThen hkeyword hleft _ hright _ ihcondition ihthen =>
    have hcondition := ihcondition fun t ht => hfor t (by simp [ht])
    have hthen := ihthen fun t ht => hfor t (by simp [ht])
    exact .word hkeyword (.mark hleft (hcondition.append (.mark hright hthen)))
  | ifElse hkeyword hleft _ hright _ hotherwise _ ihcondition ihthen ihelse =>
    have hcondition := ihcondition fun t ht => hfor t (by simp [ht])
    have hthen := ihthen fun t ht => hfor t (by simp [ht])
    have helse := ihelse fun t ht => hfor t (by simp [ht])
    exact .word hkeyword (.mark hleft (hcondition.append (.mark hright
      (hthen.append (.word hotherwise helse)))))
  | whileLoop hkeyword hleft _ hright _ ihcondition ihbody =>
    have hcondition := ihcondition fun t ht => hfor t (by simp [ht])
    have hbody := ihbody fun t ht => hfor t (by simp [ht])
    exact .word hkeyword (.mark hleft (hcondition.append (.mark hright hbody)))
  | forLoop hkeyword => exact absurd hkeyword (hfor _ (by simp))
  | someInitializer hequals _ ih => exact .mark hequals (ih fun t ht => hfor t (by simp [ht]))
  | forVariable hkeyword _ _ hsemicolon ih | variableDeclaration hkeyword _ _ hsemicolon ih =>
    have hvalue := ih fun t ht => hfor t (by simp [ht])
    exact .word hkeyword (.kept _ (hvalue.append (.mark hsemicolon .nil)))
  | functionDeclaration hkeyword _ ih => exact .word hkeyword (ih fun t ht => hfor t (by simp [ht]))
  | classDeclaration hkeyword _ _ hleft _ hright ihsuperclass ihmethods =>
    have hsuperclass := ihsuperclass fun t ht => hfor t (by simp [ht])
    have hmethods := ihmethods fun t ht => hfor t (by simp [ht])
    exact .word hkeyword (.kept _ (hsuperclass.append (.mark hleft
      (hmethods.append (.mark hright .nil)))))
  | someSuperclass hless _ => exact .mark hless (.kept _ .nil)
  | moreMethods _ _ ihfirst ihrest | moreDeclarations _ _ ihfirst ihrest =>
    have hfirst := ihfirst fun t ht => hfor t (by simp [ht])
    have hrest := ihrest fun t ht => hfor t (by simp [ht])
    exact hfirst.append hrest
  | function _ hleft _ hright hbrace _ hclose ihparams ihbody =>
    have hparams := ihparams fun t ht => hfor t (by simp [ht])
    have hbody := ihbody fun t ht => hfor t (by simp [ht])
    exact .kept _ (.mark hleft (hparams.append (.mark hright (.mark hbrace
      (hbody.append (.mark hclose .nil))))))
  | lastParameter => exact .kept _ .nil
  | moreParameters _ _ hcomma hothers ih =>
    have hrest := ih fun t ht => hfor t (by simp [ht])
    rw [Phrase.tokens, intersperse_cons_of_ne_nil hothers.fits.2.1]
    exact .kept _ (.mark hcomma hrest)
  | forNothing hsemicolon => exact .mark hsemicolon .nil

/-! ## What is normal is read -/

/-- The kind of phrase that has a rank at least. -/
def DerivesAt (rank : Nat) (n : RefId) (ts : List Token) (n' : RefId) (e : Expr) : Prop :=
  match rank with
  | 0 => Derives .expression n ts n' e
  | 1 => Derives (.operand (some .disjunction)) n ts n' e
  | 2 => Derives (.operand (some .conjunction)) n ts n' e
  | 3 => Derives (.operand (some .equality)) n ts n' e
  | 4 => Derives (.operand (some .comparison)) n ts n' e
  | 5 => Derives (.operand (some .term)) n ts n' e
  | 6 => Derives (.operand (some .factor)) n ts n' e
  | 7 => Derives (.operand none) n ts n' e
  | _ => Derives .suffixed n ts n' e

namespace DerivesAt

variable {n n' : RefId} {ts : List Token} {e : Expr} {rank : Nat}

lemma of_succ (h : DerivesAt (rank + 1) n ts n' e) : DerivesAt rank n ts n' e := by
  match rank, h with
  | 0, h => exact .plain h
  | 1, h | 2, h | 3, h | 4, h | 5, h | 6, h => exact .single h
  | 7, h => exact .unprefixed h
  | _ + 8, h => exact h

/-- What holds together tightly may stand where less is asked for. -/
lemma mono {rank' : Nat} (h : DerivesAt rank n ts n' e) (hrank : rank' ≤ rank) :
    DerivesAt rank' n ts n' e := by
  induction hrank with
  | refl => exact h
  | step _ ih => exact ih h.of_succ

lemma operand (level : Option Level) (h : DerivesAt (Level.operandRank level) n ts n' e) :
    Derives (.operand level) n ts n' e := by
  rcases level with _ | (_ | _ | _ | _ | _ | _) <;> exact h

lemma of_operand {l : Level} (h : Derives (.operand (some l)) n ts n' e) :
    DerivesAt l.rank n ts n' e := by
  cases l <;> exact h

end DerivesAt

/-- Some numbering of the expression is read from its tokens, at its rank. -/
def Expr.IsRead (e : Expr) : Prop :=
  ∀ n, ∃ n' e', e'.unnumbered = e.unnumbered ∧ DerivesAt e.rank n e.tokens n' e'

namespace Expr.IsRead

variable {e : Expr}

/-- A normal expression that is read may stand wherever its rank allows it. -/
lemma exists_at (h : e.IsRead) {rank : Nat} (hrank : rank ≤ e.rank) (n : RefId) :
    ∃ n' e', e'.unnumbered = e.unnumbered ∧ DerivesAt rank n e.tokens n' e' := by
  obtain ⟨n', e', heq, hderives⟩ := h n
  exact ⟨n', e', heq, hderives.mono hrank⟩

lemma exists_expression (h : e.IsRead) (n : RefId) :
    ∃ n' e', e'.unnumbered = e.unnumbered ∧ Derives .expression n e.tokens n' e' :=
  h.exists_at (Nat.zero_le _) n

lemma exists_suffixed (h : e.IsRead) (hrank : 8 ≤ e.rank) (n : RefId) :
    ∃ n' e', e'.unnumbered = e.unnumbered ∧ Derives .suffixed n e.tokens n' e' :=
  h.exists_at hrank n

end Expr.IsRead

/-- The operands that an operator admits are of its level and of a tighter one. -/
lemma Token.admits_iff {operator : Token} {shortCircuits : Bool} {left right : Nat} :
    operator.admits shortCircuits left right = true ↔ ∃ l : Level, l.isOperator operator = true ∧
      l.shortCircuits = shortCircuits ∧ l.rank ≤ left ∧ l.rank < right := by
  simp only [Token.admits, Option.any_eq_true, Bool.and_eq_true, decide_eq_true_eq]
  constructor
  · rintro ⟨l, hl, ⟨hshort, hleft⟩, hright⟩
    exact ⟨l, Level.isOperator_of_level? hl, hshort, hleft, hright⟩
  · rintro ⟨l, hl, hshort, hleft, hright⟩
    exact ⟨l, Level.level?_of_isOperator hl, ⟨hshort, hleft⟩, hright⟩

/-- An operation on operands that its level admits. -/
lemma Level.isRead_operation {l : Level} {left right : Expr} {operator : Token}
    (hoperator : l.isOperator operator = true) (hleft : left.IsRead) (hright : right.IsRead)
    (hleftRank : l.rank ≤ left.rank) (hrightRank : l.rank < right.rank) :
    (l.operation left operator right).IsRead := by
  intro n
  obtain ⟨n₁, left', hleftEq, hleft⟩ := hleft.exists_at hleftRank n
  have hrank : Level.operandRank l.tighter? ≤ right.rank := by
    rw [Level.operandRank_tighter]
    exact hrightRank
  obtain ⟨n₂, right', hrightEq, hright⟩ := hright.exists_at hrank n₁
  refine ⟨n₂, l.operation left' operator right', ?_, ?_⟩
  · cases l <;> simp [Level.operation, Expr.unnumbered, hleftEq, hrightEq]
  · rw [Level.rank_operation hoperator, Level.tokens_operation]
    exact .of_operand (.chain (hleft.operand (some l)) hoperator (hright.operand _))

/-- Arguments behind `count` others. -/
def Expr.AreRead (es : List Expr) : Prop :=
  ∀ n count, es ≠ [] → count + es.length ≤ maxArity → ∃ n' es',
    Expr.unnumberedAll es' = Expr.unnumberedAll es ∧
      Derives (.arguments count) n (Expr.argumentTokens es) n' es'

section Expressions

variable {e object callee value right : Expr} {es : List Expr}

lemma Expr.areRead_cons (he : e.IsRead) (hes : Expr.AreRead es) : Expr.AreRead (e :: es) := by
  intro n count _ hcount
  simp only [List.length_cons] at hcount
  obtain ⟨n₁, e', heq, he⟩ := he.exists_expression n
  by_cases hnil : es = []
  · subst hnil
    refine ⟨n₁, [e'], by simp [Expr.unnumberedAll, heq], ?_⟩
    simpa [Expr.argumentTokens, Expr.laterTokens] using .lastArgument (by omega) he
  · obtain ⟨n₂, es', heqs, hes⟩ := hes n₁ (count + 1) hnil (by omega)
    refine ⟨n₂, e' :: es', by simp [Expr.unnumberedAll, heq, heqs], ?_⟩
    rw [Expr.argumentTokens, laterTokens_of_ne_nil hnil]
    exact .moreArguments (by omega) he rfl hes

/-- A list of arguments with its parentheses around it. -/
lemma Expr.AreRead.exists_list (h : Expr.AreRead es) (hlength : es.length ≤ maxArity) (n : RefId) :
    ∃ n' es', Expr.unnumberedAll es' = Expr.unnumberedAll es ∧
      Derives .argumentList n (Expr.argumentTokens es) n' es' := by
  by_cases hnil : es = []
  · subst hnil
    exact ⟨n, [], rfl, .noArguments⟩
  · obtain ⟨n', es', heq, hes⟩ := h n 0 hnil (by omega)
    exact ⟨n', es', heq, .someArguments hes⟩

end Expressions

mutual

/-- **A normal expression is read from its tokens.** -/
lemma Expr.isRead_of_isNormal : (e : Expr) → e.isNormal = true → e.IsRead
  | .literal value, _ => fun n =>
    ⟨n, .literal value, rfl, .constant (Literal.constant?_token value)⟩
  | .grouping inner, h => by
    intro n
    obtain ⟨n', inner', heq, hinner⟩ := (isRead_of_isNormal inner h).exists_expression n
    exact ⟨n', .grouping inner', by simp [Expr.unnumbered, heq], .grouping rfl hinner rfl⟩
  | .unary operator right, h => by
    simp only [Expr.isNormal, Bool.and_eq_true, decide_eq_true_eq] at h
    intro n
    obtain ⟨n', right', heq, hright⟩ := (isRead_of_isNormal right h.1.2).exists_at h.2 n
    exact ⟨n', .unary operator right', by simp [Expr.unnumbered, heq], .prefixed h.1.1 hright⟩
  | .binary left operator right, h => by
    simp only [Expr.isNormal, Bool.and_eq_true, Token.admits_iff] at h
    obtain ⟨⟨⟨l, hoperator, hshort, hleftRank, hrightRank⟩, hleft⟩, hright⟩ := h
    have hread := Level.isRead_operation hoperator (isRead_of_isNormal left hleft)
      (isRead_of_isNormal right hright) hleftRank hrightRank
    cases l <;> first | exact hread | simp [Level.shortCircuits] at hshort
  | .logical left operator right, h => by
    simp only [Expr.isNormal, Bool.and_eq_true, Token.admits_iff] at h
    obtain ⟨⟨⟨l, hoperator, hshort, hleftRank, hrightRank⟩, hleft⟩, hright⟩ := h
    have hread := Level.isRead_operation hoperator (isRead_of_isNormal left hleft)
      (isRead_of_isNormal right hright) hleftRank hrightRank
    cases l <;> first | exact hread | simp [Level.shortCircuits] at hshort
  | .variable _ name, h => fun n => ⟨n + 1, .variable n name, rfl, .name (of_decide_eq_true h)⟩
  | .assign _ name value, h => by
    simp only [Expr.isNormal, Bool.and_eq_true] at h
    intro n
    obtain ⟨n', value', heq, hvalue⟩ := (isRead_of_isNormal value h.2).exists_expression (n + 1)
    exact ⟨n' + 1, .assign n' name value', by simp [Expr.unnumbered, heq],
      .assign (of_decide_eq_true h.1) rfl hvalue⟩
  | .call callee paren arguments, h => by
    simp only [Expr.isNormal, Bool.and_eq_true, decide_eq_true_eq] at h
    obtain ⟨⟨⟨⟨hcallee, hrank⟩, hparen⟩, hlength⟩, harguments⟩ := h
    intro n
    obtain ⟨n₁, callee', heq, hcallee⟩ :=
      (isRead_of_isNormal callee hcallee).exists_suffixed hrank n
    obtain ⟨n₂, arguments', heqs, harguments⟩ :=
      (areRead_of_areNormal arguments harguments).exists_list hlength n₁
    exact ⟨n₂, .call callee' paren arguments', by simp [Expr.unnumbered, heq, heqs],
      .call hcallee rfl harguments (of_decide_eq_true hparen)⟩
  | .get object name, h => by
    simp only [Expr.isNormal, Bool.and_eq_true, decide_eq_true_eq] at h
    intro n
    obtain ⟨n', object', heq, hobject⟩ :=
      (isRead_of_isNormal object h.1.1).exists_suffixed h.1.2 n
    exact ⟨n', .get object' name, by simp [Expr.unnumbered, heq],
      .get hobject rfl (of_decide_eq_true h.2)⟩
  | .set object name value, h => by
    simp only [Expr.isNormal, Bool.and_eq_true, decide_eq_true_eq] at h
    obtain ⟨⟨⟨hobject, hrank⟩, hname⟩, hvalue⟩ := h
    intro n
    obtain ⟨n₁, object', heq, hobject⟩ :=
      (isRead_of_isNormal object hobject).exists_suffixed hrank n
    obtain ⟨n₂, value', heqs, hvalue⟩ := (isRead_of_isNormal value hvalue).exists_expression n₁
    exact ⟨n₂, .set object' name value', by simp [Expr.unnumbered, heq, heqs],
      .set hobject rfl (of_decide_eq_true hname) rfl hvalue⟩
  | .this _ keyword, h => fun n => ⟨n + 1, .this n keyword, rfl, .this (of_decide_eq_true h)⟩
  | .super _ keyword method, h => by
    simp only [Expr.isNormal, Bool.and_eq_true] at h
    exact fun n => ⟨n + 1, .super n keyword method, rfl,
      .super (of_decide_eq_true h.1) rfl (of_decide_eq_true h.2)⟩

/-- Normal arguments are read from their tokens. -/
lemma Expr.areRead_of_areNormal : (es : List Expr) → Expr.areNormal es = true → Expr.AreRead es
  | [], _ => fun _ _ hnil => absurd rfl hnil
  | e :: others, h => by
    simp only [Expr.areNormal, Bool.and_eq_true] at h
    exact Expr.areRead_cons (isRead_of_isNormal e h.1) (areRead_of_areNormal others h.2)

end

/-- Some numbering of the statement is read from its tokens, and as a branch or a loop body if it
may stand there. -/
def Stmt.IsRead (s : Stmt) : Prop :=
  ∀ n, ∃ n' s', s'.unnumbered = s.unnumbered ∧ Derives .declaration n s.tokens n' s' ∧
    (s.isDeclaration = false → Derives (.statement s.endsOpen) n s.tokens n' s')

/-- Some numbering of the statements is read from their tokens. -/
def Stmt.AreRead (body : List Stmt) : Prop :=
  ∀ n, ∃ n' body', Stmt.unnumberedAll body' = Stmt.unnumberedAll body ∧
    Derives .declarations n (Stmt.tokensAll body) n' body'

/-- Some numbering of the function is read from its tokens. -/
def FunDecl.IsRead (d : FunDecl) : Prop :=
  ∀ n, ∃ n' d', d'.unnumbered = d.unnumbered ∧ Derives .function n d.tokens n' d'

/-- Some numbering of the functions is read from their tokens. -/
def FunDecl.AreRead (ds : List FunDecl) : Prop :=
  ∀ n, ∃ n' ds', FunDecl.unnumberedAll ds' = FunDecl.unnumberedAll ds ∧
    Derives .methods n (FunDecl.tokensAll ds) n' ds'

section Statements

variable {value superclass : Option Expr} {s : Stmt}

lemma exists_optionalExpression (h : value.all Expr.isNormal = true) (n : RefId) :
    ∃ n' value', value'.map Expr.unnumbered = value.map Expr.unnumbered ∧
      Derives .optionalExpression n (Expr.optionTokens value) n' value' := by
  cases value with
  | none => exact ⟨n, none, rfl, .absent⟩
  | some e =>
    obtain ⟨n', e', heq, he⟩ := (Expr.isRead_of_isNormal e h).exists_expression n
    exact ⟨n', some e', by simp [heq], .present he⟩

lemma exists_initializer (h : value.all Expr.isNormal = true) (n : RefId) :
    ∃ n' value', value'.map Expr.unnumbered = value.map Expr.unnumbered ∧
      Derives .initializer n (Expr.initializerTokens value) n' value' := by
  cases value with
  | none => exact ⟨n, none, rfl, .noInitializer⟩
  | some e =>
    obtain ⟨n', e', heq, he⟩ := (Expr.isRead_of_isNormal e h).exists_expression n
    exact ⟨n', some e', by simp [heq], .someInitializer rfl he⟩

lemma Expr.exists_of_isName {e : Expr} (h : e.isName = true) :
    ∃ ref name, e = .variable ref name ∧ name.kind = .identifier := by
  unfold Expr.isName at h
  split at h
  · exact ⟨_, _, rfl, of_decide_eq_true h⟩
  · simp at h

lemma exists_superclass (h : superclass.all Expr.isName = true) (n : RefId) :
    ∃ n' superclass', superclass'.map Expr.unnumbered = superclass.map Expr.unnumbered ∧
      Derives .superclass n (Expr.superclassTokens superclass) n' superclass' := by
  rcases superclass with _ | e
  · exact ⟨n, none, rfl, .noSuperclass⟩
  · obtain ⟨ref, name, rfl, hname⟩ := Expr.exists_of_isName h
    exact ⟨n + 1, some (.variable n name), rfl, .someSuperclass rfl hname⟩

/-- Names that are parameters, behind `count` others. -/
lemma derives_parameters {names : List Token} (h : names.all Token.isIdentifier = true)
    (hne : names ≠ []) {count : Nat} (hcount : count + names.length ≤ maxArity) (n : RefId) :
    Derives (.parameters count) n (names.intersperse Mark.comma.token) n names := by
  induction names generalizing count with
  | nil => exact absurd rfl hne
  | cons name others ih =>
    simp only [List.all_cons, Bool.and_eq_true, List.length_cons] at h hcount
    by_cases hnil : others = []
    · subst hnil
      exact .lastParameter (by omega) (of_decide_eq_true h.1)
    · rw [intersperse_cons_of_ne_nil hnil]
      exact .moreParameters (by omega) (of_decide_eq_true h.1) rfl (ih h.2 hnil (by omega))

lemma derives_parameterList {names : List Token} (h : names.all Token.isIdentifier = true)
    (hlength : names.length ≤ maxArity) (n : RefId) :
    Derives .parameterList n (names.intersperse Mark.comma.token) n names := by
  by_cases hnil : names = []
  · subst hnil
    exact .noParameters
  · exact .someParameters (derives_parameters h hnil (by omega) n)

/-- A statement that is no declaration. -/
lemma Stmt.isRead_of_statement
    (h : ∀ n, ∃ n' s', s'.unnumbered = s.unnumbered ∧
      Derives (.statement s.endsOpen) n s.tokens n' s') : s.IsRead := by
  intro n
  obtain ⟨n', s', heq, hs⟩ := h n
  exact ⟨n', s', heq, .statement hs, fun _ => hs⟩

/-- A statement that may be a branch. -/
lemma Stmt.IsRead.exists_statement (h : s.IsRead) (hs : s.isDeclaration = false) (n : RefId) :
    ∃ n' s', s'.unnumbered = s.unnumbered ∧ Derives (.statement s.endsOpen) n s.tokens n' s' := by
  obtain ⟨n', s', heq, -, hstatement⟩ := h n
  exact ⟨n', s', heq, hstatement hs⟩

end Statements

mutual

/-- **A normal statement is read from its tokens.** -/
lemma Stmt.isRead_of_isNormal : (s : Stmt) → s.isNormal = true → s.IsRead
  | .expression e, h => by
    refine Stmt.isRead_of_statement fun n => ?_
    rw [Stmt.isNormal] at h
    obtain ⟨n', e', heq, he⟩ := (Expr.isRead_of_isNormal e h).exists_expression n
    exact ⟨n', .expression e', by simp [Stmt.unnumbered, heq], .expressionStatement he rfl⟩
  | .print e, h => by
    refine Stmt.isRead_of_statement fun n => ?_
    rw [Stmt.isNormal] at h
    obtain ⟨n', e', heq, he⟩ := (Expr.isRead_of_isNormal e h).exists_expression n
    exact ⟨n', .print e', by simp [Stmt.unnumbered, heq], .printStatement rfl he rfl⟩
  | .var name value, h => by
    simp only [Stmt.isNormal, Bool.and_eq_true] at h
    intro n
    obtain ⟨n', value', heq, hvalue⟩ := exists_initializer h.2 n
    refine ⟨n', .var name value', by simp [Stmt.unnumbered, heq], ?_, by simp [Stmt.isDeclaration]⟩
    exact .variableDeclaration rfl (of_decide_eq_true h.1) hvalue rfl
  | .block body, h => by
    refine Stmt.isRead_of_statement fun n => ?_
    rw [Stmt.isNormal] at h
    obtain ⟨n', body', heq, hbody⟩ := Stmt.areRead_of_areNormal body h n
    exact ⟨n', .block body', by simp [Stmt.unnumbered, heq], .block rfl hbody rfl⟩
  | .ifThen condition thenBranch none, h => by
    simp only [Stmt.isNormal, Bool.and_eq_true, Bool.not_eq_true'] at h
    refine Stmt.isRead_of_statement fun n => ?_
    obtain ⟨n₁, condition', hconditionEq, hcondition⟩ :=
      (Expr.isRead_of_isNormal condition h.1.1).exists_expression n
    obtain ⟨n₂, thenBranch', hthenEq, hthen⟩ :=
      (Stmt.isRead_of_isNormal thenBranch h.1.2).exists_statement h.2 n₁
    exact ⟨n₂, .ifThen condition' thenBranch' none,
      by simp [Stmt.unnumbered, hconditionEq, hthenEq], .ifThen rfl rfl hcondition rfl hthen⟩
  | .ifThen condition thenBranch (some elseBranch), h => by
    simp only [Stmt.isNormal, Bool.and_eq_true, Bool.not_eq_true'] at h
    obtain ⟨⟨⟨⟨⟨hcondition, hthen⟩, hthenDecl⟩, hclosed⟩, helse⟩, helseDecl⟩ := h
    refine Stmt.isRead_of_statement fun n => ?_
    obtain ⟨n₁, condition', hconditionEq, hcondition⟩ :=
      (Expr.isRead_of_isNormal condition hcondition).exists_expression n
    obtain ⟨n₂, thenBranch', hthenEq, hthen⟩ :=
      (Stmt.isRead_of_isNormal thenBranch hthen).exists_statement hthenDecl n₁
    obtain ⟨n₃, elseBranch', helseEq, helse⟩ :=
      (Stmt.isRead_of_isNormal elseBranch helse).exists_statement helseDecl n₂
    rw [hclosed] at hthen
    exact ⟨n₃, .ifThen condition' thenBranch' (some elseBranch'),
      by simp [Stmt.unnumbered, hconditionEq, hthenEq, helseEq],
      .ifElse rfl rfl hcondition rfl hthen rfl helse⟩
  | .whileLoop condition body, h => by
    simp only [Stmt.isNormal, Bool.and_eq_true, Bool.not_eq_true'] at h
    refine Stmt.isRead_of_statement fun n => ?_
    obtain ⟨n₁, condition', hconditionEq, hcondition⟩ :=
      (Expr.isRead_of_isNormal condition h.1.1).exists_expression n
    obtain ⟨n₂, body', hbodyEq, hbody⟩ :=
      (Stmt.isRead_of_isNormal body h.1.2).exists_statement h.2 n₁
    exact ⟨n₂, .whileLoop condition' body', by simp [Stmt.unnumbered, hconditionEq, hbodyEq],
      .whileLoop rfl rfl hcondition rfl hbody⟩
  | .breakLoop keyword, h =>
    Stmt.isRead_of_statement fun n => ⟨n, .breakLoop keyword, rfl,
      .breakStatement (of_decide_eq_true h) rfl⟩
  | .returnValue keyword value, h => by
    simp only [Stmt.isNormal, Bool.and_eq_true] at h
    refine Stmt.isRead_of_statement fun n => ?_
    obtain ⟨n', value', heq, hvalue⟩ := exists_optionalExpression h.2 n
    exact ⟨n', .returnValue keyword value', by simp [Stmt.unnumbered, heq],
      .returnStatement (of_decide_eq_true h.1) hvalue rfl⟩
  | .function decl, h => by
    rw [Stmt.isNormal] at h
    intro n
    obtain ⟨n', decl', heq, hdecl⟩ := FunDecl.isRead_of_isNormal decl h n
    exact ⟨n', .function decl', by simp [Stmt.unnumbered, heq], .functionDeclaration rfl hdecl,
      by simp [Stmt.isDeclaration]⟩
  | .classDecl name superclass methods, h => by
    simp only [Stmt.isNormal, Bool.and_eq_true] at h
    intro n
    obtain ⟨n₁, superclass', hsuperclassEq, hsuperclass⟩ := exists_superclass h.1.2 n
    obtain ⟨n₂, methods', hmethodsEq, hmethods⟩ := FunDecl.areRead_of_areNormal methods h.2 n₁
    exact ⟨n₂, .classDecl name superclass' methods',
      by simp [Stmt.unnumbered, hsuperclassEq, hmethodsEq],
      .classDeclaration rfl (of_decide_eq_true h.1.1) hsuperclass rfl hmethods rfl,
      by simp [Stmt.isDeclaration]⟩

/-- Normal statements are read from their tokens. -/
lemma Stmt.areRead_of_areNormal : (body : List Stmt) → Stmt.areNormal body = true →
    Stmt.AreRead body
  | [], _ => fun n => ⟨n, [], rfl, .noDeclarations⟩
  | s :: rest, h => by
    simp only [Stmt.areNormal, Bool.and_eq_true] at h
    intro n
    obtain ⟨n₁, s', hsEq, hs, -⟩ := Stmt.isRead_of_isNormal s h.1 n
    obtain ⟨n₂, rest', hrestEq, hrest⟩ := Stmt.areRead_of_areNormal rest h.2 n₁
    exact ⟨n₂, s' :: rest', by simp [Stmt.unnumberedAll, hsEq, hrestEq],
      .moreDeclarations hs hrest⟩

/-- A normal function is read from its tokens. -/
lemma FunDecl.isRead_of_isNormal : (d : FunDecl) → d.isNormal = true → d.IsRead
  | .mk name params body, h => by
    simp only [FunDecl.isNormal, Bool.and_eq_true, decide_eq_true_eq] at h
    obtain ⟨⟨⟨hname, hparams⟩, hlength⟩, hbody⟩ := h
    intro n
    obtain ⟨n', body', heq, hbody⟩ := Stmt.areRead_of_areNormal body hbody n
    exact ⟨n', .mk name params body', by simp [FunDecl.unnumbered, heq],
      .function (of_decide_eq_true hname) rfl (derives_parameterList hparams hlength n) rfl rfl
        hbody rfl⟩

/-- Normal functions are read from their tokens. -/
lemma FunDecl.areRead_of_areNormal : (ds : List FunDecl) → FunDecl.areNormal ds = true →
    FunDecl.AreRead ds
  | [], _ => fun n => ⟨n, [], rfl, .noMethods⟩
  | d :: rest, h => by
    simp only [FunDecl.areNormal, Bool.and_eq_true] at h
    intro n
    obtain ⟨n₁, d', hdEq, hd⟩ := FunDecl.isRead_of_isNormal d h.1 n
    obtain ⟨n₂, rest', hrestEq, hrest⟩ := FunDecl.areRead_of_areNormal rest h.2 n₁
    exact ⟨n₂, d' :: rest', by simp [FunDecl.unnumberedAll, hdEq, hrestEq],
      .moreMethods hd hrest⟩

end

/-! ## Reading is the inverse of writing -/

/-- **The reader builds the one right tree.**  Tokens without `for` loops that are read without a
complaint give a normal program, whose tokens are the ones that were read; and a normal program is
read back, without a complaint, from its tokens with the end of the source behind them, up to the
numbers of its references. -/
theorem readProgram_inverts_tokens (n : RefId) :
    (∀ tokens : List Token, (∀ t ∈ tokens, t.kind ≠ .keyword .for_) →
      (readProgram tokens n).errors = [] →
      Stmt.areNormal (readProgram tokens n).program = true ∧
        TokensAlike (Stmt.tokensAll (readProgram tokens n).program)
          (tokens.takeWhile (!·.isEof))) ∧
    (∀ (program : List Stmt) (e : Token), Stmt.areNormal program = true → e.kind = .eof →
      (readProgram (Stmt.tokensAll program ++ [e]) n).errors = [] ∧
        Stmt.unnumberedAll (readProgram (Stmt.tokensAll program ++ [e]) n).program =
          Stmt.unnumberedAll program) := by
  constructor
  · intro tokens hfor herrors
    have hderives := derives_readProgram herrors
    exact ⟨hderives.fits, hderives.alike_tokens fun t ht => hfor t (List.takeWhile_subset _ ht)⟩
  · intro program e hnormal he
    obtain ⟨n', program', heq, hderives⟩ := Stmt.areRead_of_areNormal program hnormal n
    have hrest : (([e] : List Token).headD .atEnd).kind = .eof := he
    rw [hderives.readProgram_eq hrest]
    exact ⟨rfl, heq⟩

/-- Both directions at `a - b - c;`, which is folded to the left. -/
theorem readProgram_inverts_tokens_difference :
    Stmt.areNormal (readProgram [⟨.identifier, "a", 1⟩, ⟨.mark .minus, "-", 1⟩,
      ⟨.identifier, "b", 1⟩, ⟨.mark .minus, "-", 1⟩, ⟨.identifier, "c", 1⟩,
      ⟨.mark .semicolon, ";", 1⟩, .atEnd] 0).program = true ∧
    (readProgram (Stmt.tokensAll [.expression (.binary (.binary (.variable 0 ⟨.identifier, "a", 1⟩)
      ⟨.mark .minus, "-", 1⟩ (.variable 0 ⟨.identifier, "b", 1⟩)) ⟨.mark .minus, "-", 1⟩
      (.variable 0 ⟨.identifier, "c", 1⟩))] ++ [.atEnd]) 0).errors = [] :=
  ⟨((readProgram_inverts_tokens 0).1 _ (by decide) (by decide +kernel)).1,
    ((readProgram_inverts_tokens 0).2 _ _ (by decide +kernel) rfl).1⟩

end LoxLang
