import LoxLang.Proofs.Syntax.Completeness

/-!
# The language of programs

The grammar of the language, written out rule by rule as data, and the proof that a list of tokens
is read without a complaint exactly when the grammar derives it.

The grammar is ambiguous: it does not say to which conditional an `else` belongs, and it says
nothing of how a chain of operators is folded.  Derivations (`Derives`) settle both, so the two
directions are of different kinds.  That every derivation is one of the grammar is an induction
over derivations, in which a chain that grows at its right end has to be seen as a repetition.
That everything the grammar derives has a derivation is shown by giving every rule a meaning in
terms of derivations and checking that each rule's pattern means no more than the rule; here a
conditional whose first branch ends in another conditional hands its `else` down to the innermost
one (`Derives.attach_else`).
-/

namespace LoxLang

/-! ## Grammars in extended form -/

/-- What a grammar says of a single token. -/
inductive Terminal where
  | mark (m : Mark)
  | keyword (k : Keyword)
  | name
  | number
  | string
  | end
  deriving DecidableEq, Repr

/-- Is the token one of the terminal? -/
def Terminal.accepts : Terminal → Token → Bool
  | .mark m, t => t.isMark m
  | .keyword k, t => t.isKeyword k
  | .name, t => t.isIdentifier
  | .number, t => match t.kind with | .number _ => true | _ => false
  | .string, t => match t.kind with | .string _ => true | _ => false
  | .end, t => t.isEof

/-- The names of the rules. -/
inductive Rule where
  | program | declaration | classDecl | funDecl | function | parameters | varDecl
  | statement | exprStmt | forStmt | ifStmt | printStmt | returnStmt | breakStmt | whileStmt | block
  | expression | assignment | logicOr | logicAnd | equality | comparison | addition
  | multiplication | unary | call | arguments | primary
  deriving DecidableEq, Repr

/-- The right side of a rule. -/
inductive Pattern where
  | terminal (s : Terminal)
  | rule (r : Rule)
  | sequence (first second : Pattern)
  | choice (first second : Pattern)
  | optional (inner : Pattern)
  | many (inner : Pattern)
  /-- At most `bound` repetitions. -/
  | upTo (bound : Nat) (inner : Pattern)

namespace Pattern

/-- One pattern behind another is written `p ++ q`. -/
instance : Append Pattern := ⟨sequence⟩

/-- One pattern or another is written `p ||| q`. -/
instance : OrOp Pattern := ⟨choice⟩

/-- A punctuation mark or an operator. -/
def mark (m : Mark) : Pattern := .terminal (.mark m)

/-- A reserved word. -/
def word (k : Keyword) : Pattern := .terminal (.keyword k)

/-- An identifier. -/
def name : Pattern := .terminal .name

/-- Operands with operators between them. -/
def chain (operand operator : Pattern) : Pattern := operand ++ many (operator ++ operand)

/-- At least one entry and at most `maxArity`, with commas between them. -/
def list (entry : Pattern) : Pattern := entry ++ upTo (maxArity - 1) (mark .comma ++ entry)

end Pattern

open Pattern in
/-- **The grammar.** -/
def grammar : Rule → Pattern
  | .program => many (rule .declaration) ++ terminal .end
  | .declaration => rule .classDecl ||| rule .funDecl ||| rule .varDecl ||| rule .statement
  | .classDecl => word .class_ ++ name ++ optional (mark .less ++ name) ++ mark .leftBrace ++
      many (rule .function) ++ mark .rightBrace
  | .funDecl => word .fun_ ++ rule .function
  | .function => name ++ mark .leftParen ++ optional (rule .parameters) ++ mark .rightParen ++
      rule .block
  | .parameters => list name
  | .varDecl => word .var_ ++ name ++ optional (mark .equal ++ rule .expression) ++ mark .semicolon
  | .statement => rule .exprStmt ||| rule .forStmt ||| rule .ifStmt ||| rule .printStmt |||
      rule .returnStmt ||| rule .breakStmt ||| rule .whileStmt ||| rule .block
  | .exprStmt => rule .expression ++ mark .semicolon
  | .forStmt => word .for_ ++ mark .leftParen ++
      (rule .varDecl ||| rule .exprStmt ||| mark .semicolon) ++
      optional (rule .expression) ++ mark .semicolon ++ optional (rule .expression) ++
      mark .rightParen ++ rule .statement
  | .ifStmt => word .if_ ++ mark .leftParen ++ rule .expression ++ mark .rightParen ++
      rule .statement ++ optional (word .else_ ++ rule .statement)
  | .printStmt => word .print_ ++ rule .expression ++ mark .semicolon
  | .returnStmt => word .return_ ++ optional (rule .expression) ++ mark .semicolon
  | .breakStmt => word .break_ ++ mark .semicolon
  | .whileStmt => word .while_ ++ mark .leftParen ++ rule .expression ++ mark .rightParen ++
      rule .statement
  | .block => mark .leftBrace ++ many (rule .declaration) ++ mark .rightBrace
  | .expression => rule .assignment
  | .assignment => optional (rule .call ++ mark .dot) ++ name ++ mark .equal ++ rule .assignment |||
      rule .logicOr
  | .logicOr => chain (rule .logicAnd) (word .or_)
  | .logicAnd => chain (rule .equality) (word .and_)
  | .equality => chain (rule .comparison) (mark .bangEqual ||| mark .equalEqual)
  | .comparison => chain (rule .addition)
      (mark .greater ||| mark .greaterEqual ||| mark .less ||| mark .lessEqual)
  | .addition => chain (rule .multiplication) (mark .minus ||| mark .plus)
  | .multiplication => chain (rule .unary) (mark .slash ||| mark .star)
  | .unary => (mark .bang ||| mark .minus) ++ rule .unary ||| rule .call
  | .call => rule .primary ++
      many (mark .leftParen ++ optional (rule .arguments) ++ mark .rightParen |||
        mark .dot ++ name)
  | .arguments => list (rule .expression)
  | .primary => word .true_ ||| word .false_ ||| word .nil_ ||| word .this_ |||
      terminal .number ||| terminal .string ||| name |||
      mark .leftParen ++ rule .expression ++ mark .rightParen |||
      word .super_ ++ mark .dot ++ name

/-- **The tokens that a pattern stands for.** -/
inductive Matches : Pattern → List Token → Prop
  | terminal {s t} (h : s.accepts t = true) : Matches (.terminal s) [t]
  | rule {r ts} (h : Matches (grammar r) ts) : Matches (.rule r) ts
  | sequence {p q ts us} (hp : Matches p ts) (hq : Matches q us) :
      Matches (.sequence p q) (ts ++ us)
  | first {p q ts} (h : Matches p ts) : Matches (.choice p q) ts
  | second {p q ts} (h : Matches q ts) : Matches (.choice p q) ts
  | absent {p} : Matches (.optional p) []
  | present {p ts} (h : Matches p ts) : Matches (.optional p) ts
  | manyNone {p} : Matches (.many p) []
  | manyMore {p ts us} (h : Matches p ts) (hrest : Matches (.many p) us) :
      Matches (.many p) (ts ++ us)
  | upToNone {p n} : Matches (.upTo n p) []
  | upToMore {p n ts us} (h : Matches p ts) (hrest : Matches (.upTo n p) us) :
      Matches (.upTo (n + 1) p) (ts ++ us)

/-! ## Derivations are derivations of the grammar -/

namespace Matches

variable {p q : Pattern} {ts us : List Token} {t : Token}

lemma mark {m : Mark} (h : t.kind = .mark m) : Matches (.mark m) [t] :=
  .terminal (by simp [Terminal.accepts, Token.isMark, h])

lemma word {k : Keyword} (h : t.kind = .keyword k) : Matches (.word k) [t] :=
  .terminal (by simp [Terminal.accepts, Token.isKeyword, h])

lemma name (h : t.kind = .identifier) : Matches .name [t] :=
  .terminal (by simp [Terminal.accepts, Token.isIdentifier, h])

lemma cast (hts : ts = us) (h : Matches p ts) : Matches p us := hts ▸ h

/-- A repetition grows at its right end as well. -/
lemma many_snoc (h : Matches (.many p) ts) (hp : Matches p us) : Matches (.many p) (ts ++ us) := by
  generalize hmany : Pattern.many p = m at h
  induction h with
  | manyNone =>
    cases hmany
    simpa using manyMore hp manyNone
  | manyMore hfirst _ _ ih =>
    cases hmany
    rw [List.append_assoc]
    exact manyMore hfirst (ih rfl)
  | _ => cases hmany

/-- So does anything with a repetition behind it. -/
lemma sequence_snoc (h : Matches (p ++ .many q) ts) (hq : Matches q us) :
    Matches (p ++ .many q) (ts ++ us) := by
  change Matches (.sequence p (.many q)) ts at h
  cases h with
  | sequence hp hmany =>
    rw [List.append_assoc]
    exact sequence hp (many_snoc hmany hq)

/-- The forms of statements. -/
lemma statement {r : Rule} (h : Matches (.rule r) ts)
    (hr : r ∈ [Rule.exprStmt, .forStmt, .ifStmt, .printStmt, .returnStmt, .breakStmt, .whileStmt,
      .block]) : Matches (.rule .statement) ts := by
  simp only [List.mem_cons, List.not_mem_nil, or_false] at hr
  refine .rule ?_
  rcases hr with rfl | rfl | rfl | rfl | rfl | rfl | rfl | rfl
  · exact .first (.first (.first (.first (.first (.first (.first h))))))
  · exact .first (.first (.first (.first (.first (.first (.second h))))))
  · exact .first (.first (.first (.first (.first (.second h)))))
  · exact .first (.first (.first (.first (.second h))))
  · exact .first (.first (.first (.second h)))
  · exact .first (.first (.second h))
  · exact .first (.second h)
  · exact .second h

end Matches

/-- The rule of a level. -/
def Level.rule : Level → Rule
  | .disjunction => .logicOr
  | .conjunction => .logicAnd
  | .equality => .equality
  | .comparison => .comparison
  | .term => .addition
  | .factor => .multiplication

open Pattern in
/-- The operators of a level. -/
def Level.operators : Level → Pattern
  | .disjunction => word .or_
  | .conjunction => word .and_
  | .equality => mark .bangEqual ||| mark .equalEqual
  | .comparison => mark .greater ||| mark .greaterEqual ||| mark .less ||| mark .lessEqual
  | .term => mark .minus ||| mark .plus
  | .factor => mark .slash ||| mark .star

open Pattern in
/-- The pattern of a kind of phrase. -/
def Phrase.pattern : Phrase → Pattern
  | .expression => rule .expression
  | .operand none => rule .unary
  | .operand (some l) => rule l.rule
  | .suffixed => rule .call
  | .arguments count =>
    rule .expression ++ upTo (maxArity - 1 - count) (mark .comma ++ rule .expression)
  | .argumentList => optional (rule .arguments)
  | .parameters count => name ++ upTo (maxArity - 1 - count) (mark .comma ++ name)
  | .parameterList => optional (rule .parameters)
  | .optionalExpression => optional (rule .expression)
  | .initializer => optional (mark .equal ++ rule .expression)
  | .forInitializer => rule .varDecl ||| rule .exprStmt ||| mark .semicolon
  | .statement _ => rule .statement
  | .superclass => optional (mark .less ++ name)
  | .function => rule .function
  | .methods => many (rule .function)
  | .declaration => rule .declaration
  | .declarations => many (rule .declaration)

lemma grammar_level (l : Level) :
    grammar l.rule = .chain (Phrase.operand l.tighter?).pattern l.operators := by
  cases l <;> simp only [Level.rule, grammar] <;> rfl

lemma Matches.operators {l : Level} {t : Token} (h : l.isOperator t = true) :
    Matches l.operators [t] := by
  cases l <;>
    simp only [Level.isOperator, Token.isMark, Token.isKeyword, Bool.or_eq_true,
      decide_eq_true_eq] at h
  · exact .word h
  · exact .word h
  · rcases h with h | h
    · exact .first (.mark h)
    · exact .second (.mark h)
  · rcases h with ((h | h) | h) | h
    · exact .first (.first (.first (.mark h)))
    · exact .first (.first (.second (.mark h)))
    · exact .first (.second (.mark h))
    · exact .second (.mark h)
  · rcases h with h | h
    · exact .first (.mark h)
    · exact .second (.mark h)
  · rcases h with h | h
    · exact .first (.mark h)
    · exact .second (.mark h)

lemma Matches.constant {t : Token} {value : Literal} (h : t.constant? = some value) :
    Matches (.rule .primary) [t] := by
  refine .rule ?_
  unfold Token.constant? at h
  split at h
  case h_1 hkind =>
    exact .first (.first (.first (.first (.first (.first (.first (.second (.word hkind))))))))
  case h_2 hkind =>
    exact .first (.first (.first (.first (.first (.first (.first (.first (.word hkind))))))))
  case h_3 hkind =>
    exact .first (.first (.first (.first (.first (.first (.second (.word hkind)))))))
  case h_4 hkind =>
    exact .first (.first (.first (.first (.second (.terminal
      (by simp [Terminal.accepts, hkind]))))))
  case h_5 hkind =>
    exact .first (.first (.first (.second (.terminal (by simp [Terminal.accepts, hkind])))))
  case h_6 => simp at h

/-- A primary expression is a call without suffixes. -/
lemma Matches.unsuffixed {ts : List Token} (h : Matches (.rule .primary) ts) :
    Matches (.rule .call) ts := by
  simpa using Matches.rule (r := .call) (.sequence h .manyNone)

/-- The part of an assignment behind its target. -/
lemma Matches.assignment {ts us : List Token} {name equals : Token}
    (htarget : Matches (.optional (.rule .call ++ .mark .dot)) ts) (hname : name.kind = .identifier)
    (hequals : equals.kind = .mark .equal) (hvalue : Matches (.rule .expression) us) :
    Matches (.rule .expression) (ts ++ name :: equals :: us) := by
  cases hvalue with
  | rule hvalue =>
    have h := ((htarget.sequence (.name hname)).sequence (.mark hequals)).sequence hvalue
    simpa using Matches.rule (r := .expression) (.rule (r := .assignment) (.first h))

/-- What stands between the braces of a block. -/
lemma Matches.block {ts : List Token} {left right : Token} (hleft : left.kind = .mark .leftBrace)
    (hbody : Matches (.many (.rule .declaration)) ts) (hright : right.kind = .mark .rightBrace) :
    Matches (.rule .block) (left :: (ts ++ [right])) := by
  simpa using Matches.rule (r := .block) (((Matches.mark hleft).sequence hbody).sequence
    (.mark hright))

/-- **Every derivation is one of the grammar.** -/
lemma Derives.matches_pattern {p : Phrase} {n n' : RefId} {ts : List Token} {r : p.Result}
    (h : Derives p n ts n' r) : Matches p.pattern ts := by
  induction h with
  | constant ht => exact .unsuffixed (.constant ht)
  | name hname => exact .unsuffixed (.rule (.first (.first (.second (.name hname)))))
  | this hkeyword =>
    exact .unsuffixed
      (.rule (.first (.first (.first (.first (.first (.second (.word hkeyword))))))))
  | super hkeyword hdot hmethod =>
    exact .unsuffixed
      (.rule (.second (((Matches.word hkeyword).sequence (.mark hdot)).sequence (.name hmethod))))
  | grouping hleft _ hright ih =>
    have h := ((Matches.mark hleft).sequence ih).sequence (.mark hright)
    exact Matches.cast (by simp) (Matches.unsuffixed (.rule (.first (.second h))))
  | call _ hleft _ hparen ihcallee iharguments =>
    have h := ((Matches.mark hleft).sequence iharguments).sequence (.mark hparen)
    cases ihcallee with
    | rule ihcallee =>
      exact Matches.cast (by simp) (Matches.rule (r := .call) (ihcallee.sequence_snoc (.first h)))
  | get _ hdot hname ih =>
    cases ih with
    | rule ih =>
      exact .rule (r := .call)
        (ih.sequence_snoc (.second ((Matches.mark hdot).sequence (.name hname))))
  | noArguments => exact .absent
  | someArguments _ ih => exact .present (.rule ih)
  | lastArgument _ _ ih => exact Matches.cast (by simp) (Matches.sequence ih .upToNone)
  | @moreArguments n ts n₁ e comma others n₂ arguments count _ _ hcomma hothers ihe ihothers =>
    have hcount : count + 1 < maxArity := by cases hothers <;> assumption
    have hbound : maxArity - 1 - count = maxArity - 1 - (count + 1) + 1 := by omega
    cases ihothers with
    | sequence hfirst hrest =>
      have h := Matches.upToMore ((Matches.mark hcomma).sequence hfirst) hrest
      rw [Phrase.pattern, hbound]
      exact Matches.cast (by simp) (Matches.sequence ihe h)
  | unprefixed _ ih => exact .rule (r := .unary) (.second ih)
  | prefixed hoperator _ ih =>
    simp only [isUnaryOperator, Token.isMark, Bool.or_eq_true, decide_eq_true_eq] at hoperator
    rcases hoperator with hbang | hminus
    · exact .rule (r := .unary) (.first (.sequence (.first (.mark hbang)) ih))
    · exact .rule (r := .unary) (.first (.sequence (.second (.mark hminus)) ih))
  | @single _ _ _ _ l _ ih =>
    refine .rule ?_
    rw [grammar_level]
    exact Matches.cast (by simp) (Matches.sequence ih .manyNone)
  | @chain _ _ _ _ _ _ _ _ l _ hoperator _ ihleft ihright =>
    cases ihleft with
    | rule ihleft =>
      refine .rule ?_
      rw [grammar_level] at ihleft ⊢
      exact ihleft.sequence_snoc ((Matches.operators hoperator).sequence ihright)
  | plain _ ih => exact .rule (r := .expression) (.rule (r := .assignment) (.second ih))
  | assign hname hequals _ ih => exact Matches.assignment .absent hname hequals ih
  | set _ hdot hname hequals _ ihobject ihvalue =>
    exact Matches.cast (by simp)
      (Matches.assignment (.present (ihobject.sequence (.mark hdot))) hname hequals ihvalue)
  | absent => exact .absent
  | present _ ih => exact .present ih
  | expressionStatement _ hsemicolon ih =>
    exact .statement (.rule (r := .exprStmt) (ih.sequence (.mark hsemicolon))) (by simp)
  | printStatement hkeyword _ hsemicolon ih =>
    have h := ((Matches.word hkeyword).sequence ih).sequence (.mark hsemicolon)
    exact Matches.cast (by simp) (Matches.statement (.rule (r := .printStmt) h) (by simp))
  | returnStatement hkeyword _ hsemicolon ih =>
    have h := ((Matches.word hkeyword).sequence ih).sequence (.mark hsemicolon)
    exact Matches.cast (by simp) (Matches.statement (.rule (r := .returnStmt) h) (by simp))
  | breakStatement hkeyword hsemicolon =>
    have h := (Matches.word hkeyword).sequence (.mark hsemicolon)
    exact .statement (.rule (r := .breakStmt) h) (by simp)
  | block hleft _ hright ih => exact .statement (.block hleft ih hright) (by simp)
  | ifThen hkeyword hleft _ hright _ ihcondition ihthen =>
    have h := ((((Matches.word hkeyword).sequence (.mark hleft)).sequence ihcondition).sequence
      (.mark hright)).sequence ihthen
    exact Matches.cast (by simp)
      (Matches.statement (.rule (r := .ifStmt) (h.sequence .absent)) (by simp))
  | ifElse hkeyword hleft _ hright _ hotherwise _ ihcondition ihthen ihelse =>
    have h := ((((Matches.word hkeyword).sequence (.mark hleft)).sequence ihcondition).sequence
      (.mark hright)).sequence ihthen
    have helse := (Matches.word hotherwise).sequence ihelse
    exact Matches.cast (by simp)
      (Matches.statement (.rule (r := .ifStmt) (h.sequence (.present helse))) (by simp))
  | whileLoop hkeyword hleft _ hright _ ihcondition ihbody =>
    have h := ((((Matches.word hkeyword).sequence (.mark hleft)).sequence ihcondition).sequence
      (.mark hright)).sequence ihbody
    exact Matches.cast (by simp) (Matches.statement (.rule (r := .whileStmt) h) (by simp))
  | forLoop hkeyword hleft _ _ hsemicolon _ hright _ ihinitializer ihcondition ihincrement ihbody =>
    have h := (((((((Matches.word hkeyword).sequence (.mark hleft)).sequence ihinitializer).sequence
      ihcondition).sequence (.mark hsemicolon)).sequence ihincrement).sequence
      (.mark hright)).sequence ihbody
    exact Matches.cast (by simp) (Matches.statement (.rule (r := .forStmt) h) (by simp))
  | forNothing hsemicolon => exact .second (.mark hsemicolon)
  | forVariable hkeyword hname _ hsemicolon ih =>
    have h := (((Matches.word hkeyword).sequence (.name hname)).sequence ih).sequence
      (.mark hsemicolon)
    exact Matches.cast (by simp) (Matches.first (Matches.first (.rule (r := .varDecl) h)))
  | forExpression _ hsemicolon ih =>
    exact .first (.second (.rule (r := .exprStmt) (ih.sequence (.mark hsemicolon))))
  | noInitializer => exact .absent
  | someInitializer hequals _ ih => exact .present ((Matches.mark hequals).sequence ih)
  | variableDeclaration hkeyword hname _ hsemicolon ih =>
    have h := (((Matches.word hkeyword).sequence (.name hname)).sequence ih).sequence
      (.mark hsemicolon)
    exact Matches.cast (by simp)
      (Matches.rule (r := .declaration) (.first (.second (.rule (r := .varDecl) h))))
  | functionDeclaration hkeyword _ ih =>
    have h := (Matches.word hkeyword).sequence ih
    exact .rule (r := .declaration) (.first (.first (.second (.rule (r := .funDecl) h))))
  | classDeclaration hkeyword hname _ hleft _ hright ihsuperclass ihmethods =>
    have h := (((((Matches.word hkeyword).sequence (.name hname)).sequence ihsuperclass).sequence
      (.mark hleft)).sequence ihmethods).sequence (.mark hright)
    exact Matches.cast (by simp)
      (Matches.rule (r := .declaration) (.first (.first (.first (.rule (r := .classDecl) h)))))
  | statement _ ih => exact .rule (r := .declaration) (.second ih)
  | noSuperclass => exact .absent
  | someSuperclass hless hparent => exact .present ((Matches.mark hless).sequence (.name hparent))
  | noMethods => exact .manyNone
  | moreMethods _ _ ihdecl ihmethods => exact .manyMore ihdecl ihmethods
  | function hname hleft _ hright hbrace _ hclose ihparams ihbody =>
    have h := ((((Matches.name hname).sequence (.mark hleft)).sequence ihparams).sequence
      (.mark hright)).sequence (.block hbrace ihbody hclose)
    exact Matches.cast (by simp) (Matches.rule (r := .function) h)
  | noParameters => exact .absent
  | someParameters _ ih => exact .present (.rule ih)
  | lastParameter _ hname => exact Matches.cast (by simp) (Matches.sequence (.name hname) .upToNone)
  | @moreParameters n name comma ts n' params count _ hname hcomma hothers ih =>
    have hcount : count + 1 < maxArity := by cases hothers <;> assumption
    have hbound : maxArity - 1 - count = maxArity - 1 - (count + 1) + 1 := by omega
    cases ih with
    | sequence hfirst hrest =>
      have h := Matches.upToMore ((Matches.mark hcomma).sequence hfirst) hrest
      rw [Phrase.pattern, hbound]
      exact Matches.cast (by simp) (Matches.sequence (.name hname) h)
  | noDeclarations => exact .manyNone
  | moreDeclarations _ _ ihs ihbody => exact .manyMore ihs ihbody

/-! ## What the grammar derives has a derivation -/

/-- A statement that ends in a conditional without an `else` takes one that follows. -/
def Phrase.TakesElse : (p : Phrase) → RefId → List Token → RefId → p.Result → Prop
  | .statement isOpen, n, ts, n₁, _ => isOpen = true → ∀ otherwise others isOpen₂ n₂ s₂,
      otherwise.kind = .keyword .else_ → Derives (.statement isOpen₂) n₁ others n₂ s₂ →
      ∃ isOpen' s', Derives (.statement isOpen') n (ts ++ otherwise :: others) n₂ s'
  | _, _, _, _, _ => True

/-- The `else` goes to the innermost conditional. -/
lemma Derives.takesElse {p : Phrase} {n n' : RefId} {ts : List Token} {r : p.Result}
    (h : Derives p n ts n' r) : p.TakesElse n ts n' r := by
  induction h with
  | @ifThen _ _ _ _ _ _ _ _ _ _ isOpen hkeyword hleft hcondition hright hthen _ ih =>
    intro _ otherwise others _ _ _ hotherwise hs
    cases isOpen with
    | false =>
      exact ⟨_, _, by simpa using ifElse hkeyword hleft hcondition hright hthen hotherwise hs⟩
    | true =>
      obtain ⟨_, _, h⟩ := ih rfl otherwise others _ _ _ hotherwise hs
      exact ⟨_, _, by simpa using ifThen hkeyword hleft hcondition hright h⟩
  | ifElse hkeyword hleft hcondition hright hthen hotherwise _ _ _ ih =>
    intro hopen otherwise others _ _ _ hotherwise' hs
    obtain ⟨_, _, h⟩ := ih hopen otherwise others _ _ _ hotherwise' hs
    exact ⟨_, _, by simpa using ifElse hkeyword hleft hcondition hright hthen hotherwise h⟩
  | whileLoop hkeyword hleft hcondition hright _ _ ih =>
    intro hopen otherwise others _ _ _ hotherwise hs
    obtain ⟨_, _, h⟩ := ih hopen otherwise others _ _ _ hotherwise hs
    exact ⟨_, _, by simpa using whileLoop hkeyword hleft hcondition hright h⟩
  | forLoop hkeyword hleft hinitializer hcondition hsemicolon hincrement hright _ _ _ _ ih =>
    intro hopen otherwise others _ _ _ hotherwise hs
    obtain ⟨_, _, h⟩ := ih hopen otherwise others _ _ _ hotherwise hs
    have hloop := forLoop hkeyword hleft hinitializer hcondition hsemicolon hincrement hright h
    exact ⟨_, _, by simpa using hloop⟩
  | expressionStatement | printStatement | returnStatement | breakStatement | block =>
    intro hopen
    simp at hopen
  | _ => trivial

/-- Tokens that are a phrase, whatever numbers are handed out. -/
def Phrase.Derived (p : Phrase) (ts : List Token) : Prop := ∀ n, ∃ n' r, Derives p n ts n' r

/-- Tokens that are a statement, open or not. -/
def IsStatement (ts : List Token) : Prop :=
  ∀ n, ∃ n' isOpen s, Derives (.statement isOpen) n ts n' s

/-- What a rule stands for, in terms of derivations.  A variable declaration and an expression
statement are also first clauses of `for` loops, and a block is also the body of a function. -/
def Rule.Means : Rule → List Token → Prop
  | .program, ts => ∃ body e, Phrase.declarations.Derived body ∧ e.kind = .eof ∧ ts = body ++ [e]
  | .declaration, ts | .classDecl, ts | .funDecl, ts => Phrase.declaration.Derived ts
  | .varDecl, ts => Phrase.declaration.Derived ts ∧ Phrase.forInitializer.Derived ts
  | .function, ts => Phrase.function.Derived ts
  | .parameters, ts => (Phrase.parameters 0).Derived ts
  | .exprStmt, ts => IsStatement ts ∧ Phrase.forInitializer.Derived ts
  | .statement, ts | .forStmt, ts | .ifStmt, ts | .printStmt, ts | .returnStmt, ts
  | .breakStmt, ts | .whileStmt, ts => IsStatement ts
  | .block, ts => ∃ left body right, left.kind = .mark .leftBrace ∧
      Phrase.declarations.Derived body ∧ right.kind = .mark .rightBrace ∧
      ts = left :: (body ++ [right])
  | .expression, ts | .assignment, ts => Phrase.expression.Derived ts
  | .logicOr, ts => (Phrase.operand (some .disjunction)).Derived ts
  | .logicAnd, ts => (Phrase.operand (some .conjunction)).Derived ts
  | .equality, ts => (Phrase.operand (some .equality)).Derived ts
  | .comparison, ts => (Phrase.operand (some .comparison)).Derived ts
  | .addition, ts => (Phrase.operand (some .term)).Derived ts
  | .multiplication, ts => (Phrase.operand (some .factor)).Derived ts
  | .unary, ts => (Phrase.operand none).Derived ts
  | .call, ts | .primary, ts => Phrase.suffixed.Derived ts
  | .arguments, ts => (Phrase.arguments 0).Derived ts

/-- What a pattern stands for, when its rules stand for what they mean. -/
def Pattern.Means : Pattern → List Token → Prop
  | .terminal s, ts => ∃ t, s.accepts t = true ∧ ts = [t]
  | .rule r, ts => r.Means ts
  | .sequence p q, ts => ∃ us vs, p.Means us ∧ q.Means vs ∧ ts = us ++ vs
  | .choice p q, ts => p.Means ts ∨ q.Means ts
  | .optional p, ts => ts = [] ∨ p.Means ts
  | .many p, ts => ∃ parts : List (List Token), (∀ us ∈ parts, p.Means us) ∧ ts = parts.flatten
  | .upTo n p, ts => ∃ parts : List (List Token),
      parts.length ≤ n ∧ (∀ us ∈ parts, p.Means us) ∧ ts = parts.flatten

section Means

variable {p q : Pattern} {r : Rule} {ts : List Token}

@[simp] lemma means_mark {m : Mark} :
    (Pattern.mark m).Means ts ↔ ∃ t : Token, t.kind = .mark m ∧ ts = [t] := by
  simp [Pattern.mark, Pattern.Means, Terminal.accepts, Token.isMark]

@[simp] lemma means_word {k : Keyword} :
    (Pattern.word k).Means ts ↔ ∃ t : Token, t.kind = .keyword k ∧ ts = [t] := by
  simp [Pattern.word, Pattern.Means, Terminal.accepts, Token.isKeyword]

@[simp] lemma means_name :
    Pattern.name.Means ts ↔ ∃ t : Token, t.kind = .identifier ∧ ts = [t] := by
  simp [Pattern.name, Pattern.Means, Terminal.accepts, Token.isIdentifier]

@[simp] lemma means_append :
    (p ++ q).Means ts ↔ ∃ us vs, p.Means us ∧ q.Means vs ∧ ts = us ++ vs := Iff.rfl

@[simp] lemma means_or : (p ||| q).Means ts ↔ p.Means ts ∨ q.Means ts := Iff.rfl

@[simp] lemma means_rule : (Pattern.rule r).Means ts ↔ r.Means ts := Iff.rfl

@[simp] lemma means_optional : p.optional.Means ts ↔ ts = [] ∨ p.Means ts := Iff.rfl

lemma means_operators {l : Level} :
    l.operators.Means ts ↔ ∃ t, l.isOperator t = true ∧ ts = [t] := by
  cases l <;>
    simp only [Level.operators, Level.isOperator, means_or, means_mark, means_word, Token.isMark,
      Token.isKeyword, Bool.or_eq_true, decide_eq_true_eq] <;>
    grind

/-- Tokens that extend a phrase may do so again and again. -/
lemma Phrase.Derived.append_flatten {p : Phrase} {parts : List (List Token)}
    (hstep : ∀ ts, ∀ us ∈ parts, p.Derived ts → p.Derived (ts ++ us)) (h : p.Derived ts) :
    p.Derived (ts ++ parts.flatten) := by
  induction parts generalizing ts with
  | nil => simpa using h
  | cons us parts ih =>
    rw [List.flatten_cons, ← List.append_assoc]
    exact ih (fun ts us hus => hstep ts us (by simp [hus])) (hstep ts us (by simp) h)

lemma derived_declarations {parts : List (List Token)}
    (h : ∀ us ∈ parts, Phrase.declaration.Derived us) :
    Phrase.declarations.Derived parts.flatten := by
  induction parts with
  | nil => exact fun n => ⟨n, [], .noDeclarations⟩
  | cons us parts ih =>
    intro n
    obtain ⟨n₁, s, hs⟩ := h us (by simp) n
    obtain ⟨n₂, body, hbody⟩ := ih (fun us hus => h us (by simp [hus])) n₁
    exact ⟨n₂, s :: body, .moreDeclarations hs hbody⟩

lemma derived_methods {parts : List (List Token)} (h : ∀ us ∈ parts, Phrase.function.Derived us) :
    Phrase.methods.Derived parts.flatten := by
  induction parts with
  | nil => exact fun n => ⟨n, [], .noMethods⟩
  | cons us parts ih =>
    intro n
    obtain ⟨n₁, decl, hdecl⟩ := h us (by simp) n
    obtain ⟨n₂, decls, hdecls⟩ := ih (fun us hus => h us (by simp [hus])) n₁
    exact ⟨n₂, decl :: decls, .moreMethods hdecl hdecls⟩

/-- Up to the largest number of arguments. -/
lemma derived_arguments {parts : List (List Token)} {count : Nat}
    (hcount : count + parts.length < maxArity) (h : Phrase.expression.Derived ts)
    (hparts : ∀ us ∈ parts, (Pattern.mark .comma ++ Pattern.rule .expression).Means us) :
    (Phrase.arguments count).Derived (ts ++ parts.flatten) := by
  induction parts generalizing ts count with
  | nil =>
    intro n
    obtain ⟨n', e, he⟩ := h n
    simp only [List.length_nil] at hcount
    exact ⟨n', [e], by simpa using .lastArgument hcount he⟩
  | cons us parts ih =>
    intro n
    obtain ⟨n₁, e, he⟩ := h n
    simp only [List.length_cons] at hcount
    obtain ⟨_, vs, hmark, hvs, rfl⟩ := hparts us (by simp)
    obtain ⟨comma, hcomma, rfl⟩ := means_mark.mp hmark
    obtain ⟨n₂, es, hes⟩ := ih (by omega : count + 1 + parts.length < maxArity) hvs
      (fun us hus => hparts us (by simp [hus])) n₁
    exact ⟨n₂, e :: es, by simpa using .moreArguments (by omega) he hcomma hes⟩

/-- Up to the largest number of parameters. -/
lemma derived_parameters {parts : List (List Token)} {count : Nat} {name : Token}
    (hcount : count + parts.length < maxArity) (hname : name.kind = .identifier)
    (hparts : ∀ us ∈ parts, (Pattern.mark .comma ++ Pattern.name).Means us) :
    (Phrase.parameters count).Derived (name :: parts.flatten) := by
  induction parts generalizing name count with
  | nil => exact fun n => ⟨n, [name], .lastParameter (by simpa using hcount) hname⟩
  | cons us parts ih =>
    intro n
    simp only [List.length_cons] at hcount
    obtain ⟨_, _, hmark, hentry, rfl⟩ := hparts us (by simp)
    obtain ⟨comma, hcomma, rfl⟩ := means_mark.mp hmark
    obtain ⟨next, hnext, rfl⟩ := means_name.mp hentry
    obtain ⟨n', params, hparams⟩ := ih (by omega : count + 1 + parts.length < maxArity) hnext
      (fun us hus => hparts us (by simp [hus])) n
    exact ⟨n', name :: params, .moreParameters (by omega) hname hcomma hparams⟩

/-- Operands of the next tighter level with operators between them. -/
lemma derived_chain {l : Level} {operand : Pattern}
    (h : (Pattern.chain operand l.operators).Means ts)
    (hoperand : ∀ us, operand.Means us → (Phrase.operand l.tighter?).Derived us) :
    (Phrase.operand (some l)).Derived ts := by
  obtain ⟨us, _, hus, ⟨parts, hparts, rfl⟩, rfl⟩ := h
  refine Phrase.Derived.append_flatten ?_ fun n => ?_
  · intro ts us hus hts n
    obtain ⟨_, vs, hmark, hvs, rfl⟩ := hparts us hus
    obtain ⟨operator, hoperator, rfl⟩ := means_operators.mp hmark
    obtain ⟨n₁, left, hleft⟩ := hts n
    obtain ⟨n₂, right, hright⟩ := hoperand vs hvs n₁
    exact ⟨n₂, _, .chain hleft hoperator hright⟩
  · obtain ⟨n', e, he⟩ := hoperand us hus n
    exact ⟨n', e, .single he⟩

lemma means_list {entry : Pattern} : (Pattern.list entry).Means ts ↔
    ∃ us, ∃ parts : List (List Token), entry.Means us ∧ parts.length < maxArity ∧
      (∀ vs ∈ parts, (Pattern.mark .comma ++ entry).Means vs) ∧ ts = us ++ parts.flatten := by
  constructor
  · rintro ⟨us, _, hus, ⟨parts, hlength, hparts, rfl⟩, rfl⟩
    exact ⟨us, parts, hus, by simp only [maxArity] at hlength ⊢; omega, hparts, rfl⟩
  · rintro ⟨us, parts, hus, hlength, hparts, rfl⟩
    exact ⟨us, _, hus, ⟨parts, by omega, hparts, rfl⟩, rfl⟩

/-! ### Rules for declarations -/

lemma means_classDecl (h : (grammar .classDecl).Means ts) : Phrase.declaration.Derived ts := by
  simp only [grammar, means_append, means_word, means_name, means_mark, means_optional] at h
  obtain ⟨_, _, ⟨_, _, ⟨_, _, ⟨_, _, ⟨_, _, ⟨keyword, hkeyword, rfl⟩, ⟨name, hname, rfl⟩, rfl⟩,
    hsuperclass, rfl⟩, ⟨left, hleft, rfl⟩, rfl⟩, ⟨parts, hparts, rfl⟩, rfl⟩, ⟨right, hright, rfl⟩,
    rfl⟩ := h
  intro n
  rcases hsuperclass with rfl | ⟨_, _, ⟨less, hless, rfl⟩, ⟨parent, hparent, rfl⟩, rfl⟩
  · obtain ⟨n', methods, hmethods⟩ := derived_methods hparts n
    have h := Derives.classDeclaration hkeyword hname .noSuperclass hleft hmethods hright
    exact ⟨n', _, by simpa using h⟩
  · obtain ⟨n', methods, hmethods⟩ := derived_methods hparts (n + 1)
    have h := Derives.classDeclaration hkeyword hname (.someSuperclass hless hparent) hleft hmethods
      hright
    exact ⟨n', _, by simpa using h⟩

lemma means_function (h : (grammar .function).Means ts) : Phrase.function.Derived ts := by
  simp only [grammar, means_append, means_name, means_mark, means_optional, means_rule] at h
  obtain ⟨_, _, ⟨_, _, ⟨_, us, ⟨_, _, ⟨name, hname, rfl⟩, ⟨left, hleft, rfl⟩, rfl⟩, hparameters,
    rfl⟩, ⟨right, hright, rfl⟩, rfl⟩, ⟨brace, body, close, hbrace, hbody, hclose, rfl⟩, rfl⟩ := h
  have hparams : Phrase.parameterList.Derived us := by
    intro n
    rcases hparameters with rfl | hparameters
    · exact ⟨n, [], .noParameters⟩
    · obtain ⟨n', params, hparams⟩ := hparameters n
      exact ⟨n', params, .someParameters hparams⟩
  intro n
  obtain ⟨n₁, params, hparams⟩ := hparams n
  obtain ⟨n₂, statements, hstatements⟩ := hbody n₁
  have h := Derives.function hname hleft hparams hright hbrace hstatements hclose
  exact ⟨n₂, _, by simpa using h⟩

lemma means_varDecl (h : (grammar .varDecl).Means ts) :
    Phrase.declaration.Derived ts ∧ Phrase.forInitializer.Derived ts := by
  simp only [grammar, means_append, means_word, means_name, means_mark, means_optional,
    means_rule] at h
  obtain ⟨_, _, ⟨_, us, ⟨_, _, ⟨keyword, hkeyword, rfl⟩, ⟨name, hname, rfl⟩, rfl⟩, hinitializer,
    rfl⟩, ⟨semicolon, hsemicolon, rfl⟩, rfl⟩ := h
  have hvalue : Phrase.initializer.Derived us := by
    intro n
    rcases hinitializer with rfl | ⟨_, vs, ⟨equals, hequals, rfl⟩, hvs, rfl⟩
    · exact ⟨n, none, .noInitializer⟩
    · obtain ⟨n', e, he⟩ := hvs n
      exact ⟨n', some e, .someInitializer hequals he⟩
  refine ⟨fun n => ?_, fun n => ?_⟩
  all_goals obtain ⟨n', value, hvalue⟩ := hvalue n
  · exact ⟨n', _, by simpa using .variableDeclaration hkeyword hname hvalue hsemicolon⟩
  · exact ⟨n', _, by simpa using .forVariable hkeyword hname hvalue hsemicolon⟩

/-! ### Rules for statements -/

lemma derived_optional (h : ts = [] ∨ Phrase.expression.Derived ts) :
    Phrase.optionalExpression.Derived ts := by
  intro n
  rcases h with rfl | h
  · exact ⟨n, none, .absent⟩
  · obtain ⟨n', e, he⟩ := h n
    exact ⟨n', some e, .present he⟩

lemma means_exprStmt (h : (grammar .exprStmt).Means ts) :
    IsStatement ts ∧ Phrase.forInitializer.Derived ts := by
  simp only [grammar, means_append, means_mark, means_rule] at h
  obtain ⟨us, _, hus, ⟨semicolon, hsemicolon, rfl⟩, rfl⟩ := h
  refine ⟨fun n => ?_, fun n => ?_⟩
  all_goals obtain ⟨n', e, he⟩ := hus n
  · exact ⟨n', _, _, .expressionStatement he hsemicolon⟩
  · exact ⟨n', _, .forExpression he hsemicolon⟩

lemma means_forStmt (h : (grammar .forStmt).Means ts) : IsStatement ts := by
  simp only [grammar, means_append, means_or, means_word, means_mark, means_optional,
    means_rule] at h
  obtain ⟨_, _, ⟨_, _, ⟨_, _, ⟨_, _, ⟨_, _, ⟨_, us, ⟨_, _, ⟨keyword, hkeyword, rfl⟩,
    ⟨left, hleft, rfl⟩, rfl⟩, hfirst, rfl⟩, hcondition, rfl⟩, ⟨semicolon, hsemicolon, rfl⟩, rfl⟩,
    hincrement, rfl⟩, ⟨right, hright, rfl⟩, rfl⟩, hbody, rfl⟩ := h
  have hinitializer : Phrase.forInitializer.Derived us := by
    rcases hfirst with (hvar | hexpr) | ⟨mark, hmark, rfl⟩
    · exact hvar.2
    · exact hexpr.2
    · exact fun n => ⟨n, none, .forNothing hmark⟩
  intro n
  obtain ⟨n₁, _, hinitializer⟩ := hinitializer n
  obtain ⟨n₂, _, hcondition⟩ := derived_optional hcondition n₁
  obtain ⟨n₃, _, hincrement⟩ := derived_optional hincrement n₂
  obtain ⟨n₄, _, _, hbody⟩ := hbody n₃
  have h :=
    Derives.forLoop hkeyword hleft hinitializer hcondition hsemicolon hincrement hright hbody
  exact ⟨n₄, _, _, by simpa using h⟩

/-- An `else` behind a statement that takes it is its own; otherwise it belongs to the conditional
around the statement. -/
lemma means_ifStmt (h : (grammar .ifStmt).Means ts) : IsStatement ts := by
  simp only [grammar, means_append, means_word, means_mark, means_optional, means_rule] at h
  obtain ⟨_, _, ⟨_, _, ⟨_, _, ⟨_, _, ⟨_, _, ⟨keyword, hkeyword, rfl⟩, ⟨left, hleft, rfl⟩, rfl⟩,
    hcondition, rfl⟩, ⟨right, hright, rfl⟩, rfl⟩, hthen, rfl⟩, helse, rfl⟩ := h
  intro n
  obtain ⟨n₁, _, hcondition⟩ := hcondition n
  obtain ⟨n₂, isOpen, _, hthen⟩ := hthen n₁
  rcases helse with rfl | ⟨_, _, ⟨otherwise, hotherwise, rfl⟩, helse, rfl⟩
  · exact ⟨n₂, _, _, by simpa using .ifThen hkeyword hleft hcondition hright hthen⟩
  · obtain ⟨n₃, _, _, helse⟩ := helse n₂
    cases isOpen with
    | false =>
      have h := Derives.ifElse hkeyword hleft hcondition hright hthen hotherwise helse
      exact ⟨n₃, _, _, by simpa using h⟩
    | true =>
      obtain ⟨_, _, hbranch⟩ := hthen.takesElse rfl otherwise _ _ _ _ hotherwise helse
      exact ⟨n₃, _, _, by simpa using .ifThen hkeyword hleft hcondition hright hbranch⟩

lemma means_printStmt (h : (grammar .printStmt).Means ts) : IsStatement ts := by
  simp only [grammar, means_append, means_word, means_mark, means_rule] at h
  obtain ⟨_, _, ⟨_, _, ⟨keyword, hkeyword, rfl⟩, hvalue, rfl⟩, ⟨semicolon, hsemicolon, rfl⟩,
    rfl⟩ := h
  intro n
  obtain ⟨n', _, he⟩ := hvalue n
  exact ⟨n', _, _, by simpa using .printStatement hkeyword he hsemicolon⟩

lemma means_returnStmt (h : (grammar .returnStmt).Means ts) : IsStatement ts := by
  simp only [grammar, means_append, means_word, means_mark, means_optional, means_rule] at h
  obtain ⟨_, _, ⟨_, _, ⟨keyword, hkeyword, rfl⟩, hvalue, rfl⟩, ⟨semicolon, hsemicolon, rfl⟩,
    rfl⟩ := h
  intro n
  obtain ⟨n', _, he⟩ := derived_optional hvalue n
  exact ⟨n', _, _, by simpa using .returnStatement hkeyword he hsemicolon⟩

lemma means_breakStmt (h : (grammar .breakStmt).Means ts) : IsStatement ts := by
  simp only [grammar, means_append, means_word, means_mark] at h
  obtain ⟨_, _, ⟨keyword, hkeyword, rfl⟩, ⟨semicolon, hsemicolon, rfl⟩, rfl⟩ := h
  exact fun n => ⟨n, _, _, .breakStatement hkeyword hsemicolon⟩

lemma means_whileStmt (h : (grammar .whileStmt).Means ts) : IsStatement ts := by
  simp only [grammar, means_append, means_word, means_mark, means_rule] at h
  obtain ⟨_, _, ⟨_, _, ⟨_, _, ⟨_, _, ⟨keyword, hkeyword, rfl⟩, ⟨left, hleft, rfl⟩, rfl⟩,
    hcondition, rfl⟩, ⟨right, hright, rfl⟩, rfl⟩, hbody, rfl⟩ := h
  intro n
  obtain ⟨n₁, _, hcondition⟩ := hcondition n
  obtain ⟨n₂, _, _, hbody⟩ := hbody n₁
  exact ⟨n₂, _, _, by simpa using .whileLoop hkeyword hleft hcondition hright hbody⟩

lemma means_block (h : (grammar .block).Means ts) : Rule.block.Means ts := by
  simp only [grammar, means_append, means_mark] at h
  obtain ⟨_, _, ⟨_, _, ⟨left, hleft, rfl⟩, ⟨parts, hparts, rfl⟩, rfl⟩, ⟨right, hright, rfl⟩,
    rfl⟩ := h
  exact ⟨left, parts.flatten, right, hleft, derived_declarations hparts, hright, by simp⟩

lemma means_statement (h : (grammar .statement).Means ts) : IsStatement ts := by
  simp only [grammar, means_or, means_rule] at h
  rcases h with ((((((h | h) | h) | h) | h) | h) | h) |
    ⟨left, body, right, hleft, hbody, hright, rfl⟩
  · exact h.1
  all_goals try exact h
  intro n
  obtain ⟨n', _, hbody⟩ := hbody n
  exact ⟨n', _, _, .block hleft hbody hright⟩

/-! ### Rules for expressions -/

lemma means_assignment (h : (grammar .assignment).Means ts) : Phrase.expression.Derived ts := by
  simp only [grammar, means_append, means_or, means_name, means_mark, means_optional,
    means_rule] at h
  intro n
  rcases h with ⟨_, _, ⟨_, _, ⟨_, _, hobject, ⟨name, hname, rfl⟩, rfl⟩,
    ⟨equals, hequals, rfl⟩, rfl⟩, hvalue, rfl⟩ | h
  · rcases hobject with rfl | ⟨_, _, hobject, ⟨dot, hdot, rfl⟩, rfl⟩
    · obtain ⟨n', _, hvalue⟩ := hvalue (n + 1)
      exact ⟨n' + 1, _, by simpa using .assign hname hequals hvalue⟩
    · obtain ⟨n₁, _, hobject⟩ := hobject n
      obtain ⟨n₂, _, hvalue⟩ := hvalue n₁
      exact ⟨n₂, _, by simpa using .set hobject hdot hname hequals hvalue⟩
  · obtain ⟨n', e, he⟩ := h n
    exact ⟨n', e, .plain he⟩

lemma means_unary (h : (grammar .unary).Means ts) : (Phrase.operand none).Derived ts := by
  simp only [grammar, means_append, means_or, means_mark, means_rule] at h
  intro n
  rcases h with ⟨_, us, hoperator, hright, rfl⟩ | h
  · obtain ⟨n', e, he⟩ := hright n
    obtain ⟨operator, hoperator, rfl⟩ | ⟨operator, hoperator, rfl⟩ := hoperator
    all_goals
      exact ⟨n', _, .prefixed (by simp [isUnaryOperator, Token.isMark, hoperator]) he⟩
  · obtain ⟨n', e, he⟩ := h n
    exact ⟨n', e, .unprefixed he⟩

lemma means_call (h : (grammar .call).Means ts) : Phrase.suffixed.Derived ts := by
  obtain ⟨us, _, hus, ⟨parts, hparts, rfl⟩, rfl⟩ := h
  refine Phrase.Derived.append_flatten (fun ts us hpart hts n => ?_) hus
  obtain ⟨n₁, _, hcallee⟩ := hts n
  have hsuffix := hparts us hpart
  simp only [means_or, means_append, means_mark, means_name, means_optional, means_rule] at hsuffix
  rcases hsuffix with
    ⟨_, _, ⟨_, vs, ⟨left, hleft, rfl⟩, harguments, rfl⟩, ⟨paren, hparen, rfl⟩, rfl⟩ |
    ⟨_, _, ⟨dot, hdot, rfl⟩, ⟨name, hname, rfl⟩, rfl⟩
  · have hlist : Phrase.argumentList.Derived vs := by
      intro n
      rcases harguments with rfl | harguments
      · exact ⟨n, [], .noArguments⟩
      · obtain ⟨n', es, hes⟩ := harguments n
        exact ⟨n', es, .someArguments hes⟩
    obtain ⟨n₂, _, hlist⟩ := hlist n₁
    exact ⟨n₂, _, by simpa using .call hcallee hleft hlist hparen⟩
  · exact ⟨n₁, _, .get hcallee hdot hname⟩

lemma means_constant {t : Token} (h : t.constant?.isSome = true) :
    Phrase.suffixed.Derived [t] := by
  obtain ⟨value, hvalue⟩ := Option.isSome_iff_exists.mp h
  exact fun n => ⟨n, _, .constant hvalue⟩

lemma means_primary (h : (grammar .primary).Means ts) : Phrase.suffixed.Derived ts := by
  simp only [grammar, means_or, means_append, means_word, means_mark, means_name, means_rule] at h
  rcases h with (((((((⟨t, ht, rfl⟩ | ⟨t, ht, rfl⟩) | ⟨t, ht, rfl⟩) | ⟨keyword, hkeyword, rfl⟩) |
    ⟨t, ht, rfl⟩) | ⟨t, ht, rfl⟩) | ⟨name, hname, rfl⟩) |
    ⟨_, _, ⟨_, _, ⟨left, hleft, rfl⟩, hinner, rfl⟩, ⟨right, hright, rfl⟩, rfl⟩) |
    ⟨_, _, ⟨_, _, ⟨keyword, hkeyword, rfl⟩, ⟨dot, hdot, rfl⟩, rfl⟩, ⟨name, hname, rfl⟩, rfl⟩
  · exact means_constant (by simp [Token.constant?, ht])
  · exact means_constant (by simp [Token.constant?, ht])
  · exact means_constant (by simp [Token.constant?, ht])
  · exact fun n => ⟨n + 1, _, .this hkeyword⟩
  · rcases hkind : t.kind <;> simp only [Terminal.accepts, hkind, Bool.false_eq_true] at ht
    exact means_constant (by simp [Token.constant?, hkind])
  · rcases hkind : t.kind <;> simp only [Terminal.accepts, hkind, Bool.false_eq_true] at ht
    exact means_constant (by simp [Token.constant?, hkind])
  · exact fun n => ⟨n + 1, _, .name hname⟩
  · intro n
    obtain ⟨n', _, hinner⟩ := hinner n
    exact ⟨n', _, by simpa using .grouping hleft hinner hright⟩
  · exact fun n => ⟨n + 1, _, by simpa using .super hkeyword hdot hname⟩

/-- **No rule derives more than it means.** -/
lemma means_of_grammar (h : (grammar r).Means ts) : r.Means ts := by
  cases r with
  | program =>
    obtain ⟨_, _, ⟨parts, hparts, rfl⟩, ⟨e, he, rfl⟩, rfl⟩ := h
    exact ⟨_, e, derived_declarations hparts, of_decide_eq_true he, rfl⟩
  | declaration =>
    simp only [grammar, means_or, means_rule] at h
    rcases h with ((h | h) | h) | h
    · exact h
    · exact h
    · exact h.1
    · intro n
      obtain ⟨n', _, s, hs⟩ := h n
      exact ⟨n', s, .statement hs⟩
  | classDecl => exact means_classDecl h
  | funDecl =>
    simp only [grammar, means_append, means_word, means_rule] at h
    obtain ⟨_, _, ⟨keyword, hkeyword, rfl⟩, hfunction, rfl⟩ := h
    intro n
    obtain ⟨n', _, hdecl⟩ := hfunction n
    exact ⟨n', _, .functionDeclaration hkeyword hdecl⟩
  | function => exact means_function h
  | parameters =>
    obtain ⟨_, parts, hentry, hlength, hparts, rfl⟩ := means_list.mp h
    obtain ⟨name, hname, rfl⟩ := means_name.mp hentry
    exact derived_parameters (by omega) hname hparts
  | varDecl => exact means_varDecl h
  | statement => exact means_statement h
  | exprStmt => exact means_exprStmt h
  | forStmt => exact means_forStmt h
  | ifStmt => exact means_ifStmt h
  | printStmt => exact means_printStmt h
  | returnStmt => exact means_returnStmt h
  | breakStmt => exact means_breakStmt h
  | whileStmt => exact means_whileStmt h
  | block => exact means_block h
  | expression => exact h
  | assignment => exact means_assignment h
  | logicOr => exact derived_chain (l := .disjunction) h fun _ hus => hus
  | logicAnd => exact derived_chain (l := .conjunction) h fun _ hus => hus
  | equality => exact derived_chain (l := .equality) h fun _ hus => hus
  | comparison => exact derived_chain (l := .comparison) h fun _ hus => hus
  | addition => exact derived_chain (l := .term) h fun _ hus => hus
  | multiplication => exact derived_chain (l := .factor) h fun _ hus => hus
  | unary => exact means_unary h
  | call => exact means_call h
  | arguments =>
    obtain ⟨us, parts, hus, hlength, hparts, rfl⟩ := means_list.mp h
    exact derived_arguments (by omega) hus hparts
  | primary => exact means_primary h

end Means

/-- **What the grammar derives is what it means.** -/
lemma Matches.means {p : Pattern} {ts : List Token} (h : Matches p ts) : p.Means ts := by
  induction h with
  | terminal h => exact ⟨_, h, rfl⟩
  | rule _ ih => exact means_of_grammar ih
  | sequence _ _ ihp ihq => exact ⟨_, _, ihp, ihq, rfl⟩
  | first _ ih => exact .inl ih
  | second _ ih => exact .inr ih
  | absent => exact .inl rfl
  | present _ ih => exact .inr ih
  | manyNone | upToNone => exact ⟨[], by simp⟩
  | @manyMore p ts us _ _ ih ihrest =>
    obtain ⟨parts, hparts, rfl⟩ := ihrest
    exact ⟨ts :: parts, by simpa using ⟨ih, hparts⟩, by simp⟩
  | @upToMore p n ts us _ _ ih ihrest =>
    obtain ⟨parts, hlength, hparts, rfl⟩ := ihrest
    exact ⟨ts :: parts, by simpa using hlength, by simpa using ⟨ih, hparts⟩, by simp⟩

/-- **Exactly the programs of the grammar are read without a complaint**: tokens with the end of the
source behind them, and nowhere else, are a program of the grammar if and only if reading them
gives no error. -/
theorem readProgram_errors_eq_nil_iff_matches {ts : List Token} {e : Token}
    (hts : ∀ t ∈ ts, t.kind ≠ .eof) (he : e.kind = .eof) (n : RefId) :
    (readProgram (ts ++ [e]) n).errors = [] ↔ Matches (.rule .program) (ts ++ [e]) := by
  have hbefore : (ts ++ [e]).takeWhile (!·.isEof) = ts :=
    takeWhile_append_of_isAtEnd (c := ⟨[e], 0, n, []⟩) hts
      (by simp [Cursor.isAtEnd, Cursor.token, Token.isEof, he])
  rw [readProgram_errors_eq_nil_iff, hbefore]
  constructor
  · rintro ⟨n', program, h⟩
    exact .rule (.sequence h.matches_pattern
      (.terminal (by simp [Terminal.accepts, Token.isEof, he])))
  · intro h
    obtain ⟨body, e', hbody, -, heq⟩ := h.means
    obtain ⟨rfl, -⟩ := List.append_inj' heq rfl
    exact hbody n

/-- The tokens of `print a;`, with the end of the source behind them. -/
theorem matches_print_name :
    Matches (.rule .program) ([⟨.keyword .print_, "print", 1⟩, ⟨.identifier, "a", 1⟩,
      ⟨.mark .semicolon, ";", 1⟩] ++ [⟨.eof, "", 1⟩]) :=
  (readProgram_errors_eq_nil_iff_matches (by decide) rfl 0).mp (by decide +kernel)

end LoxLang
