import LoxLang.Proofs.Syntax.Soundness

/-!
# What is derived is read

The converse of soundness: a reader that stands before the tokens of a derivation reads exactly
these tokens, gives the result of the derivation, hands out its numbers and makes no complaint,
provided that what follows cannot continue the phrase.  A chain of operators or of calls is left
recursive in a derivation but a loop in the reader, so for these the statement is that the reader
*leads to* its own loop with the derived expression in hand (`Reader.Leads`), whatever follows.
-/

namespace LoxLang

namespace Reader

/-! ## Readers that lead to readers -/

/-- Over the tokens `ts`, with numbers from `n` to `n'`, the reader `p` becomes the reader `q`; the
tokens `rest` are left. -/
def Leads {α : Type} (p : Reader α) (n : RefId) (ts : List Token) (n' : RefId) (q : Reader α)
    (rest : List Token) : Prop :=
  ∀ position errors,
    p ⟨ts ++ rest, position, n, errors⟩ = q ⟨rest, position + ts.length, n', errors⟩

namespace Leads

variable {α β : Type} {p q q' : Reader α} {n n₁ n' : RefId} {s u rest : List Token}

lemma refl (p : Reader α) (n : RefId) (rest : List Token) : p.Leads n [] n p rest :=
  fun _ _ => rfl

lemma trans (hp : p.Leads n s n₁ q (u ++ rest)) (hq : q.Leads n₁ u n' q' rest) :
    p.Leads n (s ++ u) n' q' rest := by
  intro position errors
  rw [List.append_assoc, hp, hq, List.length_append, Nat.add_assoc]

/-- One reader behind another. -/
lemma bind {f : α → Reader β} {a : α} {r : Reader β}
    (hp : p.Leads n s n₁ (pure a) (u ++ rest)) (hf : (f a).Leads n₁ u n' r rest) :
    (p >>= f).Leads n (s ++ u) n' r rest := by
  intro position errors
  have hrun := hp position errors
  rw [← List.append_assoc] at hrun
  rw [run_bind, hrun, run_pure, List.length_append, ← Nat.add_assoc]
  exact hf _ _

/-- The second reader starts over no tokens. -/
lemma bind_nil {f : α → Reader β} {a : α} {r : Reader β} (hp : p.Leads n s n₁ (pure a) rest)
    (hf : (f a).Leads n₁ [] n' r rest) : (p >>= f).Leads n s n' r rest := by
  intro position errors
  rw [run_bind, hp, run_pure]
  exact hf _ _

/-- A last step that reads nothing. -/
lemma bind_pure {f : α → Reader β} {a : α} {b : β} (hp : p.Leads n s n' (pure a) rest)
    (hf : f a = pure b) : (p >>= f).Leads n s n' (pure b) rest :=
  hp.bind_nil (hf ▸ refl _ _ _)

end Leads

/-! ## The primitive readers -/

section Primitives

variable {α : Type} {n n' : RefId} {ts rest : List Token} {t : Token} {q : Reader α}

lemma leads_peek {f : Token → Reader α} (h : (f t).Leads n (t :: ts) n' q rest) :
    (peek >>= f).Leads n (t :: ts) n' q rest := fun position errors => h position errors

/-- Does the token behind a phrase fail a test? -/
def Refuses (test : Token → Bool) (rest : List Token) : Prop :=
  (rest.headD .atEnd).kind = .eof ∨ test (rest.headD .atEnd) = false

lemma leads_advance (ht : t.kind ≠ .eof) : advance.Leads n [t] n (pure ()) rest := by
  intro position errors
  simp [advance, Cursor.advance, Cursor.isAtEnd, Cursor.token, Token.isEof, ht]

lemma leads_accept? {test : Token → Bool} (ht : t.kind ≠ .eof) (htest : test t = true) :
    (accept? test).Leads n [t] n (pure (some t)) rest := by
  intro position errors
  simp [accept?, Cursor.advance, Cursor.isAtEnd, Cursor.token, Token.isEof, ht, htest]

lemma leads_accept?_none {test : Token → Bool} (h : Refuses test rest) :
    (accept? test).Leads n [] n (pure none) rest := by
  intro position errors
  have hcheck : (!(⟨rest, position, n, errors⟩ : Cursor).isAtEnd &&
      test (⟨rest, position, n, errors⟩ : Cursor).token) = false := by
    rcases h with h | h
    · simp only [Cursor.isAtEnd, Cursor.token, Token.isEof, h, decide_true, Bool.not_true,
        Bool.false_and]
    · simp only [Cursor.token, h, Bool.and_false]
  simp [accept?, hcheck]

lemma leads_expect {test : Token → Bool} {what : Expectation} (ht : t.kind ≠ .eof)
    (htest : test t = true) : (expect test what).Leads n [t] n (pure t) rest := by
  intro position errors
  simp [expect, Cursor.advance, Cursor.isAtEnd, Cursor.token, Token.isEof, ht, htest]

lemma leads_expectMark {m : Mark} {what : Expectation} (ht : t.kind = .mark m) :
    (expectMark m what).Leads n [t] n (pure t) rest :=
  leads_expect (by simp [ht]) (by simp [Token.isMark, ht])

lemma leads_expectName {what : Expectation} (ht : t.kind = .identifier) :
    (expectName what).Leads n [t] n (pure t) rest :=
  leads_expect (by simp [ht]) (by simp [Token.isIdentifier, ht])

lemma leads_freshRef : freshRef.Leads n [] (n + 1) (pure n) rest := fun _ _ => rfl

/-- A check that succeeds reads nothing. -/
lemma leads_check {test : Token → Bool} {f : Bool → Reader α}
    (ht : ((ts ++ rest).headD .atEnd).kind ≠ .eof) (htest : test ((ts ++ rest).headD .atEnd) = true)
    (h : (f true).Leads n ts n' q rest) : (check test >>= f).Leads n ts n' q rest := by
  intro position errors
  have hcheck : (!(⟨ts ++ rest, position, n, errors⟩ : Cursor).isAtEnd &&
      test (⟨ts ++ rest, position, n, errors⟩ : Cursor).token) = true := by
    simp only [Cursor.isAtEnd, Cursor.token, Token.isEof, ht, htest, decide_false, Bool.not_false,
      Bool.and_self]
  simpa [check, hcheck] using h position errors

/-- A check that fails reads nothing. -/
lemma leads_check_false {test : Token → Bool} {f : Bool → Reader α}
    (htest : Refuses test (ts ++ rest)) (h : (f false).Leads n ts n' q rest) :
    (check test >>= f).Leads n ts n' q rest := by
  intro position errors
  have hcheck : (!(⟨ts ++ rest, position, n, errors⟩ : Cursor).isAtEnd &&
      test (⟨ts ++ rest, position, n, errors⟩ : Cursor).token) = false := by
    rcases htest with htest | htest
    · simp only [Cursor.isAtEnd, Cursor.token, Token.isEof, htest, decide_true, Bool.not_true,
        Bool.false_and]
    · simp only [Cursor.token, htest, Bool.and_false]
  simpa [check, hcheck] using h position errors

lemma leads_isAtEnd {f : Bool → Reader α}
    (h : (f (((ts ++ rest).headD .atEnd).kind = .eof)).Leads n ts n' q rest) :
    (isAtEnd >>= f).Leads n ts n' q rest := fun position errors => h position errors

end Primitives

/-! ## What cannot continue an expression -/

end Reader

namespace Token

/-- Does a token end every operand of the level that stands before it? -/
def Stops (t : Token) (level : Option Level) : Prop :=
  t.isMark .leftParen = false ∧ t.isMark .dot = false ∧
    ∀ l, Reader.operandRank (some l) ≤ Reader.operandRank level → l.isOperator t = false

/-- The marks that stand behind expressions. -/
def Closes (t : Token) : Prop :=
  t.kind = .mark .semicolon ∨ t.kind = .mark .rightParen ∨ t.kind = .mark .comma

variable {t : Token} {l : Level}

lemma stops_of_mark {m : Mark} (h : t.kind = .mark m)
    (hm : m ∈ [.semicolon, .rightParen, .comma, .equal]) (level : Option Level) :
    t.Stops level := by
  simp only [List.mem_cons, List.not_mem_nil, or_false] at hm
  rcases hm with rfl | rfl | rfl | rfl <;>
    refine ⟨by simp [isMark, h], by simp [isMark, h], fun l _ => ?_⟩ <;>
    cases l <;> simp [Level.isOperator, isMark, isKeyword, h]

lemma Closes.stops (h : t.Closes) (level : Option Level) : t.Stops level := by
  rcases h with h | h | h <;> exact stops_of_mark h (by simp) level

lemma Closes.isMark_equal (h : t.Closes) : t.isMark .equal = false := by
  rcases h with h | h | h <;> simp [isMark, h]

lemma Stops.tighter (h : t.Stops (some l)) : t.Stops l.tighter? :=
  ⟨h.1, h.2.1, fun k hk => h.2.2 k (by have := Reader.operandRank_tighter l; omega)⟩

/-- An operator belongs to one level. -/
lemma level_eq_of_isOperator {k : Level} (h : l.isOperator t = true)
    (hk : k.isOperator t = true) : k = l := by
  cases l <;> cases k <;>
    simp only [Level.isOperator, isMark, isKeyword, Bool.or_eq_true, decide_eq_true_eq] at h hk <;>
    grind

lemma isMark_of_isOperator {m : Mark} (h : l.isOperator t = true)
    (hm : m ∈ [.leftParen, .dot]) : t.isMark m = false := by
  simp only [List.mem_cons, List.not_mem_nil, or_false] at hm
  cases l <;>
    simp only [Level.isOperator, isMark, isKeyword, Bool.or_eq_true, decide_eq_true_eq] at h <;>
    grind [isMark]

/-- An operator of a level ends every tighter operand. -/
lemma stops_of_isOperator (h : l.isOperator t = true) : t.Stops l.tighter? := by
  refine ⟨isMark_of_isOperator h (by simp), isMark_of_isOperator h (by simp), fun k hk => ?_⟩
  rw [← Bool.not_eq_true]
  intro hoperator
  obtain rfl := level_eq_of_isOperator h hoperator
  have := Reader.operandRank_tighter k
  omega

end Token

/-! ## Complete phrases -/

open Reader in
/-- A phrase is complete when the reader of its kind reads it, with enough fuel and before tokens
that cannot continue it.  `room` counts tokens behind the phrase for which fuel has to be left. -/
def Phrase.Complete : (p : Phrase) → RefId → List Token → RefId → p.Result → Prop
  | .expression, n, ts, n', e => ∀ fuel rest, 16 * ts.length + 10 ≤ fuel →
      (rest.headD .atEnd).Closes → (Reader.expression fuel).Leads n ts n' (pure e) rest
  | .operand none, n, ts, n', e => ∀ fuel rest, 16 * ts.length + 3 ≤ fuel →
      (rest.headD .atEnd).Stops none → (Reader.operand fuel none).Leads n ts n' (pure e) rest
  | .operand (some l), n, ts, n', e => ∀ fuel room rest,
      16 * (ts.length + room) + operandRank (some l) ≤ fuel →
      (rest.headD .atEnd).Stops l.tighter? → ∃ fuel', 16 * room + 1 ≤ fuel' ∧
        (Reader.operand fuel (some l)).Leads n ts n' (chain fuel' l e) rest
  | .suffixed, n, ts, n', e => ∀ fuel room rest, 16 * (ts.length + room) + 2 ≤ fuel →
      ∃ fuel', 16 * room + 1 ≤ fuel' ∧ (unary fuel).Leads n ts n' (suffixes fuel' e) rest
  | .arguments count, n, ts, n', es => ∀ fuel rest, 16 * ts.length + 11 ≤ fuel →
      (rest.headD .atEnd).kind = .mark .rightParen →
      (argumentsFrom fuel count).Leads n ts n' (pure es) rest
  | .argumentList, n, ts, n', es => ∀ fuel rest, 16 * ts.length + 12 ≤ fuel →
      (rest.headD .atEnd).kind = .mark .rightParen →
      (Reader.argumentList fuel).Leads n ts n' (pure es) rest
  | .parameters count, n, ts, n', params => ∀ fuel rest, 16 * ts.length + 1 ≤ fuel →
      (rest.headD .atEnd).kind = .mark .rightParen →
      (parametersFrom fuel count).Leads n ts n' (pure params) rest
  | .parameterList, n, ts, n', params => ∀ fuel rest, 16 * ts.length + 1 ≤ fuel →
      (rest.headD .atEnd).kind = .mark .rightParen →
      (Reader.parameterList fuel).Leads n ts n' (pure params) rest
  | .optionalExpression, n, ts, n', o => ∀ fuel m rest, 16 * ts.length + 10 ≤ fuel →
      m ∈ [Mark.semicolon, .rightParen] → (rest.headD .atEnd).kind = .mark m →
      (expressionUnless fuel m).Leads n ts n' (pure o) rest
  | .initializer, n, ts, n', o => ∀ fuel name semicolon rest, 16 * ts.length + 10 ≤ fuel →
      name.kind = .identifier → semicolon.kind = .mark .semicolon →
      (varDeclaration fuel).Leads n (name :: (ts ++ [semicolon])) n' (pure (.var name o)) rest
  | .forInitializer, n, ts, n', o => ∀ fuel rest, 16 * ts.length + 10 ≤ fuel →
      (Reader.forInitializer fuel).Leads n ts n' (pure o) rest
  | .statement isOpen, n, ts, n', s => ∀ fuel rest, 16 * ts.length + 11 ≤ fuel →
      (isOpen = true → (rest.headD .atEnd).isKeyword .else_ = false) →
      (Reader.statement fuel).Leads n ts n' (pure s) rest
  | .superclass, _, _, _, _ => True
  | .function, n, ts, n', decl => ∀ fuel role rest, 16 * ts.length + 1 ≤ fuel →
      (Reader.function fuel role).Leads n ts n' (pure decl) rest
  | .methods, n, ts, n', decls => ∀ fuel rest, 16 * ts.length + 2 ≤ fuel →
      (rest.headD .atEnd).kind = .mark .rightBrace →
      (methodList fuel).Leads n ts n' (pure decls) rest
  | .declaration, n, ts, n', s => ∀ fuel rest, 16 * ts.length + 13 ≤ fuel →
      (rest.headD .atEnd).isKeyword .else_ = false →
      (Reader.declaration fuel).Leads n ts n' (pure (some s)) rest
  | .declarations, n, ts, n', body => ∀ fuel rest, 16 * ts.length + 14 ≤ fuel →
      ((rest.headD .atEnd).kind = .mark .rightBrace →
        (blockItems fuel).Leads n ts n' (pure body) rest) ∧
      ((rest.headD .atEnd).kind = .eof →
        (Reader.declarations fuel).Leads n ts n' (pure body) rest)

namespace Reader

section Expressions

variable {n n₁ n' n₂ : RefId} {ts others rest : List Token} {e left right : Expr} {l : Level}

lemma leads_chain_stop {fuel : Nat} (hfuel : 1 ≤ fuel)
    (hrest : l.isOperator (rest.headD .atEnd) = false) :
    (chain fuel l e).Leads n [] n (pure e) rest := by
  obtain ⟨fuel, rfl⟩ := Nat.exists_eq_add_of_le' hfuel
  rw [chain]
  exact (leads_accept?_none (.inr hrest)).bind_pure rfl

lemma leads_suffixes_stop {fuel : Nat} (hfuel : 1 ≤ fuel)
    (hrest : (rest.headD .atEnd).Stops none) :
    (suffixes fuel e).Leads n [] n (pure e) rest := by
  obtain ⟨fuel, rfl⟩ := Nat.exists_eq_add_of_le' hfuel
  rw [suffixes]
  refine Leads.bind (u := []) (leads_accept?_none (.inr hrest.1)) ?_
  exact (leads_accept?_none (.inr hrest.2.1)).bind_pure rfl

/-- An operand is read up to a token that ends it. -/
lemma leads_operand {level : Option Level} (h : (Phrase.operand level).Complete n ts n' e)
    {fuel : Nat} (hfuel : 16 * ts.length + operandRank level ≤ fuel)
    (hrest : (rest.headD .atEnd).Stops level) :
    (operand fuel level).Leads n ts n' (pure e) rest := by
  rcases level with _ | l
  · exact h fuel rest hfuel hrest
  · obtain ⟨fuel', hfuel', hlead⟩ := h fuel 0 rest hfuel hrest.tighter
    have hstop := leads_chain_stop (e := e) (n := n') (by omega : 1 ≤ fuel')
      (hrest.2.2 l (Nat.le_refl _))
    simpa using Leads.trans (u := []) hlead hstop

lemma complete_single (h : (Phrase.operand l.tighter?).Complete n ts n' e) :
    (Phrase.operand (some l)).Complete n ts n' e := by
  intro fuel room rest hfuel hrest
  have hrank := operandRank_tighter l
  have hlarge := three_le_operandRank (some l)
  obtain ⟨fuel, rfl⟩ := Nat.exists_eq_add_of_le' (by omega : 1 ≤ fuel)
  refine ⟨fuel, by omega, ?_⟩
  rw [operand]
  exact (leads_operand h (by omega) hrest).bind_nil (Leads.refl _ _ _)

lemma complete_chain {operator : Token} (hleft : (Phrase.operand (some l)).Complete n ts n₁ left)
    (hoperator : l.isOperator operator = true)
    (hright : (Phrase.operand l.tighter?).Complete n₁ others n₂ right) :
    (Phrase.operand (some l)).Complete n (ts ++ operator :: others) n₂
      (l.operation left operator right) := by
  intro fuel room rest hfuel hrest
  simp only [List.length_append, List.length_cons] at hfuel
  obtain ⟨fuel', hfuel', hlead⟩ := hleft fuel (others.length + 1 + room)
    (operator :: (others ++ rest)) (by omega) (Token.stops_of_isOperator hoperator)
  obtain ⟨fuel', rfl⟩ := Nat.exists_eq_add_of_le' (by omega : 1 ≤ fuel')
  have hrank := operandRank_le l.tighter?
  refine ⟨fuel', by omega, hlead.trans ?_⟩
  rw [chain]
  refine Leads.bind (s := [operator])
    (leads_accept? (Level.ne_eof_of_isOperator hoperator) hoperator) ?_
  exact (leads_operand hright (by omega) hrest).bind_nil (Leads.refl _ _ _)

/-- A suffixed expression is an operand without a level. -/
lemma complete_unprefixed (h : Phrase.suffixed.Complete n ts n' e) :
    (Phrase.operand none).Complete n ts n' e := by
  intro fuel rest hfuel hrest
  obtain ⟨fuel, rfl⟩ := Nat.exists_eq_add_of_le' (by omega : 1 ≤ fuel)
  obtain ⟨fuel', hfuel', hlead⟩ := h fuel 0 rest (by omega)
  rw [operand]
  simpa using Leads.trans (u := []) hlead
    (leads_suffixes_stop (e := e) (n := n') (by omega : 1 ≤ fuel') hrest)

lemma complete_prefixed {operator : Token} (hoperator : isUnaryOperator operator = true)
    (hright : (Phrase.operand none).Complete n ts n' right) :
    (Phrase.operand none).Complete n (operator :: ts) n' (.unary operator right) := by
  intro fuel rest hfuel hrest
  simp only [List.length_cons] at hfuel
  obtain ⟨fuel, rfl⟩ := Nat.exists_eq_add_of_le' (by omega : 2 ≤ fuel)
  have hlead := hright (fuel + 1) rest (by omega) hrest
  rw [operand] at hlead
  rw [operand, unary]
  have hne := Kind.ne_eof_of_startsExpression (startsExpression_of_isUnaryOperator hoperator)
  refine Leads.bind (s := [operator]) (leads_accept? hne hoperator) ?_
  exact hlead.bind_pure rfl

/-- A suffixed expression is an operand of every level. -/
lemma complete_disjunction (h : Phrase.suffixed.Complete n ts n' e) :
    (Phrase.operand (some .disjunction)).Complete n ts n' e :=
  complete_single (l := .disjunction) <| complete_single (l := .conjunction) <|
    complete_single (l := .equality) <| complete_single (l := .comparison) <|
    complete_single (l := .term) <| complete_single (l := .factor) <| complete_unprefixed h

/-- A primary expression is suffixed, if it does not start like a unary one. -/
lemma complete_primary {t : Token} (ht : isUnaryOperator t = false)
    (h : ∀ fuel rest, 16 * (t :: ts).length + 1 ≤ fuel →
      (primary fuel).Leads n (t :: ts) n' (pure e) rest) :
    Phrase.suffixed.Complete n (t :: ts) n' e := by
  intro fuel room rest hfuel
  obtain ⟨fuel, rfl⟩ := Nat.exists_eq_add_of_le' (by omega : 1 ≤ fuel)
  refine ⟨fuel, by omega, ?_⟩
  rw [unary]
  refine Leads.bind (s := []) (leads_accept?_none (.inr ht)) ?_
  exact (h fuel rest (by omega)).bind_nil (Leads.refl _ _ _)

lemma not_isUnaryOperator {t : Token} {k : Kind} (h : t.kind = k)
    (hk : k ∉ [.mark .bang, .mark .minus]) : isUnaryOperator t = false := by
  simp_all [isUnaryOperator, Token.isMark]

lemma complete_constant {t : Token} {value : Literal} (h : t.constant? = some value) :
    Phrase.suffixed.Complete n [t] n (.literal value) := by
  have hstart := Token.startsExpression_of_constant h
  refine complete_primary ?_ fun fuel rest hfuel => ?_
  · unfold Token.constant? at h
    split at h <;> simp_all [isUnaryOperator, Token.isMark]
  · obtain ⟨fuel, rfl⟩ := Nat.exists_eq_add_of_le' (by omega : 1 ≤ fuel)
    rw [primary]
    refine leads_peek ?_
    have hadvance : advance.Leads n [t] n (pure ()) rest :=
      leads_advance (Kind.ne_eof_of_startsExpression hstart)
    unfold Token.constant? at h
    split at h
    case h_6 => exact absurd h (by simp)
    all_goals
      rename_i hkind
      obtain rfl := Option.some.inj h
      simp only [hkind]
      exact hadvance.bind_pure rfl

lemma complete_name {name : Token} (hname : name.kind = .identifier) :
    Phrase.suffixed.Complete n [name] (n + 1) (.variable n name) := by
  refine complete_primary (not_isUnaryOperator hname (by simp)) fun fuel rest hfuel => ?_
  obtain ⟨fuel, rfl⟩ := Nat.exists_eq_add_of_le' (by omega : 1 ≤ fuel)
  rw [primary]
  refine leads_peek ?_
  simp only [hname]
  exact (leads_advance (by simp [hname])).bind_nil (leads_freshRef.bind_pure rfl)

lemma complete_this {keyword : Token} (hkeyword : keyword.kind = .keyword .this_) :
    Phrase.suffixed.Complete n [keyword] (n + 1) (.this n keyword) := by
  refine complete_primary (not_isUnaryOperator hkeyword (by simp)) fun fuel rest hfuel => ?_
  obtain ⟨fuel, rfl⟩ := Nat.exists_eq_add_of_le' (by omega : 1 ≤ fuel)
  rw [primary]
  refine leads_peek ?_
  simp only [hkeyword]
  exact (leads_advance (by simp [hkeyword])).bind_nil (leads_freshRef.bind_pure rfl)

lemma complete_super {keyword dot method : Token} (hkeyword : keyword.kind = .keyword .super_)
    (hdot : dot.kind = .mark .dot) (hmethod : method.kind = .identifier) :
    Phrase.suffixed.Complete n [keyword, dot, method] (n + 1) (.super n keyword method) := by
  refine complete_primary (not_isUnaryOperator hkeyword (by simp)) fun fuel rest hfuel => ?_
  obtain ⟨fuel, rfl⟩ := Nat.exists_eq_add_of_le' (by omega : 1 ≤ fuel)
  rw [primary]
  refine leads_peek ?_
  simp only [hkeyword]
  refine Leads.bind (s := [keyword]) (leads_advance (by simp [hkeyword])) ?_
  refine Leads.bind (s := [dot]) (leads_expectMark hdot) ?_
  exact (leads_expectName hmethod).bind_nil (leads_freshRef.bind_pure rfl)

lemma complete_grouping {left right : Token} (hleft : left.kind = .mark .leftParen)
    (hinner : Phrase.expression.Complete n ts n' e) (hright : right.kind = .mark .rightParen) :
    Phrase.suffixed.Complete n (left :: (ts ++ [right])) n' (.grouping e) := by
  refine complete_primary (not_isUnaryOperator hleft (by simp)) fun fuel rest hfuel => ?_
  simp only [List.length_cons, List.length_append, List.length_nil] at hfuel
  obtain ⟨fuel, rfl⟩ := Nat.exists_eq_add_of_le' (by omega : 1 ≤ fuel)
  rw [primary]
  refine leads_peek ?_
  simp only [hleft]
  refine Leads.bind (s := [left]) (leads_advance (by simp [hleft])) ?_
  refine Leads.bind (hinner fuel ([right] ++ rest) (by omega) (.inr (.inl hright))) ?_
  exact (leads_expectMark hright).bind_pure rfl

lemma complete_call {callee : Expr} {arguments : List Expr} {left paren : Token} {args : List Token}
    (hcallee : Phrase.suffixed.Complete n ts n₁ callee) (hleft : left.kind = .mark .leftParen)
    (harguments : Phrase.argumentList.Complete n₁ args n₂ arguments)
    (hparen : paren.kind = .mark .rightParen) :
    Phrase.suffixed.Complete n (ts ++ left :: (args ++ [paren])) n₂
      (.call callee paren arguments) := by
  intro fuel room rest hfuel
  simp only [List.length_append, List.length_cons, List.length_nil] at hfuel
  obtain ⟨fuel', hfuel', hlead⟩ := hcallee fuel (args.length + 2 + room)
    (left :: (args ++ [paren]) ++ rest) (by omega)
  obtain ⟨fuel', rfl⟩ := Nat.exists_eq_add_of_le' (by omega : 1 ≤ fuel')
  refine ⟨fuel', by omega, hlead.trans ?_⟩
  rw [suffixes]
  refine Leads.bind (s := [left])
    (leads_accept? (by simp [hleft]) (by simp [Token.isMark, hleft])) ?_
  refine Leads.bind (harguments fuel' ([paren] ++ rest) (by omega) hparen) ?_
  exact (leads_expectMark hparen).bind_nil (Leads.refl _ _ _)

lemma complete_get {object : Expr} {dot name : Token}
    (hobject : Phrase.suffixed.Complete n ts n' object) (hdot : dot.kind = .mark .dot)
    (hname : name.kind = .identifier) :
    Phrase.suffixed.Complete n (ts ++ [dot, name]) n' (.get object name) := by
  intro fuel room rest hfuel
  simp only [List.length_append, List.length_cons, List.length_nil] at hfuel
  obtain ⟨fuel', hfuel', hlead⟩ := hobject fuel (2 + room) ([dot, name] ++ rest) (by omega)
  obtain ⟨fuel', rfl⟩ := Nat.exists_eq_add_of_le' (by omega : 1 ≤ fuel')
  refine ⟨fuel', by omega, hlead.trans ?_⟩
  rw [suffixes]
  refine Leads.bind (s := [])
    (leads_accept?_none (.inr (by simp [Token.isMark, hdot]))) ?_
  refine Leads.bind (s := [dot])
    (leads_accept? (by simp [hdot]) (by simp [Token.isMark, hdot])) ?_
  exact (leads_expectName hname).bind_nil (Leads.refl _ _ _)

/-! ### Assignments and lists of arguments -/

lemma complete_plain (h : (Phrase.operand (some .disjunction)).Complete n ts n' e) :
    Phrase.expression.Complete n ts n' e := by
  intro fuel rest hfuel hrest
  obtain ⟨fuel, rfl⟩ := Nat.exists_eq_add_of_le' (by omega : 1 ≤ fuel)
  rw [expression]
  have hoperand := leads_operand h (by simp only [operandRank]; omega : _ ≤ fuel) (hrest.stops _)
  have hend : (accept? (·.isMark .equal)).Leads n' [] n' (pure none) rest :=
    leads_accept?_none (.inr hrest.isMark_equal)
  exact hoperand.bind_nil (hend.bind_pure rfl)

/-- An equals sign behind an operand that can be assigned to. -/
lemma leads_assignment {target value : Expr} {equals : Token} {r : Reader Expr} {n₃ : RefId}
    {s : List Token}
    (hr : (match target with
      | .variable _ name => do
        let ref ← freshRef
        pure (.assign ref name value)
      | .get object name => pure (.set object name value)
      | other => do
        complain equals .invalidTarget
        pure other : Reader Expr).Leads n₂ [] n₃ r rest)
    (htarget : (Phrase.operand (some .disjunction)).Complete n s n₁ target)
    (hequals : equals.kind = .mark .equal)
    (hvalue : Phrase.expression.Complete n₁ others n₂ value) {fuel : Nat}
    (hfuel : 16 * (s ++ equals :: others).length + 10 ≤ fuel + 1)
    (hrest : (rest.headD .atEnd).Closes) :
    (expression (fuel + 1)).Leads n (s ++ equals :: others) n₃ r rest := by
  simp only [List.length_append, List.length_cons] at hfuel
  rw [expression]
  refine Leads.bind (leads_operand htarget (by simp only [operandRank]; omega)
    (Token.stops_of_mark hequals (by simp) _)) ?_
  refine Leads.bind (s := [equals])
    (leads_accept? (by simp [hequals]) (by simp [Token.isMark, hequals])) ?_
  exact (hvalue fuel rest (by omega) hrest).bind_nil hr

lemma complete_assign {value : Expr} {name equals : Token} (hname : name.kind = .identifier)
    (hequals : equals.kind = .mark .equal)
    (hvalue : Phrase.expression.Complete (n + 1) ts n' value) :
    Phrase.expression.Complete n (name :: equals :: ts) (n' + 1) (.assign n' name value) := by
  intro fuel rest hfuel hrest
  obtain ⟨fuel, rfl⟩ := Nat.exists_eq_add_of_le' (by omega : 1 ≤ fuel)
  refine leads_assignment (s := [name]) ?_ (complete_disjunction (complete_name hname)) hequals
    hvalue hfuel hrest
  exact leads_freshRef.bind_pure rfl

lemma complete_set {object value : Expr} {dot name equals : Token}
    (hobject : Phrase.suffixed.Complete n ts n₁ object) (hdot : dot.kind = .mark .dot)
    (hname : name.kind = .identifier) (hequals : equals.kind = .mark .equal)
    (hvalue : Phrase.expression.Complete n₁ others n₂ value) :
    Phrase.expression.Complete n (ts ++ dot :: name :: equals :: others) n₂
      (.set object name value) := by
  intro fuel rest hfuel hrest
  obtain ⟨fuel, rfl⟩ := Nat.exists_eq_add_of_le' (by omega : 1 ≤ fuel)
  have hsplit : ts ++ dot :: name :: equals :: others = ts ++ [dot, name] ++ equals :: others := by
    simp
  rw [hsplit] at hfuel ⊢
  exact leads_assignment (Leads.refl _ _ _)
    (complete_disjunction (complete_get hobject hdot hname)) hequals hvalue hfuel hrest

lemma complete_lastArgument {count : Nat} (hcount : count < maxArity)
    (he : Phrase.expression.Complete n ts n' e) :
    (Phrase.arguments count).Complete n ts n' [e] := by
  intro fuel rest hfuel hrest
  obtain ⟨fuel, rfl⟩ := Nat.exists_eq_add_of_le' (by omega : 1 ≤ fuel)
  rw [argumentsFrom, if_neg (by omega)]
  have hcomma : (accept? (·.isMark .comma)).Leads n' [] n' (pure none) rest :=
    leads_accept?_none (.inr (by simp only [Token.isMark, hrest]; rfl))
  exact (he fuel rest (by omega) (.inr (.inl hrest))).bind_nil (hcomma.bind_pure rfl)

lemma complete_moreArguments {count : Nat} {comma : Token} {arguments : List Expr}
    (hcount : count < maxArity) (he : Phrase.expression.Complete n ts n₁ e)
    (hcomma : comma.kind = .mark .comma)
    (hothers : (Phrase.arguments (count + 1)).Complete n₁ others n₂ arguments) :
    (Phrase.arguments count).Complete n (ts ++ comma :: others) n₂ (e :: arguments) := by
  intro fuel rest hfuel hrest
  simp only [List.length_append, List.length_cons] at hfuel
  obtain ⟨fuel, rfl⟩ := Nat.exists_eq_add_of_le' (by omega : 1 ≤ fuel)
  rw [argumentsFrom, if_neg (by omega)]
  refine Leads.bind (he fuel (comma :: others ++ rest) (by omega) (.inr (.inr hcomma))) ?_
  refine Leads.bind (s := [comma])
    (leads_accept? (by simp [hcomma]) (by simp [Token.isMark, hcomma])) ?_
  exact (hothers fuel rest (by omega) hrest).bind_pure rfl

lemma complete_noArguments : Phrase.argumentList.Complete n [] n [] := by
  intro fuel rest hfuel hrest
  obtain ⟨fuel, rfl⟩ := Nat.exists_eq_add_of_le' (by omega : 1 ≤ fuel)
  rw [argumentList]
  refine leads_check ?_ ?_ (Leads.refl _ _ _)
  · simp only [List.nil_append, hrest]
    simp
  · simp only [List.nil_append, Token.isMark, hrest, decide_true]

/-- The first token of a phrase is not this mark. -/
lemma refuses_of_head {t : Token} {tail : List Token} {m : Mark} (hts : ts = t :: tail)
    (ht : t.kind ≠ .mark m) : Refuses (·.isMark m) (ts ++ rest) := by
  subst hts
  exact .inr (by simpa [Token.isMark] using ht)

lemma complete_someArguments {arguments : List Expr}
    (hderives : Derives (.arguments 0) n ts n' arguments)
    (h : (Phrase.arguments 0).Complete n ts n' arguments) :
    Phrase.argumentList.Complete n ts n' arguments := by
  intro fuel rest hfuel hrest
  obtain ⟨fuel, rfl⟩ := Nat.exists_eq_add_of_le' (by omega : 1 ≤ fuel)
  obtain ⟨t, tail, hts, ht⟩ := hderives.exists_head rfl
  rw [argumentList]
  refine leads_check_false (refuses_of_head hts ?_) (h fuel rest (by omega) hrest)
  intro hkind
  simp [Phrase.Starts, hkind, Kind.startsExpression] at ht

end Expressions

/-! ## Complete statements and declarations -/

section Statements

variable {n n₁ n₂ n₃ n₄ n' : RefId} {ts others rest : List Token} {e condition : Expr}
  {s thenBranch elseBranch body : Stmt} {isOpen : Bool} {keyword name left right semicolon : Token}

lemma complete_absent : Phrase.optionalExpression.Complete n [] n none := by
  intro fuel m rest hfuel hm hrest
  unfold expressionUnless
  refine leads_check ?_ ?_ (Leads.refl _ _ _)
  · simp only [List.nil_append, hrest]
    simp
  · simp only [List.nil_append, Token.isMark, hrest, decide_true]

lemma complete_present (hderives : Derives .expression n ts n' e)
    (h : Phrase.expression.Complete n ts n' e) :
    Phrase.optionalExpression.Complete n ts n' (some e) := by
  intro fuel m rest hfuel hm hrest
  obtain ⟨t, tail, hts, ht⟩ := hderives.exists_head rfl
  simp only [List.mem_cons, List.not_mem_nil, or_false] at hm
  unfold expressionUnless
  refine leads_check_false (refuses_of_head hts ?_) ?_
  · intro hkind
    rcases hm with rfl | rfl <;> simp [Phrase.Starts, hkind, Kind.startsExpression] at ht
  · have hcloses : (rest.headD .atEnd).Closes := by
      rcases hm with rfl | rfl
      · exact .inl hrest
      · exact .inr (.inl hrest)
    exact (h fuel rest hfuel hcloses).bind_pure rfl

lemma complete_noInitializer : Phrase.initializer.Complete n [] n none := by
  intro fuel name semicolon rest _ hname hsemicolon
  unfold varDeclaration
  refine Leads.bind (s := [name]) (leads_expectName hname) ?_
  refine Leads.bind (s := [])
    (leads_accept?_none (.inr (by simp [Token.isMark, hsemicolon]))) ?_
  exact (leads_expectMark hsemicolon).bind_pure rfl

lemma complete_someInitializer {equals : Token} (hequals : equals.kind = .mark .equal)
    (he : Phrase.expression.Complete n ts n' e) :
    Phrase.initializer.Complete n (equals :: ts) n' (some e) := by
  intro fuel name semicolon rest hfuel hname hsemicolon
  simp only [List.length_cons] at hfuel
  unfold varDeclaration
  refine Leads.bind (s := [name]) (leads_expectName hname) ?_
  refine Leads.bind (s := [equals])
    (leads_accept? (by simp [hequals]) (by simp [Token.isMark, hequals])) ?_
  refine Leads.bind (he fuel ([semicolon] ++ rest) (by omega) (.inl hsemicolon)) ?_
  exact (leads_expectMark hsemicolon).bind_pure rfl

lemma leads_expressionStatement (he : Phrase.expression.Complete n ts n' e)
    (hsemicolon : semicolon.kind = .mark .semicolon) {fuel : Nat}
    (hfuel : 16 * ts.length + 10 ≤ fuel) :
    (expressionStatement fuel).Leads n (ts ++ [semicolon]) n' (pure (.expression e)) rest := by
  unfold expressionStatement
  refine Leads.bind (he fuel ([semicolon] ++ rest) hfuel (.inl hsemicolon)) ?_
  exact (leads_expectMark hsemicolon).bind_pure rfl

lemma complete_forNothing (hsemicolon : semicolon.kind = .mark .semicolon) :
    Phrase.forInitializer.Complete n [semicolon] n none := by
  intro fuel rest _
  unfold forInitializer
  exact (leads_accept? (by simp [hsemicolon]) (by simp [Token.isMark, hsemicolon])).bind_pure rfl

lemma complete_forVariable {value : Option Expr} (hkeyword : keyword.kind = .keyword .var_)
    (hname : name.kind = .identifier) (hvalue : Phrase.initializer.Complete n ts n' value)
    (hsemicolon : semicolon.kind = .mark .semicolon) :
    Phrase.forInitializer.Complete n (keyword :: name :: (ts ++ [semicolon])) n'
      (some (.var name value)) := by
  intro fuel rest hfuel
  simp only [List.length_cons, List.length_append] at hfuel
  unfold forInitializer
  refine Leads.bind (s := [])
    (leads_accept?_none (.inr (by simp [Token.isMark, hkeyword]))) ?_
  refine Leads.bind (s := [keyword])
    (leads_accept? (by simp [hkeyword]) (by simp [Token.isKeyword, hkeyword])) ?_
  exact (hvalue fuel name semicolon rest (by omega) hname hsemicolon).bind_pure rfl

lemma complete_forExpression (hderives : Derives .expression n ts n' e)
    (he : Phrase.expression.Complete n ts n' e) (hsemicolon : semicolon.kind = .mark .semicolon) :
    Phrase.forInitializer.Complete n (ts ++ [semicolon]) n' (some (.expression e)) := by
  intro fuel rest hfuel
  simp only [List.length_append] at hfuel
  obtain ⟨t, tail, rfl, ht⟩ := hderives.exists_head rfl
  unfold forInitializer
  refine Leads.bind (s := []) (leads_accept?_none (.inr ?_)) ?_
  · rw [← Bool.not_eq_true]
    intro hmark
    simp_all [Phrase.Starts, Token.isMark, Kind.startsExpression]
  · refine Leads.bind (s := []) (leads_accept?_none (.inr ?_)) ?_
    · rw [← Bool.not_eq_true]
      intro hmark
      simp_all [Phrase.Starts, Token.isKeyword, Kind.startsExpression]
    · exact (leads_expressionStatement he hsemicolon (by omega)).bind_pure rfl

/-! ### Statements -/

/-- A statement that starts with an expression is one. -/
lemma complete_expressionStatement (hderives : Derives .expression n ts n' e)
    (he : Phrase.expression.Complete n ts n' e) (hsemicolon : semicolon.kind = .mark .semicolon) :
    (Phrase.statement false).Complete n (ts ++ [semicolon]) n' (.expression e) := by
  intro fuel rest hfuel _
  simp only [List.length_append] at hfuel
  obtain ⟨fuel, rfl⟩ := Nat.exists_eq_add_of_le' (by omega : 1 ≤ fuel)
  obtain ⟨t, tail, rfl, ht⟩ := hderives.exists_head rfl
  rw [statement]
  refine leads_peek ?_
  split
  case h_8 => exact leads_expressionStatement he hsemicolon (by omega)
  all_goals simp_all [Phrase.Starts, Kind.startsExpression]

lemma complete_printStatement (hkeyword : keyword.kind = .keyword .print_)
    (he : Phrase.expression.Complete n ts n' e) (hsemicolon : semicolon.kind = .mark .semicolon) :
    (Phrase.statement false).Complete n (keyword :: (ts ++ [semicolon])) n' (.print e) := by
  intro fuel rest hfuel _
  simp only [List.length_cons, List.length_append] at hfuel
  obtain ⟨fuel, rfl⟩ := Nat.exists_eq_add_of_le' (by omega : 1 ≤ fuel)
  rw [statement]
  refine leads_peek ?_
  simp only [hkeyword]
  refine Leads.bind (s := [keyword]) (leads_advance (by simp [hkeyword])) ?_
  unfold printStatement
  refine Leads.bind (he fuel ([semicolon] ++ rest) (by omega) (.inl hsemicolon)) ?_
  exact (leads_expectMark hsemicolon).bind_pure rfl

lemma complete_returnStatement {value : Option Expr} (hkeyword : keyword.kind = .keyword .return_)
    (hvalue : Phrase.optionalExpression.Complete n ts n' value)
    (hsemicolon : semicolon.kind = .mark .semicolon) :
    (Phrase.statement false).Complete n (keyword :: (ts ++ [semicolon])) n'
      (.returnValue keyword value) := by
  intro fuel rest hfuel _
  simp only [List.length_cons, List.length_append] at hfuel
  obtain ⟨fuel, rfl⟩ := Nat.exists_eq_add_of_le' (by omega : 1 ≤ fuel)
  rw [statement]
  refine leads_peek ?_
  simp only [hkeyword]
  refine Leads.bind (s := [keyword]) (leads_advance (by simp [hkeyword])) ?_
  unfold returnStatement
  refine Leads.bind
    (hvalue fuel .semicolon ([semicolon] ++ rest) (by omega) (by simp) hsemicolon) ?_
  exact (leads_expectMark hsemicolon).bind_pure rfl

lemma complete_breakStatement (hkeyword : keyword.kind = .keyword .break_)
    (hsemicolon : semicolon.kind = .mark .semicolon) :
    (Phrase.statement false).Complete n [keyword, semicolon] n (.breakLoop keyword) := by
  intro fuel rest hfuel _
  obtain ⟨fuel, rfl⟩ := Nat.exists_eq_add_of_le' (by omega : 1 ≤ fuel)
  rw [statement]
  refine leads_peek ?_
  simp only [hkeyword]
  refine Leads.bind (s := [keyword]) (leads_advance (by simp [hkeyword])) ?_
  unfold breakStatement
  exact (leads_expectMark hsemicolon).bind_pure rfl

/-- The declarations of a block and its closing brace. -/
lemma leads_block {body : List Stmt} (hbody : Phrase.declarations.Complete n ts n' body)
    (hright : right.kind = .mark .rightBrace) {fuel : Nat} (hfuel : 16 * ts.length + 15 ≤ fuel) :
    (block fuel).Leads n (ts ++ [right]) n' (pure body) rest := by
  obtain ⟨fuel, rfl⟩ := Nat.exists_eq_add_of_le' (by omega : 1 ≤ fuel)
  rw [block]
  refine Leads.bind ((hbody fuel ([right] ++ rest) (by omega)).1 hright) ?_
  exact (leads_expectMark hright).bind_pure rfl

lemma complete_block {body : List Stmt} (hleft : left.kind = .mark .leftBrace)
    (hbody : Phrase.declarations.Complete n ts n' body) (hright : right.kind = .mark .rightBrace) :
    (Phrase.statement false).Complete n (left :: (ts ++ [right])) n' (.block body) := by
  intro fuel rest hfuel _
  simp only [List.length_cons, List.length_append] at hfuel
  obtain ⟨fuel, rfl⟩ := Nat.exists_eq_add_of_le' (by omega : 1 ≤ fuel)
  rw [statement]
  refine leads_peek ?_
  simp only [hleft]
  refine Leads.bind (s := [left]) (leads_advance (by simp [hleft])) ?_
  exact (leads_block hbody hright (by omega)).bind_pure rfl

lemma complete_ifThen (hkeyword : keyword.kind = .keyword .if_)
    (hleft : left.kind = .mark .leftParen)
    (hcondition : Phrase.expression.Complete n ts n₁ condition)
    (hright : right.kind = .mark .rightParen)
    (hthen : (Phrase.statement isOpen).Complete n₁ others n₂ thenBranch) :
    (Phrase.statement true).Complete n (keyword :: left :: (ts ++ right :: others)) n₂
      (.ifThen condition thenBranch none) := by
  intro fuel rest hfuel hrest
  simp only [List.length_cons, List.length_append] at hfuel
  obtain ⟨fuel, rfl⟩ := Nat.exists_eq_add_of_le' (by omega : 2 ≤ fuel)
  rw [statement]
  refine leads_peek ?_
  simp only [hkeyword]
  refine Leads.bind (s := [keyword]) (leads_advance (by simp [hkeyword])) ?_
  rw [ifStatement]
  refine Leads.bind (s := [left]) (leads_expectMark hleft) ?_
  refine Leads.bind
    (hcondition fuel (right :: others ++ rest) (by omega) (.inr (.inl hright))) ?_
  refine Leads.bind (s := [right]) (leads_expectMark hright) ?_
  refine (hthen fuel rest (by omega) fun _ => hrest rfl).bind_nil ?_
  exact (leads_accept?_none (.inr (hrest rfl))).bind_pure rfl

lemma complete_ifElse {otherwise : Token} {other : List Token}
    (hkeyword : keyword.kind = .keyword .if_) (hleft : left.kind = .mark .leftParen)
    (hcondition : Phrase.expression.Complete n ts n₁ condition)
    (hright : right.kind = .mark .rightParen)
    (hthen : (Phrase.statement false).Complete n₁ others n₂ thenBranch)
    (hotherwise : otherwise.kind = .keyword .else_)
    (helse : (Phrase.statement isOpen).Complete n₂ other n₃ elseBranch) :
    (Phrase.statement isOpen).Complete n
      (keyword :: left :: (ts ++ right :: (others ++ otherwise :: other))) n₃
      (.ifThen condition thenBranch (some elseBranch)) := by
  intro fuel rest hfuel hrest
  simp only [List.length_cons, List.length_append] at hfuel
  obtain ⟨fuel, rfl⟩ := Nat.exists_eq_add_of_le' (by omega : 2 ≤ fuel)
  rw [statement]
  refine leads_peek ?_
  simp only [hkeyword]
  refine Leads.bind (s := [keyword]) (leads_advance (by simp [hkeyword])) ?_
  rw [ifStatement]
  refine Leads.bind (s := [left]) (leads_expectMark hleft) ?_
  refine Leads.bind
    (hcondition fuel (right :: (others ++ otherwise :: other) ++ rest) (by omega)
      (.inr (.inl hright))) ?_
  refine Leads.bind (s := [right]) (leads_expectMark hright) ?_
  refine Leads.bind (hthen fuel (otherwise :: other ++ rest) (by omega) (by simp)) ?_
  refine Leads.bind (s := [otherwise])
    (leads_accept? (by simp [hotherwise]) (by simp [Token.isKeyword, hotherwise])) ?_
  exact (helse fuel rest (by omega) hrest).bind_pure rfl

lemma complete_whileLoop (hkeyword : keyword.kind = .keyword .while_)
    (hleft : left.kind = .mark .leftParen)
    (hcondition : Phrase.expression.Complete n ts n₁ condition)
    (hright : right.kind = .mark .rightParen)
    (hbody : (Phrase.statement isOpen).Complete n₁ others n₂ body) :
    (Phrase.statement isOpen).Complete n (keyword :: left :: (ts ++ right :: others)) n₂
      (.whileLoop condition body) := by
  intro fuel rest hfuel hrest
  simp only [List.length_cons, List.length_append] at hfuel
  obtain ⟨fuel, rfl⟩ := Nat.exists_eq_add_of_le' (by omega : 2 ≤ fuel)
  rw [statement]
  refine leads_peek ?_
  simp only [hkeyword]
  refine Leads.bind (s := [keyword]) (leads_advance (by simp [hkeyword])) ?_
  rw [whileStatement]
  refine Leads.bind (s := [left]) (leads_expectMark hleft) ?_
  refine Leads.bind
    (hcondition fuel (right :: others ++ rest) (by omega) (.inr (.inl hright))) ?_
  refine Leads.bind (s := [right]) (leads_expectMark hright) ?_
  exact (hbody fuel rest (by omega) hrest).bind_pure rfl

lemma complete_forLoop {first step : List Token} {initializer : Option Stmt}
    {test increment : Option Expr} (hkeyword : keyword.kind = .keyword .for_)
    (hleft : left.kind = .mark .leftParen)
    (hinitializer : Phrase.forInitializer.Complete n first n₁ initializer)
    (htest : Phrase.optionalExpression.Complete n₁ ts n₂ test)
    (hsemicolon : semicolon.kind = .mark .semicolon)
    (hincrement : Phrase.optionalExpression.Complete n₂ step n₃ increment)
    (hright : right.kind = .mark .rightParen)
    (hbody : (Phrase.statement isOpen).Complete n₃ others n₄ body) :
    (Phrase.statement isOpen).Complete n
      (keyword :: left :: (first ++ (ts ++ semicolon :: (step ++ right :: others)))) n₄
      (.forLoop initializer test increment body) := by
  intro fuel rest hfuel hrest
  simp only [List.length_cons, List.length_append] at hfuel
  obtain ⟨fuel, rfl⟩ := Nat.exists_eq_add_of_le' (by omega : 2 ≤ fuel)
  rw [statement]
  refine leads_peek ?_
  simp only [hkeyword]
  refine Leads.bind (s := [keyword]) (leads_advance (by simp [hkeyword])) ?_
  rw [forStatement]
  refine Leads.bind (s := [left]) (leads_expectMark hleft) ?_
  refine Leads.bind (hinitializer fuel _ (by omega)) ?_
  refine Leads.bind (htest fuel .semicolon (semicolon :: (step ++ right :: others) ++ rest)
    (by omega) (by simp) hsemicolon) ?_
  refine Leads.bind (s := [semicolon]) (leads_expectMark hsemicolon) ?_
  refine Leads.bind (hincrement fuel .rightParen (right :: others ++ rest) (by omega) (by simp)
    hright) ?_
  refine Leads.bind (s := [right]) (leads_expectMark hright) ?_
  exact (hbody fuel rest (by omega) hrest).bind_pure rfl

end Statements

/-! ### Functions and classes -/

section Functions

variable {n n₁ n₂ n' : RefId} {ts others rest : List Token} {count : Nat}
  {keyword name left right semicolon : Token}

lemma complete_noParameters : Phrase.parameterList.Complete n [] n [] := by
  intro fuel rest _ hrest
  unfold parameterList
  refine leads_check ?_ ?_ (Leads.refl _ _ _)
  · simp only [List.nil_append, hrest]
    simp
  · simp only [List.nil_append, Token.isMark, hrest, decide_true]

lemma complete_someParameters {params : List Token}
    (hderives : Derives (.parameters 0) n ts n' params)
    (h : (Phrase.parameters 0).Complete n ts n' params) :
    Phrase.parameterList.Complete n ts n' params := by
  intro fuel rest hfuel hrest
  obtain ⟨t, tail, hts, ht⟩ := hderives.exists_head rfl
  unfold parameterList
  refine leads_check_false (refuses_of_head hts ?_) (h fuel rest hfuel hrest)
  intro hkind
  simp [Phrase.Starts, hkind] at ht

lemma complete_lastParameter (hcount : count < maxArity) (hname : name.kind = .identifier) :
    (Phrase.parameters count).Complete n [name] n [name] := by
  intro fuel rest hfuel hrest
  obtain ⟨fuel, rfl⟩ := Nat.exists_eq_add_of_le' (by omega : 1 ≤ fuel)
  rw [parametersFrom, if_neg (by omega)]
  have hcomma : (accept? (·.isMark .comma)).Leads n [] n (pure none) rest :=
    leads_accept?_none (.inr (by simp only [Token.isMark, hrest]; rfl))
  exact (leads_expectName hname).bind_nil (hcomma.bind_pure rfl)

lemma complete_moreParameters {comma : Token} {params : List Token} (hcount : count < maxArity)
    (hname : name.kind = .identifier) (hcomma : comma.kind = .mark .comma)
    (hothers : (Phrase.parameters (count + 1)).Complete n ts n' params) :
    (Phrase.parameters count).Complete n (name :: comma :: ts) n' (name :: params) := by
  intro fuel rest hfuel hrest
  simp only [List.length_cons] at hfuel
  obtain ⟨fuel, rfl⟩ := Nat.exists_eq_add_of_le' (by omega : 1 ≤ fuel)
  rw [parametersFrom, if_neg (by omega)]
  refine Leads.bind (s := [name]) (leads_expectName hname) ?_
  refine Leads.bind (s := [comma])
    (leads_accept? (by simp [hcomma]) (by simp [Token.isMark, hcomma])) ?_
  exact (hothers fuel rest (by omega) hrest).bind_pure rfl

lemma complete_function {brace close : Token} {params : List Token} {body : List Stmt}
    (hname : name.kind = .identifier) (hleft : left.kind = .mark .leftParen)
    (hparams : Phrase.parameterList.Complete n ts n₁ params)
    (hright : right.kind = .mark .rightParen) (hbrace : brace.kind = .mark .leftBrace)
    (hbody : Phrase.declarations.Complete n₁ others n₂ body)
    (hclose : close.kind = .mark .rightBrace) :
    Phrase.function.Complete n (name :: left :: (ts ++ right :: brace :: (others ++ [close]))) n₂
      (.mk name params body) := by
  intro fuel role rest hfuel
  simp only [List.length_cons, List.length_append] at hfuel
  obtain ⟨fuel, rfl⟩ := Nat.exists_eq_add_of_le' (by omega : 1 ≤ fuel)
  rw [function]
  refine Leads.bind (s := [name]) (leads_expectName hname) ?_
  refine Leads.bind (s := [left]) (leads_expectMark hleft) ?_
  refine Leads.bind
    (hparams fuel (right :: brace :: (others ++ [close]) ++ rest) (by omega) hright) ?_
  refine Leads.bind (s := [right]) (leads_expectMark hright) ?_
  refine Leads.bind (s := [brace]) (leads_expectMark hbrace) ?_
  exact (leads_block hbody hclose (by omega)).bind_pure rfl

/-- Before a closing brace a list of methods or declarations ends. -/
lemma leads_closed {α : Type} {done : Reader α} {next : Reader α}
    (hrest : (rest.headD .atEnd).kind = .mark .rightBrace) :
    (do
      let closed ← check (·.isMark .rightBrace)
      if closed || (← isAtEnd) then done else next : Reader α).Leads n [] n done rest := by
  refine leads_check ?_ ?_ (leads_isAtEnd (Leads.refl _ _ _))
  · simp only [List.nil_append, hrest]
    simp
  · simp only [List.nil_append, Token.isMark, hrest, decide_true]

/-- Before anything else it goes on. -/
lemma leads_unclosed {α : Type} {done next r : Reader α} {t : Token} {tail : List Token}
    (hts : ts = t :: tail) (hclosed : t.kind ≠ .mark .rightBrace) (hend : t.kind ≠ .eof)
    (h : next.Leads n ts n' r rest) :
    (do
      let closed ← check (·.isMark .rightBrace)
      if closed || (← isAtEnd) then done else next : Reader α).Leads n ts n' r rest := by
  refine leads_check_false (refuses_of_head hts hclosed) (leads_isAtEnd ?_)
  subst hts
  simpa [hend] using h

lemma complete_noMethods : Phrase.methods.Complete n [] n [] := by
  intro fuel rest hfuel hrest
  obtain ⟨fuel, rfl⟩ := Nat.exists_eq_add_of_le' (by omega : 1 ≤ fuel)
  rw [methodList]
  exact leads_closed hrest

lemma complete_moreMethods {decl : FunDecl} {decls : List FunDecl}
    (hderives : Derives .function n ts n₁ decl) (hdecl : Phrase.function.Complete n ts n₁ decl)
    (hdecls : Phrase.methods.Complete n₁ others n₂ decls) :
    Phrase.methods.Complete n (ts ++ others) n₂ (decl :: decls) := by
  intro fuel rest hfuel hrest
  obtain ⟨t, tail, rfl, ht⟩ := hderives.exists_head rfl
  simp only [List.length_append, List.length_cons] at hfuel
  obtain ⟨fuel, rfl⟩ := Nat.exists_eq_add_of_le' (by omega : 1 ≤ fuel)
  have hkind : t.kind = .identifier := ht
  rw [methodList]
  refine leads_unclosed rfl (by simp [hkind]) (by simp [hkind]) ?_
  refine Leads.bind (hdecl fuel .method _ (by simp only [List.length_cons]; omega)) ?_
  exact (hdecls fuel rest (by omega) hrest).bind_pure rfl

end Functions

/-! ### Declarations -/

section Declarations

variable {n n₁ n₂ n' : RefId} {ts others rest : List Token} {s : Stmt}
  {keyword name left right semicolon : Token}

/-- A declaration is read by its rule, which has nothing to recover from. -/
lemma leads_declaration {fuel : Nat} (h : (declarationRule fuel).Leads n ts n' (pure s) rest) :
    (declaration (fuel + 1)).Leads n ts n' (pure (some s)) rest := by
  intro position errors
  rw [declaration]
  simp [recover, h position errors]

lemma complete_variableDeclaration {value : Option Expr} (hkeyword : keyword.kind = .keyword .var_)
    (hname : name.kind = .identifier) (hvalue : Phrase.initializer.Complete n ts n' value)
    (hsemicolon : semicolon.kind = .mark .semicolon) :
    Phrase.declaration.Complete n (keyword :: name :: (ts ++ [semicolon])) n'
      (.var name value) := by
  intro fuel rest hfuel _
  simp only [List.length_cons, List.length_append] at hfuel
  obtain ⟨fuel, rfl⟩ := Nat.exists_eq_add_of_le' (by omega : 2 ≤ fuel)
  refine leads_declaration ?_
  rw [declarationRule]
  refine leads_peek ?_
  simp only [hkeyword]
  refine Leads.bind (s := [keyword]) (leads_advance (by simp [hkeyword])) ?_
  exact hvalue fuel name semicolon rest (by omega) hname hsemicolon

lemma complete_functionDeclaration {decl : FunDecl} (hkeyword : keyword.kind = .keyword .fun_)
    (hdecl : Phrase.function.Complete n ts n' decl) :
    Phrase.declaration.Complete n (keyword :: ts) n' (.function decl) := by
  intro fuel rest hfuel _
  simp only [List.length_cons] at hfuel
  obtain ⟨fuel, rfl⟩ := Nat.exists_eq_add_of_le' (by omega : 2 ≤ fuel)
  refine leads_declaration ?_
  rw [declarationRule]
  refine leads_peek ?_
  simp only [hkeyword]
  refine Leads.bind (s := [keyword]) (leads_advance (by simp [hkeyword])) ?_
  exact (hdecl fuel .function rest (by omega)).bind_pure rfl

/-- The body of a class and its braces. -/
lemma leads_classBody {superclass : Option Expr} {decls : List FunDecl} {fuel : Nat}
    (hleft : left.kind = .mark .leftBrace) (hdecls : Phrase.methods.Complete n others n' decls)
    (hright : right.kind = .mark .rightBrace) (hfuel : 16 * others.length + 2 ≤ fuel) :
    (do
      let _ ← expectMark .leftBrace .classBody
      let methods ← methodList fuel
      let _ ← expectMark .rightBrace .classEnd
      pure (.classDecl name superclass methods) : Reader Stmt).Leads n (left :: (others ++ [right]))
      n' (pure (.classDecl name superclass decls)) rest := by
  refine Leads.bind (s := [left]) (leads_expectMark hleft) ?_
  refine Leads.bind (hdecls fuel ([right] ++ rest) hfuel hright) ?_
  exact (leads_expectMark hright).bind_pure rfl

lemma complete_classDeclaration {superclass : Option Expr} {decls : List FunDecl}
    (hkeyword : keyword.kind = .keyword .class_) (hname : name.kind = .identifier)
    (hsuperclass : Derives .superclass n ts n₁ superclass) (hleft : left.kind = .mark .leftBrace)
    (hdecls : Phrase.methods.Complete n₁ others n₂ decls)
    (hright : right.kind = .mark .rightBrace) :
    Phrase.declaration.Complete n (keyword :: name :: (ts ++ left :: (others ++ [right]))) n₂
      (.classDecl name superclass decls) := by
  intro fuel rest hfuel _
  simp only [List.length_cons, List.length_append] at hfuel
  obtain ⟨fuel, rfl⟩ := Nat.exists_eq_add_of_le' (by omega : 3 ≤ fuel)
  refine leads_declaration ?_
  rw [declarationRule]
  refine leads_peek ?_
  simp only [hkeyword]
  refine Leads.bind (s := [keyword]) (leads_advance (by simp [hkeyword])) ?_
  rw [classDeclaration]
  refine Leads.bind (s := [name]) (leads_expectName hname) ?_
  cases hsuperclass with
  | noSuperclass =>
    refine Leads.bind (s := [])
      (leads_accept?_none (.inr (by simp [Token.isMark, hleft]))) ?_
    exact leads_classBody hleft hdecls hright (by omega)
  | @someSuperclass _ less parent hless hparent =>
    refine Leads.bind (s := [less])
      (leads_accept? (by simp [hless]) (by simp [Token.isMark, hless])) ?_
    refine Leads.bind (s := [parent]) (leads_expectName hparent) ?_
    refine Leads.bind (s := []) leads_freshRef ?_
    exact leads_classBody hleft hdecls hright (by omega)

lemma complete_statement {isOpen : Bool} (hderives : Derives (.statement isOpen) n ts n' s)
    (h : (Phrase.statement isOpen).Complete n ts n' s) :
    Phrase.declaration.Complete n ts n' s := by
  intro fuel rest hfuel hrest
  obtain ⟨fuel, rfl⟩ := Nat.exists_eq_add_of_le' (by omega : 2 ≤ fuel)
  have hlead := h fuel rest (by omega) fun _ => hrest
  obtain ⟨t, tail, rfl, ht⟩ := hderives.exists_head rfl
  refine leads_declaration ?_
  rw [declarationRule]
  refine leads_peek ?_
  split
  case h_4 => exact hlead
  all_goals simp_all [Phrase.Starts, Kind.startsStatement, Kind.startsExpression]

lemma Kind.startsDeclaration_ne {k : Kind} (h : k.startsDeclaration = true) :
    k ≠ .eof ∧ k ≠ .mark .rightBrace ∧ k ≠ .keyword .else_ := by
  refine ⟨?_, ?_, ?_⟩ <;> rintro rfl <;>
    simp [Kind.startsDeclaration, Kind.startsStatement, Kind.startsExpression] at h

/-- No list of declarations starts with an `else`. -/
lemma isElse_declarations {body : List Stmt} (h : Derives .declarations n ts n' body)
    (hrest : (rest.headD .atEnd).isKeyword .else_ = false) :
    ((ts ++ rest).headD .atEnd).isKeyword .else_ = false := by
  cases h with
  | noDeclarations => exact hrest
  | moreDeclarations hs hbody =>
    obtain ⟨t, tail, rfl, ht⟩ := hs.exists_head rfl
    simpa [Token.isKeyword] using (Kind.startsDeclaration_ne ht).2.2

lemma complete_noDeclarations : Phrase.declarations.Complete n [] n [] := by
  intro fuel rest hfuel
  obtain ⟨fuel, rfl⟩ := Nat.exists_eq_add_of_le' (by omega : 1 ≤ fuel)
  refine ⟨fun hrest => ?_, fun hrest => ?_⟩
  · rw [blockItems]
    exact leads_closed hrest
  · rw [declarations]
    refine leads_isAtEnd ?_
    simpa only [List.nil_append, hrest, decide_true, if_true] using Leads.refl _ _ _

lemma complete_moreDeclarations {body : List Stmt} (hderives : Derives .declaration n ts n₁ s)
    (hs : Phrase.declaration.Complete n ts n₁ s)
    (hothers : Derives .declarations n₁ others n₂ body)
    (hbody : Phrase.declarations.Complete n₁ others n₂ body) :
    Phrase.declarations.Complete n (ts ++ others) n₂ (s :: body) := by
  intro fuel rest hfuel
  obtain ⟨t, tail, rfl, ht⟩ := hderives.exists_head rfl
  obtain ⟨hend, hclosed, -⟩ := Kind.startsDeclaration_ne ht
  simp only [List.length_append, List.length_cons] at hfuel
  obtain ⟨fuel, rfl⟩ := Nat.exists_eq_add_of_le' (by omega : 1 ≤ fuel)
  have hfirst := hs fuel (others ++ rest) (by simp only [List.length_cons]; omega)
  refine ⟨fun hrest => ?_, fun hrest => ?_⟩
  · rw [blockItems]
    refine leads_unclosed rfl hclosed hend ?_
    refine Leads.bind (hfirst (isElse_declarations hothers ?_)) ?_
    · simp only [Token.isKeyword, hrest]
      rfl
    · exact ((hbody fuel rest (by omega)).1 hrest).bind_pure rfl
  · rw [declarations]
    refine leads_isAtEnd ?_
    simp only [List.cons_append, List.headD_cons, hend, decide_false, Bool.false_eq_true, if_false]
    refine Leads.bind (s := t :: tail) (hfirst (isElse_declarations hothers ?_)) ?_
    · simp only [Token.isKeyword, hrest]
      rfl
    · exact ((hbody fuel rest (by omega)).2 hrest).bind_pure rfl

end Declarations

end Reader

/-! ## Whole programs -/

open Reader in
/-- **What is derived is read.** -/
theorem Derives.complete {p : Phrase} {n n' : RefId} {ts : List Token} {r : p.Result}
    (h : Derives p n ts n' r) : p.Complete n ts n' r := by
  induction h with
  | constant ht => exact complete_constant ht
  | name hname => exact complete_name hname
  | this hkeyword => exact complete_this hkeyword
  | super hkeyword hdot hmethod => exact complete_super hkeyword hdot hmethod
  | grouping hleft _ hright ih => exact complete_grouping hleft ih hright
  | call _ hleft _ hparen ihcallee iharguments =>
    exact complete_call ihcallee hleft iharguments hparen
  | get _ hdot hname ih => exact complete_get ih hdot hname
  | noArguments => exact complete_noArguments
  | someArguments h ih => exact complete_someArguments h ih
  | lastArgument hcount _ ih => exact complete_lastArgument hcount ih
  | moreArguments hcount _ hcomma _ ihe ihothers =>
    exact complete_moreArguments hcount ihe hcomma ihothers
  | unprefixed _ ih => exact complete_unprefixed ih
  | prefixed hoperator _ ih => exact complete_prefixed hoperator ih
  | single _ ih => exact complete_single ih
  | chain _ hoperator _ ihleft ihright => exact complete_chain ihleft hoperator ihright
  | plain _ ih => exact complete_plain ih
  | assign hname hequals _ ih => exact complete_assign hname hequals ih
  | set _ hdot hname hequals _ ihobject ihvalue =>
    exact complete_set ihobject hdot hname hequals ihvalue
  | absent => exact complete_absent
  | present h ih => exact complete_present h ih
  | expressionStatement h hsemicolon ih => exact complete_expressionStatement h ih hsemicolon
  | printStatement hkeyword _ hsemicolon ih => exact complete_printStatement hkeyword ih hsemicolon
  | returnStatement hkeyword _ hsemicolon ih =>
    exact complete_returnStatement hkeyword ih hsemicolon
  | breakStatement hkeyword hsemicolon => exact complete_breakStatement hkeyword hsemicolon
  | block hleft _ hright ih => exact complete_block hleft ih hright
  | ifThen hkeyword hleft _ hright _ ihcondition ihthen =>
    exact complete_ifThen hkeyword hleft ihcondition hright ihthen
  | ifElse hkeyword hleft _ hright _ hotherwise _ ihcondition ihthen ihelse =>
    exact complete_ifElse hkeyword hleft ihcondition hright ihthen hotherwise ihelse
  | whileLoop hkeyword hleft _ hright _ ihcondition ihbody =>
    exact complete_whileLoop hkeyword hleft ihcondition hright ihbody
  | forLoop hkeyword hleft _ _ hsemicolon _ hright _ ihinitializer ihcondition ihincrement ihbody =>
    exact complete_forLoop hkeyword hleft ihinitializer ihcondition hsemicolon ihincrement hright
      ihbody
  | forNothing hsemicolon => exact complete_forNothing hsemicolon
  | forVariable hkeyword hname _ hsemicolon ih =>
    exact complete_forVariable hkeyword hname ih hsemicolon
  | forExpression h hsemicolon ih => exact complete_forExpression h ih hsemicolon
  | noInitializer => exact complete_noInitializer
  | someInitializer hequals _ ih => exact complete_someInitializer hequals ih
  | variableDeclaration hkeyword hname _ hsemicolon ih =>
    exact complete_variableDeclaration hkeyword hname ih hsemicolon
  | functionDeclaration hkeyword _ ih => exact complete_functionDeclaration hkeyword ih
  | classDeclaration hkeyword hname hsuperclass hleft _ hright _ ihmethods =>
    exact complete_classDeclaration hkeyword hname hsuperclass hleft ihmethods hright
  | statement h ih => exact complete_statement h ih
  | noSuperclass => trivial
  | someSuperclass => trivial
  | noMethods => exact complete_noMethods
  | moreMethods h _ ihdecl ihmethods => exact complete_moreMethods h ihdecl ihmethods
  | function hname hleft _ hright hbrace _ hclose ihparams ihbody =>
    exact complete_function hname hleft ihparams hright hbrace ihbody hclose
  | noParameters => exact complete_noParameters
  | someParameters h ih => exact complete_someParameters h ih
  | lastParameter hcount hname => exact complete_lastParameter hcount hname
  | moreParameters hcount hname hcomma _ ih =>
    exact complete_moreParameters hcount hname hcomma ih
  | noDeclarations => exact complete_noDeclarations
  | moreDeclarations hs hbody ihs ihbody =>
    exact complete_moreDeclarations hs ihs hbody ihbody

/-- **Tokens that are declarations are read as these declarations**, up to the end of the source
and without a complaint. -/
theorem Derives.readProgram_eq {n n' : RefId} {ts rest : List Token} {program : List Stmt}
    (h : Derives .declarations n ts n' program) (hrest : (rest.headD .atEnd).kind = .eof) :
    readProgram (ts ++ rest) n = ⟨program, [], n', rest⟩ := by
  have hfuel : 16 * ts.length + 14 ≤ fuelPerToken * ((ts ++ rest).length + 1) := by
    simp only [fuelPerToken, List.length_append]
    omega
  have hread := (h.complete _ rest hfuel).2 hrest 0 []
  simp only [readProgram, hread, Reader.run_pure, Option.getD_some]

/-- Behind the tokens before the end of the source is this end, if anything. -/
lemma kind_headD_dropWhile (tokens : List Token) :
    ((tokens.dropWhile (!·.isEof)).headD .atEnd).kind = .eof := by
  rcases hdrop : tokens.dropWhile (!·.isEof) with _ | ⟨t, rest⟩
  · rw [hdrop]
    rfl
  · have ht := List.head_dropWhile_not (l := tokens) (fun t => !t.isEof) (by simp [hdrop])
    simp only [hdrop, List.head_cons] at ht
    rw [hdrop, List.headD_cons]
    simpa [Token.isEof] using ht

/-- Only the tokens before the end of the source matter. -/
lemma Derives.readProgram_takeWhile {n n' : RefId} {tokens : List Token} {program : List Stmt}
    (h : Derives .declarations n (tokens.takeWhile (!·.isEof)) n' program) :
    readProgram tokens n = ⟨program, [], n', tokens.dropWhile (!·.isEof)⟩ := by
  have hread := h.readProgram_eq (kind_headD_dropWhile tokens)
  rwa [List.takeWhile_append_dropWhile] at hread

/-- A reader has nothing to complain about exactly when the tokens before the end of the source
are declarations. -/
theorem readProgram_errors_eq_nil_iff (tokens : List Token) (n : RefId) :
    (readProgram tokens n).errors = [] ↔
      ∃ n' program, Derives .declarations n (tokens.takeWhile (!·.isEof)) n' program := by
  refine ⟨fun h => ⟨_, _, derives_readProgram h⟩, ?_⟩
  rintro ⟨n', program, h⟩
  rw [h.readProgram_takeWhile]

end LoxLang
