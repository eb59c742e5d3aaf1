import LoxLang.Proofs.Syntax.Soundness

/-!
# Finished programs are taken for finished

An interactive session decides by a rule of thumb whether the lines collected so far are a whole
unit: with an opening brace the braces have to balance, and without one the last token has to be a
semicolon.  The rule knows nothing of the grammar.  It may take a broken text for finished, but it
must not wait for more where there is nothing to wait for.

That it never does follows from two facts about derivations.  In every phrase there are as many
opening as closing braces, and every declaration ends in a semicolon or in a closing brace.
-/

namespace LoxLang

/-! ## Braces -/

/-- Does every opening brace have a closing one? -/
def Balanced (ts : List Token) : Prop :=
  ts.countP (·.isMark .leftBrace) = ts.countP (·.isMark .rightBrace)

/-- Is the token neither an opening nor a closing brace? -/
def Kind.isNoBrace (k : Kind) : Bool := k ≠ .mark .leftBrace && k ≠ .mark .rightBrace

namespace Balanced

variable {t : Token} {ts us : List Token}

lemma nil : Balanced [] := rfl

lemma append (h : Balanced ts) (h' : Balanced us) : Balanced (ts ++ us) := by
  simp only [Balanced, List.countP_append] at h h' ⊢
  rw [h, h']

lemma cons (ht : t.kind.isNoBrace = true) (h : Balanced ts) : Balanced (t :: ts) := by
  simp only [Kind.isNoBrace, Bool.and_eq_true, decide_eq_true_eq] at ht
  simpa [Balanced, List.countP_cons, Token.isMark, ht.1, ht.2] using h

end Balanced

lemma isNoBrace_of_constant {t : Token} {value : Literal} (h : t.constant? = some value) :
    t.kind.isNoBrace = true := by
  unfold Token.constant? at h
  split at h <;> simp_all [Kind.isNoBrace]

lemma isNoBrace_of_isUnaryOperator {t : Token} (h : isUnaryOperator t = true) :
    t.kind.isNoBrace = true := by
  simp only [isUnaryOperator, Token.isMark, Bool.or_eq_true, decide_eq_true_eq] at h
  rcases h with h | h <;> simp [Kind.isNoBrace, h]

lemma Level.isNoBrace_of_isOperator {l : Level} {t : Token} (h : l.isOperator t = true) :
    t.kind.isNoBrace = true := by
  by_contra hbrace
  simp only [Kind.isNoBrace, Bool.and_eq_true, decide_eq_true_eq, not_and_or, not_not] at hbrace
  rcases hbrace with hbrace | hbrace <;>
    cases l <;> simp [Level.isOperator, Token.isMark, Token.isKeyword, hbrace] at h

/-- **Braces balance in every phrase.** -/
lemma Derives.balanced {p : Phrase} {n n' : RefId} {ts : List Token} {r : p.Result}
    (h : Derives p n ts n' r) : Balanced ts := by
  induction h with
  | constant ht => exact .cons (isNoBrace_of_constant ht) .nil
  | prefixed hoperator _ ih => exact .cons (isNoBrace_of_isUnaryOperator hoperator) ih
  | chain _ hoperator _ ihleft ihright =>
    exact ihleft.append (.cons (Level.isNoBrace_of_isOperator hoperator) ihright)
  | _ => simp_all [Balanced, Token.isMark]

/-! ## Ends of declarations -/

/-- Is the last token a semicolon or a closing brace? -/
def EndsClosed (ts : List Token) : Prop :=
  ∃ t, ts.getLast? = some t ∧ (t.kind = .mark .semicolon ∨ t.kind = .mark .rightBrace)

namespace EndsClosed

variable {t : Token} {ts us : List Token}

lemma semicolon (ht : t.kind = .mark .semicolon) : EndsClosed (ts ++ [t]) :=
  ⟨t, List.getLast?_concat, .inl ht⟩

lemma brace (ht : t.kind = .mark .rightBrace) : EndsClosed (ts ++ [t]) :=
  ⟨t, List.getLast?_concat, .inr ht⟩

/-- What ends closed does so whatever stands before it. -/
lemma behind (h : EndsClosed us) (ts : List Token) : EndsClosed (ts ++ us) := by
  obtain ⟨t, hlast, ht⟩ := h
  exact ⟨t, by simp [List.getLast?_append, hlast], ht⟩

lemma cons (h : EndsClosed ts) (t : Token) : EndsClosed (t :: ts) := h.behind [t]

end EndsClosed

/-- What is known of the end of a phrase: statements, functions and declarations end closed, and so
do several declarations, if there is one among them. -/
def Phrase.Closes : Phrase → List Token → Prop
  | .statement _, ts | .function, ts | .declaration, ts => EndsClosed ts
  | .declarations, ts => ts = [] ∨ EndsClosed ts
  | _, _ => True

/-- **Every declaration ends in a semicolon or a closing brace.** -/
lemma Derives.closes {p : Phrase} {n n' : RefId} {ts : List Token} {r : p.Result}
    (h : Derives p n ts n' r) : p.Closes ts := by
  induction h with
  | expressionStatement _ hsemicolon => exact .semicolon hsemicolon
  | printStatement _ _ hsemicolon | returnStatement _ _ hsemicolon =>
    exact (EndsClosed.semicolon hsemicolon).cons _
  | breakStatement _ hsemicolon =>
    have hlast : EndsClosed ([] ++ [_]) := .semicolon hsemicolon
    exact hlast.cons _
  | variableDeclaration _ _ _ hsemicolon =>
    exact ((EndsClosed.semicolon hsemicolon).cons _).cons _
  | block _ _ hright => exact (EndsClosed.brace hright).cons _
  | function _ _ _ _ _ _ hclose =>
    exact (((((EndsClosed.brace hclose).cons _).cons _).behind _).cons _).cons _
  | classDeclaration _ _ _ _ _ hright =>
    exact ((((EndsClosed.brace hright).cons _).behind _).cons _).cons _
  | ifThen _ _ _ _ _ _ ihbody | whileLoop _ _ _ _ _ _ ihbody =>
    exact (((EndsClosed.cons ihbody _).behind _).cons _).cons _
  | ifElse _ _ _ _ _ _ _ _ _ ihelse =>
    exact (((((EndsClosed.cons ihelse _).behind _).cons _).behind _).cons _).cons _
  | forLoop _ _ _ _ _ _ _ _ _ _ _ ihbody =>
    exact ((((((EndsClosed.cons ihbody _).behind _).cons _).behind _).behind _).cons _).cons _
  | functionDeclaration _ _ ih => exact EndsClosed.cons ih _
  | statement _ ih => exact ih
  | noDeclarations => exact .inl rfl
  | moreDeclarations _ _ ihfirst ihrest =>
    refine .inr ?_
    rcases ihrest with rfl | ihrest
    · rw [List.append_nil]
      exact ihfirst
    · exact ihrest.behind _
  | _ => trivial

/-! ## Whole units -/

/-- A token list that is balanced and ends closed passes the rule of thumb. -/
lemma isFinishedUnit_of_closed {ts : List Token} {e : Token} (hts : ∀ t ∈ ts, t.kind ≠ .eof)
    (he : e.kind = .eof) (hbalanced : Balanced ts) (hclosed : EndsClosed ts) :
    isFinishedUnit (ts ++ [e]) = true := by
  obtain ⟨t, hlast, ht⟩ := hclosed
  have hleft : (ts ++ [e]).countP (·.isMark .leftBrace) = ts.countP (·.isMark .leftBrace) := by
    simp [Token.isMark, he]
  have hright : (ts ++ [e]).countP (·.isMark .rightBrace) = ts.countP (·.isMark .rightBrace) := by
    simp [Token.isMark, he]
  have hbefore : (ts ++ [e]).filter (!·.isEof) = ts := by
    simpa [Token.isEof, he] using hts
  simp only [isFinishedUnit, hleft, hright, hbefore]
  split
  · exact decide_eq_true hbalanced
  · next hopened =>
    -- Without an opening brace there is no closing one, so the last token is no brace.
    rcases ht with ht | ht
    · simp [hlast, Token.isMark, ht]
    · have hmem : t ∈ ts := List.mem_of_getLast? hlast
      have hcount : 0 < ts.countP (·.isMark .rightBrace) :=
        List.countP_pos_iff.mpr ⟨t, hmem, by simp [Token.isMark, ht]⟩
      rw [Balanced] at hbalanced
      omega

/-- **A program is never held back.**  Tokens with the end of the source behind them, and nowhere
else, that are read without a complaint look like a finished unit. -/
theorem isFinishedUnit_of_errors_eq_nil {ts : List Token} {e : Token}
    (hts : ∀ t ∈ ts, t.kind ≠ .eof) (he : e.kind = .eof) (hsome : ts ≠ []) (n : RefId)
    (h : (readProgram (ts ++ [e]) n).errors = []) : isFinishedUnit (ts ++ [e]) = true := by
  have hderives := derives_readProgram h
  have hbefore : (ts ++ [e]).takeWhile (!·.isEof) = ts :=
    takeWhile_append_of_isAtEnd (c := ⟨[e], 0, n, []⟩) hts
      (by simp [Cursor.isAtEnd, Cursor.token, Token.isEof, he])
  rw [hbefore] at hderives
  rcases hderives.closes with hnone | hclosed
  · exact absurd hnone hsome
  · exact isFinishedUnit_of_closed hts he hderives.balanced hclosed

/-- The tokens of `if (a) {} else b;`, which has braces and does not end in one. -/
theorem isFinishedUnit_if_else :
    isFinishedUnit ([⟨.keyword .if_, "if", 1⟩, ⟨.mark .leftParen, "(", 1⟩, ⟨.identifier, "a", 1⟩,
      ⟨.mark .rightParen, ")", 1⟩, ⟨.mark .leftBrace, "\x7b", 1⟩, ⟨.mark .rightBrace, "\x7d", 1⟩,
      ⟨.keyword .else_, "else", 1⟩, ⟨.identifier, "b", 1⟩, ⟨.mark .semicolon, ";", 1⟩] ++
      [⟨.eof, "", 1⟩]) = true :=
  isFinishedUnit_of_errors_eq_nil (by decide) rfl (by decide) 0 (by decide +kernel)

end LoxLang
