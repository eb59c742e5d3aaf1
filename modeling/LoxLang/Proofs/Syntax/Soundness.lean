import LoxLang.Proofs.Syntax.Derivation

/-!
# What is read is derived

Every reader is described by how it ends (`Reader.Ends`): with a result, behind a part of the
tokens, or without one and then with a complaint.  If there is no complaint at all, what was read
is a derivation.  A reader without fuel fails silently, so the descriptions ask for fuel in
proportion to the tokens that are left; sixteen units for each are enough, because no more than
fifteen rules can follow each other without reading a token.

The descriptions are put together along the readers with one rule for sequencing
(`Reader.Ends.bind`), and the mutual recursion is unfolded once, from fuel `n` to fuel `n + 1`.
-/

namespace LoxLang

namespace Reader

/-! ## How readers end -/

/-- How a reader ends at a cursor.  What it has read satisfies `always`; if no complaint was made
up to its end, it satisfies `quiet` as well, which may look at the cursor behind it. -/
structure Ends {α : Type} (p : Reader α) (c : Cursor) (always : List Token → α → Prop)
    (quiet : List Token → Cursor → α → Prop) : Prop where
  ref_le : c.nextRef ≤ (p c).2.nextRef
  read : ∀ a c', p c = (some a, c') → ∃ ts, c.rest = ts ++ c'.rest ∧ always ts a ∧
    (c'.errors = [] → c.errors = [] ∧ quiet ts c' a)
  failed : ∀ c', p c = (none, c') → c'.rest <:+ c.rest ∧ c'.errors ≠ []

/-- Nothing is said about what was read. -/
abbrev anything {α : Type} : List Token → α → Prop := fun _ _ => True

namespace Ends

variable {α β : Type} {p : Reader α} {c : Cursor}

/-- A description can be weakened. -/
lemma mono {always always' : List Token → α → Prop} {quiet quiet' : List Token → Cursor → α → Prop}
    (h : p.Ends c always quiet) (halways : ∀ ts a, always ts a → always' ts a)
    (hquiet : ∀ ts c' a, quiet ts c' a → quiet' ts c' a) : p.Ends c always' quiet' where
  ref_le := h.ref_le
  read a c' hrun := by
    obtain ⟨ts, hrest, ha, hq⟩ := h.read a c' hrun
    exact ⟨ts, hrest, halways ts a ha, fun he => ⟨(hq he).1, hquiet ts c' a (hq he).2⟩⟩
  failed := h.failed

/-- **One reader behind another.**  The second is described from where the first ended, and may
take for granted what the first has read. -/
lemma bind {f : α → Reader β} {always : List Token → β → Prop}
    {quiet : List Token → Cursor → β → Prop} {always₁ : List Token → α → Prop}
    {quiet₁ : List Token → Cursor → α → Prop} (hp : p.Ends c always₁ quiet₁)
    (hf : ∀ ts a c₁, c.rest.length = ts.length + c₁.rest.length → always₁ ts a →
      (f a).Ends c₁ (fun ts' b => always (ts ++ ts') b)
        (fun ts' c₂ b => quiet₁ ts c₁ a → quiet (ts ++ ts') c₂ b)) :
    (p >>= f).Ends c always quiet := by
  rcases hrun : p c with ⟨_ | a, c₁⟩
  · have hbind : (p >>= f) c = (none, c₁) := by rw [run_bind, hrun]
    refine ⟨?_, ?_, ?_⟩
    · rw [hbind]
      simpa [hrun] using hp.ref_le
    · intro b c₂ h
      rw [hbind] at h
      simp at h
    · intro c₂ h
      rw [hbind, Prod.mk.injEq] at h
      rw [← h.2]
      exact hp.failed c₁ hrun
  · have hbind : (p >>= f) c = f a c₁ := by rw [run_bind, hrun]
    obtain ⟨ts, hrest, ha, hq⟩ := hp.read a c₁ hrun
    have hnext := hf ts a c₁ (by rw [hrest, List.length_append]) ha
    refine ⟨?_, ?_, ?_⟩
    · rw [hbind]
      exact Nat.le_trans (by simpa [hrun] using hp.ref_le) hnext.ref_le
    · intro b c₂ h
      rw [hbind] at h
      obtain ⟨ts', hrest', hb, hq'⟩ := hnext.read b c₂ h
      refine ⟨ts ++ ts', by rw [hrest, hrest', List.append_assoc], hb, fun he => ?_⟩
      obtain ⟨he₁, hquiet⟩ := hq' he
      exact ⟨(hq he₁).1, hquiet (hq he₁).2⟩
    · intro c₂ h
      rw [hbind] at h
      obtain ⟨hsuffix, he⟩ := hnext.failed c₂ h
      exact ⟨hsuffix.trans (hrest ▸ List.suffix_append ts c₁.rest), he⟩

end Ends

/-! ## The primitive readers -/

section Primitives

variable {α : Type} {c : Cursor} {always : List Token → α → Prop}
  {quiet : List Token → Cursor → α → Prop}

lemma ends_pure {a : α} (ha : always [] a) (hq : quiet [] c a) :
    (pure a : Reader α).Ends c always quiet where
  ref_le := Nat.le_refl _
  read b c' h := by
    obtain ⟨rfl, rfl⟩ : a = b ∧ c = c' := by simpa using h
    exact ⟨[], rfl, ha, fun he => ⟨he, hq⟩⟩
  failed c' h := by simp at h

lemma ends_pure_bind {β : Type} {b : β} {f : β → Reader α} (h : (f b).Ends c always quiet) :
    ((pure b : Reader β) >>= f).Ends c always quiet := ⟨h.ref_le, h.read, h.failed⟩

/-- Looking at the next token reads nothing. -/
lemma ends_peek {f : Token → Reader α} (h : (f c.token).Ends c always quiet) :
    (peek >>= f).Ends c always quiet := ⟨h.ref_le, h.read, h.failed⟩

lemma ends_check {test : Token → Bool} {f : Bool → Reader α}
    (h : (f (!c.isAtEnd && test c.token)).Ends c always quiet) :
    (check test >>= f).Ends c always quiet := ⟨h.ref_le, h.read, h.failed⟩

lemma ends_isAtEnd {f : Bool → Reader α} (h : (f c.isAtEnd).Ends c always quiet) :
    (isAtEnd >>= f).Ends c always quiet := ⟨h.ref_le, h.read, h.failed⟩

/-- A complaint that ends a reader. -/
lemma ends_complain_fail {t : Token} {cause : SyntaxCause} :
    (complain t cause >>= fun _ => (fail : Reader α)).Ends c always quiet where
  ref_le := Nat.le_refl _
  read a c' h := by simp [complain, fail] at h
  failed c' h := by
    obtain rfl : c.complain t cause = c' := by simpa [complain, fail] using h
    exact ⟨List.suffix_refl _, by simp [Cursor.complain]⟩

/-- A complaint that does not end a reader leaves nothing to be shown about a quiet end. -/
lemma ends_complain {t : Token} {cause : SyntaxCause} :
    (complain t cause).Ends c (fun ts _ => ts = []) (fun _ _ _ => False) where
  ref_le := Nat.le_refl _
  read a c' h := by
    obtain rfl : c.complain t cause = c' := by simpa [complain] using h
    exact ⟨[], rfl, rfl, by simp [Cursor.complain]⟩
  failed c' h := by simp [complain] at h

lemma ends_freshRef :
    freshRef.Ends c (fun ts _ => ts = [])
      (fun ts c' ref => ts = [] ∧ ref = c.nextRef ∧ c'.nextRef = c.nextRef + 1) where
  ref_le := Nat.le_succ _
  read ref c' h := by
    simp only [freshRef, Prod.mk.injEq, Option.some.injEq] at h
    obtain ⟨rfl, rfl⟩ := h
    exact ⟨[], rfl, rfl, fun he => ⟨he, rfl, rfl, rfl⟩⟩
  failed c' h := by simp [freshRef] at h

end Primitives

end Reader

/-! ## Moving past a token -/

namespace Cursor

variable {c : Cursor}

lemma rest_eq_of_not_isAtEnd (h : c.isAtEnd = false) : c.rest = c.token :: c.rest.tail := by
  rcases hrest : c.rest with _ | ⟨t, rest⟩
  · simp [isAtEnd, token, hrest, Token.isEof, Token.atEnd] at h
  · simp [token, hrest]

lemma isAtEnd_eq_false_of_kind {k : Kind} (h : c.token.kind = k) (hk : k ≠ .eof) :
    c.isAtEnd = false := by
  simp [isAtEnd, Token.isEof, h, hk]

@[simp] lemma nextRef_advance : c.advance.nextRef = c.nextRef := by
  unfold advance
  split <;> rfl

@[simp] lemma errors_advance : c.advance.errors = c.errors := by
  unfold advance
  split <;> rfl

lemma rest_advance (h : c.isAtEnd = false) : c.advance.rest = c.rest.tail := by
  simp [advance, h]

end Cursor

namespace Reader

section Tokens

variable {c : Cursor}

/-- Moving past a token that is not the end of the source. -/
lemma ends_advance {k : Kind} (h : c.token.kind = k) (hk : k ≠ .eof) :
    advance.Ends c (fun ts _ => ts = [c.token])
      (fun ts c' _ => ts = [c.token] ∧ c'.nextRef = c.nextRef) where
  ref_le := by simp [advance]
  read a c' hrun := by
    obtain rfl : c.advance = c' := by simpa [advance] using hrun
    have hend := Cursor.isAtEnd_eq_false_of_kind h hk
    refine ⟨[c.token], ?_, rfl, fun he => ⟨by simpa using he, rfl, by simp⟩⟩
    rw [Cursor.rest_advance hend]
    exact Cursor.rest_eq_of_not_isAtEnd hend
  failed c' hrun := by simp [advance] at hrun

/-- A token is read if it passes the test, and otherwise the cursor stays. -/
lemma ends_accept? {test : Token → Bool} :
    (accept? test).Ends c (fun ts o => ts = o.toList)
      (fun ts c' o => ts = o.toList ∧ c'.nextRef = c.nextRef ∧
        (∀ t ∈ o, t = c.token ∧ test t = true) ∧
          (o = none → c'.isAtEnd = true ∨ test c'.token = false)) where
  ref_le := by
    unfold accept?
    split <;> simp
  read o c' hrun := by
    unfold accept? at hrun
    split at hrun
    · next htest =>
      simp only [Bool.and_eq_true, Bool.not_eq_eq_eq_not, Bool.not_true] at htest
      simp only [Prod.mk.injEq, Option.some.injEq] at hrun
      obtain ⟨rfl, rfl⟩ := hrun
      refine ⟨[c.token], ?_, rfl, fun he => ⟨by simpa using he, rfl, by simp, by simp [htest.2],
        by simp⟩⟩
      rw [Cursor.rest_advance htest.1]
      exact Cursor.rest_eq_of_not_isAtEnd htest.1
    · next htest =>
      simp only [Prod.mk.injEq, Option.some.injEq] at hrun
      obtain ⟨rfl, rfl⟩ := hrun
      refine ⟨[], rfl, rfl, fun he => ⟨he, rfl, rfl, by simp, fun _ => ?_⟩⟩
      cases hend : c.isAtEnd
      · simpa [hend] using htest
      · exact .inl rfl
  failed c' hrun := by
    unfold accept? at hrun
    split at hrun <;> simp at hrun

/-- A token that has to pass the test. -/
lemma ends_expect {test : Token → Bool} {what : Expectation} :
    (expect test what).Ends c (fun ts t => ts = [t])
      (fun ts c' t => ts = [t] ∧ c'.nextRef = c.nextRef ∧ test t = true) where
  ref_le := by
    unfold expect
    split <;> simp [Cursor.complain]
  read t c' hrun := by
    unfold expect at hrun
    split at hrun
    · next htest =>
      simp only [Bool.and_eq_true, Bool.not_eq_eq_eq_not, Bool.not_true] at htest
      simp only [Prod.mk.injEq, Option.some.injEq] at hrun
      obtain ⟨rfl, rfl⟩ := hrun
      refine ⟨[c.token], ?_, rfl, fun he => ⟨by simpa using he, rfl, by simp, htest.2⟩⟩
      rw [Cursor.rest_advance htest.1]
      exact Cursor.rest_eq_of_not_isAtEnd htest.1
    · simp at hrun
  failed c' hrun := by
    unfold expect at hrun
    split at hrun
    · simp at hrun
    · obtain rfl := (Prod.mk.inj hrun).2
      exact ⟨List.suffix_refl _, by simp [Cursor.complain]⟩

lemma ends_expectMark {m : Mark} {what : Expectation} :
    (expectMark m what).Ends c (fun ts t => ts = [t])
      (fun ts c' t => ts = [t] ∧ c'.nextRef = c.nextRef ∧ t.kind = .mark m) :=
  ends_expect.mono (fun _ _ h => h)
    (fun _ _ _ ⟨hts, href, ht⟩ => ⟨hts, href, by simpa [Token.isMark] using ht⟩)

lemma ends_expectName {what : Expectation} :
    (expectName what).Ends c (fun ts t => ts = [t])
      (fun ts c' t => ts = [t] ∧ c'.nextRef = c.nextRef ∧ t.kind = .identifier) :=
  ends_expect.mono (fun _ _ h => h)
    (fun _ _ _ ⟨hts, href, ht⟩ => ⟨hts, href, by simpa [Token.isIdentifier] using ht⟩)

end Tokens

/-! ## Expressions

The numbers in the bounds on fuel rank the rules: a rule that follows another without a token
between them has a smaller rank. -/

/-- The rank of a level among the rules. -/
def operandRank : Option Level → Nat
  | some .disjunction => 9
  | some .conjunction => 8
  | some .equality => 7
  | some .comparison => 6
  | some .term => 5
  | some .factor => 4
  | none => 3

lemma operandRank_tighter (l : Level) : operandRank l.tighter? + 1 = operandRank (some l) := by
  cases l <;> rfl

lemma three_le_operandRank (level : Option Level) : 3 ≤ operandRank level := by
  rcases level with _ | l
  · decide
  · cases l <;> decide

lemma operandRank_le (level : Option Level) : operandRank level ≤ 9 := by
  rcases level with _ | l
  · decide
  · cases l <;> decide

/-- With fuel `n`, expressions are read as they are derived. -/
structure ExpressionsDerived (n : Nat) : Prop where
  expression : ∀ c : Cursor, 16 * c.rest.length + 10 ≤ n →
    (expression n).Ends c anything fun ts c' e => Derives .expression c.nextRef ts c'.nextRef e
  operand : ∀ (level : Option Level) (c : Cursor), 16 * c.rest.length + operandRank level ≤ n →
    (operand n level).Ends c anything fun ts c' e =>
      Derives (.operand level) c.nextRef ts c'.nextRef e
  chain : ∀ (l : Level) (left : Expr) (c : Cursor), 16 * c.rest.length + 1 ≤ n →
    (chain n l left).Ends c anything fun ts c' e =>
      ∀ n₀ ts₀, Derives (.operand (some l)) n₀ ts₀ c.nextRef left →
        Derives (.operand (some l)) n₀ (ts₀ ++ ts) c'.nextRef e
  unary : ∀ c : Cursor, 16 * c.rest.length + 2 ≤ n →
    (unary n).Ends c anything fun ts c' e => Derives (.operand none) c.nextRef ts c'.nextRef e
  suffixes : ∀ (first : Expr) (c : Cursor), 16 * c.rest.length + 1 ≤ n →
    (suffixes n first).Ends c anything fun ts c' e =>
      ∀ n₀ ts₀, Derives .suffixed n₀ ts₀ c.nextRef first →
        Derives .suffixed n₀ (ts₀ ++ ts) c'.nextRef e
  argumentList : ∀ c : Cursor, 16 * c.rest.length + 12 ≤ n →
    (argumentList n).Ends c anything fun ts c' es =>
      Derives .argumentList c.nextRef ts c'.nextRef es
  argumentsFrom : ∀ (count : Nat) (c : Cursor), 16 * c.rest.length + 11 ≤ n →
    (argumentsFrom n count).Ends c anything fun ts c' es =>
      Derives (.arguments count) c.nextRef ts c'.nextRef es
  primary : ∀ c : Cursor, 16 * c.rest.length + 1 ≤ n →
    (primary n).Ends c anything fun ts c' e => Derives .suffixed c.nextRef ts c'.nextRef e

section Expressions

variable {n : Nat} {c : Cursor}

lemma ends_expression (ih : ExpressionsDerived n) (hn : 16 * c.rest.length + 10 ≤ n + 1) :
    (expression (n + 1)).Ends c anything fun ts c' e =>
      Derives .expression c.nextRef ts c'.nextRef e := by
  rw [expression]
  refine Ends.bind (ih.operand _ c (by simp only [operandRank]; omega)) ?_
  intro ts target c₁ hlen _
  refine Ends.bind ends_accept? ?_
  rintro _ equals c₂ hlen₂ rfl
  rcases equals with _ | equals
  · refine ends_pure trivial ?_
    rintro ⟨_, href, _⟩ htarget
    simpa [href] using Derives.plain htarget
  · simp only [Option.toList_some, List.length_singleton] at hlen₂
    refine Ends.bind (ih.expression c₂ (by omega)) ?_
    intro ts' value c₃ _ _
    split
    · next ref name =>
      refine Ends.bind ends_freshRef ?_
      rintro _ ref' c₄ _ rfl
      refine ends_pure trivial ?_
      rintro ⟨_, href', hnext⟩ hvalue ⟨_, href, hequals, _⟩ htarget
      obtain ⟨rfl, -, hn₁, hname⟩ := htarget.variable_inv
      rw [href, hn₁] at hvalue
      simpa [href', hnext] using
        Derives.assign hname (by simpa [Token.isMark] using (hequals equals rfl).2) hvalue
    · next object name =>
      refine ends_pure trivial ?_
      rintro hvalue ⟨_, href, hequals, _⟩ htarget
      obtain ⟨ts₀, dot, rfl, hobject, hdot, hname⟩ := htarget.get_inv
      rw [href] at hvalue
      simpa using
        Derives.set hobject hdot hname (by simpa [Token.isMark] using (hequals equals rfl).2) hvalue
    · refine Ends.bind ends_complain ?_
      rintro _ _ c₄ _ rfl
      exact ends_pure trivial fun h => h.elim

lemma ends_operand (ih : ExpressionsDerived n) (level : Option Level)
    (hn : 16 * c.rest.length + operandRank level ≤ n + 1) :
    (operand (n + 1) level).Ends c anything fun ts c' e =>
      Derives (.operand level) c.nextRef ts c'.nextRef e := by
  rcases level with _ | l
  · rw [operand]
    exact ih.unary c (by simp only [operandRank] at hn; omega)
  · rw [operand]
    have hrank := operandRank_tighter l
    have hlarge := three_le_operandRank (some l)
    refine Ends.bind (ih.operand _ c (by omega)) ?_
    intro ts first c₁ hlen _
    exact (ih.chain l first c₁ (by omega)).mono (fun _ _ h => h)
      fun _ _ _ hchain hfirst => hchain _ _ (.single hfirst)

lemma ends_chain (ih : ExpressionsDerived n) (l : Level) (left : Expr)
    (hn : 16 * c.rest.length + 1 ≤ n + 1) :
    (chain (n + 1) l left).Ends c anything fun ts c' e =>
      ∀ n₀ ts₀, Derives (.operand (some l)) n₀ ts₀ c.nextRef left →
        Derives (.operand (some l)) n₀ (ts₀ ++ ts) c'.nextRef e := by
  rw [chain]
  refine Ends.bind ends_accept? ?_
  rintro _ operator c₁ hlen rfl
  rcases operator with _ | operator
  · refine ends_pure trivial ?_
    rintro ⟨_, href, _⟩ n₀ ts₀ hleft
    simpa [href] using hleft
  · simp only [Option.toList_some, List.length_singleton] at hlen
    have hrank := operandRank_le l.tighter?
    refine Ends.bind (ih.operand _ c₁ (by omega)) ?_
    intro ts right c₂ hlen₂ _
    refine (ih.chain l _ c₂ (by omega)).mono (fun _ _ h => h) ?_
    rintro ts' c' e hchain hright ⟨_, href, hoperator, _⟩ n₀ ts₀ hleft
    rw [← href] at hleft
    simpa using hchain _ _ (.chain hleft (hoperator operator rfl).2 hright)

lemma ends_unary (ih : ExpressionsDerived n) (hn : 16 * c.rest.length + 2 ≤ n + 1) :
    (unary (n + 1)).Ends c anything fun ts c' e =>
      Derives (.operand none) c.nextRef ts c'.nextRef e := by
  rw [unary]
  refine Ends.bind ends_accept? ?_
  rintro _ operator c₁ hlen rfl
  rcases operator with _ | operator
  · simp only [Option.toList_none, List.length_nil] at hlen
    refine Ends.bind (ih.primary c₁ (by omega)) ?_
    intro ts first c₂ hlen₂ _
    refine (ih.suffixes first c₂ (by omega)).mono (fun _ _ h => h) ?_
    rintro ts' c' e hsuffixes hfirst ⟨_, href, _⟩
    rw [href] at hfirst
    exact .unprefixed (hsuffixes _ _ hfirst)
  · simp only [Option.toList_some, List.length_singleton] at hlen
    refine Ends.bind (ih.unary c₁ (by omega)) ?_
    intro ts right c₂ _ _
    refine ends_pure trivial ?_
    rintro hright ⟨_, href, hoperator, _⟩
    rw [href] at hright
    simpa using Derives.prefixed (hoperator operator rfl).2 hright

lemma ends_suffixes (ih : ExpressionsDerived n) (first : Expr)
    (hn : 16 * c.rest.length + 1 ≤ n + 1) :
    (suffixes (n + 1) first).Ends c anything fun ts c' e =>
      ∀ n₀ ts₀, Derives .suffixed n₀ ts₀ c.nextRef first →
        Derives .suffixed n₀ (ts₀ ++ ts) c'.nextRef e := by
  rw [suffixes]
  refine Ends.bind ends_accept? ?_
  rintro _ left c₁ hlen rfl
  rcases left with _ | left
  · refine Ends.bind ends_accept? ?_
    rintro _ dot c₂ hlen₂ rfl
    rcases dot with _ | dot
    · refine ends_pure trivial ?_
      rintro ⟨_, href₂, _⟩ ⟨_, href, _⟩ n₀ ts₀ hfirst
      simpa [href₂, href] using hfirst
    · simp only [Option.toList_some, Option.toList_none, List.length_nil,
        List.length_singleton] at hlen hlen₂
      refine Ends.bind ends_expectName ?_
      rintro _ name c₃ hlen₃ rfl
      simp only [List.length_singleton] at hlen₃
      refine (ih.suffixes _ c₃ (by omega)).mono (fun _ _ h => h) ?_
      rintro ts c' e hsuffixes ⟨_, href₃, hname⟩ ⟨_, href₂, hdot, _⟩ ⟨_, href, _⟩ n₀ ts₀ hfirst
      rw [← href, ← href₂, ← href₃] at hfirst
      simpa using hsuffixes _ _
        (.get hfirst (by simpa [Token.isMark] using (hdot dot rfl).2) hname)
  · simp only [Option.toList_some, List.length_singleton] at hlen
    refine Ends.bind (ih.argumentList c₁ (by omega)) ?_
    intro args arguments c₂ hlen₂ _
    refine Ends.bind ends_expectMark ?_
    rintro _ paren c₃ hlen₃ rfl
    refine (ih.suffixes _ c₃ (by omega)).mono (fun _ _ h => h) ?_
    rintro ts c' e hsuffixes ⟨_, href₃, hparen⟩ harguments ⟨_, href, hleft, _⟩ n₀ ts₀ hfirst
    rw [← href] at hfirst
    have hcall := Derives.call hfirst (by simpa [Token.isMark] using (hleft left rfl).2) harguments
      hparen
    rw [← href₃] at hcall
    simpa using hsuffixes _ _ hcall

lemma ends_argumentList (ih : ExpressionsDerived n) (hn : 16 * c.rest.length + 12 ≤ n + 1) :
    (argumentList (n + 1)).Ends c anything fun ts c' es =>
      Derives .argumentList c.nextRef ts c'.nextRef es := by
  rw [argumentList]
  refine ends_check ?_
  split
  · exact ends_pure trivial .noArguments
  · exact (ih.argumentsFrom 0 c (by omega)).mono (fun _ _ h => h)
      fun _ _ _ h => .someArguments h

/-- An entry of a list, with the entries behind a comma if there is one. -/
def entries {α : Type} (first : Reader α) (others : Reader (List α)) : Reader (List α) := do
  let first ← first
  match ← accept? (·.isMark .comma) with
  | some _ =>
    let others ← others
    pure (first :: others)
  | none => pure [first]

lemma ends_argumentsFrom (ih : ExpressionsDerived n) (count : Nat)
    (hn : 16 * c.rest.length + 11 ≤ n + 1) :
    (argumentsFrom (n + 1) count).Ends c anything fun ts c' es =>
      Derives (.arguments count) c.nextRef ts c'.nextRef es := by
  -- What follows the check of the number of arguments, which is the same with a complaint.
  have hentries : ∀ c₀ : Cursor, c₀.rest.length = c.rest.length →
      (entries (expression n) (argumentsFrom n (count + 1))).Ends c₀ anything fun ts c' es =>
        count < maxArity → Derives (.arguments count) c₀.nextRef ts c'.nextRef es := by
    intro c₀ hc₀
    unfold entries
    refine Ends.bind (ih.expression c₀ (by omega)) ?_
    intro ts first c₁ hlen _
    refine Ends.bind ends_accept? ?_
    rintro _ comma c₂ hlen₂ rfl
    rcases comma with _ | comma
    · refine ends_pure trivial ?_
      rintro ⟨_, href, _⟩ hfirst hcount
      simpa [href] using Derives.lastArgument hcount hfirst
    · simp only [Option.toList_some, List.length_singleton] at hlen₂
      refine Ends.bind (ih.argumentsFrom (count + 1) c₂ (by omega)) ?_
      intro ts' others c₃ _ _
      refine ends_pure trivial ?_
      rintro hothers ⟨_, href, hcomma, _⟩ hfirst hcount
      rw [href] at hothers
      simpa using
        Derives.moreArguments hcount hfirst
          (by simpa [Token.isMark] using (hcomma comma rfl).2) hothers
  rw [argumentsFrom]
  split
  · refine ends_peek (Ends.bind ends_complain ?_)
    rintro _ _ c₁ hlen rfl
    exact (hentries c₁ (by simpa using hlen.symm)).mono (fun _ _ h => h) fun _ _ _ _ h => h.elim
  · next hcount => exact (hentries c rfl).mono (fun _ _ h => h) fun _ _ _ h => h (by omega)

/-- A constant is one token. -/
lemma ends_constant {value : Literal} (h : c.token.constant? = some value) :
    (advance >>= fun _ => pure (.literal value) : Reader Expr).Ends c anything fun ts c' e =>
      Derives .suffixed c.nextRef ts c'.nextRef e := by
  have hstart := Token.startsExpression_of_constant h
  refine Ends.bind (ends_advance rfl (Kind.ne_eof_of_startsExpression hstart)) ?_
  rintro _ _ c₁ _ rfl
  refine ends_pure trivial ?_
  rintro ⟨_, href⟩
  simpa [href] using Derives.constant h

lemma ends_primary (ih : ExpressionsDerived n) (hn : 16 * c.rest.length + 1 ≤ n + 1) :
    (primary (n + 1)).Ends c anything fun ts c' e =>
      Derives .suffixed c.nextRef ts c'.nextRef e := by
  rw [primary]
  refine ends_peek ?_
  split
  · next h => exact ends_constant (by simp [Token.constant?, h])
  · next h => exact ends_constant (by simp [Token.constant?, h])
  · next h => exact ends_constant (by simp [Token.constant?, h])
  · next h => exact ends_constant (by simp [Token.constant?, h])
  · next h => exact ends_constant (by simp [Token.constant?, h])
  · next h =>
    refine Ends.bind (ends_advance h (by simp)) ?_
    rintro _ _ c₁ _ rfl
    refine Ends.bind ends_freshRef ?_
    rintro _ ref c₂ _ rfl
    refine ends_pure trivial ?_
    rintro ⟨_, href₂, hnext⟩ ⟨_, href⟩
    simpa [href₂, hnext, href] using Derives.this h
  · next h =>
    refine Ends.bind (ends_advance h (by simp)) ?_
    rintro _ _ c₁ _ rfl
    refine Ends.bind ends_expectMark ?_
    rintro _ dot c₂ _ rfl
    refine Ends.bind ends_expectName ?_
    rintro _ method c₃ _ rfl
    refine Ends.bind ends_freshRef ?_
    rintro _ ref c₄ _ rfl
    refine ends_pure trivial ?_
    rintro ⟨_, href₄, hnext⟩ ⟨_, href₃, hmethod⟩ ⟨_, href₂, hdot⟩ ⟨_, href⟩
    simpa [href₄, hnext, href₃, href₂, href] using Derives.super h hdot hmethod
  · next h =>
    refine Ends.bind (ends_advance h (by simp)) ?_
    rintro _ _ c₁ _ rfl
    refine Ends.bind ends_freshRef ?_
    rintro _ ref c₂ _ rfl
    refine ends_pure trivial ?_
    rintro ⟨_, href₂, hnext⟩ ⟨_, href⟩
    simpa [href₂, hnext, href] using Derives.name h
  · next h =>
    refine Ends.bind (ends_advance h (by simp)) ?_
    rintro _ _ c₁ hlen rfl
    simp only [List.length_singleton] at hlen
    refine Ends.bind (ih.expression c₁ (by omega)) ?_
    intro ts inner c₂ _ _
    refine Ends.bind ends_expectMark ?_
    rintro _ right c₃ _ rfl
    refine ends_pure trivial ?_
    rintro ⟨_, href₃, hright⟩ hinner ⟨_, href⟩
    rw [href] at hinner
    simpa [href₃] using Derives.grouping h hinner hright
  · exact ends_complain_fail

end Expressions

/-- **Expressions are read as they are derived.** -/
lemma expressionsDerived (n : Nat) : ExpressionsDerived n := by
  induction n with
  | zero =>
    constructor
    case operand =>
      intro level c hn
      have hrank := three_le_operandRank level
      omega
    all_goals intros; omega
  | succ n ih =>
    exact {
      expression := fun _ hn => ends_expression ih hn
      operand := fun level _ hn => ends_operand ih level hn
      chain := fun l left _ hn => ends_chain ih l left hn
      unary := fun _ hn => ends_unary ih hn
      suffixes := fun first _ hn => ends_suffixes ih first hn
      argumentList := fun _ hn => ends_argumentList ih hn
      argumentsFrom := fun count _ hn => ends_argumentsFrom ih count hn
      primary := fun _ hn => ends_primary ih hn }

/-! ## Recovery -/

end Reader

namespace Cursor

variable {c : Cursor}

@[simp] lemma errors_skipToStatement : c.skipToStatement.errors = c.errors := by
  unfold skipToStatement
  split
  · rfl
  · split <;> rfl

@[simp] lemma nextRef_skipToStatement : c.skipToStatement.nextRef = c.nextRef := by
  unfold skipToStatement
  split
  · rfl
  · split <;> rfl

/-- Recovery moves forward, by a token at least unless it starts at the end of the source. -/
lemma exists_skipped (c : Cursor) : ∃ ts, c.rest = ts ++ c.skipToStatement.rest ∧
    (c.isAtEnd = false → ts ≠ []) := by
  unfold skipToStatement
  split
  · next h => exact ⟨[], rfl, by simp [isAtEnd, token, h, Token.isEof, Token.atEnd]⟩
  · next t rest h =>
    split
    · next ht => exact ⟨[], rfl, by simp [isAtEnd, token, h, ht]⟩
    · refine ⟨t :: rest.take (skipCount t rest), ?_, by simp⟩
      rw [h, List.cons_append, List.take_append_drop]

lemma isAtEnd_of_rest {c' : Cursor} (h : c.rest = c'.rest) : c.isAtEnd = c'.isAtEnd := by
  simp [isAtEnd, token, h]

end Cursor

namespace Reader

/-- A declaration that fails is left out, and reading goes on behind it. -/
lemma ends_recover {α : Type} {p : Reader α} {c : Cursor} {quiet : List Token → Cursor → α → Prop}
    (h : p.Ends c (fun ts _ => ts ≠ []) quiet) :
    (recover p).Ends c (fun ts _ => c.isAtEnd = false → ts ≠ [])
      (fun ts c' o => ∃ a, o = some a ∧ quiet ts c' a) := by
  rcases hrun : p c with ⟨_ | a, c₁⟩
  · have hrecover : recover p c = (some none, c₁.skipToStatement) := by simp [recover, hrun]
    obtain ⟨⟨before, hbefore⟩, he⟩ := h.failed c₁ hrun
    obtain ⟨skipped, hskipped, hne⟩ := c₁.exists_skipped
    refine ⟨?_, ?_, ?_⟩
    · rw [hrecover]
      simpa [hrun] using h.ref_le
    · intro o c' ho
      rw [hrecover] at ho
      simp only [Prod.mk.injEq, Option.some.injEq] at ho
      obtain ⟨rfl, rfl⟩ := ho
      refine ⟨before ++ skipped, ?_, fun hend => ?_, fun hquiet => ?_⟩
      · rw [List.append_assoc, ← hskipped, hbefore]
      · intro hnil
        obtain ⟨rfl, rfl⟩ := List.append_eq_nil_iff.1 hnil
        exact hne (by rw [Cursor.isAtEnd_of_rest hbefore, hend]) rfl
      · rw [Cursor.errors_skipToStatement] at hquiet
        exact absurd hquiet he
    · intro c' ho
      rw [hrecover] at ho
      simp at ho
  · have hrecover : recover p c = (some (some a), c₁) := by simp [recover, hrun]
    obtain ⟨ts, hrest, hts, hquiet⟩ := h.read a c₁ hrun
    refine ⟨?_, ?_, ?_⟩
    · rw [hrecover]
      simpa [hrun] using h.ref_le
    · intro o c' ho
      rw [hrecover] at ho
      simp only [Prod.mk.injEq, Option.some.injEq] at ho
      obtain ⟨rfl, rfl⟩ := ho
      exact ⟨ts, hrest, fun _ => hts, fun he => ⟨(hquiet he).1, a, rfl, (hquiet he).2⟩⟩
    · intro c' ho
      rw [hrecover] at ho
      simp at ho

/-! ## Clauses of statements and declarations -/

section Clauses

variable {n : Nat} {c : Cursor}

lemma ends_expressionUnless (m : Mark) (hn : 16 * c.rest.length + 10 ≤ n) :
    (expressionUnless n m).Ends c anything fun ts c' o =>
      Derives .optionalExpression c.nextRef ts c'.nextRef o := by
  unfold expressionUnless
  refine ends_check ?_
  split
  · exact ends_pure trivial .absent
  · refine Ends.bind ((expressionsDerived n).expression c hn) ?_
    intro ts e c₁ _ _
    exact ends_pure trivial fun he => by simpa using Derives.present he

lemma ends_expressionStatement (hn : 16 * c.rest.length + 10 ≤ n) :
    (expressionStatement n).Ends c (fun ts _ => ts ≠ []) fun ts c' s =>
      ∃ e ts₁ semicolon, s = .expression e ∧ ts = ts₁ ++ [semicolon] ∧
        Derives .expression c.nextRef ts₁ c'.nextRef e ∧ semicolon.kind = .mark .semicolon := by
  unfold expressionStatement
  refine Ends.bind ((expressionsDerived n).expression c hn) ?_
  intro ts e c₁ _ _
  refine Ends.bind ends_expectMark ?_
  rintro _ semicolon c₂ _ rfl
  refine ends_pure (by simp) ?_
  rintro ⟨_, href, hsemicolon⟩ he
  exact ⟨e, ts, semicolon, rfl, by simp, href ▸ he, hsemicolon⟩

lemma ends_varDeclaration (hn : 16 * c.rest.length + 10 ≤ n) :
    (varDeclaration n).Ends c (fun ts _ => ts ≠ []) fun ts c' s =>
      ∃ name ts₁ value semicolon, s = .var name value ∧ ts = name :: (ts₁ ++ [semicolon]) ∧
        name.kind = .identifier ∧ Derives .initializer c.nextRef ts₁ c'.nextRef value ∧
        semicolon.kind = .mark .semicolon := by
  unfold varDeclaration
  refine Ends.bind ends_expectName ?_
  rintro _ name c₁ hlen rfl
  simp only [List.length_singleton] at hlen
  refine Ends.bind ends_accept? ?_
  rintro _ equals c₂ hlen₂ rfl
  rcases equals with _ | equals
  · refine ends_pure_bind (Ends.bind ends_expectMark ?_)
    rintro _ semicolon c₃ _ rfl
    refine ends_pure (by simp) ?_
    rintro ⟨_, href₃, hsemicolon⟩ ⟨_, href₂, _⟩ ⟨_, href, hname⟩
    refine ⟨name, [], none, semicolon, rfl, by simp, hname, ?_, hsemicolon⟩
    rw [href₃, href₂, href]
    exact .noInitializer
  · refine Ends.bind ((expressionsDerived n).expression c₂ (by omega)) ?_
    intro ts e c₃ _ _
    refine ends_pure_bind (Ends.bind ends_expectMark ?_)
    rintro _ semicolon c₄ _ rfl
    refine ends_pure (by simp) ?_
    rintro ⟨_, href₄, hsemicolon⟩ he ⟨_, href₂, hequals, _⟩ ⟨_, href, hname⟩
    refine ⟨name, equals :: ts, some e, semicolon, rfl, by simp, hname, ?_, hsemicolon⟩
    rw [href₂, href, ← href₄] at he
    exact .someInitializer (by simpa [Token.isMark] using (hequals equals rfl).2) he

lemma ends_printStatement (hn : 16 * c.rest.length + 10 ≤ n) :
    (printStatement n).Ends c anything fun ts c' s =>
      ∀ keyword : Token, keyword.kind = .keyword .print_ →
        Derives (.statement false) c.nextRef (keyword :: ts) c'.nextRef s := by
  unfold printStatement
  refine Ends.bind ((expressionsDerived n).expression c hn) ?_
  intro ts e c₁ _ _
  refine Ends.bind ends_expectMark ?_
  rintro _ semicolon c₂ _ rfl
  refine ends_pure trivial ?_
  rintro ⟨_, href, hsemicolon⟩ he keyword hkeyword
  simpa [href] using Derives.printStatement hkeyword he hsemicolon

lemma ends_returnStatement (hn : 16 * c.rest.length + 10 ≤ n) (keyword : Token) :
    (returnStatement n keyword).Ends c anything fun ts c' s =>
      keyword.kind = .keyword .return_ →
        Derives (.statement false) c.nextRef (keyword :: ts) c'.nextRef s := by
  unfold returnStatement
  refine Ends.bind (ends_expressionUnless .semicolon hn) ?_
  intro ts value c₁ _ _
  refine Ends.bind ends_expectMark ?_
  rintro _ semicolon c₂ _ rfl
  refine ends_pure trivial ?_
  rintro ⟨_, href, hsemicolon⟩ hvalue hkeyword
  simpa [href] using Derives.returnStatement hkeyword hvalue hsemicolon

lemma ends_breakStatement (keyword : Token) :
    (breakStatement keyword).Ends c anything fun ts c' s =>
      keyword.kind = .keyword .break_ →
        Derives (.statement false) c.nextRef (keyword :: ts) c'.nextRef s := by
  unfold breakStatement
  refine Ends.bind ends_expectMark ?_
  rintro _ semicolon c₁ _ rfl
  refine ends_pure trivial ?_
  rintro ⟨_, href, hsemicolon⟩ hkeyword
  simpa [href] using Derives.breakStatement hkeyword hsemicolon

lemma ends_forInitializer (hn : 16 * c.rest.length + 10 ≤ n) :
    (forInitializer n).Ends c anything fun ts c' o =>
      Derives .forInitializer c.nextRef ts c'.nextRef o := by
  unfold forInitializer
  refine Ends.bind ends_accept? ?_
  rintro _ semicolon c₁ hlen rfl
  rcases semicolon with _ | semicolon
  · refine Ends.bind ends_accept? ?_
    rintro _ keyword c₂ hlen₂ rfl
    simp only [Option.toList_none, List.length_nil] at hlen
    rcases keyword with _ | keyword
    · simp only [Option.toList_none, List.length_nil] at hlen₂
      refine Ends.bind (ends_expressionStatement (by omega)) ?_
      intro ts s c₃ _ _
      refine ends_pure trivial ?_
      rintro ⟨e, ts₁, semicolon, hs, hts, he, hsemicolon⟩ ⟨_, href₂, _⟩ ⟨_, href, _⟩
      rw [href₂, href] at he
      simpa [hs, hts] using Derives.forExpression he hsemicolon
    · refine Ends.bind (ends_varDeclaration (by omega)) ?_
      intro ts s c₃ _ _
      refine ends_pure trivial ?_
      rintro ⟨name, ts₁, value, semicolon, hs, hts, hname, hvalue, hsemicolon⟩
        ⟨_, href₂, hkeyword, _⟩ ⟨_, href, _⟩
      rw [href₂, href] at hvalue
      simpa [hs, hts] using Derives.forVariable
        (by simpa [Token.isKeyword] using (hkeyword keyword rfl).2) hname hvalue hsemicolon
  · refine ends_pure trivial ?_
    rintro ⟨_, href, hsemicolon, _⟩
    simpa [href] using
      Derives.forNothing (by simpa [Token.isMark] using (hsemicolon semicolon rfl).2)

lemma ends_parametersFrom (count : Nat) (hn : 16 * c.rest.length + 1 ≤ n) :
    (parametersFrom n count).Ends c anything fun ts c' params =>
      Derives (.parameters count) c.nextRef ts c'.nextRef params := by
  induction n generalizing c count with
  | zero => omega
  | succ n ih =>
    have hentries : ∀ c₀ : Cursor, c₀.rest.length = c.rest.length →
        (entries (expectName .parameterName) (parametersFrom n (count + 1))).Ends c₀ anything
          fun ts c' params =>
            count < maxArity → Derives (.parameters count) c₀.nextRef ts c'.nextRef params := by
      intro c₀ hc₀
      unfold entries
      refine Ends.bind ends_expectName ?_
      rintro _ name c₁ hlen rfl
      simp only [List.length_singleton] at hlen
      refine Ends.bind ends_accept? ?_
      rintro _ comma c₂ hlen₂ rfl
      rcases comma with _ | comma
      · refine ends_pure trivial ?_
        rintro ⟨_, href₂, _⟩ ⟨_, href, hname⟩ hcount
        simpa [href₂, href] using Derives.lastParameter hcount hname
      · refine Ends.bind (ih (count + 1) (by omega)) ?_
        intro ts others c₃ _ _
        refine ends_pure trivial ?_
        rintro hothers ⟨_, href₂, hcomma, _⟩ ⟨_, href, hname⟩ hcount
        rw [href₂, href] at hothers
        simpa using Derives.moreParameters hcount hname
          (by simpa [Token.isMark] using (hcomma comma rfl).2) hothers
    rw [parametersFrom]
    split
    · refine ends_peek (Ends.bind ends_complain ?_)
      rintro _ _ c₁ hlen rfl
      exact (hentries c₁ (by simpa using hlen.symm)).mono (fun _ _ h => h) fun _ _ _ _ h => h.elim
    · next hcount => exact (hentries c rfl).mono (fun _ _ h => h) fun _ _ _ h => h (by omega)

lemma ends_parameterList (hn : 16 * c.rest.length + 1 ≤ n) :
    (parameterList n).Ends c anything fun ts c' params =>
      Derives .parameterList c.nextRef ts c'.nextRef params := by
  unfold parameterList
  refine ends_check ?_
  split
  · exact ends_pure trivial .noParameters
  · exact (ends_parametersFrom 0 hn).mono (fun _ _ h => h) fun _ _ _ h => .someParameters h

end Clauses

/-! ## Statements and declarations -/

/-- A statement was derived.  If it is open, it was read up to a place where no `else` stands. -/
def StatementDerived (n : RefId) (ts : List Token) (c : Cursor) (s : Stmt) : Prop :=
  ∃ isOpen, Derives (.statement isOpen) n ts c.nextRef s ∧
    (isOpen = true → c.token.isKeyword .else_ = false)

/-- With fuel `n`, statements and declarations are read as they are derived. -/
structure DeclarationsDerived (n : Nat) : Prop where
  declaration : ∀ c : Cursor, 16 * c.rest.length + 13 ≤ n →
    (declaration n).Ends c (fun ts _ => c.isAtEnd = false → ts ≠ []) fun ts c' o =>
      ∃ s, o = some s ∧ Derives .declaration c.nextRef ts c'.nextRef s
  declarationRule : ∀ c : Cursor, 16 * c.rest.length + 12 ≤ n →
    (declarationRule n).Ends c (fun ts _ => ts ≠ []) fun ts c' s =>
      Derives .declaration c.nextRef ts c'.nextRef s
  classDeclaration : ∀ c : Cursor, 16 * c.rest.length + 1 ≤ n →
    (classDeclaration n).Ends c anything fun ts c' s =>
      ∀ keyword : Token, keyword.kind = .keyword .class_ →
        Derives .declaration c.nextRef (keyword :: ts) c'.nextRef s
  methodList : ∀ c : Cursor, 16 * c.rest.length + 2 ≤ n →
    (methodList n).Ends c anything fun ts c' methods =>
      Derives .methods c.nextRef ts c'.nextRef methods
  function : ∀ (role : Role) (c : Cursor), 16 * c.rest.length + 1 ≤ n →
    (function n role).Ends c (fun ts _ => ts ≠ []) fun ts c' decl =>
      Derives .function c.nextRef ts c'.nextRef decl
  block : ∀ c : Cursor, 16 * c.rest.length + 15 ≤ n →
    (block n).Ends c anything fun ts c' body =>
      ∃ ts₁ right, ts = ts₁ ++ [right] ∧ Derives .declarations c.nextRef ts₁ c'.nextRef body ∧
        right.kind = .mark .rightBrace
  blockItems : ∀ c : Cursor, 16 * c.rest.length + 14 ≤ n →
    (blockItems n).Ends c anything fun ts c' body =>
      Derives .declarations c.nextRef ts c'.nextRef body
  statement : ∀ c : Cursor, 16 * c.rest.length + 11 ≤ n →
    (statement n).Ends c (fun ts _ => ts ≠ []) fun ts c' s => StatementDerived c.nextRef ts c' s
  forStatement : ∀ c : Cursor, 16 * c.rest.length + 1 ≤ n →
    (forStatement n).Ends c anything fun ts c' s =>
      ∀ keyword : Token, keyword.kind = .keyword .for_ →
        StatementDerived c.nextRef (keyword :: ts) c' s
  ifStatement : ∀ c : Cursor, 16 * c.rest.length + 1 ≤ n →
    (ifStatement n).Ends c anything fun ts c' s =>
      ∀ keyword : Token, keyword.kind = .keyword .if_ →
        StatementDerived c.nextRef (keyword :: ts) c' s
  whileStatement : ∀ c : Cursor, 16 * c.rest.length + 1 ≤ n →
    (whileStatement n).Ends c anything fun ts c' s =>
      ∀ keyword : Token, keyword.kind = .keyword .while_ →
        StatementDerived c.nextRef (keyword :: ts) c' s

section Declarations

variable {n : Nat} {c : Cursor}

/-- A statement that is not open may stand before anything. -/
lemma StatementDerived.ofClosed {n₀ : RefId} {ts : List Token} {c' : Cursor} {s : Stmt}
    (h : Derives (.statement false) n₀ ts c'.nextRef s) : StatementDerived n₀ ts c' s :=
  ⟨false, h, by simp⟩

/-- A keyword and what follows it. -/
lemma ends_keyword {α : Type} {k : Kind} (h : c.token.kind = k) (hk : k ≠ .eof) {p : Reader α}
    {quiet : List Token → Cursor → α → Prop}
    (hp : ∀ c₁ : Cursor, c.rest.length = 1 + c₁.rest.length → p.Ends c₁ anything
      fun ts c' a => c₁.nextRef = c.nextRef → quiet (c.token :: ts) c' a) :
    (advance >>= fun _ => p).Ends c (fun ts _ => ts ≠ []) quiet := by
  refine Ends.bind (ends_advance h hk) ?_
  rintro _ _ c₁ hlen rfl
  refine (hp c₁ (by simpa using hlen)).mono (by simp) ?_
  exact fun _ _ _ hquiet ⟨_, href⟩ => hquiet href

lemma ends_declaration (ih : DeclarationsDerived n) (hn : 16 * c.rest.length + 13 ≤ n + 1) :
    (declaration (n + 1)).Ends c (fun ts _ => c.isAtEnd = false → ts ≠ []) fun ts c' o =>
      ∃ s, o = some s ∧ Derives .declaration c.nextRef ts c'.nextRef s := by
  rw [declaration]
  exact ends_recover (ih.declarationRule c (by omega))

lemma ends_declarationRule (ih : DeclarationsDerived n) (hn : 16 * c.rest.length + 12 ≤ n + 1) :
    (declarationRule (n + 1)).Ends c (fun ts _ => ts ≠ []) fun ts c' s =>
      Derives .declaration c.nextRef ts c'.nextRef s := by
  rw [declarationRule]
  refine ends_peek ?_
  split
  · next h =>
    refine ends_keyword h (by simp) fun c₁ hlen => ?_
    exact (ih.classDeclaration c₁ (by omega)).mono (fun _ _ h => h)
      fun _ _ _ hs href => href ▸ hs c.token h
  · next h =>
    refine ends_keyword h (by simp) fun c₁ hlen => ?_
    refine Ends.bind (ih.function _ c₁ (by omega)) ?_
    intro ts decl c₂ _ _
    refine ends_pure trivial fun hdecl href => ?_
    rw [href] at hdecl
    simpa using Derives.functionDeclaration h hdecl
  · next h =>
    refine ends_keyword h (by simp) fun c₁ hlen => ?_
    refine (ends_varDeclaration (by omega)).mono (fun _ _ _ => trivial) ?_
    rintro _ c' _ ⟨name, ts₁, value, semicolon, rfl, rfl, hname, hvalue, hsemicolon⟩ href
    rw [href] at hvalue
    exact .variableDeclaration h hname hvalue hsemicolon
  · exact (ih.statement c (by omega)).mono (fun _ _ h => h) fun _ _ _ ⟨_, hs, _⟩ => .statement hs

lemma ends_classDeclaration (ih : DeclarationsDerived n) (hn : 16 * c.rest.length + 1 ≤ n + 1) :
    (classDeclaration (n + 1)).Ends c anything fun ts c' s =>
      ∀ keyword : Token, keyword.kind = .keyword .class_ →
        Derives .declaration c.nextRef (keyword :: ts) c'.nextRef s := by
  -- What follows the name of the class and that of its superclass.
  have hbody : ∀ (name : Token) (superclass : Option Expr) (c₀ : Cursor),
      c₀.rest.length + 1 ≤ c.rest.length →
      (do
        let _ ← expectMark .leftBrace .classBody
        let methods ← methodList n
        let _ ← expectMark .rightBrace .classEnd
        pure (.classDecl name superclass methods) : Reader Stmt).Ends c₀ anything fun ts c' s =>
          ∀ n₀ ts₀ (keyword : Token), keyword.kind = .keyword .class_ → name.kind = .identifier →
            Derives .superclass n₀ ts₀ c₀.nextRef superclass →
              Derives .declaration n₀ (keyword :: name :: (ts₀ ++ ts)) c'.nextRef s := by
    intro name superclass c₀ hc₀
    refine Ends.bind ends_expectMark ?_
    rintro _ left c₁ hlen rfl
    simp only [List.length_singleton] at hlen
    refine Ends.bind (ih.methodList c₁ (by omega)) ?_
    intro ts methods c₂ _ _
    refine Ends.bind ends_expectMark ?_
    rintro _ right c₃ _ rfl
    refine ends_pure trivial ?_
    rintro ⟨_, href₃, hright⟩ hmethods ⟨_, href, hleft⟩ n₀ ts₀ keyword hkeyword hname hsuperclass
    rw [← href] at hsuperclass
    simpa [href₃] using
      Derives.classDeclaration hkeyword hname hsuperclass hleft hmethods hright
  rw [classDeclaration]
  refine Ends.bind ends_expectName ?_
  rintro _ name c₁ hlen rfl
  simp only [List.length_singleton] at hlen
  refine Ends.bind ends_accept? ?_
  rintro _ less c₂ hlen₂ rfl
  rcases less with _ | less
  · refine ends_pure_bind ((hbody name none c₂ (by omega)).mono (fun _ _ h => h) ?_)
    rintro ts c' s hs ⟨_, href₂, _⟩ ⟨_, href, hname⟩ keyword hkeyword
    rw [← href, ← href₂]
    exact hs _ [] keyword hkeyword hname .noSuperclass
  · refine Ends.bind ends_expectName ?_
    rintro _ parent c₃ hlen₃ rfl
    refine Ends.bind ends_freshRef ?_
    rintro _ ref c₄ hlen₄ rfl
    simp only [List.length_nil] at hlen₄
    refine ends_pure_bind ((hbody name _ c₄ (by omega)).mono (fun _ _ h => h) ?_)
    rintro ts c' s hs ⟨_, href₄, hnext⟩ ⟨_, href₃, hparent⟩ ⟨_, href₂, hless, _⟩ ⟨_, href, hname⟩
      keyword hkeyword
    rw [← href, ← href₂, ← href₃]
    refine hs _ [less, parent] keyword hkeyword hname ?_
    rw [href₄, hnext]
    exact .someSuperclass (by simpa [Token.isMark] using (hless less rfl).2) hparent

lemma ends_methodList (ih : DeclarationsDerived n) (hn : 16 * c.rest.length + 2 ≤ n + 1) :
    (methodList (n + 1)).Ends c anything fun ts c' methods =>
      Derives .methods c.nextRef ts c'.nextRef methods := by
  rw [methodList]
  refine ends_check (ends_isAtEnd ?_)
  split
  · exact ends_pure trivial .noMethods
  · refine Ends.bind (ih.function _ c (by omega)) ?_
    intro ts first c₁ hlen hts
    have := List.length_pos_iff.2 hts
    refine Ends.bind (ih.methodList c₁ (by omega)) ?_
    intro ts' others c₂ _ _
    exact ends_pure trivial fun hothers hfirst => by
      simpa using Derives.moreMethods hfirst hothers

lemma ends_function (ih : DeclarationsDerived n) (role : Role)
    (hn : 16 * c.rest.length + 1 ≤ n + 1) :
    (function (n + 1) role).Ends c (fun ts _ => ts ≠ []) fun ts c' decl =>
      Derives .function c.nextRef ts c'.nextRef decl := by
  rw [function]
  refine Ends.bind ends_expectName ?_
  rintro _ name c₁ hlen rfl
  refine Ends.bind ends_expectMark ?_
  rintro _ left c₂ hlen₂ rfl
  simp only [List.length_singleton] at hlen hlen₂
  refine Ends.bind (ends_parameterList (by omega)) ?_
  intro ts params c₃ hlen₃ _
  refine Ends.bind ends_expectMark ?_
  rintro _ right c₄ hlen₄ rfl
  refine Ends.bind ends_expectMark ?_
  rintro _ brace c₅ hlen₅ rfl
  simp only [List.length_singleton] at hlen₄ hlen₅
  refine Ends.bind (ih.block c₅ (by omega)) ?_
  intro rest body c₆ _ _
  refine ends_pure (by simp) ?_
  rintro ⟨ts₁, close, hrest, hbody, hclose⟩ ⟨_, href₅, hbrace⟩ ⟨_, href₄, hright⟩ hparams
    ⟨_, href₂, hleft⟩ ⟨_, href, hname⟩
  rw [href₂, href] at hparams
  rw [href₅, href₄] at hbody
  simpa [hrest] using Derives.function hname hleft hparams hright hbrace hbody hclose

lemma ends_block (ih : DeclarationsDerived n) (hn : 16 * c.rest.length + 15 ≤ n + 1) :
    (block (n + 1)).Ends c anything fun ts c' body =>
      ∃ ts₁ right, ts = ts₁ ++ [right] ∧ Derives .declarations c.nextRef ts₁ c'.nextRef body ∧
        right.kind = .mark .rightBrace := by
  rw [block]
  refine Ends.bind (ih.blockItems c (by omega)) ?_
  intro ts body c₁ _ _
  refine Ends.bind ends_expectMark ?_
  rintro _ right c₂ _ rfl
  exact ends_pure trivial fun ⟨_, href, hright⟩ hbody =>
    ⟨ts, right, by simp, href ▸ hbody, hright⟩

lemma ends_blockItems (ih : DeclarationsDerived n) (hn : 16 * c.rest.length + 14 ≤ n + 1) :
    (blockItems (n + 1)).Ends c anything fun ts c' body =>
      Derives .declarations c.nextRef ts c'.nextRef body := by
  rw [blockItems]
  refine ends_check (ends_isAtEnd ?_)
  split
  · exact ends_pure trivial .noDeclarations
  · next hopen =>
    simp only [Bool.or_eq_true, not_or, Bool.not_eq_true] at hopen
    refine Ends.bind (ih.declaration c (by omega)) ?_
    intro ts first c₁ hlen hts
    have := List.length_pos_iff.2 (hts hopen.2)
    refine Ends.bind (ih.blockItems c₁ (by omega)) ?_
    intro ts' others c₂ _ _
    refine ends_pure trivial ?_
    rintro hothers ⟨s, hfirst, hs⟩
    simpa [hfirst] using Derives.moreDeclarations hs hothers

lemma ends_statement (ih : DeclarationsDerived n) (hn : 16 * c.rest.length + 11 ≤ n + 1) :
    (statement (n + 1)).Ends c (fun ts _ => ts ≠ []) fun ts c' s =>
      StatementDerived c.nextRef ts c' s := by
  rw [statement]
  refine ends_peek ?_
  split
  · next h =>
    refine ends_keyword h (by simp) fun c₁ hlen => ?_
    exact (ends_breakStatement c.token).mono (fun _ _ h => h)
      fun _ _ _ hs href => href ▸ .ofClosed (hs h)
  · next h =>
    refine ends_keyword h (by simp) fun c₁ hlen => ?_
    exact (ih.forStatement c₁ (by omega)).mono (fun _ _ h => h)
      fun _ _ _ hs href => href ▸ hs c.token h
  · next h =>
    refine ends_keyword h (by simp) fun c₁ hlen => ?_
    exact (ih.ifStatement c₁ (by omega)).mono (fun _ _ h => h)
      fun _ _ _ hs href => href ▸ hs c.token h
  · next h =>
    refine ends_keyword h (by simp) fun c₁ hlen => ?_
    exact (ih.whileStatement c₁ (by omega)).mono (fun _ _ h => h)
      fun _ _ _ hs href => href ▸ hs c.token h
  · next h =>
    refine ends_keyword h (by simp) fun c₁ hlen => ?_
    exact (ends_returnStatement (by omega) c.token).mono (fun _ _ h => h)
      fun _ _ _ hs href => href ▸ .ofClosed (hs h)
  · next h =>
    refine ends_keyword h (by simp) fun c₁ hlen => ?_
    refine Ends.bind (ih.block c₁ (by omega)) ?_
    intro ts body c₂ _ _
    refine ends_pure trivial fun ⟨ts₁, right, hts, hbody, hright⟩ href => .ofClosed ?_
    rw [href] at hbody
    simpa [hts] using Derives.block h hbody hright
  · next h =>
    refine ends_keyword h (by simp) fun c₁ hlen => ?_
    exact (ends_printStatement (by omega)).mono (fun _ _ h => h)
      fun _ _ _ hs href => href ▸ .ofClosed (hs c.token h)
  · refine (ends_expressionStatement (by omega)).mono (fun _ _ h => h) ?_
    rintro _ c' _ ⟨e, ts₁, semicolon, rfl, rfl, he, hsemicolon⟩
    exact .ofClosed (.expressionStatement he hsemicolon)

lemma ends_forStatement (ih : DeclarationsDerived n) (hn : 16 * c.rest.length + 1 ≤ n + 1) :
    (forStatement (n + 1)).Ends c anything fun ts c' s =>
      ∀ keyword : Token, keyword.kind = .keyword .for_ →
        StatementDerived c.nextRef (keyword :: ts) c' s := by
  rw [forStatement]
  refine Ends.bind ends_expectMark ?_
  rintro _ left c₁ hlen rfl
  simp only [List.length_singleton] at hlen
  refine Ends.bind (ends_forInitializer (by omega)) ?_
  intro first initializer c₂ hlen₂ _
  refine Ends.bind (ends_expressionUnless .semicolon (by omega)) ?_
  intro ts condition c₃ hlen₃ _
  refine Ends.bind ends_expectMark ?_
  rintro _ semicolon c₄ hlen₄ rfl
  refine Ends.bind (ends_expressionUnless .rightParen (by omega)) ?_
  intro step increment c₅ hlen₅ _
  refine Ends.bind ends_expectMark ?_
  rintro _ right c₆ hlen₆ rfl
  refine Ends.bind (ih.statement c₆ (by omega)) ?_
  intro rest body c₇ _ _
  refine ends_pure trivial ?_
  rintro ⟨isOpen, hbody, hopen⟩ ⟨_, href₆, hright⟩ hincrement ⟨_, href₄, hsemicolon⟩ hcondition
    hinitializer ⟨_, href, hleft⟩ keyword hkeyword
  rw [href] at hinitializer
  rw [href₄] at hincrement
  rw [href₆] at hbody
  refine ⟨isOpen, ?_, hopen⟩
  simpa using Derives.forLoop hkeyword hleft hinitializer hcondition hsemicolon hincrement hright
    hbody

lemma ends_ifStatement (ih : DeclarationsDerived n) (hn : 16 * c.rest.length + 1 ≤ n + 1) :
    (ifStatement (n + 1)).Ends c anything fun ts c' s =>
      ∀ keyword : Token, keyword.kind = .keyword .if_ →
        StatementDerived c.nextRef (keyword :: ts) c' s := by
  rw [ifStatement]
  refine Ends.bind ends_expectMark ?_
  rintro _ left c₁ hlen rfl
  simp only [List.length_singleton] at hlen
  refine Ends.bind ((expressionsDerived n).expression c₁ (by omega)) ?_
  intro ts condition c₂ hlen₂ _
  refine Ends.bind ends_expectMark ?_
  rintro _ right c₃ hlen₃ rfl
  refine Ends.bind (ih.statement c₃ (by omega)) ?_
  intro branch thenBranch c₄ hlen₄ _
  refine Ends.bind ends_accept? ?_
  rintro _ otherwise c₅ hlen₅ rfl
  rcases otherwise with _ | otherwise
  · refine ends_pure trivial ?_
    rintro ⟨_, href₅, _, helse⟩ ⟨isOpen, hthen, _⟩ ⟨_, href₃, hright⟩ hcondition ⟨_, href, hleft⟩
      keyword hkeyword
    rw [href] at hcondition
    rw [href₃] at hthen
    refine ⟨true, ?_, fun _ => ?_⟩
    · simpa [href₅] using Derives.ifThen hkeyword hleft hcondition hright hthen
    · rcases helse rfl with hend | helse
      · simp_all [Cursor.isAtEnd, Token.isEof, Token.isKeyword]
      · exact helse
  · refine Ends.bind (ih.statement c₅ (by omega)) ?_
    intro other elseBranch c₆ _ _
    refine ends_pure trivial ?_
    rintro ⟨isOpen, helse, hopen⟩ ⟨_, href₅, hotherwise, _⟩ ⟨isOpen₁, hthen, hopen₁⟩
      ⟨_, href₃, hright⟩ hcondition ⟨_, href, hleft⟩ keyword hkeyword
    -- The `else` was at the cursor behind the branch, so the branch cannot be open.
    obtain ⟨hcurrent, hword⟩ := hotherwise otherwise rfl
    obtain rfl : isOpen₁ = false := by
      cases isOpen₁
      · rfl
      · rw [← hcurrent, hword] at hopen₁
        simp at hopen₁
    rw [href] at hcondition
    rw [href₃] at hthen
    rw [href₅] at helse
    refine ⟨isOpen, ?_, hopen⟩
    simpa using Derives.ifElse hkeyword hleft hcondition hright hthen
      (by simpa [Token.isKeyword] using hword) helse

lemma ends_whileStatement (ih : DeclarationsDerived n) (hn : 16 * c.rest.length + 1 ≤ n + 1) :
    (whileStatement (n + 1)).Ends c anything fun ts c' s =>
      ∀ keyword : Token, keyword.kind = .keyword .while_ →
        StatementDerived c.nextRef (keyword :: ts) c' s := by
  rw [whileStatement]
  refine Ends.bind ends_expectMark ?_
  rintro _ left c₁ hlen rfl
  simp only [List.length_singleton] at hlen
  refine Ends.bind ((expressionsDerived n).expression c₁ (by omega)) ?_
  intro ts condition c₂ hlen₂ _
  refine Ends.bind ends_expectMark ?_
  rintro _ right c₃ hlen₃ rfl
  refine Ends.bind (ih.statement c₃ (by omega)) ?_
  intro rest body c₄ _ _
  refine ends_pure trivial ?_
  rintro ⟨isOpen, hbody, hopen⟩ ⟨_, href₃, hright⟩ hcondition ⟨_, href, hleft⟩ keyword hkeyword
  rw [href] at hcondition
  rw [href₃] at hbody
  refine ⟨isOpen, ?_, hopen⟩
  simpa using Derives.whileLoop hkeyword hleft hcondition hright hbody

end Declarations

/-- **Statements and declarations are read as they are derived.** -/
lemma declarationsDerived (n : Nat) : DeclarationsDerived n := by
  induction n with
  | zero => constructor <;> intros <;> omega
  | succ n ih =>
    exact {
      declaration := fun _ hn => ends_declaration ih hn
      declarationRule := fun _ hn => ends_declarationRule ih hn
      classDeclaration := fun _ hn => ends_classDeclaration ih hn
      methodList := fun _ hn => ends_methodList ih hn
      function := fun role _ hn => ends_function ih role hn
      block := fun _ hn => ends_block ih hn
      blockItems := fun _ hn => ends_blockItems ih hn
      statement := fun _ hn => ends_statement ih hn
      forStatement := fun _ hn => ends_forStatement ih hn
      ifStatement := fun _ hn => ends_ifStatement ih hn
      whileStatement := fun _ hn => ends_whileStatement ih hn }

/-- The declarations of a program, which end at the end of the source. -/
lemma ends_declarations {n : Nat} {c : Cursor} (hn : 16 * c.rest.length + 14 ≤ n) :
    (declarations n).Ends c anything fun ts c' program =>
      Derives .declarations c.nextRef ts c'.nextRef program ∧ c'.isAtEnd = true := by
  induction n generalizing c with
  | zero => omega
  | succ n ih =>
    rw [declarations]
    refine ends_isAtEnd ?_
    split
    · next hend => exact ends_pure trivial ⟨.noDeclarations, hend⟩
    · next hend =>
      refine Ends.bind ((declarationsDerived n).declaration c (by omega)) ?_
      intro ts first c₁ hlen hts
      have := List.length_pos_iff.2 (hts (by simpa using hend))
      refine Ends.bind (ih (by omega)) ?_
      intro ts' others c₂ _ _
      refine ends_pure trivial fun ⟨hothers, hend₂⟩ ⟨s, hfirst, hs⟩ => ⟨?_, hend₂⟩
      simpa [hfirst] using Derives.moreDeclarations hs hothers

end Reader

/-! ## Whole programs -/

section Programs

variable {tokens : List Token} {n : RefId}

/-- Fuel in proportion to the tokens is enough for a program. -/
lemma readProgram_ends (tokens : List Token) (n : RefId) :
    (Reader.declarations (fuelPerToken * (tokens.length + 1))).Ends ⟨tokens, 0, n, []⟩
      Reader.anything fun ts c' program =>
        Derives .declarations n ts c'.nextRef program ∧ c'.isAtEnd = true :=
  Reader.ends_declarations (by simp only [fuelPerToken]; omega)

/-- Reading a program hands out reference numbers and takes none back. -/
lemma le_nextRef_readProgram (tokens : List Token) (n : RefId) :
    n ≤ (readProgram tokens n).nextRef := (readProgram_ends tokens n).ref_le

/-- Tokens up to the end of the source, and the end of the source or nothing behind them. -/
lemma takeWhile_append_of_isAtEnd {ts : List Token} {c : Cursor} (hts : ∀ t ∈ ts, t.kind ≠ .eof)
    (hend : c.isAtEnd = true) : (ts ++ c.rest).takeWhile (!·.isEof) = ts := by
  rw [List.takeWhile_append_of_pos (by simpa [Token.isEof] using hts)]
  rcases hrest : c.rest with _ | ⟨t, rest⟩
  · simp
  · have ht : t.isEof = true := by simpa [Cursor.isAtEnd, Cursor.token, hrest] using hend
    simp [ht]

/-- **A program without complaints is derived** from the tokens before the end of the source. -/
theorem derives_readProgram (h : (readProgram tokens n).errors = []) :
    Derives .declarations n (tokens.takeWhile (!·.isEof)) (readProgram tokens n).nextRef
      (readProgram tokens n).program := by
  have hends := readProgram_ends tokens n
  rcases hrun : Reader.declarations (fuelPerToken * (tokens.length + 1)) ⟨tokens, 0, n, []⟩ with
    ⟨_ | program, c⟩
  · simp only [readProgram, hrun] at h
    exact absurd h (hends.failed c hrun).2
  · obtain ⟨ts, hrest, -, hquiet⟩ := hends.read program c hrun
    simp only [readProgram, hrun] at h ⊢
    obtain ⟨-, hderives, hend⟩ := hquiet h
    have htokens : tokens = ts ++ c.rest := hrest
    rw [htokens, takeWhile_append_of_isAtEnd hderives.ne_eof hend]
    exact hderives

end Programs

end LoxLang
