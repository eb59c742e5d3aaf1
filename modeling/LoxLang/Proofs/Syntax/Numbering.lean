import LoxLang.Proofs.Syntax.NormalForm
import LoxLang.Scope.Reference

/-!
# Tokens and numbers of what is read

Two facts about a program that was read without a complaint.  Every token in it is one of those
that were read, so what is known of all tokens of a source is known of all tokens of a program.
And its references are numbered apart, with numbers from the first free one on; this is what lets
one table of distances serve a whole session.
-/

namespace LoxLang

/-! ## Tokens -/

section Tokens

variable {P : Token → Prop}

/-- What every written-out token satisfies. -/
structure Token.Usual (P : Token → Prop) : Prop where
  mark : ∀ m : Mark, P m.token
  word : ∀ k : Keyword, P k.token
  literal : ∀ value : Literal, P value.token

/-- The tokens of a loop that is written out are those of its parts. -/
lemma Stmt.forall_tokens_forLoop (hP : Token.Usual P) {initializer : Option Stmt}
    {condition increment : Option Expr} {body : Stmt}
    (hinitializer : ∀ t ∈ Phrase.forInitializer.tokens initializer, P t)
    (hcondition : ∀ t ∈ Expr.optionTokens condition, P t)
    (hincrement : ∀ t ∈ Expr.optionTokens increment, P t) (hbody : ∀ t ∈ body.tokens, P t) :
    ∀ t ∈ (Stmt.forLoop initializer condition increment body).tokens, P t := by
  have htest : ∀ t ∈ (condition.getD (.literal (.bool true))).tokens, P t := by
    cases condition with
    | none => simpa [Expr.tokens] using hP.literal _
    | some e => exact hcondition
  have hmark := hP.mark
  have hword := hP.word
  cases initializer <;> cases increment <;>
    simp_all [Phrase.tokens, Stmt.forLoop, Stmt.tokens, Stmt.tokensAll, Expr.optionTokens, or_imp]

/-- **Every token of what is read was read**, or stands for one that a tree does not keep. -/
lemma Derives.forall_tokens (hP : Token.Usual P) {p : Phrase} {n n' : RefId} {ts : List Token}
    {r : p.Result} (h : Derives p n ts n' r) (hts : ∀ t ∈ ts, P t) : ∀ t ∈ p.tokens r, P t := by
  have hmark := hP.mark
  have hword := hP.word
  induction h with
  | constant => simpa [Phrase.tokens, Expr.tokens] using hP.literal _
  | forLoop _ _ _ _ _ _ _ _ ihinitializer ihcondition ihincrement ihbody =>
    exact Stmt.forall_tokens_forLoop hP (ihinitializer fun t ht => hts t (by simp [ht]))
      (ihcondition fun t ht => hts t (by simp [ht])) (ihincrement fun t ht => hts t (by simp [ht]))
      (ihbody fun t ht => hts t (by simp [ht]))
  | moreArguments _ _ _ hothers ihe ihothers =>
    rw [Phrase.tokens, Expr.argumentTokens, laterTokens_of_ne_nil hothers.fits.2.1]
    simp_all [Phrase.tokens, or_imp]
  | moreParameters _ _ _ hothers ih =>
    rw [Phrase.tokens, intersperse_cons_of_ne_nil hothers.fits.2.1]
    simp_all [Phrase.tokens]
  | _ =>
    simp_all [Phrase.tokens, Expr.tokens, Expr.argumentTokens, Expr.laterTokens, Expr.optionTokens,
      Expr.initializerTokens, Expr.superclassTokens, Stmt.tokens, Stmt.tokensAll, FunDecl.tokens,
      FunDecl.tokensAll, or_imp]

end Tokens

/-! ## Numbers -/

/-- The references have numbers apart, from `n` on and below `n'`. -/
structure Numbered (n n' : RefId) (references : List Reference) : Prop where
  nodup : (references.map Reference.ref).Nodup
  bounds : ∀ r ∈ references, n ≤ r.ref ∧ r.ref < n'

namespace Numbered

variable {n n₁ n' n₂ : RefId} {l l' : List Reference}

lemma nil : Numbered n n' [] := ⟨by simp, by simp⟩

lemma one {use : ReferenceUse} {token : Token} (hn : n < n') : Numbered n n' [⟨use, n, token⟩] :=
  ⟨by simp, by simpa using hn⟩

lemma mono (h : Numbered n₁ n₂ l) (hn : n ≤ n₁) (hn' : n₂ ≤ n') : Numbered n n' l :=
  ⟨h.nodup, fun r hr =>
    ⟨Nat.le_trans hn (h.bounds r hr).1, Nat.lt_of_lt_of_le (h.bounds r hr).2 hn'⟩⟩

lemma append (h : Numbered n n₁ l) (h' : Numbered n₁ n₂ l') (hn : n ≤ n₁) (hn' : n₁ ≤ n₂) :
    Numbered n n₂ (l ++ l') := by
  refine ⟨?_, ?_⟩
  · rw [List.map_append, List.nodup_append]
    refine ⟨h.nodup, h'.nodup, ?_⟩
    intro ref href ref' href'
    obtain ⟨r, hr, rfl⟩ := List.mem_map.mp href
    obtain ⟨r', hr', rfl⟩ := List.mem_map.mp href'
    exact Nat.ne_of_lt (Nat.lt_of_lt_of_le (h.bounds r hr).2 (h'.bounds r' hr').1)
  · intro r hr
    rcases List.mem_append.mp hr with hr | hr
    · exact ⟨(h.bounds r hr).1, Nat.lt_of_lt_of_le (h.bounds r hr).2 hn'⟩
    · exact ⟨Nat.le_trans hn (h'.bounds r hr).1, (h'.bounds r hr).2⟩

lemma perm (h : Numbered n n' l) (hl : l.Perm l') : Numbered n n' l' :=
  ⟨(hl.map _).nodup_iff.mp h.nodup, fun r hr => h.bounds r (hl.mem_iff.mpr hr)⟩

end Numbered

/-- The references of what a phrase is read as. -/
def Phrase.references : (p : Phrase) → p.Result → List Reference
  | .expression, e | .operand _, e | .suffixed, e => e.references
  | .arguments _, es | .argumentList, es => Expr.allReferences es
  | .parameters _, _ | .parameterList, _ => []
  | .optionalExpression, o | .initializer, o | .superclass, o => (o.map Expr.references).getD []
  | .forInitializer, o => (o.map Stmt.references).getD []
  | .statement _, s | .declaration, s => s.references
  | .function, d => d.references
  | .methods, ds => FunDecl.allReferences ds
  | .declarations, body => Stmt.allReferences body

@[simp] lemma Level.references_operation (l : Level) (left right : Expr) (operator : Token) :
    (l.operation left operator right).references = left.references ++ right.references := by
  cases l <;> simp [Level.operation, Expr.references]

lemma Stmt.references_forLoop (initializer : Option Stmt) (condition increment : Option Expr)
    (body : Stmt) : (Stmt.forLoop initializer condition increment body).references =
      Phrase.forInitializer.references initializer ++
        (Phrase.optionalExpression.references condition ++
          (body.references ++ Phrase.optionalExpression.references increment)) := by
  cases initializer <;> cases condition <;> cases increment <;>
    simp [Stmt.forLoop, Phrase.references, Stmt.references, Stmt.allReferences, Expr.references]

lemma Stmt.references_returnValue (keyword : Token) (value : Option Expr) :
    (Stmt.returnValue keyword value).references = Phrase.optionalExpression.references value := by
  cases value <;> simp [Stmt.references, Phrase.references]

lemma Stmt.references_var (name : Token) (value : Option Expr) :
    (Stmt.var name value).references = Phrase.initializer.references value := by
  cases value <;> simp [Stmt.references, Phrase.references]

lemma Stmt.references_classDecl (name : Token) (superclass : Option Expr) (methods : List FunDecl) :
    (Stmt.classDecl name superclass methods).references =
      Phrase.superclass.references superclass ++ FunDecl.allReferences methods := by
  cases superclass <;> simp [Stmt.references, Phrase.references]

/-- **The references of what is read are numbered apart.** -/
lemma Derives.numbered {p : Phrase} {n n' : Nat} {ts : List Token} {r : p.Result}
    (h : Derives p n ts n' r) : Numbered n n' (p.references r) := by
  induction h with
  | name | this | super | someSuperclass => exact .one (Nat.lt_succ_self _)
  | call hfirst _ hsecond _ ihfirst ihsecond | moreArguments _ hfirst _ hsecond ihfirst ihsecond
  | set hfirst _ _ _ hsecond ihfirst ihsecond | whileLoop _ _ hfirst _ hsecond ihfirst ihsecond
  | moreMethods hfirst hsecond ihfirst ihsecond
  | moreDeclarations hfirst hsecond ihfirst ihsecond
  | ifThen _ _ hfirst _ hsecond ihfirst ihsecond =>
    simpa [Phrase.references, Expr.references, Expr.allReferences, Stmt.references,
      Stmt.allReferences, FunDecl.allReferences] using
      ihfirst.append ihsecond hfirst.ref_le hsecond.ref_le
  | chain hleft _ hright ihleft ihright =>
    rw [Phrase.references, Level.references_operation]
    exact ihleft.append ihright hleft.ref_le hright.ref_le
  | @assign n name _ _ n' _ _ _ hvalue ih =>
    have hle := hvalue.ref_le
    have hvalue : Numbered n n' _ := ih.mono (Nat.le_succ n) (Nat.le_refl _)
    have htarget : Numbered n' (n' + 1) [⟨.assign, n', name⟩] := .one (Nat.lt_succ_self _)
    have hn : n ≤ n' := Nat.le_of_succ_le hle
    exact (hvalue.append htarget hn (Nat.le_succ n')).perm List.perm_append_comm
  | returnStatement _ _ _ ih =>
    rw [Phrase.references, Stmt.references_returnValue]
    exact ih
  | variableDeclaration _ _ _ _ ih =>
    rw [Phrase.references, Stmt.references_var]
    exact ih
  | forVariable _ _ _ _ ih =>
    rw [Phrase.references, Option.map_some, Option.getD_some, Stmt.references_var]
    exact ih
  | ifElse _ _ hcondition _ hthen _ helse ihcondition ihthen ihelse =>
    have hbranches := ihthen.append ihelse hthen.ref_le helse.ref_le
    have hle := Nat.le_trans hthen.ref_le helse.ref_le
    simpa [Phrase.references, Stmt.references] using
      ihcondition.append hbranches hcondition.ref_le hle
  | forLoop _ _ hinitializer hcondition _ hincrement _ hbody ihinitializer ihcondition ihincrement
      ihbody =>
    -- The increment is read before the body and stands behind it.
    have hstep := (ihincrement.append ihbody hincrement.ref_le hbody.ref_le).perm
      List.perm_append_comm
    have hle := Nat.le_trans hincrement.ref_le hbody.ref_le
    have hloop := ihcondition.append hstep hcondition.ref_le hle
    rw [Phrase.references, Stmt.references_forLoop]
    exact ihinitializer.append hloop hinitializer.ref_le (Nat.le_trans hcondition.ref_le hle)
  | classDeclaration _ _ hsuperclass _ hmethods _ ihsuperclass ihmethods =>
    rw [Phrase.references, Stmt.references_classDecl]
    exact ihsuperclass.append ihmethods hsuperclass.ref_le hmethods.ref_le
  | function _ _ hparams _ _ hbody _ _ ihbody => exact ihbody.mono hparams.ref_le (Nat.le_refl _)
  | constant | noArguments | absent | breakStatement | forNothing | noInitializer | noSuperclass
  | noMethods | noParameters | lastParameter | moreParameters | someParameters
  | noDeclarations => exact .nil
  | _ =>
    simp_all [Phrase.references, Expr.references, Expr.allReferences, Stmt.references]

end LoxLang
