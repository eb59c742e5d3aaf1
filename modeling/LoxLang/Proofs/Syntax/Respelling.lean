import LoxLang.Proofs.Syntax.Correspondence

/-!
# The tokens of a program that is like another

A tree that is like one that was read can itself be read: from the same tokens, except that those
which the tree keeps are replaced by the ones that the other tree has in their place
(`Derives.exists_like`).  So what is changed in a tree, within a likeness, can be changed in the
tokens it was read from.

The proof is an induction over the derivation of the first tree.  In each case the second one is
taken apart as the first is, and the only rule whose result does not show how it was read is that of
a `for` loop (`Stmt.Like.exists_forLoop`).
-/

namespace LoxLang

section Inversion

variable {ρ : Likeness} {Γ : List Renaming}

lemma Expr.Like.exists_variable {ref : RefId} {name : Token} {e' : Expr} :
    (Expr.variable ref name).Like ρ Γ e' →
      ∃ ref' name', e' = .variable ref' name' ∧ ρ.Refers Γ ref name ref' name'
  | .variable hrefers => ⟨_, _, rfl, hrefers⟩

lemma Level.exists_operation {l : Level} {left right e' : Expr} {operator : Token}
    (h : (l.operation left operator right).Like ρ Γ e') :
    ∃ left' operator' right', e' = l.operation left' operator' right' ∧ left.Like ρ Γ left' ∧
      ρ.Same operator operator' ∧ right.Like ρ Γ right' := by
  cases l
  case disjunction | conjunction =>
    cases h with
    | logical hleft hoperator hright => exact ⟨_, _, _, rfl, hleft, hoperator, hright⟩
  all_goals
    cases h with
    | binary hleft hoperator hright => exact ⟨_, _, _, rfl, hleft, hoperator, hright⟩

/-- A class declaration; the methods of a derived class have the scope of its superclass. -/
lemma Stmt.Like.exists_classDecl {name : Token} {superclass : Option Expr} {methods : List FunDecl}
    {s' : Stmt} (h : (Stmt.classDecl name superclass methods).Like ρ Γ s') :
    ∃ name' superclass' methods', ∃ Γ' : List Renaming,
      s' = .classDecl name' superclass' methods' ∧ ρ.Same name name' ∧
      Option.Rel (Expr.Like ρ Γ) superclass superclass' ∧
      FunDecl.LikeAll ρ Γ' methods methods' := by
  cases h with
  | baseClass hsame _ hmethods => exact ⟨_, _, _, _, rfl, hsame, .none, hmethods⟩
  | derivedClass hsame _ hsuperclass hmethods =>
    exact ⟨_, _, _, _, rfl, hsame, .some hsuperclass, hmethods⟩

/-- The condition of a loop, which is always true if there is none. -/
lemma Expr.exists_condition {condition : Option Expr} {e' : Expr}
    (h : (condition.getD (.literal (.bool true))).Like ρ Γ e') :
    ∃ condition' : Option Expr, e' = condition'.getD (.literal (.bool true)) ∧
      Option.Rel (Expr.Like ρ Γ) condition condition' := by
  cases condition with
  | none =>
    cases h
    exact ⟨none, rfl, .none⟩
  | some e => exact ⟨some e', rfl, .some h⟩

/-- One round of a `for` loop, whether it has a scope of its own or not. -/
lemma Stmt.Like.exists_round {increment : Option Expr} {body step' : Stmt}
    (h : Stmt.Like ρ Γ (match increment with
      | some e => .block [body, .expression e]
      | none => body) step') :
    ∃ increment' body', ∃ Γ' : List Renaming,
      step' = (match increment' with
        | some e => .block [body', .expression e]
        | none => body') ∧
      Option.Rel (Expr.Like ρ Γ') increment increment' ∧ body.Like ρ Γ' body' := by
  cases increment with
  | none => exact ⟨none, step', Γ, rfl, .none, h⟩
  | some e =>
    cases h with
    | block _ hinside =>
    cases hinside with
    | cons hbody hrest =>
    cases hrest with
    | cons hlast hnil =>
    cases hlast with
    | expression he =>
    cases hnil
    exact ⟨some _, _, _, rfl, .some he, hbody⟩

/-- **What is like a `for` loop that is written out is one.**  The two scopes that it may have are
those of the initializer and of one round. -/
lemma Stmt.Like.exists_forLoop {initializer : Option Stmt} {condition increment : Option Expr}
    {body s' : Stmt} (h : (Stmt.forLoop initializer condition increment body).Like ρ Γ s') :
    ∃ initializer' condition' increment' body', ∃ Γ₁ Γ₂ : List Renaming,
      s' = Stmt.forLoop initializer' condition' increment' body' ∧
      Option.Rel (Stmt.Like ρ Γ₁) initializer initializer' ∧
      Option.Rel (Expr.Like ρ Γ₁) condition condition' ∧
      Option.Rel (Expr.Like ρ Γ₂) increment increment' ∧ body.Like ρ Γ₂ body' := by
  unfold Stmt.forLoop at h
  cases initializer with
  | none =>
    cases h with
    | whileLoop htest hstep =>
      obtain ⟨condition', rfl, hcondition⟩ := Expr.exists_condition htest
      obtain ⟨increment', body', Γ₂, rfl, hincrement, hbody⟩ := exists_round hstep
      exact ⟨none, condition', increment', body', Γ, Γ₂, rfl, .none, hcondition, hincrement, hbody⟩
  | some first =>
    cases h with
    | @block _ _ _ π _ hinside =>
    cases hinside with
    | @cons _ _ first' _ _ hfirst hrest =>
    cases hrest with
    | cons hloop hnil =>
    cases hnil
    cases hloop with
    | whileLoop htest hstep =>
      obtain ⟨condition', rfl, hcondition⟩ := Expr.exists_condition htest
      obtain ⟨increment', body', Γ₂, rfl, hincrement, hbody⟩ := exists_round hstep
      exact ⟨some first', condition', increment', body', π :: Γ, Γ₂, rfl, .some hfirst, hcondition,
        hincrement, hbody⟩

end Inversion

/-- Likeness of what a phrase is read as. -/
def Phrase.Like (ρ : Likeness) (Γ : List Renaming) : (p : Phrase) → p.Result → p.Result → Prop
  | .expression, e, e' | .operand _, e, e' | .suffixed, e, e' => e.Like ρ Γ e'
  | .arguments _, es, es' | .argumentList, es, es' => List.Forall₂ (Expr.Like ρ Γ) es es'
  | .parameters _, ts, ts' | .parameterList, ts, ts' => List.Forall₂ ρ.token ts ts'
  | .optionalExpression, o, o' | .initializer, o, o' | .superclass, o, o' =>
    Option.Rel (Expr.Like ρ Γ) o o'
  | .forInitializer, o, o' => Option.Rel (Stmt.Like ρ Γ) o o'
  | .statement _, s, s' | .declaration, s, s' => s.Like ρ Γ s'
  | .function, d, d' => d.Like ρ Γ d'
  | .methods, ds, ds' => FunDecl.LikeAll ρ Γ ds ds'
  | .declarations, body, body' => Stmt.LikeAll ρ Γ body body'

section Tokens

variable {ρ : Likeness} {R : Token → Token → Prop}

/-- **What is like a tree that was read can be read**, from tokens that correspond to those of the
tree.  `R` has to hold of tokens that correspond in the trees, and of every token with itself, since
a tree does not keep all its tokens. -/
lemma Derives.exists_like (href : ∀ {ref ref'}, ρ.ref ref ref' → ref' = ref)
    (hR : ∀ {t t'}, ρ.token t t' → R t t') (hrefl : ∀ t, R t t) {p : Phrase} {n n' : RefId}
    {ts : List Token} {r : p.Result} (h : Derives p n ts n' r) :
    ∀ {Γ : List Renaming} {r' : p.Result}, p.Like ρ Γ r r' →
      ∃ ts', List.Forall₂ R ts ts' ∧ Derives p n ts' n' r' := by
  induction h with
  | @constant _ t _ ht =>
    intro Γ r' hr'
    cases hr'
    exact ⟨[t], .cons (hrefl t) .nil, .constant ht⟩
  | name hname =>
    intro Γ r' hr'
    obtain ⟨ref', name', rfl, hrefers⟩ := Expr.Like.exists_variable hr'
    obtain rfl := href hrefers.number
    exact ⟨[name'], .cons (hR hrefers.token) .nil, .name ((ρ.kind hrefers.token).trans hname)⟩
  | this hkeyword =>
    intro Γ r' hr'
    cases hr' with
    | this hrefers =>
      obtain rfl := href hrefers.number
      exact ⟨[_], .cons (hR hrefers.token) .nil, .this ((ρ.kind hrefers.token).trans hkeyword)⟩
  | @super _ _ dot _ hkeyword hdot hmethod =>
    intro Γ r' hr'
    cases hr' with
    | super hnumber hword hname =>
      obtain rfl := href hnumber
      exact ⟨[_, dot, _], .cons (hR hword.token) (.cons (hrefl dot) (.cons (hR hname.token) .nil)),
        .super (hword.kind.trans hkeyword) hdot (hname.kind.trans hmethod)⟩
  | @grouping _ left _ right _ _ hleft _ hright ih =>
    intro Γ r' hr'
    cases hr' with
    | grouping hinner =>
      obtain ⟨ts', hts, hderives⟩ := ih hinner
      exact ⟨left :: (ts' ++ [right]),
        .cons (hrefl left) (List.rel_append hts (.cons (hrefl right) .nil)),
        .grouping hleft hderives hright⟩
  | @call _ _ _ _ left _ _ _ _ _ hleft _ hparen ihcallee iharguments =>
    intro Γ r' hr'
    cases hr' with
    | @call _ _ _ paren' _ _ hcallee hcorresponds harguments =>
      obtain ⟨ts', hts, hcallee'⟩ := ihcallee hcallee
      obtain ⟨us', hus, harguments'⟩ := iharguments harguments
      exact ⟨ts' ++ left :: (us' ++ [paren']),
        List.rel_append hts
          (.cons (hrefl left) (List.rel_append hus (.cons (hR hcorresponds) .nil))),
        .call hcallee' hleft harguments' ((ρ.kind hcorresponds).trans hparen)⟩
  | @get _ _ _ _ dot _ _ hdot hname ih =>
    intro Γ r' hr'
    cases hr' with
    | get hobject hsame =>
      obtain ⟨ts', hts, hobject'⟩ := ih hobject
      exact ⟨ts' ++ [dot, _],
        List.rel_append hts (.cons (hrefl dot) (.cons (hR hsame.token) .nil)),
        .get hobject' hdot (hsame.kind.trans hname)⟩
  | noArguments =>
    intro Γ r' hr'
    cases hr'
    exact ⟨[], .nil, .noArguments⟩
  | someArguments _ ih =>
    intro Γ r' hr'
    obtain ⟨ts', hts, hderives⟩ := ih hr'
    exact ⟨ts', hts, .someArguments hderives⟩
  | lastArgument hcount _ ih =>
    intro Γ r' hr'
    cases hr' with
    | cons he hnil =>
      cases hnil
      obtain ⟨ts', hts, hderives⟩ := ih he
      exact ⟨ts', hts, .lastArgument hcount hderives⟩
  | @moreArguments _ _ _ _ comma _ _ _ _ hcount _ hcomma _ ihe ihothers =>
    intro Γ r' hr'
    cases hr' with
    | cons he hothers =>
      obtain ⟨ts', hts, he'⟩ := ihe he
      obtain ⟨us', hus, hothers'⟩ := ihothers hothers
      exact ⟨ts' ++ comma :: us', List.rel_append hts (.cons (hrefl comma) hus),
        .moreArguments hcount he' hcomma hothers'⟩
  | unprefixed _ ih =>
    intro Γ r' hr'
    obtain ⟨ts', hts, hderives⟩ := ih hr'
    exact ⟨ts', hts, .unprefixed hderives⟩
  | prefixed hoperator _ ih =>
    intro Γ r' hr'
    cases hr' with
    | unary hsame hright =>
      obtain ⟨ts', hts, hderives⟩ := ih hright
      have hoperator' := (ofKind_isUnaryOperator hsame.kind).trans hoperator
      exact ⟨_ :: ts', .cons (hR hsame.token) hts, .prefixed hoperator' hderives⟩
  | single _ ih =>
    intro Γ r' hr'
    obtain ⟨ts', hts, hderives⟩ := ih hr'
    exact ⟨ts', hts, .single hderives⟩
  | @chain _ _ _ _ _ _ _ _ l _ hoperator _ ihleft ihright =>
    intro Γ r' hr'
    obtain ⟨left', operator', right', rfl, hleft, hsame, hright⟩ := Level.exists_operation hr'
    obtain ⟨ts', hts, hleft'⟩ := ihleft hleft
    obtain ⟨us', hus, hright'⟩ := ihright hright
    have hoperator' := (l.ofKind_isOperator hsame.kind).trans hoperator
    exact ⟨ts' ++ operator' :: us', List.rel_append hts (.cons (hR hsame.token) hus),
      .chain hleft' hoperator' hright'⟩
  | plain _ ih =>
    intro Γ r' hr'
    obtain ⟨ts', hts, hderives⟩ := ih hr'
    exact ⟨ts', hts, .plain hderives⟩
  | @assign _ _ equals _ _ _ hname hequals _ ih =>
    intro Γ r' hr'
    cases hr' with
    | assign hrefers hvalue =>
      obtain rfl := href hrefers.number
      obtain ⟨ts', hts, hvalue'⟩ := ih hvalue
      exact ⟨_ :: equals :: ts', .cons (hR hrefers.token) (.cons (hrefl equals) hts),
        .assign ((ρ.kind hrefers.token).trans hname) hequals hvalue'⟩
  | @set _ _ _ _ dot _ equals _ _ _ _ hdot hname hequals _ ihobject ihvalue =>
    intro Γ r' hr'
    cases hr' with
    | set hobject hsame hvalue =>
      obtain ⟨ts', hts, hobject'⟩ := ihobject hobject
      obtain ⟨us', hus, hvalue'⟩ := ihvalue hvalue
      exact ⟨ts' ++ dot :: _ :: equals :: us',
        List.rel_append hts (.cons (hrefl dot) (.cons (hR hsame.token) (.cons (hrefl equals) hus))),
        .set hobject' hdot (hsame.kind.trans hname) hequals hvalue'⟩
  | absent =>
    intro Γ r' hr'
    cases hr'
    exact ⟨[], .nil, .absent⟩
  | present _ ih =>
    intro Γ r' hr'
    cases hr' with
    | some he =>
      obtain ⟨ts', hts, he'⟩ := ih he
      exact ⟨ts', hts, .present he'⟩
  | @expressionStatement _ _ _ _ semicolon _ hsemicolon ih =>
    intro Γ r' hr'
    cases hr' with
    | expression he =>
      obtain ⟨ts', hts, he'⟩ := ih he
      exact ⟨ts' ++ [semicolon], List.rel_append hts (.cons (hrefl semicolon) .nil),
        .expressionStatement he' hsemicolon⟩
  | @printStatement _ keyword _ _ _ semicolon hkeyword _ hsemicolon ih =>
    intro Γ r' hr'
    cases hr' with
    | print he =>
      obtain ⟨ts', hts, he'⟩ := ih he
      exact ⟨keyword :: (ts' ++ [semicolon]),
        .cons (hrefl keyword) (List.rel_append hts (.cons (hrefl semicolon) .nil)),
        .printStatement hkeyword he' hsemicolon⟩
  | @returnStatement _ _ _ _ _ semicolon hkeyword _ hsemicolon ih =>
    intro Γ r' hr'
    cases hr' with
    | returnValue hsame hvalue =>
      obtain ⟨ts', hts, hvalue'⟩ := ih hvalue
      exact ⟨_ :: (ts' ++ [semicolon]),
        .cons (hR hsame.token) (List.rel_append hts (.cons (hrefl semicolon) .nil)),
        .returnStatement (hsame.kind.trans hkeyword) hvalue' hsemicolon⟩
  | @breakStatement _ _ semicolon hkeyword hsemicolon =>
    intro Γ r' hr'
    cases hr' with
    | breakLoop hsame =>
      exact ⟨[_, semicolon], .cons (hR hsame.token) (.cons (hrefl semicolon) .nil),
        .breakStatement (hsame.kind.trans hkeyword) hsemicolon⟩
  | @block _ left _ _ _ right hleft _ hright ih =>
    intro Γ r' hr'
    cases hr' with
    | block _ hbody =>
      obtain ⟨ts', hts, hbody'⟩ := ih hbody
      exact ⟨left :: (ts' ++ [right]),
        .cons (hrefl left) (List.rel_append hts (.cons (hrefl right) .nil)),
        .block hleft hbody' hright⟩
  | @ifThen _ keyword left _ _ _ right _ _ _ _ hkeyword hleft _ hright _ ihcondition ihthen =>
    intro Γ r' hr'
    cases hr' with
    | ifThen hcondition hthen =>
      obtain ⟨ts', hts, hcondition'⟩ := ihcondition hcondition
      obtain ⟨us', hus, hthen'⟩ := ihthen hthen
      exact ⟨keyword :: left :: (ts' ++ right :: us'), .cons (hrefl keyword) (.cons (hrefl left)
        (List.rel_append hts (.cons (hrefl right) hus))),
        .ifThen hkeyword hleft hcondition' hright hthen'⟩
  | @ifElse _ keyword left _ _ _ right _ _ _ otherwise _ _ _ _ hkeyword hleft _ hright _
      hotherwise _ ihcondition ihthen ihelse =>
    intro Γ r' hr'
    cases hr' with
    | ifElse hcondition hthen helse =>
      obtain ⟨ts', hts, hcondition'⟩ := ihcondition hcondition
      obtain ⟨us', hus, hthen'⟩ := ihthen hthen
      obtain ⟨vs', hvs, helse'⟩ := ihelse helse
      exact ⟨keyword :: left :: (ts' ++ right :: (us' ++ otherwise :: vs')),
        .cons (hrefl keyword) (.cons (hrefl left) (List.rel_append hts
          (.cons (hrefl right) (List.rel_append hus (.cons (hrefl otherwise) hvs))))),
        .ifElse hkeyword hleft hcondition' hright hthen' hotherwise helse'⟩
  | @whileLoop _ keyword left _ _ _ right _ _ _ _ hkeyword hleft _ hright _ ihcondition ihbody =>
    intro Γ r' hr'
    cases hr' with
    | whileLoop hcondition hbody =>
      obtain ⟨ts', hts, hcondition'⟩ := ihcondition hcondition
      obtain ⟨us', hus, hbody'⟩ := ihbody hbody
      exact ⟨keyword :: left :: (ts' ++ right :: us'), .cons (hrefl keyword) (.cons (hrefl left)
        (List.rel_append hts (.cons (hrefl right) hus))),
        .whileLoop hkeyword hleft hcondition' hright hbody'⟩
  | @forLoop _ keyword left _ _ _ _ _ _ semicolon _ _ _ right _ _ _ _ hkeyword hleft _ _
      hsemicolon _ hright _ ihinitializer ihcondition ihincrement ihbody =>
    intro Γ r' hr'
    obtain ⟨initializer', condition', increment', body', Γ₁, Γ₂, rfl, hinitializer, hcondition,
      hincrement, hbody⟩ := Stmt.Like.exists_forLoop hr'
    obtain ⟨ts', hts, hinitializer'⟩ := ihinitializer hinitializer
    obtain ⟨us', hus, hcondition'⟩ := ihcondition hcondition
    obtain ⟨vs', hvs, hincrement'⟩ := ihincrement hincrement
    obtain ⟨ws', hws, hbody'⟩ := ihbody hbody
    exact ⟨keyword :: left :: (ts' ++ (us' ++ semicolon :: (vs' ++ right :: ws'))),
      .cons (hrefl keyword) (.cons (hrefl left) (List.rel_append hts (List.rel_append hus
        (.cons (hrefl semicolon) (List.rel_append hvs (.cons (hrefl right) hws)))))),
      .forLoop hkeyword hleft hinitializer' hcondition' hsemicolon hincrement' hright hbody'⟩
  | @forNothing _ semicolon hsemicolon =>
    intro Γ r' hr'
    cases hr'
    exact ⟨[semicolon], .cons (hrefl semicolon) .nil, .forNothing hsemicolon⟩
  | @forVariable _ keyword _ _ _ _ semicolon hkeyword hname _ hsemicolon ih =>
    intro Γ r' hr'
    cases hr' with
    | some hs =>
    cases hs with
    | var hnamed hvalue =>
      obtain ⟨ts', hts, hvalue'⟩ := ih hvalue
      exact ⟨keyword :: _ :: (ts' ++ [semicolon]), .cons (hrefl keyword) (.cons (hR hnamed.token)
        (List.rel_append hts (.cons (hrefl semicolon) .nil))),
        .forVariable hkeyword ((ρ.kind hnamed.token).trans hname) hvalue' hsemicolon⟩
  | @forExpression _ _ _ _ semicolon _ hsemicolon ih =>
    intro Γ r' hr'
    cases hr' with
    | some hs =>
    cases hs with
    | expression he =>
      obtain ⟨ts', hts, he'⟩ := ih he
      exact ⟨ts' ++ [semicolon], List.rel_append hts (.cons (hrefl semicolon) .nil),
        .forExpression he' hsemicolon⟩
  | noInitializer =>
    intro Γ r' hr'
    cases hr'
    exact ⟨[], .nil, .noInitializer⟩
  | @someInitializer _ equals _ _ _ hequals _ ih =>
    intro Γ r' hr'
    cases hr' with
    | some he =>
      obtain ⟨ts', hts, he'⟩ := ih he
      exact ⟨equals :: ts', .cons (hrefl equals) hts, .someInitializer hequals he'⟩
  | @variableDeclaration _ keyword _ _ _ _ semicolon hkeyword hname _ hsemicolon ih =>
    intro Γ r' hr'
    cases hr' with
    | var hnamed hvalue =>
      obtain ⟨ts', hts, hvalue'⟩ := ih hvalue
      exact ⟨keyword :: _ :: (ts' ++ [semicolon]), .cons (hrefl keyword) (.cons (hR hnamed.token)
        (List.rel_append hts (.cons (hrefl semicolon) .nil))),
        .variableDeclaration hkeyword ((ρ.kind hnamed.token).trans hname) hvalue' hsemicolon⟩
  | @functionDeclaration _ keyword _ _ _ hkeyword _ ih =>
    intro Γ r' hr'
    cases hr' with
    | function hdecl _ =>
      obtain ⟨ts', hts, hdecl'⟩ := ih hdecl
      exact ⟨keyword :: ts', .cons (hrefl keyword) hts, .functionDeclaration hkeyword hdecl'⟩
  | @classDeclaration _ keyword _ _ _ _ left _ _ _ right hkeyword hname _ hleft _ hright
      ihsuperclass ihmethods =>
    intro Γ r' hr'
    obtain ⟨name', superclass', methods', Γ', rfl, hsame, hsuperclass, hmethods⟩ :=
      Stmt.Like.exists_classDecl hr'
    obtain ⟨ts', hts, hsuperclass'⟩ := ihsuperclass hsuperclass
    obtain ⟨us', hus, hmethods'⟩ := ihmethods hmethods
    exact ⟨keyword :: name' :: (ts' ++ left :: (us' ++ [right])),
      .cons (hrefl keyword) (.cons (hR hsame.token) (List.rel_append hts (.cons (hrefl left)
        (List.rel_append hus (.cons (hrefl right) .nil))))),
      .classDeclaration hkeyword (hsame.kind.trans hname) hsuperclass' hleft hmethods' hright⟩
  | statement _ ih =>
    intro Γ r' hr'
    obtain ⟨ts', hts, hderives⟩ := ih hr'
    exact ⟨ts', hts, .statement hderives⟩
  | noSuperclass =>
    intro Γ r' hr'
    cases hr'
    exact ⟨[], .nil, .noSuperclass⟩
  | @someSuperclass _ less _ hless hparent =>
    intro Γ r' hr'
    cases hr' with
    | some he =>
      obtain ⟨ref', parent', rfl, hrefers⟩ := Expr.Like.exists_variable he
      obtain rfl := href hrefers.number
      exact ⟨[less, parent'], .cons (hrefl less) (.cons (hR hrefers.token) .nil),
        .someSuperclass hless ((ρ.kind hrefers.token).trans hparent)⟩
  | noMethods =>
    intro Γ r' hr'
    cases hr'
    exact ⟨[], .nil, .noMethods⟩
  | moreMethods _ _ ihdecl ihmethods =>
    intro Γ r' hr'
    cases hr' with
    | cons hdecl hmethods =>
      obtain ⟨ts', hts, hdecl'⟩ := ihdecl hdecl
      obtain ⟨us', hus, hmethods'⟩ := ihmethods hmethods
      exact ⟨ts' ++ us', List.rel_append hts hus, .moreMethods hdecl' hmethods'⟩
  | @function _ _ left _ _ _ right brace _ _ _ close hname hleft _ hright hbrace _ hclose ihparams
      ihbody =>
    intro Γ r' hr'
    cases hr' with
    | mk _ hsame hparams hbody =>
      obtain ⟨ts', hts, hparams'⟩ := @ihparams Γ _ (hparams.imp fun _ _ hp => hp.token)
      obtain ⟨us', hus, hbody'⟩ := ihbody hbody
      exact ⟨_ :: left :: (ts' ++ right :: brace :: (us' ++ [close])),
        .cons (hR hsame.token) (.cons (hrefl left) (List.rel_append hts (.cons (hrefl right)
          (.cons (hrefl brace) (List.rel_append hus (.cons (hrefl close) .nil)))))),
        .function (hsame.kind.trans hname) hleft hparams' hright hbrace hbody' hclose⟩
  | noParameters =>
    intro Γ r' hr'
    cases hr'
    exact ⟨[], .nil, .noParameters⟩
  | someParameters _ ih =>
    intro Γ r' hr'
    obtain ⟨ts', hts, hderives⟩ := @ih Γ _ hr'
    exact ⟨ts', hts, .someParameters hderives⟩
  | lastParameter hcount hname =>
    intro Γ r' hr'
    cases hr' with
    | cons htoken hnil =>
      cases hnil
      exact ⟨[_], .cons (hR htoken) .nil, .lastParameter hcount ((ρ.kind htoken).trans hname)⟩
  | @moreParameters _ _ comma _ _ _ _ hcount hname hcomma _ ih =>
    intro Γ r' hr'
    cases hr' with
    | cons htoken hothers =>
      obtain ⟨ts', hts, hothers'⟩ := @ih Γ _ hothers
      exact ⟨_ :: comma :: ts', .cons (hR htoken) (.cons (hrefl comma) hts),
        .moreParameters hcount ((ρ.kind htoken).trans hname) hcomma hothers'⟩
  | noDeclarations =>
    intro Γ r' hr'
    cases hr'
    exact ⟨[], .nil, .noDeclarations⟩
  | moreDeclarations _ _ ihs ihbody =>
    intro Γ r' hr'
    cases hr' with
    | cons hs hbody =>
      obtain ⟨ts', hts, hs'⟩ := ihs hs
      obtain ⟨us', hus, hbody'⟩ := ihbody hbody
      exact ⟨ts' ++ us', List.rel_append hts hus, .moreDeclarations hs' hbody'⟩

end Tokens

end LoxLang
