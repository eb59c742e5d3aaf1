import LoxLang.Proofs.Syntax.Correspondence

/-!
# Programs with other numbers

A program with other numbers is the same tree, with another number in each reference
(`Stmt.renumberAll`).  Trees that are alike up to the numbers are such trees, so what tokens are
read as from one number on is what they are read as from another one on, with all numbers moved
(`readProgram_renumbered`).  That holds for tokens of every sort, also where there are complaints.
-/

namespace LoxLang

/-! ## Trees with other numbers -/

section Trees

variable (number : RefId → RefId)

mutual

/-- The expression with other numbers. -/
def Expr.renumber : Expr → Expr
  | .literal value => .literal value
  | .grouping inner => .grouping inner.renumber
  | .unary operator right => .unary operator right.renumber
  | .binary left operator right => .binary left.renumber operator right.renumber
  | .logical left operator right => .logical left.renumber operator right.renumber
  | .variable ref name => .variable (number ref) name
  | .assign ref name value => .assign (number ref) name value.renumber
  | .call callee paren arguments => .call callee.renumber paren (Expr.renumberAll arguments)
  | .get object name => .get object.renumber name
  | .set object name value => .set object.renumber name value.renumber
  | .this ref keyword => .this (number ref) keyword
  | .super ref keyword method => .super (number ref) keyword method

/-- The expressions with other numbers. -/
def Expr.renumberAll : List Expr → List Expr
  | [] => []
  | e :: rest => e.renumber :: Expr.renumberAll rest

end

mutual

/-- The statement with other numbers. -/
def Stmt.renumber : Stmt → Stmt
  | .expression e => .expression (e.renumber number)
  | .print e => .print (e.renumber number)
  | .var name value => .var name (value.map (Expr.renumber number))
  | .block body => .block (Stmt.renumberAll body)
  | .ifThen condition thenBranch none =>
    .ifThen (condition.renumber number) thenBranch.renumber none
  | .ifThen condition thenBranch (some elseBranch) =>
    .ifThen (condition.renumber number) thenBranch.renumber (some elseBranch.renumber)
  | .whileLoop condition body => .whileLoop (condition.renumber number) body.renumber
  | .breakLoop keyword => .breakLoop keyword
  | .returnValue keyword value => .returnValue keyword (value.map (Expr.renumber number))
  | .function decl => .function decl.renumber
  | .classDecl name superclass methods =>
    .classDecl name (superclass.map (Expr.renumber number)) (FunDecl.renumberAll methods)

/-- The statements with other numbers. -/
def Stmt.renumberAll : List Stmt → List Stmt
  | [] => []
  | s :: rest => s.renumber :: Stmt.renumberAll rest

/-- The function with other numbers. -/
def FunDecl.renumber : FunDecl → FunDecl
  | .mk name params body => .mk name params (Stmt.renumberAll body)

/-- The functions with other numbers. -/
def FunDecl.renumberAll : List FunDecl → List FunDecl
  | [] => []
  | d :: rest => d.renumber :: FunDecl.renumberAll rest

end

end Trees

/-! ## Trees that are alike up to numbers -/

/-- **Nothing but numbers is replaced**, each by the number for it.  The programs are not run, so
nothing is said of functions and globals. -/
def Likeness.numbering (number : RefId → RefId) : Likeness where
  token t t' := t = t'
  ref ref ref' := ref' = number ref
  distance _ _ := True
  renames _ := True
  function _ _ := False
  global _ := False
  kind h := h ▸ rfl
  identity := trivial
  inner h := h.elim

section Numbering

variable {number : RefId → RefId}

lemma same_numbering (t : Token) : (Likeness.numbering number).Same t t := ⟨rfl, rfl⟩

lemma Likeness.Same.eq_of_numbering {t t' : Token}
    (h : (Likeness.numbering number).Same t t') : t' = t := h.token.symm

mutual

lemma Expr.Like.eq_renumber {Γ : List Renaming} : (e : Expr) → {e' : Expr} →
    e.Like (.numbering number) Γ e' → e' = e.renumber number
  | .literal _, _, .literal _ => rfl
  | .grouping inner, _, .grouping hinner => by
    rw [Expr.renumber, Expr.Like.eq_renumber inner hinner]
  | .unary _ right, _, .unary hoperator hright => by
    rw [Expr.renumber, hoperator.eq_of_numbering, Expr.Like.eq_renumber right hright]
  | .binary left _ right, _, .binary hleft hoperator hright => by
    rw [Expr.renumber, hoperator.eq_of_numbering, Expr.Like.eq_renumber left hleft,
      Expr.Like.eq_renumber right hright]
  | .logical left _ right, _, .logical hleft hoperator hright => by
    rw [Expr.renumber, hoperator.eq_of_numbering, Expr.Like.eq_renumber left hleft,
      Expr.Like.eq_renumber right hright]
  | .variable _ _, _, .variable hname => by
    obtain ⟨rfl, rfl, -⟩ := hname
    rfl
  | .assign _ _ value, _, .assign hname hvalue => by
    obtain ⟨rfl, rfl, -⟩ := hname
    rw [Expr.renumber, Expr.Like.eq_renumber value hvalue]
  | .call callee paren arguments, _, .call hcallee hparen harguments => by
    obtain rfl : paren = _ := hparen
    rw [Expr.renumber, Expr.Like.eq_renumber callee hcallee,
      Expr.Like.eq_renumberAll arguments harguments]
  | .get object _, _, .get hobject hname => by
    rw [Expr.renumber, hname.eq_of_numbering, Expr.Like.eq_renumber object hobject]
  | .set object _ value, _, .set hobject hname hvalue => by
    rw [Expr.renumber, hname.eq_of_numbering, Expr.Like.eq_renumber object hobject,
      Expr.Like.eq_renumber value hvalue]
  | .this _ _, _, .this hkeyword => by
    obtain ⟨rfl, rfl, -⟩ := hkeyword
    rfl
  | .super ref _ _, _, .super href hkeyword hmethod => by
    obtain rfl : _ = number ref := href
    rw [Expr.renumber, hkeyword.eq_of_numbering, hmethod.eq_of_numbering]

lemma Expr.Like.eq_renumberAll {Γ : List Renaming} : (es : List Expr) → {es' : List Expr} →
    List.Forall₂ (Expr.Like (.numbering number) Γ) es es' → es' = Expr.renumberAll number es
  | [], _, .nil => rfl
  | e :: rest, _, .cons he hrest => by
    rw [Expr.renumberAll, Expr.Like.eq_renumber e he, Expr.Like.eq_renumberAll rest hrest]

end

lemma eq_map_renumber {Γ : List Renaming} {o o' : Option Expr}
    (h : Option.Rel (Expr.Like (.numbering number) Γ) o o') :
    o' = o.map (Expr.renumber number) := by
  cases h with
  | none => rfl
  | some he => rw [Option.map_some, Expr.Like.eq_renumber _ he]

lemma Likeness.Named.eq_of_numbering {π : Renaming} {t t' : Token}
    (h : (Likeness.numbering number).Named π t t') : t' = t := h.token.symm

mutual

lemma Stmt.Like.eq_renumber : (s : Stmt) → {Γ : List Renaming} → {s' : Stmt} →
    s.Like (.numbering number) Γ s' → s' = s.renumber number
  | .expression e, _, _, .expression he => by rw [Stmt.renumber, Expr.Like.eq_renumber e he]
  | .print e, _, _, .print he => by rw [Stmt.renumber, Expr.Like.eq_renumber e he]
  | .var _ _, _, _, .var hname hvalue => by
    rw [Stmt.renumber, hname.eq_of_numbering, eq_map_renumber hvalue]
  | .block body, _, _, .block _ hbody => by
    rw [Stmt.renumber, Stmt.LikeAll.eq_renumberAll body hbody]
  | .ifThen condition thenBranch none, _, _, .ifThen hcondition hthen => by
    rw [Stmt.renumber, Expr.Like.eq_renumber condition hcondition,
      Stmt.Like.eq_renumber thenBranch hthen]
  | .ifThen condition thenBranch (some elseBranch), _, _, .ifElse hcondition hthen helse => by
    rw [Stmt.renumber, Expr.Like.eq_renumber condition hcondition,
      Stmt.Like.eq_renumber thenBranch hthen, Stmt.Like.eq_renumber elseBranch helse]
  | .whileLoop condition body, _, _, .whileLoop hcondition hbody => by
    rw [Stmt.renumber, Expr.Like.eq_renumber condition hcondition,
      Stmt.Like.eq_renumber body hbody]
  | .breakLoop _, _, _, .breakLoop hkeyword => by rw [Stmt.renumber, hkeyword.eq_of_numbering]
  | .returnValue _ _, _, _, .returnValue hkeyword hvalue => by
    rw [Stmt.renumber, hkeyword.eq_of_numbering, eq_map_renumber hvalue]
  | .function decl, _, _, .function hdecl _ => by
    rw [Stmt.renumber, FunDecl.Like.eq_renumber decl hdecl]
  | .classDecl _ none methods, _, _, .baseClass hname _ hmethods => by
    rw [Stmt.renumber, hname.eq_of_numbering, FunDecl.LikeAll.eq_renumberAll methods hmethods,
      Option.map_none]
  | .classDecl _ (some superclass) methods, _, _, .derivedClass hname _ hsuperclass hmethods => by
    rw [Stmt.renumber, hname.eq_of_numbering, FunDecl.LikeAll.eq_renumberAll methods hmethods,
      Expr.Like.eq_renumber superclass hsuperclass, Option.map_some]

lemma Stmt.LikeAll.eq_renumberAll : (body : List Stmt) → {Γ : List Renaming} →
    {body' : List Stmt} → Stmt.LikeAll (.numbering number) Γ body body' →
    body' = Stmt.renumberAll number body
  | [], _, _, .nil => rfl
  | s :: rest, _, _, .cons hs hrest => by
    rw [Stmt.renumberAll, Stmt.Like.eq_renumber s hs, Stmt.LikeAll.eq_renumberAll rest hrest]

lemma FunDecl.Like.eq_renumber : (d : FunDecl) → {Γ : List Renaming} → {d' : FunDecl} →
    d.Like (.numbering number) Γ d' → d' = d.renumber number
  | .mk _ params body, _, .mk _ params' _, .mk _ hname hparams hbody => by
    have hsame : List.Forall₂ Eq params params' :=
      hparams.imp fun _ _ hp => (Likeness.Named.eq_of_numbering hp).symm
    rw [List.forall₂_eq_eq_eq] at hsame
    rw [FunDecl.renumber, hname.eq_of_numbering, hsame, Stmt.LikeAll.eq_renumberAll body hbody]

lemma FunDecl.LikeAll.eq_renumberAll : (ds : List FunDecl) → {Γ : List Renaming} →
    {ds' : List FunDecl} → FunDecl.LikeAll (.numbering number) Γ ds ds' →
    ds' = FunDecl.renumberAll number ds
  | [], _, _, .nil => rfl
  | d :: rest, _, _, .cons hd hrest => by
    rw [FunDecl.renumberAll, FunDecl.Like.eq_renumber d hd,
      FunDecl.LikeAll.eq_renumberAll rest hrest]

end

end Numbering

/-! ## Whole programs -/

/-- A number handed out by a reading from `n` on, in the same reading from `n'` on. -/
def moved (n n' ref : RefId) : RefId := ref - n + n'

lemma moved_add (n n' i : RefId) : moved n n' (n + i) = n' + i := by
  rw [moved, Nat.add_sub_cancel_left, Nat.add_comm]

/-- **What tokens are read as from one number on is what they are read as from another one on**,
with all numbers moved.  The complaints are the same. -/
lemma readProgram_renumbered {tokens : List Token} (heof : ∃ t ∈ tokens, t.isEof = true)
    (n n' : RefId) :
    (readProgram tokens n').program =
        Stmt.renumberAll (moved n n') (readProgram tokens n).program ∧
      (readProgram tokens n').errors = (readProgram tokens n).errors ∧
      (readProgram tokens n').nextRef = moved n n' (readProgram tokens n).nextRef := by
  have htokens : List.Forall₂ (Likeness.numbering (moved n n')).Same tokens tokens :=
    List.forall₂_same.mpr fun t _ => same_numbering t
  have href : ∀ i, (Likeness.numbering (moved n n')).ref (n + i) (n' + i) :=
    fun i => (moved_add n n' i).symm
  obtain ⟨hprogram, herrors, i, hi, hi'⟩ :=
    like_readProgram htokens heof href fun _ => trivial
  refine ⟨Stmt.LikeAll.eq_renumberAll _ (hprogram [] plain_nil), ?_, ?_⟩
  · have hsame : ∀ x x' : SyntaxError,
        x.Like (.numbering (moved n n')) x' → x = x' := by
      rintro ⟨t, cause, position⟩ ⟨t', cause', position'⟩ ⟨htoken, hcause, hposition⟩
      obtain rfl : t' = t := htoken.eq_of_numbering
      obtain rfl : cause' = cause := hcause
      obtain rfl : position' = position := hposition
      rfl
    have herrors := herrors.imp hsame
    rw [List.forall₂_eq_eq_eq] at herrors
    exact herrors.symm
  · rw [hi, hi', moved_add]

end LoxLang
