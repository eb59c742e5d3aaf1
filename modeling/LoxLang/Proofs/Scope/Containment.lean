import LoxLang.Proofs.Scope.Resolution
import LoxLang.Proofs.Syntax.Likeness

/-!
# Where `break` and `return` may stand

A `break` makes sense inside of a loop, a `return` inside of a function, and an initializer returns
no value.  The walk complains where this is not so; here it is said as a property of the text alone
(`Stmt.Contained`).  Both limits end at a function: a loop around a function is not a loop around
what stands in it.

The limits are propositions and not flags.  So a statement can be contained by what is around it in
the text, and equally by what goes on around it in a run.
-/

namespace LoxLang

/-- What may be returned where this is the innermost function. -/
def FunctionContext.MayReturn (context : FunctionContext) (value : Option Expr) : Prop :=
  match context with
  | .none => False
  | .function | .method => True
  | .initializer => value = Option.none

/-- What a closure is to the place that is directly inside of it. -/
def FunctionContext.ofClosure (isInitializer : Bool) : FunctionContext :=
  if isInitializer then .initializer else .function

mutual

/-- **No `break` and no `return` stands where it may not.**  `loop` says that a loop is around the
statement, and `returns` what may be returned there. -/
def Stmt.Contained (returns : Option Expr → Prop) (loop : Prop) : Stmt → Prop
  | .block body => Stmt.ContainedAll returns loop body
  | .ifThen _ thenBranch none => thenBranch.Contained returns loop
  | .ifThen _ thenBranch (some elseBranch) =>
    thenBranch.Contained returns loop ∧ elseBranch.Contained returns loop
  | .whileLoop _ body => body.Contained returns True
  | .breakLoop _ => loop
  | .returnValue _ value => returns value
  | .function decl => decl.Contained false
  | .classDecl _ _ methods => FunDecl.ContainedAll methods
  | .expression _ | .print _ | .var _ _ => True

def Stmt.ContainedAll (returns : Option Expr → Prop) (loop : Prop) : List Stmt → Prop
  | [] => True
  | s :: rest => s.Contained returns loop ∧ Stmt.ContainedAll returns loop rest

/-- In a function there is no loop at first, and a `return` belongs to this function. -/
def FunDecl.Contained (isInitializer : Bool) : FunDecl → Prop
  | .mk _ _ body => Stmt.ContainedAll (FunctionContext.ofClosure isInitializer).MayReturn False body

def FunDecl.ContainedAll : List FunDecl → Prop
  | [] => True
  | d :: rest => d.Contained d.isInitializer ∧ FunDecl.ContainedAll rest

end

lemma FunDecl.contained_iff (d : FunDecl) (isInitializer : Bool) : d.Contained isInitializer ↔
    Stmt.ContainedAll (FunctionContext.ofClosure isInitializer).MayReturn False d.body := by
  cases d
  rfl

lemma FunDecl.contained_of_mem {ds : List FunDecl} (h : FunDecl.ContainedAll ds) {d : FunDecl}
    (hd : d ∈ ds) : d.Contained d.isInitializer := by
  induction ds with
  | nil => cases hd
  | cons first rest ih =>
    rcases List.mem_cons.mp hd with rfl | hd
    · exact h.1
    · exact ih h.2 hd

mutual

/-- Looser limits contain more. -/
lemma Stmt.Contained.mono {returns returns' : Option Expr → Prop} {loop loop' : Prop}
    (hreturns : ∀ {value}, returns value → returns' value) (hloop : loop → loop') : (s : Stmt) →
    s.Contained returns loop → s.Contained returns' loop'
  | .block body, h => Stmt.ContainedAll.mono hreturns hloop body h
  | .ifThen _ thenBranch none, h => Stmt.Contained.mono hreturns hloop thenBranch h
  | .ifThen _ thenBranch (some elseBranch), h =>
    ⟨Stmt.Contained.mono hreturns hloop thenBranch h.1,
      Stmt.Contained.mono hreturns hloop elseBranch h.2⟩
  | .whileLoop _ body, h => Stmt.Contained.mono hreturns id body h
  | .breakLoop _, h => hloop h
  | .returnValue _ _, h => hreturns h
  | .function _, h | .classDecl _ _ _, h => h
  | .expression _, _ | .print _, _ | .var _ _, _ => trivial

lemma Stmt.ContainedAll.mono {returns returns' : Option Expr → Prop} {loop loop' : Prop}
    (hreturns : ∀ {value}, returns value → returns' value) (hloop : loop → loop') :
    (body : List Stmt) → Stmt.ContainedAll returns loop body →
    Stmt.ContainedAll returns' loop' body
  | [], _ => trivial
  | s :: rest, h =>
    ⟨Stmt.Contained.mono hreturns hloop s h.1, Stmt.ContainedAll.mono hreturns hloop rest h.2⟩

end

/-! ## Statements and functions inside -/

mutual

/-- The statements in a statement, itself among them, but not those in functions that it
declares. -/
def Stmt.parts : Stmt → List Stmt
  | .block body => .block body :: Stmt.partsAll body
  | .ifThen condition thenBranch none => .ifThen condition thenBranch none :: thenBranch.parts
  | .ifThen condition thenBranch (some elseBranch) =>
    .ifThen condition thenBranch (some elseBranch) :: (thenBranch.parts ++ elseBranch.parts)
  | .whileLoop condition body => .whileLoop condition body :: body.parts
  | s => [s]

def Stmt.partsAll : List Stmt → List Stmt
  | [] => []
  | s :: rest => s.parts ++ Stmt.partsAll rest

end

mutual

/-- What a contained statement makes is contained. -/
lemma Stmt.Contained.makes {returns : Option Expr → Prop} {loop : Prop} : (s : Stmt) →
    s.Contained returns loop → ∀ f ∈ s.makes, f.1.Contained f.2
  | .block body, h => Stmt.ContainedAll.makes body h
  | .ifThen _ thenBranch none, h => Stmt.Contained.makes thenBranch h
  | .ifThen _ thenBranch (some elseBranch), h =>
    List.forall_mem_append.mpr
      ⟨Stmt.Contained.makes thenBranch h.1, Stmt.Contained.makes elseBranch h.2⟩
  | .whileLoop _ body, h => Stmt.Contained.makes body h
  | .function _, h => List.forall_mem_singleton.mpr h
  | .classDecl _ _ methods, h => by
    rw [Stmt.makes, List.forall_mem_map]
    exact fun d hd => FunDecl.contained_of_mem h hd
  | .breakLoop _, _ | .returnValue _ _, _ | .expression _, _ | .print _, _ | .var _ _, _ =>
    List.forall_mem_nil _

lemma Stmt.ContainedAll.makes {returns : Option Expr → Prop} {loop : Prop} : (body : List Stmt) →
    Stmt.ContainedAll returns loop body → ∀ f ∈ Stmt.makesAll body, f.1.Contained f.2
  | [], _ => List.forall_mem_nil _
  | s :: rest, h =>
    List.forall_mem_append.mpr ⟨Stmt.Contained.makes s h.1, Stmt.ContainedAll.makes rest h.2⟩

end

/-- What is made inside of a contained function is contained. -/
lemma FunDecl.contained_makes {d : FunDecl} {isInitializer : Bool} (h : d.Contained isInitializer) :
    ∀ f ∈ Stmt.makesAll d.body, f.1.Contained f.2 :=
  Stmt.ContainedAll.makes d.body ((d.contained_iff isInitializer).mp h)

/-! ## What the walk accepts -/

section Quiet

variable (isGlobal : String → Bool)

/-- The complaints about a `return`. -/
lemma Analysis.mayReturn_of_quiet {a : Analysis} {context : FunctionContext} {keyword : Token}
    {value : Option Expr}
    (htop : (if context = .none then a.complain keyword .returnAtTopLevel else a).errors = [])
    (hvalue : context = .initializer → value = none) : context.MayReturn value := by
  cases context with
  | none => simp [Analysis.complain] at htop
  | function | method => trivial
  | initializer => exact hvalue rfl

mutual

/-- **A statement without a complaint is contained.** -/
lemma Stmt.contained_of_quiet (at_ : Surroundings) : (s : Stmt) → (a : Analysis) →
    (s.analyse isGlobal at_ a).errors = [] →
    s.Contained at_.function.MayReturn (at_.inLoop = true)
  | .expression _, _, _ | .print _, _, _ | .var _ _, _, _ => trivial
  | .block body, a, h => Stmt.containedAll_of_quiet at_ body (a.push []) h
  | .ifThen condition thenBranch none, a, h =>
    thenBranch.contained_of_quiet at_ (condition.analyse isGlobal at_ a) h
  | .ifThen condition thenBranch (some elseBranch), a, h => by
    have hthen := quiet_before (elseBranch.prefix_analyse isGlobal at_ _) h
    exact ⟨thenBranch.contained_of_quiet at_ _ hthen, elseBranch.contained_of_quiet at_ _ h⟩
  | .whileLoop condition body, a, h => by
    have hbody := body.contained_of_quiet { at_ with inLoop := true }
      (condition.analyse isGlobal at_ a) h
    simpa only [Stmt.Contained, eq_self_iff_true] using hbody
  | .breakLoop keyword, a, h => by
    simp only [Stmt.Contained]
    by_contra hloop
    rw [Stmt.analyse, if_neg hloop] at h
    simp [Analysis.complain] at h
  | .returnValue _ none, a, h => Analysis.mayReturn_of_quiet h fun _ => rfl
  | .returnValue keyword (some e), a, h => by
    have hchecked := quiet_before (e.prefix_analyse isGlobal at_ _) h
    have htop := quiet_before (Analysis.prefix_complain_if _ _ keyword _) hchecked
    refine Analysis.mayReturn_of_quiet htop fun hinitializer => ?_
    rw [if_pos hinitializer] at hchecked
    simp [Analysis.complain] at hchecked
  | .function decl, a, h =>
    (decl.contained_iff false).mpr (decl.contained_of_quiet at_ .function (a.introduce decl.name) h)
  | .classDecl _ none methods, a, h => FunDecl.containedAll_of_quiet _ methods _ h
  | .classDecl _ (some _) methods, a, h => FunDecl.containedAll_of_quiet _ methods _ h

lemma Stmt.containedAll_of_quiet (at_ : Surroundings) : (body : List Stmt) → (a : Analysis) →
    (Stmt.analyseAll isGlobal at_ body a).errors = [] →
    Stmt.ContainedAll at_.function.MayReturn (at_.inLoop = true) body
  | [], _, _ => trivial
  | s :: rest, a, h => by
    have hfirst := quiet_before (Stmt.prefix_analyseAll isGlobal at_ rest _) h
    exact ⟨s.contained_of_quiet at_ a hfirst, Stmt.containedAll_of_quiet at_ rest _ h⟩

lemma FunDecl.contained_of_quiet (at_ : Surroundings) (context : FunctionContext) :
    (d : FunDecl) → (a : Analysis) → (d.analyse isGlobal at_ context a).errors = [] →
    Stmt.ContainedAll context.MayReturn False d.body
  | .mk _ params body, a, h => by
    have hbody := Stmt.containedAll_of_quiet
      { at_ with function := context, inLoop := false } body _ h
    simpa only [FunDecl.body, Bool.false_eq_true] using hbody

lemma FunDecl.containedAll_of_quiet (at_ : Surroundings) : (ds : List FunDecl) →
    (a : Analysis) → (FunDecl.analyseMethods isGlobal at_ ds a).errors = [] →
    FunDecl.ContainedAll ds
  | [], _, _ => trivial
  | d :: rest, a, h => by
    have hfirst := quiet_before (FunDecl.prefix_analyseMethods isGlobal at_ rest _) h
    have hbody := d.contained_of_quiet at_ _ a hfirst
    refine ⟨(d.contained_iff _).mpr ?_, FunDecl.containedAll_of_quiet at_ rest _ h⟩
    -- A method that is no initializer may return what a function may.
    rw [FunctionContext.ofClosure]
    by_cases hinitializer : d.isInitializer = true
    · rw [if_pos hinitializer] at hbody ⊢
      exact hbody
    · rw [if_neg hinitializer] at hbody ⊢
      exact hbody

end

end Quiet

end LoxLang
