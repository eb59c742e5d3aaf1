import LoxLang.Proofs.Scope.Violations

/-!
# Contexts that are set and put back

The analysis hands down what surrounds a place, so nothing that it meets inside a loop, a function
or a class can change what it knows outside.  The same walk can be made with one context that is
kept as a state: it is set on the way into a body, and on the way out only what was set there is put
back.  Whether that comes to the same depends on every part of the walk, since a body leaves behind
whatever it has not put back itself.

It does come to the same (`Stmt.resolve_eq`).  At the end of a program nothing surrounds the walk,
no scope is open, and the complaints are the violations of the program in the order of its places
(`resolveProgram_reports_violations`).
-/

namespace LoxLang

/-- A walk that keeps its context. -/
structure Resolver where
  analysis : Analysis
  context : Surroundings

namespace Resolver

variable (w : Resolver)

/-- Changes nothing about the context. -/
def modify (f : Analysis → Analysis) : Resolver := { w with analysis := f w.analysis }

def setLoop (inLoop : Bool) : Resolver := { w with context := { w.context with inLoop := inLoop } }

def setFunction (kind : FunctionContext) : Resolver :=
  { w with context := { w.context with function := kind } }

def setClass (cls : ClassContext) : Resolver :=
  { w with context := { w.context with cls := cls } }

/-- Walks over an expression, inside of which the context is the same. -/
def walk (isGlobal : String → Bool) (e : Expr) : Resolver :=
  w.modify (e.analyse isGlobal w.context)

end Resolver

/-! ## The walk -/

section Walk

variable (isGlobal : String → Bool)

mutual

/-- Walks over a statement. -/
def Stmt.resolve : Stmt → Resolver → Resolver
  | .expression e, w => w.walk isGlobal e
  | .print e, w => w.walk isGlobal e
  | .var name none, w => w.modify (·.introduce name)
  | .var name (some e), w =>
    ((w.modify (·.declare name)).walk isGlobal e).modify (·.define name)
  | .block body, w => (Stmt.resolveAll body (w.modify (·.push []))).modify .pop
  | .ifThen condition thenBranch none, w => thenBranch.resolve (w.walk isGlobal condition)
  | .ifThen condition thenBranch (some elseBranch), w =>
    elseBranch.resolve (thenBranch.resolve (w.walk isGlobal condition))
  | .whileLoop condition body, w =>
    let before := w.walk isGlobal condition
    (body.resolve (before.setLoop true)).setLoop before.context.inLoop
  | .breakLoop keyword, w =>
    if w.context.inLoop then w else w.modify (·.complain keyword .breakOutsideLoop)
  | .returnValue keyword value, w =>
    let w :=
      if w.context.function = .none then w.modify (·.complain keyword .returnAtTopLevel) else w
    match value with
    | none => w
    | some e =>
      let w :=
        if w.context.function = .initializer then
          w.modify (·.complain keyword .returnFromInitializer)
        else w
      w.walk isGlobal e
  | .function decl, w => decl.resolve .function (w.modify (·.introduce decl.name))
  | .classDecl name none methods, w =>
    let before := w.modify (·.introduce name)
    let inside := (before.setClass .base).modify (·.push ["this"])
    ((FunDecl.resolveMethods methods inside).modify .pop).setClass before.context.cls
  | .classDecl name (some superclass) methods, w =>
    let before := w.modify (·.introduce name)
    let inside := ((before.setClass .derived).walk isGlobal superclass).modify (·.push ["super"])
    let inside := inside.modify (·.push ["this"])
    (((FunDecl.resolveMethods methods inside).modify .pop).modify .pop).setClass before.context.cls

/-- Walks over statements in order. -/
def Stmt.resolveAll : List Stmt → Resolver → Resolver
  | [], w => w
  | s :: rest, w => Stmt.resolveAll rest (s.resolve w)

/-- Walks over a function.  The class around it stays what it is. -/
def FunDecl.resolve (kind : FunctionContext) : FunDecl → Resolver → Resolver
  | .mk _ params body, w =>
    let inside := ((w.setFunction kind).setLoop false).modify fun a =>
      params.foldl Analysis.introduce (a.push [])
    let after := (Stmt.resolveAll body inside).modify .pop
    (after.setFunction w.context.function).setLoop w.context.inLoop

/-- Walks over the methods of a class. -/
def FunDecl.resolveMethods : List FunDecl → Resolver → Resolver
  | [], w => w
  | d :: rest, w =>
    FunDecl.resolveMethods rest (d.resolve (if d.isInitializer then .initializer else .method) w)

end

/-- **The walk over a program**, with nothing around it. -/
def resolveProgram (program : List Stmt) (distances : Distances) : Resolver :=
  Stmt.resolveAll isGlobal program ⟨⟨[], [], distances, []⟩, .topLevel⟩

end Walk

/-! ## Nothing is left behind -/

section Restored

variable (isGlobal : String → Bool)

mutual

/-- **A statement puts back what it has set**, and does what it does in a context handed down. -/
lemma Stmt.resolve_eq : (s : Stmt) → (a : Analysis) → (at_ : Surroundings) →
    s.resolve isGlobal ⟨a, at_⟩ = ⟨s.analyse isGlobal at_ a, at_⟩
  | .expression _, _, _ | .print _, _, _ | .var _ none, _, _ | .var _ (some _), _, _ => rfl
  | .block body, a, at_ => by
    have hbody := Stmt.resolveAll_eq body (a.push []) at_
    simp only [Stmt.resolve, Resolver.modify, hbody, Stmt.analyse]
  | .ifThen condition thenBranch none, a, at_ =>
    thenBranch.resolve_eq (condition.analyse isGlobal at_ a) at_
  | .ifThen condition thenBranch (some elseBranch), a, at_ => by
    have hthen := thenBranch.resolve_eq (condition.analyse isGlobal at_ a) at_
    simp only [Stmt.resolve, Resolver.walk, Resolver.modify, hthen, elseBranch.resolve_eq,
      Stmt.analyse]
  | .whileLoop condition body, a, at_ => by
    have hbody := body.resolve_eq (condition.analyse isGlobal at_ a) { at_ with inLoop := true }
    simp only [Stmt.resolve, Resolver.walk, Resolver.modify, Resolver.setLoop, hbody, Stmt.analyse]
  | .breakLoop keyword, a, at_ => by
    simp only [Stmt.resolve, Stmt.analyse, Resolver.modify]
    split <;> rfl
  | .returnValue keyword none, a, at_ => by
    simp only [Stmt.resolve, Stmt.analyse, Resolver.modify]
    split <;> rfl
  | .returnValue keyword (some e), a, at_ => by
    by_cases hnone : at_.function = .none
    · simp [Stmt.resolve, Stmt.analyse, Resolver.modify, Resolver.walk, hnone]
    · by_cases hinit : at_.function = .initializer <;>
        simp [Stmt.resolve, Stmt.analyse, Resolver.modify, Resolver.walk, hnone, hinit]
  | .function decl, a, at_ => decl.resolve_eq .function (a.introduce decl.name) at_
  | .classDecl name none methods, a, at_ => by
    have hmethods := FunDecl.resolveMethods_eq methods ((a.introduce name).push ["this"])
      { at_ with cls := .base }
    simp only [Stmt.resolve, Resolver.modify, Resolver.setClass, hmethods, Stmt.analyse]
  | .classDecl name (some superclass) methods, a, at_ => by
    let inside : Surroundings := { at_ with cls := .derived }
    let parent := (superclass.analyse isGlobal inside (a.introduce name)).push ["super"]
    have hmethods := FunDecl.resolveMethods_eq methods (parent.push ["this"]) inside
    simp only [Stmt.resolve, Resolver.walk, Resolver.modify, Resolver.setClass, inside, parent,
      hmethods, Stmt.analyse]

lemma Stmt.resolveAll_eq : (body : List Stmt) → (a : Analysis) → (at_ : Surroundings) →
    Stmt.resolveAll isGlobal body ⟨a, at_⟩ = ⟨Stmt.analyseAll isGlobal at_ body a, at_⟩
  | [], _, _ => rfl
  | s :: rest, a, at_ => by
    rw [Stmt.resolveAll, s.resolve_eq, Stmt.resolveAll_eq rest, Stmt.analyseAll]

lemma FunDecl.resolve_eq (kind : FunctionContext) : (d : FunDecl) → (a : Analysis) →
    (at_ : Surroundings) →
    d.resolve isGlobal kind ⟨a, at_⟩ = ⟨d.analyse isGlobal at_ kind a, at_⟩
  | .mk _ params body, a, at_ => by
    have hbody := Stmt.resolveAll_eq body (params.foldl Analysis.introduce (a.push []))
      { at_ with function := kind, inLoop := false }
    simp only [FunDecl.resolve, Resolver.modify, Resolver.setFunction, Resolver.setLoop, hbody,
      FunDecl.analyse]

lemma FunDecl.resolveMethods_eq : (ds : List FunDecl) → (a : Analysis) → (at_ : Surroundings) →
    FunDecl.resolveMethods isGlobal ds ⟨a, at_⟩ =
      ⟨FunDecl.analyseMethods isGlobal at_ ds a, at_⟩
  | [], _, _ => rfl
  | d :: rest, a, at_ => by
    rw [FunDecl.resolveMethods, d.resolve_eq, FunDecl.resolveMethods_eq rest,
      FunDecl.analyseMethods]

end

end Restored

/-! ## Programs -/

/-- Where there is no scope, the stack is empty. -/
lemma Reflects.eq_nil {scopes : List LocalScope} {pending : Option String}
    (h : Reflects scopes [] pending) : scopes = [] := by
  cases h
  rfl

/-- Behind a program there is still no scope. -/
lemma Stmt.scopes_behindAll {l : Location} (hl : l.scopes = []) (body : List Stmt) :
    (Stmt.behindAll l body).scopes = [] := by
  induction body generalizing l with
  | nil => exact hl
  | cons s rest ih =>
    apply ih
    obtain hsame | ⟨name, hname⟩ := s.behind_cases l
    · rw [hsame, hl]
    · rw [hname, Location.scopes_introduce, hl]
      rfl

/-- **The complaints of the analysis are the violations of the program**, in the order of its places
and one for each, whatever the program was read from, whatever earlier units have bound, and
whatever distances they have recorded.  A walk that keeps its context does the same, and ends as it
began: with no scope open, and inside of no function, class or loop. -/
theorem resolveProgram_reports_violations (isGlobal : String → Bool) (tokens : List Token)
    (n : RefId) (distances : Distances) :
    let program := (readProgram tokens n).program
    (analyseProgram isGlobal program distances).errors =
        (programPlaces program).filterMap (ProgramPlace.violation? isGlobal) ∧
      (resolveProgram isGlobal program distances).analysis =
        analyseProgram isGlobal program distances ∧
      (resolveProgram isGlobal program distances).analysis.scopes = [] ∧
      (resolveProgram isGlobal program distances).context = ⟨.none, .none, false⟩ := by
  intro program
  have hformed : Stmt.AllFormed (fun _ => True) program :=
    (shaped_readProgram (fun _ _ => trivial) n).formed
  have hstart : Situated .start ⟨[], [], distances, []⟩ := ⟨.nil, rfl⟩
  have hsurveyed := Stmt.surveyedAll isGlobal program hformed rfl hstart
  have hended : resolveProgram isGlobal program distances =
      ⟨analyseProgram isGlobal program distances, .topLevel⟩ :=
    Stmt.resolveAll_eq isGlobal program _ _
  have hscopes : (analyseProgram isGlobal program distances).scopes = [] := by
    have hreflects := hsurveyed.situated.reflects
    rw [Stmt.scopes_behindAll rfl] at hreflects
    exact hreflects.eq_nil
  refine ⟨hsurveyed.errors, ?_, ?_, ?_⟩ <;> rw [hended]
  · exact hscopes
  · rfl

/-- A loop does not reach into a function. -/
example :
    let source := "while (true) \x7b fun f() \x7b break; \x7d break; \x7d"
    (programPlaces (readProgram (tokensOf source) 0).program).filterMap
        (ProgramPlace.violation? fun _ => false) =
      [⟨⟨.keyword .break_, "break", 1⟩, .breakOutsideLoop⟩] := by
  decide +kernel

end LoxLang
