import LoxLang.Proofs.Machine.Activity
import LoxLang.Proofs.Machine.Simulation
import LoxLang.Proofs.Scope.Containment

/-!
# How far a `break` or `return` goes

A statement tells what is around it how it ended, and each of the activities around it passes that
on or takes it for itself.  A loop takes a `break`, a call takes a `return`, and everything else
passes both on.  So when a statement is contained, the flow that leaves it is one that something
around it takes: the flows that leave a statement are limited by the text alone (`flowsAt`), and for
everything that is under way, the loop or the call that takes its flow is there, with nothing
between that could take it first (`Contained.around`).

The second part needs to know that every function that can be called is contained.  That is part of
what machines that are alike have in common, here a machine and itself (`Activity.Sound`).
-/

namespace LoxLang

/-! ## Flows that leave a statement -/

/-- **A flow may leave a statement**: by `break` only where there is a loop, by `return` only where
something may be returned, and with the value that was. -/
def Flow.Leaves (returns : Option Expr → Prop) (loop : Prop) : Flow → Prop
  | .normal => True
  | .broken => loop
  | .returned v => ∃ value, returns value ∧ (value = none → v = .nil)

/-- What an effect gives, if it gives something, has a property. -/
def Effect.Yields {α : Type} (x : Effect α) (Q : α → Prop) : Prop :=
  ∀ m a m₁, x m = (.ok a, m₁) → Q a

namespace Effect.Yields

variable {α β : Type} {x y : Effect α} {P : α → Prop} {Q : β → Prop}

lemma pure {a : α} (h : P a) : (Pure.pure a : Effect α).Yields P := by
  intro m b m₁ hrun
  cases hrun
  exact h

lemma exhausted : (Effect.exhausted : Effect α).Yields P := by
  intro m a m₁ hrun
  cases hrun

lemma bind {f : α → Effect β} (hx : x.Yields P) (hf : ∀ a, P a → (f a).Yields Q) :
    (x >>= f).Yields Q := by
  intro m b m₂ hrun
  rw [Effect.run_bind] at hrun
  rcases hxm : x m with ⟨outcome, m₁⟩
  rw [hxm] at hrun
  cases outcome with
  | ok a => exact hf a (hx m a m₁ hxm) m₁ b m₂ hrun
  | error | fault | exhausted => cases hrun

/-- After an effect of which nothing is known. -/
lemma after {f : α → Effect β} (hf : ∀ a, (f a).Yields Q) : (x >>= f).Yields Q :=
  bind (P := fun _ => True) (fun _ _ _ _ => trivial) fun a _ => hf a

lemma ite {c : Prop} [Decidable c] (hx : x.Yields P) (hy : y.Yields P) :
    (if c then x else y).Yields P := by
  by_cases h : c
  · rw [if_pos h]
    exact hx
  · rw [if_neg h]
    exact hy

lemma within (hx : x.Yields P) (scope : Scope) : (Effect.within scope x).Yields P := by
  intro m a m₁ hrun
  simp only [Effect.within, Prod.mk.injEq] at hrun
  exact hx { m with scope := scope } a _ (Prod.ext hrun.1 rfl)

end Effect.Yields

/-- **Flows leave contained statements only as they may**, with a given amount of fuel. -/
structure FlowsAt (n : Nat) : Prop where
  execute : ∀ {returns loop s}, Stmt.Contained returns loop s →
    (LoxLang.execute n s).Yields (Flow.Leaves returns loop)
  executeAll : ∀ {returns loop body}, Stmt.ContainedAll returns loop body →
    (LoxLang.executeAll n body).Yields (Flow.Leaves returns loop)
  /-- A loop takes every `break` of its body. -/
  repeatWhile : ∀ {returns loop condition body}, Stmt.Contained returns True body →
    (LoxLang.repeatWhile n condition body).Yields (Flow.Leaves returns loop)

namespace FlowsAt

variable {n : Nat} {returns : Option Expr → Prop} {loop : Prop}

lemma succ_execute (h : FlowsAt n) {s : Stmt} (hs : s.Contained returns loop) :
    (LoxLang.execute (n + 1) s).Yields (Flow.Leaves returns loop) := by
  have hnormal : (pure Flow.normal : Effect Flow).Yields (Flow.Leaves returns loop) :=
    .pure trivial
  cases s with
  | expression e => exact .after fun _ => hnormal
  | print e => exact .after fun _ => .after fun _ => .after fun _ => hnormal
  | var name value =>
    cases value with
    | none => exact .after fun _ => hnormal
    | some e => exact .after fun _ => .after fun _ => hnormal
  | block body => exact .after fun _ => .after fun _ => (h.executeAll hs).within _
  | ifThen condition thenBranch elseBranch =>
    cases elseBranch with
    | none => exact .after fun _ => .ite (h.execute hs) hnormal
    | some elseBranch => exact .after fun _ => .ite (h.execute hs.1) (h.execute hs.2)
  | whileLoop condition body => exact h.repeatWhile hs
  | breakLoop keyword => exact .pure hs
  | returnValue keyword value =>
    cases value with
    | none => exact .pure ⟨none, hs, fun _ => rfl⟩
    | some e => exact .after fun _ => .pure ⟨some e, hs, nofun⟩
  | function decl => exact .after fun _ => .after fun _ => .after fun _ => hnormal
  | classDecl name superclass methods =>
    cases superclass with
    | none => exact .after fun _ => .after fun _ => hnormal
    | some e => exact .after fun _ => .after fun _ => .after fun _ => .after fun _ => hnormal

lemma succ_executeAll (h : FlowsAt n) {body : List Stmt}
    (hbody : Stmt.ContainedAll returns loop body) :
    (LoxLang.executeAll (n + 1) body).Yields (Flow.Leaves returns loop) := by
  cases body with
  | nil => exact .pure trivial
  | cons s rest =>
    refine (h.execute hbody.1).bind fun flow hflow => ?_
    cases flow with
    | normal => exact h.executeAll hbody.2
    | broken | returned => exact .pure hflow

lemma succ_repeatWhile (h : FlowsAt n) {condition : Expr} {body : Stmt}
    (hbody : body.Contained returns True) :
    (LoxLang.repeatWhile (n + 1) condition body).Yields (Flow.Leaves returns loop) := by
  refine .after fun value => .ite ?_ (.pure trivial)
  refine (h.execute hbody).bind fun flow hflow => ?_
  cases flow with
  | normal => exact h.repeatWhile hbody
  | broken => exact .pure trivial
  | returned v => exact .pure hflow

end FlowsAt

lemma flowsAt (n : Nat) : FlowsAt n := by
  induction n with
  | zero => constructor <;> intros <;> exact .exhausted
  | succ n ih =>
    exact ⟨fun hs => ih.succ_execute hs, fun hbody => ih.succ_executeAll hbody,
      fun hbody => ih.succ_repeatWhile hbody⟩

/-! ## What passes a flow on -/

/-- **An activity that is about statements ends in a flow.** -/
inductive Activity.EndsIn : Activity → Flow → Machine → Prop
  | execute {n : Nat} {s : Stmt} {m m₁ : Machine} {flow : Flow}
      (h : LoxLang.execute n s m = (.ok flow, m₁)) : EndsIn ⟨n, .execute s, m⟩ flow m₁
  | executeAll {n : Nat} {body : List Stmt} {m m₁ : Machine} {flow : Flow}
      (h : LoxLang.executeAll n body m = (.ok flow, m₁)) : EndsIn ⟨n, .executeAll body, m⟩ flow m₁
  | repeatWhile {n : Nat} {condition : Expr} {body : Stmt} {m m₁ : Machine} {flow : Flow}
      (h : LoxLang.repeatWhile n condition body m = (.ok flow, m₁)) :
      EndsIn ⟨n, .repeatWhile condition body, m⟩ flow m₁

lemma Machine.with_scope_eq {m : Machine} {scope : Scope} (h : m.scope = scope) :
    { m with scope := scope } = m := by
  subst h
  rfl

section Passing

variable {a b : Activity} {link : Link} {flow : Flow} {m₁ : Machine}

/-- An activity puts the scope back. -/
lemma Activity.EndsIn.scope (h : a.EndsIn flow m₁) : m₁.scope = a.machine.scope := by
  cases h with
  | execute h => exact (((restoresAt _).execute _).of_run h).scope
  | executeAll h => exact (((restoresAt _).executeAll _).of_run h).scope
  | repeatWhile h => exact (((restoresAt _).repeatWhile _ _).of_run h).scope

/-- **A statement passes on what a part of it ends in**, unless that is the normal end. -/
lemma Activity.Starts.passes_part (h : a.Starts .part b) (hb : b.EndsIn flow m₁)
    (hflow : flow ≠ .normal) : a.EndsIn flow { m₁ with scope := a.machine.scope } := by
  have hscope := hb.scope
  cases h with
  | block hframe =>
    cases hb with
    | executeAll hb =>
      refine .execute ?_
      rw [((Effect.Restores.onStore _).of_run hframe).scope] at hb
      have hkept := ((Effect.Restores.onStore _).of_run hframe).scope
      simp only [LoxLang.execute, Effect.run_bind, hframe, Effect.scope, Effect.within, hkept, hb]
  | thenBranch hcondition htrue =>
    cases hb with
    | execute hb =>
      have hkept := (((restoresAt _).evaluate _).of_run hcondition).scope
      rw [Machine.with_scope_eq (hscope.trans hkept)]
      refine .execute ?_
      simp only [LoxLang.execute, Effect.run_bind, hcondition, htrue, if_true, hb]
  | elseBranch hcondition hfalse =>
    cases hb with
    | execute hb =>
      have hkept := (((restoresAt _).evaluate _).of_run hcondition).scope
      rw [Machine.with_scope_eq (hscope.trans hkept)]
      refine .execute ?_
      simp only [LoxLang.execute, Effect.run_bind, hcondition, hfalse, Bool.false_eq_true, if_false,
        hb]
  | head =>
    cases hb with
    | execute hb =>
      rw [Machine.with_scope_eq hscope]
      refine .executeAll ?_
      simp only [LoxLang.executeAll, Effect.run_bind, hb]
      cases flow with
      | normal => exact absurd rfl hflow
      | broken | returned => rfl
  | tail hhead =>
    cases hb with
    | executeAll hb =>
      have hkept := (((restoresAt _).execute _).of_run hhead).scope
      rw [Machine.with_scope_eq (hscope.trans hkept)]
      refine .executeAll ?_
      simp only [LoxLang.executeAll, Effect.run_bind, hhead, hb]

/-- A loop ends as the rounds do that were still to come. -/
lemma Activity.Starts.passes_loop (h : a.Starts .loop b) (hb : b.EndsIn flow m₁) :
    a.EndsIn flow { m₁ with scope := a.machine.scope } := by
  have hscope := hb.scope
  cases h with
  | whileLoop =>
    cases hb with
    | repeatWhile hb =>
      rw [Machine.with_scope_eq hscope]
      exact .execute hb
  | again hcondition htrue hround =>
    cases hb with
    | repeatWhile hb =>
      have hkept := ((((restoresAt _).evaluate _).of_run hcondition).trans
        (((restoresAt _).execute _).of_run hround)).scope
      rw [Machine.with_scope_eq (hscope.trans hkept)]
      refine .repeatWhile ?_
      simp only [LoxLang.repeatWhile, Effect.run_bind, hcondition, htrue, if_true, hround, hb]

/-- How a loop ends when a round of it did not end normally. -/
def Flow.afterLoop : Flow → Flow
  | .returned v => .returned v
  | .normal | .broken => .normal

/-- **A loop takes a `break` of its body for itself**, and passes on a `return`. -/
lemma Activity.Starts.takes_round (h : a.Starts .round b) (hb : b.EndsIn flow m₁)
    (hflow : flow ≠ .normal) :
    a.EndsIn flow.afterLoop { m₁ with scope := a.machine.scope } := by
  have hscope := hb.scope
  cases h with
  | round hcondition htrue =>
    cases hb with
    | execute hb =>
      have hkept := (((restoresAt _).evaluate _).of_run hcondition).scope
      rw [Machine.with_scope_eq (hscope.trans hkept)]
      refine .repeatWhile ?_
      simp only [LoxLang.repeatWhile, Effect.run_bind, hcondition, htrue, if_true, hb]
      cases flow with
      | normal => exact absurd rfl hflow
      | broken | returned => rfl

/-- **A call takes every flow of the body for itself.** -/
lemma Activity.Starts.takes_body {n : Nat} {stamp : Stamp} {closure : Closure}
    {arguments : List Value} {paren : Token} {m : Machine}
    (h : Activity.Starts ⟨n, .call (.function stamp closure) arguments paren, m⟩ .body b)
    (hb : b.EndsIn flow m₁) :
    LoxLang.call n (.function stamp closure) arguments paren m =
      closureResult closure flow { m₁ with scope := m.scope } := by
  cases h with
  | body hframe =>
    cases hb with
    | executeAll hb =>
      have hkept := ((Effect.Restores.onStore _).of_run hframe).scope
      simp only [LoxLang.call, Effect.run_bind, hframe, Effect.within, hb, hkept]

end Passing

/-! ## Functions that can be called -/

/-- **A task is about what the likeness allows.** -/
def Task.Sound (ρ : Likeness) (T : List Renaming) (scope : Scope) : Task → Prop
  | .evaluate e => ∃ Γ, scope.Carries T Γ ∧ e.Like ρ Γ e
  | .evaluateAll es => ∃ Γ, scope.Carries T Γ ∧ List.Forall₂ (Expr.Like ρ Γ) es es
  | .invoke value arguments paren =>
    value.Like ρ T value ∧ List.Forall₂ (Value.Like ρ T) arguments arguments ∧ ρ.token paren paren
  | .call c arguments paren =>
    c.Like ρ T c ∧ List.Forall₂ (Value.Like ρ T) arguments arguments ∧ ρ.token paren paren
  | .execute s => ∃ Γ, scope.Carries T Γ ∧ s.Like ρ Γ s ∧ scope.Admits ρ s
  | .executeAll body =>
    ∃ Γ, scope.Carries T Γ ∧ Stmt.LikeAll ρ Γ body body ∧ ∀ s ∈ body, scope.Admits ρ s
  | .repeatWhile condition body =>
    ∃ Γ, scope.Carries T Γ ∧ condition.Like ρ Γ condition ∧ body.Like ρ Γ body ∧
      scope.Admits ρ body

/-- An activity is about what the likeness allows, on a machine that has nothing else either. -/
def Activity.Sound (ρ : Likeness) (a : Activity) : Prop :=
  ∃ T, a.machine.Like ρ T a.machine ∧ a.task.Sound ρ T a.machine.scope

/-- What an effect gives that agrees with itself. -/
lemma Effect.Agree.of_run {ρ : Likeness} {T : List Renaming} {scope : Scope} {α : Type}
    {x : Effect α} {Q : List Renaming → α → α → Prop} (h : Effect.Agree ρ T scope x x Q)
    {m m₁ : Machine} (hm : m.Like ρ T m) (hscope : m.scope = scope) {a : α}
    (hrun : x m = (.ok a, m₁)) :
    ∃ T₁, T <+: T₁ ∧ Q T₁ a a ∧ m₁.Like ρ T₁ m₁ ∧ m₁.scope = scope := by
  obtain ⟨T₁, hT, houtcome, hmachine, hkept⟩ := h m m hm hscope
  rw [hrun] at houtcome hmachine hkept
  cases houtcome with
  | ok ha => exact ⟨T₁, hT, ha, hmachine, hkept⟩

namespace Activity.Sound

variable {ρ : Likeness} {T Γ : List Renaming} {n : Nat} {m m₁ : Machine} {b : Activity}
  {link : Link}

/-- Once an expression was evaluated, the rest of the task goes on in the same scope. -/
lemma after_evaluate (hm : m.Like ρ T m) (hΓ : m.scope.Carries T Γ) {e : Expr} (he : e.Like ρ Γ e)
    {value : Value} (hrun : LoxLang.evaluate n e m = (.ok value, m₁)) :
    ∃ T₁, T <+: T₁ ∧ value.Like ρ T₁ value ∧ m₁.Like ρ T₁ m₁ ∧ m₁.scope.Carries T₁ Γ := by
  obtain ⟨T₁, hT, hvalue, hm₁, hscope⟩ := ((agreeAt ρ n).evaluate he hΓ).of_run hm rfl hrun
  exact ⟨T₁, hT, hvalue, hm₁, hscope ▸ hΓ.grow hT⟩

lemma start_evaluate {e : Expr} (hm : m.Like ρ T m) (hΓ : m.scope.Carries T Γ) (he : e.Like ρ Γ e)
    (hb : Starts ⟨n, .evaluate e, m⟩ link b) : b.Sound ρ := by
  cases hb with
  | grouping =>
    cases he with
    | grouping hinner => exact ⟨T, hm, Γ, hΓ, hinner⟩
  | unary =>
    cases he with
    | unary _ hright => exact ⟨T, hm, Γ, hΓ, hright⟩
  | binaryLeft =>
    cases he with
    | binary hleft _ _ => exact ⟨T, hm, Γ, hΓ, hleft⟩
  | binaryRight hrun =>
    cases he with
    | binary hleft _ hright =>
      obtain ⟨T₁, -, -, hm₁, hΓ₁⟩ := after_evaluate hm hΓ hleft hrun
      exact ⟨T₁, hm₁, Γ, hΓ₁, hright⟩
  | logicalLeft =>
    cases he with
    | logical hleft _ _ => exact ⟨T, hm, Γ, hΓ, hleft⟩
  | logicalRight hrun _ =>
    cases he with
    | logical hleft _ hright =>
      obtain ⟨T₁, -, -, hm₁, hΓ₁⟩ := after_evaluate hm hΓ hleft hrun
      exact ⟨T₁, hm₁, Γ, hΓ₁, hright⟩
  | assign =>
    cases he with
    | assign _ hvalue => exact ⟨T, hm, Γ, hΓ, hvalue⟩
  | callee =>
    cases he with
    | call hcallee _ _ => exact ⟨T, hm, Γ, hΓ, hcallee⟩
  | arguments hrun =>
    cases he with
    | call hcallee _ harguments =>
      obtain ⟨T₁, -, -, hm₁, hΓ₁⟩ := after_evaluate hm hΓ hcallee hrun
      exact ⟨T₁, hm₁, Γ, hΓ₁, harguments⟩
  | invoke hrun hrun' =>
    cases he with
    | call hcallee hparen harguments =>
      obtain ⟨T₁, -, hvalue, hm₁, hΓ₁⟩ := after_evaluate hm hΓ hcallee hrun
      obtain ⟨T₂, hT₂, hvalues, hm₂, -⟩ :=
        ((agreeAt ρ _).evaluateAll harguments hΓ₁).of_run hm₁ rfl hrun'
      exact ⟨T₂, hm₂, hvalue.grow hT₂, hvalues, hparen⟩
  | get =>
    cases he with
    | get hobject _ => exact ⟨T, hm, Γ, hΓ, hobject⟩
  | setObject =>
    cases he with
    | set hobject _ _ => exact ⟨T, hm, Γ, hΓ, hobject⟩
  | setValue hrun =>
    cases he with
    | set hobject _ hvalue =>
      obtain ⟨T₁, -, -, hm₁, hΓ₁⟩ := after_evaluate hm hΓ hobject hrun
      exact ⟨T₁, hm₁, Γ, hΓ₁, hvalue⟩

lemma start_call {c : Callable} {arguments : List Value} {paren : Token} (hm : m.Like ρ T m)
    (hc : c.Like ρ T c) (harguments : List.Forall₂ (Value.Like ρ T) arguments arguments)
    (hparen : ρ.token paren paren) (hb : Starts ⟨n, .call c arguments paren, m⟩ link b) :
    b.Sound ρ := by
  cases hb with
  | body hframe =>
    cases hc with
    | function _ hc =>
      obtain ⟨Γ, hΓ, hdecl⟩ := hc.decl
      obtain ⟨π, hπ, hparams, hbody⟩ := hdecl.exists_renaming
      obtain ⟨T₁, hT, ⟨-, hnew, hlocal⟩, hm₁, -⟩ :=
        (Effect.Agree.addFrame hπ (like_bindParameters hparams harguments)).of_run hm rfl hframe
      refine ⟨T₁, { hm₁ with scope := rfl }, π :: Γ, (hΓ.grow hT).cons hnew, hbody, ?_⟩
      exact Scope.admits_cons hlocal _ (ρ.inner hc.function)
  | construct hid hmethod hbound =>
    cases hc with
    | cls hc =>
      obtain ⟨T₁, hT, -, hm₁, -⟩ := (Effect.Agree.addInstance hc).of_run hm rfl hid
      have hlookup := (hc.grow hT).lookup? initializerName
      rw [hmethod] at hlookup
      cases hlookup with
      | some hmethod =>
        obtain ⟨T₂, hT₂, hinitializer, hm₂, -⟩ :=
          (Effect.Agree.bindMethod hmethod _).of_run hm₁ rfl hbound
        exact ⟨T₂, hm₂, hinitializer, Value.Like.growAll (hT.trans hT₂) harguments, hparen⟩

lemma start_execute {s : Stmt} (hm : m.Like ρ T m) (hΓ : m.scope.Carries T Γ) (hs : s.Like ρ Γ s)
    (hadmits : m.scope.Admits ρ s) (hb : Starts ⟨n, .execute s, m⟩ link b) : b.Sound ρ := by
  cases hb with
  | expression =>
    cases hs with
    | expression he => exact ⟨T, hm, Γ, hΓ, he⟩
  | print =>
    cases hs with
    | print he => exact ⟨T, hm, Γ, hΓ, he⟩
  | var =>
    cases hs with
    | var _ hvalue =>
      cases hvalue with
      | some he => exact ⟨T, hm, Γ, hΓ, he⟩
  | block hframe =>
    cases hs with
    | @block _ _ _ π hπ hbody =>
      obtain ⟨T₁, hT, ⟨-, hnew, hlocal⟩, hm₁, hscope⟩ :=
        (Effect.Agree.addFrame hπ .empty).of_run hm rfl hframe
      refine ⟨T₁, { hm₁ with scope := rfl }, π :: Γ, ?_, hbody, ?_⟩
      · exact (hscope ▸ hΓ.grow hT).cons hnew
      · exact Scope.admits_cons hlocal _ hadmits.function
  | condition =>
    cases hs with
    | ifThen hcondition _ => exact ⟨T, hm, Γ, hΓ, hcondition⟩
    | ifElse hcondition _ _ => exact ⟨T, hm, Γ, hΓ, hcondition⟩
  | thenBranch hrun _ =>
    have hkept := (((restoresAt _).evaluate _).of_run hrun).scope
    cases hs with
    | ifThen hcondition hthen =>
      obtain ⟨T₁, -, -, hm₁, hΓ₁⟩ := after_evaluate hm hΓ hcondition hrun
      exact ⟨T₁, hm₁, Γ, hΓ₁, hthen, hkept ▸ ⟨hadmits.global, hadmits.function⟩⟩
    | ifElse hcondition hthen _ =>
      obtain ⟨T₁, -, -, hm₁, hΓ₁⟩ := after_evaluate hm hΓ hcondition hrun
      exact ⟨T₁, hm₁, Γ, hΓ₁, hthen, hkept ▸ hadmits.thenBranch⟩
  | elseBranch hrun _ =>
    have hkept := (((restoresAt _).evaluate _).of_run hrun).scope
    cases hs with
    | ifElse hcondition _ helse =>
      obtain ⟨T₁, -, -, hm₁, hΓ₁⟩ := after_evaluate hm hΓ hcondition hrun
      exact ⟨T₁, hm₁, Γ, hΓ₁, helse, hkept ▸ hadmits.elseBranch⟩
  | whileLoop =>
    cases hs with
    | whileLoop hcondition hbody =>
      exact ⟨T, hm, Γ, hΓ, hcondition, hbody, hadmits.global, hadmits.function⟩
  | returnValue =>
    cases hs with
    | returnValue _ hvalue =>
      cases hvalue with
      | some he => exact ⟨T, hm, Γ, hΓ, he⟩
  | superclass hname =>
    cases hs with
    | derivedClass hname' hkept he _ =>
      obtain ⟨T₁, hT, -, hm₁, hscope⟩ := (Effect.Agree.define hΓ hkept.symm .nil fun hhead =>
        hadmits.global hhead _ List.mem_cons_self).of_run hm rfl hname
      exact ⟨T₁, hm₁, Γ, hscope ▸ hΓ.grow hT, he⟩

/-- **What is started is sound when what starts it is.** -/
lemma start {a : Activity} (h : a.Sound ρ) (hb : a.Starts link b) : b.Sound ρ := by
  obtain ⟨n, task, m⟩ := a
  obtain ⟨T, hm, htask⟩ := h
  cases task with
  | evaluate e =>
    obtain ⟨Γ, hΓ, he⟩ := htask
    exact start_evaluate hm hΓ he hb
  | evaluateAll es =>
    obtain ⟨Γ, hΓ, hes⟩ := htask
    cases hb with
    | first =>
      cases hes with
      | cons he _ => exact ⟨T, hm, Γ, hΓ, he⟩
    | others hrun =>
      cases hes with
      | cons he hrest =>
        obtain ⟨T₁, -, -, hm₁, hΓ₁⟩ := after_evaluate hm hΓ he hrun
        exact ⟨T₁, hm₁, Γ, hΓ₁, hrest⟩
  | invoke value arguments paren =>
    obtain ⟨hvalue, harguments, hparen⟩ := htask
    cases hb with
    | enter _ _ =>
      cases hvalue with
      | callable hc => exact ⟨T, { hm with depth := rfl }, hc, harguments, hparen⟩
  | call c arguments paren =>
    obtain ⟨hc, harguments, hparen⟩ := htask
    exact start_call hm hc harguments hparen hb
  | execute s =>
    obtain ⟨Γ, hΓ, hs, hadmits⟩ := htask
    exact start_execute hm hΓ hs hadmits hb
  | executeAll body =>
    obtain ⟨Γ, hΓ, hbody, hadmits⟩ := htask
    cases hb with
    | head =>
      cases hbody with
      | cons hs _ => exact ⟨T, hm, Γ, hΓ, hs, hadmits _ List.mem_cons_self⟩
    | tail hrun =>
      cases hbody with
      | cons hs hrest =>
        rw [List.forall_mem_cons] at hadmits
        obtain ⟨T₁, hT, -, hm₁, hscope⟩ :=
          ((agreeAt ρ _).execute hs hΓ hadmits.1).of_run hm rfl hrun
        exact ⟨T₁, hm₁, Γ, hscope ▸ hΓ.grow hT, hrest, hscope ▸ hadmits.2⟩
  | repeatWhile condition body =>
    obtain ⟨Γ, hΓ, hcondition, hbody, hadmits⟩ := htask
    cases hb with
    | whileCondition => exact ⟨T, hm, Γ, hΓ, hcondition⟩
    | round hrun _ =>
      have hkept := (((restoresAt _).evaluate _).of_run hrun).scope
      obtain ⟨T₁, -, -, hm₁, hΓ₁⟩ := after_evaluate hm hΓ hcondition hrun
      exact ⟨T₁, hm₁, Γ, hΓ₁, hbody, hkept ▸ hadmits⟩
    | again hrun _ hround =>
      have hkept := (((restoresAt _).evaluate _).of_run hrun).scope
      obtain ⟨T₁, -, -, hm₁, hΓ₁⟩ := after_evaluate hm hΓ hcondition hrun
      obtain ⟨T₂, hT₂, -, hm₂, hscope⟩ :=
        ((agreeAt ρ _).execute hbody hΓ₁ (hkept ▸ hadmits)).of_run hm₁ rfl hround
      exact ⟨T₂, hm₂, Γ, hscope ▸ hΓ₁.grow hT₂, hcondition, hbody, hscope ▸ hkept ▸ hadmits⟩

end Activity.Sound

/-! ## What is around an activity -/

/-- The statements that a task is about, not counting those in functions that they declare. -/
def Task.parts : Task → List Stmt
  | .execute s => s.parts
  | .executeAll body => Stmt.partsAll body
  | .repeatWhile _ body => body.parts
  | _ => []

/-- Are the statements of a task contained? -/
def Task.Contained (returns : Option Expr → Prop) (loop : Prop) : Task → Prop
  | .execute s => s.Contained returns loop
  | .executeAll body => Stmt.ContainedAll returns loop body
  | .repeatWhile _ body => body.Contained returns True
  | _ => True

/-- The links from a statement to what is in it, inside of the same call. -/
def Link.IsInner (link : Link) : Prop := link = .part ∨ link = .loop ∨ link = .round

section Around

variable (underway : List Link → Activity → Prop)

/-- **The rounds of a loop.**  The loop is under way, and it ends as the rounds do that are still to
come. -/
def Activity.Repeats (links : List Link) (a : Activity) : Prop :=
  ∃ loops outer loop, links = loops ++ outer ∧ (∀ link ∈ loops, link = .loop) ∧
    underway outer loop ∧ loop.Reaches loops a ∧
    (∃ condition body, loop.task = .execute (.whileLoop condition body)) ∧
    ∀ flow m₁, a.EndsIn flow m₁ → loop.EndsIn flow { m₁ with scope := loop.machine.scope }

/-- **A `break` ends the innermost loop.**  The loop is under way, and between it and the activity
there is one round of it and then only statements that are parts of each other; so there is no other
loop and no call between them.  If the activity ends by `break`, then the loop has ended. -/
def Activity.BreaksOut (links : List Link) (a : Activity) : Prop :=
  ∃ parts loops outer loop, links = parts ++ .round :: loops ++ outer ∧
    (∀ link ∈ parts, link = .part) ∧ (∀ link ∈ loops, link = .loop) ∧
    underway outer loop ∧ loop.Reaches (parts ++ .round :: loops) a ∧
    (∃ condition body, loop.task = .execute (.whileLoop condition body)) ∧
    ∀ m₁, a.EndsIn .broken m₁ → loop.EndsIn .normal { m₁ with scope := loop.machine.scope }

/-- **A `return` ends the call of the function that it stands in.**  The call is under way, there is
no other call between it and the activity, and what the activity is about is in the text of the
function and in no function inside of it.  If the activity ends by `return`, then the call has
ended, with this value or with what an initializer gives; and an initializer returns no value. -/
def Activity.ReturnsFrom (links : List Link) (a : Activity) (value : Option Expr) : Prop :=
  ∃ inner outer n stamp closure arguments paren m, links = inner ++ .body :: outer ∧
    (∀ link ∈ inner, link.IsInner) ∧
    underway outer ⟨n, .call (.function stamp closure) arguments paren, m⟩ ∧
    Reaches ⟨n, .call (.function stamp closure) arguments paren, m⟩ (inner ++ [.body]) a ∧
    (closure.isInitializer = true → value = none) ∧
    a.task.parts ⊆ Stmt.partsAll closure.decl.body ∧
    ∀ v m₁, a.EndsIn (.returned v) m₁ → call n (.function stamp closure) arguments paren m =
      closureResult closure (.returned v) { m₁ with scope := m.scope }

/-- What is around an activity contains it. -/
structure Activity.Around (links : List Link) (a : Activity) : Prop where
  contained : a.task.Contained (a.ReturnsFrom underway links) (a.BreaksOut underway links)
  repeats : ∀ {condition body}, a.task = .repeatWhile condition body → a.Repeats underway links

end Around

section Steps

variable {underway : List Link → Activity → Prop} {links : List Link} {link : Link} {a b : Activity}

lemma Task.Contained.mono {returns returns' : Option Expr → Prop} {loop loop' : Prop} {t : Task}
    (hreturns : ∀ {value}, returns value → returns' value) (hloop : loop → loop')
    (h : t.Contained returns loop) : t.Contained returns' loop' := by
  cases t with
  | execute s => exact Stmt.Contained.mono hreturns hloop s h
  | executeAll body => exact Stmt.ContainedAll.mono hreturns hloop body h
  | repeatWhile condition body => exact Stmt.Contained.mono hreturns id body h
  | _ => trivial

namespace Activity

lemma Repeats.of_loop (ha : underway links a)
    (hloop : ∃ condition body, a.task = .execute (.whileLoop condition body))
    (hb : a.Starts .loop b) : b.Repeats underway (.loop :: links) :=
  ⟨[.loop], links, a, rfl, List.forall_mem_singleton.mpr rfl, ha, .start .here hb, hloop,
    fun _ _ hends => hb.passes_loop hends⟩

lemma Repeats.again (h : a.Repeats underway links) (hb : a.Starts .loop b) :
    b.Repeats underway (.loop :: links) := by
  obtain ⟨loops, outer, loop, rfl, hloops, hloop, ha, htask, hends⟩ := h
  refine ⟨.loop :: loops, outer, loop, rfl, List.forall_mem_cons.mpr ⟨rfl, hloops⟩, hloop,
    .start ha hb, htask, fun flow m₁ hflow => ?_⟩
  have hended := hends flow _ (hb.passes_loop hflow)
  exact hended

lemma BreaksOut.of_round (h : a.Repeats underway links) (hb : a.Starts .round b) :
    b.BreaksOut underway (.round :: links) := by
  obtain ⟨loops, outer, loop, rfl, hloops, hloop, ha, htask, hends⟩ := h
  refine ⟨[], loops, outer, loop, rfl, List.forall_mem_nil _, hloops, hloop, .start ha hb, htask,
    fun m₁ hbroken => ?_⟩
  have hended := hends .normal _ (hb.takes_round hbroken nofun)
  exact hended

lemma BreaksOut.part (h : a.BreaksOut underway links) (hb : a.Starts .part b) :
    b.BreaksOut underway (.part :: links) := by
  obtain ⟨parts, loops, outer, loop, rfl, hparts, hloops, hloop, ha, htask, hends⟩ := h
  refine ⟨.part :: parts, loops, outer, loop, rfl, List.forall_mem_cons.mpr ⟨rfl, hparts⟩, hloops,
    hloop, .start ha hb, htask, fun m₁ hbroken => ?_⟩
  have hended := hends _ (hb.passes_part hbroken nofun)
  exact hended

/-- What is started inside of the same call is part of the text of what starts it. -/
lemma Starts.parts_subset (h : a.Starts link b) (hlink : link.IsInner) :
    b.task.parts ⊆ a.task.parts := by
  cases h with
  | block _ | whileLoop => exact List.subset_cons_self _ _
  | @thenBranch _ _ _ elseBranch =>
    cases elseBranch with
    | none => exact List.subset_cons_self _ _
    | some elseBranch =>
      exact List.Subset.trans (List.subset_append_left _ _) (List.subset_cons_self _ _)
  | elseBranch _ _ =>
    exact List.Subset.trans (List.subset_append_right _ _) (List.subset_cons_self _ _)
  | head => exact List.subset_append_left _ _
  | tail _ => exact List.subset_append_right _ _
  | round _ _ | again _ _ _ => exact List.Subset.refl _
  | _ => rcases hlink with hlink | hlink | hlink <;> cases hlink

/-- Inside of the same call a `return` is passed on. -/
lemma Starts.passes_return (h : a.Starts link b) (hlink : link.IsInner) {v : Value} {m₁ : Machine}
    (hb : b.EndsIn (.returned v) m₁) :
    a.EndsIn (.returned v) { m₁ with scope := a.machine.scope } := by
  rcases hlink with rfl | rfl | rfl
  · exact h.passes_part hb nofun
  · exact h.passes_loop hb
  · exact h.takes_round hb nofun

lemma ReturnsFrom.inner {value : Option Expr} (h : a.ReturnsFrom underway links value)
    (hb : a.Starts link b) (hlink : link.IsInner) :
    b.ReturnsFrom underway (link :: links) value := by
  obtain ⟨inner, outer, n, stamp, closure, arguments, paren, m, rfl, hinner, hcall, ha, hvalue,
    hparts, hends⟩ := h
  refine ⟨link :: inner, outer, n, stamp, closure, arguments, paren, m, rfl,
    List.forall_mem_cons.mpr ⟨hlink, hinner⟩, hcall, .start ha hb, hvalue,
    List.Subset.trans (hb.parts_subset hlink) hparts, fun v m₁ hreturned => ?_⟩
  have hended := hends v _ (hb.passes_return hlink hreturned)
  exact hended

lemma ReturnsFrom.of_body {n : Nat} {stamp : Stamp} {closure : Closure} {arguments : List Value}
    {paren : Token} {m : Machine} {value : Option Expr}
    (hcall : underway links ⟨n, .call (.function stamp closure) arguments paren, m⟩)
    (hb : Starts ⟨n, .call (.function stamp closure) arguments paren, m⟩ .body b)
    (hvalue : (FunctionContext.ofClosure closure.isInitializer).MayReturn value) :
    b.ReturnsFrom underway (.body :: links) value := by
  refine ⟨[], links, n, stamp, closure, arguments, paren, m, rfl, List.forall_mem_nil _, hcall,
    .start .here hb, fun hinitializer => ?_, ?_, fun v m₁ hreturned => hb.takes_body hreturned⟩
  · rwa [FunctionContext.ofClosure, if_pos hinitializer] at hvalue
  · cases hb
    exact List.Subset.refl _

/-- **What is around an activity contains what it starts.** -/
lemma Around.start (h : a.Around underway links) (ha : underway links a)
    (hfunction : ∀ {stamp closure arguments paren},
      a.task = .call (.function stamp closure) arguments paren →
      closure.decl.Contained closure.isInitializer) (hb : a.Starts link b) :
    b.Around underway (link :: links) := by
  have hstart := hb
  have hcontained := h.contained
  -- A part of a statement has the same loop and the same call around it.
  have hpart : ∀ {t : Task}, link = .part →
      t.Contained (a.ReturnsFrom underway links) (a.BreaksOut underway links) →
      t.Contained (b.ReturnsFrom underway (link :: links))
        (b.BreaksOut underway (link :: links)) := by
    rintro t rfl ht
    exact ht.mono (fun hvalue => hvalue.inner hstart (.inl rfl)) fun hloop => hloop.part hstart
  cases hb with
  | block _ => exact ⟨hpart rfl hcontained, nofun⟩
  | @thenBranch _ _ _ elseBranch =>
    cases elseBranch with
    | none => exact ⟨hpart rfl hcontained, nofun⟩
    | some elseBranch => exact ⟨hpart rfl hcontained.1, nofun⟩
  | elseBranch _ _ => exact ⟨hpart rfl hcontained.2, nofun⟩
  | head => exact ⟨hpart rfl hcontained.1, nofun⟩
  | tail _ => exact ⟨hpart rfl hcontained.2, nofun⟩
  | whileLoop =>
    refine ⟨Stmt.Contained.mono (fun hvalue => ?_) id _ hcontained, fun _ => ?_⟩
    · exact ReturnsFrom.inner hvalue hstart (.inr (.inl rfl))
    · exact .of_loop ha ⟨_, _, rfl⟩ hstart
  | again _ _ _ =>
    refine ⟨Stmt.Contained.mono (fun hvalue => ?_) id _ hcontained, fun _ => ?_⟩
    · exact ReturnsFrom.inner hvalue hstart (.inr (.inl rfl))
    · exact (h.repeats rfl).again hstart
  | round _ _ =>
    refine ⟨Stmt.Contained.mono (fun hvalue => ?_) (fun _ => ?_) _ hcontained, nofun⟩
    · exact ReturnsFrom.inner hvalue hstart (.inr (.inr rfl))
    · exact .of_round (h.repeats rfl) hstart
  | body _ =>
    have hbody := (FunDecl.contained_iff _ _).mp (hfunction rfl)
    exact ⟨Stmt.ContainedAll.mono (fun hvalue => .of_body ha hstart hvalue) False.elim _ hbody,
      nofun⟩
  | _ => exact ⟨trivial, nofun⟩

end Activity

end Steps

end LoxLang
