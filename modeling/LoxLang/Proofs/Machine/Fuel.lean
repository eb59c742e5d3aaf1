import LoxLang.Proofs.Machine.Activity

/-!
# What fuel decides

Fuel decides nothing but whether a run is finished.  There are two sides to this.

With more fuel, a run that was finished ends in the same way and on the same machine
(`runProgram_of_le`).  An effect *extends* another one if it does the same wherever the other is
finished, and every function that runs a program extends itself with one unit less.

A run is not finished only because something that it started is not finished, with one unit of fuel
less (`Activity.exists_starts_of_exhausts`).  So a run that used up its fuel has a path of starts as
long as the fuel, and what bounds these paths bounds the fuel that is needed: it is enough that a
weight gets smaller with each start (`Activity.not_exhausts_of_weight`).
-/

namespace LoxLang

/-! ## More fuel -/

/-- **An effect extends another**: it does the same, unless the other is out of fuel. -/
def Effect.Extends {α : Type} (x y : Effect α) : Prop :=
  ∀ m, (x m).1 = .exhausted ∨ y m = x m

namespace Effect.Extends

variable {α β : Type} {x y x' y' : Effect α}

lemma refl (x : Effect α) : x.Extends x := fun _ => .inr rfl

lemma trans {z : Effect α} (h : x.Extends y) (h' : y.Extends z) : x.Extends z := by
  intro m
  rcases h m with hx | hy
  · exact .inl hx
  · rw [← hy]
    exact h' m

lemma exhausted (y : Effect α) : (Effect.exhausted : Effect α).Extends y := fun _ => .inl rfl

lemma bind {f g : α → Effect β} (h : x.Extends y) (hf : ∀ a, (f a).Extends (g a)) :
    (x >>= f).Extends (y >>= g) := by
  intro m
  rw [Effect.run_bind, Effect.run_bind]
  rcases h m with hx | hy
  · rcases hrun : x m with ⟨outcome, m₁⟩
    rw [hrun] at hx
    cases hx
    exact .inl rfl
  · rw [hy]
    rcases x m with ⟨outcome, m₁⟩
    cases outcome with
    | ok a => exact hf a m₁
    | error | fault | exhausted => exact .inr rfl

/-- The second effect of two gets more fuel. -/
lemma after (x : Effect α) {f g : α → Effect β} (hf : ∀ a, (f a).Extends (g a)) :
    (x >>= f).Extends (x >>= g) := (refl x).bind hf

/-- The first effect of two gets more fuel. -/
lemma before (h : x.Extends y) (f : α → Effect β) : (x >>= f).Extends (y >>= f) :=
  h.bind fun a => refl (f a)

lemma ite {c : Prop} [Decidable c] (h : x.Extends y) (h' : x'.Extends y') :
    (if c then x else x').Extends (if c then y else y') := by
  by_cases hc : c
  · rw [if_pos hc, if_pos hc]
    exact h
  · rw [if_neg hc, if_neg hc]
    exact h'

lemma within (h : x.Extends y) (scope : Scope) :
    (Effect.within scope x).Extends (Effect.within scope y) := by
  intro m
  simp only [Effect.within]
  rcases h { m with scope := scope } with hx | hy
  · exact .inl hx
  · rw [hy]
    exact .inr rfl

lemma deeper (h : x.Extends y) : (Effect.deeper x).Extends (Effect.deeper y) := by
  intro m
  simp only [Effect.deeper]
  rcases h { m with depth := m.depth + 1 } with hx | hy
  · exact .inl hx
  · rw [hy]
    exact .inr rfl

end Effect.Extends

open Effect (Extends)

/-- **One more unit of fuel extends every run.** -/
structure ExtendsAt (n : Nat) : Prop where
  evaluate : ∀ e, (evaluate n e).Extends (evaluate (n + 1) e)
  evaluateAll : ∀ es, (evaluateAll n es).Extends (evaluateAll (n + 1) es)
  invoke : ∀ value arguments paren,
    (invoke n value arguments paren).Extends (invoke (n + 1) value arguments paren)
  call : ∀ c arguments paren,
    (call n c arguments paren).Extends (call (n + 1) c arguments paren)
  execute : ∀ s, (execute n s).Extends (execute (n + 1) s)
  executeAll : ∀ body, (executeAll n body).Extends (executeAll (n + 1) body)
  repeatWhile : ∀ condition body,
    (repeatWhile n condition body).Extends (repeatWhile (n + 1) condition body)

namespace ExtendsAt

variable {n : Nat}

lemma succ_evaluate (h : ExtendsAt n) (e : Expr) :
    (LoxLang.evaluate (n + 1) e).Extends (LoxLang.evaluate (n + 1 + 1) e) := by
  cases e with
  | literal | «variable» | this | super => exact .refl _
  | grouping inner => exact h.evaluate inner
  | unary operator right => exact (h.evaluate right).before _
  | binary left operator right =>
    exact (h.evaluate left).bind fun a => (h.evaluate right).before _
  | logical left operator right =>
    exact (h.evaluate left).bind fun a => .ite (.refl _) (h.evaluate right)
  | assign ref name value => exact (h.evaluate value).before _
  | call callee paren arguments =>
    refine (h.evaluate callee).bind fun c => (h.evaluateAll arguments).bind fun values => ?_
    exact h.invoke c values paren
  | get object name => exact (h.evaluate object).before _
  | set object name value =>
    refine (h.evaluate object).bind fun target => ?_
    cases target with
    | object id => exact (h.evaluate value).before _
    | _ => exact .refl _

lemma succ_evaluateAll (h : ExtendsAt n) (es : List Expr) :
    (LoxLang.evaluateAll (n + 1) es).Extends (LoxLang.evaluateAll (n + 1 + 1) es) := by
  cases es with
  | nil => exact .refl _
  | cons e rest => exact (h.evaluate e).bind fun _ => (h.evaluateAll rest).before _

lemma succ_invoke (h : ExtendsAt n) (value : Value) (arguments : List Value) (paren : Token) :
    (LoxLang.invoke (n + 1) value arguments paren).Extends
      (LoxLang.invoke (n + 1 + 1) value arguments paren) := by
  cases value with
  | callable c =>
    refine .ite (.refl _) (.after _ fun full => .ite (.refl _) ?_)
    exact (h.call c arguments paren).deeper
  | _ => exact .refl _

lemma succ_call (h : ExtendsAt n) (c : Callable) (arguments : List Value) (paren : Token) :
    (LoxLang.call (n + 1) c arguments paren).Extends
      (LoxLang.call (n + 1 + 1) c arguments paren) := by
  cases c with
  | builtin stamp b receiver => exact .refl _
  | function stamp closure =>
    exact .after _ fun frame => ((h.executeAll closure.decl.body).within _).before _
  | cls c =>
    refine .after _ fun id => ?_
    cases c.lookup? initializerName with
    | none => exact .refl _
    | some method => exact .after _ fun initializer => (h.call initializer arguments paren).before _

lemma succ_execute (h : ExtendsAt n) (s : Stmt) :
    (LoxLang.execute (n + 1) s).Extends (LoxLang.execute (n + 1 + 1) s) := by
  cases s with
  | expression e | print e => exact (h.evaluate e).before _
  | var name value =>
    cases value with
    | none => exact .refl _
    | some e => exact (h.evaluate e).before _
  | block body => exact .after _ fun frame => .after _ fun outer => (h.executeAll body).within _
  | ifThen condition thenBranch elseBranch =>
    refine (h.evaluate condition).bind fun value => .ite (h.execute thenBranch) ?_
    cases elseBranch with
    | none => exact .refl _
    | some s => exact h.execute s
  | whileLoop condition body => exact h.repeatWhile condition body
  | breakLoop | function => exact .refl _
  | returnValue keyword value =>
    cases value with
    | none => exact .refl _
    | some e => exact (h.evaluate e).before _
  | classDecl name superclass methods =>
    cases superclass with
    | none => exact .refl _
    | some e => exact .after _ fun _ => (h.evaluate e).before _

lemma succ_executeAll (h : ExtendsAt n) (body : List Stmt) :
    (LoxLang.executeAll (n + 1) body).Extends (LoxLang.executeAll (n + 1 + 1) body) := by
  cases body with
  | nil => exact .refl _
  | cons s rest =>
    refine (h.execute s).bind fun flow => ?_
    cases flow with
    | normal => exact h.executeAll rest
    | broken | returned => exact .refl _

lemma succ_repeatWhile (h : ExtendsAt n) (condition : Expr) (body : Stmt) :
    (LoxLang.repeatWhile (n + 1) condition body).Extends
      (LoxLang.repeatWhile (n + 1 + 1) condition body) := by
  refine (h.evaluate condition).bind fun value => .ite ?_ (.refl _)
  refine (h.execute body).bind fun flow => ?_
  cases flow with
  | normal => exact h.repeatWhile condition body
  | broken | returned => exact .refl _

end ExtendsAt

lemma extendsAt (n : Nat) : ExtendsAt n := by
  induction n with
  | zero => constructor <;> intros <;> exact .exhausted _
  | succ n ih =>
    exact ⟨ih.succ_evaluate, ih.succ_evaluateAll, ih.succ_invoke, ih.succ_call, ih.succ_execute,
      ih.succ_executeAll, ih.succ_repeatWhile⟩

lemma extends_runProgram_succ (fuel : Nat) (program : List Stmt) :
    (runProgram fuel program).Extends (runProgram (fuel + 1) program) := by
  induction program with
  | nil => exact .refl _
  | cons s rest ih => exact ((extendsAt fuel).execute s).bind fun _ => ih

lemma extends_runProgram {fuel fuel' : Nat} (hle : fuel ≤ fuel') (program : List Stmt) :
    (runProgram fuel program).Extends (runProgram fuel' program) := by
  induction hle with
  | refl => exact .refl _
  | step _ ih => exact ih.trans (extends_runProgram_succ _ program)

/-- **A program that is finished ends in the same way with more fuel.** -/
lemma runProgram_of_le {fuel fuel' : Nat} (hle : fuel ≤ fuel') {program : List Stmt} {m : Machine}
    (h : (runProgram fuel program m).1 ≠ .exhausted) :
    runProgram fuel' program m = runProgram fuel program m := by
  rcases extends_runProgram hle program m with hexhausted | heq
  · exact absurd hexhausted h
  · exact heq

/-! ## Effects that always finish -/

/-- An effect that needs no fuel. -/
def Effect.Finishes {α : Type} (x : Effect α) : Prop := ∀ m, (x m).1 ≠ .exhausted

section Exhausted

variable {α β : Type} {x : Effect α} {f : α → Effect β} {m : Machine}

/-- Where the fuel was used up. -/
lemma Effect.exhausted_bind (h : ((x >>= f) m).1 = .exhausted) :
    (x m).1 = .exhausted ∨ ∃ a m₁, x m = (.ok a, m₁) ∧ (f a m₁).1 = .exhausted := by
  rw [Effect.run_bind] at h
  rcases hrun : x m with ⟨outcome, m₁⟩
  rw [hrun] at h
  cases outcome with
  | ok a => exact .inr ⟨a, m₁, rfl, h⟩
  | error | fault => cases h
  | exhausted => exact .inl rfl

namespace Effect.Finishes

lemma exists_after (hx : x.Finishes) (h : ((x >>= f) m).1 = .exhausted) :
    ∃ a m₁, x m = (.ok a, m₁) ∧ (f a m₁).1 = .exhausted :=
  (Effect.exhausted_bind h).resolve_left (hx m)

lemma bind (hx : x.Finishes) (hf : ∀ a, (f a).Finishes) : (x >>= f).Finishes := by
  intro m h
  obtain ⟨a, m₁, -, hlast⟩ := hx.exists_after h
  exact hf a m₁ hlast

end Effect.Finishes

end Exhausted

/-- What is done between two steps of a run needs no fuel. -/
lemma finishing : Effect.Rules (fun _ => True) @Effect.Finishes where
  bind := .bind
  onView _ hf m := (hf m.scope m.distances m.store).1
  write _ := nofun
  readLine := nofun
  readClock := nofun

/-! ## What a run without fuel has started -/

/-- **An activity uses up its fuel.** -/
def Activity.Exhausts (a : Activity) : Prop :=
  match a.task with
  | .evaluate x => (LoxLang.evaluate a.fuel x a.machine).1 = .exhausted
  | .evaluateAll xs => (LoxLang.evaluateAll a.fuel xs a.machine).1 = .exhausted
  | .invoke value arguments paren =>
    (LoxLang.invoke a.fuel value arguments paren a.machine).1 = .exhausted
  | .call c arguments paren => (LoxLang.call a.fuel c arguments paren a.machine).1 = .exhausted
  | .execute s => (LoxLang.execute a.fuel s a.machine).1 = .exhausted
  | .executeAll body => (LoxLang.executeAll a.fuel body a.machine).1 = .exhausted
  | .repeatWhile condition body =>
    (LoxLang.repeatWhile a.fuel condition body a.machine).1 = .exhausted

namespace Activity

/-- An activity starts one that uses up its fuel. -/
def StartsExhausting (a : Activity) : Prop := ∃ link b, a.Starts link b ∧ b.Exhausts

variable {n : Nat} {m : Machine}

lemma starts_of_evaluate {e : Expr} (h : (LoxLang.evaluate (n + 1) e m).1 = .exhausted) :
    StartsExhausting ⟨n + 1, .evaluate e, m⟩ := by
  cases e with
  | literal value => cases h
  | grouping inner => exact ⟨_, _, .grouping, h⟩
  | unary operator right =>
    rcases Effect.exhausted_bind h with hright | ⟨value, m₁, -, happly⟩
    · exact ⟨_, _, .unary, hright⟩
    · exact absurd happly (finishing.applyUnary _ _ _)
  | binary left operator right =>
    rcases Effect.exhausted_bind h with hleft | ⟨a, m₁, hleft, hrest⟩
    · exact ⟨_, _, .binaryLeft, hleft⟩
    rcases Effect.exhausted_bind hrest with hright | ⟨b, m₂, -, happly⟩
    · exact ⟨_, _, .binaryRight hleft, hright⟩
    · exact absurd happly (finishing.applyBinary _ _ _ _)
  | logical left operator right =>
    rcases Effect.exhausted_bind h with hleft | ⟨a, m₁, hleft, hrest⟩
    · exact ⟨_, _, .logicalLeft, hleft⟩
    by_cases hdecided : isDecided operator a = true
    · rw [if_pos hdecided] at hrest
      cases hrest
    · rw [if_neg hdecided] at hrest
      exact ⟨_, _, .logicalRight hleft (by simpa using hdecided), hrest⟩
  | «variable» ref name => exact absurd h (finishing.readRef _ _ _)
  | this ref keyword => exact absurd h (finishing.readRef _ _ _)
  | assign ref name value =>
    rcases Effect.exhausted_bind h with hvalue | ⟨v, m₁, -, hwrite⟩
    · exact ⟨_, _, .assign, hvalue⟩
    · exact absurd hwrite
        (finishing.bind (finishing.writeRef ref trivial v) (fun _ => finishing.pure v) m₁)
  | call callee paren arguments =>
    rcases Effect.exhausted_bind h with hcallee | ⟨c, m₁, hcallee, hrest⟩
    · exact ⟨_, _, .callee, hcallee⟩
    rcases Effect.exhausted_bind hrest with harguments | ⟨values, m₂, harguments, hinvoke⟩
    · exact ⟨_, _, .arguments hcallee, harguments⟩
    · exact ⟨_, _, .invoke hcallee harguments, hinvoke⟩
  | get object name =>
    rcases Effect.exhausted_bind h with hobject | ⟨value, m₁, -, hproperty⟩
    · exact ⟨_, _, .get, hobject⟩
    · cases value with
      | object id => exact absurd hproperty (finishing.property _ _ _)
      | _ => cases hproperty
  | set object name value =>
    rcases Effect.exhausted_bind h with hobject | ⟨target, m₁, hobject, hrest⟩
    · exact ⟨_, _, .setObject, hobject⟩
    cases target with
    | object id =>
      rcases Effect.exhausted_bind hrest with hvalue | ⟨v, m₂, -, hset⟩
      · exact ⟨_, _, .setValue hobject, hvalue⟩
      · cases hset
    | _ => cases hrest
  | super ref keyword method => exact absurd h (finishing.superMethod _ _ _ _)

lemma starts_of_evaluateAll {es : List Expr}
    (h : (LoxLang.evaluateAll (n + 1) es m).1 = .exhausted) :
    StartsExhausting ⟨n + 1, .evaluateAll es, m⟩ := by
  cases es with
  | nil => cases h
  | cons e rest =>
    rcases Effect.exhausted_bind h with hfirst | ⟨value, m₁, hfirst, hrest⟩
    · exact ⟨_, _, .first, hfirst⟩
    rcases Effect.exhausted_bind hrest with hothers | ⟨values, m₂, -, hpure⟩
    · exact ⟨_, _, .others hfirst, hothers⟩
    · cases hpure

lemma starts_of_invoke {value : Value} {arguments : List Value} {paren : Token}
    (h : (LoxLang.invoke (n + 1) value arguments paren m).1 = .exhausted) :
    StartsExhausting ⟨n + 1, .invoke value arguments paren, m⟩ := by
  cases value with
  | callable c =>
    simp only [LoxLang.invoke] at h
    by_cases harity : arguments.length = c.arity
    · rw [if_neg (not_not.mpr harity), Effect.run_bind] at h
      by_cases hfull : m.limit ≤ m.depth
      · simp [Effect.isAtLimit, hfull, Effect.raise] at h
      · simp only [Effect.isAtLimit, hfull, decide_false, Bool.false_eq_true, if_false] at h
        exact ⟨_, _, .enter harity (Nat.not_le.mp hfull), h⟩
    · rw [if_pos harity] at h
      cases h
  | _ => cases h

lemma starts_of_call {c : Callable} {arguments : List Value} {paren : Token}
    (h : (LoxLang.call (n + 1) c arguments paren m).1 = .exhausted) :
    StartsExhausting ⟨n + 1, .call c arguments paren, m⟩ := by
  cases c with
  | builtin stamp b receiver => exact absurd h (finishing.callBuiltin _ _ _ _ _)
  | function stamp closure =>
    obtain ⟨frame, m₁, hframe, hrest⟩ := (finishing.addFrame _).exists_after h
    rcases Effect.exhausted_bind hrest with hbody | ⟨flow, m₂, -, hresult⟩
    · exact ⟨_, _, .body hframe, hbody⟩
    · exact absurd hresult (finishing.closureResult _ _ _)
  | cls c =>
    obtain ⟨id, m₁, hid, hrest⟩ := (finishing.addInstance c).exists_after h
    cases hmethod : c.lookup? initializerName with
    | none =>
      rw [hmethod] at hrest
      cases hrest
    | some method =>
      rw [hmethod] at hrest
      obtain ⟨initializer, m₂, hbound, hcall⟩ := (finishing.bindMethod method id).exists_after hrest
      rcases Effect.exhausted_bind hcall with hinit | ⟨value, m₃, -, hpure⟩
      · exact ⟨_, _, .construct hid hmethod hbound, hinit⟩
      · cases hpure

lemma starts_of_execute {s : Stmt} (h : (LoxLang.execute (n + 1) s m).1 = .exhausted) :
    StartsExhausting ⟨n + 1, .execute s, m⟩ := by
  cases s with
  | expression e =>
    rcases Effect.exhausted_bind h with he | ⟨value, m₁, -, hpure⟩
    · exact ⟨_, _, .expression, he⟩
    · cases hpure
  | print e =>
    rcases Effect.exhausted_bind h with he | ⟨value, m₁, -, hprint⟩
    · exact ⟨_, _, .print, he⟩
    · cases hprint
  | var name value =>
    cases value with
    | none => cases h
    | some e =>
      rcases Effect.exhausted_bind h with he | ⟨value, m₁, -, hdefine⟩
      · exact ⟨_, _, .var, he⟩
      · cases hdefine
  | block body =>
    obtain ⟨frame, m₁, hframe, hbody⟩ := (finishing.addFrame _).exists_after h
    exact ⟨_, _, .block hframe, hbody⟩
  | ifThen condition thenBranch elseBranch =>
    rcases Effect.exhausted_bind h with hcondition | ⟨value, m₁, hcondition, hrest⟩
    · exact ⟨_, _, .condition, hcondition⟩
    by_cases htrue : value.isTruthy = true
    · rw [if_pos htrue] at hrest
      exact ⟨_, _, .thenBranch hcondition htrue, hrest⟩
    · rw [if_neg htrue] at hrest
      cases elseBranch with
      | none => cases hrest
      | some s => exact ⟨_, _, .elseBranch hcondition (by simpa using htrue), hrest⟩
  | whileLoop condition body => exact ⟨_, _, .whileLoop, h⟩
  | breakLoop keyword => cases h
  | returnValue keyword value =>
    cases value with
    | none => cases h
    | some e =>
      rcases Effect.exhausted_bind h with he | ⟨value, m₁, -, hpure⟩
      · exact ⟨_, _, .returnValue, he⟩
      · cases hpure
  | function decl => cases h
  | classDecl name superclass methods =>
    cases superclass with
    | none => cases h
    | some e =>
      obtain ⟨_, m₁, hname, hrest⟩ := (finishing.define trivial _).exists_after h
      rcases Effect.exhausted_bind hrest with he | ⟨value, m₂, -, hclass⟩
      · exact ⟨_, _, .superclass hname, he⟩
      · obtain ⟨parent, m₃, -, hdefine⟩ := (finishing.expectClass _ _).exists_after hclass
        exact absurd hdefine ((finishing.defineClass trivial (some parent) methods).bind
          (fun _ => finishing.pure _) m₃)

lemma starts_of_executeAll {body : List Stmt}
    (h : (LoxLang.executeAll (n + 1) body m).1 = .exhausted) :
    StartsExhausting ⟨n + 1, .executeAll body, m⟩ := by
  cases body with
  | nil => cases h
  | cons s rest =>
    rcases Effect.exhausted_bind h with hs | ⟨flow, m₁, hs, hrest⟩
    · exact ⟨_, _, .head, hs⟩
    cases flow with
    | normal => exact ⟨_, _, .tail hs, hrest⟩
    | broken | returned => cases hrest

lemma starts_of_repeatWhile {condition : Expr} {body : Stmt}
    (h : (LoxLang.repeatWhile (n + 1) condition body m).1 = .exhausted) :
    StartsExhausting ⟨n + 1, .repeatWhile condition body, m⟩ := by
  rcases Effect.exhausted_bind h with hcondition | ⟨value, m₁, hcondition, hrest⟩
  · exact ⟨_, _, .whileCondition, hcondition⟩
  by_cases htrue : value.isTruthy = true
  · rw [if_pos htrue] at hrest
    rcases Effect.exhausted_bind hrest with hbody | ⟨flow, m₂, hbody, hagain⟩
    · exact ⟨_, _, .round hcondition htrue, hbody⟩
    cases flow with
    | normal => exact ⟨_, _, .again hcondition htrue hbody, hagain⟩
    | broken | returned => cases hagain
  · rw [if_neg htrue] at hrest
    cases hrest

/-- **Fuel is used up by what was started**, or there was none. -/
lemma exists_starts_of_exhausts {a : Activity} (h : a.Exhausts) :
    a.fuel = 0 ∨ a.StartsExhausting := by
  obtain ⟨n, task, m⟩ := a
  cases n with
  | zero => exact .inl rfl
  | succ n =>
    refine .inr ?_
    cases task with
    | evaluate => exact starts_of_evaluate h
    | evaluateAll => exact starts_of_evaluateAll h
    | invoke => exact starts_of_invoke h
    | call => exact starts_of_call h
    | execute => exact starts_of_execute h
    | executeAll => exact starts_of_executeAll h
    | repeatWhile => exact starts_of_repeatWhile h

lemma Starts.fuel_eq {a b : Activity} {link : Link} (h : a.Starts link b) :
    a.fuel = b.fuel + 1 := by
  cases h <;> rfl

/-- **Fuel above a weight is enough**, if the weight gets smaller with each start, among activities
that have some property and start only such. -/
lemma not_exhausts_of_weight {P : Activity → Prop} {weight : Activity → Nat}
    (hstep : ∀ {a b link}, P a → a.Starts link b → P b ∧ weight b < weight a) {a : Activity}
    (ha : P a) (hfuel : weight a < a.fuel) : ¬a.Exhausts := by
  induction hn : a.fuel generalizing a with
  | zero => omega
  | succ n ih =>
    intro hexhausts
    rcases exists_starts_of_exhausts hexhausts with hzero | ⟨link, b, hb, hexhausts'⟩
    · omega
    · obtain ⟨hPb, hlt⟩ := hstep ha hb
      have hless := hb.fuel_eq
      exact ih hPb (by omega) (by omega) hexhausts'

end Activity

/-- The statement in which a program used up its fuel. -/
lemma exists_exhausted {fuel : Nat} {program : List Stmt} {m : Machine}
    (h : (runProgram fuel program m).1 = .exhausted) :
    ∃ before s rest m₁, program = before ++ s :: rest ∧
      runProgram fuel before m = (.ok (), m₁) ∧ (execute fuel s m₁).1 = .exhausted := by
  induction program generalizing m with
  | nil => cases h
  | cons s rest ih =>
    rcases Effect.exhausted_bind h with hs | ⟨flow, m₁, hs, hrest⟩
    · exact ⟨[], s, rest, m, rfl, rfl, hs⟩
    · obtain ⟨before, last, after, m₂, hprogram, hbefore, hlast⟩ := ih hrest
      refine ⟨s :: before, last, after, m₂, ?_, ?_, hlast⟩
      · rw [hprogram, List.cons_append]
      · simp only [runProgram, Effect.run_bind, hs, hbefore]

end LoxLang
