import LoxLang.Machine.Run
import LoxLang.Proofs.Scope.Lexical

/-!
# Watched runs

What a reference means can only be compared with what a run does if the run tells which frame it
made for which region of the program.  A *watched* run does what a run does and notes two things
on the way: that a region was entered, with the frame that was made for it, and that a reference
was followed, with the machine on which it was.

Watching changes nothing: a watched run without its notes is the run (`Watched.erases_evaluate` and
the others).  The notes of a run that fails, or whose fuel is used up, are the notes of what was
done until then, so every prefix of a run can be watched.
-/

namespace LoxLang

/-! ## Notes -/

/-- What is noted of a run. -/
inductive Observation where
  /-- A frame was made for a region, in front of the scope around it. -/
  | opened (region : Region) (frame : FrameId) (outer : Scope)
  /-- A reference was followed on a machine. -/
  | followed (reference : Reference) (machine : Machine)

/-- A machine, and what was noted so far, in order. -/
structure Watch where
  machine : Machine
  trace : List Observation

/-- An effect on a machine that is watched. -/
def Watched (α : Type) : Type := Watch → Outcome α × Watch

namespace Watched

variable {α β : Type}

instance : Monad Watched where
  pure a := fun w => (.ok a, w)
  bind x f := fun w =>
    match x w with
    | (.ok a, w) => f a w
    | (.error e, w) => (.error e, w)
    | (.fault f, w) => (.fault f, w)
    | (.exhausted, w) => (.exhausted, w)

lemma run_bind (x : Watched α) (f : α → Watched β) (w : Watch) :
    (x >>= f) w = match x w with
      | (.ok a, w) => f a w
      | (.error e, w) => (.error e, w)
      | (.fault f, w) => (.fault f, w)
      | (.exhausted, w) => (.exhausted, w) := rfl

/-- An effect with notes on the machine that it finds. -/
def noting (notes : Machine → List Observation) (x : Effect α) : Watched α := fun w =>
  let (outcome, m) := x w.machine
  (outcome, ⟨m, w.trace ++ notes w.machine⟩)

/-- An effect of which nothing is noted. -/
def quietly (x : Effect α) : Watched α := fun w =>
  let (outcome, m) := x w.machine
  (outcome, { w with machine := m })

/-- Runs an effect in another scope and puts the old one back. -/
def within (scope : Scope) (x : Watched α) : Watched α := fun w =>
  let old := w.machine.scope
  let (outcome, w) := x { w with machine := { w.machine with scope := scope } }
  (outcome, { w with machine := { w.machine with scope := old } })

/-- Runs an effect one call further down and puts the old depth back. -/
def deeper (x : Watched α) : Watched α := fun w =>
  let old := w.machine.depth
  let (outcome, w) := x { w with machine := { w.machine with depth := old + 1 } }
  (outcome, { w with machine := { w.machine with depth := old } })

/-! ## Effects that are noted -/

/-- Adds a frame for a region inside a scope. -/
def openFrame (region : Region) (outer : Scope) (bindings : Bindings Value) : Watched FrameId :=
  noting (fun m => [.opened region m.store.frames.size outer]) (Effect.addFrame bindings)

/-- What is noted when a method is bound.  Only a declared method gets a frame. -/
def receiverNotes (method : Method) (m : Machine) : List Observation :=
  match method with
  | .declared closure => [.opened (.receiver closure.decl) m.store.frames.size closure.scope]
  | .builtin _ => []

/-- A method bound to an instance. -/
def bindMethod (method : Method) (id : InstanceId) : Watched Callable :=
  noting (receiverNotes method) (Effect.bindMethod method id)

/-- The value that a reference denotes. -/
def readRef (use : ReferenceUse) (ref : RefId) (name : Token) : Watched Value :=
  noting (fun m => [.followed ⟨use, ref, name⟩ m]) (Effect.readRef ref name)

/-- Changes the value that a reference denotes. -/
def writeRef (ref : RefId) (name : Token) (value : Value) : Watched Unit :=
  noting (fun m => [.followed ⟨.assign, ref, name⟩ m]) (Effect.writeRef ref name value)

/-- The value of a property. -/
def property (id : InstanceId) (name : Token) : Watched Value := fun w =>
  match (w.machine.store.fields id).find? name.lexeme with
  | some value => (.ok value, w)
  | none =>
    match (w.machine.store.instances[id]?).bind fun i => i.cls.lookup? name.lexeme with
    | some method => (bindMethod method id >>= fun c => pure (.callable c)) w
    | none => (.error ⟨name, .undefinedProperty name.lexeme⟩, w)

/-- Binds a class with its methods. -/
def defineClass (name : Token) (superclass : Option Class) (methods : List FunDecl) :
    Watched Unit := do
  let outer ← quietly Effect.scope
  let inner ←
    match superclass with
    | none => pure outer
    | some c =>
      let frame ← openFrame (.parent name methods) outer
        (Bindings.empty.insert "super" (.callable (.cls c)))
      pure (frame :: outer)
  let stamp ← quietly Effect.freshStamp
  let own : ClassLayer := ⟨stamp, name.lexeme, methodTable inner methods⟩
  quietly (Effect.define name.lexeme (.callable (.cls (.extend own superclass))))

/-- A method of the superclass, bound to the instance at hand. -/
def superMethod (ref : RefId) (keyword method : Token) : Watched Value := do
  match ← noting (fun m => [.followed ⟨.super, ref, keyword⟩ m]) (Effect.distance? ref) with
  | none => quietly (Effect.raise keyword (.undefinedVariable "super"))
  | some d =>
    let current ← quietly Effect.scope
    match ← quietly (Effect.readAt current d "super") with
    | .callable (.cls parent) =>
      match ← quietly (Effect.readAt current (d - 1) "this") with
      | .object id =>
        match parent.lookup? method.lexeme with
        | some m =>
          let bound ← bindMethod m id
          pure (.callable bound)
        | none => quietly (Effect.raise method (.undefinedProperty method.lexeme))
      | _ => quietly (Effect.raise keyword .superWithoutThis)
    | _ => quietly (Effect.raise keyword .superclassNotClass)

/-! ## Watched runs of programs -/

mutual

/-- Evaluates an expression. -/
def evaluate : Nat → Expr → Watched Value
  | 0, _ => quietly Effect.exhausted
  | n + 1, e =>
    match e with
    | .literal value => pure (.ofLiteral value)
    | .grouping inner => evaluate n inner
    | .unary operator right => do
      let value ← evaluate n right
      quietly (applyUnary operator value)
    | .binary left operator right => do
      let a ← evaluate n left
      let b ← evaluate n right
      quietly (applyBinary operator a b)
    | .logical left operator right => do
      let a ← evaluate n left
      if isDecided operator a then pure a else evaluate n right
    | .variable ref name => readRef .read ref name
    | .this ref keyword => readRef .this ref keyword
    | .assign ref name value => do
      let v ← evaluate n value
      writeRef ref name v
      pure v
    | .call callee paren arguments => do
      let c ← evaluate n callee
      let values ← evaluateAll n arguments
      invoke n c values paren
    | .get object name => do
      match ← evaluate n object with
      | .object id => property id name
      | _ => quietly (Effect.raise name .noProperties)
    | .set object name value => do
      match ← evaluate n object with
      | .object id =>
        let v ← evaluate n value
        quietly (Effect.setField id name.lexeme v)
        pure v
      | _ => quietly (Effect.raise name .noFields)
    | .super ref keyword method => superMethod ref keyword method

/-- Evaluates expressions from left to right. -/
def evaluateAll : Nat → List Expr → Watched (List Value)
  | 0, _ => quietly Effect.exhausted
  | _ + 1, [] => pure []
  | n + 1, e :: rest => do
    let first ← evaluate n e
    let others ← evaluateAll n rest
    pure (first :: others)

/-- Calls a value, if it can be called with these arguments and there is room for a call. -/
def invoke : Nat → Value → List Value → Token → Watched Value
  | 0, _, _, _ => quietly Effect.exhausted
  | n + 1, value, arguments, paren =>
    match value with
    | .callable c => do
      if arguments.length ≠ c.arity then
        quietly (Effect.raise paren (.wrongArity c.arity arguments.length))
      else if ← quietly Effect.isAtLimit then quietly (Effect.raise paren .stackOverflow)
      else deeper (call n c arguments paren)
    | _ => quietly (Effect.raise paren .notCallable)

/-- Calls a builtin, a function or a class. -/
def call : Nat → Callable → List Value → Token → Watched Value
  | 0, _, _, _ => quietly Effect.exhausted
  | n + 1, c, arguments, paren =>
    match c with
    | .builtin _ b receiver => quietly (b.call receiver arguments paren)
    | .function _ closure => do
      let frame ← openFrame (.call closure.decl) closure.scope
        (bindParameters closure.decl.params arguments)
      let flow ← within (frame :: closure.scope) (executeAll n closure.decl.body)
      quietly (closureResult closure flow)
    | .cls c => do
      let id ← quietly (Effect.addInstance c)
      match c.lookup? initializerName with
      | none => pure (.object id)
      | some method =>
        let initializer ← bindMethod method id
        let _ ← call n initializer arguments paren
        pure (.object id)

/-- Executes a statement. -/
def execute : Nat → Stmt → Watched Flow
  | 0, _ => quietly Effect.exhausted
  | n + 1, s =>
    match s with
    | .expression e => do
      let _ ← evaluate n e
      pure .normal
    | .print e => do
      let value ← evaluate n e
      let line ← quietly (Effect.text value)
      quietly (Effect.write (.printed line))
      pure .normal
    | .var name none => do
      quietly (Effect.define name.lexeme .nil)
      pure .normal
    | .var name (some e) => do
      let value ← evaluate n e
      quietly (Effect.define name.lexeme value)
      pure .normal
    | .block body => do
      let outer ← quietly Effect.scope
      let frame ← openFrame (.block body) outer .empty
      within (frame :: outer) (executeAll n body)
    | .ifThen condition thenBranch elseBranch => do
      let value ← evaluate n condition
      if value.isTruthy then execute n thenBranch
      else
        match elseBranch with
        | some s => execute n s
        | none => pure .normal
    | .whileLoop condition body => repeatWhile n condition body
    | .breakLoop _ => pure .broken
    | .returnValue _ none => pure (.returned .nil)
    | .returnValue _ (some e) => do
      let value ← evaluate n e
      pure (.returned value)
    | .function decl => do
      let stamp ← quietly Effect.freshStamp
      let current ← quietly Effect.scope
      quietly (Effect.define decl.name.lexeme (.callable (.function stamp ⟨decl, current, false⟩)))
      pure .normal
    | .classDecl name none methods => do
      quietly (Effect.define name.lexeme .nil)
      defineClass name none methods
      pure .normal
    | .classDecl name (some e) methods => do
      quietly (Effect.define name.lexeme .nil)
      let value ← evaluate n e
      let parent ← quietly (expectClass (superclassToken e name) value)
      defineClass name (some parent) methods
      pure .normal

/-- Executes statements in order, until one does not end normally. -/
def executeAll : Nat → List Stmt → Watched Flow
  | 0, _ => quietly Effect.exhausted
  | _ + 1, [] => pure .normal
  | n + 1, s :: rest => do
    match ← execute n s with
    | .normal => executeAll n rest
    | flow => pure flow

/-- Executes a loop. -/
def repeatWhile : Nat → Expr → Stmt → Watched Flow
  | 0, _, _ => quietly Effect.exhausted
  | n + 1, condition, body => do
    let value ← evaluate n condition
    if value.isTruthy then
      match ← execute n body with
      | .normal => repeatWhile n condition body
      | .broken => pure .normal
      | .returned v => pure (.returned v)
    else pure .normal

end

/-- **Runs a program**, watched. -/
def runProgram (fuel : Nat) : List Stmt → Watched Unit
  | [] => pure ()
  | s :: rest => do
    let _ ← execute fuel s
    runProgram fuel rest

/-! ## Watching changes nothing -/

/-- Without its notes, a watched effect is the effect. -/
def Erases (x : Watched α) (y : Effect α) : Prop := ∀ w, ((x w).1, (x w).2.machine) = y w.machine

lemma erases_pure (a : α) : Erases (pure a) (pure a) := fun _ => rfl

lemma erases_noting (notes : Machine → List Observation) (x : Effect α) :
    Erases (noting notes x) x := fun _ => rfl

lemma erases_quietly (x : Effect α) : Erases (quietly x) x := fun _ => rfl

lemma Erases.bind {x : Watched α} {y : Effect α} {f : α → Watched β} {g : α → Effect β}
    (hx : Erases x y) (hf : ∀ a, Erases (f a) (g a)) : Erases (x >>= f) (y >>= g) := by
  intro w
  have hw := hx w
  simp only [Bind.bind]
  rw [← hw]
  rcases hxw : x w with ⟨outcome | _ | _ | _, w'⟩
  · exact hf outcome w'
  · rfl
  · rfl
  · rfl

lemma Erases.within {x : Watched α} {y : Effect α} (hx : Erases x y) (scope : Scope) :
    Erases (within scope x) (Effect.within scope y) := by
  intro w
  have hw := hx { w with machine := { w.machine with scope := scope } }
  simp only [Effect.within]
  rw [← hw]
  rfl

lemma Erases.deeper {x : Watched α} {y : Effect α} (hx : Erases x y) :
    Erases (deeper x) (Effect.deeper y) := by
  intro w
  have hw := hx { w with machine := { w.machine with depth := w.machine.depth + 1 } }
  simp only [Effect.deeper]
  rw [← hw]
  rfl

lemma Erases.ite {c : Prop} [Decidable c] {x x' : Watched α} {y y' : Effect α}
    (hx : Erases x y) (hx' : Erases x' y') :
    Erases (if c then x else x') (if c then y else y') := by
  by_cases hc : c
  · rwa [if_pos hc, if_pos hc]
  · rwa [if_neg hc, if_neg hc]

lemma erases_property (id : InstanceId) (name : Token) :
    Erases (property id name) (Effect.property id name) := by
  intro w
  simp only [property, Effect.property]
  cases (w.machine.store.fields id).find? name.lexeme with
  | some value => rfl
  | none =>
    cases (w.machine.store.instances[id]?).bind fun i => i.cls.lookup? name.lexeme <;> rfl

lemma erases_defineClass (name : Token) (superclass : Option Class) (methods : List FunDecl) :
    Erases (defineClass name superclass methods) (LoxLang.defineClass name superclass methods) := by
  refine (erases_quietly _).bind fun outer => ?_
  cases superclass with
  | none =>
    exact (erases_pure _).bind fun inner => (erases_quietly _).bind fun stamp => erases_quietly _
  | some c =>
    exact (erases_noting _ _).bind fun frame => (erases_pure _).bind fun inner =>
      (erases_quietly _).bind fun stamp => erases_quietly _

lemma erases_superMethod (ref : RefId) (keyword method : Token) :
    Erases (superMethod ref keyword method) (LoxLang.superMethod ref keyword method) := by
  refine (erases_noting _ _).bind fun distance => ?_
  rcases distance with _ | d
  · exact erases_quietly _
  · refine (erases_quietly _).bind fun current => (erases_quietly _).bind fun parent => ?_
    rcases parent with _ | _ | _ | _ | (_ | _ | parent) | _
    case callable.cls =>
      refine (erases_quietly _).bind fun this => ?_
      cases this with
      | object id =>
        simp only
        cases parent.lookup? method.lexeme with
        | some m => exact (erases_noting _ _).bind fun bound => erases_pure _
        | none => exact erases_quietly _
      | _ => exact erases_quietly _
    all_goals exact erases_quietly _

/-- Watching changes nothing, with a given amount of fuel. -/
structure ErasesAt (n : Nat) : Prop where
  evaluate : ∀ e, Erases (Watched.evaluate n e) (LoxLang.evaluate n e)
  evaluateAll : ∀ es, Erases (Watched.evaluateAll n es) (LoxLang.evaluateAll n es)
  invoke : ∀ value arguments paren,
    Erases (Watched.invoke n value arguments paren) (LoxLang.invoke n value arguments paren)
  call : ∀ c arguments paren,
    Erases (Watched.call n c arguments paren) (LoxLang.call n c arguments paren)
  execute : ∀ s, Erases (Watched.execute n s) (LoxLang.execute n s)
  executeAll : ∀ body, Erases (Watched.executeAll n body) (LoxLang.executeAll n body)
  repeatWhile : ∀ condition body,
    Erases (Watched.repeatWhile n condition body) (LoxLang.repeatWhile n condition body)

namespace ErasesAt

variable {n : Nat} (h : ErasesAt n)

include h

lemma succ_evaluate (e : Expr) :
    Erases (Watched.evaluate (n + 1) e) (LoxLang.evaluate (n + 1) e) := by
  cases e with
  | literal value => exact erases_pure _
  | grouping inner => exact h.evaluate inner
  | unary operator right => exact (h.evaluate right).bind fun value => erases_quietly _
  | binary left operator right =>
    exact (h.evaluate left).bind fun a => (h.evaluate right).bind fun b => erases_quietly _
  | logical left operator right =>
    exact (h.evaluate left).bind fun a => (erases_pure a).ite (h.evaluate right)
  | «variable» ref name => exact erases_noting _ _
  | this ref keyword => exact erases_noting _ _
  | assign ref name value =>
    exact (h.evaluate value).bind fun v => (erases_noting _ _).bind fun _ => erases_pure v
  | call callee paren arguments =>
    exact (h.evaluate callee).bind fun c => (h.evaluateAll arguments).bind fun values =>
      h.invoke c values paren
  | get object name =>
    refine (h.evaluate object).bind fun value => ?_
    cases value with
    | object id => exact erases_property id name
    | _ => exact erases_quietly _
  | set object name value =>
    refine (h.evaluate object).bind fun target => ?_
    cases target with
    | object id =>
      exact (h.evaluate value).bind fun v => (erases_quietly _).bind fun _ => erases_pure v
    | _ => exact erases_quietly _
  | super ref keyword method => exact erases_superMethod ref keyword method

lemma succ_evaluateAll (es : List Expr) :
    Erases (Watched.evaluateAll (n + 1) es) (LoxLang.evaluateAll (n + 1) es) := by
  cases es with
  | nil => exact erases_pure _
  | cons e rest =>
    exact (h.evaluate e).bind fun first => (h.evaluateAll rest).bind fun others => erases_pure _

lemma succ_invoke (value : Value) (arguments : List Value) (paren : Token) :
    Erases (Watched.invoke (n + 1) value arguments paren)
      (LoxLang.invoke (n + 1) value arguments paren) := by
  cases value with
  | callable c =>
    refine (erases_quietly _).ite ?_
    refine (erases_quietly _).bind fun full => ?_
    exact (erases_quietly _).ite (h.call c arguments paren).deeper
  | _ => exact erases_quietly _

lemma succ_call (c : Callable) (arguments : List Value) (paren : Token) :
    Erases (Watched.call (n + 1) c arguments paren) (LoxLang.call (n + 1) c arguments paren) := by
  cases c with
  | builtin stamp b receiver => exact erases_quietly _
  | function stamp closure =>
    refine (erases_noting _ _).bind fun frame => ?_
    exact ((h.executeAll closure.decl.body).within _).bind fun flow => erases_quietly _
  | cls c =>
    refine (erases_quietly _).bind fun id => ?_
    cases c.lookup? initializerName with
    | none => exact erases_pure _
    | some method =>
      exact (erases_noting _ _).bind fun initializer =>
        (h.call initializer arguments paren).bind fun _ => erases_pure _

lemma succ_execute (s : Stmt) :
    Erases (Watched.execute (n + 1) s) (LoxLang.execute (n + 1) s) := by
  cases s with
  | expression e => exact (h.evaluate e).bind fun _ => erases_pure _
  | print e =>
    exact (h.evaluate e).bind fun value => (erases_quietly _).bind fun line =>
      (erases_quietly _).bind fun _ => erases_pure _
  | var name initializer =>
    cases initializer with
    | none => exact (erases_quietly _).bind fun _ => erases_pure _
    | some e =>
      exact (h.evaluate e).bind fun value => (erases_quietly _).bind fun _ => erases_pure _
  | block body =>
    -- The frame is made first and the scope is looked up afterwards, which is the same.
    intro w
    exact ((h.executeAll body).within _) _
  | ifThen condition thenBranch elseBranch =>
    refine (h.evaluate condition).bind fun value => (h.execute thenBranch).ite ?_
    cases elseBranch with
    | none => exact erases_pure _
    | some s => exact h.execute s
  | whileLoop condition body => exact h.repeatWhile condition body
  | breakLoop keyword => exact erases_pure _
  | returnValue keyword value =>
    cases value with
    | none => exact erases_pure _
    | some e => exact (h.evaluate e).bind fun value => erases_pure _
  | function decl =>
    exact (erases_quietly _).bind fun stamp => (erases_quietly _).bind fun current =>
      (erases_quietly _).bind fun _ => erases_pure _
  | classDecl name superclass methods =>
    cases superclass with
    | none =>
      exact (erases_quietly _).bind fun _ =>
        (erases_defineClass name none methods).bind fun _ => erases_pure _
    | some e =>
      refine (erases_quietly _).bind fun _ => (h.evaluate e).bind fun value => ?_
      exact (erases_quietly _).bind fun parent =>
        (erases_defineClass name (some parent) methods).bind fun _ => erases_pure _

lemma succ_executeAll (body : List Stmt) :
    Erases (Watched.executeAll (n + 1) body) (LoxLang.executeAll (n + 1) body) := by
  cases body with
  | nil => exact erases_pure _
  | cons s rest =>
    refine (h.execute s).bind fun flow => ?_
    cases flow with
    | normal => exact h.executeAll rest
    | broken => exact erases_pure _
    | returned value => exact erases_pure _

lemma succ_repeatWhile (condition : Expr) (body : Stmt) :
    Erases (Watched.repeatWhile (n + 1) condition body)
      (LoxLang.repeatWhile (n + 1) condition body) := by
  refine (h.evaluate condition).bind fun value => Erases.ite ?_ (erases_pure _)
  refine (h.execute body).bind fun flow => ?_
  cases flow with
  | normal => exact h.repeatWhile condition body
  | broken => exact erases_pure _
  | returned value => exact erases_pure _

end ErasesAt

lemma erasesAt (n : Nat) : ErasesAt n := by
  induction n with
  | zero =>
    refine ⟨?_, ?_, ?_, ?_, ?_, ?_, ?_⟩ <;> intros <;> exact erases_quietly _
  | succ n ih =>
    exact ⟨ih.succ_evaluate, ih.succ_evaluateAll, ih.succ_invoke, ih.succ_call, ih.succ_execute,
      ih.succ_executeAll, ih.succ_repeatWhile⟩

/-- **A watched run without its notes is the run.** -/
lemma erases_runProgram (fuel : Nat) (program : List Stmt) :
    Erases (runProgram fuel program) (LoxLang.runProgram fuel program) := by
  induction program with
  | nil => exact erases_pure _
  | cons s rest ih => exact ((erasesAt fuel).execute s).bind fun _ => ih

/-! ## What is noted -/

/-- A watched effect adds notes and takes none away. -/
def Adds (x : Watched α) : Prop := ∀ w, w.trace <+: (x w).2.trace

lemma adds_pure (a : α) : Adds (pure a) := fun _ => List.prefix_rfl

lemma adds_quietly (x : Effect α) : Adds (quietly x) := fun _ => List.prefix_rfl

lemma adds_noting (notes : Machine → List Observation) (x : Effect α) : Adds (noting notes x) :=
  fun _ => List.prefix_append _ _

/-- What was noted so far is still noted, whatever follows. -/
lemma prefix_bind {x : Watched α} {f : α → Watched β} {w : Watch} {trace : List Observation}
    (hx : trace <+: (x w).2.trace) (hf : ∀ a, Adds (f a)) :
    trace <+: ((x >>= f) w).2.trace := by
  rw [run_bind]
  rcases hxw : x w with ⟨a | _ | _ | _, w'⟩
  all_goals rw [hxw] at hx
  · exact hx.trans (hf a w')
  all_goals exact hx

lemma Adds.bind {x : Watched α} {f : α → Watched β} (hx : Adds x) (hf : ∀ a, Adds (f a)) :
    Adds (x >>= f) := fun w => prefix_bind (hx w) hf

/-- **Every `super` that is evaluated is noted**, on the machine that it is evaluated on. -/
lemma prefix_evaluate_super (n : Nat) (ref : RefId) (keyword method : Token) (w : Watch) :
    w.trace ++ [.followed ⟨.super, ref, keyword⟩ w.machine] <+:
      (evaluate (n + 1) (.super ref keyword method) w).2.trace := by
  refine prefix_bind List.prefix_rfl fun distance => ?_
  rcases distance with _ | d
  · exact adds_quietly _
  · refine (adds_quietly _).bind fun current => (adds_quietly _).bind fun parent => ?_
    rcases parent with _ | _ | _ | _ | (_ | _ | parent) | _
    case callable.cls =>
      refine (adds_quietly _).bind fun this => ?_
      cases this with
      | object id =>
        simp only
        cases parent.lookup? method.lexeme with
        | some m => exact (adds_noting _ _).bind fun bound => adds_pure _
        | none => exact adds_quietly _
      | _ => exact adds_quietly _
    all_goals exact adds_quietly _

/-- So is every `this`. -/
lemma trace_evaluate_this (n : Nat) (ref : RefId) (keyword : Token) (w : Watch) :
    (evaluate (n + 1) (.this ref keyword) w).2.trace =
      w.trace ++ [.followed ⟨.this, ref, keyword⟩ w.machine] := rfl

end Watched

end LoxLang
