import LoxLang.Machine.Run
import LoxLang.Proofs.Machine.Changes

/-!
# What all effects of a run have in common

A property of effects that two effects in a row have if each of them has it, and that the few
primitive effects have, is one of every expression, statement and program.  What the primitive
effects are is said once, and so is the induction over fuel and text.

Most primitive effects look at the scope, the distances and the store only, and change only the
store (`Effect.onView`).  The others write an event, take a line of input or a clock reading.
`Effect.Rules` is for what is done between two steps of a run; it says which names are bound there.
For whole runs, which may bind any name, there are three more rules, for used-up fuel, for another
scope and for a call that is counted (`Effect.RunRules`).
-/

namespace LoxLang

namespace Effect

variable {α β : Type}

/-- An effect that looks at the scope, the distances and the store, and changes the store only. -/
def onView (f : Scope → Distances → Store → Outcome α × Store) : Effect α := fun m =>
  ((f m.scope m.distances m.store).1, { m with store := (f m.scope m.distances m.store).2 })

/-- What is seen of the store. -/
def look (f : Store → α) : Effect α := fun m => (.ok (f m.store), m)

/-- What an access by distance gives, or the fault that it ends in. -/
def access : Except Fault α → Effect α
  | .ok a => pure a
  | .error fault => fun m => (.fault fault, m)

/-- An effect that is refused where there is no room for a call, and counts as a call otherwise. -/
def counted (paren : Token) (x : Effect α) : Effect α := do
  if ← isAtLimit then raise paren .stackOverflow else deeper x

lemma counted_of_le {paren : Token} {x : Effect α} {m : Machine} (h : m.limit ≤ m.depth) :
    counted paren x m = (.error ⟨paren, .stackOverflow⟩, m) := by
  simp [counted, isAtLimit, raise, h]

lemma counted_of_lt {paren : Token} {x : Effect α} {m : Machine} (h : m.depth < m.limit) :
    counted paren x m = deeper x m := by
  simp [counted, isAtLimit, Nat.not_le.mpr h]

/-- **A property that everything between two steps of a run has**, so long as the names that are
bound have a given property. -/
structure Rules (N : String → Prop) (P : (α : Type) → Effect α → Prop) : Prop where
  bind : ∀ {α β : Type} {x : Effect α} {f : α → Effect β}, P α x → (∀ a, P β (f a)) →
    P β (x >>= f)
  onView : ∀ {α : Type} (f : Scope → Distances → Store → Outcome α × Store),
    (∀ scope distances store, (f scope distances store).1 ≠ .exhausted ∧
      store.Becomes N (f scope distances store).2) → P α (onView f)
  write : ∀ event, P Unit (write event)
  readLine : P (Option InputLine) readLine
  readClock : P Float readClock

/-- **A property that runs have**, whatever names they bind. -/
structure RunRules (P : (α : Type) → Effect α → Prop) : Prop extends Rules (fun _ => True) P where
  exhausted : ∀ {α : Type}, P α exhausted
  within : ∀ {α : Type} {x : Effect α} (scope : Scope), P α x → P α (within scope x)
  counted : ∀ {α : Type} {x : Effect α} (paren : Token), P α x → P α (counted paren x)

namespace Rules

variable {N : String → Prop} {P : (α : Type) → Effect α → Prop}

lemma ite {x y : Effect α} {c : Prop} [Decidable c] (hx : P α x) (hy : P α y) :
    P α (if c then x else y) := by
  by_cases h : c
  · rw [if_pos h]
    exact hx
  · rw [if_neg h]
    exact hy

variable (R : Rules N P)

include R

/-- What only looks at the scope, the distances and the store. -/
lemma onLook (f : Scope → Distances → Store → Outcome α)
    (hf : ∀ scope distances store, f scope distances store ≠ .exhausted) :
    P α fun m => (f m.scope m.distances m.store, m) :=
  R.onView (fun scope distances store => (f scope distances store, store))
    fun scope distances store => ⟨hf scope distances store, .refl N store⟩

lemma pure (a : α) : P α (Pure.pure a) := R.onLook (fun _ _ _ => .ok a) nofun

lemma raise (token : Token) (cause : RuntimeCause) : P α (Effect.raise token cause) :=
  R.onLook (fun _ _ _ => .error ⟨token, cause⟩) nofun

/-! ### What looks at the scope, the distances and the store -/

lemma scope : P Scope Effect.scope := R.onLook (fun scope _ _ => .ok scope) nofun

lemma distance? (ref : RefId) : P (Option Nat) (Effect.distance? ref) :=
  R.onLook (fun _ distances _ => .ok (distances.find? ref)) nofun

lemma text (value : Value) : P String (Effect.text value) :=
  R.onLook (fun _ _ store => .ok (store.text value)) nofun

lemma look (f : Store → α) : P α (Effect.look f) := R.onLook (fun _ _ store => .ok (f store)) nofun

lemma access (found : Except Fault α) : P α (Effect.access found) := by
  cases found with
  | ok a => exact R.pure a
  | error fault => exact R.onLook (fun _ _ _ => .fault fault) nofun

lemma readAt (scope : Scope) (distance : Nat) (name : String) :
    P Value (Effect.readAt scope distance name) := by
  have hsteps : Effect.readAt scope distance name =
      Effect.look (·.readAt scope distance name) >>= Effect.access := by
    funext m
    cases hread : m.store.readAt scope distance name <;>
      simp [Effect.readAt, Effect.look, Effect.access, hread]
  rw [hsteps]
  exact R.bind (R.look _) R.access

lemma readGlobal (name : Token) : P Value (Effect.readGlobal name) := by
  have hsteps : Effect.readGlobal name = Effect.look (·.lookup? name.lexeme globalScope) >>=
      fun found => found.elim (Effect.raise name (.undefinedVariable name.lexeme)) Pure.pure := by
    funext m
    cases hread : m.store.lookup? name.lexeme globalScope <;>
      simp [Effect.readGlobal, Effect.look, Effect.raise, hread]
  rw [hsteps]
  refine R.bind (R.look _) fun found => ?_
  cases found with
  | some value => exact R.pure value
  | none => exact R.raise _ _

lemma readRef (ref : RefId) (name : Token) : P Value (Effect.readRef ref name) := by
  have hsteps : Effect.readRef ref name = Effect.distance? ref >>= fun found =>
      found.elim (Effect.readGlobal name) fun d =>
        Effect.scope >>= fun current => Effect.readAt current d name.lexeme := by
    funext m
    cases hfound : m.distances.find? ref <;>
      simp [Effect.readRef, Effect.distance?, Effect.scope, hfound]
  rw [hsteps]
  refine R.bind (R.distance? ref) fun found => ?_
  cases found with
  | some d => exact R.bind R.scope fun current => R.readAt current d name.lexeme
  | none => exact R.readGlobal name

lemma elementAt (paren : Token) (id : InstanceId) (x : Float) :
    P Value (Builtin.elementAt paren id x) := by
  have hsteps : Builtin.elementAt paren id x =
      Effect.look (fun store => (Builtin.index? x).bind fun n => (store.elements id)[n]?) >>=
        fun found => found.elim (Effect.raise paren (.indexOutOfBounds x)) Pure.pure := by
    funext m
    cases helement : (Builtin.index? x).bind fun n => (m.store.elements id)[n]? <;>
      simp [Builtin.elementAt, Effect.look, Effect.raise, helement]
  rw [hsteps]
  refine R.bind (R.look _) fun found => ?_
  cases found with
  | some value => exact R.pure value
  | none => exact R.raise _ _

/-! ### What changes the store -/

lemma onStore {f : Store → α × Store} (hf : ∀ store : Store, store.Becomes N (f store).2) :
    P α (Effect.onStore f) :=
  R.onView (fun _ _ store => (.ok (f store).1, (f store).2)) fun _ _ store => ⟨nofun, hf store⟩

lemma addFrame (bindings : Bindings Value) : P FrameId (Effect.addFrame bindings) :=
  R.onStore fun store => .addFrame store bindings

lemma addInstance (c : Class) : P InstanceId (Effect.addInstance c) :=
  R.onStore fun store => .addInstance store c

lemma freshStamp : P Stamp Effect.freshStamp := R.onStore fun store => .freshStamp store

lemma bindMethod (method : Method) (id : InstanceId) : P Callable (Effect.bindMethod method id) :=
  R.onStore fun store => .bindMethod store method id

lemma setField (id : InstanceId) (name : String) (value : Value) :
    P Unit (Effect.setField id name value) :=
  R.onStore fun store => .setField store id name value

lemma define {name : String} (hname : N name) (value : Value) :
    P Unit (Effect.define name value) :=
  R.onView (fun scope _ store => (.ok (), store.define scope name value))
    fun scope _ store => ⟨nofun, .define store scope value hname⟩

lemma bindIn (id : FrameId) {name : String} (hname : N name) (value : Value) :
    P Unit (Effect.onStore fun store => ((), store.bindIn id name value)) :=
  R.onStore fun store => .bindIn store id value hname

lemma writeAt (distance : Nat) {name : String} (hname : N name) (value : Value) :
    P Unit (Effect.writeAt distance name value) := by
  have hsteps : Effect.writeAt distance name value = Effect.scope >>= fun current =>
      Effect.look (·.frameAt current distance name) >>= fun found => Effect.access found >>=
        fun id => Effect.onStore fun store => ((), store.bindIn id name value) := by
    funext m
    cases hframe : m.store.frameAt m.scope distance name with
    | ok id => simp [Effect.writeAt, Effect.scope, Effect.look, Effect.access, hframe]
    | error fault =>
      simp [Effect.writeAt, Effect.scope, Effect.look, Effect.access, hframe]
      rfl
  rw [hsteps]
  refine R.bind R.scope fun current => R.bind (R.look _) fun found => ?_
  exact R.bind (R.access found) fun id => R.bindIn id hname value

lemma writeGlobal {name : Token} (hname : N name.lexeme) (value : Value) :
    P Unit (Effect.writeGlobal name value) := by
  have hsteps : Effect.writeGlobal name value =
      Effect.look (·.frameOf? name.lexeme globalScope) >>= fun found =>
        found.elim (Effect.raise name (.undefinedVariable name.lexeme)) fun id =>
          Effect.onStore fun store => ((), store.bindIn id name.lexeme value) := by
    funext m
    cases hframe : m.store.frameOf? name.lexeme globalScope <;>
      simp [Effect.writeGlobal, Effect.look, Effect.raise, hframe]
  rw [hsteps]
  refine R.bind (R.look _) fun found => ?_
  cases found with
  | some id => exact R.bindIn id hname value
  | none => exact R.raise _ _

lemma writeRef (ref : RefId) {name : Token} (hname : N name.lexeme) (value : Value) :
    P Unit (Effect.writeRef ref name value) := by
  have hsteps : Effect.writeRef ref name value = Effect.distance? ref >>= fun found =>
      found.elim (Effect.writeGlobal name value) fun d =>
        Effect.writeAt d name.lexeme value := by
    funext m
    cases hfound : m.distances.find? ref <;> simp [Effect.writeRef, Effect.distance?, hfound]
  rw [hsteps]
  refine R.bind (R.distance? ref) fun found => ?_
  cases found with
  | some d => exact R.writeAt d hname value
  | none => exact R.writeGlobal hname value

lemma property (id : InstanceId) (name : Token) : P Value (Effect.property id name) := by
  have hsteps : Effect.property id name =
      Effect.look (fun store => (store.fields id).find? name.lexeme) >>= fun field => field.elim
        (Effect.look (fun store => (store.instances[id]?).bind fun i => i.cls.lookup? name.lexeme)
          >>= fun found => found.elim (Effect.raise name (.undefinedProperty name.lexeme))
            fun method => Effect.bindMethod method id >>= fun c => Pure.pure (.callable c))
        Pure.pure := by
    funext m
    cases hfield : (m.store.fields id).find? name.lexeme with
    | some value => simp [Effect.property, Effect.look, hfield]
    | none =>
      cases hmethod : (m.store.instances[id]?).bind fun i => i.cls.lookup? name.lexeme <;>
        simp [Effect.property, Effect.look, Effect.raise, Effect.bindMethod, hfield, hmethod]
  rw [hsteps]
  refine R.bind (R.look _) fun field => ?_
  cases field with
  | some value => exact R.pure value
  | none =>
    refine R.bind (R.look _) fun found => ?_
    cases found with
    | some method => exact R.bind (R.bindMethod method id) fun c => R.pure _
    | none => exact R.raise _ _

/-! ### Operators, builtins and classes -/

lemma applyUnary (operator : Token) (right : Value) :
    P Value (LoxLang.applyUnary operator right) := by
  unfold LoxLang.applyUnary
  split
  · split
    · exact R.pure _
    · exact R.raise _ _
  · exact R.pure _
  · exact R.raise _ _

lemma onNumbers (operator : Token) (left right : Value) {f : Float → Float → Effect Value}
    (hf : ∀ a b, P Value (f a b)) : P Value (LoxLang.onNumbers operator left right f) := by
  unfold LoxLang.onNumbers
  split
  · exact hf _ _
  · exact R.raise _ _

lemma applyBinary (operator : Token) (left right : Value) :
    P Value (LoxLang.applyBinary operator left right) := by
  unfold LoxLang.applyBinary
  split
  · unfold applyPlus
    split
    · exact R.pure _
    · exact R.pure _
    · exact R.raise _ _
  case h_4 => exact R.onNumbers _ _ _ fun _ _ => Rules.ite (R.raise _ _) (R.pure _)
  case h_9 => exact R.pure _
  case h_10 => exact R.pure _
  case h_11 => exact R.raise _ _
  all_goals exact R.onNumbers _ _ _ fun _ _ => R.pure _

lemma onReceiver (paren : Token) (receiver : Option InstanceId) {f : InstanceId → Effect Value}
    (hf : ∀ id, P Value (f id)) : P Value (Builtin.onReceiver paren receiver f) := by
  unfold Builtin.onReceiver
  split
  · exact hf _
  · exact R.raise _ _

lemma readPrompted (paren : Token) (arguments : List Value) :
    P String (Builtin.readPrompted paren arguments) := by
  unfold Builtin.readPrompted
  simp only
  have hnone : P String (Pure.pure "") := R.pure ""
  split
  all_goals
    refine R.bind (by first | exact R.text _ | exact hnone) fun prompt => ?_
    refine R.bind (R.write _) fun _ => R.bind R.readLine fun line => ?_
    split
    · exact R.pure _
    · exact R.raise _ _
    · exact R.raise _ _

lemma callBuiltin (b : Builtin) (receiver : Option InstanceId) (arguments : List Value)
    (paren : Token) : P Value (b.call receiver arguments paren) := by
  cases b with
  | clock => exact R.bind R.readClock fun _ => R.pure _
  | arrayGet =>
    refine R.onReceiver paren receiver fun id => ?_
    split
    · exact R.elementAt paren id _
    · exact R.raise _ _
  | arrayPush =>
    refine R.onReceiver paren receiver fun id => R.onStore fun store => ?_
    exact .updateElements store id (·.push (arguments.head?.getD .nil))
  | arrayLength =>
    exact R.onReceiver paren receiver fun id => R.onStore fun store => .refl N store
  | arrayPop =>
    refine R.onReceiver paren receiver fun id => R.onStore fun store => ?_
    exact .updateElements store id Array.pop
  | inputString => exact R.bind (R.readPrompted paren arguments) fun _ => R.pure _
  | inputNumber =>
    refine R.bind (R.readPrompted paren arguments) fun line => ?_
    unfold Builtin.numberOfLine
    simp only
    split
    · exact R.pure _
    · exact R.raise _ _

lemma defineClass {name : Token} (hname : N name.lexeme) (superclass : Option Class)
    (methods : List FunDecl) : P Unit (LoxLang.defineClass name superclass methods) := by
  have hrest : ∀ inner : Scope, P Unit (do
      let stamp ← Effect.freshStamp
      let own : ClassLayer := ⟨stamp, name.lexeme, methodTable inner methods⟩
      Effect.define name.lexeme (.callable (.cls (.extend own superclass)))) :=
    fun inner => R.bind R.freshStamp fun stamp => R.define hname _
  refine R.bind R.scope fun outer => ?_
  cases superclass with
  | none => exact R.bind (R.pure outer) hrest
  | some c =>
    exact R.bind (R.addFrame _) fun frame => R.bind (R.pure (frame :: outer)) hrest

lemma expectClass (token : Token) (value : Value) :
    P Class (LoxLang.expectClass token value) := by
  unfold LoxLang.expectClass
  split
  · exact R.pure _
  · exact R.raise _ _

lemma superMethod (ref : RefId) (keyword method : Token) :
    P Value (LoxLang.superMethod ref keyword method) := by
  refine R.bind (R.distance? ref) fun distance => ?_
  cases distance with
  | none => exact R.raise _ _
  | some d =>
    refine R.bind R.scope fun current => R.bind (R.readAt _ _ _) fun parent => ?_
    split
    · refine R.bind (R.readAt _ _ _) fun this => ?_
      split
      · split
        · exact R.bind (R.bindMethod _ _) fun _ => R.pure _
        · exact R.raise _ _
      · exact R.raise _ _
    · exact R.raise _ _

lemma closureResult (closure : Closure) (flow : Flow) :
    P Value (LoxLang.closureResult closure flow) := by
  unfold LoxLang.closureResult
  refine Rules.ite (R.readAt _ _ _) ?_
  split <;> exact R.pure _

end Rules

/-! ## Runs -/

/-- **A property of runs with a given amount of fuel.** -/
structure HoldsAt (P : (α : Type) → Effect α → Prop) (n : Nat) : Prop where
  evaluate : ∀ e, P Value (evaluate n e)
  evaluateAll : ∀ es, P (List Value) (evaluateAll n es)
  invoke : ∀ value arguments paren, P Value (invoke n value arguments paren)
  call : ∀ c arguments paren, P Value (call n c arguments paren)
  execute : ∀ s, P Flow (execute n s)
  executeAll : ∀ body, P Flow (executeAll n body)
  repeatWhile : ∀ condition body, P Flow (repeatWhile n condition body)

namespace RunRules

variable {P : (α : Type) → Effect α → Prop} (R : RunRules P) {n : Nat}

include R

lemma succ_evaluate (h : HoldsAt P n) (e : Expr) : P Value (evaluate (n + 1) e) := by
  cases e with
  | literal value => exact R.pure _
  | grouping inner => exact h.evaluate inner
  | unary operator right => exact R.bind (h.evaluate right) fun value => R.applyUnary _ _
  | binary left operator right =>
    refine R.bind (h.evaluate left) fun a => R.bind (h.evaluate right) fun b => ?_
    exact R.applyBinary operator a b
  | logical left operator right =>
    exact R.bind (h.evaluate left) fun a => Rules.ite (R.pure a) (h.evaluate right)
  | «variable» ref name => exact R.readRef ref name
  | this ref keyword => exact R.readRef ref keyword
  | assign ref name value =>
    exact R.bind (h.evaluate value) fun v => R.bind (R.writeRef ref trivial v) fun _ => R.pure v
  | call callee paren arguments =>
    refine R.bind (h.evaluate callee) fun c => R.bind (h.evaluateAll arguments) fun values => ?_
    exact h.invoke c values paren
  | get object name =>
    refine R.bind (h.evaluate object) fun value => ?_
    split
    · exact R.property _ name
    · exact R.raise _ _
  | set object name value =>
    refine R.bind (h.evaluate object) fun target => ?_
    split
    · exact R.bind (h.evaluate value) fun v => R.bind (R.setField _ _ v) fun _ => R.pure v
    · exact R.raise _ _
  | super ref keyword method => exact R.superMethod ref keyword method

lemma succ_evaluateAll (h : HoldsAt P n) (es : List Expr) :
    P (List Value) (evaluateAll (n + 1) es) := by
  cases es with
  | nil => exact R.pure _
  | cons e rest =>
    exact R.bind (h.evaluate e) fun _ => R.bind (h.evaluateAll rest) fun _ => R.pure _

/-- The arity is looked at before the room for a call. -/
lemma succ_invoke (h : HoldsAt P n) (value : Value) (arguments : List Value) (paren : Token) :
    P Value (invoke (n + 1) value arguments paren) := by
  cases value with
  | callable c => exact Rules.ite (R.raise _ _) (R.counted paren (h.call c arguments paren))
  | _ => exact R.raise _ _

lemma succ_call (h : HoldsAt P n) (c : Callable) (arguments : List Value) (paren : Token) :
    P Value (call (n + 1) c arguments paren) := by
  cases c with
  | builtin stamp b receiver => exact R.callBuiltin b receiver arguments paren
  | function stamp closure =>
    refine R.bind (R.addFrame _) fun frame => ?_
    refine R.bind (R.within _ (h.executeAll closure.decl.body)) fun flow => ?_
    exact R.closureResult closure flow
  | cls c =>
    refine R.bind (R.addInstance c) fun id => ?_
    split
    · exact R.pure _
    · refine R.bind (R.bindMethod _ id) fun initializer => ?_
      exact R.bind (h.call initializer arguments paren) fun _ => R.pure _

lemma succ_execute (h : HoldsAt P n) (s : Stmt) : P Flow (execute (n + 1) s) := by
  cases s with
  | expression e => exact R.bind (h.evaluate e) fun _ => R.pure _
  | print e =>
    refine R.bind (h.evaluate e) fun value => R.bind (R.text value) fun line => ?_
    exact R.bind (R.write _) fun _ => R.pure _
  | var name value =>
    cases value with
    | none => exact R.bind (R.define trivial _) fun _ => R.pure _
    | some e => exact R.bind (h.evaluate e) fun _ => R.bind (R.define trivial _) fun _ => R.pure _
  | block body =>
    refine R.bind (R.addFrame _) fun frame => R.bind R.scope fun outer => ?_
    exact R.within _ (h.executeAll body)
  | ifThen condition thenBranch elseBranch =>
    refine R.bind (h.evaluate condition) fun value => Rules.ite (h.execute thenBranch) ?_
    cases elseBranch with
    | none => exact R.pure _
    | some s => exact h.execute s
  | whileLoop condition body => exact h.repeatWhile condition body
  | breakLoop keyword => exact R.pure _
  | returnValue keyword value =>
    cases value with
    | none => exact R.pure _
    | some e => exact R.bind (h.evaluate e) fun _ => R.pure _
  | function decl =>
    refine R.bind R.freshStamp fun stamp => R.bind R.scope fun _ => ?_
    exact R.bind (R.define trivial _) fun _ => R.pure _
  | classDecl name superclass methods =>
    cases superclass with
    | none =>
      refine R.bind (R.define trivial _) fun _ => ?_
      exact R.bind (R.defineClass trivial none methods) fun _ => R.pure _
    | some e =>
      refine R.bind (R.define trivial _) fun _ => R.bind (h.evaluate e) fun value => ?_
      refine R.bind (R.expectClass _ value) fun parent => ?_
      exact R.bind (R.defineClass trivial (some parent) methods) fun _ => R.pure _

lemma succ_executeAll (h : HoldsAt P n) (body : List Stmt) :
    P Flow (executeAll (n + 1) body) := by
  cases body with
  | nil => exact R.pure _
  | cons s rest =>
    refine R.bind (h.execute s) fun flow => ?_
    split
    · exact h.executeAll rest
    · exact R.pure _

lemma succ_repeatWhile (h : HoldsAt P n) (condition : Expr) (body : Stmt) :
    P Flow (repeatWhile (n + 1) condition body) := by
  refine R.bind (h.evaluate condition) fun value => Rules.ite ?_ (R.pure _)
  refine R.bind (h.execute body) fun flow => ?_
  split
  · exact h.repeatWhile condition body
  · exact R.pure _
  · exact R.pure _

/-- **Every run has the property**, whatever fuel there is. -/
lemma holdsAt (n : Nat) : HoldsAt P n := by
  induction n with
  | zero => constructor <;> intros <;> exact R.exhausted
  | succ n ih =>
    exact ⟨R.succ_evaluate ih, R.succ_evaluateAll ih, R.succ_invoke ih, R.succ_call ih,
      R.succ_execute ih, R.succ_executeAll ih, R.succ_repeatWhile ih⟩

lemma runProgram (fuel : Nat) (program : List Stmt) :
    P Unit (LoxLang.runProgram fuel program) := by
  induction program with
  | nil => exact R.pure _
  | cons s rest ih => exact R.bind ((R.holdsAt fuel).execute s) fun _ => ih

end RunRules

/-! ## What runs do to the store -/

/-- **An effect changes the store step by step**, and binds only names with a given property. -/
def Leads (N : String → Prop) (x : Effect α) : Prop :=
  ∀ m : Machine, m.store.Becomes N (x m).2.store

lemma Leads.bind {N : String → Prop} {x : Effect α} {f : α → Effect β} (hx : x.Leads N)
    (hf : ∀ a, (f a).Leads N) : (x >>= f).Leads N := by
  intro m
  have hfirst := hx m
  rw [run_bind]
  rcases hrun : x m with ⟨outcome, m₁⟩
  rw [hrun] at hfirst
  cases outcome with
  | ok a => exact hfirst.trans (hf a m₁)
  | error | fault | exhausted => exact hfirst

/-- What is done between two steps of a run changes the store step by step. -/
lemma leading (N : String → Prop) : Rules N fun _ x => x.Leads N where
  bind := .bind
  onView _ hf m := (hf m.scope m.distances m.store).2
  write _ m := .refl N m.store
  readLine m := .refl N m.store
  readClock m := .refl N m.store

/-- **Runs change the store step by step.** -/
lemma leadingRuns : RunRules fun _ x => x.Leads fun _ => True where
  toRules := leading fun _ => True
  exhausted m := .refl _ m.store
  within scope hx m := hx { m with scope := scope }
  counted paren hx m := by
    rcases Nat.lt_or_ge m.depth m.limit with hroom | hfull
    · rw [counted_of_lt hroom]
      exact hx { m with depth := m.depth + 1 }
    · rw [counted_of_le hfull]
      exact .refl _ m.store

end Effect

/-- A program followed by another one. -/
lemma runProgram_append (fuel : Nat) (program others : List Stmt) (m : Machine) :
    runProgram fuel (program ++ others) m =
      (runProgram fuel program >>= fun _ => runProgram fuel others) m := by
  induction program generalizing m with
  | nil => rfl
  | cons s rest ih =>
    simp only [List.cons_append, runProgram, Effect.run_bind, ih]
    rcases execute fuel s m with ⟨_ | _ | _ | _, m'⟩ <;> rfl

end LoxLang
