import LoxLang.Proofs.Machine.BuiltinCalls
import LoxLang.Proofs.Machine.Restoration
import LoxLang.Proofs.Store.WellFormed

/-!
# Well-formed machines

A machine is well formed if its store is and if its scope is one of the store.  Whatever a run does
keeps it so.  What is new is put in front of what is there: a frame inside of the scope at hand or
inside of that of a closure, a class above whose superclass exists already, a bound method with a
frame of its own.  And nothing that is there is bent: names are bound, but `this` is no name, and
instances change, but not their classes.

An effect does not say how the frames that it adds are nested, so what it upholds is said with some
nesting that goes on from the one before (`Upholds`).  There is one rule for each combinator and
each primitive effect, and one case for each expression and statement; the whole run follows by
induction on the fuel.  Where a function comes from cannot be read off a machine either.  It is said
with the activities of the run: one of them executes the `fun` statement (`Activity.Makes`), and the
induction hands down that those of the parts are among those of the whole.
-/

namespace LoxLang

/-! ## Functions and classes that are made -/

/-- The scope that the methods of a class statement close over.  Below a superclass there is one
more frame, for `super`. -/
def Machine.methodScope (m : Machine) : Option Class → Scope
  | none => m.scope
  | some _ => m.store.frames.size :: m.scope

/-- The own part of a class that is made now. -/
def Machine.newLayer (m : Machine) (name : Token) (superclass : Option Class)
    (methods : List FunDecl) : ClassLayer :=
  ⟨m.store.nextStamp, name.lexeme, methodTable (m.methodScope superclass) methods⟩

namespace Activity

/-- **An activity binds a method** to an instance, on the machine where it looks it up in a class.
It does so for a property that is no field, for a method of the superclass, and for the initializer
of an instance that was just made. -/
inductive Binds : Activity → Class → String → InstanceId → Machine → Prop
  | property {n : Nat} {object : Expr} {name : Token} {id : InstanceId} {i : Instance}
      {m m₁ : Machine} (hobject : LoxLang.evaluate n object m = (.ok (.object id), m₁))
      (hfield : (m₁.store.fields id).find? name.lexeme = none)
      (hi : m₁.store.instances[id]? = some i) :
      Binds ⟨n + 1, .evaluate (.get object name), m⟩ i.cls name.lexeme id m₁
  | super {n : Nat} {ref : RefId} {keyword method : Token} {d : Nat} {parent : Class}
      {id : InstanceId} {m : Machine} (hdistance : m.distances.find? ref = some d)
      (hparent : Effect.readAt m.scope d "super" m = (.ok (.callable (.cls parent)), m))
      (hthis : Effect.readAt m.scope (d - 1) "this" m = (.ok (.object id), m)) :
      Binds ⟨n + 1, .evaluate (.super ref keyword method), m⟩ parent method.lexeme id m
  | construct {n : Nat} {c : Class} {arguments : List Value} {paren : Token} {id : InstanceId}
      {m m₁ : Machine} (hid : Effect.addInstance c m = (.ok id, m₁)) :
      Binds ⟨n + 1, .call (.cls c) arguments paren, m⟩ c initializerName id m₁

/-- **What an activity makes.**  A `fun` statement makes a function with the next stamp and the
scope at hand, which is no initializer, whatever its name is.  A class statement makes the own part
of a class, and binding a declared method makes a function. -/
inductive Makes : Activity → Made → Prop
  | function {n : Nat} {decl : FunDecl} {m : Machine} :
      Makes ⟨n + 1, .execute (.function decl), m⟩
        (.function m.store.nextStamp ⟨decl, m.scope, false⟩)
  | method {a : Activity} {c : Class} {name : String} {id : InstanceId} {closure : Closure}
      {m : Machine} (hbinds : a.Binds c name id m)
      (hclosure : c.lookup? name = some (.declared closure)) : Makes a (m.store.boundMethod closure)
  | cls {n : Nat} {name : Token} {methods : List FunDecl} {m m₁ : Machine}
      (hname : Effect.define name.lexeme .nil m = (.ok (), m₁)) :
      Makes ⟨n + 1, .execute (.classDecl name none methods), m⟩
        (.layer (m₁.newLayer name none methods))
  | subclass {n : Nat} {name : Token} {e : Expr} {methods : List FunDecl} {parent : Class}
      {m m₁ m₂ : Machine} (hname : Effect.define name.lexeme .nil m = (.ok (), m₁))
      (hparent : LoxLang.evaluate n e m₁ = (.ok (.callable (.cls parent)), m₂)) :
      Makes ⟨n + 1, .execute (.classDecl name (some e) methods), m⟩
        (.layer (m₂.newLayer name (some parent) methods))

/-- Everything that is made while an activity goes on is as `F` says. -/
def MakesOnly (F : Made → Prop) : Activity → Prop := Throughout fun b => ∀ x, b.Makes x → F x

end Activity

/-! ## What an effect upholds -/

/-- **A machine is well formed** if its store is, and its scope is a chain of frames there. -/
structure Machine.WellFormed (F : Made → Prop) (N : Nesting) (m : Machine) : Prop where
  store : m.store.WellFormed F N
  scope : m.scope.WellFormed N m.store

/-- **What an effect upholds**: it goes back to the scope where it began, the store has grown and is
well formed under a nesting that goes on, and the result has a property. -/
def Upholds {α : Type} (F : Made → Prop) (N : Nesting) (m : Machine) (x : Effect α)
    (Q : Nesting → Store → α → Prop) : Prop :=
  (x m).2.scope = m.scope ∧ ∃ N', m.store.Grows N N' (x m).2.store ∧
    (x m).2.store.WellFormed F N' ∧ ∀ a, (x m).1 = .ok a → Q N' (x m).2.store a

namespace Upholds

variable {α β : Type} {F : Made → Prop} {N : Nesting} {m : Machine}

/-! ### Rules -/

section Rules

variable {x y : Effect α} {f : α → Effect β} {Q : Nesting → Store → α → Prop}
  {R : Nesting → Store → β → Prop}

/-- An effect that leaves the store alone. -/
lemma quiet (hm : m.WellFormed F N) (hscope : (x m).2.scope = m.scope)
    (hstore : (x m).2.store = m.store) (hQ : ∀ a, (x m).1 = .ok a → Q N m.store a) :
    Upholds F N m x Q := by
  refine ⟨hscope, N, ?_⟩
  rw [hstore]
  exact ⟨.refl N m.store, hm.store, hQ⟩

/-- An effect on the store. -/
lemma onStore {g : Store → α × Store} {N' : Nesting} (hgrows : m.store.Grows N N' (g m.store).2)
    (hstore : (g m.store).2.WellFormed F N') (hQ : Q N' (g m.store).2 (g m.store).1) :
    Upholds F N m (Effect.onStore g) Q :=
  ⟨rfl, N', hgrows, hstore, fun a ha => by cases ha; exact hQ⟩

lemma pure (hm : m.WellFormed F N) {a : α} (ha : Q N m.store a) :
    Upholds F N m (Pure.pure a) Q := .quiet hm rfl rfl fun _ h => by cases h; exact ha

lemma raise (hm : m.WellFormed F N) (token : Token) (cause : RuntimeCause) :
    Upholds F N m (Effect.raise token cause) Q := .quiet hm rfl rfl nofun

lemma exhausted (hm : m.WellFormed F N) : Upholds F N m Effect.exhausted Q :=
  .quiet hm rfl rfl nofun

lemma calm (hm : m.WellFormed F N) {P : α → Prop} (hx : x.Calm P) :
    Upholds F N m x fun _ _ a => P a := by
  obtain ⟨hstore, hscope, -, hend⟩ := hx m
  refine .quiet hm hscope hstore fun a ha => ?_
  rwa [ha] at hend

lemma bind (hm : m.WellFormed F N) (hx : Upholds F N m x Q)
    (hf : ∀ a N₁ m₁, x m = (.ok a, m₁) → m.store.Grows N N₁ m₁.store → m₁.WellFormed F N₁ →
      Q N₁ m₁.store a → Upholds F N₁ m₁ (f a) R) : Upholds F N m (x >>= f) R := by
  obtain ⟨hscope, N₁, hgrows, hstore, hend⟩ := hx
  unfold Upholds
  rw [Effect.run_bind]
  rcases hxm : x m with ⟨a | _ | _ | _, m₁⟩
  all_goals rw [hxm] at hscope hgrows hstore hend
  · have hm₁ : m₁.WellFormed F N₁ := ⟨hstore, hscope ▸ hm.scope.mono hgrows⟩
    obtain ⟨hscope₂, N₂, hgrows₂, hstore₂, hend₂⟩ := hf a N₁ m₁ hxm hgrows hm₁ (hend a rfl)
    exact ⟨hscope₂.trans hscope, N₂, hgrows.trans hgrows₂, hstore₂, hend₂⟩
  all_goals exact ⟨hscope, N₁, hgrows, hstore, nofun⟩

lemma of_eq (hrun : x m = y m) (hy : Upholds F N m y Q) : Upholds F N m x Q := by
  unfold Upholds
  rw [hrun]
  exact hy

lemma ite {c : Prop} [Decidable c] (hx : c → Upholds F N m x Q) (hy : ¬ c → Upholds F N m y Q) :
    Upholds F N m (if c then x else y) Q := by
  by_cases hc : c
  · rw [if_pos hc]
    exact hx hc
  · rw [if_neg hc]
    exact hy hc

lemma within {scope : Scope} (hx : Upholds F N { m with scope := scope } x Q) :
    Upholds F N m (Effect.within scope x) Q := ⟨rfl, hx.2⟩

lemma deeper (hx : Upholds F N { m with depth := m.depth + 1 } x Q) :
    Upholds F N m (Effect.deeper x) Q := hx

/-- What an effect upholds, said of how it ended. -/
lemma of_run {outcome : Outcome α} {m₁ : Machine} (h : Upholds F N m x Q) (hm : m.WellFormed F N)
    (hrun : x m = (outcome, m₁)) : ∃ N₁, m.store.Grows N N₁ m₁.store ∧ m₁.WellFormed F N₁ ∧
      ∀ a, outcome = .ok a → Q N₁ m₁.store a := by
  obtain ⟨hscope, N₁, hgrows, hstore, hend⟩ := h
  rw [hrun] at hscope hgrows hstore hend
  have hscope : m₁.scope = m.scope := hscope
  exact ⟨N₁, hgrows, ⟨hstore, hscope ▸ hm.scope.mono hgrows⟩, hend⟩

end Rules

/-! ### Effects of a run -/

section Effects

variable (hm : m.WellFormed F N)

include hm

lemma scope : Upholds F N m Effect.scope fun _ _ _ => True :=
  .quiet hm rfl rfl fun _ _ => trivial

lemma freshStamp : Upholds F N m Effect.freshStamp fun _ s stamp =>
    m.store.nextStamp ≤ stamp ∧ stamp < s.nextStamp :=
  .onStore (.freshStamp N m.store) hm.store.freshStamp ⟨Nat.le_refl _, Nat.lt_succ_self _⟩

/-- A new frame with a chain of the store around it. -/
lemma addFrame {bindings : Bindings Value} {outer : Scope} (houter : outer.WellFormed N m.store)
    (hbindings : ∀ name value, bindings.find? name = some value → value.WellFormed F N m.store) :
    Upholds F N m (Effect.addFrame bindings) fun N' s frame =>
      Scope.WellFormed N' s (frame :: outer) := by
  obtain ⟨first, hfirst, rfl⟩ := houter
  refine .onStore (.addFrame N m.store bindings hfirst) (hm.store.addFrame hbindings hfirst) ?_
  exact ⟨m.store.frames.size, by simp [Store.addFrame], (Nesting.chain_nest N hfirst).symm⟩

/-- The frame of a block is made inside of the scope at hand. -/
lemma openBlock : Upholds F N m (Effect.addFrame .empty) fun N' s frame =>
    Scope.WellFormed N' s (frame :: m.scope) :=
  addFrame hm hm.scope fun _ _ hvalue => by cases hvalue

/-- The frame of a call is made inside of the scope of the closure. -/
lemma openCall {closure : Closure} (hclosure : closure.WellFormed N m.store)
    {arguments : List Value} (harguments : AllWellFormed F N m.store arguments) :
    Upholds F N m (Effect.addFrame (bindParameters closure.decl.params arguments))
      fun N' s frame => Scope.WellFormed N' s (frame :: closure.scope) := by
  refine addFrame hm hclosure.scope fun name value hvalue => ?_
  rcases Bindings.mem_of_find?_insertAll hvalue with hentry | hnone
  · exact harguments value (List.of_mem_zip hentry).2
  · cases hnone

lemma define {name : Token} (hname : name.IsBindable) {value : Value}
    (hvalue : value.WellFormed F N m.store) :
    Upholds F N m (Effect.define name.lexeme value) fun _ _ _ => True := by
  obtain ⟨first, -, hscope⟩ := hm.scope
  obtain ⟨outer, hchain⟩ := N.exists_chain_eq_cons first
  have hrun : Effect.define name.lexeme value m =
      Effect.onStore (fun s => ((), s.bindIn first name.lexeme value)) m := by
    rw [Effect.define, hscope, hchain]
    rfl
  exact .of_eq hrun (.onStore (.bindIn N m.store first hname value)
    (hm.store.bindIn first hname hvalue) trivial)

lemma defineNil {name : Token} (hname : name.IsBindable) :
    Upholds F N m (Effect.define name.lexeme .nil) fun _ _ _ => True := define hm hname trivial

lemma setField (id : InstanceId) (name : String) {value : Value}
    (hvalue : value.WellFormed F N m.store) :
    Upholds F N m (Effect.setField id name value) fun _ _ _ => True :=
  .onStore (.modifyInstance N m.store id _) (hm.store.setField id name hvalue) trivial

lemma addInstance {c : Class} (hc : c.WellFormed F N m.store) :
    Upholds F N m (Effect.addInstance c) fun _ s id => id < s.instances.size :=
  .onStore (.addInstance N m.store c) (hm.store.addInstance hc) (by simp [Store.addInstance])

lemma bindMethod {method : Method} {id : InstanceId}
    (hmethod : ∀ closure, method = .declared closure →
      closure.WellFormed N m.store ∧ F (m.store.boundMethod closure))
    (hid : id < m.store.instances.size) :
    Upholds F N m (Effect.bindMethod method id) (Callable.WellFormed F) := by
  obtain ⟨N', hgrows, hstore, hc⟩ := hm.store.bindMethod hmethod hid
  exact .onStore hgrows hstore hc

/-- What is read is bound somewhere. -/
lemma readAt (scope : Scope) (d : Nat) (name : String) :
    Upholds F N m (Effect.readAt scope d name) (Value.WellFormed F) := by
  have hsame := Effect.snd_readAt scope d name m
  refine .quiet hm (by rw [hsame]) (by rw [hsame]) fun value hvalue => ?_
  obtain ⟨frame, hframe⟩ := Effect.exists_of_readAt (Prod.ext hvalue hsame)
  exact hm.store.bindings frame name value hframe

lemma readRef (ref : RefId) (name : Token) :
    Upholds F N m (Effect.readRef ref name) (Value.WellFormed F) := by
  have hsame := Effect.snd_readRef ref name m
  refine .quiet hm (by rw [hsame]) (by rw [hsame]) fun value hvalue => ?_
  obtain ⟨frame, hframe⟩ := Effect.exists_of_readRef (Prod.ext hvalue hsame)
  exact hm.store.bindings frame name.lexeme value hframe

lemma writeRef (ref : RefId) {name : Token} (hname : name.IsBindable) {value : Value}
    (hvalue : value.WellFormed F N m.store) :
    Upholds F N m (Effect.writeRef ref name value) fun _ _ _ => True := by
  have hbind : ∀ frame, Upholds F N m (Effect.onStore fun s =>
      ((), s.bindIn frame name.lexeme value)) fun _ _ _ => True := fun frame =>
    .onStore (.bindIn N m.store frame hname value) (hm.store.bindIn frame hname hvalue) trivial
  cases hdistance : m.distances.find? ref with
  | some d =>
    cases hframe : m.store.frameAt m.scope d name.lexeme with
    | ok frame =>
      refine .of_eq ?_ (hbind frame)
      simp only [Effect.writeRef, hdistance, Effect.writeAt, hframe]
    | error fault =>
      refine .of_eq (y := fun m => (.fault fault, m)) ?_ (.quiet hm rfl rfl fun _ h => by cases h)
      simp only [Effect.writeRef, hdistance, Effect.writeAt, hframe]
  | none =>
    cases hframe : m.store.frameOf? name.lexeme globalScope with
    | some frame =>
      refine .of_eq ?_ (hbind frame)
      simp only [Effect.writeRef, hdistance, Effect.writeGlobal, hframe]
    | none =>
      refine .of_eq ?_ (.raise hm name (.undefinedVariable name.lexeme))
      simp only [Effect.writeRef, hdistance, Effect.writeGlobal, hframe, Effect.raise]

/-- A property is a field, or a method that is bound now. -/
lemma property {id : InstanceId} (hid : id < m.store.instances.size) (name : Token)
    (hmade : ∀ i closure, (m.store.fields id).find? name.lexeme = none →
      m.store.instances[id]? = some i → i.cls.lookup? name.lexeme = some (.declared closure) →
      F (m.store.boundMethod closure)) :
    Upholds F N m (Effect.property id name) (Value.WellFormed F) := by
  cases hfield : (m.store.fields id).find? name.lexeme with
  | some value =>
    refine .of_eq ?_ (.pure hm (hm.store.fields id name.lexeme value hfield))
    simp only [Effect.property, hfield, Effect.run_pure]
  | none =>
    cases hmethod : (m.store.instances[id]?).bind fun i => i.cls.lookup? name.lexeme with
    | none =>
      refine .of_eq ?_ (.raise hm name (.undefinedProperty name.lexeme))
      simp only [Effect.property, hfield, hmethod, Effect.raise]
    | some method =>
      obtain ⟨i, hi, hlookup⟩ := Option.bind_eq_some_iff.mp hmethod
      have hbound : Upholds F N m (Effect.bindMethod method id >>= fun c =>
          Pure.pure (Value.callable c)) (Value.WellFormed F) := by
        refine (bindMethod hm (fun closure hclosure => ?_) hid).bind hm
          fun c N₁ m₁ _ _ h₁ hc => .pure h₁ hc
        have hlookup := hlookup.trans (congrArg some hclosure)
        exact ⟨(hm.store.classes id i hi).lookup hlookup, hmade i closure hfield hi hlookup⟩
      refine .of_eq ?_ hbound
      simp only [Effect.property, hfield, hmethod]
      rfl

lemma expectClass (token : Token) {value : Value} (hvalue : value.WellFormed F N m.store) :
    Upholds F N m (LoxLang.expectClass token value) (Class.WellFormed F) := by
  rcases value with _ | _ | _ | _ | (_ | _ | c) | _
  case callable.cls => exact .pure hm hvalue
  all_goals exact .raise hm _ _

/-- The method of a superclass is bound to the instance at hand. -/
lemma superMethod (ref : RefId) (keyword method : Token)
    (hmade : ∀ d parent id closure, m.distances.find? ref = some d →
      Effect.readAt m.scope d "super" m = (.ok (.callable (.cls parent)), m) →
      Effect.readAt m.scope (d - 1) "this" m = (.ok (.object id), m) →
      parent.lookup? method.lexeme = some (.declared closure) → F (m.store.boundMethod closure)) :
    Upholds F N m (LoxLang.superMethod ref keyword method) (Value.WellFormed F) := by
  have hdistance : Upholds F N m (Effect.distance? ref) fun _ _ _ => True :=
    .quiet hm rfl rfl fun _ _ => trivial
  refine hdistance.bind hm fun distance N₁ m₁ hrun _ h₁ _ => ?_
  cases hrun
  cases hd : m.distances.find? ref with
  | none => exact .raise h₁ _ _
  | some d =>
    refine (scope h₁).bind h₁ fun current N₂ m₂ hrun _ h₂ _ => ?_
    cases hrun
    refine (readAt h₂ m.scope d "super").bind h₂ fun parent N₃ m₃ hsuper _ h₃ hparent => ?_
    -- Nothing but the method that is bound in the end changes the machine.
    obtain rfl : m₃ = m := (congrArg Prod.snd hsuper).symm.trans (Effect.snd_readAt ..)
    rcases parent with _ | _ | _ | _ | (_ | _ | parent) | _
    case callable.cls =>
      refine (readAt h₃ m₃.scope (d - 1) "this").bind h₃ fun this N₄ m₄ hrun hs₄ h₄ hthis => ?_
      obtain rfl : m₄ = m₃ := (congrArg Prod.snd hrun).symm.trans (Effect.snd_readAt ..)
      cases this with
      | object id =>
        simp only
        cases hmethod : parent.lookup? method.lexeme with
        | none => exact .raise h₄ _ _
        | some found =>
          refine (bindMethod h₄ (fun closure hclosure => ?_) hthis).bind h₄
            fun c N₅ m₅ _ _ h₅ hc => .pure h₅ hc
          have hlookup := hmethod.trans (congrArg some hclosure)
          exact ⟨(Class.WellFormed.mono hparent hs₄).lookup hlookup,
            hmade d parent id closure hd hsuper hrun hlookup⟩
      | _ => exact .raise h₄ _ _
    all_goals exact .raise h₃ _ _

omit hm in
/-- A method in the table of a class is one of the methods of the statement. -/
lemma wellFormed_methodTable {s : Store} {scope : Scope} (hscope : scope.WellFormed N s)
    {methods : List FunDecl} (hmethods : FunDecl.AllTidy IsAnyClass methods) {name : String}
    {closure : Closure} (h : (methodTable scope methods).find? name = some (.declared closure)) :
    closure.WellFormed N s := by
  rcases Bindings.mem_of_find?_insertAll h with hentry | hnone
  · obtain ⟨d, hd, heq⟩ := List.mem_map.mp hentry
    cases heq
    exact ⟨hmethods.mem hd, hscope⟩
  · cases hnone

/-- **A class is made after its superclass**, so its stamp is younger. -/
lemma defineClass {name : Token} (hname : name.IsBindable) {superclass : Option Class}
    (hsuperclass : ∀ c ∈ superclass, c.WellFormed F N m.store) {methods : List FunDecl}
    (hmethods : FunDecl.AllTidy IsAnyClass methods)
    (hmade : F (.layer (m.newLayer name superclass methods))) :
    Upholds F N m (LoxLang.defineClass name superclass methods) fun _ _ _ => True := by
  have hrest : ∀ {N₁ m₁}, m₁.WellFormed F N₁ → m₁.store.nextStamp = m.store.nextStamp →
      (m.methodScope superclass).WellFormed N₁ m₁.store →
      (∀ c ∈ superclass, c.WellFormed F N₁ m₁.store) →
      Upholds F N₁ m₁ (Effect.freshStamp >>= fun stamp => Effect.define name.lexeme (.callable
        (.cls (.extend ⟨stamp, name.lexeme, methodTable (m.methodScope superclass) methods⟩
          superclass)))) fun _ _ _ => True := by
    intro N₁ m₁ h₁ hstamps hinner hparent
    refine (freshStamp h₁).bind h₁ fun stamp N₂ m₂ hrun hs₂ h₂ hstamp => define h₂ hname ?_
    obtain rfl : m₁.store.nextStamp = stamp := by
      cases hrun
      rfl
    rw [hstamps] at hstamp ⊢
    have hclass : Class.WellFormed F N₂ m₂.store
        (.extend (m.newLayer name superclass methods) superclass) := by
      refine .extend (fun c hc => (hparent c hc).mono hs₂) (fun c hc layer hlayer => ?_) hstamp.2
        fun closure hdeclares => ?_
      · exact ((hparent c hc).stamp_lt layer hlayer).trans_eq hstamps
      · obtain ⟨label, hclosure⟩ := hdeclares
        exact ⟨wellFormed_methodTable (hinner.mono hs₂) hmethods hclosure, hmade⟩
    exact hclass
  refine (scope hm).bind hm fun outer N₁ m₁ hrun hs₁ h₁ _ => ?_
  cases hrun
  have hparent : ∀ c ∈ superclass, c.WellFormed F N₁ m.store := fun c hc =>
    (hsuperclass c hc).mono hs₁
  cases superclass with
  | none => exact hrest h₁ rfl h₁.scope hparent
  | some c =>
    refine (addFrame h₁ h₁.scope fun label value hvalue => ?_).bind h₁
      fun frame N₂ m₂ hframe hs₂ h₂ hinner => ?_
    · rw [(Bindings.find?_singleton hvalue).2]
      exact hparent c rfl
    · cases hframe
      exact hrest h₂ rfl hinner fun c hc => (hparent c hc).mono hs₂

/-! ### Operators and calls -/

/-- Operators give plain values. -/
lemma plain {x : Effect Value} (hx : x.Calm Value.IsPlain)
    (hrefers : Plays m x [] Value.RefersBelow) : Upholds F N m x (Value.WellFormed F) := by
  obtain ⟨hstore, hscope, -, hend⟩ := hx m
  refine .quiet hm hscope hstore fun value hvalue => ?_
  have hbelow := hrefers.result value hvalue
  rw [hstore] at hbelow
  rw [hvalue] at hend
  exact hend.wellFormed hbelow

lemma closureResult (closure : Closure) {flow : Flow} (hflow : flow.WellFormed F N m.store) :
    Upholds F N m (LoxLang.closureResult closure flow) (Value.WellFormed F) := by
  refine .ite (fun _ => readAt hm closure.scope 0 "this") fun _ => ?_
  cases flow with
  | returned value => exact .pure hm (hflow value rfl)
  | normal => exact .pure hm trivial
  | broken => exact .pure hm trivial

end Effects

end Upholds

/-- **A builtin gives a plain value or an element** of its receiver. -/
lemma BuiltinCall.isPlain_or_mem {c : BuiltinCall} {value : Value} (h : c.outcome = .ok value) :
    value.IsPlain ∨ ∃ id, c.receiver = some id ∧ value ∈ c.machine.store.elements id := by
  obtain ⟨b, receiver, arguments, paren, m⟩ := c
  have hplain : ∀ {x : Effect Value}, x.Calm Value.IsPlain → (x m).1 = .ok value →
      value.IsPlain := by
    intro x hx hvalue
    obtain ⟨-, -, -, hend⟩ := hx m
    rwa [hvalue] at hend
  cases b with
  | clock =>
    exact .inl (hplain (Effect.Calm.readClock.bind fun _ _ =>
      .pure (by simp [Value.IsPlain])) h)
  | inputString =>
    exact .inl (hplain ((calm_readPrompted paren arguments).bind fun _ _ =>
      .pure (by simp [Value.IsPlain])) h)
  | inputNumber =>
    exact .inl (hplain ((calm_readPrompted paren arguments).bind fun line _ =>
      calm_numberOfLine paren line) h)
  | arrayLength | arrayPush =>
    cases receiver with
    | none => cases h
    | some id =>
      cases h
      exact .inl (by simp [Value.IsPlain])
  | arrayPop =>
    cases receiver with
    | none => cases h
    | some id =>
      cases h
      cases hlast : (m.store.elements id).back? with
      | none => exact .inl (by simp [Value.IsPlain])
      | some last => exact .inr ⟨id, rfl, Array.mem_of_back? hlast⟩
  | arrayGet =>
    cases receiver with
    | none => cases h
    | some id =>
      rcases hargument : arguments.head? with _ | _ | _ | x | _ | _ | _
      all_goals simp only [outcome, Builtin.call, Builtin.onReceiver, hargument] at h
      case some.number =>
        unfold Builtin.elementAt at h
        split at h
        · next found hfound =>
          cases h
          obtain ⟨i, -, hi⟩ := Option.bind_eq_some_iff.mp hfound
          exact .inr ⟨id, rfl, Array.mem_of_getElem? hi⟩
        · cases h
      all_goals cases h

/-- A builtin leaves the store alone, or puts a value that exists into its receiver. -/
lemma Upholds.callBuiltin {F : Made → Prop} {N : Nesting} {m : Machine}
    (hm : m.WellFormed F N) {stamp : Stamp} {b : Builtin} {receiver : Option InstanceId}
    (hc : Callable.WellFormed F N m.store (.builtin stamp b receiver)) {arguments : List Value}
    (harguments : AllWellFormed F N m.store arguments) (paren : Token) :
    Upholds F N m (b.call receiver arguments paren) (Value.WellFormed F) := by
  let c : BuiltinCall := ⟨b, receiver, arguments, paren, m⟩
  have hreceiver : c.HasReceiver := by
    cases receiver with
    | none => exact .inl (hc.2.2 rfl)
    | some id => exact .inr ⟨id, rfl, hc.2.1 id rfl⟩
  have hrefers := (Plays.builtinCall hm.store.closed hreceiver
    fun v hv => (harguments v hv).refersBelow).result
  have hchanged : m.store.Grows N N c.after.store ∧ c.after.store.WellFormed F N := by
    rcases c.store_after with hsame | ⟨-, id, f, -, hstore, hf⟩
    · rw [hsame]
      exact ⟨.refl N m.store, hm.store⟩
    · rw [hstore]
      refine ⟨.modifyInstance N m.store id _, hm.store.updateElements id fun v hv => ?_⟩
      rcases hf _ v hv with hold | rfl
      · exact hm.store.elements id v hold
      · cases arguments with
        | nil => trivial
        | cons first rest => exact harguments first (List.mem_cons_self ..)
  obtain ⟨hgrows, hstore⟩ := hchanged
  refine ⟨(restoring.callBuiltin b receiver arguments paren m).scope, N, hgrows, hstore,
    fun value hvalue => ?_⟩
  rcases BuiltinCall.isPlain_or_mem (c := c) hvalue with hplain | ⟨id, -, hmem⟩
  · exact hplain.wellFormed (hrefers value hvalue)
  · exact (hm.store.elements id value hmem).mono hgrows

/-- **What a call of a closure runs**: its body, in a new frame inside of its scope. -/
def Closure.runBody (closure : Closure) (n : Nat) (arguments : List Value) : Effect Flow := do
  let frame ← Effect.addFrame (bindParameters closure.decl.params arguments)
  Effect.within (frame :: closure.scope) (executeAll n closure.decl.body)

lemma call_function (n : Nat) (stamp : Stamp) (closure : Closure) (arguments : List Value)
    (paren : Token) : call (n + 1) (.function stamp closure) arguments paren =
      closure.runBody n arguments >>= closureResult closure := rfl

/-- Only a class is taken for a superclass. -/
lemma eq_of_expectClass {token : Token} {value : Value} {c : Class} {m m₁ : Machine}
    (h : expectClass token value m = (.ok c, m₁)) : value = .callable (.cls c) ∧ m₁ = m := by
  rcases value with _ | _ | _ | _ | (_ | _ | parent) | _ <;> cases h
  exact ⟨rfl, rfl⟩

/-! ## Runs -/

/-- **Runs with a given amount of fuel keep machines well formed.** -/
structure UpholdsAt (F : Made → Prop) (n : Nat) : Prop where
  evaluate : ∀ {N m} (e : Expr), e.Tidy → m.WellFormed F N →
    Activity.MakesOnly F ⟨n, .evaluate e, m⟩ →
    Upholds F N m (LoxLang.evaluate n e) (Value.WellFormed F)
  evaluateAll : ∀ {N m} (es : List Expr), Expr.AllTidy es → m.WellFormed F N →
    Activity.MakesOnly F ⟨n, .evaluateAll es, m⟩ →
    Upholds F N m (LoxLang.evaluateAll n es) (AllWellFormed F)
  invoke : ∀ {N m} (value : Value) (arguments : List Value) (paren : Token),
    value.WellFormed F N m.store → AllWellFormed F N m.store arguments → m.WellFormed F N →
    Activity.MakesOnly F ⟨n, .invoke value arguments paren, m⟩ →
    Upholds F N m (LoxLang.invoke n value arguments paren) (Value.WellFormed F)
  call : ∀ {N m} (c : Callable) (arguments : List Value) (paren : Token),
    c.WellFormed F N m.store → AllWellFormed F N m.store arguments → m.WellFormed F N →
    Activity.MakesOnly F ⟨n, .call c arguments paren, m⟩ →
    Upholds F N m (LoxLang.call n c arguments paren) (Value.WellFormed F)
  execute : ∀ {N m} (s : Stmt), s.Tidy IsAnyClass → m.WellFormed F N →
    Activity.MakesOnly F ⟨n, .execute s, m⟩ →
    Upholds F N m (LoxLang.execute n s) (Flow.WellFormed F)
  executeAll : ∀ {N m} (body : List Stmt), Stmt.AllTidy IsAnyClass body → m.WellFormed F N →
    Activity.MakesOnly F ⟨n, .executeAll body, m⟩ →
    Upholds F N m (LoxLang.executeAll n body) (Flow.WellFormed F)
  repeatWhile : ∀ {N m} (condition : Expr) (body : Stmt), condition.Tidy → body.Tidy IsAnyClass →
    m.WellFormed F N → Activity.MakesOnly F ⟨n, .repeatWhile condition body, m⟩ →
    Upholds F N m (LoxLang.repeatWhile n condition body) (Flow.WellFormed F)

namespace UpholdsAt

variable {F : Made → Prop} {n : Nat} {N : Nesting} {m : Machine}

lemma succ_evaluate (h : UpholdsAt F n) (e : Expr) (he : e.Tidy) (hm : m.WellFormed F N)
    (hF : Activity.MakesOnly F ⟨n + 1, .evaluate e, m⟩) :
    Upholds F N m (LoxLang.evaluate (n + 1) e) (Value.WellFormed F) := by
  cases e with
  | literal value => exact .pure hm (Value.wellFormed_ofLiteral value)
  | grouping inner => exact h.evaluate inner he hm (hF.starts .grouping)
  | unary operator right =>
    refine (h.evaluate right he hm (hF.starts .unary)).bind hm fun value N₁ m₁ _ _ h₁ _ => ?_
    exact .plain h₁ (calm_applyUnary operator value) (.applyUnary h₁.store.closed operator value)
  | binary left operator right =>
    refine (h.evaluate left he.1 hm (hF.starts .binaryLeft)).bind hm
      fun a N₁ m₁ hleft _ h₁ _ => ?_
    refine (h.evaluate right he.2 h₁ (hF.starts (.binaryRight hleft))).bind h₁
      fun b N₂ m₂ _ _ h₂ _ => ?_
    exact .plain h₂ (calm_applyBinary operator a b) (.applyBinary h₂.store.closed operator a b)
  | logical left operator right =>
    refine (h.evaluate left he.1 hm (hF.starts .logicalLeft)).bind hm
      fun a N₁ m₁ hleft _ h₁ ha => .ite (fun _ => .pure h₁ ha) fun hopen => ?_
    exact h.evaluate right he.2 h₁ (hF.starts (.logicalRight hleft (by simpa using hopen)))
  | «variable» ref name => exact .readRef hm ref name
  | this ref keyword => exact .readRef hm ref keyword
  | assign ref name value =>
    refine (h.evaluate value he.2 hm (hF.starts .assign)).bind hm fun v N₁ m₁ _ _ h₁ hv => ?_
    exact (Upholds.writeRef h₁ ref he.1 hv).bind h₁ fun _ N₂ m₂ _ hs₂ h₂ _ =>
      .pure h₂ (hv.mono hs₂)
  | call callee paren arguments =>
    refine (h.evaluate callee he.1 hm (hF.starts .callee)).bind hm
      fun c N₁ m₁ hcallee _ h₁ hc => ?_
    refine (h.evaluateAll arguments he.2 h₁ (hF.starts (.arguments hcallee))).bind h₁
      fun values N₂ m₂ hvalues hs₂ h₂ hwell => ?_
    exact h.invoke c values paren (hc.mono hs₂) hwell h₂ (hF.starts (.invoke hcallee hvalues))
  | get object name =>
    refine (h.evaluate object he hm (hF.starts .get)).bind hm
      fun value N₁ m₁ hobject _ h₁ hvalue => ?_
    cases value with
    | object id =>
      exact .property h₁ hvalue name fun i closure hfield hi hclosure =>
        hF.here _ (.method (.property hobject hfield hi) hclosure)
    | _ => exact .raise h₁ _ _
  | set object name value =>
    refine (h.evaluate object he.1 hm (hF.starts .setObject)).bind hm
      fun target N₁ m₁ hobject _ h₁ _ => ?_
    cases target with
    | object id =>
      refine (h.evaluate value he.2 h₁ (hF.starts (.setValue hobject))).bind h₁
        fun v N₂ m₂ _ _ h₂ hv => ?_
      exact (Upholds.setField h₂ id name.lexeme hv).bind h₂ fun _ N₃ m₃ _ hs₃ h₃ _ =>
        .pure h₃ (hv.mono hs₃)
    | _ => exact .raise h₁ _ _
  | super ref keyword method =>
    exact .superMethod hm ref keyword method fun d parent id closure hd hsuper hthis hclosure =>
      hF.here _ (.method (.super hd hsuper hthis) hclosure)

lemma succ_evaluateAll (h : UpholdsAt F n) (es : List Expr) (hes : Expr.AllTidy es)
    (hm : m.WellFormed F N) (hF : Activity.MakesOnly F ⟨n + 1, .evaluateAll es, m⟩) :
    Upholds F N m (LoxLang.evaluateAll (n + 1) es) (AllWellFormed F) := by
  cases es with
  | nil => exact .pure hm (List.forall_mem_nil _)
  | cons e rest =>
    refine (h.evaluate e hes.1 hm (hF.starts .first)).bind hm
      fun first N₁ m₁ hrun _ h₁ hfirst => ?_
    refine (h.evaluateAll rest hes.2 h₁ (hF.starts (.others hrun))).bind h₁
      fun others N₂ m₂ _ hs₂ h₂ hothers => ?_
    exact .pure h₂ (List.forall_mem_cons.mpr ⟨hfirst.mono hs₂, hothers⟩)

lemma succ_invoke (h : UpholdsAt F n) (value : Value) (arguments : List Value) (paren : Token)
    (hvalue : value.WellFormed F N m.store) (harguments : AllWellFormed F N m.store arguments)
    (hm : m.WellFormed F N)
    (hF : Activity.MakesOnly F ⟨n + 1, .invoke value arguments paren, m⟩) :
    Upholds F N m (LoxLang.invoke (n + 1) value arguments paren) (Value.WellFormed F) := by
  cases value with
  | callable c =>
    refine .ite (fun _ => .raise hm _ _) fun harity => ?_
    refine (Upholds.calm hm .isAtLimit).bind hm fun full N₁ m₁ hlimit hs₁ h₁ _ =>
      .ite (fun _ => .raise h₁ _ _) fun hroom => ?_
    cases hlimit
    have hroom : m.depth < m.limit := by simpa using hroom
    have hcall := hF.starts (.enter (not_not.mp harity) hroom)
    exact .deeper (h.call c arguments paren (hvalue.mono hs₁) (harguments.mono hs₁)
      ⟨h₁.store, h₁.scope⟩ hcall)
  | _ => exact .raise hm _ _

lemma runBody (h : UpholdsAt F n) {stamp : Stamp} {closure : Closure} {arguments : List Value}
    {paren : Token} (hclosure : closure.WellFormed N m.store)
    (harguments : AllWellFormed F N m.store arguments) (hm : m.WellFormed F N)
    (hF : Activity.MakesOnly F ⟨n + 1, .call (.function stamp closure) arguments paren, m⟩) :
    Upholds F N m (closure.runBody n arguments) (Flow.WellFormed F) := by
  refine (Upholds.openCall hm hclosure harguments).bind hm
    fun frame N₁ m₁ hframe _ h₁ hscope => ?_
  exact .within (h.executeAll closure.decl.body hclosure.decl.body ⟨h₁.store, hscope⟩
    (hF.starts (.body hframe)))

lemma succ_call (h : UpholdsAt F n) (c : Callable) (arguments : List Value) (paren : Token)
    (hc : c.WellFormed F N m.store) (harguments : AllWellFormed F N m.store arguments)
    (hm : m.WellFormed F N) (hF : Activity.MakesOnly F ⟨n + 1, .call c arguments paren, m⟩) :
    Upholds F N m (LoxLang.call (n + 1) c arguments paren) (Value.WellFormed F) := by
  cases c with
  | builtin stamp b receiver => exact .callBuiltin hm hc harguments paren
  | function stamp closure =>
    rw [call_function]
    have hclosure : closure.WellFormed N m.store := Closure.IsFunction.wellFormed hc
    exact (h.runBody hclosure harguments hm hF).bind hm fun flow N₁ m₁ _ _ h₁ hflow =>
      .closureResult h₁ closure hflow
  | cls c =>
    refine (Upholds.addInstance hm hc).bind hm fun id N₁ m₁ hid hs₁ h₁ hnew => ?_
    cases hmethod : c.lookup? initializerName with
    | none => exact .pure h₁ hnew
    | some method =>
      refine (Upholds.bindMethod h₁ (fun closure hclosure => ?_) hnew).bind h₁
        fun initializer N₂ m₂ hbound hs₂ h₂ hinitializer => ?_
      · have hlookup := hmethod.trans (congrArg some hclosure)
        exact ⟨(Class.WellFormed.mono hc hs₁).lookup hlookup,
          hF.here _ (.method (.construct hid) hlookup)⟩
      · refine (h.call initializer arguments paren hinitializer
          (harguments.mono (hs₁.trans hs₂)) h₂ (hF.starts (.construct hid hmethod hbound))).bind h₂
          fun _ N₃ m₃ _ hs₃ h₃ _ => .pure h₃ ?_
        exact hnew.trans_le (hs₂.instances.trans hs₃.instances)

lemma succ_execute (h : UpholdsAt F n) (s : Stmt) (hs : s.Tidy IsAnyClass)
    (hm : m.WellFormed F N) (hF : Activity.MakesOnly F ⟨n + 1, .execute s, m⟩) :
    Upholds F N m (LoxLang.execute (n + 1) s) (Flow.WellFormed F) := by
  cases s with
  | expression e =>
    exact (h.evaluate e hs hm (hF.starts .expression)).bind hm fun _ N₁ m₁ _ _ h₁ _ =>
      .pure h₁ Flow.wellFormed_normal
  | print e =>
    refine (h.evaluate e hs hm (hF.starts .print)).bind hm fun value N₁ m₁ _ _ h₁ _ => ?_
    refine (Upholds.calm h₁ (.text value)).bind h₁ fun line N₂ m₂ _ _ h₂ _ => ?_
    exact (Upholds.calm h₂ (.write _)).bind h₂ fun _ N₃ m₃ _ _ h₃ _ =>
      .pure h₃ Flow.wellFormed_normal
  | var name initializer =>
    cases initializer with
    | none =>
      exact (Upholds.defineNil hm hs).bind hm fun _ N₁ m₁ _ _ h₁ _ =>
        .pure h₁ Flow.wellFormed_normal
    | some e =>
      refine (h.evaluate e hs.2 hm (hF.starts .var)).bind hm fun value N₁ m₁ _ _ h₁ hvalue => ?_
      exact (Upholds.define h₁ hs.1 hvalue).bind h₁ fun _ N₂ m₂ _ _ h₂ _ =>
        .pure h₂ Flow.wellFormed_normal
  | block body =>
    refine (Upholds.openBlock hm).bind hm fun frame N₁ m₁ hframe _ h₁ hinner => ?_
    refine (Upholds.scope h₁).bind h₁ fun outer N₂ m₂ houter hs₂ h₂ _ => ?_
    cases houter
    have hscope : m₁.scope = m.scope := ((Effect.Restores.onStore _).of_run hframe).scope
    rw [← hscope] at hinner
    exact .within (h.executeAll body hs ⟨h₂.store, hinner.mono hs₂⟩ (hF.starts (.block hframe)))
  | ifThen condition thenBranch elseBranch =>
    cases elseBranch with
    | none =>
      refine (h.evaluate condition hs.1 hm (hF.starts .condition)).bind hm
        fun value N₁ m₁ hcondition _ h₁ _ => .ite (fun htrue => ?_) fun _ =>
          .pure h₁ Flow.wellFormed_normal
      exact h.execute thenBranch hs.2 h₁ (hF.starts (.thenBranch hcondition htrue))
    | some elseBranch =>
      refine (h.evaluate condition hs.1 hm (hF.starts .condition)).bind hm
        fun value N₁ m₁ hcondition _ h₁ _ => .ite (fun htrue => ?_) fun hfalse => ?_
      · exact h.execute thenBranch hs.2.1 h₁ (hF.starts (.thenBranch hcondition htrue))
      · exact h.execute elseBranch hs.2.2 h₁
          (hF.starts (.elseBranch hcondition (by simpa using hfalse)))
  | whileLoop condition body =>
    exact h.repeatWhile condition body hs.1 hs.2 hm (hF.starts .whileLoop)
  | breakLoop keyword => exact .pure hm nofun
  | returnValue keyword value =>
    cases value with
    | none =>
      refine .pure hm fun value hvalue => ?_
      cases hvalue
      trivial
    | some e =>
      refine (h.evaluate e hs hm (hF.starts .returnValue)).bind hm
        fun value N₁ m₁ _ _ h₁ hvalue => .pure h₁ fun value' heq => ?_
      cases heq
      exact hvalue
  | function decl =>
    refine (Upholds.freshStamp hm).bind hm fun stamp N₁ m₁ hrun hs₁ h₁ hstamp => ?_
    refine (Upholds.scope h₁).bind h₁ fun current N₂ m₂ hcurrent hs₂ h₂ _ => ?_
    cases hrun
    cases hcurrent
    have hmade : F (.function m.store.nextStamp ⟨decl, m.scope, false⟩) := hF.here _ .function
    have hvalue : Value.WellFormed F N₂ _
        (.callable (.function m.store.nextStamp ⟨decl, m.scope, false⟩)) :=
      ⟨hstamp.2, ⟨hs.2, h₂.scope⟩, .inl ⟨hmade, rfl⟩⟩
    exact (Upholds.define h₂ hs.1 hvalue).bind h₂ fun _ N₃ m₃ _ _ h₃ _ =>
      .pure h₃ Flow.wellFormed_normal
  | classDecl name superclass methods =>
    obtain ⟨-, hname, hsuperclass, hmethods⟩ := hs
    cases superclass with
    | none =>
      refine (Upholds.defineNil hm hname).bind hm fun _ N₁ m₁ hnil _ h₁ _ => ?_
      have hnone : ∀ d ∈ (none : Option Class), d.WellFormed F N₁ m₁.store := nofun
      exact (Upholds.defineClass h₁ hname hnone hmethods (hF.here _ (.cls hnil))).bind h₁
        fun _ N₂ m₂ _ _ h₂ _ => .pure h₂ Flow.wellFormed_normal
    | some e =>
      obtain ⟨ref, parent, rfl⟩ := hsuperclass e rfl
      refine (Upholds.defineNil hm hname).bind hm fun _ N₁ m₁ hnil _ h₁ _ => ?_
      refine (h.evaluate (.variable ref parent) trivial h₁ (hF.starts (.superclass hnil))).bind h₁
        fun value N₂ m₂ hrun _ h₂ hvalue => ?_
      refine (Upholds.expectClass h₂ _ hvalue).bind h₂ fun c N₃ m₃ hexpect _ h₃ hc => ?_
      obtain ⟨rfl, rfl⟩ := eq_of_expectClass hexpect
      have hparent : ∀ d ∈ some c, d.WellFormed F N₃ m₃.store := by
        rintro d ⟨⟩
        exact hc
      have hlayer := hF.here _ (.subclass hnil hrun)
      exact (Upholds.defineClass h₃ hname hparent hmethods hlayer).bind h₃
        fun _ N₄ m₄ _ _ h₄ _ => .pure h₄ Flow.wellFormed_normal

lemma succ_executeAll (h : UpholdsAt F n) (body : List Stmt)
    (hbody : Stmt.AllTidy IsAnyClass body) (hm : m.WellFormed F N)
    (hF : Activity.MakesOnly F ⟨n + 1, .executeAll body, m⟩) :
    Upholds F N m (LoxLang.executeAll (n + 1) body) (Flow.WellFormed F) := by
  cases body with
  | nil => exact .pure hm Flow.wellFormed_normal
  | cons s rest =>
    refine (h.execute s hbody.1 hm (hF.starts .head)).bind hm
      fun flow N₁ m₁ hhead _ h₁ hflow => ?_
    cases flow with
    | normal => exact h.executeAll rest hbody.2 h₁ (hF.starts (.tail hhead))
    | broken => exact .pure h₁ hflow
    | returned value => exact .pure h₁ hflow

lemma succ_repeatWhile (h : UpholdsAt F n) (condition : Expr) (body : Stmt)
    (hcondition : condition.Tidy) (hbody : body.Tidy IsAnyClass) (hm : m.WellFormed F N)
    (hF : Activity.MakesOnly F ⟨n + 1, .repeatWhile condition body, m⟩) :
    Upholds F N m (LoxLang.repeatWhile (n + 1) condition body) (Flow.WellFormed F) := by
  refine (h.evaluate condition hcondition hm (hF.starts .whileCondition)).bind hm
    fun value N₁ m₁ htest _ h₁ _ => .ite (fun htrue => ?_) fun _ =>
      .pure h₁ Flow.wellFormed_normal
  refine (h.execute body hbody h₁ (hF.starts (.round htest htrue))).bind h₁
    fun flow N₂ m₂ hround _ h₂ hflow => ?_
  cases flow with
  | normal =>
    exact h.repeatWhile condition body hcondition hbody h₂ (hF.starts (.again htest htrue hround))
  | broken => exact .pure h₂ Flow.wellFormed_normal
  | returned value => exact .pure h₂ hflow

end UpholdsAt

/-- Runs keep machines well formed, whatever fuel they have. -/
lemma upholdsAt (F : Made → Prop) (n : Nat) : UpholdsAt F n := by
  induction n with
  | zero => refine ⟨?_, ?_, ?_, ?_, ?_, ?_, ?_⟩ <;> intros <;> exact .exhausted ‹_›
  | succ n ih =>
    exact ⟨ih.succ_evaluate, ih.succ_evaluateAll, ih.succ_invoke, ih.succ_call, ih.succ_execute,
      ih.succ_executeAll, ih.succ_repeatWhile⟩

end LoxLang
