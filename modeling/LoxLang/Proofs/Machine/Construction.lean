import LoxLang.Proofs.Machine.Moments

/-!
# Calls of classes and of initializers

An instance comes back from a constructor on two paths.  A call of a class makes a new instance,
runs the initializer, and gives the instance whatever the initializer does or gives (`call_class`);
this needs no more than that instances are never removed and never change their class.

A call of an initializer gives what `this` is in the frame that the method closes over
(`find?_this_of_invoke`).  That this is still the instance that the method was bound to is not seen
from the call.  It rests on the frame being left alone since then: no program binds a keyword, so
`this` has the same value at any two moments of a session at which it has one.
-/

namespace LoxLang

/-! ## Calls of a class -/

section Classes

variable {n : Nat} {c : Class} {arguments : List Value} {paren : Token} {m m' : Machine}
  {v : Value}

/-- What a call of a class does once the instance is there. -/
def finishInstance (n : Nat) (c : Class) (arguments : List Value) (paren : Token)
    (id : InstanceId) : Effect Value :=
  match c.lookup? initializerName with
  | none => pure (.object id)
  | some method => do
    let initializer ← Effect.bindMethod method id
    let _ ← call n initializer arguments paren
    pure (.object id)

lemma call_class_eq (n : Nat) (c : Class) (arguments : List Value) (paren : Token) :
    call (n + 1) (.cls c) arguments paren =
      Effect.addInstance c >>= finishInstance n c arguments paren := rfl

/-- Whatever the initializer does, it is the instance that comes back. -/
lemma eq_of_finishInstance {id : InstanceId}
    (h : finishInstance n c arguments paren id m = (.ok v, m')) : v = .object id := by
  unfold finishInstance at h
  cases hmethod : c.lookup? initializerName with
  | none =>
    rw [hmethod] at h
    cases h
    rfl
  | some method =>
    simp only [hmethod, Effect.bindMethod, Effect.run_bind, Effect.run_onStore] at h
    rcases hrun : call n (m.store.bindMethod method id).1 arguments paren
      { m with store := (m.store.bindMethod method id).2 } with ⟨outcome, m₁⟩
    rw [hrun] at h
    cases outcome with
    | ok result =>
      cases h
      rfl
    | error | fault | exhausted => cases h

/-- The initializer only changes the store step by step, as every run does. -/
lemma leads_finishInstance (n : Nat) (c : Class) (arguments : List Value) (paren : Token)
    (id : InstanceId) : (finishInstance n c arguments paren id).Leads fun _ => True := by
  have R := Effect.leadingRuns
  unfold finishInstance
  split
  · exact R.pure _
  · refine R.bind (R.bindMethod _ id) fun initializer => ?_
    exact R.bind ((R.holdsAt n).call initializer arguments paren) fun _ => R.pure _

/-- **A call of a class gives a new instance of it.** -/
lemma call_class (h : call n (.cls c) arguments paren m = (.ok v, m')) :
    v = .object m.store.instances.size ∧
      ∃ i, m'.store.instances[m.store.instances.size]? = some i ∧ i.cls = c := by
  cases n with
  | zero => cases h
  | succ n =>
    rw [call_class_eq, Effect.addInstance, Effect.run_bind, Effect.run_onStore] at h
    have hnew : (m.store.addInstance c).2.instances[m.store.instances.size]? =
        some ⟨c, .empty, #[]⟩ := by
      simp [Store.addInstance]
    have hleads := leads_finishInstance n c arguments paren m.store.instances.size
      { m with store := (m.store.addInstance c).2 }
    have hrun : finishInstance n c arguments paren m.store.instances.size
        { m with store := (m.store.addInstance c).2 } = (.ok v, m') := h
    rw [hrun] at hleads
    exact ⟨eq_of_finishInstance hrun, hleads.instances hnew⟩

/-- What is called with the right number of arguments is called one call further down. -/
lemma call_of_invoke {c : Callable}
    (h : invoke (n + 1) (.callable c) arguments paren m = (.ok v, m')) :
    arguments.length = c.arity ∧ ∃ m₁, call n c arguments paren { m with depth := m.depth + 1 } =
      (.ok v, m₁) ∧ m'.store = m₁.store := by
  have hcounted : invoke (n + 1) (.callable c) arguments paren =
      if arguments.length ≠ c.arity then Effect.raise paren (.wrongArity c.arity arguments.length)
      else Effect.counted paren (call n c arguments paren) := rfl
  rw [hcounted] at h
  by_cases harity : arguments.length = c.arity
  · refine ⟨harity, ?_⟩
    rw [if_neg (not_not_intro harity)] at h
    rcases Nat.lt_or_ge m.depth m.limit with hroom | hfull
    · rw [Effect.counted_of_lt hroom] at h
      simp only [Effect.deeper, Prod.mk.injEq] at h
      obtain ⟨hok, rfl⟩ := h
      exact ⟨_, Prod.ext hok rfl, rfl⟩
    · rw [Effect.counted_of_le hfull] at h
      cases h
  · rw [if_pos harity] at h
    cases h

end Classes

/-! ## Calls of an initializer -/

section Initializers

variable {n : Nat} {stamp : Stamp} {own : Closure} {frame : FrameId} {arguments : List Value}
  {paren : Token} {m m' : Machine} {v : Value}

/-- A method with the frame in which `this` is the instance. -/
def Closure.boundIn (own : Closure) (frame : FrameId) : Closure :=
  { own with scope := frame :: own.scope }

lemma find?_of_readAt {outer : Scope} {name : String}
    (h : Effect.readAt (frame :: outer) 0 name m = (.ok v, m')) :
    m' = m ∧ (m.store.frame frame).find? name = some v := by
  simp only [Effect.readAt, Store.readAt, List.getElem?_cons_zero] at h
  cases hfound : (m.store.frame frame).find? name with
  | none => simp [hfound] at h
  | some value =>
    simp only [hfound, Prod.mk.injEq, Outcome.ok.injEq] at h
    exact ⟨h.2.symm, congrArg some h.1⟩

/-- **A call of an initializer gives `this`**, as its frame has it when the call ends. -/
lemma find?_this_of_call (hown : own.isInitializer = true)
    (h : call n (.function stamp (own.boundIn frame)) arguments paren m = (.ok v, m')) :
    (m'.store.frame frame).find? "this" = some v := by
  cases n with
  | zero => cases h
  | succ n =>
    simp only [LoxLang.call, Effect.addFrame, Effect.run_bind, Effect.run_onStore] at h
    split at h
    · next flow m₁ _ =>
      have hresult : closureResult (own.boundIn frame) flow =
          Effect.readAt (frame :: own.scope) 0 "this" := if_pos hown
      rw [hresult] at h
      obtain ⟨rfl, hthis⟩ := find?_of_readAt h
      exact hthis
    all_goals cases h

lemma find?_this_of_invoke (hown : own.isInitializer = true)
    (h : invoke n (.callable (.function stamp (own.boundIn frame))) arguments paren m =
      (.ok v, m')) :
    (m'.store.frame frame).find? "this" = some v := by
  cases n with
  | zero => cases h
  | succ n =>
    obtain ⟨-, m₁, hcall, hstore⟩ := call_of_invoke h
    rw [hstore]
    exact find?_this_of_call hown hcall

end Initializers

/-! ## Initializers as values -/

/-- **The initializer of an instance is obtained**: as a property, when no field of the instance
hides it, or as a method of the superclass, where the instance is `this`. -/
inductive Activity.ObtainsInitializer : Activity → Value → InstanceId → Prop
  | property {n : Nat} {object : Expr} {name : Token} {id : InstanceId} {v : Value}
      {m m₁ m₂ : Machine} (hname : name.lexeme = initializerName)
      (hobject : LoxLang.evaluate n object m = (.ok (.object id), m₁))
      (hfield : (m₁.store.fields id).find? name.lexeme = none)
      (hget : LoxLang.evaluate (n + 1) (.get object name) m = (.ok v, m₂)) :
      ObtainsInitializer ⟨n + 1, .evaluate (.get object name), m⟩ v id
  | super {n : Nat} {ref : RefId} {d : Nat} {keyword method : Token} {id : InstanceId} {v : Value}
      {m m₁ : Machine} (hname : method.lexeme = initializerName)
      (hdistance : m.distances.find? ref = some d)
      (hthis : Effect.readAt m.scope (d - 1) "this" m = (.ok (.object id), m))
      (hsuper : LoxLang.evaluate (n + 1) (.super ref keyword method) m = (.ok v, m₁)) :
      ObtainsInitializer ⟨n + 1, .evaluate (.super ref keyword method), m⟩ v id

/-- A value is an initializer that is bound to an instance in a store. -/
def Value.IsInitializerOf (s : Store) (id : InstanceId) (v : Value) : Prop :=
  ∃ (stamp : Stamp) (own : Closure) (frame : FrameId), own.isInitializer = true ∧
    v = .callable (.function stamp (own.boundIn frame)) ∧
    (s.frame frame).find? "this" = some (.object id)

section Obtaining

variable {K : ClassDecl → Prop} {trace : List Observation}

/-- What a class has under the name of initializers is one. -/
lemma Class.Finds.isInitializer {c : Class} {found : Option Method}
    (h : c.Finds K trace initializerName found) {method : Method} (hfound : found = some method) :
    ∃ own : Closure, method = .declared own ∧ own.isInitializer = true := by
  have hown : ∀ {d : ClassDecl} {scope : Scope}, d.method? scope initializerName = some method →
      ∃ own : Closure, method = .declared own ∧ own.isInitializer = true := by
    intro d scope hmethod
    obtain ⟨decl, hdecl, rfl⟩ := Option.map_eq_some_iff.mp hmethod
    have hname : decl.isInitializer = true := List.find?_some (p := fun d : FunDecl =>
      d.name.lexeme = initializerName) hdecl
    exact ⟨_, rfl, hname⟩
  induction h with
  | builtin stamp label methods =>
    obtain ⟨b, hb, -⟩ := Option.map_eq_some_iff.mp hfound
    have hname := List.find?_some hb
    cases b <;> exact absurd hname (by decide)
  | base stamp scope _ _ => exact hown hfound
  | derived stamp _ _ ih =>
    rcases Option.or_eq_some_iff.mp hfound with hmethod | ⟨-, hparent⟩
    · exact hown hmethod
    · exact ih hparent

/-- Binding the initializer of a class that is known. -/
lemma Class.Known.isInitializerOf_bindMethod {c : Class} (h : c.Known K trace) {method : Method}
    (hmethod : c.lookup? initializerName = some method) (s : Store) (id : InstanceId) :
    Value.IsInitializerOf (s.bindMethod method id).2 id (.callable (s.bindMethod method id).1) := by
  obtain ⟨own, rfl, hown⟩ := (h initializerName).isInitializer hmethod
  have hframe := Store.frame_addFrame_self s.freshStamp.2
    (Bindings.empty.insert "this" (Value.object id))
  have hthis := congrArg (·.find? "this") hframe
  exact ⟨_, own, _, hown, rfl, hthis.trans (Bindings.find?_insert_self _ _ _)⟩

/-- How a method of the superclass is found. -/
lemma superMethod_ok {ref : RefId} {keyword method : Token} {d : Nat} {id : InstanceId} {v : Value}
    {m m' : Machine} (hdistance : m.distances.find? ref = some d)
    (hthis : Effect.readAt m.scope (d - 1) "this" m = (.ok (.object id), m))
    (h : superMethod ref keyword method m = (.ok v, m')) :
    ∃ parent found frame, (m.store.frame frame).find? "super" = some (.callable (.cls parent)) ∧
      parent.lookup? method.lexeme = some found ∧
      v = .callable (m.store.bindMethod found id).1 ∧
      m'.store = (m.store.bindMethod found id).2 := by
  simp only [superMethod, Effect.run_bind, Effect.distance?, hdistance, Effect.scope] at h
  rcases hparent : Effect.readAt m.scope d "super" m with ⟨outcome, m₁⟩
  have hsame := Effect.snd_readAt m.scope d "super" m
  rw [hparent] at h hsame
  simp only at hsame
  subst hsame
  rcases outcome with value | _ | _ | _
  · rcases value with _ | _ | _ | _ | (_ | _ | parent) | _
    case ok.callable.cls =>
      simp only [Effect.run_bind, hthis] at h
      cases hfound : parent.lookup? method.lexeme with
      | none =>
        rw [hfound] at h
        cases h
      | some found =>
        simp only [hfound, Effect.bindMethod, Effect.run_bind, Effect.run_onStore, Effect.run_pure,
          Prod.mk.injEq, Outcome.ok.injEq] at h
        obtain ⟨rfl, rfl⟩ := h
        obtain ⟨frame, hframe⟩ := Effect.exists_of_readAt hparent
        exact ⟨parent, found, frame, hframe, hfound, rfl, rfl⟩
    all_goals cases h
  all_goals cases h

/-- **What is obtained is the initializer, bound to the instance.** -/
lemma Activity.ObtainsInitializer.isInitializerOf {a : Activity} {v : Value} {id : InstanceId}
    (h : a.ObtainsInitializer v id) (ha : a.Provided K) : v.IsInitializerOf a.after.store id := by
  obtain ⟨trace, hm, htask⟩ := ha
  cases h with
  | @property n object name id v m m₁ m₂ hname hobject hfield hget =>
    have hobject' : object.Tidy := htask
    obtain ⟨trace₁, -, -, h₁, -⟩ := hm.evaluate hobject' hobject
    have hproperty : LoxLang.evaluate (n + 1) (.get object name) m =
        Effect.property id name m₁ := by
      simp only [LoxLang.evaluate, Effect.run_bind, hobject]
    show v.IsInitializerOf (LoxLang.evaluate (n + 1) (.get object name) m).2.store id
    rw [hproperty] at hget ⊢
    rw [hname] at hfield
    simp only [Effect.property, hname, hfield] at hget ⊢
    cases hi : m₁.store.instances[id]? with
    | none => simp [hi] at hget
    | some i =>
      cases hmethod : i.cls.lookup? initializerName with
      | none => simp [hi, hmethod] at hget
      | some method =>
        simp only [hi, Option.bind_some, hmethod, Effect.run_onStore, Prod.mk.injEq,
          Outcome.ok.injEq] at hget ⊢
        rw [← hget.1]
        exact (h₁.store.instances id i hi).cls.isInitializerOf_bindMethod hmethod m₁.store id
  | @super n ref d keyword method id v m m₁ hname hdistance hthis hsuper =>
    have hrun : superMethod ref keyword method m = (.ok v, m₁) := hsuper
    obtain ⟨parent, found, frame, hframe, hfound, rfl, hstore⟩ :=
      superMethod_ok hdistance hthis hrun
    have hparent : parent.Known K trace := hm.store.frames frame _ _ hframe
    show Value.IsInitializerOf (superMethod ref keyword method m).2.store id _
    rw [hrun, hstore]
    rw [hname] at hfound
    exact hparent.isInitializerOf_bindMethod hfound m.store id

end Obtaining

/-! ## Values that are kept -/

/-- Did an effect end with a result? -/
def Outcome.isOk {α : Type} : Outcome α → Bool
  | .ok _ => true
  | _ => false

lemma Outcome.exists_of_isOk {α : Type} {x : Outcome α × Machine} (h : x.1.isOk = true) :
    ∃ a, x = (.ok a, x.2) := by
  obtain ⟨a | _ | _ | _, m⟩ := x
  · exact ⟨a, rfl⟩
  all_goals cases h

/-- The instance that is the result of an effect. -/
def Outcome.instance? : Outcome Value → Option InstanceId
  | .ok (.object id) => some id
  | _ => none

lemma Outcome.eq_of_instance? {x : Outcome Value × Machine} {id : InstanceId}
    (h : x.1.instance? = some id) : x = (.ok (.object id), x.2) := by
  obtain ⟨(_ | _ | _ | _ | _ | other) | _ | _ | _, m⟩ := x
  case ok.object =>
    cases h
    rfl
  all_goals cases h

/-- A global is bound to the value of its initializer, and a reference to it finds this value. -/
lemma global_kept {n : Nat} (ref : RefId) (name : Token) {e : Expr} {v : Value} {m m' : Machine}
    (h : evaluate n e m = (.ok v, m')) (hscope : m'.scope = globalScope)
    (hsize : globalFrame < m'.store.frames.size) (href : m'.distances.find? ref = none) :
    ∃ m'', execute (n + 1) (.var name (some e)) m = (.ok .normal, m'') ∧
      ∀ k, evaluate (k + 1) (.variable ref name) m'' = (.ok v, m'') := by
  refine ⟨{ m' with store := m'.store.define m'.scope name.lexeme v }, ?_, fun k => ?_⟩
  · simp only [execute, Effect.run_bind, h]
    rfl
  · have hfound : (m'.store.define globalScope name.lexeme v).lookup? name.lexeme globalScope =
        some v := by
      simp only [Store.lookup?, Store.define, globalScope, Store.frame_bindIn_self m'.store hsize,
        Bindings.find?_insert_self]
    simp only [evaluate, Effect.readRef, href, Effect.readGlobal, hscope, hfound]

end LoxLang
