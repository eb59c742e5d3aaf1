import LoxLang.Machine.Run
import LoxLang.Proofs.Machine.Likeness
import LoxLang.Proofs.Scope.Likeness

/-!
# Programs that are alike run alike

Two programs that are alike, run on machines that are alike, end in the same way and leave machines
that are alike (`agree_runProgram`).  The output is the same, so is the input that was read, and an
error has the same cause and comes from tokens that correspond.

The proof is a logical relation between effects (`Effect.Agree`): one lemma for each effect, then
one case for each expression and statement, by induction on the fuel.  An effect that adds frames
leads from one world to a later one, and what was alike in the first is alike in the second.  The
scope that an effect is run in is a parameter of the relation.  All effects keep it, and it decides
what a declaration binds: a global only if the innermost frame is that of the globals.
-/

namespace LoxLang

/-! ## Effects side by side -/

/-- Faults that are alike, up to the name of the local that is missing. -/
inductive Fault.Like (ρ : Likeness) : Fault → Fault → Prop
  | missingLocal (name : String) (distance : Nat) {π : Renaming} (hπ : ρ.renames π) :
      Fault.Like ρ (.missingLocal name distance) (.missingLocal (π name) distance)
  | chainEnded (hops distance : Nat) :
      Fault.Like ρ (.chainEnded hops distance) (.chainEnded hops distance)

/-- Where nothing is renamed, faults that are alike are the same. -/
lemma Fault.Like.eq {ρ : Likeness} {f f' : Fault} (h : f.Like ρ f')
    (hρ : ∀ {π}, ρ.renames π → π = .identity) : f' = f := by
  cases h with
  | missingLocal name distance hπ =>
    rw [hρ hπ]
    rfl
  | chainEnded hops distance => rfl

/-- Outcomes that are alike. -/
inductive Outcome.Like (ρ : Likeness) {α : Type} (Q : α → α → Prop) : Outcome α → Outcome α → Prop
  | ok {a a' : α} (h : Q a a') : Outcome.Like ρ Q (.ok a) (.ok a')
  | error {token token' : Token} (htoken : ρ.token token token') (cause : RuntimeCause) :
      Outcome.Like ρ Q (.error ⟨token, cause⟩) (.error ⟨token', cause⟩)
  | fault {f f' : Fault} (h : f.Like ρ f') : Outcome.Like ρ Q (.fault f) (.fault f')
  | exhausted : Outcome.Like ρ Q .exhausted .exhausted

/-- **Two effects agree in a scope**: on machines that are alike in a world they end alike, with
results that `Q` relates in a later world. -/
def Effect.Agree {α : Type} (ρ : Likeness) (T : List Renaming) (scope : Scope) (x x' : Effect α)
    (Q : List Renaming → α → α → Prop) : Prop :=
  ∀ m m' : Machine, m.Like ρ T m' → m.scope = scope →
    ∃ T₁, T <+: T₁ ∧ (x m).1.Like ρ (Q T₁) (x' m').1 ∧ (x m).2.Like ρ T₁ (x' m').2 ∧
      (x m).2.scope = scope

namespace Effect.Agree

variable {α β : Type} {ρ : Likeness} {T : List Renaming} {scope : Scope}
  {Q : List Renaming → α → α → Prop}

/-- What is read off alike, from machines that stay as they are. -/
lemma of_outcome {x x' : Effect α} (hx : ∀ m, (x m).2 = m) (hx' : ∀ m, (x' m).2 = m)
    (h : ∀ {m m'}, m.Like ρ T m' → m.scope = scope → (x m).1.Like ρ (Q T) (x' m').1) :
    Agree ρ T scope x x' Q := by
  intro m m' hm hscope
  refine ⟨T, List.prefix_refl T, h hm hscope, ?_, ?_⟩
  · rw [hx, hx']
    exact hm
  · rw [hx]
    exact hscope

lemma pure {a a' : α} (h : Q T a a') : Agree ρ T scope (Pure.pure a) (Pure.pure a') Q :=
  of_outcome (fun _ => rfl) (fun _ => rfl) fun _ _ => .ok h

lemma raise {token token' : Token} (htoken : ρ.token token token') (cause : RuntimeCause) :
    Agree ρ T scope (Effect.raise token cause) (Effect.raise token' cause) Q :=
  of_outcome (fun _ => rfl) (fun _ => rfl) fun _ _ => .error htoken cause

lemma exhausted : Agree ρ T scope (Effect.exhausted : Effect α) Effect.exhausted Q :=
  of_outcome (fun _ => rfl) (fun _ => rfl) fun _ _ => .exhausted

/-- One effect after the other.  What comes second runs in whatever world the first has led to. -/
lemma bind {x x' : Effect α} {f f' : α → Effect β} {R : List Renaming → β → β → Prop}
    (hx : Agree ρ T scope x x' Q)
    (hf : ∀ {T₁}, T <+: T₁ → ∀ a a', Q T₁ a a' → Agree ρ T₁ scope (f a) (f' a') R) :
    Agree ρ T scope (x >>= f) (x' >>= f') R := by
  intro m m' hm hscope
  obtain ⟨T₁, hT, houtcome, hmachine, hkept⟩ := hx m m' hm hscope
  rw [Effect.run_bind, Effect.run_bind]
  rcases hxm : x m with ⟨outcome, m₁⟩
  rcases hxm' : x' m' with ⟨outcome', m₁'⟩
  rw [hxm] at houtcome hmachine hkept
  rw [hxm'] at houtcome hmachine
  cases houtcome with
  | ok h =>
    obtain ⟨T₂, hT₂, hend, hlast, hlater⟩ := hf hT _ _ h _ _ hmachine hkept
    exact ⟨T₂, hT.trans hT₂, hend, hlast, hlater⟩
  | error htoken cause => exact ⟨T₁, hT, .error htoken cause, hmachine, hkept⟩
  | fault h => exact ⟨T₁, hT, .fault h, hmachine, hkept⟩
  | exhausted => exact ⟨T₁, hT, .exhausted, hmachine, hkept⟩

lemma ite {c c' : Prop} [Decidable c] [Decidable c'] (hc : c' ↔ c) {x x' y y' : Effect α}
    (hx : Agree ρ T scope x x' Q) (hy : Agree ρ T scope y y' Q) :
    Agree ρ T scope (if c then x else y) (if c' then x' else y') Q := by
  by_cases h : c
  · rw [if_pos h, if_pos (hc.mpr h)]
    exact hx
  · rw [if_neg h, if_neg (mt hc.mp h)]
    exact hy

/-- In another scope for a while. -/
lemma within {inner : Scope} {x x' : Effect α} (hx : Agree ρ T inner x x' Q) :
    Agree ρ T scope (Effect.within inner x) (Effect.within inner x') Q := by
  intro m m' hm hscope
  have hinner : Machine.Like ρ T { m with scope := inner } { m' with scope := inner } :=
    { hm with scope := rfl }
  obtain ⟨T₁, hT, houtcome, hmachine, -⟩ := hx _ _ hinner rfl
  exact ⟨T₁, hT, houtcome, { hmachine with scope := hm.scope }, hscope⟩

/-- One call further down for a while. -/
lemma deeper {x x' : Effect α} (hx : Agree ρ T scope x x' Q) :
    Agree ρ T scope (Effect.deeper x) (Effect.deeper x') Q := by
  intro m m' hm hscope
  have hdeep : Machine.Like ρ T { m with depth := m.depth + 1 } { m' with depth := m'.depth + 1 } :=
    { hm with depth := congrArg (· + 1) hm.depth }
  obtain ⟨T₁, hT, houtcome, hmachine, hkept⟩ := hx _ _ hdeep hscope
  exact ⟨T₁, hT, houtcome, { hmachine with depth := hm.depth }, hkept⟩

lemma current :
    Agree ρ T scope Effect.scope Effect.scope fun _ s s' => s = scope ∧ s' = scope :=
  of_outcome (fun _ => rfl) (fun _ => rfl) fun hm hscope => .ok ⟨hscope, hm.scope.trans hscope⟩

lemma distance? {ref ref' : RefId} (href : ρ.ref ref ref') :
    Agree ρ T scope (Effect.distance? ref) (Effect.distance? ref') fun _ => Eq :=
  of_outcome (fun _ => rfl) (fun _ => rfl) fun hm _ => .ok (hm.distances href).symm

lemma isAtLimit : Agree ρ T scope Effect.isAtLimit Effect.isAtLimit fun _ => Eq := by
  refine of_outcome (fun _ => rfl) (fun _ => rfl) fun hm _ => .ok ?_
  rw [hm.limit, hm.depth]

lemma text {v v' : Value} (hv : v.Like ρ T v') :
    Agree ρ T scope (Effect.text v) (Effect.text v') fun _ => Eq :=
  of_outcome (fun _ => rfl) (fun _ => rfl) fun hm _ => .ok (hm.store.text hv).symm

lemma write (event : Event) :
    Agree ρ T scope (Effect.write event) (Effect.write event) fun _ => Eq := by
  intro m m' hm hscope
  refine ⟨T, List.prefix_refl T, .ok rfl, ?_, hscope⟩
  exact { hm with console := congrArg (·.write event) hm.console }

lemma readLine : Agree ρ T scope Effect.readLine Effect.readLine fun _ => Eq := by
  intro m m' hm hscope
  have hline : m'.console.readLine = m.console.readLine := by rw [hm.console]
  refine ⟨T, List.prefix_refl T, .ok (congrArg Prod.fst hline).symm, ?_, hscope⟩
  exact { hm with console := congrArg Prod.snd hline }

lemma readClock : Agree ρ T scope Effect.readClock Effect.readClock fun _ => Eq := by
  intro m m' hm hscope
  have htime : m'.clock.read = m.clock.read := by rw [hm.clock]
  refine ⟨T, List.prefix_refl T, .ok (congrArg Prod.fst htime).symm, ?_, hscope⟩
  exact { hm with clock := congrArg Prod.snd htime }

/-! ### Effects on the store -/

lemma onStore {f f' : Store → α × Store}
    (h : ∀ {s s'}, Store.Like ρ T s s' →
      ∃ T₁, T <+: T₁ ∧ Q T₁ (f s).1 (f' s').1 ∧ (f s).2.Like ρ T₁ (f' s').2) :
    Agree ρ T scope (Effect.onStore f) (Effect.onStore f') Q := by
  intro m m' hm hscope
  obtain ⟨T₁, hT, hresult, hstore⟩ := h hm.store
  exact ⟨T₁, hT, .ok hresult, { hm with store := hstore }, hscope⟩

/-- A new frame is not that of the globals. -/
lemma addFrame {π : Renaming} (hπ : ρ.renames π) {b b' : Bindings Value}
    (hb : b.Like (Value.Like ρ T) π b') :
    Agree ρ T scope (Effect.addFrame b) (Effect.addFrame b') fun T₁ id id' =>
      id' = id ∧ T₁[id]? = some π ∧ id ≠ globalFrame := by
  refine onStore fun {s s'} hs => ⟨T ++ [π], List.prefix_append T [π], ?_, hs.addFrame hπ hb⟩
  have hopened : globalFrame < T.length := (List.getElem?_eq_some_iff.mp hs.opened).1
  have hid : (s.addFrame b).1 = T.length := hs.size
  have hid' : (s'.addFrame b').1 = T.length := hs.size'
  rw [hid, hid']
  exact ⟨rfl, by simp, Nat.ne_of_gt hopened⟩

lemma addInstance {c c' : Class} (hc : c.Like ρ T c') :
    Agree ρ T scope (Effect.addInstance c) (Effect.addInstance c') fun _ => Eq :=
  onStore fun hs => ⟨T, List.prefix_refl T, hs.instances.size.symm, hs.addInstance hc⟩

lemma freshStamp : Agree ρ T scope Effect.freshStamp Effect.freshStamp fun _ => Eq :=
  onStore fun hs => ⟨T, List.prefix_refl T, hs.nextStamp.symm, hs.freshStamp⟩

lemma bindMethod {method method' : Method} (h : method.Like ρ T method') (id : InstanceId) :
    Agree ρ T scope (Effect.bindMethod method id) (Effect.bindMethod method' id)
      (Callable.Like ρ) := onStore fun hs => hs.bindMethod h id

lemma setField (id : InstanceId) {name name' : String} (hname : name' = name) {v v' : Value}
    (hv : v.Like ρ T v') :
    Agree ρ T scope (Effect.setField id name v) (Effect.setField id name' v') fun _ => Eq := by
  subst hname
  refine onStore fun hs => ⟨T, List.prefix_refl T, rfl, hs.modifyInstance id fun hi => ?_⟩
  exact ⟨hi.cls, hi.fields.insert _ hv, hi.elements⟩

/-- A declaration binds a name in the innermost frame. -/
lemma define {Γ : List Renaming} (hΓ : scope.Carries T Γ) {name name' : String}
    (hname : name' = renamingAt Γ (some 0) name) {v v' : Value} (hv : v.Like ρ T v')
    (hallowed : scope.head? = some globalFrame → ρ.global name) :
    Agree ρ T scope (Effect.define name v) (Effect.define name' v') fun _ => Eq := by
  subst hname
  intro m m' hm hscope
  refine ⟨T, List.prefix_refl T, .ok rfl, { hm with store := ?_ }, hscope⟩
  show (m.store.define m.scope _ v).Like ρ T (m'.store.define m'.scope _ v')
  rw [hm.scope, hscope]
  exact hm.store.define hΓ name hv hallowed

lemma readAt {chain : Scope} {Γ : List Renaming} (hΓ : chain.Carries T Γ) (distance : Nat)
    {name name' : String} (hname : name' = renamingAt Γ (some distance) name) :
    Agree ρ T scope (Effect.readAt chain distance name) (Effect.readAt chain distance name')
      (Value.Like ρ) := by
  subst hname
  intro m m' hm hscope
  refine ⟨T, List.prefix_refl T, ?_⟩
  unfold Effect.readAt Store.readAt
  cases hid : chain[distance]? with
  | none => exact ⟨.fault (.chainEnded _ _), hm, hscope⟩
  | some id =>
    have hframe := hΓ distance id hid
    rcases rel_cases (hm.store.frame hframe name) with
      ⟨hnone, hnone'⟩ | ⟨v, v', hsome, hsome', hv⟩
    · simp only [renamingAt, hnone, hnone']
      have hπ := hm.store.renames _ (List.mem_of_getElem? hframe)
      exact ⟨.fault (.missingLocal name distance hπ), hm, hscope⟩
    · simp only [renamingAt, hsome, hsome']
      exact ⟨.ok hv, hm, hscope⟩

/-- Changing a binding that exists makes no new global. -/
lemma bindIn {m m' : Machine} (hm : m.Like ρ T m') {id : FrameId} {π : Renaming}
    (hid : T[id]? = some π) {name : String}
    (hbound : (m.store.frame id).contains name = true) {v v' : Value} (hv : v.Like ρ T v') :
    Machine.Like ρ T { m with store := m.store.bindIn id name v }
      { m' with store := m'.store.bindIn id (π name) v' } := by
  have hglobal : id = globalFrame → ρ.global name :=
    fun heq => hm.store.global name (heq ▸ hbound)
  exact { hm with store := hm.store.bindIn hid name hv hglobal }

lemma writeAt {Γ : List Renaming} (hΓ : scope.Carries T Γ) (distance : Nat) {name name' : String}
    (hname : name' = renamingAt Γ (some distance) name) {v v' : Value} (hv : v.Like ρ T v') :
    Agree ρ T scope (Effect.writeAt distance name v) (Effect.writeAt distance name' v')
      fun _ => Eq := by
  subst hname
  intro m m' hm hscope
  refine ⟨T, List.prefix_refl T, ?_⟩
  unfold Effect.writeAt Store.frameAt
  rw [hm.scope, hscope]
  cases hid : scope[distance]? with
  | none => exact ⟨.fault (.chainEnded _ _), hm, hscope⟩
  | some id =>
    have hframe := hΓ distance id hid
    have hcontains := (hm.store.frame hframe).contains name
    by_cases hbound : (m.store.frame id).contains name = true
    · rw [hbound] at hcontains
      simp only [renamingAt, hcontains, hbound, if_true]
      exact ⟨.ok rfl, bindIn hm hframe hbound hv, hscope⟩
    · rw [Bool.not_eq_true] at hbound
      rw [hbound] at hcontains
      simp only [renamingAt, hcontains, hbound]
      have hπ := hm.store.renames _ (List.mem_of_getElem? hframe)
      exact ⟨.fault (.missingLocal name distance hπ), hm, hscope⟩

lemma readGlobal {name name' : Token} (hname : ρ.Same name name') :
    Agree ρ T scope (Effect.readGlobal name) (Effect.readGlobal name') (Value.Like ρ) := by
  intro m m' hm hscope
  refine ⟨T, List.prefix_refl T, ?_⟩
  unfold Effect.readGlobal
  rw [hname.lexeme]
  rcases rel_cases (hm.store.lookup?_global name.lexeme) with
    ⟨hnone, hnone'⟩ | ⟨v, v', hsome, hsome', hv⟩
  · rw [hnone, hnone']
    exact ⟨.error hname.token _, hm, hscope⟩
  · rw [hsome, hsome']
    exact ⟨.ok hv, hm, hscope⟩

lemma writeGlobal {name name' : Token} (hname : ρ.Same name name') {v v' : Value}
    (hv : v.Like ρ T v') :
    Agree ρ T scope (Effect.writeGlobal name v) (Effect.writeGlobal name' v') fun _ => Eq := by
  intro m m' hm hscope
  refine ⟨T, List.prefix_refl T, ?_⟩
  unfold Effect.writeGlobal
  rw [hname.lexeme, hm.store.frameOf?_global]
  cases hframe : m.store.frameOf? name.lexeme globalScope with
  | none => exact ⟨.error hname.token _, hm, hscope⟩
  | some id =>
    have hbound := List.find?_some (p := fun id => (m.store.frame id).contains name.lexeme) hframe
    obtain rfl : id = globalFrame := List.mem_singleton.mp (List.mem_of_find?_eq_some hframe)
    exact ⟨.ok rfl, bindIn hm hm.store.opened hbound hv, hscope⟩

lemma readRef {Γ : List Renaming} (hΓ : scope.Carries T Γ) {ref ref' : RefId}
    {name name' : Token} (hname : ρ.Refers Γ ref name ref' name') :
    Agree ρ T scope (Effect.readRef ref name) (Effect.readRef ref' name') (Value.Like ρ) := by
  intro m m' hm hscope
  have hlexeme := hname.lexeme (hm.distance hname.number)
  unfold Effect.readRef
  rw [hm.distances hname.number, hm.scope, hscope]
  cases hdistance : m.distances.find? ref with
  | none =>
    rw [hdistance] at hlexeme
    exact readGlobal ⟨hname.token, hlexeme⟩ m m' hm hscope
  | some d =>
    rw [hdistance] at hlexeme
    exact readAt hΓ d hlexeme m m' hm hscope

lemma writeRef {Γ : List Renaming} (hΓ : scope.Carries T Γ) {ref ref' : RefId}
    {name name' : Token} (hname : ρ.Refers Γ ref name ref' name') {v v' : Value}
    (hv : v.Like ρ T v') :
    Agree ρ T scope (Effect.writeRef ref name v) (Effect.writeRef ref' name' v') fun _ => Eq := by
  intro m m' hm hscope
  have hlexeme := hname.lexeme (hm.distance hname.number)
  unfold Effect.writeRef
  rw [hm.distances hname.number]
  cases hdistance : m.distances.find? ref with
  | none =>
    rw [hdistance] at hlexeme
    exact writeGlobal ⟨hname.token, hlexeme⟩ hv m m' hm hscope
  | some d =>
    rw [hdistance] at hlexeme
    exact writeAt hΓ d hlexeme hv m m' hm hscope

lemma property (id : InstanceId) {name name' : Token} (hname : ρ.Same name name') :
    Agree ρ T scope (Effect.property id name) (Effect.property id name') (Value.Like ρ) := by
  intro m m' hm hscope
  unfold Effect.property
  rw [hname.lexeme]
  rcases rel_cases (hm.store.fields id name.lexeme) with
    ⟨hnone, hnone'⟩ | ⟨v, v', hsome, hsome', hv⟩
  · rw [Renaming.identity_apply] at hnone'
    rw [hnone, hnone']
    have hmethod : Option.Rel (Method.Like ρ T)
        ((m.store.instances[id]?).bind fun i => i.cls.lookup? name.lexeme)
        ((m'.store.instances[id]?).bind fun i => i.cls.lookup? name.lexeme) := by
      rcases rel_cases (hm.store.instances.entry id) with
        ⟨hnone, hnone'⟩ | ⟨i, i', hsome, hsome', hi⟩
      · rw [hnone, hnone']
        exact .none
      · rw [hsome, hsome']
        exact hi.cls.lookup? name.lexeme
    rcases rel_cases hmethod with ⟨hmissing, hmissing'⟩ | ⟨f, f', hfound, hfound', hf⟩
    · simp only [hmissing, hmissing']
      exact ⟨T, List.prefix_refl T, .error hname.token _, hm, hscope⟩
    · simp only [hfound, hfound']
      refine onStore (Q := Value.Like ρ) (fun hs => ?_) m m' hm hscope
      obtain ⟨T₁, hT, hbound, hstore⟩ := hs.bindMethod hf id
      exact ⟨T₁, hT, .callable hbound, hstore⟩
  · rw [Renaming.identity_apply] at hsome'
    rw [hsome, hsome']
    exact ⟨T, List.prefix_refl T, .ok hv, hm, hscope⟩

end Effect.Agree

/-! ## Operators and builtins -/

section Operations

open Effect (Agree)

variable {ρ : Likeness} {T : List Renaming} {scope : Scope}
  {operator operator' paren paren' : Token} {v v' w w' : Value}

lemma agree_applyUnary (hoperator : ρ.Same operator operator') (hv : v.Like ρ T v') :
    Agree ρ T scope (applyUnary operator v) (applyUnary operator' v') (Value.Like ρ) := by
  unfold applyUnary
  rw [ρ.kind hoperator.token, hoperator.lexeme, hv.isTruthy]
  split
  · cases hv with
    | number x => exact .pure (.number _)
    | _ => exact .raise hoperator.token _
  · exact .pure (.bool _)
  · exact .raise hoperator.token _

lemma agree_onNumbers (hoperator : ρ.Same operator operator') (hv : v.Like ρ T v')
    (hw : w.Like ρ T w') {f f' : Float → Float → Effect Value}
    (hf : ∀ a b, Agree ρ T scope (f a b) (f' a b) (Value.Like ρ)) :
    Agree ρ T scope (onNumbers operator v w f) (onNumbers operator' v' w' f') (Value.Like ρ) := by
  cases hv with
  | number a =>
    cases hw with
    | number b => exact hf a b
    | _ => exact .raise hoperator.token _
  | _ => exact .raise hoperator.token _

lemma agree_applyPlus (hoperator : ρ.Same operator operator') (hv : v.Like ρ T v')
    (hw : w.Like ρ T w') :
    Agree ρ T scope (applyPlus operator v w) (applyPlus operator' v' w') (Value.Like ρ) := by
  cases hv with
  | number a =>
    cases hw with
    | number b => exact .pure (.number _)
    | _ => exact .raise hoperator.token _
  | string a =>
    cases hw with
    | string b => exact .pure (.string _)
    | _ => exact .raise hoperator.token _
  | _ => exact .raise hoperator.token _

lemma agree_applySlash (hoperator : ρ.Same operator operator') (a b : Float) :
    Agree ρ T scope (applySlash operator a b) (applySlash operator' a b) (Value.Like ρ) :=
  .ite Iff.rfl (.raise hoperator.token _) (.pure (.number _))

lemma agree_applyBinary (hoperator : ρ.Same operator operator') (hv : v.Like ρ T v')
    (hw : w.Like ρ T w') :
    Agree ρ T scope (applyBinary operator v w) (applyBinary operator' v' w') (Value.Like ρ) := by
  unfold applyBinary
  rw [ρ.kind hoperator.token, hoperator.lexeme, hv.same hw]
  split
  case h_1 => exact agree_applyPlus hoperator hv hw
  case h_4 => exact agree_onNumbers hoperator hv hw (agree_applySlash hoperator)
  case h_9 | h_10 => exact .pure (.bool _)
  case h_11 => exact .raise hoperator.token _
  case h_2 | h_3 => exact agree_onNumbers hoperator hv hw fun _ _ => .pure (.number _)
  all_goals exact agree_onNumbers hoperator hv hw fun _ _ => .pure (.bool _)

lemma isDecided_like (hoperator : ρ.Same operator operator') (hv : v.Like ρ T v') :
    isDecided operator' v' = isDecided operator v := by
  unfold isDecided Token.isKeyword
  rw [ρ.kind hoperator.token, hv.isTruthy]

lemma agree_elementAt (hparen : ρ.token paren paren') (id : InstanceId) (x : Float) :
    Agree ρ T scope (Builtin.elementAt paren id x) (Builtin.elementAt paren' id x)
      (Value.Like ρ) := by
  intro m m' hm hscope
  have hentry : Option.Rel (Value.Like ρ T)
      ((Builtin.index? x).bind fun n => (m.store.elements id)[n]?)
      ((Builtin.index? x).bind fun n => (m'.store.elements id)[n]?) := by
    cases Builtin.index? x with
    | none => exact .none
    | some n => exact (hm.store.elements id).entry n
  refine ⟨T, List.prefix_refl T, ?_⟩
  unfold Builtin.elementAt
  rcases rel_cases hentry with ⟨hnone, hnone'⟩ | ⟨v, v', hsome, hsome', hv⟩
  · rw [hnone, hnone']
    exact ⟨.error hparen _, hm, hscope⟩
  · rw [hsome, hsome']
    exact ⟨.ok hv, hm, hscope⟩

variable {arguments arguments' : List Value}

lemma agree_readPrompted (hparen : ρ.token paren paren')
    (harguments : List.Forall₂ (Value.Like ρ T) arguments arguments') :
    Agree ρ T scope (Builtin.readPrompted paren arguments) (Builtin.readPrompted paren' arguments')
      fun _ => Eq := by
  unfold Builtin.readPrompted
  have hnone : Agree ρ T scope (Pure.pure "") (Pure.pure "") fun _ => Eq := .pure rfl
  have hsome : ∀ {v v'}, Value.Like ρ T v v' →
      Agree ρ T scope (Effect.text v) (Effect.text v') fun _ => Eq := .text
  cases harguments
  all_goals
    refine Agree.bind (by first | exact hnone | exact hsome ‹_›) fun _ prompt prompt' heq => ?_
    subst heq
    refine (Agree.write _).bind fun _ _ _ _ => Agree.readLine.bind fun _ line line' heq => ?_
    subst heq
    rcases line with _ | (_ | _)
    · exact .raise hparen _
    · exact .pure rfl
    · exact .raise hparen _

lemma agree_numberOfLine (hparen : ρ.token paren paren') (line : String) :
    Agree ρ T scope (Builtin.numberOfLine paren line) (Builtin.numberOfLine paren' line)
      (Value.Like ρ) := by
  unfold Builtin.numberOfLine
  simp only
  split
  · exact .pure (.number _)
  · exact .raise hparen _

lemma agree_onReceiver (hparen : ρ.token paren paren') (receiver : Option InstanceId)
    {f f' : InstanceId → Effect Value} (hf : ∀ id, Agree ρ T scope (f id) (f' id) (Value.Like ρ)) :
    Agree ρ T scope (Builtin.onReceiver paren receiver f) (Builtin.onReceiver paren' receiver f')
      (Value.Like ρ) := by
  cases receiver with
  | none => exact .raise hparen _
  | some id => exact hf id

/-- A change of the elements of an array, with a result that is read off them. -/
lemma agree_onElements (id : InstanceId) (f f' : Array Value → Value × Array Value)
    (hf : ∀ {xs xs'}, ArrayLike (Value.Like ρ T) xs xs' →
      (f xs).1.Like ρ T (f' xs').1 ∧ ArrayLike (Value.Like ρ T) (f xs).2 (f' xs').2) :
    Agree ρ T scope
      (Effect.onStore fun s => ((f (s.elements id)).1, s.updateElements id fun xs => (f xs).2))
      (Effect.onStore fun s => ((f' (s.elements id)).1, s.updateElements id fun xs => (f' xs).2))
      (Value.Like ρ) := by
  refine .onStore fun hs => ⟨T, List.prefix_refl T, (hf (hs.elements id)).1, ?_⟩
  refine hs.modifyInstance id fun hi => ?_
  exact ⟨hi.cls, hi.fields, (hf hi.elements).2⟩

lemma agree_callBuiltin (b : Builtin) (receiver : Option InstanceId)
    (harguments : List.Forall₂ (Value.Like ρ T) arguments arguments')
    (hparen : ρ.token paren paren') :
    Agree ρ T scope (b.call receiver arguments paren) (b.call receiver arguments' paren')
      (Value.Like ρ) := by
  cases b with
  | clock =>
    refine Agree.readClock.bind fun _ time time' heq => ?_
    subst heq
    exact .pure (.number _)
  | arrayGet =>
    refine agree_onReceiver hparen receiver fun id => ?_
    cases harguments with
    | nil => exact .raise hparen _
    | cons hv _ =>
      cases hv with
      | number x => exact agree_elementAt hparen id x
      | _ => exact .raise hparen _
  | arrayPush =>
    refine agree_onReceiver hparen receiver fun id => ?_
    have hvalue : (arguments.head?.getD .nil).Like ρ T (arguments'.head?.getD .nil) := by
      cases harguments with
      | nil => exact .nil
      | cons hv _ => exact hv
    exact agree_onElements id (fun xs => (.nil, xs.push _)) (fun xs => (.nil, xs.push _))
      fun hxs => ⟨.nil, hxs.push hvalue⟩
  | arrayLength =>
    refine agree_onReceiver hparen receiver fun id => .onStore fun hs => ?_
    refine ⟨T, List.prefix_refl T, ?_, hs⟩
    rw [(hs.elements id).size]
    exact .number _
  | arrayPop =>
    refine agree_onReceiver hparen receiver fun id => ?_
    refine agree_onElements id (fun xs => (xs.back?.getD .nil, xs.pop))
      (fun xs => (xs.back?.getD .nil, xs.pop)) fun hxs => ⟨?_, hxs.pop⟩
    rcases rel_cases hxs.back? with ⟨hnone, hnone'⟩ | ⟨v, v', hsome, hsome', hv⟩
    · rw [hnone, hnone']
      exact .nil
    · rw [hsome, hsome']
      exact hv
  | inputString =>
    refine (agree_readPrompted hparen harguments).bind fun _ line line' heq => ?_
    subst heq
    exact .pure (.string _)
  | inputNumber =>
    refine (agree_readPrompted hparen harguments).bind fun _ line line' heq => ?_
    subst heq
    exact agree_numberOfLine hparen line

end Operations

/-! ## What a statement may bind and make -/

/-- **A statement may run in a scope**: the names that it binds may be bound there, which matters
only where they become globals, and the functions that it makes may be made. -/
structure Scope.Admits (ρ : Likeness) (scope : Scope) (s : Stmt) : Prop where
  global : scope.head? = some globalFrame → ∀ name ∈ s.binds, ρ.global name
  function : ∀ f ∈ s.makes, ρ.function f.1 f.2

section Branches

variable {ρ : Likeness} {scope : Scope} {condition : Expr} {s other : Stmt}

lemma Scope.Admits.thenBranch
    (h : scope.Admits ρ (.ifThen condition s (some other))) :
    scope.Admits ρ s :=
  ⟨fun hhead => (List.forall_mem_append.mp (h.global hhead)).1,
    (List.forall_mem_append.mp h.function).1⟩

lemma Scope.Admits.elseBranch
    (h : scope.Admits ρ (.ifThen condition s (some other))) :
    scope.Admits ρ other :=
  ⟨fun hhead => (List.forall_mem_append.mp (h.global hhead)).2,
    (List.forall_mem_append.mp h.function).2⟩

end Branches

lemma Stmt.mem_makesAll {f : FunDecl × Bool} {s : Stmt} {body : List Stmt} (hs : s ∈ body)
    (hf : f ∈ s.makes) : f ∈ Stmt.makesAll body := by
  induction body with
  | nil => cases hs
  | cons first rest ih =>
    rw [Stmt.makesAll, List.mem_append]
    rcases List.mem_cons.mp hs with rfl | hs
    · exact .inl hf
    · exact .inr (ih hs)

/-- What runs in a frame of its own binds no global. -/
lemma Scope.admits_cons {ρ : Likeness} {frame : FrameId} (hlocal : frame ≠ globalFrame)
    (outer : Scope) {body : List Stmt} (hmakes : ∀ f ∈ Stmt.makesAll body, ρ.function f.1 f.2) :
    ∀ s ∈ body, Scope.Admits ρ (frame :: outer) s := by
  refine fun s hs => ⟨fun hhead => ?_, fun f hf => hmakes f (Stmt.mem_makesAll hs hf)⟩
  rw [List.head?_cons, Option.some.injEq] at hhead
  exact absurd hhead hlocal

/-! ## Classes and calls -/

/-- Flows that are alike. -/
inductive Flow.Like (ρ : Likeness) (T : List Renaming) : Flow → Flow → Prop
  | normal : Flow.Like ρ T .normal .normal
  | broken : Flow.Like ρ T .broken .broken
  | returned {v v' : Value} (h : v.Like ρ T v') : Flow.Like ρ T (.returned v) (.returned v')

section Classes

open Effect (Agree)

variable {ρ : Likeness} {T : List Renaming} {scope : Scope}

lemma like_methodTable {inner : Scope} {Γ : List Renaming} (hinner : inner.Carries T Γ)
    {methods methods' : List FunDecl}
    (hmethods : FunDecl.LikeAll ρ (.identity :: Γ) methods methods')
    (hmakes : ∀ d ∈ methods, ρ.function d d.isInitializer) :
    (methodTable inner methods).Like (Method.Like ρ T) .identity (methodTable inner methods') := by
  refine Bindings.Like.empty.insertAll ?_
  rw [List.forall₂_map_left_iff, List.forall₂_map_right_iff]
  induction methods generalizing methods' with
  | nil =>
    cases hmethods
    exact .nil
  | cons d rest ih =>
    cases hmethods with
    | cons hd hrest =>
      rw [List.forall_mem_cons] at hmakes
      refine .cons ⟨hd.name.lexeme, .declared ?_⟩ (ih hrest hmakes.2)
      exact ⟨⟨Γ, hinner, hd⟩, rfl, hd.isInitializer, hmakes.1⟩

lemma like_bindParameters {π : Renaming} {params params' : List Token}
    {arguments arguments' : List Value} (hparams : List.Forall₂ (ρ.Named π) params params')
    (harguments : List.Forall₂ (Value.Like ρ T) arguments arguments') :
    (bindParameters params arguments).Like (Value.Like ρ T) π
      (bindParameters params' arguments') := by
  refine Bindings.Like.empty.insertAll ?_
  induction hparams generalizing arguments arguments' with
  | nil => exact .nil
  | cons hname _ ih =>
    cases harguments with
    | nil => exact .nil
    | cons hv hrest => exact .cons ⟨hname.lexeme, hv⟩ (ih hrest)

/-- The last part of a class statement, when it is known in which scope the methods will be. -/
lemma agree_nameClass {Γ Δ : List Renaming} (hΓ : scope.Carries T Γ) {inner : Scope}
    (hinner : inner.Carries T Δ) {name name' : Token} {superclass superclass' : Option Class}
    {methods methods' : List FunDecl} (hname : ρ.Same name name')
    (hkept : renamingAt Γ (some 0) name.lexeme = name.lexeme)
    (hsuperclass : Option.Rel (Class.Like ρ T) superclass superclass')
    (hmethods : FunDecl.LikeAll ρ (.identity :: Δ) methods methods')
    (hadmits : scope.Admits ρ (.classDecl name none methods)) :
    Agree ρ T scope
      (Effect.freshStamp >>= fun stamp => Effect.define name.lexeme (.callable (.cls (.extend
        ⟨stamp, name.lexeme, methodTable inner methods⟩ superclass))))
      (Effect.freshStamp >>= fun stamp => Effect.define name'.lexeme (.callable (.cls (.extend
        ⟨stamp, name'.lexeme, methodTable inner methods'⟩ superclass')))) fun _ => Eq := by
  have hmakes : ∀ d ∈ methods, ρ.function d d.isInitializer :=
    fun d hd => hadmits.function (d, d.isInitializer) (List.mem_map_of_mem hd)
  refine Agree.freshStamp.bind fun {T₁} hT stamp stamp' heq => ?_
  subst heq
  have hlayer : ClassLayer.Like ρ T₁ ⟨stamp, name.lexeme, methodTable inner methods⟩
      ⟨stamp, name'.lexeme, methodTable inner methods'⟩ :=
    ⟨rfl, hname.lexeme, like_methodTable (hinner.grow hT) hmethods hmakes⟩
  have hparent : Option.Rel (Class.Like ρ T₁) superclass superclass' :=
    rel_mono (Class.Like.grow hT) hsuperclass
  refine .define (hΓ.grow hT) (hname.lexeme.trans hkept.symm)
    (.callable (.cls (.extend hlayer hparent))) fun hhead => ?_
  exact hadmits.global hhead _ List.mem_cons_self

lemma agree_defineBase {Γ : List Renaming} (hΓ : scope.Carries T Γ) {name name' : Token}
    {methods methods' : List FunDecl} (hname : ρ.Same name name')
    (hkept : renamingAt Γ (some 0) name.lexeme = name.lexeme)
    (hmethods : FunDecl.LikeAll ρ (.identity :: Γ) methods methods')
    (hadmits : scope.Admits ρ (.classDecl name none methods)) :
    Agree ρ T scope (defineClass name none methods) (defineClass name' none methods')
      fun _ => Eq := by
  refine Agree.current.bind fun hT outer outer' hcurrent => ?_
  obtain ⟨rfl, rfl⟩ := hcurrent
  exact agree_nameClass (hΓ.grow hT) (hΓ.grow hT) hname hkept .none hmethods hadmits

lemma agree_defineDerived {Γ : List Renaming} (hΓ : scope.Carries T Γ) {name name' : Token}
    {parent parent' : Class} {methods methods' : List FunDecl} (hname : ρ.Same name name')
    (hkept : renamingAt Γ (some 0) name.lexeme = name.lexeme) (hparent : parent.Like ρ T parent')
    (hmethods : FunDecl.LikeAll ρ (.identity :: .identity :: Γ) methods methods')
    (hadmits : scope.Admits ρ (.classDecl name none methods)) :
    Agree ρ T scope (defineClass name (some parent) methods)
      (defineClass name' (some parent') methods') fun _ => Eq := by
  refine Agree.current.bind fun {T₁} hT outer outer' hcurrent => ?_
  obtain ⟨rfl, rfl⟩ := hcurrent
  have hsuper : (Bindings.empty.insert "super" (.callable (.cls parent))).Like (Value.Like ρ T₁)
      .identity (Bindings.empty.insert "super" (.callable (.cls parent'))) :=
    Bindings.Like.empty.insert "super" (.callable (.cls (hparent.grow hT)))
  refine (Agree.addFrame ρ.identity hsuper).bind fun {T₂} hT₂ frame frame' hnew => ?_
  obtain ⟨rfl, hframe, -⟩ := hnew
  have hlater := hT.trans hT₂
  exact agree_nameClass (hΓ.grow hlater) ((hΓ.grow hlater).cons hframe) hname hkept
    (.some (hparent.grow hlater)) hmethods hadmits

lemma agree_expectClass {token token' : Token} (htoken : ρ.token token token') {v v' : Value}
    (hv : v.Like ρ T v') :
    Agree ρ T scope (expectClass token v) (expectClass token' v') (Class.Like ρ) := by
  cases hv with
  | callable hc =>
    cases hc with
    | cls hc => exact .pure hc
    | _ => exact .raise htoken _
  | _ => exact .raise htoken _

lemma token_superclassToken {Γ : List Renaming} {e e' : Expr} (he : e.Like ρ Γ e')
    {name name' : Token} (hname : ρ.token name name') :
    ρ.token (superclassToken e name) (superclassToken e' name') := by
  cases he with
  | «variable» hparent => exact hparent.token
  | _ => exact hname

lemma agree_superMethod {Γ : List Renaming} (hΓ : scope.Carries T Γ) {ref ref' : RefId}
    (href : ρ.ref ref ref') {keyword keyword' method method' : Token}
    (hkeyword : ρ.Same keyword keyword') (hmethod : ρ.Same method method') :
    Agree ρ T scope (superMethod ref keyword method) (superMethod ref' keyword' method')
      (Value.Like ρ) := by
  refine (Agree.distance? href).bind fun {T₁} hT distance distance' heq => ?_
  subst heq
  cases distance with
  | none => exact .raise hkeyword.token _
  | some d =>
    refine Agree.current.bind fun {T₂} hT₂ current current' hcurrent => ?_
    obtain ⟨rfl, rfl⟩ := hcurrent
    have hcarries := (hΓ.grow hT).grow hT₂
    refine (Agree.readAt hcarries d (renamingAt Γ (some d)).super.symm).bind
      fun {T₃} hT₃ parent parent' hparent => ?_
    cases hparent with
    | callable hc =>
      cases hc with
      | cls hc =>
        have hkept := (renamingAt Γ (some (d - 1))).this.symm
        refine (Agree.readAt (hcarries.grow hT₃) (d - 1) hkept).bind
          fun {T₄} hT₄ this this' hthis => ?_
        cases hthis with
        | object id =>
          simp only [hmethod.lexeme]
          rcases rel_cases ((hc.grow hT₄).lookup? method.lexeme) with
            ⟨hnone, hnone'⟩ | ⟨m, m', hsome, hsome', hm⟩
          · rw [hnone, hnone']
            exact .raise hmethod.token _
          · rw [hsome, hsome']
            exact (Agree.bindMethod hm id).bind fun _ _ _ hbound => .pure (.callable hbound)
        | _ => exact .raise hkeyword.token _
      | _ => exact .raise hkeyword.token _
    | _ => exact .raise hkeyword.token _

lemma agree_closureResult {inner : List Renaming} {c c' : Closure} (hc : c.Like ρ T inner c')
    {flow flow' : Flow} (hflow : flow.Like ρ T flow') :
    Agree ρ T scope (closureResult c flow) (closureResult c' flow') (Value.Like ρ) := by
  unfold closureResult
  refine .ite (by rw [hc.isInitializer]) ?_ ?_
  · rw [hc.scope]
    obtain ⟨Γ, hΓ, -⟩ := hc.decl
    exact .readAt hΓ 0 (renamingAt Γ (some 0)).this.symm
  · cases hflow with
    | returned hv => exact .pure hv
    | _ => exact .pure .nil

end Classes

/-! ## Runs -/

open Effect (Agree)

/-- **Runs with a given amount of fuel agree.** -/
structure AgreeAt (ρ : Likeness) (n : Nat) : Prop where
  evaluate : ∀ {T Γ e e'}, Expr.Like ρ Γ e e' → ∀ {scope : Scope}, scope.Carries T Γ →
    Agree ρ T scope (evaluate n e) (evaluate n e') (Value.Like ρ)
  evaluateAll : ∀ {T Γ es es'}, List.Forall₂ (Expr.Like ρ Γ) es es' → ∀ {scope : Scope},
    scope.Carries T Γ → Agree ρ T scope (evaluateAll n es) (evaluateAll n es')
      fun T₁ => List.Forall₂ (Value.Like ρ T₁)
  invoke : ∀ {T v v' arguments arguments' paren paren'}, Value.Like ρ T v v' →
    List.Forall₂ (Value.Like ρ T) arguments arguments' → ρ.token paren paren' → ∀ {scope},
    Agree ρ T scope (invoke n v arguments paren) (invoke n v' arguments' paren') (Value.Like ρ)
  call : ∀ {T c c' arguments arguments' paren paren'}, Callable.Like ρ T c c' →
    List.Forall₂ (Value.Like ρ T) arguments arguments' → ρ.token paren paren' → ∀ {scope},
    Agree ρ T scope (call n c arguments paren) (call n c' arguments' paren') (Value.Like ρ)
  execute : ∀ {T Γ s s'}, Stmt.Like ρ Γ s s' → ∀ {scope : Scope}, scope.Carries T Γ →
    scope.Admits ρ s → Agree ρ T scope (execute n s) (execute n s') (Flow.Like ρ)
  executeAll : ∀ {T Γ body body'}, Stmt.LikeAll ρ Γ body body' → ∀ {scope : Scope},
    scope.Carries T Γ → (∀ s ∈ body, scope.Admits ρ s) →
    Agree ρ T scope (executeAll n body) (executeAll n body') (Flow.Like ρ)
  repeatWhile : ∀ {T Γ condition condition' body body'}, Expr.Like ρ Γ condition condition' →
    Stmt.Like ρ Γ body body' → ∀ {scope : Scope}, scope.Carries T Γ → scope.Admits ρ body →
    Agree ρ T scope (repeatWhile n condition body) (repeatWhile n condition' body') (Flow.Like ρ)

namespace AgreeAt

variable {ρ : Likeness} {n : Nat} {T Γ : List Renaming} {scope : Scope}

lemma succ_evaluate (h : AgreeAt ρ n) {e e' : Expr} (he : e.Like ρ Γ e')
    (hΓ : scope.Carries T Γ) :
    Agree ρ T scope (LoxLang.evaluate (n + 1) e) (LoxLang.evaluate (n + 1) e') (Value.Like ρ) := by
  cases he with
  | literal value => exact .pure (.ofLiteral value)
  | grouping hinner => exact h.evaluate hinner hΓ
  | unary hoperator hright =>
    exact (h.evaluate hright hΓ).bind fun _ _ _ hv => agree_applyUnary hoperator hv
  | binary hleft hoperator hright =>
    refine (h.evaluate hleft hΓ).bind fun hT _ _ ha => ?_
    refine (h.evaluate hright (hΓ.grow hT)).bind fun hT₁ _ _ hb => ?_
    exact agree_applyBinary hoperator (ha.grow hT₁) hb
  | logical hleft hoperator hright =>
    refine (h.evaluate hleft hΓ).bind fun hT _ _ ha => ?_
    refine .ite (by rw [isDecided_like hoperator ha]) (.pure ha) ?_
    exact h.evaluate hright (hΓ.grow hT)
  | «variable» hname => exact .readRef hΓ hname
  | this hkeyword => exact .readRef hΓ hkeyword
  | assign hname hvalue =>
    refine (h.evaluate hvalue hΓ).bind fun hT _ _ hv => ?_
    exact (Agree.writeRef (hΓ.grow hT) hname hv).bind fun hT₁ _ _ _ => .pure (hv.grow hT₁)
  | call hcallee hparen harguments =>
    refine (h.evaluate hcallee hΓ).bind fun hT _ _ hc => ?_
    refine (h.evaluateAll harguments (hΓ.grow hT)).bind fun hT₁ _ _ hvalues => ?_
    exact h.invoke (hc.grow hT₁) hvalues hparen
  | get hobject hname =>
    refine (h.evaluate hobject hΓ).bind fun _ _ _ hv => ?_
    cases hv with
    | object id => exact .property id hname
    | _ => exact .raise hname.token _
  | set hobject hname hvalue =>
    refine (h.evaluate hobject hΓ).bind fun hT _ _ ho => ?_
    cases ho with
    | object id =>
      refine (h.evaluate hvalue (hΓ.grow hT)).bind fun _ _ _ hv => ?_
      exact (Agree.setField id hname.lexeme hv).bind fun hT₂ _ _ _ => .pure (hv.grow hT₂)
    | _ => exact .raise hname.token _
  | super href hkeyword hmethod => exact agree_superMethod hΓ href hkeyword hmethod

lemma succ_evaluateAll (h : AgreeAt ρ n) {es es' : List Expr}
    (hes : List.Forall₂ (Expr.Like ρ Γ) es es') (hΓ : scope.Carries T Γ) :
    Agree ρ T scope (LoxLang.evaluateAll (n + 1) es) (LoxLang.evaluateAll (n + 1) es')
      fun T₁ => List.Forall₂ (Value.Like ρ T₁) := by
  cases hes with
  | nil => exact .pure .nil
  | cons he hrest =>
    refine (h.evaluate he hΓ).bind fun hT _ _ hfirst => ?_
    refine (h.evaluateAll hrest (hΓ.grow hT)).bind fun hT₁ _ _ hothers => ?_
    exact .pure (.cons (hfirst.grow hT₁) hothers)

lemma succ_invoke (h : AgreeAt ρ n) {v v' : Value} {arguments arguments' : List Value}
    {paren paren' : Token} (hv : v.Like ρ T v')
    (harguments : List.Forall₂ (Value.Like ρ T) arguments arguments')
    (hparen : ρ.token paren paren') :
    Agree ρ T scope (LoxLang.invoke (n + 1) v arguments paren)
      (LoxLang.invoke (n + 1) v' arguments' paren') (Value.Like ρ) := by
  cases hv with
  | callable hc =>
    simp only [LoxLang.invoke, hc.arity, ← harguments.length_eq]
    refine .ite Iff.rfl (.raise hparen _) ?_
    refine Agree.isAtLimit.bind fun hT full full' heq => ?_
    subst heq
    refine .ite Iff.rfl (.raise hparen _) (.deeper ?_)
    exact h.call (hc.grow hT) (Value.Like.growAll hT harguments) hparen
  | _ => exact .raise hparen _

lemma succ_call (h : AgreeAt ρ n) {c c' : Callable} {arguments arguments' : List Value}
    {paren paren' : Token} (hc : c.Like ρ T c')
    (harguments : List.Forall₂ (Value.Like ρ T) arguments arguments')
    (hparen : ρ.token paren paren') :
    Agree ρ T scope (LoxLang.call (n + 1) c arguments paren)
      (LoxLang.call (n + 1) c' arguments' paren') (Value.Like ρ) := by
  cases hc with
  | builtin stamp b receiver => exact agree_callBuiltin b receiver harguments hparen
  | @function stamp c c' hc =>
    obtain ⟨Γ, hΓ, hdecl⟩ := hc.decl
    obtain ⟨π, hπ, hparams, hbody⟩ := hdecl.exists_renaming
    refine (Agree.addFrame hπ (like_bindParameters hparams harguments)).bind
      fun hT frame frame' hnew => ?_
    obtain ⟨rfl, hframe, hlocal⟩ := hnew
    rw [hc.scope]
    -- The body runs in a frame of its own, so nothing that it declares is global.
    have hadmits := Scope.admits_cons hlocal c.scope (ρ.inner hc.function)
    have hrun := h.executeAll hbody ((hΓ.grow hT).cons hframe) hadmits
    exact hrun.within.bind fun hT₁ _ _ hflow =>
      agree_closureResult (hc.mono (.refl ρ) (hT.trans hT₁)) hflow
  | @cls c c' hc =>
    refine (Agree.addInstance hc).bind fun hT id id' heq => ?_
    subst heq
    rcases rel_cases ((hc.grow hT).lookup? initializerName) with
      ⟨hnone, hnone'⟩ | ⟨m, m', hsome, hsome', hm⟩
    · simp only [hnone, hnone']
      exact .pure (.object id)
    · simp only [hsome, hsome']
      refine (Agree.bindMethod hm id).bind fun hT₁ _ _ hinitializer => ?_
      have hvalues := Value.Like.growAll (hT.trans hT₁) harguments
      exact (h.call hinitializer hvalues hparen).bind fun _ _ _ _ => .pure (.object id)

lemma succ_execute (h : AgreeAt ρ n) {s s' : Stmt} (hs : s.Like ρ Γ s') (hΓ : scope.Carries T Γ)
    (hadmits : scope.Admits ρ s) :
    Agree ρ T scope (LoxLang.execute (n + 1) s) (LoxLang.execute (n + 1) s') (Flow.Like ρ) := by
  cases hs with
  | expression he => exact (h.evaluate he hΓ).bind fun _ _ _ _ => .pure .normal
  | print he =>
    refine (h.evaluate he hΓ).bind fun _ _ _ hv => ?_
    refine (Agree.text hv).bind fun _ line line' heq => ?_
    subst heq
    exact (Agree.write _).bind fun _ _ _ _ => .pure .normal
  | var hname hvalue =>
    have hglobal : scope.head? = some globalFrame → ρ.global _ :=
      fun hhead => hadmits.global hhead _ List.mem_cons_self
    cases hvalue with
    | none => exact (Agree.define hΓ hname.lexeme .nil hglobal).bind fun _ _ _ _ => .pure .normal
    | some he =>
      refine (h.evaluate he hΓ).bind fun hT _ _ hv => ?_
      exact (Agree.define (hΓ.grow hT) hname.lexeme hv hglobal).bind fun _ _ _ _ => .pure .normal
  | block hπ hbody =>
    refine (Agree.addFrame hπ .empty).bind fun hT frame frame' hnew => ?_
    obtain ⟨rfl, hframe, hlocal⟩ := hnew
    refine Agree.current.bind fun hT₁ outer outer' hcurrent => ?_
    obtain ⟨rfl, rfl⟩ := hcurrent
    have hinside := (hΓ.grow (hT.trans hT₁)).cons (getElem?_grow hT₁ hframe)
    exact .within (h.executeAll hbody hinside (Scope.admits_cons hlocal _ hadmits.function))
  | ifThen hcondition hthen =>
    refine (h.evaluate hcondition hΓ).bind fun hT _ _ hv => ?_
    refine .ite (by rw [hv.isTruthy]) ?_ (.pure .normal)
    exact h.execute hthen (hΓ.grow hT) ⟨hadmits.global, hadmits.function⟩
  | ifElse hcondition hthen helse =>
    refine (h.evaluate hcondition hΓ).bind fun hT _ _ hv => ?_
    refine .ite (by rw [hv.isTruthy]) ?_ ?_
    · exact h.execute hthen (hΓ.grow hT) hadmits.thenBranch
    · exact h.execute helse (hΓ.grow hT) hadmits.elseBranch
  | whileLoop hcondition hbody =>
    exact h.repeatWhile hcondition hbody hΓ ⟨hadmits.global, hadmits.function⟩
  | breakLoop _ => exact .pure .broken
  | returnValue _ hvalue =>
    cases hvalue with
    | none => exact .pure (.returned .nil)
    | some he => exact (h.evaluate he hΓ).bind fun _ _ _ hv => .pure (.returned hv)
  | function hdecl hname =>
    refine Agree.freshStamp.bind fun hT stamp stamp' heq => ?_
    subst heq
    refine Agree.current.bind fun {T₁} hT₁ current current' hcurrent => ?_
    obtain ⟨rfl, rfl⟩ := hcurrent
    have hcarries := hΓ.grow (hT.trans hT₁)
    have hglobal : current'.head? = some globalFrame → ρ.global _ :=
      fun hhead => hadmits.global hhead _ List.mem_cons_self
    have hclosure : Closure.Like ρ T₁ [] ⟨_, current', false⟩ ⟨_, current', false⟩ :=
      ⟨⟨Γ, hcarries, hdecl⟩, rfl, rfl, hadmits.function _ List.mem_cons_self⟩
    have hlexeme := hdecl.name.lexeme.trans hname.symm
    exact (Agree.define hcarries hlexeme (.callable (.function stamp hclosure)) hglobal).bind
      fun _ _ _ _ => .pure .normal
  | baseClass hname hkept hmethods =>
    have hglobal : scope.head? = some globalFrame → ρ.global _ :=
      fun hhead => hadmits.global hhead _ List.mem_cons_self
    refine (Agree.define hΓ (hname.lexeme.trans hkept.symm) .nil hglobal).bind fun hT _ _ _ => ?_
    exact (agree_defineBase (hΓ.grow hT) hname hkept hmethods hadmits).bind
      fun _ _ _ _ => .pure .normal
  | derivedClass hname hkept he hmethods =>
    have hglobal : scope.head? = some globalFrame → ρ.global _ :=
      fun hhead => hadmits.global hhead _ List.mem_cons_self
    refine (Agree.define hΓ (hname.lexeme.trans hkept.symm) .nil hglobal).bind fun hT _ _ _ => ?_
    refine (h.evaluate he (hΓ.grow hT)).bind fun hT₁ _ _ hv => ?_
    refine (agree_expectClass (token_superclassToken he hname.token) hv).bind
      fun hT₂ _ _ hparent => ?_
    have hcarries := hΓ.grow (hT.trans (hT₁.trans hT₂))
    exact (agree_defineDerived hcarries hname hkept hparent hmethods
      ⟨hadmits.global, hadmits.function⟩).bind fun _ _ _ _ => .pure .normal

lemma succ_executeAll (h : AgreeAt ρ n) {body body' : List Stmt}
    (hbody : Stmt.LikeAll ρ Γ body body') (hΓ : scope.Carries T Γ)
    (hadmits : ∀ s ∈ body, scope.Admits ρ s) :
    Agree ρ T scope (LoxLang.executeAll (n + 1) body) (LoxLang.executeAll (n + 1) body')
      (Flow.Like ρ) := by
  cases hbody with
  | nil => exact .pure .normal
  | cons hs hrest =>
    rw [List.forall_mem_cons] at hadmits
    refine (h.execute hs hΓ hadmits.1).bind fun hT _ _ hflow => ?_
    cases hflow with
    | normal => exact h.executeAll hrest (hΓ.grow hT) hadmits.2
    | broken => exact .pure .broken
    | returned hv => exact .pure (.returned hv)

lemma succ_repeatWhile (h : AgreeAt ρ n) {condition condition' : Expr} {body body' : Stmt}
    (hcondition : condition.Like ρ Γ condition') (hbody : body.Like ρ Γ body')
    (hΓ : scope.Carries T Γ) (hadmits : scope.Admits ρ body) :
    Agree ρ T scope (LoxLang.repeatWhile (n + 1) condition body)
      (LoxLang.repeatWhile (n + 1) condition' body') (Flow.Like ρ) := by
  refine (h.evaluate hcondition hΓ).bind fun hT _ _ hv => ?_
  refine .ite (by rw [hv.isTruthy]) ?_ (.pure .normal)
  refine (h.execute hbody (hΓ.grow hT) hadmits).bind fun hT₁ _ _ hflow => ?_
  cases hflow with
  | normal => exact h.repeatWhile hcondition hbody (hΓ.grow (hT.trans hT₁)) hadmits
  | broken => exact .pure .normal
  | returned hv => exact .pure (.returned hv)

end AgreeAt

/-- Runs agree, whatever fuel they have. -/
lemma agreeAt (ρ : Likeness) (n : Nat) : AgreeAt ρ n := by
  induction n with
  | zero => refine ⟨?_, ?_, ?_, ?_, ?_, ?_, ?_⟩ <;> intros <;> exact .exhausted
  | succ n ih =>
    exact ⟨fun he _ hΓ => ih.succ_evaluate he hΓ, fun hes _ hΓ => ih.succ_evaluateAll hes hΓ,
      fun hv harguments hparen => ih.succ_invoke hv harguments hparen,
      fun hc harguments hparen => ih.succ_call hc harguments hparen,
      fun hs _ hΓ hadmits => ih.succ_execute hs hΓ hadmits,
      fun hbody _ hΓ hadmits => ih.succ_executeAll hbody hΓ hadmits,
      fun hcondition hbody _ hΓ hadmits => ih.succ_repeatWhile hcondition hbody hΓ hadmits⟩

/-- **Programs that are alike run alike**, in any scope that admits what they bind. -/
lemma agree_runProgram {ρ : Likeness} {T Γ : List Renaming} {scope : Scope} (fuel : Nat)
    {program program' : List Stmt} (hprogram : Stmt.LikeAll ρ Γ program program')
    (hΓ : scope.Carries T Γ) (hadmits : ∀ s ∈ program, scope.Admits ρ s) :
    Agree ρ T scope (runProgram fuel program) (runProgram fuel program') fun _ => Eq := by
  induction program generalizing T program' with
  | nil =>
    cases hprogram
    exact .pure rfl
  | cons s rest ih =>
    cases hprogram with
    | cons hs hrest =>
      rw [List.forall_mem_cons] at hadmits
      refine ((agreeAt ρ fuel).execute hs hΓ hadmits.1).bind fun hT _ _ _ => ?_
      exact ih hrest (hΓ.grow hT) hadmits.2

end LoxLang
