import LoxLang.Machine.Run
import LoxLang.Proofs.Machine.Mirror
import LoxLang.Proofs.Syntax.Formation

/-!
# Runs on machines that mirror each other

The same program, run on machines that mirror each other, ends in the same way on machines that
mirror each other again: with the same flow, output, errors and faults, and with results that differ
only in the frames of closures.

The proof is a logical relation between effects (`Effect.Mirror`): one lemma for each effect, then
one case for each expression and statement, by induction on the fuel.  References have to be
resolved (`Site.Resolved`), and nothing may be declared straight in the frame of a round
(`Scope.MayRun`).
-/

namespace LoxLang

/-! ## Effects side by side -/

/-- Outcomes that mirror each other: the same error or fault, or results that correspond. -/
inductive Outcome.Mirror {α : Type} (Q : α → α → Prop) : Outcome α → Outcome α → Prop
  | ok {a a' : α} (h : Q a a') : Outcome.Mirror Q (.ok a) (.ok a')
  | error (e : RuntimeError) : Outcome.Mirror Q (.error e) (.error e)
  | fault (f : Fault) : Outcome.Mirror Q (.fault f) (.fault f)
  | exhausted : Outcome.Mirror Q .exhausted .exhausted

/-- **Two effects mirror each other in two scopes**: on machines that do so they end alike, with
results that `Q` relates when there are more frames. -/
def Effect.Mirror {α : Type} (S : Site → Prop) (W : Images) (scope scope' : Scope)
    (x x' : Effect α) (Q : Images → α → α → Prop) : Prop :=
  ∀ m m' : Machine, m.Mirror S W m' → m.scope = scope → m'.scope = scope' →
    ∃ W₁, W <+: W₁ ∧ (x m).1.Mirror (Q W₁) (x' m').1 ∧ (x m).2.Mirror S W₁ (x' m').2 ∧
      (x m).2.scope = scope ∧ (x' m').2.scope = scope'

namespace Effect.Mirror

variable {α β : Type} {S : Site → Prop} {W : Images} {scope scope' : Scope}
  {Q : Images → α → α → Prop}

/-- What is read off alike, from machines that stay as they are. -/
lemma of_outcome {x x' : Effect α} (hx : ∀ m, (x m).2 = m) (hx' : ∀ m, (x' m).2 = m)
    (h : ∀ {m m'}, m.Mirror S W m' → m.scope = scope → m'.scope = scope' →
      (x m).1.Mirror (Q W) (x' m').1) : Effect.Mirror S W scope scope' x x' Q := by
  intro m m' hm hscope hscope'
  refine ⟨W, List.prefix_refl W, h hm hscope hscope', ?_, ?_, ?_⟩
  · rw [hx, hx']
    exact hm
  · rw [hx]
    exact hscope
  · rw [hx']
    exact hscope'

lemma pure {a a' : α} (h : Q W a a') :
    Effect.Mirror S W scope scope' (Pure.pure a) (Pure.pure a') Q :=
  of_outcome (fun _ => rfl) (fun _ => rfl) fun _ _ _ => .ok h

lemma raise (token : Token) (cause : RuntimeCause) :
    Effect.Mirror S W scope scope' (Effect.raise token cause) (Effect.raise token cause) Q :=
  of_outcome (fun _ => rfl) (fun _ => rfl) fun _ _ _ => .error ⟨token, cause⟩

lemma exhausted :
    Effect.Mirror S W scope scope' (Effect.exhausted : Effect α) Effect.exhausted Q :=
  of_outcome (fun _ => rfl) (fun _ => rfl) fun _ _ _ => .exhausted

/-- One effect after the other.  What comes second runs when there may be more frames. -/
lemma bind {x x' : Effect α} {f f' : α → Effect β} {R : Images → β → β → Prop}
    (hx : Effect.Mirror S W scope scope' x x' Q)
    (hf : ∀ {W₁}, W <+: W₁ → ∀ a a', Q W₁ a a' →
      Effect.Mirror S W₁ scope scope' (f a) (f' a') R) :
    Effect.Mirror S W scope scope' (x >>= f) (x' >>= f') R := by
  intro m m' hm hscope hscope'
  obtain ⟨W₁, hW, houtcome, hmachine, hkept, hkept'⟩ := hx m m' hm hscope hscope'
  rw [Effect.run_bind, Effect.run_bind]
  rcases hxm : x m with ⟨outcome, m₁⟩
  rcases hxm' : x' m' with ⟨outcome', m₁'⟩
  rw [hxm] at houtcome hmachine hkept
  rw [hxm'] at houtcome hmachine hkept'
  cases houtcome with
  | ok h =>
    obtain ⟨W₂, hW₂, hend, hlast, hscopes⟩ := hf hW _ _ h _ _ hmachine hkept hkept'
    exact ⟨W₂, hW.trans hW₂, hend, hlast, hscopes⟩
  | error e => exact ⟨W₁, hW, .error e, hmachine, hkept, hkept'⟩
  | fault f => exact ⟨W₁, hW, .fault f, hmachine, hkept, hkept'⟩
  | exhausted => exact ⟨W₁, hW, .exhausted, hmachine, hkept, hkept'⟩

lemma ite {c c' : Prop} [Decidable c] [Decidable c'] (hc : c' ↔ c) {x x' y y' : Effect α}
    (hx : Effect.Mirror S W scope scope' x x' Q) (hy : Effect.Mirror S W scope scope' y y' Q) :
    Effect.Mirror S W scope scope' (if c then x else y) (if c' then x' else y') Q := by
  by_cases h : c
  · rw [if_pos h, if_pos (hc.mpr h)]
    exact hx
  · rw [if_neg h, if_neg (mt hc.mp h)]
    exact hy

/-- In other scopes for a while. -/
lemma within {inner inner' : Scope} {x x' : Effect α}
    (hx : Effect.Mirror S W inner inner' x x' Q) :
    Effect.Mirror S W scope scope' (Effect.within inner x) (Effect.within inner' x') Q := by
  intro m m' hm hscope hscope'
  have hinner : Machine.Mirror S W { m with scope := inner } { m' with scope := inner' } :=
    ⟨hm.store, hm.depth, hm.limit, hm.distances, hm.resolved, hm.console, hm.clock⟩
  obtain ⟨W₁, hW, houtcome, h, -, -⟩ := hx _ _ hinner rfl rfl
  exact ⟨W₁, hW, houtcome,
    ⟨h.store, h.depth, h.limit, h.distances, h.resolved, h.console, h.clock⟩, hscope, hscope'⟩

/-- One call further down for a while. -/
lemma deeper {x x' : Effect α} (hx : Effect.Mirror S W scope scope' x x' Q) :
    Effect.Mirror S W scope scope' (Effect.deeper x) (Effect.deeper x') Q := by
  intro m m' hm hscope hscope'
  have hdeep : Machine.Mirror S W { m with depth := m.depth + 1 }
      { m' with depth := m'.depth + 1 } := { hm with depth := congrArg (· + 1) hm.depth }
  obtain ⟨W₁, hW, houtcome, h, hkept, hkept'⟩ := hx _ _ hdeep hscope hscope'
  exact ⟨W₁, hW, houtcome, { h with depth := hm.depth }, hkept, hkept'⟩

lemma current : Effect.Mirror S W scope scope' Effect.scope Effect.scope fun _ s s' =>
    s = scope ∧ s' = scope' :=
  of_outcome (fun _ => rfl) (fun _ => rfl) fun _ hscope hscope' => .ok ⟨hscope, hscope'⟩

lemma isAtLimit : Effect.Mirror S W scope scope' Effect.isAtLimit Effect.isAtLimit fun _ => Eq := by
  refine of_outcome (fun _ => rfl) (fun _ => rfl) fun hm _ _ => .ok ?_
  rw [hm.limit, hm.depth]

lemma text {v v' : Value} (hv : v.Mirror S W v') :
    Effect.Mirror S W scope scope' (Effect.text v) (Effect.text v') fun _ => Eq :=
  of_outcome (fun _ => rfl) (fun _ => rfl) fun hm _ _ => .ok (hm.store.text hv).symm

lemma write (event : Event) :
    Effect.Mirror S W scope scope' (Effect.write event) (Effect.write event) fun _ => Eq := by
  intro m m' hm hscope hscope'
  refine ⟨W, List.prefix_refl W, .ok rfl, ?_, hscope, hscope'⟩
  exact { hm with console := congrArg (·.write event) hm.console }

lemma readLine :
    Effect.Mirror S W scope scope' Effect.readLine Effect.readLine fun _ => Eq := by
  intro m m' hm hscope hscope'
  have hline : m'.console.readLine = m.console.readLine := by rw [hm.console]
  refine ⟨W, List.prefix_refl W, .ok (congrArg Prod.fst hline).symm, ?_, hscope, hscope'⟩
  exact { hm with console := congrArg Prod.snd hline }

lemma readClock :
    Effect.Mirror S W scope scope' Effect.readClock Effect.readClock fun _ => Eq := by
  intro m m' hm hscope hscope'
  have htime : m'.clock.read = m.clock.read := by rw [hm.clock]
  refine ⟨W, List.prefix_refl W, .ok (congrArg Prod.fst htime).symm, ?_, hscope, hscope'⟩
  exact { hm with clock := congrArg Prod.snd htime }

/-! ### Effects on the store -/

lemma onStore {f f' : Store → α × Store}
    (h : ∀ {s s'}, Store.Mirror S W s s' →
      ∃ W₁, W <+: W₁ ∧ Q W₁ (f s).1 (f' s').1 ∧ (f s).2.Mirror S W₁ (f' s').2) :
    Effect.Mirror S W scope scope' (Effect.onStore f) (Effect.onStore f') Q := by
  intro m m' hm hscope hscope'
  obtain ⟨W₁, hW, hresult, hstore⟩ := h hm.store
  exact ⟨W₁, hW, .ok hresult, { hm with store := hstore }, hscope, hscope'⟩

/-- A new frame on both machines. -/
lemma addFrame {b b' : Bindings Value} (hb : b.Like (Value.Mirror S W) .identity b') :
    Effect.Mirror S W scope scope' (Effect.addFrame b) (Effect.addFrame b') fun W₁ id id' =>
      W₁[id]? = some (.own id') := by
  refine onStore fun {s s'} hs => ⟨_, List.prefix_append W _, ?_, hs.addFrame hb⟩
  show (W ++ [.own s'.frames.size])[s.frames.size]? = some (.own s'.frames.size)
  rw [show s.frames.size = W.length from hs.size]
  simp

lemma addInstance {c c' : Class} (hc : c.Mirror S W c') :
    Effect.Mirror S W scope scope' (Effect.addInstance c) (Effect.addInstance c') fun _ => Eq :=
  onStore fun hs => ⟨W, List.prefix_refl W, hs.instances.size.symm, hs.addInstance hc⟩

lemma freshStamp :
    Effect.Mirror S W scope scope' Effect.freshStamp Effect.freshStamp fun _ => Eq :=
  onStore fun hs => ⟨W, List.prefix_refl W, hs.nextStamp.symm, hs.freshStamp⟩

lemma bindMethod {method method' : Method} (h : method.Mirror S W method') (id : InstanceId) :
    Effect.Mirror S W scope scope' (Effect.bindMethod method id) (Effect.bindMethod method' id)
      (Callable.Mirror S) := onStore fun hs => hs.bindMethod h id

lemma setField (id : InstanceId) (name : String) {v v' : Value} (hv : v.Mirror S W v') :
    Effect.Mirror S W scope scope' (Effect.setField id name v) (Effect.setField id name v')
      fun _ => Eq := by
  refine onStore fun hs => ⟨W, List.prefix_refl W, rfl, hs.modifyInstance id fun hi => ?_⟩
  have hfields := hi.fields.insert name hv
  rw [Renaming.identity_apply] at hfields
  exact ⟨hi.cls, hfields, hi.elements⟩

/-- A declaration binds a name in the innermost frame. -/
lemma define {Γ : LexicalContext} (hΓ : scope.Mirror W Γ scope') (hown : scope.IsOwn W)
    (name : String) {v v' : Value} (hv : v.Mirror S W v') :
    Effect.Mirror S W scope scope' (Effect.define name v) (Effect.define name v') fun _ => Eq := by
  intro m m' hm hscope hscope'
  refine ⟨W, List.prefix_refl W, .ok rfl, { hm with store := ?_ }, hscope, hscope'⟩
  show (m.store.define m.scope name v).Mirror S W (m'.store.define m'.scope name v')
  rw [hscope, hscope']
  cases hΓ with
  | globals => exact hm.store.bindIn hm.store.opened name hv
  | own hid _ => exact hm.store.bindIn hid name hv
  | round hid _ _ =>
    obtain ⟨id', hother⟩ := hown _ rfl
    cases hid.symm.trans hother

/-- Reading where the text has a scope with names. -/
lemma readAt {Γ : LexicalContext} {chain chain' : Scope} (hΓ : chain.Mirror W Γ chain')
    {d : Nat} {σ : LexicalScope} (hσ : Γ[d]? = some σ) (hnames : σ.names ≠ []) (name : String) :
    Effect.Mirror S W scope scope' (Effect.readAt chain d name) (Effect.readAt chain' d name)
      (Value.Mirror S) := by
  intro m m' hm hscope hscope'
  refine ⟨W, List.prefix_refl W, ?_⟩
  obtain ⟨id, id', hid, hid', hown⟩ := hΓ.exists_own hσ hnames
  unfold Effect.readAt Store.readAt
  rw [hid, hid']
  rcases rel_cases (hm.store.frame hown name) with ⟨hnone, hnone'⟩ | ⟨v, v', hsome, hsome', hv⟩
  · rw [Renaming.identity_apply] at hnone'
    simp only [hnone, hnone']
    exact ⟨.fault _, hm, hscope, hscope'⟩
  · rw [Renaming.identity_apply] at hsome'
    simp only [hsome, hsome']
    exact ⟨.ok hv, hm, hscope, hscope'⟩

lemma writeAt {Γ : LexicalContext} (hΓ : scope.Mirror W Γ scope') {d : Nat} {σ : LexicalScope}
    (hσ : Γ[d]? = some σ) (hnames : σ.names ≠ []) (name : String) {v v' : Value}
    (hv : v.Mirror S W v') :
    Effect.Mirror S W scope scope' (Effect.writeAt d name v) (Effect.writeAt d name v')
      fun _ => Eq := by
  intro m m' hm hscope hscope'
  refine ⟨W, List.prefix_refl W, ?_⟩
  obtain ⟨id, id', hid, hid', hown⟩ := hΓ.exists_own hσ hnames
  unfold Effect.writeAt Store.frameAt
  rw [hscope, hscope', hid, hid']
  simp only [hm.store.contains hown]
  by_cases hbound : (m.store.frame id).contains name = true
  · simp only [hbound, if_true]
    exact ⟨.ok rfl, { hm with store := hm.store.bindIn hown name hv }, hscope, hscope'⟩
  · simp only [hbound]
    exact ⟨.fault _, hm, hscope, hscope'⟩

lemma readGlobal (name : Token) :
    Effect.Mirror S W scope scope' (Effect.readGlobal name) (Effect.readGlobal name)
      (Value.Mirror S) := by
  intro m m' hm hscope hscope'
  refine ⟨W, List.prefix_refl W, ?_⟩
  unfold Effect.readGlobal
  rcases rel_cases (hm.store.lookup?_global name.lexeme) with
    ⟨hnone, hnone'⟩ | ⟨v, v', hsome, hsome', hv⟩
  · rw [hnone, hnone']
    exact ⟨.error _, hm, hscope, hscope'⟩
  · rw [hsome, hsome']
    exact ⟨.ok hv, hm, hscope, hscope'⟩

lemma writeGlobal (name : Token) {v v' : Value} (hv : v.Mirror S W v') :
    Effect.Mirror S W scope scope' (Effect.writeGlobal name v) (Effect.writeGlobal name v')
      fun _ => Eq := by
  intro m m' hm hscope hscope'
  refine ⟨W, List.prefix_refl W, ?_⟩
  have hglobal : m'.store.frameOf? name.lexeme globalScope =
      m.store.frameOf? name.lexeme globalScope := by
    simp only [Store.frameOf?, globalScope, List.find?_cons, List.find?_nil,
      hm.store.contains hm.store.opened]
  unfold Effect.writeGlobal
  rw [hglobal]
  cases hframe : m.store.frameOf? name.lexeme globalScope with
  | none => exact ⟨.error _, hm, hscope, hscope'⟩
  | some id =>
    obtain rfl : id = globalFrame := List.mem_singleton.mp (List.mem_of_find?_eq_some hframe)
    exact ⟨.ok rfl, { hm with store := hm.store.bindIn hm.store.opened name.lexeme hv }, hscope,
      hscope'⟩

variable {use : ReferenceUse} {ref : RefId} {name : Token} {pending : Option String}
  {Γ : LexicalContext}

/-- A recorded distance leads to a scope with names, and so does that of `super` less one. -/
lemma distance? (hs : S ⟨⟨use, ref, name⟩, Γ, pending⟩) :
    Effect.Mirror S W scope scope' (Effect.distance? ref) (Effect.distance? ref) fun _ d d' =>
      d' = d ∧ ∀ k, d = some k → (∃ σ, Γ[k]? = some σ ∧ σ.names ≠ []) ∧
        (use = .super → ∃ σ, Γ[k - 1]? = some σ ∧ σ.names ≠ []) := by
  refine of_outcome (fun _ => rfl) (fun _ => rfl) fun hm _ _ => .ok ⟨by rw [hm.distances], ?_⟩
  intro k hk
  have hvisible := (hm.resolved _ hs).distance.symm.trans hk
  exact ⟨Site.exists_named hvisible, fun huse => (hm.resolved _ hs).receiver huse k hvisible⟩

lemma readRef (hΓ : scope.Mirror W Γ scope') (hs : S ⟨⟨use, ref, name⟩, Γ, pending⟩) :
    Effect.Mirror S W scope scope' (Effect.readRef ref name) (Effect.readRef ref name)
      (Value.Mirror S) := by
  intro m m' hm hscope hscope'
  have hdistance := (hm.resolved _ hs).distance
  unfold Effect.readRef
  rw [hm.distances, hscope, hscope']
  cases hfound : m.distances.find? ref with
  | none => exact readGlobal name m m' hm hscope hscope'
  | some d =>
    obtain ⟨σ, hσ, hnames⟩ := Site.exists_named (hdistance.symm.trans hfound)
    exact readAt hΓ hσ hnames name.lexeme m m' hm hscope hscope'

lemma writeRef (hΓ : scope.Mirror W Γ scope') (hs : S ⟨⟨use, ref, name⟩, Γ, pending⟩)
    {v v' : Value} (hv : v.Mirror S W v') :
    Effect.Mirror S W scope scope' (Effect.writeRef ref name v) (Effect.writeRef ref name v')
      fun _ => Eq := by
  intro m m' hm hscope hscope'
  have hdistance := (hm.resolved _ hs).distance
  unfold Effect.writeRef
  rw [hm.distances]
  cases hfound : m.distances.find? ref with
  | none => exact writeGlobal name hv m m' hm hscope hscope'
  | some d =>
    obtain ⟨σ, hσ, hnames⟩ := Site.exists_named (hdistance.symm.trans hfound)
    exact writeAt hΓ hσ hnames name.lexeme hv m m' hm hscope hscope'

lemma property (id : InstanceId) (name : Token) :
    Effect.Mirror S W scope scope' (Effect.property id name) (Effect.property id name)
      (Value.Mirror S) := by
  intro m m' hm hscope hscope'
  unfold Effect.property
  rcases rel_cases (hm.store.fields id name.lexeme) with
    ⟨hnone, hnone'⟩ | ⟨v, v', hsome, hsome', hv⟩
  · rw [Renaming.identity_apply] at hnone'
    rw [hnone, hnone']
    have hmethod : Option.Rel (Method.Mirror S W)
        ((m.store.instances[id]?).bind fun i => i.cls.lookup? name.lexeme)
        ((m'.store.instances[id]?).bind fun i => i.cls.lookup? name.lexeme) := by
      rcases rel_cases (hm.store.instances.entry id) with
        ⟨hnone, hnone'⟩ | ⟨i, i', hsome, hsome', hi⟩
      · rw [hnone, hnone']
        exact .none
      · rw [hsome, hsome']
        exact hi.cls.lookup? name.lexeme
    rcases rel_cases hmethod with ⟨hmissing, hmissing'⟩ | ⟨f, f', hfound, hfound', hf⟩
    · simp only [hmissing, hmissing']
      exact ⟨W, List.prefix_refl W, .error _, hm, hscope, hscope'⟩
    · simp only [hfound, hfound']
      refine onStore (Q := Value.Mirror S) (fun hs => ?_) m m' hm hscope hscope'
      obtain ⟨W₁, hW, hbound, hstore⟩ := hs.bindMethod hf id
      exact ⟨W₁, hW, .callable hbound, hstore⟩
  · rw [Renaming.identity_apply] at hsome'
    rw [hsome, hsome']
    exact ⟨W, List.prefix_refl W, .ok hv, hm, hscope, hscope'⟩

end Effect.Mirror

/-! ## Operators and builtins -/

section Operations

variable {S : Site → Prop} {W : Images} {scope scope' : Scope} {v v' w w' : Value}

lemma mirror_applyUnary (operator : Token) (hv : v.Mirror S W v') :
    Effect.Mirror S W scope scope' (applyUnary operator v) (applyUnary operator v')
      (Value.Mirror S) := by
  unfold applyUnary
  rw [hv.isTruthy]
  split
  · cases hv with
    | number x => exact .pure (.number _)
    | _ => exact .raise _ _
  · exact .pure (.bool _)
  · exact .raise _ _

lemma mirror_onNumbers (operator : Token) (hv : v.Mirror S W v') (hw : w.Mirror S W w')
    {f : Float → Float → Effect Value}
    (hf : ∀ a b, Effect.Mirror S W scope scope' (f a b) (f a b) (Value.Mirror S)) :
    Effect.Mirror S W scope scope' (onNumbers operator v w f) (onNumbers operator v' w' f)
      (Value.Mirror S) := by
  cases hv with
  | number a =>
    cases hw with
    | number b => exact hf a b
    | _ => exact .raise _ _
  | _ => exact .raise _ _

lemma mirror_applyPlus (operator : Token) (hv : v.Mirror S W v') (hw : w.Mirror S W w') :
    Effect.Mirror S W scope scope' (applyPlus operator v w) (applyPlus operator v' w')
      (Value.Mirror S) := by
  cases hv with
  | number a =>
    cases hw with
    | number b => exact .pure (.number _)
    | _ => exact .raise _ _
  | string a =>
    cases hw with
    | string b => exact .pure (.string _)
    | _ => exact .raise _ _
  | _ => exact .raise _ _

lemma mirror_applyBinary (operator : Token) (hv : v.Mirror S W v') (hw : w.Mirror S W w') :
    Effect.Mirror S W scope scope' (applyBinary operator v w) (applyBinary operator v' w')
      (Value.Mirror S) := by
  unfold applyBinary
  rw [hv.same hw]
  split
  case h_1 => exact mirror_applyPlus operator hv hw
  case h_4 =>
    exact mirror_onNumbers operator hv hw fun _ _ => .ite Iff.rfl (.raise _ _) (.pure (.number _))
  case h_9 | h_10 => exact .pure (.bool _)
  case h_11 => exact .raise _ _
  case h_2 | h_3 => exact mirror_onNumbers operator hv hw fun _ _ => .pure (.number _)
  all_goals exact mirror_onNumbers operator hv hw fun _ _ => .pure (.bool _)

lemma mirror_elementAt (paren : Token) (id : InstanceId) (x : Float) :
    Effect.Mirror S W scope scope' (Builtin.elementAt paren id x) (Builtin.elementAt paren id x)
      (Value.Mirror S) := by
  intro m m' hm hscope hscope'
  have hentry : Option.Rel (Value.Mirror S W)
      ((Builtin.index? x).bind fun n => (m.store.elements id)[n]?)
      ((Builtin.index? x).bind fun n => (m'.store.elements id)[n]?) := by
    cases Builtin.index? x with
    | none => exact .none
    | some n => exact (hm.store.elements id).entry n
  refine ⟨W, List.prefix_refl W, ?_⟩
  unfold Builtin.elementAt
  rcases rel_cases hentry with ⟨hnone, hnone'⟩ | ⟨v, v', hsome, hsome', hv⟩
  · rw [hnone, hnone']
    exact ⟨.error _, hm, hscope, hscope'⟩
  · rw [hsome, hsome']
    exact ⟨.ok hv, hm, hscope, hscope'⟩

variable {arguments arguments' : List Value}

lemma mirror_readPrompted (paren : Token)
    (harguments : List.Forall₂ (Value.Mirror S W) arguments arguments') :
    Effect.Mirror S W scope scope' (Builtin.readPrompted paren arguments)
      (Builtin.readPrompted paren arguments') fun _ => Eq := by
  unfold Builtin.readPrompted
  have hnone : Effect.Mirror S W scope scope' (Pure.pure "") (Pure.pure "") fun _ => Eq := .pure rfl
  have hsome : ∀ {v v'}, Value.Mirror S W v v' →
      Effect.Mirror S W scope scope' (Effect.text v) (Effect.text v') fun _ => Eq := .text
  cases harguments
  all_goals
    refine Effect.Mirror.bind (by first | exact hnone | exact hsome ‹_›)
      fun _ prompt prompt' heq => ?_
    subst heq
    refine (Effect.Mirror.write _).bind fun _ _ _ _ =>
      Effect.Mirror.readLine.bind fun _ line line' heq => ?_
    subst heq
    rcases line with _ | (_ | _)
    · exact .raise _ _
    · exact .pure rfl
    · exact .raise _ _

lemma mirror_onReceiver (paren : Token) (receiver : Option InstanceId)
    {f f' : InstanceId → Effect Value}
    (hf : ∀ id, Effect.Mirror S W scope scope' (f id) (f' id) (Value.Mirror S)) :
    Effect.Mirror S W scope scope' (Builtin.onReceiver paren receiver f)
      (Builtin.onReceiver paren receiver f') (Value.Mirror S) := by
  cases receiver with
  | none => exact .raise _ _
  | some id => exact hf id

/-- A change of the elements of an array, with a result that is read off them. -/
lemma mirror_onElements (id : InstanceId) (f f' : Array Value → Value × Array Value)
    (hf : ∀ {xs xs'}, ArrayLike (Value.Mirror S W) xs xs' →
      (f xs).1.Mirror S W (f' xs').1 ∧ ArrayLike (Value.Mirror S W) (f xs).2 (f' xs').2) :
    Effect.Mirror S W scope scope'
      (Effect.onStore fun s => ((f (s.elements id)).1, s.updateElements id fun xs => (f xs).2))
      (Effect.onStore fun s => ((f' (s.elements id)).1, s.updateElements id fun xs => (f' xs).2))
      (Value.Mirror S) := by
  refine .onStore fun hs => ⟨W, List.prefix_refl W, (hf (hs.elements id)).1, ?_⟩
  refine hs.modifyInstance id fun hi => ?_
  exact ⟨hi.cls, hi.fields, (hf hi.elements).2⟩

lemma mirror_callBuiltin (b : Builtin) (receiver : Option InstanceId)
    (harguments : List.Forall₂ (Value.Mirror S W) arguments arguments') (paren : Token) :
    Effect.Mirror S W scope scope' (b.call receiver arguments paren)
      (b.call receiver arguments' paren) (Value.Mirror S) := by
  cases b with
  | clock =>
    refine Effect.Mirror.readClock.bind fun _ time time' heq => ?_
    subst heq
    exact .pure (.number _)
  | arrayGet =>
    refine mirror_onReceiver paren receiver fun id => ?_
    cases harguments with
    | nil => exact .raise _ _
    | cons hv _ =>
      cases hv with
      | number x => exact mirror_elementAt paren id x
      | _ => exact .raise _ _
  | arrayPush =>
    refine mirror_onReceiver paren receiver fun id => ?_
    have hvalue : (arguments.head?.getD .nil).Mirror S W (arguments'.head?.getD .nil) := by
      cases harguments with
      | nil => exact .nil
      | cons hv _ => exact hv
    exact mirror_onElements id (fun xs => (.nil, xs.push _)) (fun xs => (.nil, xs.push _))
      fun hxs => ⟨.nil, hxs.push hvalue⟩
  | arrayLength =>
    refine mirror_onReceiver paren receiver fun id => .onStore fun hs => ?_
    refine ⟨W, List.prefix_refl W, ?_, hs⟩
    rw [(hs.elements id).size]
    exact .number _
  | arrayPop =>
    refine mirror_onReceiver paren receiver fun id => ?_
    refine mirror_onElements id (fun xs => (xs.back?.getD .nil, xs.pop))
      (fun xs => (xs.back?.getD .nil, xs.pop)) fun hxs => ⟨?_, hxs.pop⟩
    rcases rel_cases hxs.back? with ⟨hnone, hnone'⟩ | ⟨v, v', hsome, hsome', hv⟩
    · rw [hnone, hnone']
      exact .nil
    · rw [hsome, hsome']
      exact hv
  | inputString =>
    refine (mirror_readPrompted paren harguments).bind fun _ line line' heq => ?_
    subst heq
    exact .pure (.string _)
  | inputNumber =>
    refine (mirror_readPrompted paren harguments).bind fun _ line line' heq => ?_
    subst heq
    unfold Builtin.numberOfLine
    simp only
    split
    · exact .pure (.number _)
    · exact .raise _ _

end Operations

/-! ## Classes and calls -/

/-- Flows that mirror each other. -/
inductive Flow.Mirror (S : Site → Prop) (W : Images) : Flow → Flow → Prop
  | normal : Flow.Mirror S W .normal .normal
  | broken : Flow.Mirror S W .broken .broken
  | returned {v v' : Value} (h : v.Mirror S W v') : Flow.Mirror S W (.returned v) (.returned v')

section Classes

variable {S : Site → Prop} {W : Images} {scope scope' : Scope}

lemma mirror_methodTable {Γ : LexicalContext} (hΓ : scope.Mirror W Γ scope')
    {methods : List FunDecl} (hsites : ∀ s ∈ FunDecl.methodSites Γ methods, S s) :
    (methodTable scope methods).Like (Method.Mirror S W) .identity
      (methodTable scope' methods) := by
  refine Bindings.Like.empty.insertAll ?_
  rw [List.forall₂_map_left_iff, List.forall₂_map_right_iff]
  refine List.forall₂_same.mpr fun d hd => ⟨rfl, .declared rfl rfl hΓ fun s hs => ?_⟩
  exact hsites s (FunDecl.mem_methodSites hd hs)

lemma mirror_bindParameters (params : List Token) {arguments arguments' : List Value}
    (harguments : List.Forall₂ (Value.Mirror S W) arguments arguments') :
    (bindParameters params arguments).Like (Value.Mirror S W) .identity
      (bindParameters params arguments') := by
  refine Bindings.Like.empty.insertAll ?_
  induction params generalizing arguments arguments' with
  | nil => exact .nil
  | cons name rest ih =>
    cases harguments with
    | nil => exact .nil
    | cons hv hrest => exact .cons ⟨rfl, hv⟩ (ih hrest)

/-- The last part of a class statement, when it is known in which scopes the methods will be. -/
lemma mirror_nameClass {Γ Δ : LexicalContext} (hΓ : scope.Mirror W Γ scope')
    (hown : scope.IsOwn W) {inner inner' : Scope} (hinner : inner.Mirror W Δ inner')
    (name : Token) {superclass superclass' : Option Class} {methods : List FunDecl}
    (hsuperclass : Option.Rel (Class.Mirror S W) superclass superclass')
    (hsites : ∀ s ∈ FunDecl.methodSites Δ methods, S s) :
    Effect.Mirror S W scope scope'
      (Effect.freshStamp >>= fun stamp => Effect.define name.lexeme (.callable (.cls (.extend
        ⟨stamp, name.lexeme, methodTable inner methods⟩ superclass))))
      (Effect.freshStamp >>= fun stamp => Effect.define name.lexeme (.callable (.cls (.extend
        ⟨stamp, name.lexeme, methodTable inner' methods⟩ superclass')))) fun _ => Eq := by
  refine Effect.Mirror.freshStamp.bind fun {W₁} hW stamp stamp' heq => ?_
  subst heq
  have hmethods := mirror_methodTable (hinner.grow hW) hsites
  have hparent : Option.Rel (Class.Mirror S W₁) superclass superclass' :=
    rel_mono (Class.Mirror.grow hW) hsuperclass
  exact .define (hΓ.grow hW) (hown.grow hW) name.lexeme
    (.callable (.cls (.extend rfl rfl hmethods hparent)))

lemma mirror_defineBase {Γ : LexicalContext} (hΓ : scope.Mirror W Γ scope')
    (hown : scope.IsOwn W) (name : Token) {methods : List FunDecl}
    (hsites : ∀ s ∈ FunDecl.methodSites Γ methods, S s) :
    Effect.Mirror S W scope scope' (defineClass name none methods)
      (defineClass name none methods) fun _ => Eq := by
  refine Effect.Mirror.current.bind fun hW outer outer' hcurrent => ?_
  obtain ⟨rfl, rfl⟩ := hcurrent
  exact mirror_nameClass (hΓ.grow hW) (hown.grow hW) (hΓ.grow hW) name .none hsites

lemma mirror_defineDerived {Γ : LexicalContext} (hΓ : scope.Mirror W Γ scope')
    (hown : scope.IsOwn W) (name : Token) {parent parent' : Class}
    (hparent : parent.Mirror S W parent') {methods : List FunDecl}
    (hsites : ∀ s ∈ FunDecl.methodSites (⟨.parent name methods, ["super"]⟩ :: Γ) methods, S s) :
    Effect.Mirror S W scope scope' (defineClass name (some parent) methods)
      (defineClass name (some parent') methods) fun _ => Eq := by
  refine Effect.Mirror.current.bind fun {W₁} hW outer outer' hcurrent => ?_
  obtain ⟨rfl, rfl⟩ := hcurrent
  have hsuper : (Bindings.empty.insert "super" (.callable (.cls parent))).Like (Value.Mirror S W₁)
      .identity (Bindings.empty.insert "super" (.callable (.cls parent'))) :=
    Bindings.Like.empty.insert "super" (.callable (.cls (hparent.grow hW)))
  refine (Effect.Mirror.addFrame hsuper).bind fun {W₂} hW₂ frame frame' hframe => ?_
  have hlater := hW.trans hW₂
  exact mirror_nameClass (hΓ.grow hlater) (hown.grow hlater) (.own hframe (hΓ.grow hlater)) name
    (.some (hparent.grow hlater)) hsites

lemma mirror_expectClass (token : Token) {v v' : Value} (hv : v.Mirror S W v') :
    Effect.Mirror S W scope scope' (expectClass token v) (expectClass token v')
      (Class.Mirror S) := by
  cases hv with
  | callable hc =>
    cases hc with
    | cls hc => exact .pure hc
    | _ => exact .raise _ _
  | _ => exact .raise _ _

lemma mirror_superMethod {Γ : LexicalContext} {pending : Option String} {ref : RefId}
    {keyword : Token} (method : Token) (hΓ : scope.Mirror W Γ scope')
    (hs : S ⟨⟨.super, ref, keyword⟩, Γ, pending⟩) :
    Effect.Mirror S W scope scope' (superMethod ref keyword method)
      (superMethod ref keyword method) (Value.Mirror S) := by
  refine (Effect.Mirror.distance? hs).bind fun {W₁} hW distance distance' hdistance => ?_
  obtain ⟨rfl, hfound⟩ := hdistance
  cases distance' with
  | none => exact .raise _ _
  | some d =>
    obtain ⟨⟨σ, hσ, hnames⟩, hreceiver⟩ := hfound d rfl
    obtain ⟨τ, hτ, hthisNames⟩ := hreceiver rfl
    refine Effect.Mirror.current.bind fun {W₂} hW₂ current current' hcurrent => ?_
    obtain ⟨rfl, rfl⟩ := hcurrent
    have hΓ₂ := hΓ.grow (hW.trans hW₂)
    refine (Effect.Mirror.readAt hΓ₂ hσ hnames "super").bind
      fun {W₃} hW₃ parent parent' hparent => ?_
    cases hparent with
    | callable hc =>
      cases hc with
      | cls hc =>
        refine (Effect.Mirror.readAt (hΓ₂.grow hW₃) hτ hthisNames "this").bind
          fun {W₄} hW₄ this this' hthis => ?_
        cases hthis with
        | object id =>
          rcases rel_cases ((hc.grow hW₄).lookup? method.lexeme) with
            ⟨hnone, hnone'⟩ | ⟨m, m', hsome, hsome', hm⟩
          · simp only [hnone, hnone']
            exact .raise _ _
          · simp only [hsome, hsome']
            exact (Effect.Mirror.bindMethod hm id).bind fun _ _ _ hbound => .pure (.callable hbound)
        | _ => exact .raise _ _
      | _ => exact .raise _ _
    | _ => exact .raise _ _

lemma mirror_closureResult {c c' : Closure} (hc : c.Mirror S W c') {flow flow' : Flow}
    (hflow : flow.Mirror S W flow') :
    Effect.Mirror S W scope scope' (closureResult c flow) (closureResult c' flow')
      (Value.Mirror S) := by
  unfold closureResult
  obtain ⟨Γ, hΓ, -, hinitializer⟩ := hc.scope
  by_cases h : c.isInitializer = true
  · rw [if_pos h, if_pos (hc.isInitializer.trans h)]
    obtain ⟨σ, hσ, hnames⟩ := hinitializer h
    exact .readAt hΓ hσ hnames "this"
  · rw [if_neg h, if_neg (hc.isInitializer ▸ h)]
    cases hflow with
    | returned hv => exact .pure hv
    | _ => exact .pure .nil

end Classes

/-! ## Runs -/

/-- **A statement may run in a scope**: it declares nothing straight in the frame of a round. -/
def Scope.MayRun (W : Images) (scope : Scope) (s : Stmt) : Prop :=
  scope.IsOwn W ∨ (∃ P, s.Formed P) ∧ s.isDeclaration = false

namespace Scope.MayRun

variable {W W₁ : Images} {scope : Scope} {condition : Expr} {s other : Stmt}

lemma grow (h : scope.MayRun W s) (hW : W <+: W₁) : scope.MayRun W₁ s :=
  h.imp_left fun hown => hown.grow hW

lemma isOwn (h : scope.MayRun W s) (hs : s.isDeclaration = true) : scope.IsOwn W := by
  rcases h with hown | ⟨-, hstatement⟩
  · exact hown
  · cases hs.symm.trans hstatement

lemma onlyBranch (h : scope.MayRun W (.ifThen condition s none)) : scope.MayRun W s :=
  h.imp_right fun ⟨⟨P, _, hs, hstatement⟩, _⟩ => ⟨⟨P, hs⟩, hstatement⟩

lemma thenBranch (h : scope.MayRun W (.ifThen condition s (some other))) : scope.MayRun W s :=
  h.imp_right fun ⟨⟨P, _, ⟨hs, hstatement⟩, _⟩, _⟩ => ⟨⟨P, hs⟩, hstatement⟩

lemma elseBranch (h : scope.MayRun W (.ifThen condition s (some other))) : scope.MayRun W other :=
  h.imp_right fun ⟨⟨P, _, _, hs, hstatement⟩, _⟩ => ⟨⟨P, hs⟩, hstatement⟩

lemma loopBody (h : scope.MayRun W (.whileLoop condition s)) : scope.MayRun W s :=
  h.imp_right fun ⟨⟨P, _, hs, hstatement⟩, _⟩ => ⟨⟨P, hs⟩, hstatement⟩

end Scope.MayRun

lemma Scope.isOwn_cons {W : Images} {id id' : FrameId} (hid : W[id]? = some (.own id'))
    (outer : Scope) : Scope.IsOwn W (id :: outer) := by
  intro other hother
  cases hother
  exact ⟨id', hid⟩

/-- **Runs with a given amount of fuel mirror each other.** -/
structure MirrorAt (S : Site → Prop) (n : Nat) : Prop where
  evaluate : ∀ {W Γ pending e} {scope scope' : Scope}, scope.Mirror W Γ scope' →
    (∀ s ∈ Expr.sites Γ pending e, S s) →
    Effect.Mirror S W scope scope' (evaluate n e) (evaluate n e) (Value.Mirror S)
  evaluateAll : ∀ {W Γ pending es} {scope scope' : Scope}, scope.Mirror W Γ scope' →
    (∀ s ∈ Expr.sitesAll Γ pending es, S s) →
    Effect.Mirror S W scope scope' (evaluateAll n es) (evaluateAll n es)
      fun W₁ => List.Forall₂ (Value.Mirror S W₁)
  invoke : ∀ {W v v' arguments arguments'} {scope scope' : Scope} paren, Value.Mirror S W v v' →
    List.Forall₂ (Value.Mirror S W) arguments arguments' →
    Effect.Mirror S W scope scope' (invoke n v arguments paren) (invoke n v' arguments' paren)
      (Value.Mirror S)
  call : ∀ {W c c' arguments arguments'} {scope scope' : Scope} paren, Callable.Mirror S W c c' →
    List.Forall₂ (Value.Mirror S W) arguments arguments' →
    Effect.Mirror S W scope scope' (call n c arguments paren) (call n c' arguments' paren)
      (Value.Mirror S)
  execute : ∀ {W Γ s} {scope scope' : Scope}, scope.Mirror W Γ scope' →
    (∀ site ∈ Stmt.sites Γ s, S site) → scope.MayRun W s →
    Effect.Mirror S W scope scope' (execute n s) (execute n s) (Flow.Mirror S)
  executeAll : ∀ {W Γ body} {scope scope' : Scope}, scope.Mirror W Γ scope' →
    (∀ site ∈ Stmt.sitesAll Γ body, S site) → scope.IsOwn W →
    Effect.Mirror S W scope scope' (executeAll n body) (executeAll n body) (Flow.Mirror S)
  repeatWhile : ∀ {W Γ condition body} {scope scope' : Scope}, scope.Mirror W Γ scope' →
    (∀ site ∈ Expr.sites Γ none condition, S site) → (∀ site ∈ Stmt.sites Γ body, S site) →
    scope.MayRun W body →
    Effect.Mirror S W scope scope' (repeatWhile n condition body) (repeatWhile n condition body)
      (Flow.Mirror S)

namespace MirrorAt

variable {S : Site → Prop} {n : Nat} {W : Images} {Γ : LexicalContext} {scope scope' : Scope}
  {pending : Option String}

lemma succ_evaluate (h : MirrorAt S n) {e : Expr} (hΓ : scope.Mirror W Γ scope')
    (hsites : ∀ s ∈ e.sites Γ pending, S s) :
    Effect.Mirror S W scope scope' (LoxLang.evaluate (n + 1) e) (LoxLang.evaluate (n + 1) e)
      (Value.Mirror S) := by
  cases e with
  | literal value => exact .pure (.ofLiteral value)
  | grouping inner => exact h.evaluate hΓ hsites
  | unary operator right =>
    have hright : ∀ s ∈ right.sites Γ pending, S s := hsites
    exact (h.evaluate hΓ hright).bind fun _ _ _ hv => mirror_applyUnary operator hv
  | binary left operator right =>
    obtain ⟨hleft, hright⟩ := List.forall_mem_append.mp hsites
    refine (h.evaluate hΓ hleft).bind fun hW _ _ ha => ?_
    refine (h.evaluate (hΓ.grow hW) hright).bind fun hW₁ _ _ hb => ?_
    exact mirror_applyBinary operator (ha.grow hW₁) hb
  | logical left operator right =>
    obtain ⟨hleft, hright⟩ := List.forall_mem_append.mp hsites
    refine (h.evaluate hΓ hleft).bind fun hW _ _ ha => ?_
    refine .ite ?_ (.pure ha) (h.evaluate (hΓ.grow hW) hright)
    rw [isDecided, isDecided, ha.isTruthy]
  | «variable» ref name => exact .readRef hΓ (List.forall_mem_singleton.mp hsites)
  | this ref keyword => exact .readRef hΓ (List.forall_mem_singleton.mp hsites)
  | assign ref name value =>
    obtain ⟨hvalue, htarget⟩ := List.forall_mem_append.mp hsites
    refine (h.evaluate hΓ hvalue).bind fun hW _ _ hv => ?_
    refine (Effect.Mirror.writeRef (hΓ.grow hW) (List.forall_mem_singleton.mp htarget) hv).bind
      fun hW₁ _ _ _ => .pure (hv.grow hW₁)
  | call callee paren arguments =>
    obtain ⟨hcallee, harguments⟩ := List.forall_mem_append.mp hsites
    refine (h.evaluate hΓ hcallee).bind fun hW _ _ hc => ?_
    refine (h.evaluateAll (hΓ.grow hW) harguments).bind fun hW₁ _ _ hvalues => ?_
    exact h.invoke paren (hc.grow hW₁) hvalues
  | get object name =>
    have hobject : ∀ s ∈ object.sites Γ pending, S s := hsites
    refine (h.evaluate hΓ hobject).bind fun _ _ _ hv => ?_
    cases hv with
    | object id => exact .property id name
    | _ => exact .raise _ _
  | set object name value =>
    obtain ⟨hvalue, hobject⟩ := List.forall_mem_append.mp hsites
    refine (h.evaluate hΓ hobject).bind fun hW _ _ ho => ?_
    cases ho with
    | object id =>
      refine (h.evaluate (hΓ.grow hW) hvalue).bind fun _ _ _ hv => ?_
      exact (Effect.Mirror.setField id name.lexeme hv).bind fun hW₂ _ _ _ => .pure (hv.grow hW₂)
    | _ => exact .raise _ _
  | super ref keyword method =>
    exact mirror_superMethod method hΓ (List.forall_mem_singleton.mp hsites)

lemma succ_evaluateAll (h : MirrorAt S n) {es : List Expr} (hΓ : scope.Mirror W Γ scope')
    (hsites : ∀ s ∈ Expr.sitesAll Γ pending es, S s) :
    Effect.Mirror S W scope scope' (LoxLang.evaluateAll (n + 1) es)
      (LoxLang.evaluateAll (n + 1) es) fun W₁ => List.Forall₂ (Value.Mirror S W₁) := by
  cases es with
  | nil => exact .pure .nil
  | cons e rest =>
    obtain ⟨hfirst, hrest⟩ := List.forall_mem_append.mp hsites
    refine (h.evaluate hΓ hfirst).bind fun hW _ _ hv => ?_
    refine (h.evaluateAll (hΓ.grow hW) hrest).bind fun hW₁ _ _ hothers => ?_
    exact .pure (.cons (hv.grow hW₁) hothers)

lemma succ_invoke (h : MirrorAt S n) {v v' : Value} {arguments arguments' : List Value}
    (paren : Token) (hv : v.Mirror S W v')
    (harguments : List.Forall₂ (Value.Mirror S W) arguments arguments') :
    Effect.Mirror S W scope scope' (LoxLang.invoke (n + 1) v arguments paren)
      (LoxLang.invoke (n + 1) v' arguments' paren) (Value.Mirror S) := by
  cases hv with
  | callable hc =>
    simp only [LoxLang.invoke, hc.arity, ← harguments.length_eq]
    refine .ite Iff.rfl (.raise _ _) ?_
    refine Effect.Mirror.isAtLimit.bind fun hW full full' heq => ?_
    subst heq
    refine .ite Iff.rfl (.raise _ _) (.deeper ?_)
    exact h.call paren (hc.grow hW) (Value.Mirror.growAll hW harguments)
  | _ => exact .raise _ _

lemma succ_call (h : MirrorAt S n) {c c' : Callable} {arguments arguments' : List Value}
    (paren : Token) (hc : c.Mirror S W c')
    (harguments : List.Forall₂ (Value.Mirror S W) arguments arguments') :
    Effect.Mirror S W scope scope' (LoxLang.call (n + 1) c arguments paren)
      (LoxLang.call (n + 1) c' arguments' paren) (Value.Mirror S) := by
  cases hc with
  | builtin stamp b receiver => exact mirror_callBuiltin b receiver harguments paren
  | @function stamp c c' hc =>
    obtain ⟨Γ, hΓ, hsites, -⟩ := hc.scope
    rw [FunDecl.sites_eq] at hsites
    simp only [LoxLang.call, hc.decl]
    refine (Effect.Mirror.addFrame (mirror_bindParameters c.decl.params harguments)).bind
      fun hW frame frame' hframe => ?_
    have hrun := h.executeAll (.own hframe (hΓ.grow hW)) hsites (Scope.isOwn_cons hframe c.scope)
    exact hrun.within.bind fun hW₁ _ _ hflow =>
      mirror_closureResult (hc.grow (hW.trans hW₁)) hflow
  | @cls c c' hc =>
    refine (Effect.Mirror.addInstance hc).bind fun hW id id' heq => ?_
    subst heq
    rcases rel_cases ((hc.grow hW).lookup? initializerName) with
      ⟨hnone, hnone'⟩ | ⟨m, m', hsome, hsome', hm⟩
    · simp only [hnone, hnone']
      exact .pure (.object id)
    · simp only [hsome, hsome']
      refine (Effect.Mirror.bindMethod hm id).bind fun hW₁ _ _ hinitializer => ?_
      have hvalues := Value.Mirror.growAll (hW.trans hW₁) harguments
      exact (h.call paren hinitializer hvalues).bind fun _ _ _ _ => .pure (.object id)

lemma succ_execute (h : MirrorAt S n) {s : Stmt} (hΓ : scope.Mirror W Γ scope')
    (hsites : ∀ site ∈ s.sites Γ, S site) (hrun : scope.MayRun W s) :
    Effect.Mirror S W scope scope' (LoxLang.execute (n + 1) s) (LoxLang.execute (n + 1) s)
      (Flow.Mirror S) := by
  cases s with
  | expression e => exact (h.evaluate hΓ hsites).bind fun _ _ _ _ => .pure .normal
  | print e =>
    refine (h.evaluate hΓ hsites).bind fun _ _ _ hv => ?_
    refine (Effect.Mirror.text hv).bind fun _ line line' heq => ?_
    subst heq
    exact (Effect.Mirror.write _).bind fun _ _ _ _ => .pure .normal
  | var name value =>
    have hown := hrun.isOwn rfl
    cases value with
    | none =>
      exact (Effect.Mirror.define hΓ hown name.lexeme .nil).bind fun _ _ _ _ => .pure .normal
    | some e =>
      refine (h.evaluate (hΓ.declare hown name) hsites).bind fun hW _ _ hv => ?_
      exact (Effect.Mirror.define (hΓ.grow hW) (hown.grow hW) name.lexeme hv).bind
        fun _ _ _ _ => .pure .normal
  | block body =>
    refine (Effect.Mirror.addFrame .empty).bind fun hW frame frame' hframe => ?_
    refine Effect.Mirror.current.bind fun hW₁ outer outer' hcurrent => ?_
    obtain ⟨rfl, rfl⟩ := hcurrent
    have hnew := Images.grow hW₁ hframe
    have hinside := hΓ.grow (hW.trans hW₁)
    exact .within (h.executeAll (.own hnew hinside) hsites (Scope.isOwn_cons hnew _))
  | ifThen condition thenBranch elseBranch =>
    cases elseBranch with
    | none =>
      obtain ⟨hcondition, hthen⟩ := List.forall_mem_append.mp hsites
      refine (h.evaluate hΓ hcondition).bind fun hW _ _ hv => ?_
      refine .ite (by rw [hv.isTruthy]) ?_ (.pure .normal)
      exact h.execute (hΓ.grow hW) hthen (hrun.onlyBranch.grow hW)
    | some other =>
      obtain ⟨hfirst, helse⟩ := List.forall_mem_append.mp hsites
      obtain ⟨hcondition, hthen⟩ := List.forall_mem_append.mp hfirst
      refine (h.evaluate hΓ hcondition).bind fun hW _ _ hv => ?_
      refine .ite (by rw [hv.isTruthy]) ?_ ?_
      · exact h.execute (hΓ.grow hW) hthen (hrun.thenBranch.grow hW)
      · exact h.execute (hΓ.grow hW) helse (hrun.elseBranch.grow hW)
  | whileLoop condition body =>
    obtain ⟨hcondition, hbody⟩ := List.forall_mem_append.mp hsites
    exact h.repeatWhile hΓ hcondition hbody hrun.loopBody
  | breakLoop keyword => exact .pure .broken
  | returnValue keyword value =>
    cases value with
    | none => exact .pure (.returned .nil)
    | some e => exact (h.evaluate hΓ hsites).bind fun _ _ _ hv => .pure (.returned hv)
  | function decl =>
    have hown := hrun.isOwn rfl
    refine Effect.Mirror.freshStamp.bind fun hW stamp stamp' heq => ?_
    subst heq
    refine Effect.Mirror.current.bind fun {W₁} hW₁ current current' hcurrent => ?_
    obtain ⟨rfl, rfl⟩ := hcurrent
    have hlater := hW.trans hW₁
    have hclosure : Closure.Mirror S W₁ ⟨decl, current, false⟩ ⟨decl, current', false⟩ :=
      ⟨rfl, rfl, _, (hΓ.declare hown decl.name).grow hlater, hsites, fun h => by cases h⟩
    exact (Effect.Mirror.define (hΓ.grow hlater) (hown.grow hlater) decl.name.lexeme
      (.callable (.function stamp hclosure))).bind fun _ _ _ _ => .pure .normal
  | classDecl name superclass methods =>
    have hown := hrun.isOwn rfl
    cases superclass with
    | none =>
      refine (Effect.Mirror.define hΓ hown name.lexeme .nil).bind fun hW _ _ _ => ?_
      exact (mirror_defineBase ((hΓ.declare hown name).grow hW) (hown.grow hW) name hsites).bind
        fun _ _ _ _ => .pure .normal
    | some e =>
      obtain ⟨hsuperclass, hmethods⟩ := List.forall_mem_append.mp hsites
      have hinside := hΓ.declare hown name
      refine (Effect.Mirror.define hΓ hown name.lexeme .nil).bind fun hW _ _ _ => ?_
      refine (h.evaluate (hinside.grow hW) hsuperclass).bind fun hW₁ _ _ hv => ?_
      refine (mirror_expectClass (superclassToken e name) hv).bind fun hW₂ _ _ hparent => ?_
      have hlater := hW.trans (hW₁.trans hW₂)
      exact (mirror_defineDerived (hinside.grow hlater) (hown.grow hlater) name hparent
        hmethods).bind fun _ _ _ _ => .pure .normal

lemma succ_executeAll (h : MirrorAt S n) {body : List Stmt} (hΓ : scope.Mirror W Γ scope')
    (hsites : ∀ site ∈ Stmt.sitesAll Γ body, S site) (hown : scope.IsOwn W) :
    Effect.Mirror S W scope scope' (LoxLang.executeAll (n + 1) body)
      (LoxLang.executeAll (n + 1) body) (Flow.Mirror S) := by
  cases body with
  | nil => exact .pure .normal
  | cons s rest =>
    obtain ⟨hfirst, hrest⟩ := List.forall_mem_append.mp hsites
    refine (h.execute hΓ hfirst (.inl hown)).bind fun hW _ _ hflow => ?_
    cases hflow with
    | normal => exact h.executeAll ((hΓ.after hown s).grow hW) hrest (hown.grow hW)
    | broken => exact .pure .broken
    | returned hv => exact .pure (.returned hv)

lemma succ_repeatWhile (h : MirrorAt S n) {condition : Expr} {body : Stmt}
    (hΓ : scope.Mirror W Γ scope') (hcondition : ∀ site ∈ condition.sites Γ none, S site)
    (hbody : ∀ site ∈ body.sites Γ, S site) (hrun : scope.MayRun W body) :
    Effect.Mirror S W scope scope' (LoxLang.repeatWhile (n + 1) condition body)
      (LoxLang.repeatWhile (n + 1) condition body) (Flow.Mirror S) := by
  refine (h.evaluate hΓ hcondition).bind fun hW _ _ hv => ?_
  refine .ite (by rw [hv.isTruthy]) ?_ (.pure .normal)
  refine (h.execute (hΓ.grow hW) hbody (hrun.grow hW)).bind fun hW₁ _ _ hflow => ?_
  have hlater := hW.trans hW₁
  cases hflow with
  | normal => exact h.repeatWhile (hΓ.grow hlater) hcondition hbody (hrun.grow hlater)
  | broken => exact .pure .normal
  | returned hv => exact .pure (.returned hv)

end MirrorAt

/-- Runs mirror each other, whatever fuel they have. -/
lemma mirrorAt (S : Site → Prop) (n : Nat) : MirrorAt S n := by
  induction n with
  | zero => refine ⟨?_, ?_, ?_, ?_, ?_, ?_, ?_⟩ <;> intros <;> exact .exhausted
  | succ n ih =>
    exact ⟨fun hΓ hsites => ih.succ_evaluate hΓ hsites,
      fun hΓ hsites => ih.succ_evaluateAll hΓ hsites,
      fun paren hv harguments => ih.succ_invoke paren hv harguments,
      fun paren hc harguments => ih.succ_call paren hc harguments,
      fun hΓ hsites hrun => ih.succ_execute hΓ hsites hrun,
      fun hΓ hsites hown => ih.succ_executeAll hΓ hsites hown,
      fun hΓ hcondition hbody hrun => ih.succ_repeatWhile hΓ hcondition hbody hrun⟩

end LoxLang
