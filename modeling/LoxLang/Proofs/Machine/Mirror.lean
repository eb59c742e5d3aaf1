import LoxLang.Machine.Builtin
import LoxLang.Proofs.Machine.Likeness
import LoxLang.Proofs.Scope.Lexical

/-!
# Machines without the frames of rounds

A round of a loop may run in a frame that was made for it, or straight in the frame of the loop.
Two machines that differ in nothing else mirror each other: every frame of the one has an *image* on
the other, which is a frame of its own, or for the frame of a round the frame of the loop.  Values,
instances and the rest correspond one by one, and closures differ only in the frames of their
scopes.

What keeps the two machines together is that no reference leads to the frame of a round: its scope
in the text declares nothing, and a recorded distance leads to a scope that declares the name
(`Site.Resolved`).  So chains of frames are always compared along with the scopes around a place in
the text (`Scope.Mirror`).
-/

namespace LoxLang

/-! ## Images of frames -/

/-- What a frame of the one machine is on the other. -/
inductive Image where
  /-- A frame of its own. -/
  | own (id : FrameId)
  /-- The frame was made for a round.  The frame of the loop stands for it. -/
  | round (loop : FrameId)

/-- The images of all frames, in order. -/
abbrev Images := List Image

lemma Images.grow {W W₁ : Images} (hW : W <+: W₁) {id : FrameId} {x : Image}
    (h : W[id]? = some x) : W₁[id]? = some x := by
  obtain ⟨later, rfl⟩ := hW
  rw [List.getElem?_append_left (List.getElem?_eq_some_iff.mp h).1]
  exact h

/-- **Chains that mirror each other** at a place in the text.  The frame of a round is where the
text has a scope without names, and its image is the frame that comes next. -/
inductive Scope.Mirror (W : Images) : LexicalContext → Scope → Scope → Prop
  | globals : Scope.Mirror W [] globalScope globalScope
  | own {σ : LexicalScope} {Γ : LexicalContext} {id id' : FrameId} {outer outer' : Scope}
      (hid : W[id]? = some (.own id')) (h : Scope.Mirror W Γ outer outer') :
      Scope.Mirror W (σ :: Γ) (id :: outer) (id' :: outer')
  | round {σ : LexicalScope} {Γ : LexicalContext} {id id' : FrameId} {outer outer' : Scope}
      (hid : W[id]? = some (.round id')) (hσ : σ.names = []) (h : Scope.Mirror W Γ outer outer') :
      Scope.Mirror W (σ :: Γ) (id :: outer) (id' :: outer')

/-- The innermost frame of a chain was not made for a round. -/
def Scope.IsOwn (W : Images) (scope : Scope) : Prop :=
  ∀ id ∈ scope.head?, ∃ id', W[id]? = some (.own id')

namespace Scope.Mirror

variable {W W₁ : Images} {Γ : LexicalContext} {scope scope' : Scope}

lemma grow (h : Scope.Mirror W Γ scope scope') (hW : W <+: W₁) :
    Scope.Mirror W₁ Γ scope scope' := by
  induction h with
  | globals => exact .globals
  | own hid _ ih => exact .own (Images.grow hW hid) ih
  | round hid hσ _ ih => exact .round (Images.grow hW hid) hσ ih

/-- Where a scope has names there is no frame of a round. -/
lemma exists_own (h : Scope.Mirror W Γ scope scope') {d : Nat} {σ : LexicalScope}
    (hσ : Γ[d]? = some σ) (hnames : σ.names ≠ []) :
    ∃ id id', scope[d]? = some id ∧ scope'[d]? = some id' ∧ W[id]? = some (.own id') := by
  induction h generalizing d with
  | globals => simp at hσ
  | own hid _ ih =>
    cases d with
    | zero => exact ⟨_, _, rfl, rfl, hid⟩
    | succ d => exact ih hσ
  | round hid hempty _ ih =>
    cases d with
    | zero =>
      cases hσ
      exact absurd hempty hnames
    | succ d => exact ih hσ

/-- In a frame that was not made for a round anything may be declared. -/
lemma rename {σ τ : LexicalScope} (h : Scope.Mirror W (σ :: Γ) scope scope')
    (hown : scope.IsOwn W) : Scope.Mirror W (τ :: Γ) scope scope' := by
  cases h with
  | own hid h => exact .own hid h
  | round hid _ _ =>
    obtain ⟨id', hother⟩ := hown _ rfl
    cases hid.symm.trans hother

lemma declare (h : Scope.Mirror W Γ scope scope') (hown : scope.IsOwn W) (name : Token) :
    Scope.Mirror W (Γ.declare name) scope scope' := by
  cases Γ with
  | nil => exact h
  | cons σ Γ => exact h.rename hown

lemma after (h : Scope.Mirror W Γ scope scope') (hown : scope.IsOwn W) (s : Stmt) :
    Scope.Mirror W (s.after Γ) scope scope' := by
  cases s with
  | var name | classDecl name => exact h.declare hown name
  | function decl => exact h.declare hown decl.name
  | _ => exact h

lemma length_eq (h : Scope.Mirror W Γ scope scope') : scope'.length = scope.length := by
  induction h with
  | globals => rfl
  | own _ _ ih | round _ _ _ ih => exact congrArg (· + 1) ih

end Scope.Mirror

lemma Scope.IsOwn.grow {W W₁ : Images} {scope : Scope} (h : scope.IsOwn W) (hW : W <+: W₁) :
    scope.IsOwn W₁ := by
  intro id hid
  obtain ⟨id', hown⟩ := h id hid
  exact ⟨id', Images.grow hW hown⟩

/-! ## What a distance leads to -/

/-- **The distance of a reference is recorded as the text has it**: it leads to the visible
declaration.  For `super` there is a `this` in the scope inside of that. -/
structure Site.Resolved (distances : Distances) (s : Site) : Prop where
  distance : distances.find? s.reference.ref = s.visible?
  receiver : s.reference.use = .super → ∀ d, s.visible? = some d →
    ∃ σ, s.scopes[d - 1]? = some σ ∧ σ.names ≠ []

/-- A visible declaration is in a scope that has names. -/
lemma Site.exists_named {s : Site} {d : Nat} (h : s.visible? = some d) :
    ∃ σ, s.scopes[d]? = some σ ∧ σ.names ≠ [] := by
  have hfound : ∀ {Γ : LexicalContext} {k : Nat}, Γ.findIdx? (·.declares s.name) = some k →
      ∃ σ, Γ[k]? = some σ ∧ σ.names ≠ [] := by
    intro Γ k hk
    obtain ⟨hlt, hdeclares, -⟩ := List.findIdx?_eq_some_iff_getElem.mp hk
    refine ⟨Γ[k], List.getElem?_eq_getElem hlt, fun hempty => ?_⟩
    simp [LexicalScope.declares, hempty] at hdeclares
  unfold visible? at h
  by_cases hown : s.isOwnRead = true
  · rw [if_pos hown, Option.map_eq_some_iff] at h
    obtain ⟨k, hk, rfl⟩ := h
    obtain ⟨σ, hσ, hnames⟩ := hfound hk
    exact ⟨σ, by rwa [List.getElem?_tail] at hσ, hnames⟩
  · rw [if_neg hown] at h
    exact hfound h

/-! ## Values -/

section Values

variable (S : Site → Prop) (W : Images)

/-- Closures of one declaration, in chains that mirror each other at its place. -/
structure Closure.Mirror (c c' : Closure) : Prop where
  decl : c'.decl = c.decl
  isInitializer : c'.isInitializer = c.isInitializer
  scope : ∃ Γ, c.scope.Mirror W Γ c'.scope ∧ (∀ s ∈ c.decl.sites Γ, S s) ∧
    (c.isInitializer = true → ∃ σ, Γ[0]? = some σ ∧ σ.names ≠ [])

/-- Methods will run in the chain of their class, with a frame for an instance inside it. -/
inductive Method.Mirror : Method → Method → Prop
  | declared {c c' : Closure} {Γ : LexicalContext} (hdecl : c'.decl = c.decl)
      (hinitializer : c'.isInitializer = c.isInitializer) (hscope : c.scope.Mirror W Γ c'.scope)
      (hsites : ∀ s ∈ c.decl.sites (c.decl.receiverScope :: Γ), S s) :
      Method.Mirror (.declared c) (.declared c')
  | builtin (b : Builtin) : Method.Mirror (.builtin b) (.builtin b)

/-- Classes that are the same but for the frames of their methods. -/
structure Class.Mirror (c c' : Class) : Prop where
  stamp : c'.own.stamp = c.own.stamp
  name : c'.name = c.name
  lookup? : ∀ method, Option.Rel (Method.Mirror S W) (c.lookup? method) (c'.lookup? method)

inductive Callable.Mirror : Callable → Callable → Prop
  | builtin (stamp : Stamp) (b : Builtin) (receiver : Option InstanceId) :
      Callable.Mirror (.builtin stamp b receiver) (.builtin stamp b receiver)
  | function (stamp : Stamp) {c c' : Closure} (h : c.Mirror S W c') :
      Callable.Mirror (.function stamp c) (.function stamp c')
  | cls {c c' : Class} (h : c.Mirror S W c') : Callable.Mirror (.cls c) (.cls c')

/-- **Values that mirror each other**: the same constant or instance, or callables that differ only
in frames. -/
inductive Value.Mirror : Value → Value → Prop
  | nil : Value.Mirror .nil .nil
  | bool (b : Bool) : Value.Mirror (.bool b) (.bool b)
  | number (x : Float) : Value.Mirror (.number x) (.number x)
  | string (s : String) : Value.Mirror (.string s) (.string s)
  | callable {c c' : Callable} (h : c.Mirror S W c') : Value.Mirror (.callable c) (.callable c')
  | object (id : InstanceId) : Value.Mirror (.object id) (.object id)

structure Instance.Mirror (i i' : Instance) : Prop where
  cls : i.cls.Mirror S W i'.cls
  fields : i.fields.Like (Value.Mirror S W) .identity i'.fields
  elements : ArrayLike (Value.Mirror S W) i.elements i'.elements

/-- Stores that mirror each other.  Frames with an image of their own correspond one to one; what is
in the frame of a round does not matter. -/
structure Store.Mirror (s s' : Store) : Prop where
  size : s.frames.size = W.length
  frame : ∀ {id id' : FrameId}, W[id]? = some (.own id') →
    (s.frame id).Like (Value.Mirror S W) .identity (s'.frame id')
  below : ∀ {id id' : FrameId}, W[id]? = some (.own id') → id' < s'.frames.size
  apart : ∀ {i j id' : FrameId}, W[i]? = some (.own id') → W[j]? = some (.own id') → i = j
  instances : ArrayLike (Instance.Mirror S W) s.instances s'.instances
  nextStamp : s'.nextStamp = s.nextStamp
  opened : W[globalFrame]? = some (.own globalFrame)

/-- **Machines that mirror each other.**  The distances that both have are those of the text. -/
structure Machine.Mirror (m m' : Machine) : Prop where
  store : m.store.Mirror S W m'.store
  depth : m'.depth = m.depth
  limit : m'.limit = m.limit
  distances : m'.distances = m.distances
  resolved : ∀ s, S s → s.Resolved m.distances
  console : m'.console = m.console
  clock : m'.clock = m.clock

end Values

/-! ### More frames -/

section Grow

variable {S : Site → Prop} {W W₁ : Images} (hW : W <+: W₁)

include hW

lemma Closure.Mirror.grow {c c' : Closure} (h : c.Mirror S W c') : c.Mirror S W₁ c' := by
  obtain ⟨Γ, hscope, hsites, hinitializer⟩ := h.scope
  exact ⟨h.decl, h.isInitializer, Γ, hscope.grow hW, hsites, hinitializer⟩

lemma Method.Mirror.grow {m m' : Method} (h : m.Mirror S W m') : m.Mirror S W₁ m' := by
  cases h with
  | declared hdecl hinitializer hscope hsites =>
    exact .declared hdecl hinitializer (hscope.grow hW) hsites
  | builtin b => exact .builtin b

lemma Class.Mirror.grow {c c' : Class} (h : c.Mirror S W c') : c.Mirror S W₁ c' :=
  ⟨h.stamp, h.name, fun method => rel_mono (Method.Mirror.grow hW) (h.lookup? method)⟩

lemma Callable.Mirror.grow {c c' : Callable} (h : c.Mirror S W c') : c.Mirror S W₁ c' := by
  cases h with
  | builtin stamp b receiver => exact .builtin stamp b receiver
  | function stamp h => exact .function stamp (h.grow hW)
  | cls h => exact .cls (h.grow hW)

lemma Value.Mirror.grow {v v' : Value} (h : v.Mirror S W v') : v.Mirror S W₁ v' := by
  cases h with
  | callable h => exact .callable (h.grow hW)
  | nil => exact .nil
  | bool b => exact .bool b
  | number x => exact .number x
  | string s => exact .string s
  | object id => exact .object id

lemma Value.Mirror.growAll {vs vs' : List Value} (h : List.Forall₂ (Value.Mirror S W) vs vs') :
    List.Forall₂ (Value.Mirror S W₁) vs vs' := h.imp fun _ _ hv => hv.grow hW

lemma Instance.Mirror.grow {i i' : Instance} (h : i.Mirror S W i') : i.Mirror S W₁ i' :=
  ⟨h.cls.grow hW, h.fields.mono (Value.Mirror.grow hW), h.elements.mono (Value.Mirror.grow hW)⟩

end Grow

/-! ### What cannot be told apart -/

section Same

variable {S : Site → Prop} {W : Images} {v v' w w' : Value} {c c' : Class}

lemma Method.Mirror.arity {m m' : Method} (h : m.Mirror S W m') : m'.arity = m.arity := by
  cases h with
  | declared hdecl => simp only [Method.arity, hdecl]
  | builtin => rfl

namespace Class.Mirror

lemma arity (h : c.Mirror S W c') : c'.arity = c.arity := by
  unfold Class.arity
  rcases rel_cases (h.lookup? initializerName) with ⟨hnone, hnone'⟩ | ⟨m, m', hsome, hsome', hm⟩
  · rw [hnone, hnone']
  · rw [hsome, hsome']
    exact hm.arity

lemma extend {own own' : ClassLayer} {superclass superclass' : Option Class}
    (hstamp : own'.stamp = own.stamp) (hname : own'.name = own.name)
    (hmethods : own.methods.Like (Method.Mirror S W) .identity own'.methods)
    (hsuperclass : Option.Rel (Class.Mirror S W) superclass superclass') :
    (Class.extend own superclass).Mirror S W (Class.extend own' superclass') := by
  refine ⟨hstamp, hname, fun method => ?_⟩
  rw [Class.lookup?_extend, Class.lookup?_extend]
  rcases rel_cases (hmethods method) with ⟨hnone, hnone'⟩ | ⟨m, m', hsome, hsome', hm⟩
  · rw [Renaming.identity_apply] at hnone'
    rw [hnone, hnone']
    cases hsuperclass with
    | none => exact .none
    | some h => exact h.lookup? method
  · rw [Renaming.identity_apply] at hsome'
    rw [hsome, hsome']
    exact .some hm

end Class.Mirror

lemma Callable.Mirror.arity {c c' : Callable} (h : c.Mirror S W c') : c'.arity = c.arity := by
  cases h with
  | builtin => rfl
  | function _ h => simp only [Callable.arity, h.decl]
  | cls h => exact h.arity

lemma Callable.Mirror.same {c c' d d' : Callable} (hc : c.Mirror S W c') (hd : d.Mirror S W d') :
    c'.same d' = c.same d := by
  cases hc <;> cases hd <;> try rfl
  next hc _ _ hd => simp only [Callable.same, hc.stamp, hd.stamp]

namespace Value.Mirror

lemma isTruthy (h : v.Mirror S W v') : v'.isTruthy = v.isTruthy := by
  cases h <;> rfl

lemma same (hv : v.Mirror S W v') (hw : w.Mirror S W w') : v'.same w' = v.same w := by
  cases hv <;> cases hw <;> try rfl
  next hc _ _ hd => exact hc.same hd

lemma ofLiteral (value : Literal) :
    (Value.ofLiteral value).Mirror S W (Value.ofLiteral value) := by
  cases value with
  | nil => exact .nil
  | bool b => exact .bool b
  | number x => exact .number x
  | string s => exact .string s

end Value.Mirror

end Same

/-! ## Stores -/

namespace Store.Mirror

variable {S : Site → Prop} {W : Images} {s s' : Store} {v v' : Value}

lemma lookup?_global (h : s.Mirror S W s') (name : String) :
    Option.Rel (Value.Mirror S W) (s.lookup? name globalScope) (s'.lookup? name globalScope) := by
  have hframe := h.frame h.opened name
  simp only [globalScope, Store.lookup?]
  rcases rel_cases hframe with ⟨hnone, hnone'⟩ | ⟨v, v', hsome, hsome', hv⟩
  · rw [Renaming.identity_apply] at hnone'
    rw [hnone, hnone']
    exact .none
  · rw [Renaming.identity_apply] at hsome'
    rw [hsome, hsome']
    exact .some hv

/-- A name is bound in a frame if it is bound in the image. -/
lemma contains (h : s.Mirror S W s') {id id' : FrameId} (hid : W[id]? = some (.own id'))
    (name : String) : (s'.frame id').contains name = (s.frame id).contains name := by
  have hframe := (h.frame hid).contains name
  rwa [Renaming.identity_apply] at hframe

lemma bindIn (h : s.Mirror S W s') {id id' : FrameId} (hid : W[id]? = some (.own id'))
    (name : String) (hv : v.Mirror S W v') :
    (s.bindIn id name v).Mirror S W (s'.bindIn id' name v') where
  size := by
    simp only [Store.bindIn, Array.size_modify]
    exact h.size
  frame {other other'} hother := by
    have hlt : id < s.frames.size := h.size ▸ (List.getElem?_eq_some_iff.mp hid).1
    by_cases heq : other = id
    · subst heq
      cases hother.symm.trans hid
      rw [Store.frame_bindIn_self _ hlt, Store.frame_bindIn_self _ (h.below hid)]
      have hinsert := (h.frame hid).insert name hv
      rwa [Renaming.identity_apply] at hinsert
    · -- Only one frame has this image, so the other one has another.
      have hother' : other' ≠ id' := fun hsame => heq (h.apart hother (hsame ▸ hid))
      rw [Store.frame_bindIn_of_ne _ heq, Store.frame_bindIn_of_ne _ hother']
      exact h.frame hother
  below hother := by
    simp only [Store.bindIn, Array.size_modify]
    exact h.below hother
  apart := h.apart
  instances := h.instances
  nextStamp := h.nextStamp
  opened := h.opened

lemma addInstance (h : s.Mirror S W s') {c c' : Class} (hc : c.Mirror S W c') :
    (s.addInstance c).2.Mirror S W (s'.addInstance c').2 :=
  ⟨h.size, h.frame, h.below, h.apart, h.instances.push ⟨hc, .empty, .empty⟩, h.nextStamp,
    h.opened⟩

lemma freshStamp (h : s.Mirror S W s') : s.freshStamp.2.Mirror S W s'.freshStamp.2 :=
  ⟨h.size, h.frame, h.below, h.apart, h.instances, congrArg (· + 1) h.nextStamp, h.opened⟩

/-- Instances change alike. -/
lemma modifyInstance (h : s.Mirror S W s') (id : InstanceId) {f f' : Instance → Instance}
    (hf : ∀ {i i'}, Instance.Mirror S W i i' → (f i).Mirror S W (f' i')) :
    Store.Mirror S W { s with instances := s.instances.modify id f }
      { s' with instances := s'.instances.modify id f' } :=
  ⟨h.size, h.frame, h.below, h.apart, h.instances.modify id hf, h.nextStamp, h.opened⟩

/-! ### New frames -/

/-- A frame is the last one or one of those before. -/
lemma image_cases {x y : Image} {id : FrameId} (h : (W ++ [x])[id]? = some y) :
    (id < W.length ∧ W[id]? = some y) ∨ (id = W.length ∧ y = x) := by
  by_cases hlt : id < W.length
  · rw [List.getElem?_append_left hlt] at h
    exact .inl ⟨hlt, h⟩
  · obtain ⟨hlast, hlater⟩ := List.getElem?_eq_some_iff.mp h
    have hnext : id < W.length + 1 := by simpa using hlast
    obtain rfl : id = W.length := Nat.eq_of_lt_succ_of_not_lt hnext hlt
    rw [List.getElem_concat_length rfl] at hlater
    exact .inr ⟨rfl, hlater.symm⟩

/-- A new frame on both machines. -/
lemma addFrame (h : s.Mirror S W s') {b b' : Bindings Value}
    (hb : b.Like (Value.Mirror S W) .identity b') :
    (s.addFrame b).2.Mirror S (W ++ [.own s'.frames.size]) (s'.addFrame b').2 := by
  have hW : W <+: W ++ [.own s'.frames.size] := List.prefix_append W _
  refine ⟨by simp [Store.addFrame, h.size], ?_, ?_, ?_,
    h.instances.mono (Instance.Mirror.grow hW), h.nextStamp, Images.grow hW h.opened⟩
  · intro id id' hid
    rcases image_cases hid with ⟨hlt, hid⟩ | ⟨rfl, hnew⟩
    · rw [Store.frame_addFrame_of_lt s b (h.size ▸ hlt),
        Store.frame_addFrame_of_lt s' b' (h.below hid)]
      exact (h.frame hid).mono (Value.Mirror.grow hW)
    · cases hnew
      have hframe := s.frame_addFrame_self b
      rw [show (s.addFrame b).1 = W.length from h.size] at hframe
      rw [hframe, show (s'.addFrame b').2.frame s'.frames.size = b' from s'.frame_addFrame_self b']
      exact hb.mono (Value.Mirror.grow hW)
  · intro id id' hid
    have hsize : (s'.addFrame b').2.frames.size = s'.frames.size + 1 := by simp [Store.addFrame]
    rw [hsize]
    rcases image_cases hid with ⟨-, hid⟩ | ⟨-, hnew⟩
    · exact Nat.lt_succ_of_lt (h.below hid)
    · cases hnew
      exact Nat.lt_succ_self _
  · intro i j id' hi hj
    rcases image_cases hi with ⟨-, hi⟩ | ⟨heq, hi⟩ <;>
      rcases image_cases hj with ⟨-, hj⟩ | ⟨heq', hj⟩
    · exact h.apart hi hj
    · cases hj
      exact absurd (h.below hi) (Nat.lt_irrefl _)
    · cases hi
      exact absurd (h.below hj) (Nat.lt_irrefl _)
    · exact heq.trans heq'.symm

/-- A frame for a round, which only the one machine makes. -/
lemma addRound (h : s.Mirror S W s') (loop : FrameId) :
    (s.addFrame .empty).2.Mirror S (W ++ [.round loop]) s' := by
  have hW : W <+: W ++ [.round loop] := List.prefix_append W _
  refine ⟨by simp [Store.addFrame, h.size], ?_, ?_, ?_,
    h.instances.mono (Instance.Mirror.grow hW), h.nextStamp, Images.grow hW h.opened⟩
  · intro id id' hid
    rcases image_cases hid with ⟨hlt, hid⟩ | ⟨-, hnew⟩
    · rw [Store.frame_addFrame_of_lt s _ (h.size ▸ hlt)]
      exact (h.frame hid).mono (Value.Mirror.grow hW)
    · cases hnew
  · intro id id' hid
    rcases image_cases hid with ⟨-, hid⟩ | ⟨-, hnew⟩
    · exact h.below hid
    · cases hnew
  · intro i j id' hi hj
    rcases image_cases hi with ⟨-, hi⟩ | ⟨-, hi⟩ <;> rcases image_cases hj with ⟨-, hj⟩ | ⟨-, hj⟩
    · exact h.apart hi hj
    · cases hj
    · cases hi
    · cases hi

/-- A method bound to an instance gets the same stamp, and a frame on both machines. -/
lemma bindMethod (h : s.Mirror S W s') {m m' : Method} (hm : m.Mirror S W m') (id : InstanceId) :
    ∃ W₁, W <+: W₁ ∧ (s.bindMethod m id).1.Mirror S W₁ (s'.bindMethod m' id).1 ∧
      (s.bindMethod m id).2.Mirror S W₁ (s'.bindMethod m' id).2 := by
  have hstamp : s'.freshStamp.1 = s.freshStamp.1 := h.nextStamp
  have hstore := h.freshStamp
  cases hm with
  | builtin b =>
    simp only [Store.bindMethod, hstamp]
    exact ⟨W, List.prefix_refl W, .builtin _ b _, hstore⟩
  | @declared c c' Γ hdecl hinitializer hscope hsites =>
    have hW : W <+: W ++ [.own s'.frames.size] := List.prefix_append W _
    have hb : (Bindings.empty.insert "this" (.object id)).Like (Value.Mirror S W) .identity
        (Bindings.empty.insert "this" (.object id)) :=
      Bindings.Like.empty.insert "this" (.object id)
    have hnew : (W ++ [.own s'.frames.size])[s.frames.size]? = some (.own s'.frames.size) := by
      rw [show s.frames.size = W.length from h.size]
      simp
    refine ⟨W ++ [.own s'.frames.size], hW, ?_, hstore.addFrame hb⟩
    simp only [Store.bindMethod, hstamp]
    refine .function _ ⟨hdecl, hinitializer, c.decl.receiverScope :: Γ,
      .own hnew (hscope.grow hW), hsites, fun _ => ⟨_, rfl, ?_⟩⟩
    exact List.cons_ne_nil _ _

/-! ### What is read off -/

lemma fields (h : s.Mirror S W s') (id : InstanceId) :
    (s.fields id).Like (Value.Mirror S W) .identity (s'.fields id) := by
  simp only [Store.fields]
  rcases rel_cases (h.instances.entry id) with ⟨hnone, hnone'⟩ | ⟨i, i', hsome, hsome', hi⟩
  · rw [hnone, hnone']
    exact .empty
  · rw [hsome, hsome']
    exact hi.fields

lemma elements (h : s.Mirror S W s') (id : InstanceId) :
    ArrayLike (Value.Mirror S W) (s.elements id) (s'.elements id) := by
  simp only [Store.elements]
  rcases rel_cases (h.instances.entry id) with ⟨hnone, hnone'⟩ | ⟨i, i', hsome, hsome', hi⟩
  · rw [hnone, hnone']
    exact .empty
  · rw [hsome, hsome']
    exact hi.elements

/-- **Values that mirror each other have the same text.** -/
lemma text (h : s.Mirror S W s') (hv : v.Mirror S W v') : s'.text v' = s.text v := by
  cases hv with
  | callable hc =>
    cases hc with
    | builtin => rfl
    | function _ hc => simp only [Store.text, hc.decl]
    | cls hc => exact hc.name
  | object id =>
    simp only [Store.text, Store.className]
    rcases rel_cases (h.instances.entry id) with ⟨hnone, hnone'⟩ | ⟨i, i', hsome, hsome', hi⟩
    · rw [hnone, hnone']
    · rw [hsome, hsome', Option.map_some, Option.map_some, hi.cls.name]
  | bool b => cases b <;> rfl
  | nil | number | string => rfl

end Store.Mirror

end LoxLang
