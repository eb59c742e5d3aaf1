import LoxLang.Machine.Builtin
import LoxLang.Proofs.Machine.Alignment
import LoxLang.Proofs.Syntax.Likeness

/-!
# Machines that are alike

Two machines are alike when everything in the one has its counterpart in the other: as many frames,
with the same names up to a renaming for each frame, the same instances, the same stamps, and
closures whose declarations are alike.  Places in the store and stamps are the same in both, so what
a program can compare or print is the same too.

Which renaming holds in which frame is given by a list that grows along with the frames (a *world*).
A closure is alike in a world when the frames of its scope have the renamings with which its
declaration was compared; this stays so when frames are added.

The tables of distances need to agree only for the reference numbers that occur.  And a likeness
limits the names that may be bound globally and the functions that there may be, which is kept here
because a run is followed only once.
-/

namespace LoxLang

/-! ## Arrays and bindings -/

/-- Arrays with as many entries, which correspond one by one. -/
structure ArrayLike {α : Type} (R : α → α → Prop) (xs xs' : Array α) : Prop where
  size : xs'.size = xs.size
  entry : ∀ i : Nat, Option.Rel R xs[i]? xs'[i]?

namespace ArrayLike

variable {α : Type} {R : α → α → Prop} {xs xs' : Array α}

lemma empty : ArrayLike R #[] #[] := ⟨rfl, fun _ => .none⟩

lemma mono {R' : α → α → Prop} (h : ArrayLike R xs xs') (hR : ∀ {a b}, R a b → R' a b) :
    ArrayLike R' xs xs' := ⟨h.size, fun i => rel_mono hR (h.entry i)⟩

lemma push (h : ArrayLike R xs xs') {x x' : α} (hx : R x x') :
    ArrayLike R (xs.push x) (xs'.push x') := by
  refine ⟨by simp [h.size], fun i => ?_⟩
  simp only [Array.getElem?_push, h.size]
  split
  · exact .some hx
  · exact h.entry i

lemma pop (h : ArrayLike R xs xs') : ArrayLike R xs.pop xs'.pop := by
  refine ⟨by simp [h.size], fun i => ?_⟩
  simp only [Array.getElem?_pop, h.size]
  split
  · exact h.entry i
  · exact .none

lemma modify (h : ArrayLike R xs xs') (i : Nat) {f f' : α → α}
    (hf : ∀ {a b}, R a b → R (f a) (f' b)) : ArrayLike R (xs.modify i f) (xs'.modify i f') := by
  refine ⟨by simp [h.size], fun j => ?_⟩
  simp only [Array.getElem?_modify]
  split
  · exact rel_map hf (h.entry j)
  · exact h.entry j

lemma back? (h : ArrayLike R xs xs') : Option.Rel R xs.back? xs'.back? := by
  rw [Array.back?_eq_getElem?, Array.back?_eq_getElem?, h.size]
  exact h.entry _

end ArrayLike

/-- The same names are bound, up to a renaming, to things that correspond. -/
def Bindings.Like {α : Type} (R : α → α → Prop) (π : Renaming) (b b' : Bindings α) : Prop :=
  ∀ name, Option.Rel R (b.find? name) (b'.find? (π name))

namespace Bindings.Like

variable {α : Type} {R : α → α → Prop} {π : Renaming} {b b' : Bindings α}

lemma empty : Bindings.Like R π (Bindings.empty : Bindings α) .empty := fun _ => .none

lemma mono {R' : α → α → Prop} (h : b.Like R π b') (hR : ∀ {a b}, R a b → R' a b) :
    b.Like R' π b' := fun name => rel_mono hR (h name)

lemma contains (h : b.Like R π b') (name : String) : b'.contains (π name) = b.contains name :=
  rel_isSome (h name)

lemma insert (h : b.Like R π b') (name : String) {value value' : α} (hvalue : R value value') :
    (b.insert name value).Like R π (b'.insert (π name) value') := by
  intro other
  by_cases hname : other = name
  · subst hname
    rw [find?_insert_self, find?_insert_self]
    exact .some hvalue
  · rw [find?_insert_of_ne _ hname, find?_insert_of_ne _ fun heq => hname (π.injective heq)]
    exact h other

lemma insertAll {entries entries' : List (String × α)}
    (hentries : List.Forall₂ (fun e e' => e'.1 = π e.1 ∧ R e.2 e'.2) entries entries')
    (h : b.Like R π b') : (b.insertAll entries).Like R π (b'.insertAll entries') := by
  induction hentries generalizing b b' with
  | nil => exact h
  | @cons e e' _ _ hentry _ ih =>
    refine ih ?_
    simp only [hentry.1]
    exact h.insert e.1 hentry.2

end Bindings.Like

/-! ## Worlds -/

/-- **The frames of a scope have the given renamings** in a world, innermost first. -/
def Scope.Carries (T : List Renaming) (scope : Scope) (Γ : List Renaming) : Prop :=
  ∀ (i : Nat) (id : FrameId), scope[i]? = some id → T[id]? = some (Γ.getD i .identity)

lemma getElem?_grow {T T₁ : List Renaming} (hT : T <+: T₁) {id : Nat} {π : Renaming}
    (h : T[id]? = some π) : T₁[id]? = some π := by
  obtain ⟨later, rfl⟩ := hT
  rw [List.getElem?_append_left (List.getElem?_eq_some_iff.mp h).1]
  exact h

namespace Scope.Carries

variable {T T₁ : List Renaming} {scope : Scope} {Γ : List Renaming}

lemma grow (h : scope.Carries T Γ) (hT : T <+: T₁) : scope.Carries T₁ Γ :=
  fun i id hid => getElem?_grow hT (h i id hid)

lemma cons (h : scope.Carries T Γ) {id : FrameId} {π : Renaming} (hid : T[id]? = some π) :
    Scope.Carries T (id :: scope) (π :: Γ) := by
  intro i other hother
  cases i with
  | zero =>
    cases hother
    exact hid
  | succ i => exact h i other hother

/-- The scope of the globals. -/
lemma global (h : T[globalFrame]? = some .identity) : globalScope.Carries T [] := by
  intro i id hid
  cases i with
  | zero =>
    cases hid
    exact h
  | succ i => cases hid

end Scope.Carries

/-! ## Values -/

section Values

variable (ρ : Likeness) (T : List Renaming)

/-- Closures that are alike, when the scopes in `inner` come between the scope of the closure and
that of the function. -/
structure Closure.Like (inner : List Renaming) (c c' : Closure) : Prop where
  decl : ∃ Γ, c.scope.Carries T Γ ∧ c.decl.Like ρ (inner ++ Γ) c'.decl
  scope : c'.scope = c.scope
  isInitializer : c'.isInitializer = c.isInitializer
  function : ρ.function c.decl c.isInitializer

/-- Methods that are alike.  When a method is bound, a frame for the instance comes between the
scope of the class and that of the method. -/
inductive Method.Like : Method → Method → Prop
  | declared {c c' : Closure} (h : c.Like ρ T [.identity] c') :
      Method.Like (.declared c) (.declared c')
  | builtin (b : Builtin) : Method.Like (.builtin b) (.builtin b)

structure ClassLayer.Like (l l' : ClassLayer) : Prop where
  stamp : l'.stamp = l.stamp
  name : l'.name = l.name
  methods : l.methods.Like (Method.Like ρ T) .identity l'.methods

/-- Classes with as many layers, which correspond one by one. -/
def Class.Like (c c' : Class) : Prop := List.Forall₂ (ClassLayer.Like ρ T) c.layers c'.layers

inductive Callable.Like : Callable → Callable → Prop
  | builtin (stamp : Stamp) (b : Builtin) (receiver : Option InstanceId) :
      Callable.Like (.builtin stamp b receiver) (.builtin stamp b receiver)
  | function (stamp : Stamp) {c c' : Closure} (h : c.Like ρ T [] c') :
      Callable.Like (.function stamp c) (.function stamp c')
  | cls {c c' : Class} (h : c.Like ρ T c') : Callable.Like (.cls c) (.cls c')

/-- **Values that are alike**: the same constant or instance, or callables that are alike. -/
inductive Value.Like : Value → Value → Prop
  | nil : Value.Like .nil .nil
  | bool (b : Bool) : Value.Like (.bool b) (.bool b)
  | number (x : Float) : Value.Like (.number x) (.number x)
  | string (s : String) : Value.Like (.string s) (.string s)
  | callable {c c' : Callable} (h : c.Like ρ T c') : Value.Like (.callable c) (.callable c')
  | object (id : InstanceId) : Value.Like (.object id) (.object id)

structure Instance.Like (i i' : Instance) : Prop where
  cls : i.cls.Like ρ T i'.cls
  fields : i.fields.Like (Value.Like ρ T) .identity i'.fields
  elements : ArrayLike (Value.Like ρ T) i.elements i'.elements

/-- Stores that are alike, with no globals but those that the likeness allows. -/
structure Store.Like (s s' : Store) : Prop where
  size : s.frames.size = T.length
  size' : s'.frames.size = T.length
  frame : ∀ {id π}, T[id]? = some π → (s.frame id).Like (Value.Like ρ T) π (s'.frame id)
  instances : ArrayLike (Instance.Like ρ T) s.instances s'.instances
  nextStamp : s'.nextStamp = s.nextStamp
  /-- The frame of the globals exists, and nothing is renamed in it. -/
  opened : T[globalFrame]? = some .identity
  renames : ∀ π ∈ T, ρ.renames π
  global : ∀ name, (s.frame globalFrame).contains name = true → ρ.global name

/-- **Machines that are alike** in a world. -/
structure Machine.Like (m m' : Machine) : Prop where
  store : m.store.Like ρ T m'.store
  scope : m'.scope = m.scope
  depth : m'.depth = m.depth
  limit : m'.limit = m.limit
  distances : ∀ {ref ref'}, ρ.ref ref ref' → m'.distances.find? ref' = m.distances.find? ref
  distance : ∀ {ref ref'}, ρ.ref ref ref' → ρ.distance ref (m.distances.find? ref)
  console : m'.console = m.console
  clock : m'.clock = m.clock

end Values

/-! ### Less strict likenesses and later worlds -/

/-- A likeness is no more strict than itself. -/
lemma Likeness.Le.refl (ρ : Likeness) : ρ.Le (fun _ => True) ρ := ⟨id, fun _ => id, id, id, id⟩

section Mono

variable {ρ ρ' : Likeness} {T T₁ : List Renaming} (hρ : ρ.Le (fun _ => True) ρ') (hT : T <+: T₁)

include hρ hT

lemma Closure.Like.mono {inner : List Renaming} {c c' : Closure} (h : c.Like ρ T inner c') :
    c.Like ρ' T₁ inner c' := by
  obtain ⟨Γ, hscope, hdecl⟩ := h.decl
  refine ⟨⟨Γ, hscope.grow hT, ?_⟩, h.scope, h.isInitializer, hρ.function h.function⟩
  exact FunDecl.Like.mono hρ _ (fun _ _ => trivial) hdecl

lemma Method.Like.mono {m m' : Method} (h : m.Like ρ T m') : m.Like ρ' T₁ m' := by
  cases h with
  | declared h => exact .declared (h.mono hρ hT)
  | builtin b => exact .builtin b

lemma Class.Like.mono {c c' : Class} (h : c.Like ρ T c') : c.Like ρ' T₁ c' :=
  List.Forall₂.imp
    (fun _ _ hl => ⟨hl.stamp, hl.name, hl.methods.mono (Method.Like.mono hρ hT)⟩) h

lemma Callable.Like.mono {c c' : Callable} (h : c.Like ρ T c') : c.Like ρ' T₁ c' := by
  cases h with
  | builtin stamp b receiver => exact .builtin stamp b receiver
  | function stamp h => exact .function stamp (h.mono hρ hT)
  | cls h => exact .cls (h.mono hρ hT)

lemma Value.Like.mono {v v' : Value} (h : v.Like ρ T v') : v.Like ρ' T₁ v' := by
  cases h with
  | callable h => exact .callable (h.mono hρ hT)
  | nil => exact .nil
  | bool b => exact .bool b
  | number x => exact .number x
  | string s => exact .string s
  | object id => exact .object id

lemma Instance.Like.mono {i i' : Instance} (h : i.Like ρ T i') : i.Like ρ' T₁ i' :=
  ⟨h.cls.mono hρ hT, h.fields.mono (Value.Like.mono hρ hT),
    h.elements.mono (Value.Like.mono hρ hT)⟩

omit hT

/-- What is alike is alike less strictly, if the globals that there are may be there. -/
lemma Store.Like.mono {s s' : Store} (h : s.Like ρ T s')
    (hglobal : ∀ name, (s.frame globalFrame).contains name = true → ρ'.global name) :
    s.Like ρ' T s' where
  size := h.size
  size' := h.size'
  frame hid := (h.frame hid).mono (Value.Like.mono hρ (List.prefix_refl T))
  instances := h.instances.mono (Instance.Like.mono hρ (List.prefix_refl T))
  nextStamp := h.nextStamp
  opened := h.opened
  renames π hπ := hρ.renames (h.renames π hπ)
  global := hglobal

omit hρ
include hT

lemma Class.Like.grow {c c' : Class} (h : c.Like ρ T c') : c.Like ρ T₁ c' := h.mono (.refl ρ) hT

lemma Callable.Like.grow {c c' : Callable} (h : c.Like ρ T c') : c.Like ρ T₁ c' :=
  h.mono (.refl ρ) hT

lemma Value.Like.grow {v v' : Value} (h : v.Like ρ T v') : v.Like ρ T₁ v' := h.mono (.refl ρ) hT

lemma Value.Like.growAll {vs vs' : List Value} (h : List.Forall₂ (Value.Like ρ T) vs vs') :
    List.Forall₂ (Value.Like ρ T₁) vs vs' := h.imp fun _ _ hv => hv.grow hT

end Mono

/-! ### What cannot be told apart -/

section Same

variable {ρ : Likeness} {T : List Renaming} {v v' w w' : Value} {c c' : Class}

lemma Closure.Like.arity {inner : List Renaming} {c c' : Closure} (h : c.Like ρ T inner c') :
    c'.decl.params.length = c.decl.params.length := by
  obtain ⟨Γ, -, hdecl⟩ := h.decl
  exact hdecl.arity

lemma Closure.Like.name {inner : List Renaming} {c c' : Closure} (h : c.Like ρ T inner c') :
    c'.decl.name.lexeme = c.decl.name.lexeme := by
  obtain ⟨Γ, -, hdecl⟩ := h.decl
  exact hdecl.name.lexeme

lemma Method.Like.arity {m m' : Method} (h : m.Like ρ T m') : m'.arity = m.arity := by
  cases h with
  | declared h => exact h.arity
  | builtin => rfl

namespace Class.Like

lemma own (h : c.Like ρ T c') : c.own.Like ρ T c'.own := (List.forall₂_cons.mp h).1

lemma lookup? (h : c.Like ρ T c') (method : String) :
    Option.Rel (Method.Like ρ T) (c.lookup? method) (c'.lookup? method) := by
  have hlayers : ∀ {layers layers' : List ClassLayer},
      List.Forall₂ (ClassLayer.Like ρ T) layers layers' →
      Option.Rel (Method.Like ρ T) (layers.findSome? (·.methods.find? method))
        (layers'.findSome? (·.methods.find? method)) := by
    intro layers layers' hlayers
    induction hlayers with
    | nil => exact .none
    | @cons l l' _ _ hl _ ih =>
      rw [List.findSome?_cons, List.findSome?_cons]
      rcases rel_cases (hl.methods method) with ⟨hnone, hnone'⟩ | ⟨m, m', hsome, hsome', hm⟩
      · rw [Renaming.identity_apply] at hnone'
        rw [hnone, hnone']
        exact ih
      · rw [Renaming.identity_apply] at hsome'
        rw [hsome, hsome']
        exact .some hm
  exact hlayers h

lemma arity (h : c.Like ρ T c') : c'.arity = c.arity := by
  unfold Class.arity
  rcases rel_cases (h.lookup? initializerName) with ⟨hnone, hnone'⟩ | ⟨m, m', hsome, hsome', hm⟩
  · rw [hnone, hnone']
  · rw [hsome, hsome']
    exact hm.arity

lemma extend {own own' : ClassLayer} {superclass superclass' : Option Class}
    (hown : own.Like ρ T own') (hsuperclass : Option.Rel (Class.Like ρ T) superclass superclass') :
    (Class.extend own superclass).Like ρ T (Class.extend own' superclass') := by
  cases hsuperclass with
  | none => exact .cons hown .nil
  | some h => exact .cons hown h

end Class.Like

lemma Callable.Like.arity {c c' : Callable} (h : c.Like ρ T c') : c'.arity = c.arity := by
  cases h with
  | builtin => rfl
  | function _ h => exact h.arity
  | cls h => exact h.arity

lemma Callable.Like.same {c c' d d' : Callable} (hc : c.Like ρ T c') (hd : d.Like ρ T d') :
    c'.same d' = c.same d := by
  cases hc <;> cases hd <;> try rfl
  next hc _ _ hd => simp only [Callable.same, hc.own.stamp, hd.own.stamp]

namespace Value.Like

lemma isTruthy (h : v.Like ρ T v') : v'.isTruthy = v.isTruthy := by
  cases h <;> rfl

lemma same (hv : v.Like ρ T v') (hw : w.Like ρ T w') : v'.same w' = v.same w := by
  cases hv <;> cases hw <;> try rfl
  next hc _ _ hd => exact hc.same hd

lemma ofLiteral (value : Literal) : (Value.ofLiteral value).Like ρ T (Value.ofLiteral value) := by
  cases value with
  | nil => exact .nil
  | bool b => exact .bool b
  | number x => exact .number x
  | string s => exact .string s

end Value.Like

end Same

/-! ## Stores -/

namespace Store.Like

variable {ρ : Likeness} {T : List Renaming} {s s' : Store} {v v' : Value}

lemma lookup?_global (h : s.Like ρ T s') (name : String) :
    Option.Rel (Value.Like ρ T) (s.lookup? name globalScope) (s'.lookup? name globalScope) := by
  have hframe := h.frame h.opened name
  simp only [globalScope, Store.lookup?]
  rcases rel_cases hframe with ⟨hnone, hnone'⟩ | ⟨v, v', hsome, hsome', hv⟩
  · rw [Renaming.identity_apply] at hnone'
    rw [hnone, hnone']
    exact .none
  · rw [Renaming.identity_apply] at hsome'
    rw [hsome, hsome']
    exact .some hv

lemma frameOf?_global (h : s.Like ρ T s') (name : String) :
    s'.frameOf? name globalScope = s.frameOf? name globalScope := by
  have hframe := (h.frame h.opened).contains name
  rw [Renaming.identity_apply] at hframe
  simp only [Store.frameOf?, globalScope, List.find?_cons, List.find?_nil, hframe]

/-- Binding a name, which has to be allowed if that makes it a global. -/
lemma bindIn (h : s.Like ρ T s') {id : FrameId} {π : Renaming} (hid : T[id]? = some π)
    (name : String) (hv : v.Like ρ T v') (hallowed : id = globalFrame → ρ.global name) :
    (s.bindIn id name v).Like ρ T (s'.bindIn id (π name) v') where
  size := by
    simp only [Store.bindIn, Array.size_modify]
    exact h.size
  size' := by
    simp only [Store.bindIn, Array.size_modify]
    exact h.size'
  frame {other π'} hother := by
    have hlt : id < T.length := (List.getElem?_eq_some_iff.mp hid).1
    by_cases heq : other = id
    · subst heq
      obtain rfl : π' = π := Option.some.inj (hother.symm.trans hid)
      rw [Store.frame_bindIn_self _ (h.size ▸ hlt), Store.frame_bindIn_self _ (h.size' ▸ hlt)]
      exact (h.frame hother).insert name hv
    · rw [Store.frame_bindIn_of_ne _ heq, Store.frame_bindIn_of_ne _ heq]
      exact h.frame hother
  instances := h.instances
  nextStamp := h.nextStamp
  opened := h.opened
  renames := h.renames
  global other hother := by
    have hlt : id < s.frames.size := h.size ▸ (List.getElem?_eq_some_iff.mp hid).1
    by_cases heq : id = globalFrame
    · subst heq
      rw [Store.frame_bindIn_self _ hlt] at hother
      by_cases hname : other = name
      · subst hname
        exact hallowed rfl
      · rw [Bindings.contains, Bindings.find?_insert_of_ne _ hname] at hother
        exact h.global other hother
    · rw [Store.frame_bindIn_of_ne _ (Ne.symm heq)] at hother
      exact h.global other hother

/-- A declaration in a scope binds the name that it has there. -/
lemma define (h : s.Like ρ T s') {scope : Scope} {Γ : List Renaming} (hscope : scope.Carries T Γ)
    (name : String) (hv : v.Like ρ T v')
    (hallowed : scope.head? = some globalFrame → ρ.global name) :
    (s.define scope name v).Like ρ T (s'.define scope (renamingAt Γ (some 0) name) v') := by
  cases scope with
  | nil => exact h
  | cons id outer =>
    exact h.bindIn (hscope 0 id rfl) name hv fun hid => hallowed (by rw [hid]; rfl)

/-- A new frame makes a new world. -/
lemma addFrame (h : s.Like ρ T s') {π : Renaming} (hπ : ρ.renames π) {b b' : Bindings Value}
    (hb : b.Like (Value.Like ρ T) π b') :
    (s.addFrame b).2.Like ρ (T ++ [π]) (s'.addFrame b').2 := by
  have hT : T <+: T ++ [π] := List.prefix_append T [π]
  have hopened : globalFrame < T.length := (List.getElem?_eq_some_iff.mp h.opened).1
  refine ⟨by simp [Store.addFrame, h.size], by simp [Store.addFrame, h.size'], ?_,
    h.instances.mono (Instance.Like.mono (.refl ρ) hT), h.nextStamp,
    getElem?_grow hT h.opened, ?_, ?_⟩
  · intro id π' hid
    by_cases hlt : id < T.length
    · rw [List.getElem?_append_left hlt] at hid
      rw [Store.frame_addFrame_of_lt s b (h.size ▸ hlt),
        Store.frame_addFrame_of_lt s' b' (h.size' ▸ hlt)]
      exact (h.frame hid).mono (Value.Like.grow hT)
    · obtain ⟨hlast, hlater⟩ := List.getElem?_eq_some_iff.mp hid
      have hnext : id < T.length + 1 := by simpa using hlast
      obtain rfl : id = T.length := Nat.eq_of_lt_succ_of_not_lt hnext hlt
      rw [List.getElem_concat_length rfl] at hlater
      subst hlater
      have hnew := s.frame_addFrame_self b
      have hnew' := s'.frame_addFrame_self b'
      rw [show (s.addFrame b).1 = T.length from h.size] at hnew
      rw [show (s'.addFrame b').1 = T.length from h.size'] at hnew'
      rw [hnew, hnew']
      exact hb.mono (Value.Like.grow hT)
  · intro π' hπ'
    rcases List.mem_append.mp hπ' with hπ' | hπ'
    · exact h.renames π' hπ'
    · exact List.mem_singleton.mp hπ' ▸ hπ
  · intro name hname
    rw [Store.frame_addFrame_of_lt s b (h.size ▸ hopened)] at hname
    exact h.global name hname

lemma addInstance (h : s.Like ρ T s') {c c' : Class} (hc : c.Like ρ T c') :
    (s.addInstance c).2.Like ρ T (s'.addInstance c').2 :=
  ⟨h.size, h.size', h.frame, h.instances.push ⟨hc, .empty, .empty⟩, h.nextStamp, h.opened,
    h.renames, h.global⟩

lemma freshStamp (h : s.Like ρ T s') : s.freshStamp.2.Like ρ T s'.freshStamp.2 :=
  ⟨h.size, h.size', h.frame, h.instances, congrArg (· + 1) h.nextStamp, h.opened, h.renames,
    h.global⟩

/-- Instances change alike. -/
lemma modifyInstance (h : s.Like ρ T s') (id : InstanceId) {f f' : Instance → Instance}
    (hf : ∀ {i i'}, Instance.Like ρ T i i' → (f i).Like ρ T (f' i')) :
    Store.Like ρ T { s with instances := s.instances.modify id f }
      { s' with instances := s'.instances.modify id f' } :=
  ⟨h.size, h.size', h.frame, h.instances.modify id hf, h.nextStamp, h.opened, h.renames, h.global⟩

/-- A method bound to an instance gets the same stamp and the same frame. -/
lemma bindMethod (h : s.Like ρ T s') {m m' : Method} (hm : m.Like ρ T m') (id : InstanceId) :
    ∃ T₁, T <+: T₁ ∧ (s.bindMethod m id).1.Like ρ T₁ (s'.bindMethod m' id).1 ∧
      (s.bindMethod m id).2.Like ρ T₁ (s'.bindMethod m' id).2 := by
  have hstamp : s'.freshStamp.1 = s.freshStamp.1 := h.nextStamp
  have hstore := h.freshStamp
  cases hm with
  | builtin b =>
    simp only [Store.bindMethod, hstamp]
    exact ⟨T, List.prefix_refl T, .builtin _ b _, hstore⟩
  | @declared c c' hc =>
    have hT : T <+: T ++ [.identity] := List.prefix_append T _
    have hb : (Bindings.empty.insert "this" (.object id)).Like (Value.Like ρ T) .identity
        (Bindings.empty.insert "this" (.object id)) :=
      Bindings.Like.empty.insert "this" (.object id)
    have hframe : s.frames.size = T.length := h.size
    have hframe' : s'.frames.size = T.length := h.size'
    obtain ⟨Γ, hscope, hdecl⟩ := hc.decl
    have hnew : (T ++ [Renaming.identity])[T.length]? = some .identity := by simp
    refine ⟨T ++ [.identity], hT, ?_, hstore.addFrame ρ.identity hb⟩
    simp only [Store.bindMethod, Store.addFrame, Store.freshStamp, hframe, hframe', h.nextStamp,
      hc.scope, hc.isInitializer]
    refine .function _ ⟨⟨.identity :: Γ, (hscope.grow hT).cons hnew, hdecl⟩, rfl, rfl, hc.function⟩

lemma fields (h : s.Like ρ T s') (id : InstanceId) :
    (s.fields id).Like (Value.Like ρ T) .identity (s'.fields id) := by
  simp only [Store.fields]
  rcases rel_cases (h.instances.entry id) with ⟨hnone, hnone'⟩ | ⟨i, i', hsome, hsome', hi⟩
  · rw [hnone, hnone']
    exact .empty
  · rw [hsome, hsome']
    exact hi.fields

lemma elements (h : s.Like ρ T s') (id : InstanceId) :
    ArrayLike (Value.Like ρ T) (s.elements id) (s'.elements id) := by
  simp only [Store.elements]
  rcases rel_cases (h.instances.entry id) with ⟨hnone, hnone'⟩ | ⟨i, i', hsome, hsome', hi⟩
  · rw [hnone, hnone']
    exact .empty
  · rw [hsome, hsome']
    exact hi.elements

/-- **Values that are alike have the same text.** -/
lemma text (h : s.Like ρ T s') (hv : v.Like ρ T v') : s'.text v' = s.text v := by
  cases hv with
  | callable hc =>
    cases hc with
    | builtin => rfl
    | function _ hc => simp only [Store.text, hc.name]
    | cls hc => exact hc.own.name
  | object id =>
    simp only [Store.text, Store.className]
    rcases rel_cases (h.instances.entry id) with ⟨hnone, hnone'⟩ | ⟨i, i', hsome, hsome', hi⟩
    · rw [hnone, hnone']
    · rw [hsome, hsome', Option.map_some, Option.map_some, Class.name, Class.name, hi.cls.own.name]
  | bool b => cases b <;> rfl
  | nil | number | string => rfl

end Store.Like

end LoxLang
