import LoxLang.Proofs.Store.Closed

/-!
# Well-formed stores

Frames, closures, instances and classes refer to each other, and they do so in circles: a frame
binds a function, and the closure of the function keeps the frame.  Some of the references never
run in a circle, and what reads and runs a program relies on it.  A frame is nested in an older one
(`Nesting`), so the frames around a frame are a finite chain that ends in the frame of the globals.
The superclass of a class has an older stamp, so no class is above itself.  And a method that a
class declares is no value before it is bound to an instance, so that `this` can be read wherever
an initializer gives it back.

A store does not say which frame another one is nested in; a closure keeps a whole chain.  So that
is said from outside, by a nesting that only ever grows.  A store is well formed under a nesting
when every chain in it is one of the nesting and everything that a value refers to exists
(`Store.WellFormed`).  Each change of a store keeps this, and what was well formed before it stays
so (`Store.Grows`).
-/

namespace LoxLang

/-! ## Frames inside of frames -/

/-- **Which frame each frame is nested in.**  Only the frame of the globals is nested in none, and
every other one is nested in an older one. -/
structure Nesting where
  enclosing : FrameId → Option FrameId
  eq_none_iff : ∀ frame, enclosing frame = none ↔ frame = globalFrame
  lt : ∀ {frame outer}, enclosing frame = some outer → outer < frame

namespace Nesting

variable {N N' : Nesting} {frame outer : FrameId}

/-- A frame and the frames around it, innermost first. -/
def chain (N : Nesting) (frame : FrameId) : Scope :=
  match _h : N.enclosing frame with
  | none => [frame]
  | some outer => frame :: N.chain outer
termination_by frame
decreasing_by exact N.lt _h

lemma chain_of_some (h : N.enclosing frame = some outer) :
    N.chain frame = frame :: N.chain outer := by
  rw [chain]
  split <;> simp_all

@[simp] lemma chain_globalFrame (N : Nesting) : N.chain globalFrame = globalScope := by
  have hnone := (N.eq_none_iff globalFrame).mpr rfl
  rw [chain]
  split <;> simp_all [globalScope]

/-- **What holds of the globals, and of a frame when it holds of the one around it**, holds of every
frame. -/
lemma induct {P : FrameId → Prop} (N : Nesting) (globals : P globalFrame)
    (nested : ∀ frame outer, N.enclosing frame = some outer → P outer → P frame)
    (frame : FrameId) : P frame := by
  induction frame using Nat.strongRecOn with
  | ind frame ih =>
    cases h : N.enclosing frame with
    | none => exact (N.eq_none_iff frame).mp h ▸ globals
    | some outer => exact nested frame outer h (ih outer (N.lt h))

lemma exists_chain_eq_cons (N : Nesting) (frame : FrameId) :
    ∃ rest, N.chain frame = frame :: rest := by
  cases h : N.enclosing frame with
  | none =>
    rw [(N.eq_none_iff frame).mp h, chain_globalFrame]
    exact ⟨[], rfl⟩
  | some outer => exact ⟨_, chain_of_some h⟩

lemma le_of_mem_chain {other : FrameId} (h : other ∈ N.chain frame) : other ≤ frame := by
  induction frame using N.induct with
  | globals =>
    rw [chain_globalFrame, globalScope, List.mem_singleton] at h
    exact Nat.le_of_eq h
  | nested frame outer hframe ih =>
    rw [chain_of_some hframe, List.mem_cons] at h
    rcases h with rfl | h
    · exact Nat.le_refl _
    · exact (ih h).trans (Nat.le_of_lt (N.lt hframe))

/-- **The frames around a frame are older and older.** -/
lemma descends_chain (N : Nesting) (frame : FrameId) : (N.chain frame).Pairwise (· > ·) := by
  induction frame using N.induct with
  | globals => simp [globalScope]
  | nested frame outer hframe ih =>
    rw [chain_of_some hframe, List.pairwise_cons]
    exact ⟨fun other hother => (le_of_mem_chain hother).trans_lt (N.lt hframe), ih⟩

/-- No frame is around itself. -/
lemma nodup_chain (N : Nesting) (frame : FrameId) : (N.chain frame).Nodup :=
  (N.descends_chain frame).imp Nat.ne_of_gt

/-- **Around every frame are the globals**, outermost. -/
lemma getLast?_chain (N : Nesting) (frame : FrameId) :
    (N.chain frame).getLast? = some globalFrame := by
  induction frame using N.induct with
  | globals => simp [globalScope]
  | nested frame outer hframe ih => simp [chain_of_some hframe, List.getLast?_cons, ih]

/-- A chain depends on nothing but the frames that are as old as its first. -/
lemma chain_congr {n : Nat} (h : ∀ other < n, N'.enclosing other = N.enclosing other)
    (hframe : frame < n) : N'.chain frame = N.chain frame := by
  induction frame using N.induct with
  | globals => rw [chain_globalFrame, chain_globalFrame]
  | nested frame outer hnested ih =>
    rw [chain_of_some hnested, chain_of_some ((h frame hframe).trans hnested),
      ih ((N.lt hnested).trans hframe)]

/-- **One more frame inside of an older one.** -/
def nest (N : Nesting) (frame outer : FrameId) (h : outer < frame) : Nesting where
  enclosing := Function.update N.enclosing frame (some outer)
  eq_none_iff other := by
    by_cases hother : other = frame
    · subst hother
      have hother : other ≠ globalFrame := Nat.ne_of_gt (Nat.zero_lt_of_lt h)
      simpa using hother
    · rw [Function.update_of_ne hother, N.eq_none_iff]
  lt {other around} haround := by
    by_cases hother : other = frame
    · subst hother
      rw [Function.update_self, Option.some.injEq] at haround
      exact haround ▸ h
    · rw [Function.update_of_ne hother] at haround
      exact N.lt haround

lemma enclosing_nest_of_ne {h : outer < frame} {other : FrameId} (hother : other ≠ frame) :
    (N.nest frame outer h).enclosing other = N.enclosing other := Function.update_of_ne hother _ _

lemma chain_nest (N : Nesting) (h : outer < frame) :
    (N.nest frame outer h).chain frame = frame :: N.chain outer := by
  have hself : (N.nest frame outer h).enclosing frame = some outer := Function.update_self _ _ _
  rw [chain_of_some hself,
    chain_congr (fun other hother => enclosing_nest_of_ne (Nat.ne_of_lt hother)) h]

/-- The nesting before there are any frames but that of the globals. -/
def initial : Nesting where
  enclosing frame := if frame = globalFrame then none else some globalFrame
  eq_none_iff frame := by simp
  lt {frame outer} h := by
    split at h
    · cases h
    · next hframe =>
      cases h
      exact Nat.pos_of_ne_zero hframe

end Nesting

/-! ## What is well formed -/

/-- Any class statement: what is asked of a text is only that it binds names. -/
def IsAnyClass (_ : ClassDecl) : Prop := True

/-- **What comes into being with a stamp**, and is the same wherever a value refers to it. -/
inductive Made where
  /-- The function of a `fun` statement. -/
  | function (stamp : Stamp) (closure : Closure)
  /-- A declared method that was bound to an instance. -/
  | method (stamp : Stamp) (closure : Closure)
  /-- The own part of a class. -/
  | layer (layer : ClassLayer)

/-- A method that a class declares itself. -/
def ClassLayer.Declares (layer : ClassLayer) (closure : Closure) : Prop :=
  ∃ name, layer.methods.find? name = some (.declared closure)

section WellFormed

variable (F : Made → Prop) (N : Nesting) (s : Store)

/-- A scope is a frame of the store with the frames around it. -/
def Scope.WellFormed (scope : Scope) : Prop := ∃ frame < s.frames.size, scope = N.chain frame

/-- **A closure is bound to an instance**: its own frame defines `this` as one. -/
def Closure.HasReceiver (closure : Closure) : Prop :=
  ∃ frame outer id, closure.scope = frame :: outer ∧
    (s.frame frame).find? "this" = some (.object id) ∧ id < s.instances.size

/-- The text of a closure binds nothing but names, and it was made in a scope of the store. -/
structure Closure.WellFormed (closure : Closure) : Prop where
  decl : closure.decl.Tidy IsAnyClass
  scope : closure.scope.WellFormed N s

/-- **A function that is a value** was made by a `fun` statement, or it is a method and was bound;
which ones were is said by `F`.  No `fun` statement makes an initializer. -/
structure Closure.IsFunction (stamp : Stamp) (closure : Closure) : Prop where
  issued : stamp < s.nextStamp
  wellFormed : closure.WellFormed N s
  made : F (.function stamp closure) ∧ closure.isInitializer = false ∨
    F (.method stamp closure) ∧ closure.HasReceiver s

/-- **A class is younger than its superclass**, this one than its own, and so on.  The methods that
they declare are well formed, but need not be bound, and what declares one was made. -/
structure Class.WellFormed (c : Class) : Prop where
  descends : (c.layers.map ClassLayer.stamp).Pairwise (· > ·)
  issued : c.own.stamp < s.nextStamp
  methods : ∀ layer ∈ c.layers, ∀ closure, layer.Declares closure →
    closure.WellFormed N s ∧ F (.layer layer)

/-- What can be called is bound, if it is a method.  Only the clock is a builtin without a
receiver. -/
def Callable.WellFormed : Callable → Prop
  | .builtin stamp b receiver => stamp < s.nextStamp ∧ (∀ id ∈ receiver, id < s.instances.size) ∧
    (receiver = none → b = .clock)
  | .function stamp closure => closure.IsFunction F N s stamp
  | .cls c => c.WellFormed F N s

/-- A value refers to what exists. -/
def Value.WellFormed : Value → Prop
  | .callable c => c.WellFormed F N s
  | .object id => id < s.instances.size
  | .nil | .bool _ | .number _ | .string _ => True

/-- Several values refer to what exists. -/
def AllWellFormed (values : List Value) : Prop := ∀ v ∈ values, v.WellFormed F N s

/-- A value that is returned is well formed. -/
def Flow.WellFormed (flow : Flow) : Prop := ∀ value, flow = .returned value → value.WellFormed F N s

/-- **A store is well formed** if everything that it holds is. -/
structure Store.WellFormed : Prop where
  globals : globalFrame < s.frames.size
  bindings : ∀ frame name value, (s.frame frame).find? name = some value → value.WellFormed F N s
  fields : ∀ id name value, (s.fields id).find? name = some value → value.WellFormed F N s
  elements : ∀ id, ∀ value ∈ s.elements id, value.WellFormed F N s
  classes : ∀ (id : InstanceId) i, s.instances[id]? = some i → i.cls.WellFormed F N s

end WellFormed

/-! ### What follows -/

section Facts

variable {F : Made → Prop} {N : Nesting} {s : Store}

lemma Scope.WellFormed.lt_size {scope : Scope} (h : scope.WellFormed N s) :
    ∀ frame ∈ scope, frame < s.frames.size := by
  obtain ⟨first, hfirst, rfl⟩ := h
  exact fun frame hframe => (Nesting.le_of_mem_chain hframe).trans_lt hfirst

/-- **No class is above itself.** -/
lemma Class.WellFormed.nodup {c : Class} (h : c.WellFormed F N s) :
    (c.layers.map ClassLayer.stamp).Nodup := h.descends.imp Nat.ne_of_gt

/-- All stamps of a class have been handed out, since the youngest of them has. -/
lemma Class.WellFormed.stamp_lt {c : Class} (h : c.WellFormed F N s) :
    ∀ layer ∈ c.layers, layer.stamp < s.nextStamp := by
  have hdescends := h.descends
  rw [Class.layers, List.map_cons, List.pairwise_cons] at hdescends
  intro layer hlayer
  rcases List.mem_cons.mp hlayer with rfl | hlayer
  · exact h.issued
  · exact Nat.lt_trans (hdescends.1 _ (List.mem_map_of_mem hlayer)) h.issued

/-- What a look-up finds is well formed. -/
lemma Class.WellFormed.lookup {c : Class} (h : c.WellFormed F N s) {name : String}
    {closure : Closure} (hfound : c.lookup? name = some (.declared closure)) :
    closure.WellFormed N s := by
  obtain ⟨layer, hlayer, hmethod⟩ := List.exists_of_findSome?_eq_some hfound
  exact (h.methods layer hlayer closure ⟨name, hmethod⟩).1

/-- A subclass is younger than the stamps that were handed out before. -/
lemma Class.WellFormed.extend {superclass : Option Class} {own : ClassLayer}
    (hsuperclass : ∀ c ∈ superclass, c.WellFormed F N s)
    (hyoung : ∀ c ∈ superclass, ∀ layer ∈ c.layers, layer.stamp < own.stamp)
    (hissued : own.stamp < s.nextStamp)
    (hmethods : ∀ closure, own.Declares closure → closure.WellFormed N s ∧ F (.layer own)) :
    (Class.extend own superclass).WellFormed F N s := by
  cases superclass with
  | none =>
    refine ⟨by simp [Class.extend, Class.layers], hissued, fun layer hlayer => ?_⟩
    obtain rfl : layer = own := by simpa [Class.extend, Class.layers] using hlayer
    exact hmethods
  | some parent =>
    have hparent := hsuperclass parent rfl
    have hlayers : (Class.extend own (some parent)).layers = own :: parent.layers := rfl
    refine ⟨?_, hissued, ?_⟩
    · rw [hlayers, List.map_cons, List.pairwise_cons]
      exact ⟨List.forall_mem_map.mpr (hyoung parent rfl), hparent.descends⟩
    · rw [hlayers, List.forall_mem_cons]
      exact ⟨hmethods, hparent.methods⟩

/-- A value that is neither callable nor an object is well formed whatever the store. -/
lemma Value.IsPlain.wellFormed {v : Value} (h : v.IsPlain)
    (hrefers : v.RefersBelow s.instances.size) : v.WellFormed F N s := by
  cases v with
  | callable c => exact absurd rfl (h c)
  | object id => exact hrefers
  | _ => trivial

lemma Value.wellFormed_ofLiteral (value : Literal) : (Value.ofLiteral value).WellFormed F N s := by
  cases value <;> trivial

lemma Flow.wellFormed_normal : Flow.WellFormed F N s .normal := nofun

/-- What exists can be referred to. -/
lemma Value.WellFormed.refersBelow {v : Value} (h : v.WellFormed F N s) :
    v.RefersBelow s.instances.size := by
  rcases v with _ | _ | _ | _ | (⟨stamp, b, _ | id⟩ | _ | _) | id
  case callable.builtin.none => exact h.2.2 rfl
  case callable.builtin.some => exact h.2.1 id rfl
  case object => exact h
  all_goals trivial

lemma Store.WellFormed.closed (h : s.WellFormed F N) : s.Closed where
  frames frame name value hvalue := (h.bindings frame name value hvalue).refersBelow
  fields id name value hvalue := (h.fields id name value hvalue).refersBelow
  elements id value hvalue := (h.elements id value hvalue).refersBelow

end Facts

/-! ## Stores that grow -/

/-- **A store grows**: nothing is lost, frames stay nested where they are, and `this` stays bound to
what it is bound to. -/
structure Store.Grows (s : Store) (N N' : Nesting) (s' : Store) : Prop where
  frames : s.frames.size ≤ s'.frames.size
  instances : s.instances.size ≤ s'.instances.size
  stamps : s.nextStamp ≤ s'.nextStamp
  enclosing : ∀ frame < s.frames.size, N'.enclosing frame = N.enclosing frame
  this : ∀ frame value, (s.frame frame).find? "this" = some value →
    (s'.frame frame).find? "this" = some value

section Mono

variable {F : Made → Prop} {N N' N'' : Nesting} {s s' s'' : Store}

lemma Store.Grows.refl (N : Nesting) (s : Store) : s.Grows N N s :=
  ⟨Nat.le_refl _, Nat.le_refl _, Nat.le_refl _, fun _ _ => rfl, fun _ _ => id⟩

lemma Store.Grows.trans (h : s.Grows N N' s') (h' : s'.Grows N' N'' s'') : s.Grows N N'' s'' where
  frames := h.frames.trans h'.frames
  instances := h.instances.trans h'.instances
  stamps := h.stamps.trans h'.stamps
  enclosing frame hframe :=
    (h'.enclosing frame (hframe.trans_le h.frames)).trans (h.enclosing frame hframe)
  this frame value hvalue := h'.this frame value (h.this frame value hvalue)

lemma Scope.WellFormed.mono {scope : Scope} (h : scope.WellFormed N s) (hs : s.Grows N N' s') :
    scope.WellFormed N' s' := by
  obtain ⟨frame, hframe, rfl⟩ := h
  exact ⟨frame, hframe.trans_le hs.frames, (Nesting.chain_congr hs.enclosing hframe).symm⟩

/-- **A closure that is bound stays bound.** -/
lemma Closure.HasReceiver.mono {closure : Closure} (h : closure.HasReceiver s)
    (hs : s.Grows N N' s') : closure.HasReceiver s' := by
  obtain ⟨frame, outer, id, hscope, hthis, hid⟩ := h
  exact ⟨frame, outer, id, hscope, hs.this _ _ hthis, hid.trans_le hs.instances⟩

lemma Closure.WellFormed.mono {closure : Closure} (h : closure.WellFormed N s)
    (hs : s.Grows N N' s') : closure.WellFormed N' s' := ⟨h.decl, h.scope.mono hs⟩

lemma Closure.IsFunction.mono {stamp : Stamp} {closure : Closure}
    (h : closure.IsFunction F N s stamp) (hs : s.Grows N N' s') :
    closure.IsFunction F N' s' stamp :=
  ⟨h.issued.trans_le hs.stamps, h.wellFormed.mono hs, h.made.imp id (.imp id (·.mono hs))⟩

lemma Class.WellFormed.mono {c : Class} (h : c.WellFormed F N s) (hs : s.Grows N N' s') :
    c.WellFormed F N' s' where
  descends := h.descends
  issued := h.issued.trans_le hs.stamps
  methods layer hlayer closure hclosure :=
    (h.methods layer hlayer closure hclosure).imp (·.mono hs) id

lemma Callable.WellFormed.mono {c : Callable} (h : c.WellFormed F N s) (hs : s.Grows N N' s') :
    c.WellFormed F N' s' := by
  cases c with
  | builtin stamp b receiver =>
    obtain ⟨hstamp, hreceiver, hclock⟩ := h
    exact ⟨hstamp.trans_le hs.stamps, fun id hid => (hreceiver id hid).trans_le hs.instances,
      hclock⟩
  | function stamp closure => exact Closure.IsFunction.mono h hs
  | cls c => exact Class.WellFormed.mono h hs

lemma Value.WellFormed.mono {v : Value} (h : v.WellFormed F N s) (hs : s.Grows N N' s') :
    v.WellFormed F N' s' := by
  cases v with
  | callable c => exact Callable.WellFormed.mono h hs
  | object id => exact Nat.lt_of_lt_of_le h hs.instances
  | _ => trivial

lemma AllWellFormed.mono {values : List Value} (h : AllWellFormed F N s values)
    (hs : s.Grows N N' s') : AllWellFormed F N' s' values := fun v hv => (h v hv).mono hs

/-- **A store that grows stays well formed** if what is new in it is. -/
lemma Store.WellFormed.grow (h : s.WellFormed F N) (hs : s.Grows N N' s')
    (bindings : ∀ {frame name value}, (s'.frame frame).find? name = some value →
      value.WellFormed F N' s' ∨ (s.frame frame).find? name = some value)
    (fields : ∀ {id name value}, (s'.fields id).find? name = some value →
      value.WellFormed F N' s' ∨ (s.fields id).find? name = some value)
    (elements : ∀ {id}, ∀ value ∈ s'.elements id,
      value.WellFormed F N' s' ∨ value ∈ s.elements id)
    (classes : ∀ {id : InstanceId} {i}, s'.instances[id]? = some i →
      i.cls.WellFormed F N' s' ∨ ∃ old, s.instances[id]? = some old ∧ i.cls = old.cls) :
    s'.WellFormed F N' where
  globals := h.globals.trans_le hs.frames
  bindings frame name value hvalue :=
    (bindings hvalue).elim id fun hold => (h.bindings frame name value hold).mono hs
  fields id name value hvalue :=
    (fields hvalue).elim (·) fun hold => (h.fields id name value hold).mono hs
  elements id value hvalue :=
    (elements value hvalue).elim (·) fun hold => (h.elements id value hold).mono hs
  classes id i hi := by
    rcases classes hi with hnew | ⟨old, hold, hcls⟩
    · exact hnew
    · rw [hcls]
      exact (h.classes id old hold).mono hs

end Mono

/-! ## Changes of a store -/

namespace Store

variable {F : Made → Prop} {N : Nesting} {s : Store} {value : Value}

/-! ### Frames -/

lemma Grows.bindIn (N : Nesting) (s : Store) (id : FrameId) {name : Token}
    (hname : name.IsBindable) (value : Value) : s.Grows N N (s.bindIn id name.lexeme value) where
  frames := Nat.le_of_eq (by simp [Store.bindIn])
  instances := Nat.le_refl _
  stamps := Nat.le_refl _
  enclosing _ _ := rfl
  this frame found hfound := by
    have hne : "this" ≠ name.lexeme := (hname.ne_spelling .this_).symm
    rcases frame_bindIn s id frame name.lexeme value with hframe | ⟨-, hframe⟩
    · rwa [hframe]
    · rwa [hframe, Bindings.find?_insert_of_ne _ hne]

lemma WellFormed.bindIn (h : s.WellFormed F N) (id : FrameId) {name : Token}
    (hname : name.IsBindable) (hvalue : value.WellFormed F N s) :
    (s.bindIn id name.lexeme value).WellFormed F N := by
  have hs := Grows.bindIn N s id hname value
  refine h.grow hs (fun hfound => ?_) .inr (fun _ => .inr) fun hi => .inr ⟨_, hi, rfl⟩
  rcases find?_bindIn hfound with rfl | hold
  · exact .inl (hvalue.mono hs)
  · exact .inr hold

/-- A new frame inside of an older one. -/
lemma Grows.addFrame (N : Nesting) (s : Store) (bindings : Bindings Value) {outer : FrameId}
    (houter : outer < s.frames.size) :
    s.Grows N (N.nest s.frames.size outer houter) (s.addFrame bindings).2 where
  frames := by simp [Store.addFrame]
  instances := Nat.le_refl _
  stamps := Nat.le_refl _
  enclosing frame hframe := Nesting.enclosing_nest_of_ne (Nat.ne_of_lt hframe)
  this frame value hvalue := by
    rcases frame_addFrame s bindings frame with hframe | ⟨rfl, -⟩
    · rwa [hframe]
    · rw [frame_of_size_le (Nat.le_refl _)] at hvalue
      cases hvalue

lemma WellFormed.addFrame (h : s.WellFormed F N) {bindings : Bindings Value}
    (hbindings : ∀ name value, bindings.find? name = some value → value.WellFormed F N s)
    {outer : FrameId} (houter : outer < s.frames.size) :
    (s.addFrame bindings).2.WellFormed F (N.nest s.frames.size outer houter) := by
  have hs := Grows.addFrame N s bindings houter
  refine h.grow hs (fun hfound => ?_) .inr (fun _ => .inr) fun hi => .inr ⟨_, hi, rfl⟩
  rcases find?_addFrame hfound with hnew | hold
  · exact .inl ((hbindings _ _ hnew).mono hs)
  · exact .inr hold

/-! ### Instances -/

lemma Grows.addInstance (N : Nesting) (s : Store) (c : Class) :
    s.Grows N N (s.addInstance c).2 where
  frames := Nat.le_refl _
  instances := by simp [Store.addInstance]
  stamps := Nat.le_refl _
  enclosing _ _ := rfl
  this _ _ := id

lemma WellFormed.addInstance (h : s.WellFormed F N) {c : Class} (hc : c.WellFormed F N s) :
    (s.addInstance c).2.WellFormed F N := by
  have hs := Grows.addInstance N s c
  refine h.grow hs .inr (fun hfound => ?_) (fun value hvalue => ?_) fun hi => ?_
  · exact .inr (by rwa [fields_addInstance] at hfound)
  · exact .inr (by rwa [elements_addInstance] at hvalue)
  · simp only [Store.addInstance, Array.getElem?_push] at hi
    split at hi
    · cases hi
      exact .inl (hc.mono hs)
    · exact .inr ⟨_, hi, rfl⟩

/-- Changing an instance does not change which instances there are. -/
lemma Grows.modifyInstance (N : Nesting) (s : Store) (id : InstanceId) (f : Instance → Instance) :
    s.Grows N N { s with instances := s.instances.modify id f } where
  frames := Nat.le_refl _
  instances := Nat.le_of_eq (by simp)
  stamps := Nat.le_refl _
  enclosing _ _ := rfl
  this _ _ h := h

/-- An instance keeps its class when it is changed. -/
lemma cls_modifyInstance {id other : InstanceId} {f : Instance → Instance} {i : Instance}
    (hf : ∀ i, (f i).cls = i.cls) (h : (s.instances.modify id f)[other]? = some i) :
    ∃ old, s.instances[other]? = some old ∧ i.cls = old.cls := by
  rw [Array.getElem?_modify] at h
  split at h
  · obtain ⟨old, hold, rfl⟩ := Option.map_eq_some_iff.mp h
    exact ⟨old, hold, hf old⟩
  · exact ⟨i, h, rfl⟩

lemma WellFormed.setField (h : s.WellFormed F N) (id : InstanceId) (name : String)
    (hvalue : value.WellFormed F N s) : (s.setField id name value).WellFormed F N := by
  have hs : s.Grows N N (s.setField id name value) := .modifyInstance N s id _
  have hclasses : ∀ {other : InstanceId} {i},
      (s.setField id name value).instances[other]? = some i →
      ∃ old, s.instances[other]? = some old ∧ i.cls = old.cls := cls_modifyInstance fun _ => rfl
  refine h.grow hs .inr (fun hfound => ?_) (fun found hfound => ?_) fun hi => .inr (hclasses hi)
  · rcases find?_setField hfound with rfl | hold
    · exact .inl (hvalue.mono hs)
    · exact .inr hold
  · exact .inr (by rwa [elements_setField] at hfound)

lemma WellFormed.updateElements (h : s.WellFormed F N) (id : InstanceId)
    {f : Array Value → Array Value} (hf : ∀ value ∈ f (s.elements id), value.WellFormed F N s) :
    (s.updateElements id f).WellFormed F N := by
  have hs : s.Grows N N (s.updateElements id f) := .modifyInstance N s id _
  have hclasses : ∀ {other : InstanceId} {i}, (s.updateElements id f).instances[other]? = some i →
      ∃ old, s.instances[other]? = some old ∧ i.cls = old.cls := cls_modifyInstance fun _ => rfl
  refine h.grow hs .inr (fun hfound => ?_) (fun {other} found hfound => ?_)
    fun hi => .inr (hclasses hi)
  · exact .inr (by rwa [fields_updateElements] at hfound)
  · by_cases hother : other = id
    · subst hother
      by_cases hlt : other < s.instances.size
      · rw [elements_updateElements_self hlt] at hfound
        exact .inl ((hf found hfound).mono hs)
      · have hsize := Nat.le_antisymm hs.instances (Nat.le_of_eq (by simp [Store.updateElements]))
        rw [elements_of_size_le (hsize ▸ Nat.le_of_not_lt hlt)] at hfound
        simp at hfound
    · exact .inr (by rwa [elements_updateElements_of_ne hother] at hfound)

/-! ### Stamps and methods -/

lemma Grows.freshStamp (N : Nesting) (s : Store) : s.Grows N N s.freshStamp.2 where
  frames := Nat.le_refl _
  instances := Nat.le_refl _
  stamps := Nat.le_succ _
  enclosing _ _ := rfl
  this _ _ := id

lemma WellFormed.freshStamp (h : s.WellFormed F N) : s.freshStamp.2.WellFormed F N :=
  h.grow (.freshStamp N s) .inr .inr (fun _ => .inr) fun hi => .inr ⟨_, hi, rfl⟩

/-- What comes into being when a declared method is bound. -/
def boundMethod (s : Store) (closure : Closure) : Made :=
  .method s.nextStamp { closure with scope := s.frames.size :: closure.scope }

/-- **A method is bound in a frame of its own**, which is nested where the method was made and
defines `this`. -/
lemma WellFormed.bindMethod (h : s.WellFormed F N) {method : Method} {id : InstanceId}
    (hmethod : ∀ closure, method = .declared closure →
      closure.WellFormed N s ∧ F (s.boundMethod closure))
    (hid : id < s.instances.size) : ∃ N', s.Grows N N' (s.bindMethod method id).2 ∧
      (s.bindMethod method id).2.WellFormed F N' ∧
      (s.bindMethod method id).1.WellFormed F N' (s.bindMethod method id).2 := by
  have hfresh := Grows.freshStamp N s
  cases method with
  | builtin b =>
    refine ⟨N, hfresh, h.freshStamp, Nat.lt_succ_self _, fun other hother => ?_, nofun⟩
    cases hother
    exact hid
  | declared closure =>
    obtain ⟨⟨hdecl, outer, houter, hscope⟩, hmade⟩ := hmethod closure rfl
    have hthis : ∀ (name : String) (value : Value),
        (Bindings.empty.insert "this" (.object id)).find? name = some value →
        value.WellFormed F N s.freshStamp.2 := by
      intro name value hvalue
      rw [(Bindings.find?_singleton hvalue).2]
      exact hid
    refine ⟨_, hfresh.trans (.addFrame N s.freshStamp.2 _ houter),
      h.freshStamp.addFrame hthis houter, ⟨Nat.lt_succ_self _, ⟨hdecl, ?_⟩, .inr ⟨hmade, ?_⟩⟩⟩
    · refine ⟨s.frames.size, by simp [Store.bindMethod, Store.addFrame, Store.freshStamp], ?_⟩
      show s.frames.size :: closure.scope = _
      rw [hscope]
      exact (Nesting.chain_nest N houter).symm
    · refine ⟨s.frames.size, closure.scope, id, rfl, ?_, hid⟩
      have hframe := frame_addFrame_self s.freshStamp.2 (.insert .empty "this" (.object id))
      exact (congrArg (·.find? "this") hframe).trans (Bindings.find?_insert_self ..)

/-! ### The first store -/

/-- A class of builtins declares no method. -/
lemma wellFormed_builtinClass {stamp : Stamp} (hstamp : stamp < s.nextStamp) (name : String)
    (methods : List Builtin) : (builtinClass stamp name methods).WellFormed F N s := by
  have hnone : ∀ c ∈ (none : Option Class), c.WellFormed F N s := nofun
  refine .extend hnone nofun hstamp fun closure hdeclares => ?_
  obtain ⟨label, hclosure⟩ := hdeclares
  rw [Bindings.find?_insertAll_map] at hclosure
  obtain ⟨b, -, heq⟩ := Option.map_eq_some_iff.mp hclosure
  cases heq

/-- **The first store is well formed.** -/
lemma wellFormed_initial (F : Made → Prop) : initial.WellFormed F .initial where
  globals := Nat.zero_lt_one
  bindings frame name value hvalue := by
    by_cases hframe : frame = globalFrame
    · subst hframe
      have hglobals := Bindings.mem_of_find?_insertAll hvalue
      simp only [Bindings.find?_empty, reduceCtorEq, or_false, List.mem_cons, Prod.mk.injEq,
        List.not_mem_nil] at hglobals
      rcases hglobals with ⟨-, rfl⟩ | ⟨-, rfl⟩ | ⟨-, rfl⟩
      · exact ⟨by decide, nofun, fun _ => rfl⟩
      · exact wellFormed_builtinClass (by decide) _ _
      · exact wellFormed_builtinClass (by decide) _ _
    · have hempty : initial.frame frame = .empty :=
        frame_of_size_le (Nat.one_le_iff_ne_zero.mpr hframe)
      rw [hempty] at hvalue
      cases hvalue
  fields id name value hvalue := by
    rw [fields_of_size_le (Nat.zero_le id)] at hvalue
    cases hvalue
  elements id value hvalue := by
    rw [elements_of_size_le (Nat.zero_le id)] at hvalue
    simp at hvalue
  classes id i hi := by
    have hnone : initial.instances[id]? = none := rfl
    rw [hnone] at hi
    cases hi

end Store

end LoxLang
