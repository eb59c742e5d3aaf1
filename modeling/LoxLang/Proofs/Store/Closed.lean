import LoxLang.Proofs.Machine.Inheritance

/-!
# Closed stores

A value refers to instances: an object to itself, a bound builtin to its receiver.  A store is
*closed* when everything that is bound in it refers to instances that exist.  Instances are only
ever added, so a closed store stays closed when a value that refers to existing instances is bound.

A function refers to instances only through the frames of its scope, and a class refers to none: its
methods are not bound yet.  Only the clock is called without a receiver.
-/

namespace LoxLang

/-! ## What values refer to -/

/-- The instances that a callable refers to are among the first `n`.  Only the clock has no
receiver. -/
def Callable.RefersBelow (n : ℕ) : Callable → Prop
  | .builtin _ b none => b = .clock
  | .builtin _ _ (some id) => id < n
  | .function .. => True
  | .cls _ => True

/-- The instances that a value refers to are among the first `n`. -/
def Value.RefersBelow (n : ℕ) : Value → Prop
  | .object id => id < n
  | .callable c => c.RefersBelow n
  | _ => True

lemma Callable.RefersBelow.mono {n n' : ℕ} {c : Callable} (h : c.RefersBelow n) (hn : n ≤ n') :
    c.RefersBelow n' := by
  rcases c with ⟨stamp, b, _ | id⟩ | _ | _
  · exact h
  · exact Nat.lt_of_lt_of_le h hn
  · trivial
  · trivial

lemma Value.RefersBelow.mono {n n' : ℕ} {v : Value} (h : v.RefersBelow n) (hn : n ≤ n') :
    v.RefersBelow n' := by
  cases v with
  | object id => exact Nat.lt_of_lt_of_le h hn
  | callable c => exact Callable.RefersBelow.mono h hn
  | _ => trivial

lemma Value.refersBelow_ofLiteral (n : ℕ) (value : Literal) : (ofLiteral value).RefersBelow n := by
  cases value <;> trivial

/-! ## Instances after a change -/

namespace Store

variable {s : Store} {id other : InstanceId}

lemma fields_of_size_le (h : s.instances.size ≤ id) : s.fields id = .empty := by
  simp [fields, h]

lemma elements_of_size_le (h : s.instances.size ≤ id) : s.elements id = #[] := by
  simp [elements, h]

lemma fields_addInstance (s : Store) (c : Class) (id : InstanceId) :
    (s.addInstance c).2.fields id = s.fields id := by
  simp only [fields, addInstance, Array.getElem?_push]
  split
  · next hid => simp [hid]
  · rfl

/-- A new instance has no elements. -/
lemma elements_addInstance (s : Store) (c : Class) (id : InstanceId) :
    (s.addInstance c).2.elements id = s.elements id := by
  simp only [elements, addInstance, Array.getElem?_push]
  split
  · next hid => simp [hid]
  · rfl

lemma elements_setField (s : Store) (id : InstanceId) (name : String) (value : Value)
    (other : InstanceId) : (s.setField id name value).elements other = s.elements other := by
  simp only [elements, setField, Array.getElem?_modify]
  split
  · simp [Option.map_map, Function.comp_def]
  · rfl

lemma find?_setField {name field : String} {value found : Value}
    (h : ((s.setField id name value).fields other).find? field = some found) :
    found = value ∨ (s.fields other).find? field = some found := by
  simp only [fields, setField, Array.getElem?_modify] at h ⊢
  split at h
  · cases hi : s.instances[other]? with
    | none =>
      rw [hi] at h
      exact .inr h
    | some i =>
      rw [hi] at h
      exact Bindings.find?_insert h
  · exact .inr h

lemma fields_updateElements (s : Store) (id : InstanceId) (f : Array Value → Array Value)
    (other : InstanceId) : (s.updateElements id f).fields other = s.fields other := by
  simp only [fields, updateElements, Array.getElem?_modify]
  split
  · simp [Option.map_map, Function.comp_def]
  · rfl

lemma elements_updateElements_self (h : id < s.instances.size) (f : Array Value → Array Value) :
    (s.updateElements id f).elements id = f (s.elements id) := by
  simp [elements, updateElements, Array.getElem_modify, h]

lemma elements_updateElements_of_ne (h : other ≠ id) (f : Array Value → Array Value) :
    (s.updateElements id f).elements other = s.elements other := by
  simp [elements, updateElements, Array.getElem?_modify, Ne.symm h]

end Store

/-! ## Closed stores -/

/-- **Everything in the store refers to instances of the store.** -/
structure Store.Closed (s : Store) : Prop where
  frames : ∀ frame name value, (s.frame frame).find? name = some value →
    value.RefersBelow s.instances.size
  fields : ∀ id name value, (s.fields id).find? name = some value →
    value.RefersBelow s.instances.size
  elements : ∀ id, ∀ value ∈ s.elements id, value.RefersBelow s.instances.size

namespace Store.Closed

variable {s : Store} {id : InstanceId} {value : Value}

lemma addFrame (h : s.Closed) {bindings : Bindings Value}
    (hbindings : ∀ name value, bindings.find? name = some value →
      value.RefersBelow s.instances.size) : (s.addFrame bindings).2.Closed := by
  refine ⟨fun frame name value hvalue => ?_, h.fields, h.elements⟩
  rcases find?_addFrame hvalue with hnew | hold
  · exact hbindings name value hnew
  · exact h.frames frame name value hold

lemma bindIn (h : s.Closed) (frame : FrameId) (name : String)
    (hvalue : value.RefersBelow s.instances.size) : (s.bindIn frame name value).Closed := by
  refine ⟨fun other label found hfound => ?_, h.fields, h.elements⟩
  rcases find?_bindIn hfound with rfl | hold
  · exact hvalue
  · exact h.frames other label found hold

lemma define (h : s.Closed) (scope : Scope) (name : String)
    (hvalue : value.RefersBelow s.instances.size) : (s.define scope name value).Closed := by
  cases scope with
  | nil => exact h
  | cons frame outer => exact h.bindIn frame name hvalue

lemma addInstance (h : s.Closed) (c : Class) : (s.addInstance c).2.Closed := by
  have hgrows : s.instances.size ≤ (s.addInstance c).2.instances.size := by simp [Store.addInstance]
  refine ⟨fun frame name value hvalue => ?_, fun id name value hvalue => ?_,
    fun id value hvalue => ?_⟩
  · exact (h.frames frame name value hvalue).mono hgrows
  · rw [fields_addInstance] at hvalue
    exact (h.fields id name value hvalue).mono hgrows
  · rw [elements_addInstance] at hvalue
    exact (h.elements id value hvalue).mono hgrows

lemma setField (h : s.Closed) (id : InstanceId) (name : String)
    (hvalue : value.RefersBelow s.instances.size) : (s.setField id name value).Closed := by
  have hsize : (s.setField id name value).instances.size = s.instances.size := by
    simp [Store.setField]
  constructor
  · rw [hsize]
    exact h.frames
  · intro other field found hfound
    rw [hsize]
    rcases find?_setField hfound with rfl | hold
    · exact hvalue
    · exact h.fields other field found hold
  · intro other found hfound
    rw [hsize]
    rw [elements_setField] at hfound
    exact h.elements other found hfound

lemma updateElements (h : s.Closed) (id : InstanceId) {f : Array Value → Array Value}
    (hf : ∀ value ∈ f (s.elements id), value.RefersBelow s.instances.size) :
    (s.updateElements id f).Closed := by
  have hsize : (s.updateElements id f).instances.size = s.instances.size := by
    simp [Store.updateElements]
  constructor
  · rw [hsize]
    exact h.frames
  · intro other field found hfound
    rw [hsize]
    rw [fields_updateElements] at hfound
    exact h.fields other field found hfound
  · intro other found hfound
    rw [hsize]
    by_cases hother : other = id
    · subst hother
      by_cases hlt : other < s.instances.size
      · rw [elements_updateElements_self hlt] at hfound
        exact hf found hfound
      · rw [elements_of_size_le (by rw [hsize]; exact Nat.le_of_not_lt hlt)] at hfound
        simp at hfound
    · rw [elements_updateElements_of_ne hother] at hfound
      exact h.elements other found hfound

lemma freshStamp (h : s.Closed) : s.freshStamp.2.Closed := ⟨h.frames, h.fields, h.elements⟩

lemma bindMethod (h : s.Closed) (method : Method) (hid : id < s.instances.size) :
    (s.bindMethod method id).2.Closed := by
  cases method with
  | builtin b => exact h.freshStamp
  | declared closure =>
    apply h.freshStamp.addFrame
    intro name value hvalue
    rw [(Bindings.find?_singleton hvalue).2]
    exact hid

end Store.Closed

lemma Store.closed_initial : Store.initial.Closed := by
  constructor
  · intro frame name value hvalue
    by_cases hframe : frame = globalFrame
    · subst hframe
      have hglobals := Bindings.mem_of_find?_insertAll hvalue
      simp only [Bindings.find?_empty, reduceCtorEq, or_false, List.mem_cons, Prod.mk.injEq,
        List.not_mem_nil] at hglobals
      rcases hglobals with ⟨-, rfl⟩ | ⟨-, rfl⟩ | ⟨-, rfl⟩
      · rfl
      · trivial
      · trivial
    · have hempty : initial.frame frame = .empty :=
        frame_of_size_le (Nat.one_le_iff_ne_zero.mpr hframe)
      rw [hempty] at hvalue
      cases hvalue
  · intro id name value hvalue
    rw [fields_of_size_le (Nat.zero_le id)] at hvalue
    cases hvalue
  · intro id value hvalue
    rw [elements_of_size_le (Nat.zero_le id)] at hvalue
    simp at hvalue

end LoxLang
