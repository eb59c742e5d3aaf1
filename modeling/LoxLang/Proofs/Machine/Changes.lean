import LoxLang.Store.Basic
import Mathlib.Logic.Relation
import Mathlib.Tactic.Common

/-!
# How the store changes

There are six things that a run does to the store (`Store.Change`), and whatever it does is a
sequence of them (`Store.Becomes`).  Three facts about every such sequence are all that is needed to
know what lasts: an instance stays an instance of its class, a frame keeps the names that it has,
and a name that is not among those that are bound keeps its value where it has one.
-/

namespace LoxLang

/-! ## Names in frames -/

namespace Bindings

variable {α : Type} {b : Bindings α} {name other : String} {value found : α}

lemma exists_of_contains (h : b.contains name = true) : ∃ value, b.find? name = some value :=
  Option.isSome_iff_exists.mp h

lemma find?_insert (h : (b.insert name value).find? other = some found) :
    found = value ∨ b.find? other = some found := by
  by_cases hname : other = name
  · rw [hname, find?_insert_self, Option.some.injEq] at h
    exact .inl h.symm
  · rw [find?_insert_of_ne b hname] at h
    exact .inr h

lemma contains_insert (h : b.contains other = true) :
    (b.insert name value).contains other = true := by
  by_cases hname : other = name
  · rw [hname, contains, find?_insert_self]
    rfl
  · rwa [contains, find?_insert_of_ne b hname]

lemma contains_insert_self : (b.insert name value).contains name = true := by
  rw [contains, find?_insert_self]
  rfl

end Bindings

namespace Store

variable {s : Store} {id frame : FrameId} {name other : String} {value found : Value}
  {bindings : Bindings Value}

lemma frame_bindIn (s : Store) (id frame : FrameId) (name : String) (value : Value) :
    (s.bindIn id name value).frame frame = s.frame frame ∨
      frame = id ∧ (s.bindIn id name value).frame frame = (s.frame frame).insert name value := by
  by_cases hid : frame = id
  · subst hid
    by_cases hlt : frame < s.frames.size
    · exact .inr ⟨rfl, frame_bindIn_self s hlt name value⟩
    · left
      simp [Store.frame, bindIn, hlt]
  · exact .inl (frame_bindIn_of_ne s hid name value)

lemma find?_bindIn (h : ((s.bindIn id name value).frame frame).find? other = some found) :
    found = value ∨ (s.frame frame).find? other = some found := by
  rcases frame_bindIn s id frame name value with hframe | ⟨-, hframe⟩
  · exact .inr (by rwa [hframe] at h)
  · rw [hframe] at h
    exact Bindings.find?_insert h

lemma contains_bindIn (h : (s.frame frame).contains other = true) :
    ((s.bindIn id name value).frame frame).contains other = true := by
  rcases frame_bindIn s id frame name value with hframe | ⟨-, hframe⟩
  · rwa [hframe]
  · rw [hframe]
    exact Bindings.contains_insert h

lemma frame_of_size_le (h : s.frames.size ≤ frame) : s.frame frame = .empty := by
  simp [Store.frame, h]

lemma frame_addFrame (s : Store) (bindings : Bindings Value) (frame : FrameId) :
    (s.addFrame bindings).2.frame frame = s.frame frame ∨
      frame = s.frames.size ∧ (s.addFrame bindings).2.frame frame = bindings := by
  rcases Nat.lt_trichotomy frame s.frames.size with hlt | heq | hgt
  · exact .inl (frame_addFrame_of_lt s bindings hlt)
  · right
    subst heq
    exact ⟨rfl, frame_addFrame_self s bindings⟩
  · left
    rw [frame_of_size_le (Nat.le_of_lt hgt), frame_of_size_le]
    simp only [addFrame, Array.size_push]
    exact hgt

lemma find?_addFrame (h : ((s.addFrame bindings).2.frame frame).find? other = some found) :
    bindings.find? other = some found ∨ (s.frame frame).find? other = some found := by
  rcases frame_addFrame s bindings frame with hframe | ⟨-, hframe⟩
  · exact .inr (by rwa [hframe] at h)
  · exact .inl (by rwa [hframe] at h)

lemma contains_addFrame (h : (s.frame frame).contains other = true) :
    ((s.addFrame bindings).2.frame frame).contains other = true := by
  rcases frame_addFrame s bindings frame with hframe | ⟨hid, -⟩
  · rwa [hframe]
  · rw [frame_of_size_le (Nat.le_of_eq hid.symm)] at h
    simp [Bindings.contains] at h

end Store

/-! ## Changes -/

/-- **One change of a store.**  Only names with a given property are bound anew in an old frame. -/
inductive Store.Change (N : String → Prop) (s : Store) : Store → Prop
  | addFrame (bindings : Bindings Value) : Change N s (s.addFrame bindings).2
  | bindIn (id : FrameId) {name : String} (value : Value) (hname : N name) :
      Change N s (s.bindIn id name value)
  | addInstance (c : Class) : Change N s (s.addInstance c).2
  | setField (id : InstanceId) (name : String) (value : Value) :
      Change N s (s.setField id name value)
  | updateElements (id : InstanceId) (f : Array Value → Array Value) :
      Change N s (s.updateElements id f)
  | freshStamp : Change N s s.freshStamp.2

/-- **A store becomes another one** by changes one after the other. -/
def Store.Becomes (N : String → Prop) : Store → Store → Prop :=
  Relation.ReflTransGen (Store.Change N)

namespace Store

variable {N N' : String → Prop} {s s' s'' : Store}

namespace Becomes

lemma refl (N : String → Prop) (s : Store) : s.Becomes N s := Relation.ReflTransGen.refl

lemma trans (h : s.Becomes N s') (h' : s'.Becomes N s'') : s.Becomes N s'' :=
  Relation.ReflTransGen.trans h h'

lemma mono (h : s.Becomes N s') (hN : ∀ name, N name → N' name) : s.Becomes N' s' := by
  induction h with
  | refl => exact .refl N' s
  | tail _ hchange ih =>
    refine ih.tail ?_
    cases hchange with
    | addFrame bindings => exact .addFrame bindings
    | bindIn id value hname => exact .bindIn id value (hN _ hname)
    | addInstance c => exact .addInstance c
    | setField id name value => exact .setField id name value
    | updateElements id f => exact .updateElements id f
    | freshStamp => exact .freshStamp

/-! ### What the operations of a run do -/

lemma addFrame (s : Store) (bindings : Bindings Value) : s.Becomes N (s.addFrame bindings).2 :=
  .single (.addFrame bindings)

lemma addInstance (s : Store) (c : Class) : s.Becomes N (s.addInstance c).2 :=
  .single (.addInstance c)

lemma setField (s : Store) (id : InstanceId) (name : String) (value : Value) :
    s.Becomes N (s.setField id name value) := .single (.setField id name value)

lemma updateElements (s : Store) (id : InstanceId) (f : Array Value → Array Value) :
    s.Becomes N (s.updateElements id f) := .single (.updateElements id f)

lemma freshStamp (s : Store) : s.Becomes N s.freshStamp.2 := .single .freshStamp

lemma bindIn (s : Store) (id : FrameId) {name : String} (value : Value) (hname : N name) :
    s.Becomes N (s.bindIn id name value) := .single (.bindIn id value hname)

lemma define (s : Store) (scope : Scope) {name : String} (value : Value) (hname : N name) :
    s.Becomes N (s.define scope name value) := by
  cases scope with
  | nil => exact .refl N s
  | cons id outer => exact .bindIn s id value hname

lemma bindMethod (s : Store) (method : Method) (id : InstanceId) :
    s.Becomes N (s.bindMethod method id).2 := by
  cases method with
  | builtin b => exact .freshStamp s
  | declared closure =>
    exact (Becomes.freshStamp s).trans (.addFrame s.freshStamp.2 _)

/-! ### What lasts -/

/-- **An instance stays an instance of its class.** -/
lemma instances (h : s.Becomes N s') {id : InstanceId} {i : Instance}
    (hi : s.instances[id]? = some i) : ∃ i', s'.instances[id]? = some i' ∧ i'.cls = i.cls := by
  induction h with
  | refl => exact ⟨i, hi, rfl⟩
  | @tail s₁ _ _ hchange ih =>
    obtain ⟨i₁, hi₁, hcls⟩ := ih
    have hmodified : ∀ other (f : Instance → Instance), (∀ i, (f i).cls = i.cls) →
        ∃ i', (s₁.instances.modify other f)[id]? = some i' ∧ i'.cls = i.cls := by
      intro other f hf
      rw [Array.getElem?_modify, hi₁]
      split
      · exact ⟨f i₁, rfl, (hf i₁).trans hcls⟩
      · exact ⟨i₁, rfl, hcls⟩
    cases hchange with
    | addInstance c =>
      have hlt := (Array.getElem?_eq_some_iff.mp hi₁).1
      exact ⟨i₁, by simpa [Store.addInstance, Array.getElem?_push_lt, hlt] using hi₁, hcls⟩
    | setField other name value =>
      exact hmodified other (fun i => { i with fields := i.fields.insert name value }) fun _ => rfl
    | updateElements other f =>
      exact hmodified other (fun i => { i with elements := f i.elements }) fun _ => rfl
    | addFrame | bindIn | freshStamp => exact ⟨i₁, hi₁, hcls⟩

/-- **A frame keeps its names.** -/
lemma contains (h : s.Becomes N s') {frame : FrameId} {name : String}
    (hname : (s.frame frame).contains name = true) : (s'.frame frame).contains name = true := by
  induction h with
  | refl => exact hname
  | tail _ hchange ih =>
    cases hchange with
    | addFrame bindings => exact contains_addFrame ih
    | bindIn id value _ => exact contains_bindIn ih
    | addInstance | setField | updateElements | freshStamp => exact ih

/-- **A name that is not bound anew keeps its value.** -/
lemma find? (h : s.Becomes N s') {frame : FrameId} {name : String} {value : Value}
    (hname : ¬ N name) (hvalue : (s.frame frame).find? name = some value) :
    (s'.frame frame).find? name = some value := by
  induction h with
  | refl => exact hvalue
  | @tail s₁ _ _ hchange ih =>
    cases hchange with
    | addFrame bindings =>
      rcases frame_addFrame s₁ bindings frame with hframe | ⟨rfl, -⟩
      · rwa [hframe]
      · rw [frame_of_size_le (Nat.le_refl _)] at ih
        cases ih
    | @bindIn id other new hother =>
      rcases frame_bindIn s₁ id frame other new with hframe | ⟨-, hframe⟩
      · rwa [hframe]
      · have hne : name ≠ other := fun heq => hname (heq ▸ hother)
        rwa [hframe, Bindings.find?_insert_of_ne _ hne]
    | addInstance | setField | updateElements | freshStamp => exact ih

end Becomes

end Store

end LoxLang
