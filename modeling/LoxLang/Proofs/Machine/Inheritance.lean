import LoxLang.Proofs.Machine.Agreement
import LoxLang.Proofs.Machine.Rules
import LoxLang.Proofs.Scope.Methods
import Mathlib.Data.List.Induction

/-!
# Where methods come from

A class value is a table of methods and the tables of its ancestors; nothing in it tells which
statement made it.  In a watched run this can be said: the superclass of a class is what the name in
its statement gave right before the frame for `super` was made (`Inherited`), and so, class by
class, a look-up takes the method that the nearest statement of the chain declares last
(`Class.Finds`).

`this` and `super` are bound in frames of their own, when a method is bound to an instance and when
a class statement is executed.  No program binds them anew, since neither is a name.  So wherever
one of them is bound at all, it is still bound to what the frame was made with (`Furnished`): to an
instance, or to the superclass that the execution of a class statement evaluated.  This is kept by
everything that a program of tidy statements does, one case for each expression and statement, by
induction on the fuel.
-/

namespace LoxLang

/-! ## What a look-up finds -/

/-- The method that a class statement, executed in a scope, declares under a name.  Of two methods
with one name the later counts. -/
def ClassDecl.method? (c : ClassDecl) (scope : Scope) (name : String) : Option Method :=
  (c.methods.reverse.find? fun d => d.name.lexeme = name).map fun d =>
    .declared ⟨d, scope, d.isInitializer⟩

section Finds

variable (K : ClassDecl → Prop) (trace : List Observation)

/-- **An execution of a class statement evaluated its superclass.**  The name of the superclass was
followed on a machine and gave the class there, and the next thing that happened is that the frame
for `super` was made, in front of the scope of that machine. -/
def Inherited (c : ClassDecl) (frame : FrameId) (outer : Scope) (parent : Class) : Prop :=
  K c ∧ ∃ before after ref token m, c.superclass = some (.variable ref token) ∧
    (∀ n, evaluate (n + 1) (.variable ref token) m = (.ok (.callable (.cls parent)), m)) ∧
    m.scope = outer ∧ trace = before ++ .followed ⟨.read, ref, token⟩ m ::
      .opened (.parent c.name c.methods) frame outer :: after

/-- **What a name stands for in a class**, said with the statements that made the class and its
ancestors: the method that the class declares itself, or else what the name stands for in the class
that its superclass evaluated to. -/
inductive Class.Finds (name : String) : Class → Option Method → Prop
  | builtin (stamp : Stamp) (label : String) (methods : List Builtin) :
      Finds name (builtinClass stamp label methods)
        ((methods.reverse.find? fun b => b.name = name).map .builtin)
  | base {c : ClassDecl} (stamp : Stamp) (scope : Scope) (hc : K c) (hbase : c.superclass = none) :
      Finds name (.extend ⟨stamp, c.name.lexeme, methodTable scope c.methods⟩ none)
        (c.method? scope name)
  | derived {c : ClassDecl} {frame : FrameId} {outer : Scope} {parent : Class}
      {found : Option Method} (stamp : Stamp) (hc : Inherited K trace c frame outer parent)
      (hparent : Finds name parent found) :
      Finds name
        (.extend ⟨stamp, c.name.lexeme, methodTable (frame :: outer) c.methods⟩ (some parent))
        ((c.method? (frame :: outer) name).or found)

end Finds

/-- The last entry with a name counts. -/
lemma Bindings.find?_insertAll_map {α β : Type} (f : β → String × α) (entries : List β)
    (name : String) : ((empty : Bindings α).insertAll (entries.map f)).find? name =
      (entries.reverse.find? fun x => (f x).1 = name).map fun x => (f x).2 := by
  induction entries using List.reverseRecOn with
  | nil => rfl
  | append_singleton rest x ih =>
    have hlast : (empty : Bindings α).insertAll ((rest ++ [x]).map f) =
        (empty.insertAll (rest.map f)).insert (f x).1 (f x).2 := by
      simp [insertAll, List.foldl_append]
    rw [hlast, List.reverse_append, List.reverse_singleton, List.singleton_append, List.find?_cons]
    by_cases hname : (f x).1 = name
    · simp [← hname]
    · rw [find?_insert_of_ne _ (Ne.symm hname), ih]
      simp [hname]

lemma Bindings.find?_singleton {α : Type} {name other : String} {value found : α}
    (h : ((empty : Bindings α).insert name value).find? other = some found) :
    other = name ∧ found = value := by
  by_cases hname : other = name
  · rw [hname, find?_insert_self, Option.some.injEq] at h
    exact ⟨hname, h.symm⟩
  · rw [find?_insert_of_ne _ hname] at h
    cases h

lemma find?_methodTable (c : ClassDecl) (scope : Scope) (name : String) :
    (methodTable scope c.methods).find? name = c.method? scope name :=
  Bindings.find?_insertAll_map _ _ _

lemma Class.lookup?_builtinClass (stamp : Stamp) (label : String) (methods : List Builtin)
    (name : String) : (builtinClass stamp label methods).lookup? name =
      (methods.reverse.find? fun b => b.name = name).map .builtin := by
  simp [lookup?, layers, builtinClass, Bindings.find?_insertAll_map]

/-- The statements leave no choice: a look-up is the only way to say what a name stands for. -/
lemma Class.Finds.eq_lookup? {K : ClassDecl → Prop} {trace : List Observation} {name : String}
    {c : Class} {found : Option Method} (h : c.Finds K trace name found) :
    found = c.lookup? name := by
  induction h with
  | builtin stamp label methods => rw [Class.lookup?_builtinClass]
  | base stamp scope _ _ =>
    rw [Class.lookup?_extend, find?_methodTable, Option.bind_none, Option.or_none]
  | derived stamp _ _ ih => rw [Class.lookup?_extend, find?_methodTable, Option.bind_some, ih]

/-! ## What a machine holds -/

section Known

variable (K : ClassDecl → Prop) (trace : List Observation)

/-- Look-ups in a class go by the statements that made it. -/
def Class.Known (c : Class) : Prop := ∀ name, c.Finds K trace name (c.lookup? name)

/-- What a look-up gives is the one thing that the statements say. -/
lemma Class.Known.finds_iff {K : ClassDecl → Prop} {trace : List Observation} {c : Class}
    (h : c.Known K trace) (name : String) (found : Option Method) :
    c.Finds K trace name found ↔ found = c.lookup? name := by
  constructor
  · exact Class.Finds.eq_lookup?
  · rintro rfl
    exact h name

/-- A function has a tidy declaration, and a class is known. -/
def Callable.Known : Callable → Prop
  | .function _ closure => closure.decl.Tidy K
  | .cls c => c.Known K trace
  | .builtin .. => True

/-- A value is known, if it is not callable or its callable is. -/
def Value.Known : Value → Prop
  | .callable c => c.Known K trace
  | _ => True

/-- A value that is returned is known. -/
def Flow.Known (flow : Flow) : Prop := ∀ value, flow = .returned value → value.Known K trace

/-- All that an instance holds is known. -/
structure Instance.Known (i : Instance) : Prop where
  cls : i.cls.Known K trace
  fields : ∀ name value, i.fields.find? name = some value → value.Known K trace
  elements : ∀ value ∈ i.elements, value.Known K trace

/-- **What is bound in a store.**  Where `this` is bound it is an instance, and where `super` is
bound it is the superclass that was evaluated when its frame was made. -/
structure Furnished (s : Store) : Prop where
  frames : ∀ frame name value, (s.frame frame).find? name = some value → value.Known K trace
  instances : ∀ (id : InstanceId) i, s.instances[id]? = some i → i.Known K trace
  this : ∀ frame value, (s.frame frame).find? "this" = some value →
    ∃ id : InstanceId, value = .object id ∧ id < s.instances.size
  super : ∀ frame value, (s.frame frame).find? "super" = some value →
    ∃ c outer parent, value = .callable (.cls parent) ∧ Inherited K trace c frame outer parent

end Known

section Mono

variable {K : ClassDecl → Prop} {trace trace' : List Observation}

lemma Inherited.mono {c : ClassDecl} {frame : FrameId} {outer : Scope} {parent : Class}
    (h : Inherited K trace c frame outer parent) (htrace : trace <+: trace') :
    Inherited K trace' c frame outer parent := by
  obtain ⟨hc, before, after, ref, token, m, hsuperclass, heval, hscope, rfl⟩ := h
  obtain ⟨later, rfl⟩ := htrace
  exact ⟨hc, before, after ++ later, ref, token, m, hsuperclass, heval, hscope, by simp⟩

lemma Class.Finds.mono {name : String} {c : Class} {found : Option Method}
    (h : c.Finds K trace name found) (htrace : trace <+: trace') : c.Finds K trace' name found := by
  induction h with
  | builtin stamp label methods => exact .builtin stamp label methods
  | base stamp scope hc hbase => exact .base stamp scope hc hbase
  | derived stamp hc _ ih => exact .derived stamp (hc.mono htrace) ih

lemma Class.Known.mono {c : Class} (h : c.Known K trace) (htrace : trace <+: trace') :
    c.Known K trace' := fun name => (h name).mono htrace

lemma Callable.Known.mono {c : Callable} (h : c.Known K trace) (htrace : trace <+: trace') :
    c.Known K trace' := by
  cases c with
  | builtin => trivial
  | function => exact h
  | cls c => exact Class.Known.mono h htrace

lemma Value.Known.mono {v : Value} (h : v.Known K trace) (htrace : trace <+: trace') :
    v.Known K trace' := by
  cases v with
  | callable c => exact Callable.Known.mono h htrace
  | _ => trivial

lemma Instance.Known.mono {i : Instance} (h : i.Known K trace) (htrace : trace <+: trace') :
    i.Known K trace' where
  cls := h.cls.mono htrace
  fields name value hvalue := (h.fields name value hvalue).mono htrace
  elements value hvalue := (h.elements value hvalue).mono htrace

lemma Furnished.mono {s : Store} (h : Furnished K trace s) (htrace : trace <+: trace') :
    Furnished K trace' s where
  frames frame name value hvalue := (h.frames frame name value hvalue).mono htrace
  instances id i hi := (h.instances id i hi).mono htrace
  this := h.this
  super frame value hvalue := by
    obtain ⟨c, outer, parent, rfl, hc⟩ := h.super frame value hvalue
    exact ⟨c, outer, parent, rfl, hc.mono htrace⟩

lemma Flow.known_normal : Flow.Known K trace .normal := nofun

lemma Value.IsPlain.known {v : Value} (h : v.IsPlain) : v.Known K trace := by
  cases v with
  | callable c => exact absurd rfl (h c)
  | _ => trivial

/-- A method that is found was declared by a known statement, if it was declared. -/
lemma Class.Finds.tidy (htidy : ∀ c, K c → FunDecl.AllTidy K c.methods) {name : String} {c : Class}
    {found : Option Method} (h : c.Finds K trace name found) {closure : Closure}
    (hfound : found = some (.declared closure)) : closure.decl.Tidy K := by
  have hown : ∀ {c : ClassDecl} {scope : Scope}, K c →
      c.method? scope name = some (.declared closure) → closure.decl.Tidy K := by
    intro c scope hc hmethod
    obtain ⟨d, hd, heq⟩ := Option.map_eq_some_iff.mp hmethod
    cases heq
    exact (htidy c hc).mem (List.mem_reverse.mp (List.mem_of_find?_eq_some hd))
  induction h with
  | builtin stamp label methods =>
    obtain ⟨b, -, heq⟩ := Option.map_eq_some_iff.mp hfound
    cases heq
  | base stamp scope hc hbase => exact hown hc hfound
  | derived stamp hc _ ih =>
    rcases Option.or_eq_some_iff.mp hfound with hmethod | ⟨-, hparent⟩
    · exact hown hc.1 hmethod
    · exact ih hparent

end Mono

/-! ## Reads -/

namespace Effect

variable {m m' : Machine} {value : Value}

lemma snd_readAt (scope : Scope) (d : Nat) (name : String) (m : Machine) :
    (readAt scope d name m).2 = m := by
  unfold readAt
  split <;> rfl

lemma snd_readRef (ref : RefId) (name : Token) (m : Machine) : (readRef ref name m).2 = m := by
  unfold readRef
  split
  · exact snd_readAt _ _ _ _
  · unfold readGlobal
    split <;> rfl

/-- What is read is bound somewhere. -/
lemma exists_of_readAt {scope : Scope} {d : Nat} {name : String}
    (h : readAt scope d name m = (.ok value, m')) :
    ∃ frame, (m.store.frame frame).find? name = some value := by
  unfold readAt Store.readAt at h
  cases hframe : scope[d]? with
  | none => simp [hframe] at h
  | some frame =>
    cases hfound : (m.store.frame frame).find? name with
    | none => simp [hframe, hfound] at h
    | some found =>
      simp only [hframe, hfound, Prod.mk.injEq, Outcome.ok.injEq] at h
      exact ⟨frame, h.1 ▸ hfound⟩

lemma exists_of_readRef {ref : RefId} {name : Token} (h : readRef ref name m = (.ok value, m')) :
    ∃ frame, (m.store.frame frame).find? name.lexeme = some value := by
  unfold readRef at h
  split at h
  · exact exists_of_readAt h
  · unfold readGlobal at h
    cases hfound : (m.store.frame globalFrame).find? name.lexeme with
    | none => simp [Store.lookup?, globalScope, hfound] at h
    | some found =>
      simp only [Store.lookup?, globalScope, hfound, Prod.mk.injEq, Outcome.ok.injEq] at h
      exact ⟨globalFrame, h.1 ▸ hfound⟩

end Effect

/-! ## Changes of the store -/

namespace Furnished

variable {K : ClassDecl → Prop} {trace : List Observation} {s : Store}

/-- Binding a name changes neither `this` nor `super`. -/
lemma bindIn (h : Furnished K trace s) (id : FrameId) {name : Token} (hname : name.IsBindable)
    {value : Value} (hvalue : value.Known K trace) :
    Furnished K trace (s.bindIn id name.lexeme value) := by
  have hkept : ∀ (k : Keyword) frame found,
      ((s.bindIn id name.lexeme value).frame frame).find? k.spelling = some found →
      (s.frame frame).find? k.spelling = some found := by
    intro k frame found hfound
    rcases Store.frame_bindIn s id frame name.lexeme value with hframe | ⟨-, hframe⟩
    · rwa [hframe] at hfound
    · rwa [hframe, Bindings.find?_insert_of_ne _ (hname.ne_spelling k).symm] at hfound
  refine ⟨fun frame other found hfound => ?_, h.instances,
    fun frame found hfound => h.this frame found (hkept .this_ frame found hfound),
    fun frame found hfound => h.super frame found (hkept .super_ frame found hfound)⟩
  rcases Store.find?_bindIn hfound with rfl | hold
  · exact hvalue
  · exact h.frames frame other found hold

/-- A new frame with known values. -/
lemma addFrame (h : Furnished K trace s) {bindings : Bindings Value}
    (hbindings : ∀ name value, bindings.find? name = some value → value.Known K trace)
    (hthis : ∀ value, bindings.find? "this" = some value →
      ∃ id : InstanceId, value = .object id ∧ id < s.instances.size)
    (hsuper : ∀ value, bindings.find? "super" = some value → ∃ c outer parent,
      value = .callable (.cls parent) ∧ Inherited K trace c s.frames.size outer parent) :
    Furnished K trace (s.addFrame bindings).2 := by
  refine ⟨fun frame name value hvalue => ?_, h.instances, fun frame value hvalue => ?_,
    fun frame value hvalue => ?_⟩
  · rcases Store.find?_addFrame hvalue with hnew | hold
    · exact hbindings name value hnew
    · exact h.frames frame name value hold
  · rcases Store.find?_addFrame hvalue with hnew | hold
    · exact hthis value hnew
    · exact h.this frame value hold
  · rcases Store.frame_addFrame s bindings frame with hframe | ⟨rfl, hframe⟩
    · rw [hframe] at hvalue
      exact h.super frame value hvalue
    · rw [hframe] at hvalue
      exact hsuper value hvalue

lemma freshStamp (h : Furnished K trace s) : Furnished K trace s.freshStamp.2 :=
  ⟨h.frames, h.instances, h.this, h.super⟩

lemma addInstance (h : Furnished K trace s) {c : Class} (hc : c.Known K trace) :
    Furnished K trace (s.addInstance c).2 := by
  refine ⟨h.frames, fun id i hi => ?_, fun frame value hvalue => ?_, h.super⟩
  · simp only [Store.addInstance, Array.getElem?_push] at hi
    split at hi
    · cases hi
      exact ⟨hc, by simp, by simp⟩
    · exact h.instances id i hi
  · obtain ⟨id, rfl, hid⟩ := h.this frame value hvalue
    exact ⟨id, rfl, by simpa [Store.addInstance] using Nat.lt_succ_of_lt hid⟩

lemma modifyInstance (h : Furnished K trace s) (id : InstanceId) {f : Instance → Instance}
    (hf : ∀ i, i.Known K trace → (f i).Known K trace) :
    Furnished K trace { s with instances := s.instances.modify id f } := by
  refine ⟨h.frames, fun other i hi => ?_, fun frame value hvalue => ?_, h.super⟩
  · simp only [Array.getElem?_modify] at hi
    split at hi
    · obtain ⟨old, hold, rfl⟩ := Option.map_eq_some_iff.mp hi
      exact hf old (h.instances other old hold)
    · exact h.instances other i hi
  · obtain ⟨id, rfl, hid⟩ := h.this frame value hvalue
    exact ⟨id, rfl, by simpa using hid⟩

/-- A method bound to an instance has a frame in which `this` is the instance. -/
lemma bindMethod (h : Furnished K trace s) (method : Method) {id : InstanceId}
    (hid : id < s.instances.size) : Furnished K trace (s.bindMethod method id).2 := by
  cases method with
  | builtin b => exact h.freshStamp
  | declared closure =>
    refine h.freshStamp.addFrame (fun name value hvalue => ?_) (fun value hvalue => ?_)
      fun value hvalue => ?_
    · rw [(Bindings.find?_singleton hvalue).2]
      trivial
    · exact ⟨id, (Bindings.find?_singleton hvalue).2, hid⟩
    · exact absurd (Bindings.find?_singleton hvalue).1 (by decide)

lemma writeRef {m : Machine} (h : Furnished K trace m.store) (ref : RefId) {name : Token}
    (hname : name.IsBindable) {value : Value} (hvalue : value.Known K trace) :
    Furnished K trace (Effect.writeRef ref name value m).2.store := by
  unfold Effect.writeRef
  split
  · unfold Effect.writeAt
    split
    · exact h.bindIn _ hname hvalue
    · exact h
  · unfold Effect.writeGlobal
    split
    · exact h.bindIn _ hname hvalue
    · exact h

lemma elements (h : Furnished K trace s) (id : InstanceId) :
    ∀ v ∈ s.elements id, v.Known K trace := by
  intro v hv
  cases hi : s.instances[id]? with
  | none => simp [Store.elements, hi] at hv
  | some i =>
    simp only [Store.elements, hi, Option.map_some, Option.getD_some] at hv
    exact (h.instances id i hi).elements v hv

end Furnished

/-! ## What an effect has to keep -/

/-- **The invariant of a run**: the store is furnished, and was so whenever a reference was
followed. -/
structure Provided (K : ClassDecl → Prop) (w : Watch) : Prop where
  tidy : ∀ c, K c → FunDecl.AllTidy K c.methods
  store : Furnished K w.trace w.machine.store
  followed : ∀ before reference m after, w.trace = before ++ .followed reference m :: after →
    Furnished K before m.store

/-- No keyword is the name of a variable. -/
def IsBindableName (name : String) : Prop := Keyword.ofWord? name = none

/-- **What a run has done since a moment**: the store was changed step by step, by binding names
only, and notes were added at the end.  Each machine that was noted lies between. -/
structure Watch.Leads (w w' : Watch) : Prop where
  store : w.machine.store.Becomes IsBindableName w'.machine.store
  trace : ∃ notes, w'.trace = w.trace ++ notes ∧ ∀ reference m,
    .followed reference m ∈ notes → w.machine.store.Becomes IsBindableName m.store

namespace Watch.Leads

variable {w w₁ w₂ : Watch}

lemma refl (w : Watch) : w.Leads w :=
  ⟨.refl _ _, [], (List.append_nil _).symm, fun _ _ h => absurd h List.not_mem_nil⟩

lemma trans (h₁ : w.Leads w₁) (h₂ : w₁.Leads w₂) : w.Leads w₂ := by
  obtain ⟨notes₁, htrace₁, hnotes₁⟩ := h₁.trace
  obtain ⟨notes₂, htrace₂, hnotes₂⟩ := h₂.trace
  refine ⟨h₁.store.trans h₂.store, notes₁ ++ notes₂, ?_, fun reference m hm => ?_⟩
  · rw [htrace₂, htrace₁, List.append_assoc]
  · rcases List.mem_append.mp hm with hm | hm
    · exact hnotes₁ reference m hm
    · exact h₁.store.trans (hnotes₂ reference m hm)

lemma isPrefix (h : w.Leads w₁) : w.trace <+: w₁.trace := by
  obtain ⟨notes, htrace, -⟩ := h.trace
  exact ⟨notes, htrace.symm⟩

end Watch.Leads

/-- The effect, started at `w`, leads to where the invariant holds, and gives what `Q` asks for. -/
def Provides {α : Type} (K : ClassDecl → Prop) (w : Watch) (x : Watched α)
    (Q : α → Watch → Prop) : Prop :=
  w.Leads (x w).2 ∧ Provided K (x w).2 ∧ ∀ a, (x w).1 = .ok a → Q a (x w).2

section Rules

variable {α β : Type} {K : ClassDecl → Prop} {w : Watch}

lemma Provided.congr (h : Provided K w) {w' : Watch}
    (hstore : w'.machine.store = w.machine.store) (htrace : w'.trace = w.trace) :
    Provided K w' := by
  refine ⟨h.tidy, ?_, ?_⟩
  · rw [hstore, htrace]
    exact h.store
  · rw [htrace]
    exact h.followed

namespace Provides

lemma pure (h : Provided K w) {a : α} {Q : α → Watch → Prop} (hQ : Q a w) :
    Provides K w (pure a) Q := by
  refine ⟨.refl w, h, fun b hb => ?_⟩
  cases hb
  exact hQ

/-- An effect of which nothing is noted, on a store that is furnished afterwards. -/
lemma quietly (h : Provided K w) {x : Effect α} {Q : α → Watch → Prop}
    (hleads : w.machine.store.Becomes IsBindableName (x w.machine).2.store)
    (hstore : Furnished K w.trace (x w.machine).2.store)
    (hQ : ∀ a m, x w.machine = (.ok a, m) → Q a ⟨m, w.trace⟩) :
    Provides K w (Watched.quietly x) Q :=
  ⟨⟨hleads, [], (List.append_nil _).symm, fun _ _ h => absurd h List.not_mem_nil⟩,
    ⟨h.tidy, hstore, h.followed⟩, fun a ha => hQ a _ (Prod.ext ha rfl)⟩

/-- An effect with one note, on a store that is furnished afterwards. -/
lemma noting (h : Provided K w) {notes : Machine → List Observation} {o : Observation}
    (hnotes : notes w.machine = [o]) (ho : ∀ reference m, o = .followed reference m → m = w.machine)
    {x : Effect α} {Q : α → Watch → Prop}
    (hleads : w.machine.store.Becomes IsBindableName (x w.machine).2.store)
    (hstore : Furnished K (w.trace ++ [o]) (x w.machine).2.store)
    (hQ : ∀ a m, x w.machine = (.ok a, m) → Q a ⟨m, w.trace ++ [o]⟩) :
    Provides K w (Watched.noting notes x) Q := by
  have hrun : Watched.noting notes x w = ((x w.machine).1, ⟨(x w.machine).2, w.trace ++ [o]⟩) := by
    simp only [Watched.noting, hnotes]
  unfold Provides
  rw [hrun]
  refine ⟨⟨hleads, [o], rfl, fun reference m hm => ?_⟩, ⟨h.tidy, hstore, ?_⟩,
    fun a ha => hQ a _ (Prod.ext ha rfl)⟩
  · rw [ho reference m (List.mem_singleton.mp hm).symm]
    exact .refl _ _
  · refine followed_concat h.followed fun reference m heq => ?_
    rw [ho reference m heq]
    exact h.store

lemma raise (h : Provided K w) (token : Token) (cause : RuntimeCause) {Q : α → Watch → Prop} :
    Provides K w (Watched.quietly (Effect.raise token cause)) Q :=
  .quietly h (.refl _ _) h.store nofun

lemma exhausted (h : Provided K w) {Q : α → Watch → Prop} :
    Provides K w (Watched.quietly Effect.exhausted) Q :=
  .quietly h (.refl _ _) h.store nofun

lemma calm (h : Provided K w) {x : Effect α} {P : α → Prop} (hx : x.Calm P) :
    Provides K w (Watched.quietly x) fun a _ => P a := by
  obtain ⟨hstore, -, -, hend⟩ := hx w.machine
  refine .quietly h (by rw [hstore]; exact .refl _ _) (by rw [hstore]; exact h.store)
    fun a m ha => ?_
  rwa [ha] at hend

lemma bind {x : Watched α} {f : α → Watched β} {Q : α → Watch → Prop} {R : β → Watch → Prop}
    (hx : Provides K w x Q)
    (hf : ∀ a w', w.trace <+: w'.trace → Provided K w' → Q a w' → Provides K w' (f a) R) :
    Provides K w (x >>= f) R := by
  obtain ⟨hleads, hprovided, hend⟩ := hx
  unfold Provides
  rw [Watched.run_bind]
  rcases hxw : x w with ⟨a | _ | _ | _, w'⟩
  all_goals rw [hxw] at hleads hprovided hend
  · obtain ⟨hleads', hprovided', hend'⟩ := hf a w' hleads.isPrefix hprovided (hend a rfl)
    exact ⟨hleads.trans hleads', hprovided', hend'⟩
  all_goals exact ⟨hleads, hprovided, nofun⟩

lemma weaken {x : Watched α} {Q R : α → Watch → Prop} (hx : Provides K w x Q)
    (hQ : ∀ a w', Q a w' → R a w') : Provides K w x R :=
  ⟨hx.1, hx.2.1, fun a ha => hQ a _ (hx.2.2 a ha)⟩

lemma of_eq {x y : Watched α} {Q : α → Watch → Prop} (hrun : x w = y w) (hy : Provides K w y Q) :
    Provides K w x Q := by
  unfold Provides
  rw [hrun]
  exact hy

lemma ite {c : Prop} [Decidable c] {x y : Watched α} {Q : α → Watch → Prop}
    (hx : Provides K w x Q) (hy : Provides K w y Q) : Provides K w (if c then x else y) Q := by
  by_cases hc : c
  · rwa [if_pos hc]
  · rwa [if_neg hc]

/-- Neither scope nor depth matters for the invariant. -/
lemma within {x : Watched α} {Q R : α → Watch → Prop} {scope : Scope}
    (hx : Provides K { w with machine := { w.machine with scope := scope } } x Q)
    (hQ : ∀ a w', Q a w' →
      R a { w' with machine := { w'.machine with scope := w.machine.scope } }) :
    Provides K w (Watched.within scope x) R :=
  ⟨⟨hx.1.store, hx.1.trace⟩, hx.2.1.congr rfl rfl, fun a ha => hQ a _ (hx.2.2 a ha)⟩

lemma deeper {x : Watched α} {Q R : α → Watch → Prop}
    (hx : Provides K { w with machine := { w.machine with depth := w.machine.depth + 1 } } x Q)
    (hQ : ∀ a w', Q a w' →
      R a { w' with machine := { w'.machine with depth := w.machine.depth } }) :
    Provides K w (Watched.deeper x) R :=
  ⟨⟨hx.1.store, hx.1.trace⟩, hx.2.1.congr rfl rfl, fun a ha => hQ a _ (hx.2.2 a ha)⟩

end Provides

end Rules

/-! ## Effects of a run -/

section Effects

variable {α : Type} {K : ClassDecl → Prop} {w : Watch}

namespace Provides

lemma freshStamp (h : Provided K w) :
    Provides K w (Watched.quietly Effect.freshStamp) fun _ w' => w'.trace = w.trace :=
  .quietly h (.freshStamp _) h.store.freshStamp fun _ _ _ => rfl

lemma scope (h : Provided K w) :
    Provides K w (Watched.quietly Effect.scope) fun scope w' => scope = w.machine.scope ∧ w' = w :=
  .quietly h (.refl _ _) h.store fun _ _ hrun => by cases hrun; exact ⟨rfl, rfl⟩

lemma define (h : Provided K w) {name : Token} (hname : name.IsBindable) {value : Value}
    (hvalue : value.Known K w.trace) :
    Provides K w (Watched.quietly (Effect.define name.lexeme value)) fun _ _ => True := by
  refine .quietly h (.define _ _ value hname) ?_ fun _ _ _ => trivial
  rw [Effect.define]
  simp only [Effect.run_onStore]
  cases w.machine.scope with
  | nil => exact h.store
  | cons id outer => exact h.store.bindIn id hname hvalue

lemma defineNil (h : Provided K w) {name : Token} (hname : name.IsBindable) :
    Provides K w (Watched.quietly (Effect.define name.lexeme .nil)) fun _ _ => True :=
  .define h hname trivial

lemma setField (h : Provided K w) (id : InstanceId) (name : String) {value : Value}
    (hvalue : value.Known K w.trace) :
    Provides K w (Watched.quietly (Effect.setField id name value))
      fun _ w' => w'.trace = w.trace := by
  refine .quietly h (.setField _ id name value) (h.store.modifyInstance id fun i hi =>
    ⟨hi.cls, fun other found hfound => ?_, hi.elements⟩) fun _ _ _ => rfl
  rcases Bindings.find?_insert hfound with rfl | hold
  · exact hvalue
  · exact hi.fields other found hold

lemma addInstance (h : Provided K w) {c : Class} (hc : c.Known K w.trace) :
    Provides K w (Watched.quietly (Effect.addInstance c)) fun id w' =>
      id < w'.machine.store.instances.size := by
  refine .quietly h (.addInstance _ c) (h.store.addInstance hc) fun id m hrun => ?_
  cases hrun
  simp

/-- What is read is bound somewhere, and reading changes nothing. -/
lemma readAt (h : Provided K w) (scope : Scope) (d : Nat) (name : String) :
    Provides K w (Watched.quietly (Effect.readAt scope d name)) fun value w' => w' = w ∧
      ∃ frame, (w.machine.store.frame frame).find? name = some value := by
  have hsame := Effect.snd_readAt scope d name w.machine
  refine .quietly h (by rw [hsame]; exact .refl _ _) (by rw [hsame]; exact h.store)
    fun value m hrun => ?_
  rw [hrun] at hsame
  cases hsame
  exact ⟨rfl, Effect.exists_of_readAt hrun⟩

lemma readRef (h : Provided K w) (use : ReferenceUse) (ref : RefId) (name : Token) :
    Provides K w (Watched.readRef use ref name) fun value w' => value.Known K w'.trace ∧
      w' = ⟨w.machine, w.trace ++ [.followed ⟨use, ref, name⟩ w.machine]⟩ ∧
      Effect.readRef ref name w.machine = (.ok value, w.machine) := by
  have hsame := Effect.snd_readRef ref name w.machine
  have hlater : w.trace <+: w.trace ++ [.followed ⟨use, ref, name⟩ w.machine] :=
    List.prefix_append _ _
  refine .noting h rfl (fun _ _ heq => by cases heq; rfl) (by rw [hsame]; exact .refl _ _)
    (by rw [hsame]; exact h.store.mono hlater) fun value m hrun => ?_
  obtain ⟨frame, hfound⟩ := Effect.exists_of_readRef hrun
  have hrun' := hrun
  rw [hrun] at hsame
  cases hsame
  exact ⟨(h.store.frames frame _ value hfound).mono hlater, rfl, hrun'⟩

lemma writeRef (h : Provided K w) (ref : RefId) {name : Token} (hname : name.IsBindable)
    {value : Value} (hvalue : value.Known K w.trace) :
    Provides K w (Watched.writeRef ref name value) fun _ _ => True := by
  have hlater : w.trace <+: w.trace ++ [.followed ⟨.assign, ref, name⟩ w.machine] :=
    List.prefix_append _ _
  exact .noting h rfl (fun _ _ heq => by cases heq; rfl)
    ((Effect.leading IsBindableName).writeRef ref hname value w.machine)
    ((h.store.mono hlater).writeRef ref hname (hvalue.mono hlater)) fun _ _ _ => trivial

/-- A new frame that binds neither `this` nor `super`. -/
lemma openFrame (h : Provided K w) (region : Region) (outer : Scope) {bindings : Bindings Value}
    (hbindings : ∀ name value, bindings.find? name = some value →
      Keyword.ofWord? name = none ∧ value.Known K w.trace) :
    Provides K w (Watched.openFrame region outer bindings) fun _ _ => True := by
  have hlater : w.trace <+: w.trace ++ [.opened region w.machine.store.frames.size outer] :=
    List.prefix_append _ _
  have hkeyword : ∀ (k : Keyword) value, bindings.find? k.spelling ≠ some value := by
    intro k value hvalue
    have hword := (hbindings _ value hvalue).1
    rw [Keyword.ofWord?_spelling] at hword
    cases hword
  have hstore := (h.store.mono hlater).addFrame
    (fun name value hvalue => (hbindings name value hvalue).2.mono hlater)
    (fun value hvalue => absurd hvalue (hkeyword .this_ value))
    (fun value hvalue => absurd hvalue (hkeyword .super_ value))
  exact .noting h rfl (fun _ _ heq => by cases heq) (.addFrame _ bindings) hstore
    fun _ _ _ => trivial

lemma bindMethod (h : Provided K w) {method : Method}
    (hmethod : ∀ closure, method = .declared closure → closure.decl.Tidy K) {id : InstanceId}
    (hid : id < w.machine.store.instances.size) :
    Provides K w (Watched.bindMethod method id) fun c w' => c.Known K w'.trace := by
  cases method with
  | builtin b =>
    have hrun : Watched.bindMethod (.builtin b) id w =
        Watched.quietly (Effect.bindMethod (.builtin b) id) w := by
      simp only [Watched.bindMethod, Watched.noting, Watched.receiverNotes, List.append_nil,
        Watched.quietly]
    refine .of_eq hrun (.quietly h (.bindMethod _ (.builtin b) id)
      (h.store.bindMethod (.builtin b) hid) fun c m hc => ?_)
    cases hc
    trivial
  | declared closure =>
    have hlater : w.trace <+: w.trace ++
        [.opened (.receiver closure.decl) w.machine.store.frames.size closure.scope] :=
      List.prefix_append _ _
    have hstore := (h.store.mono hlater).bindMethod (.declared closure) hid
    refine .noting h rfl (fun _ _ heq => by cases heq) (.bindMethod _ (.declared closure) id) hstore
      fun c m hc => ?_
    cases hc
    exact hmethod closure rfl

lemma property (h : Provided K w) (id : InstanceId) (name : Token) :
    Provides K w (Watched.property id name) fun value w' => value.Known K w'.trace := by
  cases hi : w.machine.store.instances[id]? with
  | none =>
    have hrun : Watched.property id name w =
        Watched.quietly (Effect.raise name (.undefinedProperty name.lexeme)) w := by
      simp only [Watched.property, Store.fields, hi]
      rfl
    exact .of_eq hrun (.raise h _ _)
  | some i =>
    have hknown := h.store.instances id i hi
    cases hfield : i.fields.find? name.lexeme with
    | some value =>
      have hrun : Watched.property id name w = (Pure.pure value : Watched Value) w := by
        simp only [Watched.property, Store.fields, hi, Option.map_some, Option.getD_some, hfield]
        rfl
      exact .of_eq hrun (.pure h (hknown.fields _ _ hfield))
    | none =>
      cases hmethod : i.cls.lookup? name.lexeme with
      | none =>
        have hrun : Watched.property id name w =
            Watched.quietly (Effect.raise name (.undefinedProperty name.lexeme)) w := by
          simp only [Watched.property, Store.fields, hi, Option.map_some, Option.getD_some, hfield,
            Option.bind_some, hmethod]
          rfl
        exact .of_eq hrun (.raise h _ _)
      | some method =>
        have hrun : Watched.property id name w =
            (Watched.bindMethod method id >>= fun c => Pure.pure (Value.callable c)) w := by
          simp only [Watched.property, Store.fields, hi, Option.map_some, Option.getD_some, hfield,
            Option.bind_some, hmethod]
        have hid : id < w.machine.store.instances.size := (Array.getElem?_eq_some_iff.mp hi).1
        refine .of_eq hrun ((Provides.bindMethod h (fun closure hclosure => ?_) hid).bind
          fun c w' _ h' hc => .pure h' hc)
        exact (hknown.cls name.lexeme).tidy h.tidy (hmethod.trans (congrArg some hclosure))

lemma superMethod (h : Provided K w) (ref : RefId) (keyword method : Token) :
    Provides K w (Watched.superMethod ref keyword method)
      fun value w' => value.Known K w'.trace := by
  have hnote : Provides K w (Watched.noting (fun m => [.followed ⟨.super, ref, keyword⟩ m])
      (Effect.distance? ref)) fun _ _ => True :=
    .noting h rfl (fun _ _ heq => by cases heq; rfl) (.refl _ _)
      (h.store.mono (List.prefix_append _ _)) fun _ _ _ => trivial
  refine hnote.bind fun distance w₁ _ h₁ _ => ?_
  cases distance with
  | none => exact .raise h₁ _ _
  | some d =>
    refine (Provides.scope h₁).bind fun current w₂ _ h₂ _ => ?_
    refine (Provides.readAt h₂ current d "super").bind fun parent w₃ _ h₃ hparent => ?_
    obtain ⟨rfl, frame, hframe⟩ := hparent
    rcases parent with _ | _ | _ | _ | (_ | _ | parent) | _
    case callable.cls =>
      refine (Provides.readAt h₃ current (d - 1) "this").bind fun this w₄ _ h₄ hthis => ?_
      obtain ⟨rfl, frame', hframe'⟩ := hthis
      obtain ⟨id, rfl, hid⟩ := h₄.store.this frame' this hframe'
      simp only
      cases hmethod : parent.lookup? method.lexeme with
      | none => exact .raise h₄ _ _
      | some found =>
        have hknown : parent.Known K w₄.trace := h₄.store.frames frame _ _ hframe
        refine (Provides.bindMethod h₄ (fun closure hclosure => ?_) hid).bind
          fun c w' _ h' hc => .pure h' hc
        exact (hknown method.lexeme).tidy h₄.tidy (hmethod.trans (congrArg some hclosure))
    all_goals exact .raise h₃ _ _

end Provides

end Effects

/-! ## Class statements -/

section Classes

variable {K : ClassDecl → Prop}

lemma Class.known_builtinClass {trace : List Observation} (stamp : Stamp) (label : String)
    (methods : List Builtin) : (builtinClass stamp label methods).Known K trace := by
  intro name
  rw [Class.lookup?_builtinClass]
  exact .builtin stamp label methods

lemma Class.known_base {trace : List Observation} {c : ClassDecl} (hc : K c)
    (hbase : c.superclass = none) (stamp : Stamp) (scope : Scope) :
    (Class.extend ⟨stamp, c.name.lexeme, methodTable scope c.methods⟩ none).Known K trace := by
  intro name
  rw [Class.lookup?_extend, find?_methodTable, Option.bind_none, Option.or_none]
  exact .base stamp scope hc hbase

lemma Class.known_derived {trace : List Observation} {c : ClassDecl} {frame : FrameId}
    {outer : Scope} {parent : Class} (hc : Inherited K trace c frame outer parent)
    (hparent : parent.Known K trace) (stamp : Stamp) :
    (Class.extend ⟨stamp, c.name.lexeme, methodTable (frame :: outer) c.methods⟩
      (some parent)).Known K trace := by
  intro name
  rw [Class.lookup?_extend, find?_methodTable, Option.bind_some]
  exact .derived stamp hc (hparent name)

namespace Provides

variable {w : Watch}

lemma defineBase (h : Provided K w) {c : ClassDecl} (hc : K c) (hname : c.name.IsBindable)
    (hbase : c.superclass = none) :
    Provides K w (Watched.defineClass c.name none c.methods) fun _ _ => True := by
  refine (Provides.scope h).bind fun outer w₁ _ h₁ _ => ?_
  refine (Provides.pure h₁ trivial : Provides K w₁ (Pure.pure outer) fun _ _ => True).bind
    fun inner w₂ _ h₂ _ => ?_
  refine (Provides.freshStamp h₂).bind fun stamp w₃ _ h₃ _ => ?_
  exact .define h₃ hname (Class.known_base hc hbase stamp inner)

/-- The frame for `super`, made right after the name of the superclass was followed. -/
lemma openParent (h : Provided K w) {c : ClassDecl} (hc : K c) {ref : RefId} {token : Token}
    (hsuperclass : c.superclass = some (.variable ref token)) {before : List Observation}
    {parent : Class} (htrace : w.trace = before ++ [.followed ⟨.read, ref, token⟩ w.machine])
    (hread : Effect.readRef ref token w.machine = (.ok (.callable (.cls parent)), w.machine))
    (hparent : parent.Known K w.trace) :
    Provides K w (Watched.openFrame (.parent c.name c.methods) w.machine.scope
      (Bindings.empty.insert "super" (.callable (.cls parent)))) fun frame w' =>
        Inherited K w'.trace c frame w.machine.scope parent ∧ parent.Known K w'.trace := by
  have hlater : w.trace <+: w.trace ++
      [.opened (.parent c.name c.methods) w.machine.store.frames.size w.machine.scope] :=
    List.prefix_append _ _
  have hinherited : Inherited K (w.trace ++
      [.opened (.parent c.name c.methods) w.machine.store.frames.size w.machine.scope])
      c w.machine.store.frames.size w.machine.scope parent :=
    ⟨hc, before, [], ref, token, w.machine, hsuperclass, fun _ => hread, rfl, by simp [htrace]⟩
  refine .noting h rfl (fun _ _ heq => by cases heq) (.addFrame _ _) ((h.store.mono hlater).addFrame
    (fun name value hvalue => ?_) (fun value hvalue => ?_) fun value hvalue => ?_)
    fun frame m hrun => ?_
  · rw [(Bindings.find?_singleton hvalue).2]
    exact hparent.mono hlater
  · exact absurd (Bindings.find?_singleton hvalue).1 (by decide)
  · exact ⟨c, w.machine.scope, parent, (Bindings.find?_singleton hvalue).2, hinherited⟩
  · cases hrun
    exact ⟨hinherited, hparent.mono hlater⟩

lemma defineDerived (h : Provided K w) {c : ClassDecl} (hc : K c) (hname : c.name.IsBindable)
    {ref : RefId} {token : Token} (hsuperclass : c.superclass = some (.variable ref token))
    {before : List Observation} {parent : Class}
    (htrace : w.trace = before ++ [.followed ⟨.read, ref, token⟩ w.machine])
    (hread : Effect.readRef ref token w.machine = (.ok (.callable (.cls parent)), w.machine))
    (hparent : parent.Known K w.trace) :
    Provides K w (Watched.defineClass c.name (some parent) c.methods) fun _ _ => True := by
  refine (Provides.scope h).bind fun outer w₁ _ _ hscope => ?_
  obtain ⟨rfl, rfl⟩ := hscope
  refine Provides.bind (Provides.openParent h hc hsuperclass htrace hread hparent)
    fun frame w₂ _ h₂ hnew => ?_
  have hrest : Provides K w₂ (Watched.quietly Effect.freshStamp >>= fun stamp =>
      Watched.quietly (Effect.define c.name.lexeme (.callable (.cls (.extend
        ⟨stamp, c.name.lexeme, methodTable (frame :: w₁.machine.scope) c.methods⟩
        (some parent)))))) fun _ _ => True := by
    refine (Provides.freshStamp h₂).bind fun stamp w₃ _ h₃ hsame => .define h₃ hname ?_
    rw [hsame]
    exact Class.known_derived hnew.1 hnew.2 stamp
  exact hrest

/-- A class statement with a superclass, once its name is bound. -/
lemma inherit (h : Provided K w) {c : ClassDecl} (hc : K c) (hname : c.name.IsBindable)
    {ref : RefId} {token : Token} (hsuperclass : c.superclass = some (.variable ref token))
    (n : Nat) :
    Provides K w (do
      let value ← Watched.evaluate n (.variable ref token)
      let parent ← Watched.quietly (expectClass token value)
      Watched.defineClass c.name (some parent) c.methods
      Pure.pure Flow.normal) fun flow w' => flow.Known K w'.trace := by
  cases n with
  | zero => exact Provides.bind (Provides.exhausted h : Provides K w _ fun _ _ => False) nofun
  | succ n =>
    refine Provides.bind (Provides.readRef h .read ref token) fun value w₁ _ h₁ hvalue => ?_
    obtain ⟨hknown, rfl, hread⟩ := hvalue
    rcases value with _ | _ | _ | _ | (_ | _ | parent) | _
    case callable.cls =>
      have hrest : Provides K _ (Watched.defineClass c.name (some parent) c.methods >>= fun _ =>
          Pure.pure Flow.normal) fun flow w' => flow.Known K w'.trace :=
        (Provides.defineDerived h₁ hc hname hsuperclass rfl hread hknown).bind
          fun _ w₂ _ h₂ _ => .pure h₂ Flow.known_normal
      exact hrest
    all_goals
      exact Provides.bind (Provides.raise h₁ _ _ : Provides K _ _ fun _ _ => False) nofun

end Provides

end Classes

/-! ## Calls -/

namespace Provides

variable {K : ClassDecl → Prop} {w : Watch}

/-- The frame of a call binds the parameters. -/
lemma openCall (h : Provided K w) {closure : Closure} (hclosure : closure.decl.Tidy K)
    {arguments : List Value} (harguments : ∀ v ∈ arguments, v.Known K w.trace) :
    Provides K w (Watched.openFrame (.call closure.decl) closure.scope
      (bindParameters closure.decl.params arguments)) fun _ _ => True := by
  refine Provides.openFrame h (.call closure.decl) closure.scope fun name value hvalue => ?_
  rcases Bindings.mem_of_find?_insertAll hvalue with hmem | hnone
  · obtain ⟨hname, hargument⟩ := List.of_mem_zip hmem
    obtain ⟨p, hp, rfl⟩ := List.mem_map.mp hname
    exact ⟨hclosure.params p hp, harguments value hargument⟩
  · cases hnone

lemma closureResult (h : Provided K w) (closure : Closure) {flow : Flow}
    (hflow : flow.Known K w.trace) :
    Provides K w (Watched.quietly (closureResult closure flow)) fun value w' =>
      value.Known K w'.trace := by
  unfold LoxLang.closureResult
  by_cases hinit : closure.isInitializer = true
  · rw [if_pos hinit]
    refine (Provides.readAt h closure.scope 0 "this").weaken fun value w' hvalue => ?_
    obtain ⟨rfl, frame, hfound⟩ := hvalue
    exact h.store.frames frame _ value hfound
  · rw [if_neg hinit]
    cases flow with
    | returned value => exact .pure h (hflow value rfl)
    | normal => exact .pure h trivial
    | broken => exact .pure h trivial

/-- Builtins give plain values, or elements of an array. -/
lemma callBuiltin (h : Provided K w) (b : Builtin) (receiver : Option InstanceId)
    {arguments : List Value} (harguments : ∀ v ∈ arguments, v.Known K w.trace) (paren : Token) :
    Provides K w (Watched.quietly (b.call receiver arguments paren)) fun value w' =>
      value.Known K w'.trace := by
  have hcalm : ∀ {x : Effect Value}, x.Calm Value.IsPlain →
      Provides K w (Watched.quietly x) fun value w' => value.Known K w'.trace := fun hx =>
    (Provides.calm h hx).weaken fun _ _ hplain => hplain.known
  have hreceiver : ∀ f, (∀ id, Provides K w (Watched.quietly (f id)) fun value w' =>
      value.Known K w'.trace) → Provides K w (Watched.quietly
        (Builtin.onReceiver paren receiver f)) fun value w' => value.Known K w'.trace := by
    intro f hf
    cases receiver with
    | none => exact .raise h _ _
    | some id => exact hf id
  cases b with
  | clock => exact hcalm (Effect.Calm.readClock.bind fun _ _ => .pure (by simp [Value.IsPlain]))
  | inputString =>
    exact hcalm ((calm_readPrompted _ _).bind fun _ _ => .pure (by simp [Value.IsPlain]))
  | inputNumber => exact hcalm ((calm_readPrompted _ _).bind fun _ _ => calm_numberOfLine _ _)
  | arrayLength =>
    refine hreceiver _ fun id => .quietly h (.refl _ _) h.store fun value m hrun => ?_
    cases hrun
    trivial
  | arrayGet =>
    refine hreceiver _ fun id => ?_
    rcases arguments.head? with _ | _ | _ | x | _ | _ | _
    case some.number =>
      cases hvalue : (Builtin.index? x).bind fun n => (w.machine.store.elements id)[n]? with
      | none =>
        have hrun : Watched.quietly (Builtin.elementAt paren id x) w =
            Watched.quietly (Effect.raise paren (.indexOutOfBounds x)) w := by
          simp only [Watched.quietly, Builtin.elementAt, hvalue, Effect.raise]
        exact .of_eq hrun (.raise h _ _)
      | some value =>
        have hrun : Watched.quietly (Builtin.elementAt paren id x) w =
            (Pure.pure value : Watched Value) w := by
          simp only [Watched.quietly, Builtin.elementAt, hvalue]
          rfl
        obtain ⟨n, -, hn⟩ := Option.bind_eq_some_iff.mp hvalue
        exact .of_eq hrun (.pure h (h.store.elements id value (Array.mem_of_getElem? hn)))
    all_goals exact .raise h _ _
  | arrayPush =>
    refine hreceiver _ fun id => .quietly h
      (.updateElements _ id (·.push (arguments.head?.getD .nil)))
      (h.store.modifyInstance id fun i hi => ⟨hi.cls, hi.fields, fun v hv => ?_⟩)
      fun value m hrun => ?_
    · rcases Array.mem_push.mp hv with hv | rfl
      · exact hi.elements v hv
      · cases arguments with
        | nil => trivial
        | cons first rest => exact harguments first (List.mem_cons_self ..)
    · cases hrun
      trivial
  | arrayPop =>
    refine hreceiver _ fun id => .quietly h (.updateElements _ id Array.pop)
      (h.store.modifyInstance id fun i hi => ⟨hi.cls, hi.fields, fun v hv => hi.elements v ?_⟩)
      fun value m hrun => ?_
    · rw [← Array.mem_toList_iff, Array.toList_pop] at hv
      exact Array.mem_toList_iff.mp (List.dropLast_subset _ hv)
    · cases hrun
      cases hlast : (w.machine.store.elements id).back? with
      | none => trivial
      | some v => exact h.store.elements id v (Array.mem_of_back? hlast)

end Provides

/-! ## Runs -/

/-- **Runs with a given amount of fuel keep the invariant.** -/
structure ProvidesAt (K : ClassDecl → Prop) (n : Nat) : Prop where
  evaluate : ∀ {w} (e : Expr), e.Tidy → Provided K w →
    Provides K w (Watched.evaluate n e) fun value w' => value.Known K w'.trace
  evaluateAll : ∀ {w} (es : List Expr), Expr.AllTidy es → Provided K w →
    Provides K w (Watched.evaluateAll n es) fun values w' => ∀ v ∈ values, v.Known K w'.trace
  invoke : ∀ {w} (value : Value) (arguments : List Value) (paren : Token), Provided K w →
    value.Known K w.trace → (∀ v ∈ arguments, v.Known K w.trace) →
    Provides K w (Watched.invoke n value arguments paren) fun value w' => value.Known K w'.trace
  call : ∀ {w} (c : Callable) (arguments : List Value) (paren : Token), Provided K w →
    c.Known K w.trace → (∀ v ∈ arguments, v.Known K w.trace) →
    Provides K w (Watched.call n c arguments paren) fun value w' => value.Known K w'.trace
  execute : ∀ {w} (s : Stmt), s.Tidy K → Provided K w →
    Provides K w (Watched.execute n s) fun flow w' => flow.Known K w'.trace
  executeAll : ∀ {w} (body : List Stmt), Stmt.AllTidy K body → Provided K w →
    Provides K w (Watched.executeAll n body) fun flow w' => flow.Known K w'.trace
  repeatWhile : ∀ {w} (condition : Expr) (body : Stmt), condition.Tidy → body.Tidy K →
    Provided K w →
    Provides K w (Watched.repeatWhile n condition body) fun flow w' => flow.Known K w'.trace

namespace ProvidesAt

variable {K : ClassDecl → Prop} {n : Nat} {w : Watch}

lemma succ_evaluate (h : ProvidesAt K n) (e : Expr) (he : e.Tidy) (hw : Provided K w) :
    Provides K w (Watched.evaluate (n + 1) e) fun value w' => value.Known K w'.trace := by
  cases e with
  | literal value =>
    refine .pure hw ?_
    cases value <;> trivial
  | grouping inner => exact h.evaluate inner he hw
  | unary operator right =>
    refine (h.evaluate right he hw).bind fun value w₁ _ h₁ _ => ?_
    exact (Provides.calm h₁ (calm_applyUnary operator value)).weaken fun _ _ hplain => hplain.known
  | binary left operator right =>
    refine (h.evaluate left he.1 hw).bind fun a w₁ _ h₁ _ => ?_
    refine (h.evaluate right he.2 h₁).bind fun b w₂ _ h₂ _ => ?_
    exact (Provides.calm h₂ (calm_applyBinary operator a b)).weaken fun _ _ hplain => hplain.known
  | logical left operator right =>
    refine (h.evaluate left he.1 hw).bind fun a w₁ _ h₁ ha => ?_
    exact .ite (.pure h₁ ha) (h.evaluate right he.2 h₁)
  | «variable» ref name =>
    exact (Provides.readRef hw .read ref name).weaken fun _ _ hvalue => hvalue.1
  | this ref keyword =>
    exact (Provides.readRef hw .this ref keyword).weaken fun _ _ hvalue => hvalue.1
  | assign ref name value =>
    refine (h.evaluate value he.2 hw).bind fun v w₁ _ h₁ hv => ?_
    exact (Provides.writeRef h₁ ref he.1 hv).bind fun _ w₂ hlater h₂ _ => .pure h₂ (hv.mono hlater)
  | call callee paren arguments =>
    refine (h.evaluate callee he.1 hw).bind fun c w₁ _ h₁ hc => ?_
    refine (h.evaluateAll arguments he.2 h₁).bind fun values w₂ hlater h₂ hvalues => ?_
    exact h.invoke c values paren h₂ (hc.mono hlater) hvalues
  | get object name =>
    refine (h.evaluate object he hw).bind fun value w₁ _ h₁ _ => ?_
    cases value with
    | object id => exact .property h₁ id name
    | _ => exact .raise h₁ _ _
  | set object name value =>
    refine (h.evaluate object he.1 hw).bind fun target w₁ _ h₁ _ => ?_
    cases target with
    | object id =>
      refine (h.evaluate value he.2 h₁).bind fun v w₂ _ h₂ hv => ?_
      refine (Provides.setField h₂ id name.lexeme hv).bind fun _ w₃ hlater h₃ _ => ?_
      exact .pure h₃ (hv.mono hlater)
    | _ => exact .raise h₁ _ _
  | super ref keyword method => exact .superMethod hw ref keyword method

lemma succ_evaluateAll (h : ProvidesAt K n) (es : List Expr) (hes : Expr.AllTidy es)
    (hw : Provided K w) :
    Provides K w (Watched.evaluateAll (n + 1) es) fun values w' =>
      ∀ v ∈ values, v.Known K w'.trace := by
  cases es with
  | nil => exact .pure hw (List.forall_mem_nil _)
  | cons e rest =>
    refine (h.evaluate e hes.1 hw).bind fun first w₁ _ h₁ hfirst => ?_
    refine (h.evaluateAll rest hes.2 h₁).bind fun others w₂ hlater h₂ hothers => ?_
    exact .pure h₂ (List.forall_mem_cons.mpr ⟨hfirst.mono hlater, hothers⟩)

lemma succ_invoke (h : ProvidesAt K n) (value : Value) (arguments : List Value) (paren : Token)
    (hw : Provided K w) (hvalue : value.Known K w.trace)
    (harguments : ∀ v ∈ arguments, v.Known K w.trace) :
    Provides K w (Watched.invoke (n + 1) value arguments paren) fun value w' =>
      value.Known K w'.trace := by
  cases value with
  | callable c =>
    refine .ite (.raise hw _ _) ?_
    have hlimit : Provides K w (Watched.quietly Effect.isAtLimit) fun _ w' => w' = w :=
      .quietly hw (.refl _ _) hw.store fun _ _ hrun => by cases hrun; rfl
    refine hlimit.bind fun full w₁ _ h₁ hsame => .ite (.raise h₁ _ _) ?_
    subst hsame
    exact .deeper (h.call c arguments paren (h₁.congr rfl rfl) hvalue harguments)
      fun _ _ hv => hv
  | _ => exact .raise hw _ _

lemma succ_callClosure (h : ProvidesAt K n) {stamp : Stamp} {closure : Closure}
    {arguments : List Value} (paren : Token) (hw : Provided K w) (hclosure : closure.decl.Tidy K)
    (harguments : ∀ v ∈ arguments, v.Known K w.trace) :
    Provides K w (Watched.call (n + 1) (.function stamp closure) arguments paren) fun value w' =>
      value.Known K w'.trace := by
  refine (Provides.openCall hw hclosure harguments).bind fun frame w₁ _ h₁ _ => ?_
  have hbody : Provides K w₁ (Watched.within (frame :: closure.scope)
      (Watched.executeAll n closure.decl.body)) fun flow w' => flow.Known K w'.trace :=
    .within (h.executeAll closure.decl.body hclosure.body (h₁.congr rfl rfl)) fun _ _ hflow => hflow
  exact hbody.bind fun flow w₂ _ h₂ hflow => .closureResult h₂ closure hflow

lemma succ_call (h : ProvidesAt K n) (c : Callable) (arguments : List Value) (paren : Token)
    (hw : Provided K w) (hc : c.Known K w.trace)
    (harguments : ∀ v ∈ arguments, v.Known K w.trace) :
    Provides K w (Watched.call (n + 1) c arguments paren) fun value w' =>
      value.Known K w'.trace := by
  cases c with
  | builtin stamp b receiver => exact .callBuiltin hw b receiver harguments paren
  | function stamp closure => exact h.succ_callClosure paren hw hc harguments
  | cls c =>
    refine (Provides.addInstance hw hc).bind fun id w₁ hlater₁ h₁ hid => ?_
    cases hmethod : c.lookup? initializerName with
    | none => exact .pure h₁ trivial
    | some method =>
      refine (Provides.bindMethod h₁ (fun closure hclosure => ?_) hid).bind
        fun initializer w₂ hlater₂ h₂ hinitializer => ?_
      · exact (hc initializerName).tidy hw.tidy (hmethod.trans (congrArg some hclosure))
      · refine (h.call initializer arguments paren h₂ hinitializer fun v hv => ?_).bind
          fun _ w₃ _ h₃ _ => .pure h₃ trivial
        exact (harguments v hv).mono (hlater₁.trans hlater₂)

lemma succ_execute (h : ProvidesAt K n) (s : Stmt) (hs : s.Tidy K) (hw : Provided K w) :
    Provides K w (Watched.execute (n + 1) s) fun flow w' => flow.Known K w'.trace := by
  cases s with
  | expression e => exact (h.evaluate e hs hw).bind fun _ w₁ _ h₁ _ => .pure h₁ Flow.known_normal
  | print e =>
    refine (h.evaluate e hs hw).bind fun value w₁ _ h₁ _ => ?_
    refine (Provides.calm h₁ (.text value)).bind fun line w₂ _ h₂ _ => ?_
    exact (Provides.calm h₂ (.write _)).bind fun _ w₃ _ h₃ _ => .pure h₃ Flow.known_normal
  | var name initializer =>
    cases initializer with
    | none =>
      exact (Provides.defineNil hw hs).bind fun _ w₁ _ h₁ _ => .pure h₁ Flow.known_normal
    | some e =>
      refine (h.evaluate e hs.2 hw).bind fun value w₁ _ h₁ hvalue => ?_
      exact (Provides.define h₁ hs.1 hvalue).bind fun _ w₂ _ h₂ _ => .pure h₂ Flow.known_normal
  | block body =>
    refine (Provides.scope hw).bind fun outer w₁ _ h₁ _ => ?_
    refine (Provides.openFrame h₁ (.block body) outer (by simp)).bind fun frame w₂ _ h₂ _ => ?_
    exact .within (h.executeAll body hs (h₂.congr rfl rfl)) fun _ _ hflow => hflow
  | ifThen condition thenBranch elseBranch =>
    cases elseBranch with
    | none =>
      refine (h.evaluate condition hs.1 hw).bind fun value w₁ _ h₁ _ => ?_
      exact .ite (h.execute thenBranch hs.2 h₁) (.pure h₁ Flow.known_normal)
    | some elseBranch =>
      refine (h.evaluate condition hs.1 hw).bind fun value w₁ _ h₁ _ => ?_
      exact .ite (h.execute thenBranch hs.2.1 h₁) (h.execute elseBranch hs.2.2 h₁)
  | whileLoop condition body => exact h.repeatWhile condition body hs.1 hs.2 hw
  | breakLoop keyword => exact .pure hw nofun
  | returnValue keyword value =>
    cases value with
    | none =>
      refine .pure hw fun value hvalue => ?_
      cases hvalue
      trivial
    | some e =>
      refine (h.evaluate e hs hw).bind fun value w₁ _ h₁ hvalue => .pure h₁ fun value' heq => ?_
      cases heq
      exact hvalue
  | function decl =>
    refine (Provides.freshStamp hw).bind fun stamp w₁ _ h₁ _ => ?_
    refine (Provides.scope h₁).bind fun current w₂ _ h₂ _ => ?_
    have hknown : Value.Known K w₂.trace (.callable (.function stamp ⟨decl, current, false⟩)) :=
      hs.2
    exact (Provides.define h₂ hs.1 hknown).bind fun _ w₃ _ h₃ _ => .pure h₃ Flow.known_normal
  | classDecl name superclass methods =>
    obtain ⟨hc, hname, hsuperclass, -⟩ := hs
    cases superclass with
    | none =>
      refine (Provides.defineNil hw hname).bind fun _ w₁ _ h₁ _ => ?_
      exact (Provides.defineBase h₁ hc hname rfl).bind fun _ w₂ _ h₂ _ => .pure h₂ Flow.known_normal
    | some e =>
      obtain ⟨ref, token, rfl⟩ := hsuperclass e rfl
      exact (Provides.defineNil hw hname).bind fun _ w₁ _ h₁ _ => .inherit h₁ hc hname rfl n

lemma succ_executeAll (h : ProvidesAt K n) (body : List Stmt) (hbody : Stmt.AllTidy K body)
    (hw : Provided K w) :
    Provides K w (Watched.executeAll (n + 1) body) fun flow w' => flow.Known K w'.trace := by
  cases body with
  | nil => exact .pure hw Flow.known_normal
  | cons s rest =>
    refine (h.execute s hbody.1 hw).bind fun flow w₁ _ h₁ hflow => ?_
    cases flow with
    | normal => exact h.executeAll rest hbody.2 h₁
    | broken => exact .pure h₁ hflow
    | returned value => exact .pure h₁ hflow

lemma succ_repeatWhile (h : ProvidesAt K n) (condition : Expr) (body : Stmt)
    (hcondition : condition.Tidy) (hbody : body.Tidy K) (hw : Provided K w) :
    Provides K w (Watched.repeatWhile (n + 1) condition body) fun flow w' =>
      flow.Known K w'.trace := by
  refine (h.evaluate condition hcondition hw).bind fun value w₁ _ h₁ _ =>
    .ite ?_ (.pure h₁ Flow.known_normal)
  refine (h.execute body hbody h₁).bind fun flow w₂ _ h₂ hflow => ?_
  cases flow with
  | normal => exact h.repeatWhile condition body hcondition hbody h₂
  | broken => exact .pure h₂ Flow.known_normal
  | returned value => exact .pure h₂ hflow

end ProvidesAt

/-- Runs keep the invariant, whatever fuel they have. -/
lemma providesAt (K : ClassDecl → Prop) (n : Nat) : ProvidesAt K n := by
  induction n with
  | zero => refine ⟨?_, ?_, ?_, ?_, ?_, ?_, ?_⟩ <;> intros <;> exact .exhausted ‹_›
  | succ n ih =>
    exact ⟨ih.succ_evaluate, ih.succ_evaluateAll, ih.succ_invoke, ih.succ_call, ih.succ_execute,
      ih.succ_executeAll, ih.succ_repeatWhile⟩

/-- **The run of a tidy program keeps the invariant.** -/
lemma provides_runProgram {K : ClassDecl → Prop} {w : Watch} (fuel : Nat) (program : List Stmt)
    (hprogram : Stmt.AllTidy K program) (hw : Provided K w) :
    Provides K w (Watched.runProgram fuel program) fun _ _ => True := by
  induction program generalizing w with
  | nil => exact .pure hw trivial
  | cons s rest ih =>
    exact ((providesAt K fuel).execute s hprogram.1 hw).bind fun _ w₁ _ h₁ _ => ih hprogram.2 h₁

end LoxLang
