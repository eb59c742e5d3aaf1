import LoxLang.Proofs.Machine.Inheritance
import LoxLang.Proofs.Session.References

/-!
# Which method is meant

A method call leaves it to the run which method is meant.  For `this.m` it is the class of the
instance that decides, for `super.m` the superclass of the class that the text stands in; and what
the variable of the superclass holds by then decides nothing.

Three things come together here.  The text says that a `super` stands inside a method of a class
with a superclass (`Site.Housed`).  The activations around it are of the regions around it, so two
of them are the execution of the class statement, with the frame for `super`, and one nearer the
binding of the method, with the frame for `this` (`Site.FoundAt`).  And what these two frames hold
is what they were made with (`Furnished`).  A frame is made once, so the class that is found there
is the one that this very execution has evaluated (`WatchedSession.Reachable.executesClass`).

So of all the ways in which following a `super` could fail, only one is left: that no class of the
chain has the method.
-/

namespace LoxLang

/-! ## Bound methods -/

/-- A callable is a method bound to an instance.  A declared method runs in a frame of its own, in
which `this` is the instance. -/
def Callable.IsBound (s : Store) (method : Method) (id : InstanceId) : Callable → Prop
  | .builtin _ b receiver => method = .builtin b ∧ receiver = some id
  | .function _ closure => ∃ own frame, method = .declared own ∧
    closure = { own with scope := frame :: own.scope } ∧
    (s.frame frame).find? "this" = some (.object id)
  | .cls _ => False

/-- **A look-up ends as it should**: with the method that was found, bound to the instance, and with
an error at the name of the method if there is none. -/
def Dispatched (m : Machine) (id : InstanceId) (name : Token) (found : Option Method)
    (result : Outcome Value × Machine) : Prop :=
  match found with
  | some method => ∃ c store, result = (.ok (.callable c), { m with store := store }) ∧
    c.IsBound store method id
  | none => result = (.error ⟨name, .undefinedProperty name.lexeme⟩, m)

lemma isBound_bindMethod (s : Store) (method : Method) (id : InstanceId) :
    (s.bindMethod method id).1.IsBound (s.bindMethod method id).2 method id := by
  cases method with
  | builtin b => exact ⟨rfl, rfl⟩
  | declared closure =>
    have hframe := Store.frame_addFrame_self s.freshStamp.2
      (Bindings.empty.insert "this" (Value.object id))
    have hthis := congrArg (·.find? "this") hframe
    exact ⟨closure, _, rfl, rfl, hthis.trans (Bindings.find?_insert_self _ _ _)⟩

section Dispatched

variable {m : Machine} {id : InstanceId}

/-- A property that is no field is a method of the class of the instance. -/
lemma dispatched_property {i : Instance} (hi : m.store.instances[id]? = some i) {name : Token}
    (hfield : i.fields.find? name.lexeme = none) :
    Dispatched m id name (i.cls.lookup? name.lexeme) (Effect.property id name m) := by
  cases hmethod : i.cls.lookup? name.lexeme with
  | none =>
    simp only [Dispatched, Effect.property, Store.fields, hi, Option.map_some, Option.getD_some,
      hfield, Option.bind_some, hmethod]
  | some method =>
    refine ⟨(m.store.bindMethod method id).1, (m.store.bindMethod method id).2, ?_,
      isBound_bindMethod m.store method id⟩
    simp only [Effect.property, Store.fields, hi, Option.map_some, Option.getD_some, hfield,
      Option.bind_some, hmethod, Effect.run_onStore]

/-- Where `super` is a class and `this`, one frame nearer, an instance, the class decides. -/
lemma dispatched_superMethod {ref : RefId} {d : Nat} {parent : Class}
    (hdistance : m.distances.find? ref = some (d + 1))
    (hparent : Effect.readAt m.scope (d + 1) "super" m = (.ok (.callable (.cls parent)), m))
    (hthis : Effect.readAt m.scope d "this" m = (.ok (.object id), m)) (keyword method : Token) :
    Dispatched m id method (parent.lookup? method.lexeme) (superMethod ref keyword method m) := by
  cases hmethod : parent.lookup? method.lexeme with
  | none =>
    simp only [Dispatched, superMethod, Effect.run_bind, Effect.distance?, hdistance, Effect.scope,
      hparent, Nat.add_sub_cancel, hthis, hmethod, Effect.raise]
  | some found =>
    refine ⟨(m.store.bindMethod found id).1, (m.store.bindMethod found id).2, ?_,
      isBound_bindMethod m.store found id⟩
    simp only [superMethod, Effect.run_bind, Effect.distance?, hdistance, Effect.scope, hparent,
      Nat.add_sub_cancel, hthis, hmethod, Effect.bindMethod, Effect.run_onStore, Effect.run_pure]

end Dispatched

/-! ## Frames around a method -/

/-- Any `this` that stood in the place of the reference would be found by its distance, and would be
the instance. -/
def Site.ThisIs (site : Site) (m : Machine) (id : InstanceId) : Prop :=
  ∀ ref token, token.lexeme = "this" → ∃ d,
    Site.visible? { site with reference := ⟨.this, ref, token⟩ } = some d ∧
    Effect.readAt m.scope d token.lexeme m = (.ok (.object id), m)

lemma Effect.readAt_of_frame {m : Machine} {scope : Scope} {d : Nat} {frame : FrameId}
    {name : String} {value : Value} (hframe : scope[d]? = some frame)
    (hvalue : (m.store.frame frame).find? name = some value) :
    readAt scope d name m = (.ok value, m) := by
  simp only [readAt, Store.readAt, hframe, hvalue]

section Frames

variable {K : ClassDecl → Prop} {before : List Observation} {m : Machine} {site : Site}
  {inner outer : LexicalContext} {d : FunDecl}

/-- Inside a method the frame for `this` is around, and holds an instance. -/
lemma exists_this (halign : Aligned ⟨m, before⟩ site.pending site.scopes m.scope)
    (hplaced : site.Placed) (hstore : Furnished K before m.store)
    (hscopes : site.scopes = inner ++ d.receiverScope :: outer) :
    ∃ id i, m.store.instances[id]? = some i ∧
      Effect.readAt m.scope inner.length "this" m = (.ok (.object id), m) := by
  have hreceiver : site.scopes[inner.length]? = some d.receiverScope := by simp [hscopes]
  obtain ⟨frame, hframe, -, hnames⟩ := halign.exists_frame hreceiver
  have hbound : (m.store.frame frame).contains "this" = true := by
    refine hnames "this" (by simp [FunDecl.receiverScope]) fun _ hpending => ?_
    have hword := hplaced.pending _ hpending
    rw [show ("this" : String) = Keyword.this_.spelling from rfl,
      Keyword.ofWord?_spelling] at hword
    cases hword
  obtain ⟨value, hvalue⟩ := Bindings.exists_of_contains hbound
  obtain ⟨id, rfl, hid⟩ := hstore.this frame value hvalue
  exact ⟨id, m.store.instances[id], Array.getElem?_eq_getElem hid,
    Effect.readAt_of_frame hframe hvalue⟩

/-- A frame is made once, so it is not among those that were made before. -/
lemma frame?_ne_of_openedFrames_nodup {first last : List Observation} {o : Observation}
    {frame : FrameId} (h : (openedFrames (first ++ o :: last)).Nodup)
    (hframe : o.frame? = some frame) : ∀ u ∈ first, u.frame? ≠ some frame := by
  intro u hu hsame
  rw [openedFrames, List.filterMap_append, List.filterMap_cons_some hframe] at h
  obtain ⟨-, -, hapart⟩ := List.nodup_append.mp h
  exact hapart frame (List.mem_filterMap.mpr ⟨u, hu, hsame⟩) frame List.mem_cons_self rfl

/-- **A frame is made once**: what was noted before it is known. -/
lemma eq_of_openedFrames_nodup {trace first last first' last' : List Observation}
    {o o' : Observation} {frame : FrameId} (h : (openedFrames trace).Nodup)
    (htrace : trace = first ++ o :: last) (htrace' : trace = first' ++ o' :: last')
    (hframe : o.frame? = some frame) (hframe' : o'.frame? = some frame) :
    first = first' ∧ o = o' := by
  have hbefore := frame?_ne_of_openedFrames_nodup (htrace ▸ h) hframe
  have hbefore' := frame?_ne_of_openedFrames_nodup (htrace' ▸ h) hframe'
  rcases List.append_eq_append_iff.mp (htrace.symm.trans htrace') with
    ⟨between, rfl, hrest⟩ | ⟨between, rfl, hrest⟩
  all_goals rcases between with _ | ⟨u, between⟩
  · simp only [List.nil_append, List.cons.injEq] at hrest
    exact ⟨by simp, hrest.1⟩
  · obtain ⟨rfl, -⟩ := List.cons_eq_cons.mp hrest
    exact absurd hframe (hbefore' o (by simp))
  · simp only [List.nil_append, List.cons.injEq] at hrest
    exact ⟨by simp, hrest.1.symm⟩
  · obtain ⟨rfl, -⟩ := List.cons_eq_cons.mp hrest
    exact absurd hframe' (hbefore o' (by simp))

/-- Inside a method of a class with a superclass the frame for `super` is around.  Frames are made
once, so the execution of a class statement that it was made by is one of that class. -/
lemma exists_super {c : ClassDecl}
    (halign : Aligned ⟨m, before⟩ site.pending site.scopes m.scope)
    (hstore : Furnished K before m.store) (hnodup : (openedFrames before).Nodup)
    (hscopes : site.scopes = inner ++ d.receiverScope :: c.parentScope :: outer) :
    ∃ superclass frame parent, m.scope[inner.length + 1]? = some frame ∧
      (m.store.frame frame).find? "super" = some (.callable (.cls parent)) ∧
      Inherited K before ⟨c.name, superclass, c.methods⟩ frame (m.scope.drop (inner.length + 2))
        parent ∧
      ∀ region around, .opened region frame around ∈ before →
        region = .parent c.name c.methods ∧ around = m.scope.drop (inner.length + 2) := by
  have hparent : site.scopes[inner.length + 1]? = some c.parentScope := by simp [hscopes]
  obtain ⟨frame, hframe, hopened, hnames⟩ := halign.exists_frame hparent
  have honce : ∀ region around, .opened region frame around ∈ before →
      region = .parent c.name c.methods ∧ around = m.scope.drop (inner.length + 2) := by
    intro region around ho
    obtain ⟨first, last, hfirst⟩ := List.append_of_mem ho
    obtain ⟨first', last', hfirst'⟩ := List.append_of_mem hopened
    obtain ⟨-, heq⟩ := eq_of_openedFrames_nodup hnodup hfirst hfirst' rfl rfl
    cases heq
    exact ⟨rfl, rfl⟩
  obtain ⟨value, hvalue⟩ := Bindings.exists_of_contains
    (hnames "super" (by simp [ClassDecl.parentScope]) (by simp))
  obtain ⟨⟨name, superclass, methods⟩, around, parent, rfl, hinherited⟩ :=
    hstore.super frame value hvalue
  obtain ⟨-, earlier, later, ref, token, m', -, -, -, hbefore⟩ := id hinherited
  obtain ⟨hregion, rfl⟩ := honce (.parent name methods) around (by rw [hbefore]; simp)
  cases hregion
  exact ⟨superclass, frame, parent, hframe, hvalue, hinherited, honce⟩

end Frames

/-! ## What sessions provide -/

section Reading

variable {K : ClassDecl → Prop} {s : Session} {source : String} {log : Log}

/-- Every `this` and `super` of an accepted source stands inside a method. -/
lemma Session.housed_reading (h : s.accepts source log = true)
    (hK : ∀ c ∈ Stmt.allClasses (s.reading source).program, K c) :
    ∀ site ∈ programSites (s.reading source).program, site.Housed K :=
  housed_of_quiet s.isGlobal (tidy_readProgram hK) (analysis_of_accepts h)

end Reading

/-- The builtins that every session starts with. -/
lemma furnished_initial (K : ClassDecl → Prop) : Furnished K [] Store.initial := by
  have hglobals : ∀ {frame name value}, (Store.initial.frame frame).find? name = some value →
      (name = "clock" ∨ name = "Array" ∨ name = "Input") ∧ value.Known K [] := by
    intro frame name value hvalue
    by_cases hframe : frame = 0
    · subst hframe
      have hmem := Bindings.mem_of_find?_insertAll hvalue
      simp only [Bindings.find?_empty, reduceCtorEq, or_false, List.mem_cons, Prod.mk.injEq,
        List.not_mem_nil] at hmem
      rcases hmem with ⟨rfl, rfl⟩ | ⟨rfl, rfl⟩ | ⟨rfl, rfl⟩
      · exact ⟨.inl rfl, trivial⟩
      · exact ⟨.inr (.inl rfl), Class.known_builtinClass _ _ _⟩
      · exact ⟨.inr (.inr rfl), Class.known_builtinClass _ _ _⟩
    · have hempty : Store.initial.frame frame = .empty :=
        Store.frame_of_size_le (Nat.one_le_iff_ne_zero.mpr hframe)
      rw [hempty] at hvalue
      cases hvalue
  refine ⟨fun _ _ _ hvalue => (hglobals hvalue).2, fun id i hi => ?_, fun _ _ hvalue => ?_,
    fun _ _ hvalue => ?_⟩
  · simp [Store.initial] at hi
  · exact absurd (hglobals hvalue).1 (by decide)
  · exact absurd (hglobals hvalue).1 (by decide)

namespace WatchedSession

/-- The class statements of all accepted programs. -/
def classes (h : WatchedSession) : List ClassDecl := h.programs.flatMap Stmt.allClasses

lemma classes_of_accepts {h : WatchedSession} {source : String} {log : Log}
    (haccepts : h.session.accepts source log = true) (fuel : Nat) :
    (h.run fuel source log).classes =
      h.classes ++ Stmt.allClasses (h.session.reading source).program := by
  simp [classes, programs_of_accepts haccepts]

/-- The class statements of a program are among those of the session. -/
lemma mem_classes {h : WatchedSession} {program : List Stmt} (hprogram : program ∈ h.programs) :
    ∀ c ∈ Stmt.allClasses program, c ∈ h.classes := fun _ hc =>
  List.mem_flatMap.mpr ⟨program, hprogram, hc⟩

lemma Reachable.tidy_classes {h : WatchedSession} (hh : h.Reachable) :
    ∀ c ∈ h.classes, FunDecl.AllTidy (· ∈ h.classes) c.methods := by
  intro c hc
  obtain ⟨program, hprogram, hc⟩ := List.mem_flatMap.mp hc
  obtain ⟨r, hr, rfl⟩ := List.mem_map.mp hprogram
  obtain ⟨earlier, fuel, source, log, -, -, rfl, -⟩ := hh.exists_accepted r hr
  exact Stmt.AllTidy.classes _ (tidy_readProgram (mem_classes hprogram)) c hc

lemma Reachable.housed {h : WatchedSession} (hh : h.Reachable) :
    ∀ site ∈ h.sites, site.Housed (· ∈ h.classes) := by
  intro site hsite
  obtain ⟨program, hprogram, hsite⟩ := List.mem_flatMap.mp hsite
  obtain ⟨r, hr, rfl⟩ := List.mem_map.mp hprogram
  obtain ⟨earlier, fuel, source, log, -, haccepts, rfl, -⟩ := hh.exists_accepted r hr
  exact Session.housed_reading haccepts (mem_classes hprogram) site hsite

/-- **Every session provides what its programs rely on.**  The class statements that are known may
be those of a longer session. -/
lemma Reachable.provided {K : ClassDecl → Prop} (htidy : ∀ c, K c → FunDecl.AllTidy K c.methods)
    {h : WatchedSession} (hh : h.Reachable) (hK : ∀ c ∈ h.classes, K c) :
    Provided K ⟨h.session.machine, h.trace⟩ := by
  induction hh with
  | start input clock limit => exact ⟨htidy, furnished_initial K, by simp⟩
  | @run h _ fuel source log ih =>
    cases haccepts : h.session.accepts source log with
    | false =>
      rw [run_of_not_accepts haccepts] at hK ⊢
      refine (ih hK).congr ?_ rfl
      rcases h.session.rejected_cases source log with heq | ⟨-, heq⟩
      · rw [heq]
      · rw [heq]
        rfl
    | true =>
      rw [classes_of_accepts haccepts, List.forall_mem_append] at hK
      rw [run_of_accepts haccepts]
      have hloaded : Provided K ⟨(h.session.loaded source).machine, h.trace⟩ :=
        (ih hK.1).congr rfl rfl
      exact (provides_runProgram fuel _ (tidy_readProgram hK.2) hloaded).2.1
  | console _ _ ih => exact (ih hK).congr rfl rfl
  | limit _ _ ih => exact (ih hK).congr rfl rfl

end WatchedSession

/-! ## What `super` and `this` mean -/

/-- **A `super` means the superclass that was evaluated.**  It stands inside a method of a class
statement, with blocks and functions in between.  In the chain of activations around it there is the
binding of the method, and next the execution of the class statement that the method comes from,
with the frame that this execution has made for `super`.  For `this` there is an instance.  Which
method is meant is decided by the class that the superclass gave in this execution and by its
ancestors, and the method is bound to the instance. -/
structure SuperMeans (K : ClassDecl → Prop) (runs : List ProgramRun) (before : List Observation)
    (m : Machine) (site : Site) (chain : List Activation) (c : ClassDecl) (parent : Class)
    (id : InstanceId) : Prop where
  stands : ∃ inner, ∃ d ∈ c.methods, ∃ outer this frame,
    site.scopes = inner ++ d.receiverScope :: c.parentScope :: outer ∧ (∀ σ ∈ inner, σ.IsPlain) ∧
    chain[inner.length]? = some ⟨.receiver d, this⟩ ∧
    chain[inner.length + 1]? = some ⟨.parent c.name c.methods, frame⟩ ∧
    ExecutesClass runs c.name c.methods parent frame (chain.drop (inner.length + 2)) ∧
    m.scope[inner.length + 1]? = some frame ∧
    Inherited K before c frame (m.scope.drop (inner.length + 2)) parent ∧
    ∀ region around, .opened region frame around ∈ before →
      region = .parent c.name c.methods ∧ around = m.scope.drop (inner.length + 2)
  this : site.ThisIs m id ∧ ∃ i, m.store.instances[id]? = some i
  dispatched : ∀ n method, ∃ found,
    (∀ other, parent.Finds K before method.lexeme other ↔ other = found) ∧
    Dispatched m id method found
      (evaluate (n + 1) (.super site.reference.ref site.reference.token method) m)

/-- **A `this` means an instance**, and a property of it that is no field is the method that the
class of the instance and its ancestors decide on, bound to the instance. -/
structure ThisMeans (K : ClassDecl → Prop) (before : List Observation) (m : Machine) (site : Site)
    (id : InstanceId) (i : Instance) : Prop where
  this : (∀ n, evaluate (n + 1) (.this site.reference.ref site.reference.token) m =
    (.ok (.object id), m)) ∧ m.store.instances[id]? = some i
  dispatched : ∀ n name, i.fields.find? name.lexeme = none → ∃ found,
    (∀ other, i.cls.Finds K before name.lexeme other ↔ other = found) ∧
    Dispatched m id name found
      (evaluate (n + 2) (.get (.this site.reference.ref site.reference.token) name) m)

/-- Does a note tell that a reference was followed, with a given use? -/
def Observation.follows (use : ReferenceUse) : Observation → Bool
  | .followed reference _ => reference.use = use
  | .opened .. => false

lemma exists_followed {trace : List Observation} {use : ReferenceUse}
    (h : trace.any (·.follows use) = true) : ∃ before reference m after,
      trace = before ++ .followed reference m :: after ∧ reference.use = use := by
  obtain ⟨o, ho, hfollows⟩ := List.any_eq_true.mp h
  obtain ⟨before, after, rfl⟩ := List.append_of_mem ho
  cases o with
  | followed reference m =>
    exact ⟨before, reference, m, after, rfl, by simpa [Observation.follows] using hfollows⟩
  | opened => cases hfollows

section Means

variable {K : ClassDecl → Prop} {before : List Observation} {m : Machine} {site : Site}
  {runs : List ProgramRun} {chain : List Activation}

lemma exists_superMeans (halign : Aligned ⟨m, before⟩ site.pending site.scopes m.scope)
    (hplaced : site.Placed) (hstore : Furnished K before m.store)
    (hnodup : (openedFrames before).Nodup)
    (hdistance : m.distances.find? site.reference.ref = site.visible?)
    (hfound : ∀ d, site.visible? = some d → site.FoundAt d chain m)
    (hexecuted : ∀ c frame around parent outer, Inherited K before c frame around parent →
      ⟨.parent c.name c.methods, frame⟩ :: outer <:+ chain →
      ExecutesClass runs c.name c.methods parent frame outer)
    (huse : site.reference.use = .super) (hinside : site.scopes.Inside K .derived) :
    ∃ c parent id, K c ∧ SuperMeans K runs before m site chain c parent id := by
  obtain ⟨inner, c, d, hd, outer, -, hscopes, hinner⟩ := hinside.exists_parent
  obtain ⟨id, i, hi, hthis⟩ := exists_this halign hplaced hstore hscopes
  obtain ⟨superclass, frame, parent, hframe, hparent, hinherited, honce⟩ :=
    exists_super halign hstore hnodup hscopes
  have hvisible := visible?_super hscopes hinner (by simp [huse]) (hplaced.super huse)
  rw [hvisible] at hdistance
  have hreceiver : site.scopes[inner.length]? = some d.receiverScope := by simp [hscopes]
  have houter : site.scopes[inner.length + 1]? = some c.parentScope := by simp [hscopes]
  obtain ⟨this, hbinding, -⟩ := (hfound _ hvisible).activation hreceiver
  obtain ⟨frame', hexecution, hframe'⟩ := (hfound _ hvisible).activation houter
  obtain rfl : frame = frame' := Option.some.inj (hframe.symm.trans hframe')
  have hsuffix : ⟨.parent c.name c.methods, frame⟩ :: chain.drop (inner.length + 2) <:+ chain := by
    obtain ⟨hlt, hsame⟩ := List.getElem?_eq_some_iff.mp hexecution
    have hdrop := List.drop_eq_getElem_cons hlt
    rw [hsame] at hdrop
    exact hdrop ▸ List.drop_suffix _ _
  refine ⟨⟨c.name, superclass, c.methods⟩, parent, id, hinherited.1,
    ⟨⟨inner, d, hd, outer, this, frame, hscopes, hinner, hbinding, hexecution,
      hexecuted _ frame _ parent _ hinherited hsuffix, hframe, hinherited, honce⟩,
      ⟨fun ref token htoken => ?_, i, hi⟩, fun n method => ?_⟩⟩
  · rw [htoken]
    exact ⟨inner.length, visible?_this hscopes hinner (by simp) htoken, hthis⟩
  · have hknown : parent.Known K before := hstore.frames frame _ _ hparent
    exact ⟨_, hknown.finds_iff method.lexeme, dispatched_superMethod hdistance
      (Effect.readAt_of_frame hframe hparent) hthis site.reference.token method⟩

lemma exists_thisMeans (halign : Aligned ⟨m, before⟩ site.pending site.scopes m.scope)
    (hplaced : site.Placed) (hstore : Furnished K before m.store)
    (hdistance : m.distances.find? site.reference.ref = site.visible?)
    (huse : site.reference.use = .this) {cls : ClassContext} (hcls : cls ≠ .none)
    (hinside : site.scopes.Inside K cls) : ∃ id i, ThisMeans K before m site id i := by
  obtain ⟨inner, d, outer, hscopes, hinner⟩ := hinside.exists_receiver hcls
  obtain ⟨id, i, hi, hthis⟩ := exists_this halign hplaced hstore hscopes
  have hname : site.reference.token.lexeme = "this" := hplaced.this huse
  rw [visible?_this hscopes hinner (by simp [huse]) hname] at hdistance
  have hevaluate : ∀ n, evaluate (n + 1) (.this site.reference.ref site.reference.token) m =
      (.ok (.object id), m) := by
    intro n
    show Effect.readRef site.reference.ref site.reference.token m = _
    simp only [Effect.readRef, hdistance, hname, hthis]
  refine ⟨id, i, ⟨hevaluate, hi⟩, fun n name hfield => ?_⟩
  refine ⟨_, (hstore.instances id i hi).cls.finds_iff name.lexeme, ?_⟩
  have hget : evaluate (n + 2) (.get (.this site.reference.ref site.reference.token) name) m =
      Effect.property id name m := by
    rw [evaluate]
    simp only [Effect.run_bind, hevaluate]
  rw [hget]
  exact dispatched_property hi hfield

end Means

namespace WatchedSession

/-- **The execution of a class statement that is around gave the superclass that was noted.**  It
made the frame for `super`, and a frame is made once. -/
lemma Reachable.executesClass {h : WatchedSession} (hh : h.Reachable) {x : Occurrence}
    {chain outer : List Activation} (hchain : Enclosed h.runs x chain)
    {before after : List Observation} (htrace : h.trace = before ++ after) {K : ClassDecl → Prop}
    {c : ClassDecl} {frame : FrameId} {around : Scope} {parent : Class}
    (hinherited : Inherited K before c frame around parent)
    (hsuffix : ⟨.parent c.name c.methods, frame⟩ :: outer <:+ chain) :
    ExecutesClass h.runs c.name c.methods parent frame outer := by
  obtain ⟨parent', n, e, m, m₁, m₂, ha, hname, hparent, hframe⟩ :=
    hchain.exists_executesClass hsuffix
  -- The superclass is a name, which was followed right before the frame was made.
  obtain ⟨r, hr, links, hunder⟩ := ha.underway
  obtain ⟨N, hwf⟩ := hh.reached.underway (fun _ => id) r (List.mem_reverse.mpr hr) hunder
  obtain ⟨-, -, hsuperclass, -⟩ := hwf.task
  obtain ⟨ref, token, rfl⟩ := hsuperclass e rfl
  obtain ⟨rfl, first, last, hnoted⟩ :=
    (hh.noted ⟨r, hr, links, hunder⟩).superclass hname hparent
  obtain ⟨-, first', last', ref', token', m', -, hevaluate, -, hbefore⟩ := hinherited
  have hfirst : h.trace = (first ++ [.followed ⟨.read, ref, token⟩ m₂]) ++
      .opened (.parent c.name c.methods) frame m₂.scope :: last := by
    rw [hnoted, hframe, List.append_assoc]
    rfl
  have hfirst' : h.trace = (first' ++ [.followed ⟨.read, ref', token'⟩ m']) ++
      .opened (.parent c.name c.methods) frame around :: (last' ++ after) := by
    rw [htrace, hbefore]
    simp
  obtain ⟨hsame, -⟩ := eq_of_openedFrames_nodup hh.invariant.sound.apart hfirst hfirst' rfl rfl
  obtain ⟨-, hfollowed⟩ := List.append_inj' hsame rfl
  cases hfollowed
  cases n with
  | zero => cases hparent
  | succ n =>
    cases (hevaluate n).symm.trans hparent
    exact ⟨n + 1, _, m, m₂, m₂, ha, hname, hparent, hframe⟩

/-- **In every session, `super` and `this` mean what the text says.**  Watching changes no run, and
whenever a `super` or `this` is evaluated it is noted.  Every one that was noted has a site in an
accepted program, and was followed by an activity that stands in one chain of activations; there it
means what it should.  For `super` this leaves nothing else to happen: no fault, and no error but
that the method is not defined. -/
theorem Reachable.dispatches {h : WatchedSession} (hh : h.Reachable) :
    (∀ fuel program, Watched.Erases (Watched.runProgram fuel program) (runProgram fuel program)) ∧
    (∀ n ref keyword method w, w.trace ++ [.followed ⟨.super, ref, keyword⟩ w.machine] <+:
      (Watched.evaluate (n + 1) (.super ref keyword method) w).2.trace) ∧
    (∀ n ref keyword w, (Watched.evaluate (n + 1) (.this ref keyword) w).2.trace =
      w.trace ++ [.followed ⟨.this, ref, keyword⟩ w.machine]) ∧
    ∀ before reference m after, h.trace = before ++ .followed reference m :: after →
      ∃ site ∈ h.sites, site.reference = reference ∧
        ∃ a chain, h.Underway a ∧ a.Follows reference m ∧
          (∀ other, Enclosed h.runs (.activity a) other ↔ other = chain) ∧
          (reference.use = .super → ∃ c ∈ h.classes, ∃ parent id,
            SuperMeans (· ∈ h.classes) h.runs before m site chain c parent id) ∧
          (reference.use = .this → ∃ id i, ThisMeans (· ∈ h.classes) before m site id i) := by
  refine ⟨Watched.erases_runProgram, Watched.prefix_evaluate_super, Watched.trace_evaluate_this,
    fun before reference m after htrace => ?_⟩
  have hsound := hh.invariant.sound
  have hstore : Furnished (· ∈ h.classes) before m.store :=
    (hh.provided hh.tidy_classes fun _ hc => hc).followed before reference m after htrace
  obtain ⟨site, hsite, rfl, hdistance, halign⟩ := hsound.followed before reference m after htrace
  have hplaced := hsound.placed site hsite
  have hhoused := hh.housed site hsite
  -- The chain is that of the activity which the note is about.
  have hnote : .followed site.reference m ∈ h.trace :=
    htrace ▸ List.mem_append_right _ List.mem_cons_self
  obtain ⟨a, ha, hfollows⟩ := hh.exists_follows hnote
  obtain ⟨other, hother, hsame, chain, hchain, -, hfound⟩ := hh.exists_foundAt ha hfollows
  obtain rfl : other = site := hh.eq_of_ref_eq hother hsite (congrArg Reference.ref hsame)
  refine ⟨other, hsite, rfl, a, chain, ha, hfollows, hchain, fun huse => ?_, fun huse => ?_⟩
  · have hnodup : (openedFrames before).Nodup := by
      have hall := hsound.apart
      rw [htrace, openedFrames, List.filterMap_append] at hall
      exact (List.nodup_append.mp hall).1
    obtain ⟨c, parent, id, hc, hmeans⟩ := exists_superMeans halign hplaced hstore hnodup hdistance
      hfound (fun c frame around parent outer hinherited hsuffix => hh.executesClass
        ((hchain chain).mpr rfl) htrace hinherited hsuffix) huse (hhoused.super huse)
    exact ⟨c, hc, parent, id, hmeans⟩
  · obtain ⟨cls, hcls, hinside⟩ := hhoused.this huse
    exact exists_thisMeans halign hplaced hstore hdistance huse hcls hinside

/-- A closure that follows `super` and `this` after its method has returned, and after the variable
of the superclass was set to `nil`. -/
theorem dispatches_late_closure :
    let h : WatchedSession := .run ⟨(Session.start [] (.startingAt 0)).setLimit 10, [], []⟩ 20
      ("class A \x7b m() \x7b\x7d \x7d " ++
        "class B < A \x7b m() \x7b fun f() \x7b super.m(); this.m; \x7d return f; \x7d \x7d " ++
        "var g = B().m(); A = nil; g();") []
    (∃ before reference m after, h.trace = before ++ .followed reference m :: after ∧
      reference.use = .super ∧ ∃ site ∈ h.sites, ∃ a chain, h.Underway a ∧
        a.Follows reference m ∧ (∀ other, Enclosed h.runs (.activity a) other ↔ other = chain) ∧
        ∃ c ∈ h.classes, ∃ parent id,
          SuperMeans (· ∈ h.classes) h.runs before m site chain c parent id) ∧
    ∃ before reference m after, h.trace = before ++ .followed reference m :: after ∧
      reference.use = .this ∧ ∃ site ∈ h.sites, ∃ id i,
        ThisMeans (· ∈ h.classes) before m site id i := by
  intro h
  have hreachable : h.Reachable := .run (.start [] (.startingAt 0) 10) 20 _ []
  obtain ⟨-, -, -, hmeans⟩ := hreachable.dispatches
  obtain ⟨hsupers, hthises⟩ : h.trace.any (·.follows .super) = true ∧
      h.trace.any (·.follows .this) = true := by
    decide +kernel
  constructor
  · obtain ⟨before, reference, m, after, htrace, huse⟩ := exists_followed hsupers
    obtain ⟨site, hsite, -, a, chain, ha, hfollows, hchain, hsuper, -⟩ :=
      hmeans before reference m after htrace
    exact ⟨before, reference, m, after, htrace, huse, site, hsite, a, chain, ha, hfollows, hchain,
      hsuper huse⟩
  · obtain ⟨before, reference, m, after, htrace, huse⟩ := exists_followed hthises
    obtain ⟨site, hsite, -, -, -, -, -, -, -, hthis⟩ := hmeans before reference m after htrace
    exact ⟨before, reference, m, after, htrace, huse, site, hsite, hthis huse⟩

end WatchedSession

end LoxLang
