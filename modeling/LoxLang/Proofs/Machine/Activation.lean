import LoxLang.Proofs.Machine.Reached

/-!
# Activations

A region of the program is entered again and again, and each time a frame is made for it.  Which of
these *activations* a place of the program stands in while it is run is not seen from the frames: a
recursive function has frames of calls that have ended, and a closure is called when the regions
around it were left long ago.

The activations around something that occurs are those of the text around it (`Enclosed`).  What an
activity starts stands in the same activations as the activity itself, and in one more where a
region is entered.  The body of a function is different.  It stands in the activation of its call,
and then in those that the function was *made* in, by an activity that may be over or part of an
earlier run.  A method goes back to the class that declares it, with the activation of its binding
in between, and a class to the activity that made it.

Where there is an activation for the `super` of a class, the class statement was executed in the
activations further out (`Enclosed.exists_executesClass`).

Two more things are proved.  Everything that goes on has its activations
(`Machine.Reached.enclosed`).  What makes this an induction is that a function is younger than the
functions and classes that it goes back to, and stamps tell which is younger.  And the scope of the
machine consists of just their frames, while their regions are the regions of the text around
(`Enclosed.hasScope`, `Enclosed.sitsIn`).
-/

namespace LoxLang

/-! ## Activations and what they are around -/

/-- **One time that a region was entered**, with the frame that was made for it. -/
@[ext]
structure Activation where
  region : Region
  frame : FrameId

/-- What occurs in a run: an activity goes on, or something is made that can be gone back to. -/
inductive Occurrence where
  | activity (a : Activity)
  | made (x : Made)

/-- **What occurs in some runs stands inside of activations**, the innermost first. -/
inductive Enclosed (runs : List ProgramRun) : Occurrence → List Activation → Prop
  /-- At top level there is nothing around but the globals. -/
  | top {r : ProgramRun} {before : List Stmt} {s : Stmt} {rest : List Stmt} {m : Machine}
      (hr : r ∈ runs) (hprogram : r.program = before ++ s :: rest)
      (hbefore : runProgram r.fuel before r.machine = (.ok (), m)) :
      Enclosed runs (.activity ⟨r.fuel, .execute s, m⟩) []
  /-- What is part of an activity stands where the activity does. -/
  | inside {a b : Activity} {link : Link} {chain : List Activation}
      (ha : Enclosed runs (.activity a) chain) (hb : a.Starts link b)
      (hopens : a.task.opens = false) : Enclosed runs (.activity b) chain
  /-- The statements of a block stand in the activation of this block. -/
  | block {n : Nat} {body : List Stmt} {frame : FrameId} {m m₁ : Machine}
      {chain : List Activation}
      (ha : Enclosed runs (.activity ⟨n + 1, .execute (.block body), m⟩) chain)
      (hframe : Effect.addFrame .empty m = (.ok frame, m₁)) :
      Enclosed runs (.activity ⟨n, .executeAll body, { m₁ with scope := frame :: m₁.scope }⟩)
        (⟨.block body, frame⟩ :: chain)
  /-- The body of a function stands in the activation of this call, and then where the function was
  made. -/
  | body {n : Nat} {stamp : Stamp} {closure : Closure} {arguments : List Value} {paren : Token}
      {frame : FrameId} {m m₁ : Machine} {x : Made} {around chain : List Activation}
      (ha : Enclosed runs (.activity ⟨n + 1, .call (.function stamp closure) arguments paren, m⟩)
        around)
      (hx : x = .function stamp closure ∨ x = .method stamp closure)
      (hmade : Enclosed runs (.made x) chain)
      (hframe : Effect.addFrame (bindParameters closure.decl.params arguments) m =
        (.ok frame, m₁)) :
      Enclosed runs
        (.activity ⟨n, .executeAll closure.decl.body, { m₁ with scope := frame :: closure.scope }⟩)
        (⟨.call closure.decl, frame⟩ :: chain)
  /-- A function stands where its `fun` statement does. -/
  | function {n : Nat} {decl : FunDecl} {m : Machine} {chain : List Activation}
      (ha : Enclosed runs (.activity ⟨n + 1, .execute (.function decl), m⟩) chain) :
      Enclosed runs (.made (.function m.store.nextStamp ⟨decl, m.scope, false⟩)) chain
  /-- A bound method stands in the activation of its binding, and then where the class does that was
  found to declare it. -/
  | method {a : Activity} {c : Class} {name : String} {id : InstanceId} {layer : ClassLayer}
      {closure : Closure} {m : Machine} {around chain : List Activation}
      (ha : Enclosed runs (.activity a) around) (hbinds : a.Binds c name id m)
      (hlayer : c.layers.find? (fun l => (l.methods.find? name).isSome) = some layer)
      (hclosure : layer.methods.find? name = some (.declared closure))
      (hmade : Enclosed runs (.made (.layer layer)) chain) :
      Enclosed runs (.made (m.store.boundMethod closure))
        (⟨.receiver closure.decl, m.store.frames.size⟩ :: chain)
  /-- A class stands where its statement does. -/
  | cls {n : Nat} {name : Token} {methods : List FunDecl} {m m₁ : Machine}
      {chain : List Activation}
      (ha : Enclosed runs (.activity ⟨n + 1, .execute (.classDecl name none methods), m⟩) chain)
      (hname : Effect.define name.lexeme .nil m = (.ok (), m₁)) :
      Enclosed runs (.made (.layer (m₁.newLayer name none methods))) chain
  /-- Below a superclass there is an activation around the methods, for `super`. -/
  | subclass {n : Nat} {name : Token} {e : Expr} {methods : List FunDecl} {parent : Class}
      {m m₁ m₂ : Machine} {chain : List Activation}
      (ha : Enclosed runs (.activity ⟨n + 1, .execute (.classDecl name (some e) methods), m⟩) chain)
      (hname : Effect.define name.lexeme .nil m = (.ok (), m₁))
      (hparent : evaluate n e m₁ = (.ok (.callable (.cls parent)), m₂)) :
      Enclosed runs (.made (.layer (m₂.newLayer name (some parent) methods)))
        (⟨.parent name methods, m₂.store.frames.size⟩ :: chain)

/-- Only which runs there are matters. -/
lemma Enclosed.mono {runs runs' : List ProgramRun} {x : Occurrence} {chain : List Activation}
    (h : Enclosed runs x chain) (hruns : runs ⊆ runs') : Enclosed runs' x chain := by
  induction h with
  | top hr hprogram hbefore => exact .top (hruns hr) hprogram hbefore
  | inside _ hb hopens ih => exact .inside ih hb hopens
  | block _ hframe ih => exact .block ih hframe
  | body _ hx _ hframe ih ihmade => exact .body ih hx ihmade hframe
  | function _ ih => exact .function ih
  | method _ hbinds hlayer hclosure _ ih ihmade => exact .method ih hbinds hlayer hclosure ihmade
  | cls _ hname ih => exact .cls ih hname
  | subclass _ hname hparent ih => exact .subclass ih hname hparent

/-- An activity that stands inside of activations of some runs is under way in one of them. -/
lemma Enclosed.underway {runs : List ProgramRun} {a : Activity} {chain : List Activation}
    (h : Enclosed runs (.activity a) chain) : ∃ r ∈ runs, ∃ links, r.Underway links a := by
  have hstarts : ∀ {a b link}, (∃ r ∈ runs, ∃ links, r.Underway links a) → a.Starts link b →
      ∃ r ∈ runs, ∃ links, r.Underway links b := by
    rintro a b link ⟨r, hr, links, before, s, rest, m, hprogram, hbefore, ha⟩ hb
    exact ⟨r, hr, link :: links, before, s, rest, m, hprogram, hbefore, .start ha hb⟩
  generalize hx : Occurrence.activity a = x at h
  induction h generalizing a with
  | top hr hprogram hbefore =>
    cases hx
    exact ⟨_, hr, [], _, _, _, _, hprogram, hbefore, .here⟩
  | inside _ hb _ ih =>
    cases hx
    exact hstarts (ih rfl) hb
  | block _ hframe ih =>
    cases hx
    exact hstarts (ih rfl) (.block hframe)
  | body _ _ _ hframe ih =>
    cases hx
    exact hstarts (ih rfl) (.body hframe)
  | function | method | cls | subclass => cases hx

/-- **A class statement is executed** in a chain of activations.  Its superclass gives a class, and
the next frame is the one for `super`. -/
def ExecutesClass (runs : List ProgramRun) (name : Token) (methods : List FunDecl) (parent : Class)
    (frame : FrameId) (chain : List Activation) : Prop :=
  ∃ n e m m₁ m₂,
    Enclosed runs (.activity ⟨n + 1, .execute (.classDecl name (some e) methods), m⟩) chain ∧
    Effect.define name.lexeme .nil m = (.ok (), m₁) ∧
    evaluate n e m₁ = (.ok (.callable (.cls parent)), m₂) ∧ m₂.store.frames.size = frame

/-- **Where there is an activation for the `super` of a class**, the class was executed in the
activations further out. -/
lemma Enclosed.exists_executesClass {runs : List ProgramRun} {x : Occurrence}
    {chain outer : List Activation} {name : Token} {methods : List FunDecl} {frame : FrameId}
    (h : Enclosed runs x chain) (hchain : ⟨.parent name methods, frame⟩ :: outer <:+ chain) :
    ∃ parent, ExecutesClass runs name methods parent frame outer := by
  induction h with
  | top => simp at hchain
  | inside _ _ _ ih | function _ ih | cls _ _ ih => exact ih hchain
  | block _ _ ih =>
    rcases List.suffix_cons_iff.mp hchain with heq | hinner
    · cases heq
    · exact ih hinner
  | body _ _ _ _ _ ih | method _ _ _ _ _ _ ih =>
    rcases List.suffix_cons_iff.mp hchain with heq | hinner
    · cases heq
    · exact ih hinner
  | subclass ha hname hparent ih =>
    rcases List.suffix_cons_iff.mp hchain with heq | hinner
    · cases heq
      exact ⟨_, _, _, _, _, _, ha, hname, hparent, rfl⟩
    · exact ih hinner

/-! ## Scopes are the frames of activations -/

/-- What is run in a scope, or is run in it when it is called. -/
def Occurrence.HasScope (scope : Scope) : Occurrence → Prop
  | .activity a => a.machine.scope = scope
  | .made (.function _ closure) | .made (.method _ closure) => closure.scope = scope
  | .made (.layer layer) => ∀ closure, layer.Declares closure → closure.scope = scope

/-- The methods of a class statement close over the scope of the statement. -/
lemma Machine.eq_of_declares_newLayer {m : Machine} {name : Token} {superclass : Option Class}
    {methods : List FunDecl} {closure : Closure}
    (h : (m.newLayer name superclass methods).Declares closure) :
    closure.decl ∈ methods ∧ closure.scope = m.methodScope superclass := by
  obtain ⟨label, hclosure⟩ := h
  rcases Bindings.mem_of_find?_insertAll hclosure with hentry | hnone
  · obtain ⟨d, hd, heq⟩ := List.mem_map.mp hentry
    cases heq
    exact ⟨hd, rfl⟩
  · cases hnone

namespace Enclosed

variable {runs : List ProgramRun} {x : Occurrence} {chain : List Activation}

/-- **The scope of the machine consists of the frames of the activations**, with the globals
outermost. -/
lemma hasScope (h : Enclosed runs x chain) (hruns : ∀ r ∈ runs, r.machine.scope = globalScope) :
    x.HasScope (chain.map Activation.frame ++ globalScope) := by
  induction h with
  | @top r before s rest m hr _ hbefore =>
    exact ((restores_runProgram r.fuel before).of_run hbefore).scope.trans (hruns r hr)
  | inside _ hb hopens ih => exact (hb.machine.1 hopens).trans ih
  | @block n body frame m m₁ chain _ hframe ih =>
    have hscope : m₁.scope = m.scope := ((Effect.Restores.onStore _).of_run hframe).scope
    exact congrArg (frame :: ·) (hscope.trans ih)
  | @body n stamp closure arguments paren frame m m₁ x around chain _ hx _ _ _ ih =>
    have hclosure : closure.scope = chain.map Activation.frame ++ globalScope := by
      rcases hx with rfl | rfl <;> exact ih
    exact congrArg (frame :: ·) hclosure
  | function _ ih => exact ih
  | @method a c name id layer closure m around chain _ _ _ hclosure _ _ ih =>
    exact congrArg (m.store.frames.size :: ·) (ih closure ⟨name, hclosure⟩)
  | @cls n name methods m m₁ chain _ hname ih =>
    have hscope : m₁.scope = m.scope := ((Effect.Restores.define _ _).of_run hname).scope
    intro closure hdeclares
    exact (Machine.eq_of_declares_newLayer hdeclares).2.trans (hscope.trans ih)
  | @subclass n name e methods parent m m₁ m₂ chain _ hname hparent ih =>
    have hscope : m₂.scope = m.scope :=
      (((Effect.Restores.define _ _).of_run hname).trans
        (((restoresAt n).evaluate e).of_run hparent)).scope
    intro closure hdeclares
    rw [(Machine.eq_of_declares_newLayer hdeclares).2]
    exact congrArg (m₂.store.frames.size :: ·) (hscope.trans ih)

end Enclosed

/-! ## Their regions are those of the text -/

/-- A declaration changes which names there are, and not the regions. -/
lemma LexicalContext.map_region_declare (Γ : LexicalContext) (name : Token) :
    (Γ.declare name).map LexicalScope.region = Γ.map LexicalScope.region := by
  cases Γ <;> rfl

lemma Stmt.map_region_after (Γ : LexicalContext) (s : Stmt) :
    (s.after Γ).map LexicalScope.region = Γ.map LexicalScope.region := by
  cases Γ with
  | nil => rw [s.after_nil]
  | cons σ outer =>
    obtain ⟨names, hs⟩ := s.exists_after σ outer
    rw [hs]
    rfl

/-- **The text of a task sits in some scopes**: the references in it have sites of `S` there.  A
call is about values and has no text of its own. -/
def Task.SitsIn (S : Site → Prop) (Γ : LexicalContext) (pending : Option String) : Task → Prop
  | .evaluate e => ∀ s ∈ e.sites Γ pending, S s
  | .evaluateAll es => ∀ s ∈ Expr.sitesAll Γ pending es, S s
  | .invoke _ _ _ | .call _ _ _ => True
  | .execute stmt => ∀ s ∈ stmt.sites Γ, S s
  | .executeAll body => ∀ s ∈ Stmt.sitesAll Γ body, S s
  | .repeatWhile condition body =>
    (∀ s ∈ condition.sites Γ none, S s) ∧ ∀ s ∈ body.sites Γ, S s

/-- The text of what occurs sits in scopes of given regions. -/
def Occurrence.SitsIn (S : Site → Prop) (regions : List Region) : Occurrence → Prop
  | .activity a => ∃ Γ pending, Γ.map LexicalScope.region = regions ∧ a.task.SitsIn S Γ pending
  | .made (.function _ closure) | .made (.method _ closure) =>
    ∃ Γ : LexicalContext, Γ.map LexicalScope.region = regions ∧ ∀ s ∈ closure.decl.sites Γ, S s
  | .made (.layer layer) => ∃ Γ : LexicalContext, Γ.map LexicalScope.region = regions ∧
    ∀ closure, layer.Declares closure →
      ∀ s ∈ closure.decl.sites (closure.decl.receiverScope :: Γ), S s

section Text

variable {S : Site → Prop} {Γ : LexicalContext} {pending : Option String} {a b : Activity}
  {link : Link}

/-- **What is part of an activity sits in the same regions.** -/
lemma Activity.Starts.sitsIn (h : a.Starts link b) (hopens : a.task.opens = false)
    (ha : a.task.SitsIn S Γ pending) :
    (Occurrence.activity b).SitsIn S (Γ.map LexicalScope.region) := by
  have hsame : ∀ pending, b.task.SitsIn S Γ pending →
      (Occurrence.activity b).SitsIn S (Γ.map LexicalScope.region) := fun _ h => ⟨Γ, _, rfl, h⟩
  cases h with
  | grouping | unary | get => exact hsame _ ha
  | expression | print | returnValue => exact hsame none ha
  | binaryLeft | logicalLeft | assign | callee | first =>
    exact hsame _ (List.forall_mem_append.mp ha).1
  | setValue => exact hsame _ (List.forall_mem_append.mp ha).1
  | binaryRight | logicalRight | arguments | others | setObject =>
    exact hsame _ (List.forall_mem_append.mp ha).2
  | invoke | enter | construct => exact hsame none trivial
  | var => exact ⟨_, _, Γ.map_region_declare _, ha⟩
  | superclass =>
    exact ⟨_, none, Γ.map_region_declare _, (List.forall_mem_append.mp ha).1⟩
  | @condition n condition thenBranch elseBranch m =>
    refine hsame none ?_
    cases elseBranch with
    | none => exact (List.forall_mem_append.mp ha).1
    | some s => exact (List.forall_mem_append.mp (List.forall_mem_append.mp ha).1).1
  | @thenBranch n condition thenBranch elseBranch value m m₁ =>
    refine hsame none ?_
    cases elseBranch with
    | none => exact (List.forall_mem_append.mp ha).2
    | some s => exact (List.forall_mem_append.mp (List.forall_mem_append.mp ha).1).2
  | elseBranch => exact hsame none (List.forall_mem_append.mp ha).2
  | whileLoop => exact hsame none (List.forall_mem_append.mp ha)
  | head => exact hsame none (List.forall_mem_append.mp ha).1
  | tail => exact ⟨_, none, Stmt.map_region_after Γ _, (List.forall_mem_append.mp ha).2⟩
  | whileCondition => exact hsame none ha.1
  | round => exact hsame none ha.2
  | again => exact hsame none ha
  | body | block => cases hopens

/-- **The regions of the activations are those of the text around**, for programs whose references
have their sites in `S`. -/
lemma Enclosed.sitsIn {runs : List ProgramRun} {x : Occurrence} {chain : List Activation}
    (h : Enclosed runs x chain) (hruns : ∀ r ∈ runs, ∀ s ∈ programSites r.program, S s) :
    x.SitsIn S (chain.map Activation.region) := by
  induction h with
  | @top r before stmt rest m hr hprogram _ =>
    have hsites := hruns r hr
    rw [hprogram, programSites_append, programSites_cons] at hsites
    have hstmt := (List.forall_mem_append.mp (List.forall_mem_append.mp hsites).2).1
    exact ⟨[], none, rfl, hstmt⟩
  | inside _ hb hopens ih =>
    obtain ⟨Γ, pending, hregions, htask⟩ := ih
    rw [← hregions]
    exact hb.sitsIn hopens htask
  | @block n body frame m m₁ chain _ _ ih =>
    obtain ⟨Γ, pending, hregions, htask⟩ := ih
    exact ⟨⟨.block body, []⟩ :: Γ, none, congrArg (Region.block body :: ·) hregions, htask⟩
  | @body n stamp closure arguments paren frame m m₁ x around chain _ hx _ _ _ ih =>
    obtain ⟨Γ, hregions, hdecl⟩ : ∃ Γ : LexicalContext,
        Γ.map LexicalScope.region = chain.map Activation.region ∧
          ∀ s ∈ closure.decl.sites Γ, S s := by
      rcases hx with rfl | rfl <;> exact ih
    rw [FunDecl.sites_eq] at hdecl
    exact ⟨closure.decl.scope :: Γ, none, congrArg (Region.call closure.decl :: ·) hregions, hdecl⟩
  | @function n decl m chain _ ih =>
    obtain ⟨Γ, pending, hregions, htask⟩ := ih
    exact ⟨Γ.declare decl.name, (Γ.map_region_declare _).trans hregions, htask⟩
  | @method a c name id layer closure m around chain _ _ _ hclosure _ _ ih =>
    obtain ⟨Γ, hregions, hmethods⟩ := ih
    exact ⟨closure.decl.receiverScope :: Γ, congrArg (Region.receiver closure.decl :: ·) hregions,
      hmethods closure ⟨name, hclosure⟩⟩
  | @cls n name methods m m₁ chain _ _ ih =>
    obtain ⟨Γ, pending, hregions, htask⟩ := ih
    refine ⟨Γ.declare name, (Γ.map_region_declare _).trans hregions, fun closure hdeclares => ?_⟩
    have hmethod := (Machine.eq_of_declares_newLayer hdeclares).1
    exact fun s hs => htask s (FunDecl.mem_methodSites hmethod hs)
  | @subclass n name e methods parent m m₁ m₂ chain _ _ _ ih =>
    obtain ⟨Γ, pending, hregions, htask⟩ := ih
    refine ⟨⟨.parent name methods, ["super"]⟩ :: Γ.declare name,
      congrArg (Region.parent name methods :: ·) ((Γ.map_region_declare _).trans hregions),
      fun closure hdeclares => ?_⟩
    have hmethod := (Machine.eq_of_declares_newLayer hdeclares).1
    have hsites := (List.forall_mem_append.mp htask).2
    exact fun s hs => hsites s (FunDecl.mem_methodSites hmethod hs)

end Text

/-! ## Everything that goes on has its activations -/

/-- The stamp with which something was made. -/
def Made.stamp : Made → Stamp
  | .function stamp _ | .method stamp _ => stamp
  | .layer own => own.stamp

namespace Activity

variable {F : Made → Prop} {N : Nesting} {a : Activity} {c : Class} {name : String}
  {id : InstanceId} {m : Machine} {x : Made}

/-- The class that a bound method was looked up in is well formed. -/
lemma Binds.wellFormed (h : a.Binds c name id m) (ha : a.WellFormed F N) :
    ∃ N₁, a.machine.store.Grows N N₁ m.store ∧ c.WellFormed F N₁ m.store := by
  obtain ⟨hm, htask, hF⟩ := ha
  cases h with
  | @property n object _ _ _ _ _ hobject _ hi =>
    have htidy : object.Tidy := htask
    obtain ⟨N₁, hgrows, h₁, -⟩ :=
      ((upholdsAt F n).evaluate object htidy hm (hF.starts .get)).of_run hm hobject
    exact ⟨N₁, hgrows, h₁.store.classes _ _ hi⟩
  | super hdistance hparent hthis =>
    obtain ⟨frame, hframe⟩ := Effect.exists_of_readAt hparent
    exact ⟨N, .refl N _, hm.store.bindings frame "super" _ hframe⟩
  | construct hid =>
    have hc : c.WellFormed F N _ := htask.1
    obtain ⟨N₁, hgrows, -⟩ := (Upholds.addInstance hm hc).of_run hm hid
    exact ⟨N₁, hgrows, hc.mono hgrows⟩

/-- **What an activity makes is younger than what was there when it was begun.** -/
lemma Makes.le_stamp (h : a.Makes x) (ha : a.WellFormed F N) :
    a.machine.store.nextStamp ≤ x.stamp := by
  cases h with
  | function => exact Nat.le_refl _
  | method hbinds =>
    obtain ⟨N₁, hgrows, -⟩ := hbinds.wellFormed ha
    exact hgrows.stamps
  | cls hname =>
    obtain ⟨hm, ⟨-, hbindable, -⟩, -⟩ := ha
    obtain ⟨N₁, hgrows, -⟩ := (Upholds.defineNil hm hbindable).of_run hm hname
    exact hgrows.stamps
  | subclass hname hparent =>
    obtain ⟨hm, ⟨-, hbindable, hsuperclass, -⟩, hF⟩ := ha
    obtain ⟨ref, token, rfl⟩ := hsuperclass _ rfl
    obtain ⟨N₁, hgrows₁, h₁, -⟩ := (Upholds.defineNil hm hbindable).of_run hm hname
    obtain ⟨N₂, hgrows₂, -⟩ := ((upholdsAt F _).evaluate (.variable ref token) trivial h₁
      (hF.starts (.superclass hname))).of_run h₁ hparent
    exact (hgrows₁.trans hgrows₂).stamps

end Activity

/-- A look-up takes the method from the first layer that has one. -/
lemma Class.exists_layer {c : Class} {name : String} {method : Method}
    (h : c.lookup? name = some method) : ∃ layer ∈ c.layers,
      c.layers.find? (fun l => (l.methods.find? name).isSome) = some layer ∧
      layer.methods.find? name = some method := by
  rw [lookup?, List.findSome?_eq_some_iff] at h
  obtain ⟨before, layer, after, hlayers, hfound, hbefore⟩ := h
  refine ⟨layer, by simp [hlayers], ?_, hfound⟩
  rw [List.find?_eq_some_iff_append]
  exact ⟨by simp [hfound], before, after, hlayers, fun l hl => by simp [hbefore l hl]⟩

section Existence

variable {runs : List ProgramRun}

/-- Everything that went on before there were `n` stamps has its activations. -/
def EnclosedBelow (runs : List ProgramRun) (n : Stamp) : Prop :=
  ∀ r ∈ runs, ∀ {links a}, r.Underway links a → a.machine.store.nextStamp < n →
    ∃ chain, Enclosed runs (.activity a) chain

/-- **What was made by activities that have their activations** has them, too. -/
lemma IsMadeIn.exists_enclosed {x : Made} {n : Stamp} (h : IsMadeIn runs x)
    (hwell : ∀ r ∈ runs, ∀ {links a}, r.Underway links a → ∃ N, a.WellFormed (IsMadeIn runs) N)
    (hbelow : EnclosedBelow runs n) (hlt : x.stamp < n) :
    ∃ chain, Enclosed runs (.made x) chain := by
  -- A method goes back to a class, which was made before it was bound.
  induction hstamp : x.stamp using Nat.strongRecOn generalizing x with
  | ind stamp ih =>
    subst hstamp
    obtain ⟨r, hr, links, a, ha, hmakes⟩ := h
    obtain ⟨N, hwf⟩ := hwell r hr ha
    obtain ⟨chain, hchain⟩ := hbelow r hr ha ((hmakes.le_stamp hwf).trans_lt hlt)
    cases hmakes with
    | function => exact ⟨chain, .function hchain⟩
    | cls hname => exact ⟨chain, .cls hchain hname⟩
    | subclass hname hparent => exact ⟨_, .subclass hchain hname hparent⟩
    | method hbinds hclosure =>
      obtain ⟨N₁, -, hc⟩ := hbinds.wellFormed hwf
      obtain ⟨layer, hlayer, hfirst, hmethod⟩ := Class.exists_layer hclosure
      obtain ⟨-, hmade⟩ := hc.methods layer hlayer _ ⟨_, hmethod⟩
      have holder : layer.stamp < _ := hc.stamp_lt layer hlayer
      obtain ⟨outer, houter⟩ := ih layer.stamp holder hmade (holder.trans hlt) rfl
      exact ⟨_, .method hchain hbinds hfirst hmethod houter⟩

/-- **What an activity with activations starts has activations**, if this is so of the function that
it calls. -/
lemma Enclosed.exists_starts {a b : Activity} {link : Link} {chain : List Activation}
    (h : Enclosed runs (.activity a) chain) (hb : a.Starts link b)
    (hcallee : ∀ stamp closure arguments paren,
      a.task = .call (.function stamp closure) arguments paren →
      ∃ x inner, (x = .function stamp closure ∨ x = .method stamp closure) ∧
        Enclosed runs (.made x) inner) :
    ∃ chain, Enclosed runs (.activity b) chain := by
  cases hopens : a.task.opens with
  | false => exact ⟨chain, .inside h hb hopens⟩
  | true =>
    cases hb with
    | block hframe => exact ⟨_, .block h hframe⟩
    | body hframe =>
      obtain ⟨x, inner, hx, hmade⟩ := hcallee _ _ _ _ rfl
      exact ⟨_, .body h hx hmade hframe⟩
    | _ => cases hopens

/-- The induction is on how many stamps there are. -/
lemma enclosedBelow
    (hwell : ∀ r ∈ runs, ∀ {links a}, r.Underway links a → ∃ N, a.WellFormed (IsMadeIn runs) N)
    (n : Stamp) : EnclosedBelow runs n := by
  induction n with
  | zero => exact fun _ _ _ _ _ hlt => absurd hlt (Nat.not_lt_zero _)
  | succ n ih =>
    intro r hr links a ha
    refine Underway.induct (P := fun _ a => a.machine.store.nextStamp < n + 1 →
      ∃ chain, Enclosed runs (.activity a) chain) ?_ ?_ ha
    · exact fun hprogram hbefore _ => ⟨[], .top hr hprogram hbefore⟩
    · intro links link a b ha iha hstart hlt
      obtain ⟨N, hwf⟩ := hwell r hr ha
      obtain ⟨N₁, hgrows, -⟩ := hstart.wellFormed hwf
      have hlt : a.machine.store.nextStamp < n + 1 := hgrows.stamps.trans_lt hlt
      obtain ⟨chain, hchain⟩ := iha hlt
      refine hchain.exists_starts hstart fun stamp closure arguments paren htask => ?_
      have hwell' := hwf.task
      rw [htask] at hwell'
      have hfunction : closure.IsFunction (IsMadeIn runs) N a.machine.store stamp := hwell'.1
      have holder : stamp < n := hfunction.issued.trans_le (Nat.le_of_lt_succ hlt)
      rcases hfunction.made with ⟨hmade, -⟩ | ⟨hmade, -⟩
      · obtain ⟨inner, hinner⟩ := hmade.exists_enclosed hwell ih holder
        exact ⟨_, inner, .inl rfl, hinner⟩
      · obtain ⟨inner, hinner⟩ := hmade.exists_enclosed hwell ih holder
        exact ⟨_, inner, .inr rfl, hinner⟩

/-- **Everything that goes on in a run has its activations**, whatever was run before. -/
lemma Machine.Reached.enclosed {m : Machine} (hm : m.Reached runs) {r : ProgramRun} (hr : r ∈ runs)
    {links : List Link} {a : Activity} (ha : r.Underway links a) :
    ∃ chain, Enclosed runs (.activity a) chain :=
  enclosedBelow (hm.underway fun _ => id) _ r hr ha (Nat.lt_succ_self _)

end Existence

end LoxLang
