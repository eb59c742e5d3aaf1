import LoxLang.Proofs.Scope.Places
import LoxLang.Proofs.Scope.Resolution

/-!
# The analysis reports the violations

The walk over a program keeps a stack of scopes and hands down what surrounds a place.  Both can be
read off the ancestors of the place it is at: the stack reflects the scopes among them, and the
surroundings are the innermost function, the innermost class, and whether a loop comes before the
function (`Situated`, `Location.surroundings`).  So at every place the walk complains exactly when
the place is in violation, and the complaints of a walk are the violations of the places that it
passes, in order (`Surveyed`).

Nothing is assumed about earlier complaints.  A name that is declared twice is still in its scope,
and a walk that has complained goes on as if it had not.
-/

namespace LoxLang

/-! ## Locations -/

namespace Ancestor

variable (outer : List Ancestor) (name : Token)

lemma filterMap_declare : (declare outer name).filterMap scope? =
    LexicalContext.declare (outer.filterMap scope?) name := by
  induction outer with
  | nil => rfl
  | cons x outer ih =>
    cases x with
    | scope σ => rfl
    | _ => exact ih

/-- Only scopes change when a name is declared. -/
lemma findSome?_declare {α : Type} {f : Ancestor → Option α} (hf : ∀ σ, f (.scope σ) = none) :
    (declare outer name).findSome? f = outer.findSome? f := by
  induction outer with
  | nil => rfl
  | cons x outer ih =>
    cases x with
    | scope σ => simp [declare, hf]
    | _ => simp only [declare, List.findSome?_cons, ih]

lemma any_takeWhile_declare :
    ((declare outer name).takeWhile (·.function?.isNone)).any isLoopBody =
      (outer.takeWhile (·.function?.isNone)).any isLoopBody := by
  induction outer with
  | nil => rfl
  | cons x outer ih =>
    cases x with
    | scope σ => rfl
    | function decl isMethod => rfl
    | _ => exact congrArg (Bool.or _) ih

end Ancestor

/-- What the walk hands down to the body of a function or method. -/
def FunDecl.context (d : FunDecl) : Bool → FunctionContext
  | false => .function
  | true => if d.isInitializer then .initializer else .method

namespace Location

/-- What the walk hands down to a place. -/
def surroundings (l : Location) : Surroundings where
  function :=
    match l.function? with
    | none => .none
    | some (decl, isMethod) => decl.context isMethod
  cls :=
    match l.hasSuperclass? with
    | none => .none
    | some false => .base
    | some true => .derived
  inLoop := l.inLoop

/-- The variable that is pending in the innermost scope. -/
def pending (l : Location) : Option String := l.own?.map (·.1.lexeme)

variable (l : Location) (name : Token)

@[simp] lemma scopes_declare : (l.declare name).scopes = l.scopes.declare name :=
  Ancestor.filterMap_declare l.ancestors name

@[simp] lemma surroundings_declare : (l.declare name).surroundings = l.surroundings := by
  have hfunction := Ancestor.findSome?_declare l.ancestors name
    (f := Ancestor.function?) fun _ => rfl
  have hmethods := Ancestor.findSome?_declare l.ancestors name (f := Ancestor.methods?) fun _ => rfl
  simp only [surroundings, declare, function?, hasSuperclass?, inLoop, hfunction, hmethods,
    Ancestor.any_takeWhile_declare]

@[simp] lemma scopes_define : (l.define name).scopes = l.scopes := by
  unfold define
  split <;> rfl

@[simp] lemma surroundings_define : (l.define name).surroundings = l.surroundings := by
  unfold define
  split <;> rfl

/-- In the initializer of a variable that variable is pending, if it is local. -/
lemma pending_enter : (l.enter (.initializer name)).pending =
    if l.scopes = [] then none else some name.lexeme := by
  rw [pending, own?, enter]
  simp only
  split
  · next hscopes => simp [scopes, hscopes]
  · next hscopes => simp [scopes, hscopes]

/-- The innermost ancestor stays what it was. -/
@[simp] lemma pending_declare : (l.declare name).pending = l.pending := by
  rcases l with ⟨_ | ⟨_ | _ | _ | _ | x, outer⟩, topLevel⟩
  case cons.initializer =>
    have hinside := pending_enter (declare ⟨outer, topLevel⟩ name) x
    have hbefore := pending_enter ⟨outer, topLevel⟩ x
    rw [scopes_declare] at hinside
    refine hinside.trans (Eq.trans ?_ hbefore.symm)
    cases scopes ⟨outer, topLevel⟩ <;> rfl
  all_goals rfl

@[simp] lemma pending_define : (l.define name).pending = l.pending := by
  unfold define
  split <;> rfl

/-- Inside its initializer a local variable is pending. -/
@[simp] lemma pending_enter_initializer :
    ((l.declare name).enter (.initializer name)).pending = l.scopes.pending name := by
  rw [pending_enter, scopes_declare]
  cases l.scopes <;> rfl

lemma surroundings_enter_scope (σ : LexicalScope) :
    (l.enter (.scope σ)).surroundings = l.surroundings := rfl

lemma surroundings_enter_methods (hasSuperclass : Bool) :
    (l.enter (.methods hasSuperclass)).surroundings =
      { l.surroundings with cls := if hasSuperclass then .derived else .base } := by
  cases hasSuperclass <;> rfl

@[simp] lemma scopes_introduce : (l.introduce name).scopes = l.scopes.declare name := by
  simp [introduce]

@[simp] lemma surroundings_introduce : (l.introduce name).surroundings = l.surroundings := by
  simp [introduce]

@[simp] lemma pending_introduce : (l.introduce name).pending = l.pending := by simp [introduce]

end Location

/-! ## Violations at single places -/

/-- **The walk is at a location**: its stack reflects the scopes there, and it knows the names that
were defined at top level. -/
structure Situated (l : Location) (a : Analysis) : Prop where
  reflects : Reflects a.scopes l.scopes l.pending
  topLevel : a.topLevel = l.topLevel

section Single

variable {isGlobal : String → Bool} {l : Location} {a : Analysis}

/-- The violations of places, in order. -/
abbrev violations (isGlobal : String → Bool) (places : List ProgramPlace) :
    List ResolutionError :=
  places.filterMap (ProgramPlace.violation? isGlobal)

lemma violations_singleton (p : ProgramPlace) :
    violations isGlobal [p] = (p.violation? isGlobal).toList := by
  rw [violations, List.filterMap_cons, List.filterMap_nil]
  cases p.violation? isGlobal <;> rfl

lemma Situated.errors_declare (h : Situated l a) (name : Token) :
    (a.declare name).errors = a.errors ++ violations isGlobal [⟨.declaration name, l⟩] := by
  rw [h.reflects.errors_declare, violations_singleton, ProgramPlace.violation?]
  by_cases hagain : l.scopes.declaresHere name.lexeme = true <;> simp [hagain]

/-- The scopes that enclose the own scope of a pending variable are all but the innermost. -/
lemma Location.tail_scopes {name : Token} {enclosing : LexicalContext}
    (h : l.own? = some (name, enclosing)) : l.scopes.tail = enclosing := by
  rcases l with ⟨_ | ⟨_ | _ | _ | _ | x, outer⟩, topLevel⟩ <;> simp only [own?, reduceCtorEq] at h
  split at h
  · next σ enclosing' hscopes =>
    have hscopes' : Location.scopes ⟨.initializer x :: outer, topLevel⟩ = σ :: enclosing' := hscopes
    rw [hscopes', List.tail_cons]
    cases h
    rfl
  · cases h

/-- A read is in violation if it is a read of a variable in its own initializer, and nothing else of
that name is in reach. -/
lemma violation?_read (ref : RefId) (name : Token) :
    ProgramPlace.violation? isGlobal ⟨.reference ⟨.read, ref, name⟩, l⟩ =
      if Site.isOwnRead ⟨⟨.read, ref, name⟩, l.scopes, l.pending⟩ = true ∧
          Site.visible? ⟨⟨.read, ref, name⟩, l.scopes, l.pending⟩ = none ∧
          ¬(name.lexeme ∈ l.topLevel ∨ isGlobal name.lexeme = true) then
        some ⟨name, .ownInitializer⟩
      else none := by
  cases hown : l.own? with
  | none =>
    simp [ProgramPlace.violation?, Reference.violation?, Site.isOwnRead, Location.pending, hown]
  | some own =>
    obtain ⟨x, enclosing⟩ := own
    have htail := l.tail_scopes hown
    have hread : Site.isOwnRead ⟨⟨.read, ref, name⟩, l.scopes, l.pending⟩ = true ↔
        x.lexeme = name.lexeme := by
      simp [Site.isOwnRead, Site.name, Location.pending, hown]
    by_cases hname : x.lexeme = name.lexeme
    · have hvisible : Site.visible? ⟨⟨.read, ref, name⟩, l.scopes, l.pending⟩ = none ↔
          ∀ σ ∈ enclosing, σ.declares name.lexeme = false := by
        simp [Site.visible?, hread.mpr hname, Site.name, htail]
      simp only [ProgramPlace.violation?, Reference.violation?, hown, hname, true_and, hread,
        hvisible, not_or, Bool.not_eq_true]
      split <;> rfl
    · simp [ProgramPlace.violation?, Reference.violation?, hown, hname, hread]

lemma Situated.errors_read (h : Situated l a) (ref : RefId) (name : Token) :
    (a.read isGlobal ref name).errors =
      a.errors ++ violations isGlobal [⟨.reference ⟨.read, ref, name⟩, l⟩] := by
  rw [h.reflects.errors_read, violations_singleton, h.topLevel, violation?_read]
  split <;> simp

end Single

/-! ## Walks -/

/-- **A walk that passes places** and ends at a location, when there were complaints before. -/
structure Surveyed (isGlobal : String → Bool) (before : List ResolutionError) (a : Analysis)
    (l : Location) (places : List ProgramPlace) : Prop where
  situated : Situated l a
  errors : a.errors = before ++ violations isGlobal places

namespace Surveyed

variable {isGlobal : String → Bool} {before : List ResolutionError} {a a' : Analysis}
  {l l' : Location} {places places' : List ProgramPlace}

lemma refl (h : Situated l a) : Surveyed isGlobal a.errors a l [] := ⟨h, (List.append_nil _).symm⟩

lemma trans (h : Surveyed isGlobal before a l places)
    (h' : Surveyed isGlobal a.errors a' l' places') :
    Surveyed isGlobal before a' l' (places ++ places') := by
  refine ⟨h'.situated, ?_⟩
  rw [h'.errors, h.errors, List.append_assoc]
  exact congrArg _ List.filterMap_append.symm

end Surveyed

section Steps

variable (isGlobal : String → Bool) {l : Location} {a : Analysis}

lemma surveyed_read (h : Situated l a) (ref : RefId) (name : Token) :
    Surveyed isGlobal a.errors (a.read isGlobal ref name) l [⟨.reference ⟨.read, ref, name⟩, l⟩] :=
  ⟨⟨by simpa using h.reflects, by simpa using h.topLevel⟩, h.errors_read ref name⟩

lemma Situated.bind (h : Situated l a) (ref : RefId) (name : String) :
    Situated l (a.bind ref name) :=
  ⟨by simpa using h.reflects, by simpa using h.topLevel⟩

lemma Situated.complain (h : Situated l a) (token : Token) (cause : ResolutionCause) :
    Situated l (a.complain token cause) := ⟨h.reflects, h.topLevel⟩

/-- One place, where the walk complains as it should. -/
lemma surveyed_one {a' : Analysis} {p : ProgramPlace} (h : Situated l a')
    (herrors : a'.errors = a.errors ++ (p.violation? isGlobal).toList) :
    Surveyed isGlobal a.errors a' l [p] := ⟨h, by rw [violations_singleton, herrors]⟩

lemma surveyed_assign (h : Situated l a) (ref : RefId) (name : Token) :
    Surveyed isGlobal a.errors (a.bind ref name.lexeme) l
      [⟨.reference ⟨.assign, ref, name⟩, l⟩] := by
  refine surveyed_one isGlobal (h.bind ref name.lexeme) ?_
  simp [ProgramPlace.violation?, Reference.violation?]

lemma surveyed_this (h : Situated l a) {at_ : Surroundings} (hcls : at_.cls = l.surroundings.cls)
    (ref : RefId) (keyword : Token) :
    Surveyed isGlobal a.errors (Expr.analyse isGlobal at_ (.this ref keyword) a) l
      [⟨.reference ⟨.this, ref, keyword⟩, l⟩] := by
  rw [Expr.analyse, hcls]
  cases hsuper : l.hasSuperclass? with
  | none =>
    rw [if_pos (by simp [Location.surroundings, hsuper])]
    refine surveyed_one isGlobal (h.complain keyword _) ?_
    simp [ProgramPlace.violation?, Reference.violation?, hsuper, Analysis.complain]
  | some b =>
    rw [if_neg (by cases b <;> simp [Location.surroundings, hsuper])]
    refine surveyed_one isGlobal (h.bind ref keyword.lexeme) ?_
    simp [ProgramPlace.violation?, Reference.violation?, hsuper]

lemma surveyed_super (h : Situated l a) {at_ : Surroundings} (hcls : at_.cls = l.surroundings.cls)
    (ref : RefId) (keyword method : Token) :
    Surveyed isGlobal a.errors (Expr.analyse isGlobal at_ (.super ref keyword method) a) l
      [⟨.reference ⟨.super, ref, keyword⟩, l⟩] := by
  have hchecked : Situated l (a.checkSuper at_.cls keyword) := by
    cases at_.cls
    · exact h.complain keyword _
    · exact h.complain keyword _
    · exact h
  refine surveyed_one isGlobal (hchecked.bind ref keyword.lexeme) ?_
  rw [Expr.analyse, Analysis.errors_bind, hcls]
  cases hsuper : l.hasSuperclass? with
  | none =>
    simp [ProgramPlace.violation?, Reference.violation?, hsuper, Location.surroundings,
      Analysis.checkSuper, Analysis.complain]
  | some b =>
    cases b <;> simp [ProgramPlace.violation?, Reference.violation?, hsuper, Location.surroundings,
      Analysis.checkSuper, Analysis.complain]

end Steps

section Expressions

variable (isGlobal : String → Bool) {l : Location} {at_ : Surroundings}

mutual

/-- **The walk over an expression** complains about the violations in it. -/
lemma Expr.surveyed (hcls : at_.cls = l.surroundings.cls) : (e : Expr) → {a : Analysis} →
    Situated l a → Surveyed isGlobal a.errors (e.analyse isGlobal at_ a) l (e.places l)
  | .literal _, _, h => .refl h
  | .grouping inner, _, h => inner.surveyed hcls h
  | .unary _ right, _, h => right.surveyed hcls h
  | .binary left _ right, _, h | .logical left _ right, _, h =>
    (left.surveyed hcls h).trans (right.surveyed hcls (left.surveyed hcls h).situated)
  | .variable ref name, _, h => surveyed_read isGlobal h ref name
  | .assign ref name value, _, h =>
    (value.surveyed hcls h).trans
      (surveyed_assign isGlobal (value.surveyed hcls h).situated ref name)
  | .call callee _ arguments, _, h =>
    (callee.surveyed hcls h).trans
      (Expr.surveyedAll hcls arguments (callee.surveyed hcls h).situated)
  | .get object _, _, h => object.surveyed hcls h
  | .set object _ value, _, h =>
    (value.surveyed hcls h).trans (object.surveyed hcls (value.surveyed hcls h).situated)
  | .this ref keyword, _, h => surveyed_this isGlobal h hcls ref keyword
  | .super ref keyword method, _, h => surveyed_super isGlobal h hcls ref keyword method

lemma Expr.surveyedAll (hcls : at_.cls = l.surroundings.cls) : (es : List Expr) →
    {a : Analysis} → Situated l a →
    Surveyed isGlobal a.errors (Expr.analyseAll isGlobal at_ es a) l (Expr.placesAll l es)
  | [], _, h => .refl h
  | e :: rest, _, h =>
    (e.surveyed hcls h).trans (Expr.surveyedAll hcls rest (e.surveyed hcls h).situated)

end

end Expressions

/-! ## Scopes that are entered and left -/

section Scopes

variable {isGlobal : String → Bool} {before : List ResolutionError} {l l' : Location} {a : Analysis}
  {places : List ProgramPlace}

/-- The stack cannot tell regions apart. -/
lemma Situated.rename {σ τ : LexicalScope} (h : Situated (l.enter (.scope σ)) a)
    (hnames : ∀ name, name ∈ σ.names ↔ name ∈ τ.names) : Situated (l.enter (.scope τ)) a :=
  ⟨Reflects.rename h.reflects hnames, h.topLevel⟩

/-- The stack knows nothing but the scopes. -/
lemma Situated.move (h : Situated l a) (hscopes : l'.scopes = l.scopes)
    (hpending : l'.pending = l.pending) (htopLevel : l'.topLevel = l.topLevel) : Situated l' a :=
  ⟨hscopes ▸ hpending ▸ h.reflects, htopLevel ▸ h.topLevel⟩

lemma Surveyed.move (h : Surveyed isGlobal before a l places) (hscopes : l'.scopes = l.scopes)
    (hpending : l'.pending = l.pending) (htopLevel : l'.topLevel = l.topLevel) :
    Surveyed isGlobal before a l' places := ⟨h.situated.move hscopes hpending htopLevel, h.errors⟩

/-- A definition is at top level for the walk when it is for the location. -/
lemma topLevel_define {pending : Option String} (h : Reflects a.scopes l.scopes pending)
    (htopLevel : a.topLevel = l.topLevel) (name : Token) :
    (a.define name).topLevel = (l.define name).topLevel := by
  generalize hscopes : a.scopes = scopes at h
  generalize hΓ : l.scopes = Γ at h
  cases h with
  | nil => simp [Analysis.define, Location.define, hscopes, hΓ, htopLevel]
  | cons => simp [Analysis.define, Location.define, hscopes, hΓ, htopLevel]

lemma surveyed_declare (isGlobal : String → Bool) (h : Situated l a) (hl : l.pending = none)
    (name : Token) :
    Surveyed isGlobal a.errors (a.declare name) ((l.declare name).enter (.initializer name))
      [⟨.declaration name, l⟩] := by
  have hreflects := h.reflects
  rw [hl] at hreflects
  refine ⟨⟨?_, (a.topLevel_declare name).trans h.topLevel⟩, h.errors_declare name⟩
  rw [Location.pending_enter_initializer]
  exact (l.scopes_declare name).symm ▸ hreflects.declare name

lemma Surveyed.define {name : Token}
    (h : Surveyed isGlobal before a ((l.declare name).enter (.initializer name)) places)
    (hl : l.pending = none) :
    Surveyed isGlobal before (a.define name) (l.introduce name) places := by
  have hreflects := h.situated.reflects
  have hscopes : ((l.declare name).enter (.initializer name)).scopes = l.scopes.declare name :=
    l.scopes_declare name
  have htopLevel := topLevel_define (l := l.declare name) hreflects h.situated.topLevel name
  rw [Location.pending_enter_initializer, hscopes] at hreflects
  refine ⟨⟨?_, htopLevel⟩, (a.errors_define name).trans h.errors⟩
  rw [Location.scopes_introduce, Location.pending_introduce, hl]
  exact hreflects.define

lemma surveyed_introduce (isGlobal : String → Bool) (h : Situated l a) (hl : l.pending = none)
    (name : Token) :
    Surveyed isGlobal a.errors (a.introduce name) (l.introduce name) [⟨.declaration name, l⟩] :=
  (surveyed_declare isGlobal h hl name).define hl

lemma Situated.push (h : Situated l a) (hl : l.pending = none) (region : Region)
    (names : List String) : Situated (l.enter (.scope ⟨region, names⟩)) (a.push names) := by
  have hreflects := h.reflects
  rw [hl] at hreflects
  exact ⟨hreflects.push region names, h.topLevel⟩

lemma Surveyed.pop {σ : LexicalScope}
    (h : Surveyed isGlobal before a (l.enter (.scope σ)) places) (hl : l.pending = none) :
    Surveyed isGlobal before a.pop l places := by
  have hreflects : Reflects a.scopes (σ :: l.scopes) none := h.situated.reflects
  refine ⟨⟨?_, h.situated.topLevel⟩, h.errors⟩
  rw [hl]
  exact hreflects.pop

/-- Parameters are introduced one after another. -/
lemma surveyed_parameters (isGlobal : String → Bool) (h : Situated l a) (hl : l.pending = none)
    (params : List Token) :
    Surveyed isGlobal a.errors (params.foldl .introduce a) (params.foldl .introduce l)
      (parameterPlaces l params) := by
  induction params generalizing a l with
  | nil => exact .refl h
  | cons name rest ih =>
    have hfirst := surveyed_introduce isGlobal h hl name
    exact hfirst.trans (ih hfirst.situated (by rw [Location.pending_introduce, hl]))

/-- Behind statements. -/
def Stmt.behindAll (l : Location) : List Stmt → Location
  | [] => l
  | s :: rest => Stmt.behindAll (s.behind l) rest

/-- Names are introduced into the innermost scope. -/
lemma Location.exists_introduceAll (l : Location) (σ : LexicalScope) (params : List Token) :
    ∃ names, params.foldl .introduce (l.enter (.scope σ)) =
      l.enter (.scope { σ with names := names }) := by
  induction params generalizing σ with
  | nil => exact ⟨σ.names, rfl⟩
  | cons name rest ih => exact ih { σ with names := name.lexeme :: σ.names }

lemma Stmt.exists_behind (l : Location) (σ : LexicalScope) (s : Stmt) :
    ∃ names, s.behind (l.enter (.scope σ)) = l.enter (.scope { σ with names := names }) := by
  cases s <;> exact ⟨_, rfl⟩

lemma Stmt.exists_behindAll (l : Location) (σ : LexicalScope) (body : List Stmt) :
    ∃ names, Stmt.behindAll (l.enter (.scope σ)) body =
      l.enter (.scope { σ with names := names }) := by
  induction body generalizing σ with
  | nil => exact ⟨σ.names, rfl⟩
  | cons s rest ih =>
    obtain ⟨names, hs⟩ := s.exists_behind l σ
    rw [Stmt.behindAll, hs]
    exact ih _

lemma Stmt.behind_of_isDeclaration {s : Stmt} (h : s.isDeclaration = false) (l : Location) :
    s.behind l = l := by
  cases s <;> simp_all [Stmt.isDeclaration, Stmt.behind]

/-- A statement introduces one name, or none. -/
lemma Stmt.behind_cases (l : Location) (s : Stmt) :
    s.behind l = l ∨ ∃ name, s.behind l = l.introduce name := by
  cases s
  case var name _ | classDecl name _ _ => exact .inr ⟨name, rfl⟩
  case function decl => exact .inr ⟨decl.name, rfl⟩
  all_goals exact .inl rfl

lemma Stmt.pending_behind (l : Location) (s : Stmt) : (s.behind l).pending = l.pending := by
  obtain hsame | ⟨name, hname⟩ := s.behind_cases l
  · rw [hsame]
  · rw [hname, Location.pending_introduce]

lemma Stmt.surroundings_behind (l : Location) (s : Stmt) :
    (s.behind l).surroundings = l.surroundings := by
  obtain hsame | ⟨name, hname⟩ := s.behind_cases l
  · rw [hsame]
  · rw [hname, Location.surroundings_introduce]

end Scopes

/-! ## Statements -/

section Statements

variable {P : Token → Prop} (isGlobal : String → Bool)

lemma surveyed_break {l : Location} {a : Analysis} (h : Situated l a) (keyword : Token) :
    Surveyed isGlobal a.errors (Stmt.analyse isGlobal l.surroundings (.breakLoop keyword) a) l
      [⟨.breakLoop keyword, l⟩] := by
  have hloop : l.surroundings.inLoop = l.inLoop := rfl
  rw [Stmt.analyse, hloop]
  cases hin : l.inLoop with
  | false =>
    refine surveyed_one isGlobal (h.complain keyword _) ?_
    simp [ProgramPlace.violation?, hin, Analysis.complain]
  | true =>
    refine surveyed_one isGlobal h ?_
    simp [ProgramPlace.violation?, hin]

/-- What the walk does at a `return`, before the value. -/
lemma surveyed_return {l : Location} {a : Analysis} (h : Situated l a) (keyword : Token)
    (hasValue : Bool) :
    let a₁ := if l.surroundings.function = .none then a.complain keyword .returnAtTopLevel else a
    Surveyed isGlobal a.errors
      (if hasValue = true ∧ l.surroundings.function = .initializer then
        a₁.complain keyword .returnFromInitializer else a₁) l
      [⟨.returnValue keyword hasValue, l⟩] := by
  cases hfunction : l.function? with
  | none =>
    have hnone : l.surroundings.function = .none := by simp [Location.surroundings, hfunction]
    simp only [hnone, reduceCtorEq, and_false, if_true, if_false]
    refine surveyed_one isGlobal (h.complain keyword _) ?_
    simp [ProgramPlace.violation?, hfunction, Analysis.complain]
  | some f =>
    obtain ⟨decl, isMethod⟩ := f
    have hcontext : l.surroundings.function = decl.context isMethod := by
      simp [Location.surroundings, hfunction]
    have hsome : decl.context isMethod ≠ .none := by
      cases isMethod with
      | false => simp [FunDecl.context]
      | true => by_cases hinit : decl.isInitializer = true <;> simp [FunDecl.context, hinit]
    have hinitializer : decl.context isMethod = .initializer ↔
        isMethod = true ∧ decl.isInitializer = true := by
      cases isMethod <;> simp [FunDecl.context]
    simp only [hcontext, hsome, if_false, hinitializer]
    split
    · next hall =>
      refine surveyed_one isGlobal (h.complain keyword _) ?_
      simp [ProgramPlace.violation?, hfunction, Analysis.complain, hall]
    · next hall =>
      refine surveyed_one isGlobal h ?_
      simp_all [ProgramPlace.violation?]

mutual

/-- **The walk over a statement** complains about the violations in it. -/
lemma Stmt.surveyed : (s : Stmt) → s.Formed P → {l : Location} → l.pending = none →
    {a : Analysis} → Situated l a →
    Surveyed isGlobal a.errors (s.analyse isGlobal l.surroundings a) (s.behind l) (s.places l)
  | .expression e, _, _, _, _, h | .print e, _, _, _, _, h => e.surveyed isGlobal rfl h
  | .var name none, _, _, hl, _, h => surveyed_introduce isGlobal h hl name
  | .var name (some e), _, l, hl, _, h => by
    have hname := surveyed_declare isGlobal h hl name
    have hcls : l.surroundings.cls =
        ((l.declare name).enter (.initializer name)).surroundings.cls :=
      congrArg Surroundings.cls (l.surroundings_declare name).symm
    exact (hname.trans (e.surveyed isGlobal hcls hname.situated)).define hl
  | .block body, hformed, l, hl, _, h => by
    have hbody := Stmt.surveyedAll body hformed rfl (h.push hl (.block body) [])
    obtain ⟨names, hnames⟩ := Stmt.exists_behindAll l ⟨.block body, []⟩ body
    rw [hnames] at hbody
    exact hbody.pop hl
  | .ifThen condition thenBranch none, hformed, l, hl, _, h => by
    have hcondition := condition.surveyed isGlobal (rfl : l.surroundings.cls = _) h
    have hthen := thenBranch.surveyed hformed.2.1 hl hcondition.situated
    rw [Stmt.behind_of_isDeclaration hformed.2.2] at hthen
    exact hcondition.trans hthen
  | .ifThen condition thenBranch (some elseBranch), hformed, l, hl, _, h => by
    have hcondition := condition.surveyed isGlobal (rfl : l.surroundings.cls = _) h
    have hthen := thenBranch.surveyed hformed.2.1.1 hl hcondition.situated
    rw [Stmt.behind_of_isDeclaration hformed.2.1.2] at hthen
    have helse := elseBranch.surveyed hformed.2.2.1 hl hthen.situated
    rw [Stmt.behind_of_isDeclaration hformed.2.2.2] at helse
    exact (hcondition.trans hthen).trans helse
  | .whileLoop condition body, hformed, l, hl, _, h => by
    have hcondition := condition.surveyed isGlobal (rfl : l.surroundings.cls = _) h
    have hinside : Situated (l.enter .loopBody) _ := hcondition.situated.move rfl hl.symm rfl
    have hbody := body.surveyed hformed.2.1 rfl hinside
    rw [Stmt.behind_of_isDeclaration hformed.2.2] at hbody
    exact hcondition.trans (hbody.move rfl hl rfl)
  | .breakLoop keyword, _, _, _, _, h => surveyed_break isGlobal h keyword
  | .returnValue keyword none, _, _, _, _, h => by
    have hreturn := surveyed_return isGlobal h keyword false
    simp only [Bool.false_eq_true, false_and, if_false] at hreturn
    exact hreturn
  | .returnValue keyword (some e), _, l, _, _, h => by
    have hreturn := surveyed_return isGlobal h keyword true
    simp only [true_and] at hreturn
    exact hreturn.trans (e.surveyed isGlobal rfl hreturn.situated)
  | .function decl, hformed, l, hl, _, h => by
    have hname := surveyed_introduce isGlobal h hl decl.name
    have hbody := decl.surveyed false hformed (l.pending_introduce _ ▸ hl) hname.situated
    rw [Location.surroundings_introduce] at hbody
    exact hname.trans hbody
  | .classDecl name none methods, hformed, l, hl, _, h => by
    have hl' : (l.introduce name).pending = none := l.pending_introduce name ▸ hl
    have hname := surveyed_introduce isGlobal h hl name
    have hinside : Situated ((l.introduce name).enter (.methods false)) _ :=
      hname.situated.move rfl hl'.symm rfl
    have hmethods := FunDecl.surveyedMethods (.parent name methods) methods hformed.2.2
      (hinside.push rfl _ ["this"])
    rw [Location.surroundings_enter_methods, Location.surroundings_introduce] at hmethods
    exact hname.trans ((hmethods.pop rfl).move rfl hl' rfl)
  | .classDecl name (some superclass) methods, hformed, l, hl, _, h => by
    have hl' : (l.introduce name).pending = none := l.pending_introduce name ▸ hl
    have hname := surveyed_introduce isGlobal h hl name
    obtain ⟨ref, parent, rfl⟩ := hformed.2.1 superclass rfl
    have hsuperclass := hname.trans (surveyed_read isGlobal hname.situated ref parent)
    have hinside : Situated ((l.introduce name).enter (.methods true)) _ :=
      hsuperclass.situated.move rfl hl'.symm rfl
    have hparent := hinside.push rfl (.parent name methods) ["super"]
    have hmethods := FunDecl.surveyedMethods (.parent name methods) methods hformed.2.2
      (hparent.push rfl _ ["this"])
    rw [Location.surroundings_enter_scope, Location.surroundings_enter_methods,
      Location.surroundings_introduce] at hmethods
    exact hsuperclass.trans (((hmethods.pop rfl).pop rfl).move rfl hl' rfl)

/-- The walk over statements. -/
lemma Stmt.surveyedAll : (body : List Stmt) → Stmt.AllFormed P body → {l : Location} →
    l.pending = none → {a : Analysis} → Situated l a →
    Surveyed isGlobal a.errors (Stmt.analyseAll isGlobal l.surroundings body a)
      (Stmt.behindAll l body) (Stmt.placesAll l body)
  | [], _, _, _, _, h => .refl h
  | s :: rest, hformed, l, hl, _, h => by
    have hfirst := s.surveyed hformed.1 hl h
    have hrest := Stmt.surveyedAll rest hformed.2 (s.pending_behind l ▸ hl) hfirst.situated
    rw [s.surroundings_behind] at hrest
    exact hfirst.trans hrest

/-- The walk over a function or method. -/
lemma FunDecl.surveyed (isMethod : Bool) : (d : FunDecl) → d.Formed P → {l : Location} →
    l.pending = none → {a : Analysis} → Situated l a →
    Surveyed isGlobal a.errors (d.analyse isGlobal l.surroundings (d.context isMethod) a) l
      (d.places l isMethod)
  | .mk name params body, hformed, l, hl, _, h => by
    let decl := FunDecl.mk name params body
    let outside := l.enter (.function decl isMethod)
    have hinside : Situated outside _ := h.move rfl hl.symm rfl
    have hparams := surveyed_parameters isGlobal (hinside.push rfl (.call decl) []) rfl params
    obtain ⟨names, hnames⟩ := outside.exists_introduceAll ⟨.call decl, []⟩ params
    have hbody := Stmt.surveyedAll body hformed.2.2 (by rw [hnames]; rfl) hparams.situated
    obtain ⟨names', hnames'⟩ := Stmt.exists_behindAll outside ⟨.call decl, names⟩ body
    have hat := congrArg Location.surroundings hnames
    have hend := congrArg (Stmt.behindAll · body) hnames
    rw [hat, hend.trans hnames'] at hbody
    exact ((hparams.trans hbody).pop rfl).move rfl hl rfl

/-- The walk over methods, which has one scope of the instance for all of them. -/
lemma FunDecl.surveyedMethods (region : Region) : (ds : List FunDecl) →
    FunDecl.AllFormed P ds → {l : Location} → {a : Analysis} →
    Situated (l.enter (.scope ⟨region, ["this"]⟩)) a →
    Surveyed isGlobal a.errors (FunDecl.analyseMethods isGlobal l.surroundings ds a)
      (l.enter (.scope ⟨region, ["this"]⟩)) (FunDecl.methodPlaces l ds)
  | [], _, _, _, h => .refl h
  | d :: rest, hformed, l, _, h => by
    have hscope : Situated (l.enter (.scope d.receiverScope)) _ := h.rename fun _ => Iff.rfl
    have hfirst := d.surveyed true hformed.1 rfl hscope
    have hback : Situated (l.enter (.scope ⟨region, ["this"]⟩)) _ :=
      hfirst.situated.rename fun _ => Iff.rfl
    have hrest := FunDecl.surveyedMethods region rest hformed.2 hback
    exact Surveyed.trans ⟨hback, hfirst.errors⟩ hrest

end

end Statements

end LoxLang
