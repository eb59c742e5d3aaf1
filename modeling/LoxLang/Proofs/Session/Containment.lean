import LoxLang.Proofs.Machine.Containment
import LoxLang.Proofs.Session.Restoration
import Mathlib

/-!
# No `break` or `return` escapes

In a unit that was accepted, every `break` ends the innermost loop around it and every `return` the
call of the function that it stands in; neither reaches further.  A statement at top level ends
normally, if it ends.

The functions that a unit calls may come from earlier units.  They are contained all the same,
because a function gets into the store only by the run of a unit that was accepted
(`Session.Settled`).
-/

namespace LoxLang

/-- Lists that are alike are so part by part. -/
lemma Stmt.LikeAll.of_append {ρ : Likeness} {Γ : List Renaming} {body rest : List Stmt}
    (h : Stmt.LikeAll ρ Γ (body ++ rest) (body ++ rest)) :
    Stmt.LikeAll ρ Γ body body ∧ Stmt.LikeAll ρ Γ rest rest := by
  induction body with
  | nil => exact ⟨.nil, h⟩
  | cons s body ih =>
    cases h with
    | cons hs hrest => exact ⟨.cons hs (ih hrest).1, (ih hrest).2⟩

lemma Stmt.contained_of_mem {returns : Option Expr → Prop} {loop : Prop} {body : List Stmt}
    (h : Stmt.ContainedAll returns loop body) {s : Stmt} (hs : s ∈ body) :
    s.Contained returns loop := by
  induction body with
  | nil => cases hs
  | cons first rest ih =>
    rcases List.mem_cons.mp hs with rfl | hs
    · exact h.1
    · exact ih h.2 hs

/-- **Everything that goes on during the run of a program is sound**, if the program is one that the
likeness allows. -/
lemma Underway.sound {ρ : Likeness} {T : List Renaming} {fuel : Nat} {program : List Stmt}
    {m : Machine} {links : List Link} {a : Activity} (hm : m.Like ρ T m)
    (hscope : m.scope = globalScope) (hprogram : Stmt.LikeAll ρ [] program program)
    (hadmits : ∀ s ∈ program, globalScope.Admits ρ s) (ha : Underway fuel program m links a) :
    a.Sound ρ := by
  refine Underway.induct (P := fun _ a => a.Sound _) (fun {before stmt rest m₁} heq hbefore => ?_)
    (fun _ hsound hb => hsound.start hb) ha
  rw [heq] at hprogram hadmits
  obtain ⟨hlike, hrest⟩ := hprogram.of_append
  have hearlier : ∀ stmt ∈ before, globalScope.Admits ρ stmt :=
    fun stmt hstmt => hadmits stmt (List.mem_append_left _ hstmt)
  obtain ⟨T₁, hT, -, hm₁, hlater⟩ :=
    (agree_runProgram fuel hlike (.global hm.store.opened) hearlier).of_run hm hscope hbefore
  cases hrest with
  | cons hstmt _ =>
    refine ⟨T₁, hm₁, [], ?_, hstmt, ?_⟩
    · rw [hlater]
      exact .global hm₁.store.opened
    · rw [hlater]
      exact hadmits stmt (List.mem_append_right _ List.mem_cons_self)

namespace Session

variable {s : Session} {sources : List String} {source : String} {log : Log} {fuel : Nat}
  {links : List Link} {a : Activity}

/-- **Everything that goes on during an accepted unit is sound.** -/
lemma Settled.sound (h : s.Settled sources) (haccepts : s.accepts source log = true)
    (ha : s.Underway fuel source links a) :
    a.Sound (.kept (IsTokenOf (source :: sources)) (· < (s.reading source).nextRef)
      (s.mayBind source)) := by
  obtain ⟨T, hmachine⟩ := h.like_loaded haccepts fun _ _ => rfl
  have hprogram := like_reading (reading_of_accepts haccepts)
    (fun _ ht => isTokenOf_first sources ht) (s.mayBind source)
  have hadmits := admits_mayBind (.kept (IsTokenOf (source :: sources))
    (· < (s.reading source).nextRef) (s.mayBind source)) (fun _ => id) id
    (analysis_of_accepts haccepts)
  exact LoxLang.Underway.sound hmachine h.scope hprogram hadmits ha

/-- **Everything that goes on during an accepted unit is contained.** -/
lemma Settled.around (h : s.Settled sources) (haccepts : s.accepts source log = true)
    (ha : s.Underway fuel source links a) : a.Around (s.Underway fuel source) links := by
  have hquiet := Stmt.containedAll_of_quiet s.isGlobal .topLevel (s.reading source).program _
    (analysis_of_accepts haccepts)
  refine LoxLang.Underway.induct (fun {before stmt rest m₁} heq _ => ⟨?_, ?_⟩)
    (fun {links link a b} ha haround hb => haround.start ha (fun {_ closure _ _} htask => ?_) hb) ha
  · have hstmt : stmt ∈ (s.reading source).program := by
      rw [heq]
      exact List.mem_append_right _ List.mem_cons_self
    exact Stmt.Contained.mono False.elim (fun h => by cases h) stmt
      (Stmt.contained_of_mem hquiet hstmt)
  · intro condition body htask
    cases htask
  · obtain ⟨T, -, hsound⟩ := h.sound haccepts ha
    rw [htask] at hsound
    cases hsound.1 with
    | function _ hc => exact hc.function

/-! ### Three moments of runs -/

/-- What is known of a source that is accepted: which program it is read as, and which distances the
machine has when the program is about to be run. -/
structure ReadsAs (s : Session) (source : String) (program : List Stmt) (d : Distances) :
    Prop where
  accepts : s.accepts source [] = true
  program : (s.reading source).program = program
  loaded : (s.loaded source).machine = { s.machine with distances := d }

/-- Each stage is told by what the stage before it gives, and the source matters only for its
tokens. -/
lemma ReadsAs.of_scan {tokens rest : List Token} {program : List Stmt} {nextRef : RefId}
    {scopes : List LocalScope} {names : List String} {d : Distances}
    (hscan : scan source = tokens.map .token)
    (hread : readProgram tokens s.nextRef = ⟨program, [], nextRef, rest⟩)
    (hanalysis : analyseProgram s.isGlobal program s.machine.distances = ⟨scopes, names, d, []⟩) :
    s.ReadsAs source program d := by
  have htokens : tokensOf source = tokens := by
    rw [tokensOf, hscan, List.filterMap_map]
    exact List.filterMap_some
  have hlog : lexicalLog source = [] := by
    rw [lexicalLog, hscan, List.filterMap_map]
    exact List.filterMap_eq_nil_iff.mpr fun _ _ => rfl
  have hreading : s.reading source = ⟨program, [], nextRef, rest⟩ := by
    rw [reading, htokens, hread]
  have hresolved : s.analysis source = ⟨scopes, names, d, []⟩ := by
    rw [analysis, hreading, hanalysis]
  refine ⟨?_, by rw [hreading], by rw [Session.loaded, hresolved]⟩
  simp [Session.accepts, hlog, hreading, hresolved, Log.hasStatic]

/-- A loop is in its first round when it is left. -/
lemma exists_break_underway :
    let s := (Session.start [] (.startingAt 0)).setLimit 10
    let source := "while (true) break;"
    let keyword : Token := ⟨.keyword .break_, "break", 1⟩
    ∃ m, s.accepts source [] = true ∧
      s.Underway 5 source [.round, .loop] ⟨3, .execute (.breakLoop keyword), m⟩ := by
  intro s source keyword
  let tokens : List Token := [⟨.keyword .while_, "while", 1⟩, ⟨.mark .leftParen, "(", 1⟩,
    ⟨.keyword .true_, "true", 1⟩, ⟨.mark .rightParen, ")", 1⟩, keyword,
    ⟨.mark .semicolon, ";", 1⟩, ⟨.eof, "", 1⟩]
  have hscan : scan source = tokens.map .token := by cbv
  have hsource : s.ReadsAs source [.whileLoop (.literal (.bool true)) (.breakLoop keyword)]
      .empty := .of_scan hscan rfl rfl
  have hbreak : s.Underway 5 source [.round, .loop]
      ⟨3, .execute (.breakLoop keyword), (s.loaded source).machine⟩ := by
    refine ⟨[], _, [], (s.loaded source).machine, hsource.program, rfl, ?_⟩
    exact .start (.start .here .whileLoop) (.round rfl rfl)
  exact ⟨_, hsource.accepts, hbreak⟩

/-- A function is called, and its body returns a value. -/
lemma exists_return_underway :
    let s := (Session.start [] (.startingAt 0)).setLimit 10
    let source := "fun f() \x7b return true; \x7d f();"
    let keyword : Token := ⟨.keyword .return_, "return", 1⟩
    let paren : Token := ⟨.mark .rightParen, ")", 1⟩
    ∃ links stamp closure m body m₁ m₂, s.accepts source [] = true ∧
      s.Underway 9 source links ⟨6, .call (.function stamp closure) [] paren, m⟩ ∧
      Activity.Starts ⟨6, .call (.function stamp closure) [] paren, m⟩ .body body ∧
      body.EndsIn (.returned (.bool true)) m₁ ∧
      s.Underway 9 source (.part :: .body :: links)
        ⟨4, .execute (.returnValue keyword (some (.literal (.bool true)))), m₂⟩ := by
  intro s source keyword paren
  let name : Token := ⟨.identifier, "f", 1⟩
  let decl : FunDecl := .mk name [] [.returnValue keyword (some (.literal (.bool true)))]
  let callee : Expr := .variable 0 name
  let closure : Closure := ⟨decl, globalScope, false⟩
  let tokens : List Token := [⟨.keyword .fun_, "fun", 1⟩, name,
    ⟨.mark .leftParen, "(", 1⟩, paren, ⟨.mark .leftBrace, "\x7b", 1⟩, keyword,
    ⟨.keyword .true_, "true", 1⟩, ⟨.mark .semicolon, ";", 1⟩, ⟨.mark .rightBrace, "\x7d", 1⟩,
    name, ⟨.mark .leftParen, "(", 1⟩, paren, ⟨.mark .semicolon, ";", 1⟩,
    ⟨.eof, "", 1⟩]
  have hscan : scan source = tokens.map .token := by cbv
  have hread : readProgram tokens s.nextRef =
      ⟨[.function decl, .expression (.call callee paren [])], [], 1, [⟨.eof, "", 1⟩]⟩ := by
    cbv
  have hsource : s.ReadsAs source _ .empty := .of_scan hscan hread rfl
  -- The machines when the function is declared, when its call is entered, and in its body.
  let m := { s.machine with distances := .empty }
  let m₁ := (LoxLang.execute 9 (.function decl) m).2
  let m₂ := { m₁ with depth := m₁.depth + 1 }
  let m₃ := (Effect.addFrame (bindParameters [] []) m₂).2
  let body : Activity := ⟨5, .executeAll decl.body, { m₃ with scope := 1 :: globalScope }⟩
  have hdeclared : LoxLang.execute 9 (.function decl) m = (.ok .normal, m₁) := rfl
  have hcallee : LoxLang.evaluate 7 callee m₁ = (.ok (.callable (.function 3 closure)), m₁) := by
    have hnone : m₁.distances.find? 0 = none := rfl
    simp only [LoxLang.evaluate, callee, Effect.readRef, hnone]
    cbv
  have hbefore : runProgram 9 [.function decl] (s.loaded source).machine = (.ok (), m₁) := by
    rw [hsource.loaded]
    simp only [runProgram, Effect.run_bind, m, hdeclared, Effect.run_pure]
  have hreaches : Activity.Reaches ⟨9, .execute (.expression (.call callee paren [])), m₁⟩
      [.call, .operand, .operand] ⟨6, .call (.function 3 closure) [] paren, m₂⟩ := by
    refine .start (.start (.start .here .expression) (.invoke hcallee rfl)) (.enter rfl ?_)
    show 0 < 10
    decide
  have hcall : s.Underway 9 source _ _ := ⟨_, _, [], m₁, hsource.program, hbefore, hreaches⟩
  have hbody : Activity.Starts ⟨6, .call (.function 3 closure) [] paren, m₂⟩ .body body :=
    .body rfl
  have hends : body.EndsIn (.returned (.bool true)) body.machine := .executeAll rfl
  have hreturn : s.Underway 9 source _ _ :=
    ⟨_, _, [], m₁, hsource.program, hbefore, .start (.start hreaches hbody) .head⟩
  exact ⟨_, _, _, _, body, _, _, hsource.accepts, hcall, hbody, hends, hreturn⟩

/-- An initializer is called, and its body returns. -/
lemma exists_initializer_underway :
    let s := (Session.start [] (.startingAt 0)).setLimit 10
    let source := "class A \x7b init() \x7b return; \x7d \x7d A();"
    let paren : Token := ⟨.mark .rightParen, ")", 1⟩
    ∃ links stamp closure m body m₁, s.accepts source [] = true ∧
      s.Underway 9 source links ⟨5, .call (.function stamp closure) [] paren, m⟩ ∧
      Activity.Starts ⟨5, .call (.function stamp closure) [] paren, m⟩ .body body ∧
      closure.isInitializer = true ∧ body.EndsIn (.returned .nil) m₁ := by
  intro s source paren
  let name : Token := ⟨.identifier, "A", 1⟩
  let init : Token := ⟨.identifier, "init", 1⟩
  let keyword : Token := ⟨.keyword .return_, "return", 1⟩
  let decl : FunDecl := .mk init [] [.returnValue keyword none]
  let declared : Stmt := .classDecl name none [decl]
  let callee : Expr := .variable 0 name
  let tokens : List Token := [⟨.keyword .class_, "class", 1⟩, name,
    ⟨.mark .leftBrace, "\x7b", 1⟩, init, ⟨.mark .leftParen, "(", 1⟩, paren,
    ⟨.mark .leftBrace, "\x7b", 1⟩, keyword, ⟨.mark .semicolon, ";", 1⟩,
    ⟨.mark .rightBrace, "\x7d", 1⟩, ⟨.mark .rightBrace, "\x7d", 1⟩, name,
    ⟨.mark .leftParen, "(", 1⟩, paren, ⟨.mark .semicolon, ";", 1⟩,
    ⟨.eof, "", 1⟩]
  have hscan : scan source = tokens.map .token := by cbv
  have hread : readProgram tokens s.nextRef =
      ⟨[declared, .expression (.call callee paren [])], [], 1, [⟨.eof, "", 1⟩]⟩ := by
    cbv
  have hsource : s.ReadsAs source _ .empty := .of_scan hscan hread rfl
  -- The machines when the class is declared, when its call is entered, when there is an
  -- instance, when the initializer is bound to it, and in its body.
  let m := { s.machine with distances := .empty }
  let m₁ := (LoxLang.execute 9 declared m).2
  let m₂ := { m₁ with depth := m₁.depth + 1 }
  let c : Class := .extend ⟨3, "A", methodTable globalScope [decl]⟩ none
  let m₃ := (Effect.addInstance c m₂).2
  let closure : Closure := ⟨decl, 1 :: globalScope, true⟩
  let m₄ := (Effect.bindMethod (.declared ⟨decl, globalScope, true⟩) 0 m₃).2
  let m₅ := (Effect.addFrame (bindParameters [] []) m₄).2
  let body : Activity := ⟨4, .executeAll decl.body, { m₅ with scope := 2 :: closure.scope }⟩
  have hdeclared : LoxLang.execute 9 declared m = (.ok .normal, m₁) := rfl
  have hcallee : LoxLang.evaluate 7 callee m₁ = (.ok (.callable (.cls c)), m₁) := by
    have hnone : m₁.distances.find? 0 = none := rfl
    simp only [LoxLang.evaluate, callee, Effect.readRef, hnone]
    cbv
  have hmethod : c.lookup? initializerName = some (.declared ⟨decl, globalScope, true⟩) := rfl
  have hbefore : runProgram 9 [declared] (s.loaded source).machine = (.ok (), m₁) := by
    rw [hsource.loaded]
    simp only [runProgram, Effect.run_bind, m, hdeclared, Effect.run_pure]
  have hreaches : Activity.Reaches ⟨9, .execute (.expression (.call callee paren [])), m₁⟩
      [.construct, .call, .operand, .operand]
      ⟨5, .call (.function 4 closure) [] paren, m₄⟩ := by
    refine .start (.start (.start (.start .here .expression) (.invoke hcallee rfl))
      (.enter rfl ?_)) (.construct rfl hmethod rfl)
    show 0 < 10
    decide
  have hcall : s.Underway 9 source _ _ := ⟨_, _, [], m₁, hsource.program, hbefore, hreaches⟩
  have hbody : Activity.Starts ⟨5, .call (.function 4 closure) [] paren, m₄⟩ .body body :=
    .body rfl
  have hends : body.EndsIn (.returned .nil) body.machine := .executeAll rfl
  exact ⟨_, _, _, _, body, _, hsource.accepts, hcall, hbody, rfl, hends⟩

/-! ### All runs -/

/-- **No `break` and no `return` escapes.**  In a unit that was accepted a statement at top level
ends normally, if it ends.  The body of a function that is called never ends by `break`, and that of
an initializer returns nothing but `nil`.  A `break` that is executed ends the innermost loop of the
same call, and a `return` the call of the innermost function that it stands in. -/
theorem Reachable.flows_contained (hs : s.Reachable sources)
    (haccepts : s.accepts source log = true) (fuel : Nat) :
    (∀ a flow m₁, s.Underway fuel source [] a → a.EndsIn flow m₁ → flow = .normal) ∧
    (∀ links n stamp closure arguments paren m body flow m₁,
      s.Underway fuel source links ⟨n, .call (.function stamp closure) arguments paren, m⟩ →
      Activity.Starts ⟨n, .call (.function stamp closure) arguments paren, m⟩ .body body →
      body.EndsIn flow m₁ →
        flow ≠ .broken ∧ (closure.isInitializer = true → ∀ v, flow = .returned v → v = .nil)) ∧
    (∀ links n keyword m,
      let a : Activity := ⟨n + 1, .execute (.breakLoop keyword), m⟩
      s.Underway fuel source links a →
        a.EndsIn .broken m ∧ a.BreaksOut (s.Underway fuel source) links) ∧
    ∀ links n keyword value m,
      let a : Activity := ⟨n + 1, .execute (.returnValue keyword value), m⟩
      s.Underway fuel source links a → a.ReturnsFrom (s.Underway fuel source) links value := by
  have hsettled := hs.settled
  refine ⟨?_, ?_, ?_, ?_⟩
  · intro a flow m₁ ha hends
    have hquiet := Stmt.containedAll_of_quiet s.isGlobal .topLevel (s.reading source).program _
      (analysis_of_accepts haccepts)
    obtain ⟨before, stmt, rest, m, hprogram, -, hreach⟩ := ha
    cases hreach
    cases hends with
    | execute hrun =>
      have hstmt : stmt ∈ (s.reading source).program := by
        rw [hprogram]
        exact List.mem_append_right _ List.mem_cons_self
      have hleaves := (flowsAt fuel).execute (Stmt.contained_of_mem hquiet hstmt) m flow m₁ hrun
      cases flow with
      | normal => rfl
      | broken => cases hleaves
      | returned v =>
        obtain ⟨_, hvalue, -⟩ := hleaves
        cases hvalue
  · intro links n stamp closure arguments paren m body flow m₁ hcall hbody hends
    obtain ⟨T, -, hsound⟩ := hsettled.sound haccepts hcall
    have hdecl : closure.decl.Contained closure.isInitializer := by
      cases hsound.1 with
      | function _ hc => exact hc.function
    have hcontained := (FunDecl.contained_iff _ _).mp hdecl
    cases hbody with
    | @body n _ _ _ _ _ _ _ _ =>
      cases hends with
      | executeAll hrun =>
        have hleaves := (flowsAt n).executeAll hcontained _ flow m₁ hrun
        constructor
        · rintro rfl
          exact hleaves
        · rintro hinitializer v rfl
          obtain ⟨value, hvalue, hnil⟩ := hleaves
          rw [FunctionContext.ofClosure, if_pos hinitializer] at hvalue
          exact hnil hvalue
  · intro links n keyword m a ha
    exact ⟨.execute rfl, (hsettled.around haccepts ha).contained⟩
  · intro links n keyword value m a ha
    exact (hsettled.around haccepts ha).contained

/-- A loop that is left in its first round, a function that returns a value, and an initializer that
returns. -/
theorem flows_contained_break_and_return :
    let s := (Session.start [] (.startingAt 0)).setLimit 10
    let breakWord : Token := ⟨.keyword .break_, "break", 1⟩
    let returnWord : Token := ⟨.keyword .return_, "return", 1⟩
    let paren : Token := ⟨.mark .rightParen, ")", 1⟩
    (∃ m, s.accepts "while (true) break;" [] = true ∧
      s.Underway 5 "while (true) break;" [.round, .loop] ⟨3, .execute (.breakLoop breakWord), m⟩ ∧
      Activity.BreaksOut (s.Underway 5 "while (true) break;") [.round, .loop]
        ⟨3, .execute (.breakLoop breakWord), m⟩) ∧
    (∃ links stamp closure m body flow m₁ m₂,
      s.accepts "fun f() \x7b return true; \x7d f();" [] = true ∧
      s.Underway 9 "fun f() \x7b return true; \x7d f();" links
        ⟨6, .call (.function stamp closure) [] paren, m⟩ ∧
      Activity.Starts ⟨6, .call (.function stamp closure) [] paren, m⟩ .body body ∧
      body.EndsIn flow m₁ ∧ flow ≠ .broken ∧
      Activity.ReturnsFrom (s.Underway 9 "fun f() \x7b return true; \x7d f();")
        (.part :: .body :: links)
        ⟨4, .execute (.returnValue returnWord (some (.literal (.bool true)))), m₂⟩
        (some (.literal (.bool true)))) ∧
    ∃ links stamp closure m body v m₁,
      s.accepts "class A \x7b init() \x7b return; \x7d \x7d A();" [] = true ∧
      s.Underway 9 "class A \x7b init() \x7b return; \x7d \x7d A();" links
        ⟨5, .call (.function stamp closure) [] paren, m⟩ ∧
      Activity.Starts ⟨5, .call (.function stamp closure) [] paren, m⟩ .body body ∧
      closure.isInitializer = true ∧ body.EndsIn (.returned v) m₁ ∧ v = .nil := by
  intro s breakWord returnWord paren
  have hs : s.Reachable [] := Reachable.start [] (.startingAt 0) 10
  refine ⟨?_, ?_, ?_⟩
  · obtain ⟨m, haccepts, hbreak⟩ := exists_break_underway
    obtain ⟨-, -, hcontained, -⟩ := hs.flows_contained haccepts 5
    exact ⟨m, haccepts, hbreak, (hcontained _ _ _ _ hbreak).2⟩
  · obtain ⟨links, stamp, closure, m, body, m₁, m₂, haccepts, hcall, hbody, hends, hreturn⟩ :=
      exists_return_underway
    obtain ⟨-, hinner, -, hreturns⟩ := hs.flows_contained haccepts 9
    exact ⟨links, stamp, closure, m, body, _, m₁, m₂, haccepts, hcall, hbody, hends,
      (hinner _ _ _ _ _ _ _ _ _ _ hcall hbody hends).1, hreturns _ _ _ _ _ hreturn⟩
  · obtain ⟨links, stamp, closure, m, body, m₁, haccepts, hcall, hbody, hinitializer, hends⟩ :=
      exists_initializer_underway
    obtain ⟨-, hinner, -, -⟩ := hs.flows_contained haccepts 9
    exact ⟨links, stamp, closure, m, body, _, m₁, haccepts, hcall, hbody, hinitializer, hends,
      (hinner _ _ _ _ _ _ _ _ _ _ hcall hbody hends).2 hinitializer _ rfl⟩

end Session

end LoxLang
