import LoxLang.Proofs.Machine.Activity
import LoxLang.Proofs.Session.Stages

/-!
# Errors of different stages

Four stages report into one log, and what a unit ends with is decided by what the log holds between
them.  The stages never mix (`Session.errors_never_mix`).  A log with a static complaint stops the
unit before it is run, so that there is no runtime error beside it.  The scopes are analysed only if
the source could be read without a complaint.  The run itself reports once, at its end.

The run of a program stops at the first statement that fails.  What fails need not be a statement at
top level: it may be deep inside of one, with statements behind it in blocks, in loops and in the
functions that are being called.  All that is around a failing activity fails with the same error at
once and changes nothing any more but the scope and the depth that it puts back
(`Activity.Starts.passes_error`), so none of those statements has an effect either.
-/

namespace LoxLang

/-! ## Errors are passed on -/

/-- **An activity fails**: it ends with an error of the running program. -/
def Activity.Fails (a : Activity) (e : RuntimeError) (m : Machine) : Prop :=
  match a.task with
  | .evaluate x => LoxLang.evaluate a.fuel x a.machine = (.error e, m)
  | .evaluateAll xs => LoxLang.evaluateAll a.fuel xs a.machine = (.error e, m)
  | .invoke value arguments paren =>
    LoxLang.invoke a.fuel value arguments paren a.machine = (.error e, m)
  | .call c arguments paren => LoxLang.call a.fuel c arguments paren a.machine = (.error e, m)
  | .execute s => LoxLang.execute a.fuel s a.machine = (.error e, m)
  | .executeAll body => LoxLang.executeAll a.fuel body a.machine = (.error e, m)
  | .repeatWhile condition body =>
    LoxLang.repeatWhile a.fuel condition body a.machine = (.error e, m)

/-- Two machines on which the same has happened: what was stored, what was written and read, and
the time that was taken. -/
structure Machine.SameWorld (m m₁ : Machine) : Prop where
  store : m₁.store = m.store
  console : m₁.console = m.console
  clock : m₁.clock = m.clock

section Passing

variable {a b : Activity} {link : Link} {links : List Link} {e : RuntimeError} {m : Machine}

lemma Machine.SameWorld.trans {m₁ m₂ : Machine} (h : m.SameWorld m₁) (h' : m₁.SameWorld m₂) :
    m.SameWorld m₂ :=
  ⟨h'.store.trans h.store, h'.console.trans h.console, h'.clock.trans h.clock⟩

/-- **An activity fails with the error of one that it started**, and nothing happens in between. -/
lemma Activity.Starts.passes_error (h : a.Starts link b) (hb : b.Fails e m) :
    ∃ m₁, a.Fails e m₁ ∧ m.SameWorld m₁ := by
  cases h with
  | @enter n c arguments paren m₀ harity hroom =>
    refine ⟨{ m with depth := m₀.depth }, ?_, rfl, rfl, rfl⟩
    simp only [Fails] at hb ⊢
    simp only [LoxLang.invoke, harity, ne_eq, not_true_eq_false, if_false, Effect.run_bind,
      Effect.isAtLimit, Nat.not_le.mpr hroom, decide_false, Bool.false_eq_true, Effect.deeper, hb]
  | @body n stamp closure arguments paren frame m₀ m₁ hframe =>
    refine ⟨{ m with scope := m₁.scope }, ?_, rfl, rfl, rfl⟩
    simp only [Fails] at hb ⊢
    simp only [LoxLang.call, Effect.run_bind, hframe, Effect.within, hb]
  | @block n body frame m₀ m₁ hframe =>
    refine ⟨{ m with scope := m₁.scope }, ?_, rfl, rfl, rfl⟩
    simp only [Fails] at hb ⊢
    simp only [LoxLang.execute, Effect.run_bind, hframe, Effect.scope, Effect.within, hb]
  | binaryRight h | arguments h | setValue h | others h | superclass h | tail h =>
    refine ⟨m, ?_, rfl, rfl, rfl⟩
    simp only [Fails] at hb ⊢
    simp only [LoxLang.evaluate, LoxLang.evaluateAll, LoxLang.execute, LoxLang.executeAll,
      Effect.run_bind, h, hb]
  | logicalRight h hdecided =>
    refine ⟨m, ?_, rfl, rfl, rfl⟩
    simp only [Fails] at hb ⊢
    simp only [LoxLang.evaluate, Effect.run_bind, h, hdecided, Bool.false_eq_true, if_false, hb]
  | invoke h h' =>
    refine ⟨m, ?_, rfl, rfl, rfl⟩
    simp only [Fails] at hb ⊢
    simp only [LoxLang.evaluate, Effect.run_bind, h, h', hb]
  | construct hid hmethod hbound =>
    refine ⟨m, ?_, rfl, rfl, rfl⟩
    simp only [Fails] at hb ⊢
    simp only [LoxLang.call, Effect.run_bind, hid, hmethod, hbound, hb]
  | thenBranch h htrue | round h htrue =>
    refine ⟨m, ?_, rfl, rfl, rfl⟩
    simp only [Fails] at hb ⊢
    simp only [LoxLang.execute, LoxLang.repeatWhile, Effect.run_bind, h, htrue, if_true, hb]
  | elseBranch h hfalse =>
    refine ⟨m, ?_, rfl, rfl, rfl⟩
    simp only [Fails] at hb ⊢
    simp only [LoxLang.execute, Effect.run_bind, h, hfalse, Bool.false_eq_true, if_false, hb]
  | again h htrue hround =>
    refine ⟨m, ?_, rfl, rfl, rfl⟩
    simp only [Fails] at hb ⊢
    simp only [LoxLang.repeatWhile, Effect.run_bind, h, htrue, if_true, hround, hb]
  | _ =>
    -- What is started first fails first.
    refine ⟨m, ?_, rfl, rfl, rfl⟩
    simp only [Fails] at hb ⊢
    simp only [LoxLang.evaluate, LoxLang.evaluateAll, LoxLang.execute, LoxLang.executeAll,
      LoxLang.repeatWhile, Effect.run_bind, hb]

lemma Activity.Reaches.passes_error (h : a.Reaches links b) (hb : b.Fails e m) :
    ∃ m₁, a.Fails e m₁ ∧ m.SameWorld m₁ := by
  induction h generalizing m with
  | here => exact ⟨m, hb, rfl, rfl, rfl⟩
  | start _ hc ih =>
    obtain ⟨m₁, hb, hworld⟩ := hc.passes_error hb
    obtain ⟨m₂, ha, hworld'⟩ := ih hb
    exact ⟨m₂, ha, hworld.trans hworld'⟩

end Passing

/-! ## The statements of a program -/

/-- **Every statement was executed**, one after the other, from one machine to another. -/
inductive Executed (fuel : Nat) : List Stmt → Machine → Machine → Prop
  | nil (m : Machine) : Executed fuel [] m m
  | cons {s : Stmt} {rest : List Stmt} {flow : Flow} {m m₁ m₂ : Machine}
      (hs : execute fuel s m = (.ok flow, m₁)) (hrest : Executed fuel rest m₁ m₂) :
      Executed fuel (s :: rest) m m₂

section Programs

variable {fuel : Nat} {program : List Stmt} {e : RuntimeError} {m m' : Machine}

lemma executed_iff : Executed fuel program m m' ↔ runProgram fuel program m = (.ok (), m') := by
  constructor
  · intro h
    induction h with
    | nil => rfl
    | cons hs _ ih => simp only [runProgram, Effect.run_bind, hs, ih]
  · intro h
    induction program generalizing m with
    | nil =>
      cases h
      exact .nil _
    | cons s rest ih =>
      rw [runProgram, Effect.run_bind] at h
      rcases hs : execute fuel s m with ⟨outcome, m₁⟩
      rw [hs] at h
      cases outcome with
      | ok flow => exact .cons hs (ih h)
      | error | fault | exhausted => cases h

/-- A program that fails does so in one of its statements. -/
lemma exists_failing (h : runProgram fuel program m = (.error e, m')) :
    ∃ before s rest m₁, program = before ++ s :: rest ∧ Executed fuel before m m₁ ∧
      execute fuel s m₁ = (.error e, m') := by
  induction program generalizing m with
  | nil => cases h
  | cons s rest ih =>
    rw [runProgram, Effect.run_bind] at h
    rcases hs : execute fuel s m with ⟨outcome, m₁⟩
    rw [hs] at h
    cases outcome with
    | ok flow =>
      obtain ⟨before, failing, after, m₂, hprogram, hbefore, hfails⟩ := ih h
      refine ⟨s :: before, failing, after, m₂, ?_, .cons hs hbefore, hfails⟩
      rw [hprogram, List.cons_append]
    | error e' =>
      cases h
      exact ⟨[], s, rest, m, rfl, .nil m, hs⟩
    | fault | exhausted => cases h

lemma runProgram_append_of_error {before rest : List Stmt} {s : Stmt} {m₁ : Machine}
    (hbefore : Executed fuel before m m₁) (hs : execute fuel s m₁ = (.error e, m')) :
    runProgram fuel (before ++ s :: rest) m = (.error e, m') := by
  induction hbefore with
  | nil => simp only [List.nil_append, runProgram, Effect.run_bind, hs]
  | cons hfirst _ ih => simp only [List.cons_append, runProgram, Effect.run_bind, hfirst, ih hs]

/-- **Whatever fails during the run of a program is the last that happens in it.** -/
lemma Underway.runProgram_of_fails {links : List Link} {a : Activity}
    (h : Underway fuel program m links a) (ha : a.Fails e m') :
    ∃ m₁, runProgram fuel program m = (.error e, m₁) ∧ m'.SameWorld m₁ := by
  obtain ⟨before, s, rest, m₁, rfl, hbefore, hreach⟩ := h
  obtain ⟨m₂, hs, hworld⟩ := hreach.passes_error ha
  exact ⟨m₂, runProgram_append_of_error (executed_iff.mpr hbefore) hs, hworld⟩

end Programs

/-! ## One log for all stages -/

namespace Session

variable (s : Session) (fuel : Nat) (source : String)

/-- The stages that ran, with what each of them left in a log that was empty. -/
inductive Stages : UnitResult → Prop
  /-- The source could not be read. -/
  | unread (hne : lexicalLog source ++ (s.reading source).log ≠ []) :
      Stages ⟨.finished .syntaxError, lexicalLog source ++ (s.reading source).log,
        { s with nextRef := (s.reading source).nextRef }⟩
  /-- The scopes were found wrong. -/
  | unresolved (hne : (s.analysis source).log ≠ []) :
      Stages ⟨.finished .syntaxError, (s.analysis source).log, s.loaded source⟩
  /-- The program was run. -/
  | executed : Stages ((s.loaded source).execute fuel (s.reading source).program [])

lemma stages_run : s.Stages fuel source (s.run fuel source []) := by
  rw [run_eq]
  simp only [List.nil_append, hasStatic_append, hasStatic_lexicalLog, hasStatic_readingLog,
    hasStatic_analysisLog]
  split
  · next hread =>
    refine .unread fun hempty => ?_
    obtain ⟨hlexical, hreading⟩ := List.append_eq_nil_iff.mp hempty
    have herrors : (s.reading source).errors = [] := List.map_eq_nil_iff.mp hreading
    simp [hlexical, herrors] at hread
  · next hread =>
    have hsilent : lexicalLog source ++ (s.reading source).log = [] := by
      simp only [Bool.or_eq_true, not_or, Bool.not_eq_true, Bool.not_eq_false',
        List.isEmpty_iff] at hread
      rw [hread.1, Reading.log, hread.2]
      rfl
    rw [hsilent, List.nil_append]
    split
    · next hresolved =>
      refine .unresolved fun hempty => ?_
      have herrors : (s.analysis source).errors = [] := List.map_eq_nil_iff.mp hempty
      rw [herrors, List.isEmpty_nil, Bool.not_true, Bool.or_false] at hresolved
      exact hread hresolved
    · next hresolved =>
      have herrors : (s.analysis source).errors = [] := by
        simp only [Bool.or_eq_true, not_or, Bool.not_eq_true, Bool.not_eq_false',
          List.isEmpty_iff] at hresolved
        exact hresolved.2
      rw [Analysis.log, herrors]
      exact .executed

variable {s fuel source}

lemma isStatic_of_mem_read {d : Diagnostic} (h : d ∈ lexicalLog source ++ (s.reading source).log) :
    d.isStatic = true ∧ ∀ t text, d ≠ .resolution t text := by
  rcases List.mem_append.mp h with hlexical | hreading
  · obtain ⟨item, -, hitem⟩ := List.mem_filterMap.mp hlexical
    cases item with
    | token t => cases hitem
    | complaint line cause =>
      cases hitem
      exact ⟨rfl, nofun⟩
  · obtain ⟨e, -, rfl⟩ := List.mem_map.mp hreading
    exact ⟨rfl, nofun⟩

lemma exists_of_mem_analysis {d : Diagnostic} (h : d ∈ (s.analysis source).log) :
    ∃ t text, d = .resolution t text := by
  obtain ⟨e, -, rfl⟩ := List.mem_map.mp h
  exact ⟨_, _, rfl⟩

variable (s fuel source)

/-- **The error classes do not mix** in what a unit ended with. -/
structure Unmixed (r : UnitResult) : Prop where
  /-- The text is at fault exactly if something about the text was reported. -/
  syntaxError_iff : r.ending = .finished .syntaxError ↔ ∃ d ∈ r.log, d.isStatic = true
  /-- Then nothing else was reported, and nothing was run: no output, no prompt, no line read. -/
  syntaxError_unrun : r.ending = .finished .syntaxError → (∀ d ∈ r.log, d.isStatic = true) ∧
    r.session.machine = { s.machine with distances := r.session.machine.distances }
  /-- Complaints about scopes are never beside others. -/
  resolution_alone : (∃ t text, .resolution t text ∈ r.log) →
    ∀ d ∈ r.log, ∃ t text, d = .resolution t text
  /-- The run failed exactly if one runtime error was reported and nothing else. -/
  runtimeError_iff : r.ending = .finished .runtimeError ↔ ∃ t text, r.log = [.runtime t text]
  /-- Then a statement failed, those before it had been executed, and the machine is as it left
  it. -/
  runtimeError_stopped : r.ending = .finished .runtimeError →
    ∃ before failing after m₁ e, (s.reading source).program = before ++ failing :: after ∧
      Executed fuel before (s.loaded source).machine m₁ ∧
      LoxLang.execute fuel failing m₁ = (.error e, r.session.machine) ∧ r.log = [e.diagnostic]
  /-- And whatever failed on the way, however deep, was the last that happened. -/
  runtimeError_last : r.ending = .finished .runtimeError → ∀ links a e m₁,
    Underway fuel (s.reading source).program (s.loaded source).machine links a → a.Fails e m₁ →
      r.log = [e.diagnostic] ∧ m₁.SameWorld r.session.machine
  /-- A unit that returns is in order exactly if nothing was reported. -/
  ok_iff : (∃ status, r.ending = .finished status) → (r.ending = .finished .ok ↔ r.log = [])
  /-- Then all of its statements were executed. -/
  ok_executed : r.ending = .finished .ok →
    Executed fuel (s.reading source).program (s.loaded source).machine r.session.machine

variable {s fuel source}

/-- What was found wrong before the run. -/
lemma unmixed_of_static {log : Log} {s' : Session} (hne : log ≠ [])
    (hstatic : ∀ d ∈ log, d.isStatic = true)
    (halone : (∃ t text, .resolution t text ∈ log) → ∀ d ∈ log, ∃ t text, d = .resolution t text)
    (hmachine : s'.machine = { s.machine with distances := s'.machine.distances }) :
    s.Unmixed fuel source ⟨.finished .syntaxError, log, s'⟩ where
  syntaxError_iff := by
    obtain ⟨d, rest, rfl⟩ := List.exists_cons_of_ne_nil hne
    exact ⟨fun _ => ⟨d, List.mem_cons_self, hstatic d List.mem_cons_self⟩, fun _ => rfl⟩
  syntaxError_unrun _ := ⟨hstatic, hmachine⟩
  resolution_alone := halone
  runtimeError_iff := by
    refine ⟨nofun, ?_⟩
    rintro ⟨t, text, rfl⟩
    have hruntime := hstatic (.runtime t text) List.mem_cons_self
    cases hruntime
  runtimeError_stopped := nofun
  runtimeError_last := nofun
  ok_iff _ := ⟨nofun, fun h => absurd h hne⟩
  ok_executed := nofun

/-- What the run of a program reports. -/
lemma unmixed_execute :
    s.Unmixed fuel source ((s.loaded source).execute fuel (s.reading source).program []) := by
  unfold execute
  split
  · next m hrun =>
    constructor
    case ok_executed => exact fun _ => executed_iff.mpr hrun
    all_goals simp [Log.hasRuntime]
  · next e m hrun =>
    constructor
    case runtimeError_iff => exact ⟨fun _ => ⟨_, _, rfl⟩, fun _ => rfl⟩
    case runtimeError_stopped =>
      intro _
      obtain ⟨before, failing, after, m₁, hprogram, hbefore, hfails⟩ := exists_failing hrun
      exact ⟨before, failing, after, m₁, e, hprogram, hbefore, hfails, rfl⟩
    case runtimeError_last =>
      intro _ links a e' m₁ ha hfails
      obtain ⟨m₂, hrun', hworld⟩ := ha.runProgram_of_fails hfails
      rw [hrun] at hrun'
      cases hrun'
      exact ⟨rfl, hworld⟩
    all_goals simp [RuntimeError.diagnostic, Diagnostic.isStatic]
  · constructor <;> simp
  · constructor <;> simp

/-- **The errors of different stages never mix**, whatever the session, the source and the fuel, if
the log was empty. -/
theorem errors_never_mix (s : Session) (fuel : Nat) (source : String) :
    s.Unmixed fuel source (s.run fuel source []) := by
  have hstages := stages_run s fuel source
  generalize s.run fuel source [] = r at hstages
  cases hstages with
  | unread hne =>
    refine unmixed_of_static hne (fun d hd => (isStatic_of_mem_read hd).1) ?_ rfl
    rintro ⟨t, text, hmem⟩
    exact absurd rfl ((isStatic_of_mem_read hmem).2 t text)
  | unresolved hne =>
    refine unmixed_of_static hne (fun d hd => ?_) (fun _ d hd => exists_of_mem_analysis hd) rfl
    obtain ⟨t, text, rfl⟩ := exists_of_mem_analysis hd
    rfl
  | executed => exact unmixed_execute

end Session

end LoxLang
