import LoxLang.Proofs.Scope.Placement
import LoxLang.Session.Basic

/-!
# The stages of a unit

What a unit of source does is said once here, for all that is proved about sessions: it is accepted
when no stage has a static complaint, and then it is the run of its program on the loaded session;
otherwise nothing is run, and all that is left of it is a higher reference number and, if it could
be read, the distances that its analysis recorded.
-/

namespace LoxLang

/-! ## Logs -/

lemma hasStatic_append (l l' : Log) :
    (l ++ l' : Log).hasStatic = (l.hasStatic || l'.hasStatic) := by
  simp [Log.hasStatic]

lemma hasStatic_lexicalLog (source : String) :
    (lexicalLog source).hasStatic = !(lexicalLog source).isEmpty := by
  have hall : ∀ d ∈ lexicalLog source, d.isStatic = true := by
    intro d hd
    obtain ⟨item, -, hitem⟩ := List.mem_filterMap.mp hd
    cases item <;> simp only [Item.diagnostic?, Option.some.injEq, reduceCtorEq] at hitem
    subst hitem
    rfl
  rcases hlog : lexicalLog source with _ | ⟨d, rest⟩
  · rfl
  · simp [Log.hasStatic, hall d (by simp [hlog])]

lemma hasStatic_readingLog (r : Reading) : r.log.hasStatic = !r.errors.isEmpty := by
  rcases herrors : r.errors with _ | ⟨e, rest⟩
  · simp [Reading.log, herrors, Log.hasStatic]
  · simp [Reading.log, herrors, Log.hasStatic, SyntaxError.diagnostic, Diagnostic.isStatic]

lemma hasStatic_analysisLog (a : Analysis) : a.log.hasStatic = !a.errors.isEmpty := by
  rcases herrors : a.errors with _ | ⟨e, rest⟩
  · simp [Analysis.log, herrors, Log.hasStatic]
  · simp [Analysis.log, herrors, Log.hasStatic, ResolutionError.diagnostic, Diagnostic.isStatic]

/-! ## The end of a source -/

lemma exists_eof_itemsFrom (line : Nat) (segments : List Segment) :
    ∃ t : Token, Item.token t ∈ itemsFrom line segments ∧ t.isEof = true := by
  induction segments generalizing line with
  | nil => exact ⟨⟨.eof, "", line⟩, List.mem_cons_self, rfl⟩
  | cons first rest ih =>
    obtain ⟨t, ht, heof⟩ := ih (line + first.linesPassed)
    refine ⟨t, ?_, heof⟩
    simp only [itemsFrom]
    split
    · exact List.mem_cons_of_mem _ ht
    · exact ht

/-- Every source has an end. -/
lemma exists_eof_tokensOf (source : String) : ∃ t ∈ tokensOf source, t.isEof = true := by
  obtain ⟨t, ht, heof⟩ := exists_eof_itemsFrom 1 (segments source.toList)
  exact ⟨t, List.mem_filterMap.mpr ⟨.token t, ht, rfl⟩, heof⟩

namespace Session

variable (s : Session) (source : String) (log : Log)

/-- What a source is read as in a session. -/
def reading : Reading := readProgram (tokensOf source) s.nextRef

/-- The analysis of the program of a source. -/
def analysis : Analysis :=
  analyseProgram s.isGlobal (s.reading source).program s.machine.distances

/-- The session when the program of a source is about to be run. -/
def loaded : Session where
  machine := { s.machine with distances := (s.analysis source).distances }
  nextRef := (s.reading source).nextRef

/-- **Is a source accepted** without a lexical, syntactic or resolution complaint?  An old complaint
in the log is one too. -/
def accepts : Bool :=
  !log.hasStatic && (lexicalLog source).isEmpty && (s.reading source).errors.isEmpty &&
    (s.analysis source).errors.isEmpty

/-- What is left of a source that was not accepted. -/
def rejected : Session :=
  if (log ++ (lexicalLog source ++ (s.reading source).log)).hasStatic then
    { s with nextRef := (s.reading source).nextRef }
  else s.loaded source

variable {s source log}

/-- The stages of a unit, one after the other. -/
lemma run_eq (s : Session) (fuel : Nat) (source : String) (log : Log) : s.run fuel source log =
    let read := log ++ (lexicalLog source ++ (s.reading source).log)
    let resolved := read ++ (s.analysis source).log
    if read.hasStatic then
      ⟨.finished .syntaxError, read, { s with nextRef := (s.reading source).nextRef }⟩
    else if resolved.hasStatic then ⟨.finished .syntaxError, resolved, s.loaded source⟩
    else (s.loaded source).execute fuel (s.reading source).program resolved := rfl

/-- **An accepted unit is the run of its program.** -/
lemma run_of_accepts (h : s.accepts source log = true) (fuel : Nat) :
    s.run fuel source log = (s.loaded source).execute fuel (s.reading source).program log := by
  simp only [accepts, Bool.and_eq_true, Bool.not_eq_true', List.isEmpty_iff] at h
  obtain ⟨⟨⟨hlog, hlexical⟩, hreading⟩, hanalysis⟩ := h
  have hread : s.read source =
      ((s.reading source).program, [], { s with nextRef := (s.reading source).nextRef }) := by
    have hempty : (s.reading source).log = [] := by
      rw [Reading.log, hreading]
      rfl
    simp only [read, readSource, hlexical]
    exact congrArg (fun l => ((s.reading source).program, l, _)) hempty
  have hresolve : ({ s with nextRef := (s.reading source).nextRef } : Session).resolve
      (s.reading source).program = ([], s.loaded source) := by
    have hempty : (s.analysis source).log = [] := by
      rw [Analysis.log, hanalysis]
      rfl
    exact congrArg (fun l => (l, s.loaded source)) hempty
  simp only [run, hread, hresolve, List.append_nil, hlog, Bool.false_eq_true, if_false]

/-- If nothing is wrong with reading a unit that is not accepted, something is with its scopes. -/
lemma hasStatic_of_not_accepts (h : s.accepts source log = false)
    (hread : ¬ (log ++ (lexicalLog source ++ (s.reading source).log)).hasStatic = true) :
    (log ++ (lexicalLog source ++ (s.reading source).log) ++
      (s.analysis source).log).hasStatic = true := by
  rw [hasStatic_append, hasStatic_analysisLog]
  rw [hasStatic_append, hasStatic_append, hasStatic_lexicalLog, hasStatic_readingLog] at hread
  simp only [accepts] at h
  revert hread h
  cases log.hasStatic <;> cases (lexicalLog source).isEmpty <;>
    cases (s.reading source).errors.isEmpty <;> cases (s.analysis source).errors.isEmpty <;> simp

/-- **A unit that is not accepted is not run.** -/
lemma run_of_not_accepts (h : s.accepts source log = false) (fuel : Nat) :
    ∃ log', s.run fuel source log = ⟨.finished .syntaxError, log', s.rejected source log⟩ := by
  rw [run_eq]
  simp only [rejected]
  by_cases hread : (log ++ (lexicalLog source ++ (s.reading source).log)).hasStatic = true
  · rw [if_pos hread, if_pos hread]
    exact ⟨_, rfl⟩
  · rw [if_neg hread, if_neg hread, if_pos (hasStatic_of_not_accepts h hread)]
    exact ⟨_, rfl⟩

/-- The machine that the run of a program leaves. -/
lemma machine_execute (s : Session) (fuel : Nat) (program : List Stmt) (log : Log) :
    (s.execute fuel program log).session =
      { s with machine := (runProgram fuel program s.machine).2 } := by
  unfold execute
  split <;> next hrun => rw [hrun]

/-- Only the run of a program ends in a fault. -/
lemma fault_execute {fuel : Nat} {program : List Stmt} {f : Fault}
    (h : (s.execute fuel program log).ending = .fault f) :
    (runProgram fuel program s.machine).1 = .fault f := by
  unfold execute at h
  split at h
  · cases h
  · cases h
  · next hrun =>
    cases h
    rw [hrun]
  · cases h

/-! ## Sources that can be read -/

/-- A source that is read without a complaint gives a derived program. -/
lemma derives_reading (h : (s.reading source).errors = []) :
    Derives .declarations s.nextRef ((tokensOf source).takeWhile (!·.isEof))
      (s.reading source).nextRef (s.reading source).program := derives_readProgram h

lemma reading_of_accepts (h : s.accepts source log = true) : (s.reading source).errors = [] := by
  simp only [accepts, Bool.and_eq_true, List.isEmpty_iff] at h
  exact h.1.2

lemma analysis_of_accepts (h : s.accepts source log = true) : (s.analysis source).errors = [] := by
  simp only [accepts, Bool.and_eq_true, List.isEmpty_iff] at h
  exact h.2

/-- The sites of a program that was read from a source are placed. -/
lemma placed_reading (h : (s.reading source).errors = []) :
    ∀ site ∈ programSites (s.reading source).program, site.Placed := by
  refine (derives_reading h).placed fun t ht => isSpelled_tokensOf source t ?_
  exact (List.takeWhile_prefix _).subset ht

/-- A source that is not accepted leaves the session alone but for numbers and distances. -/
lemma rejected_cases (s : Session) (source : String) (log : Log) :
    s.rejected source log = { s with nextRef := (s.reading source).nextRef } ∨
      (s.reading source).errors = [] ∧ s.rejected source log = s.loaded source := by
  unfold rejected
  by_cases hstatic : (log ++ (lexicalLog source ++ (s.reading source).log)).hasStatic = true
  · rw [if_pos hstatic]
    exact .inl rfl
  · rw [if_neg hstatic]
    rw [hasStatic_append, hasStatic_append, hasStatic_readingLog] at hstatic
    simp only [Bool.or_eq_true, not_or, Bool.not_eq_true, Bool.not_eq_false',
      List.isEmpty_iff] at hstatic
    exact .inr ⟨hstatic.2.2, rfl⟩

end Session

end LoxLang
