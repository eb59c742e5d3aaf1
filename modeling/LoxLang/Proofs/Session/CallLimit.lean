import LoxLang.Proofs.Machine.CallLimit
import LoxLang.Proofs.Session.Restoration
import LoxLang.Proofs.Session.Termination

/-!
# Units under two limits of calls

The limit of calls plays no part in whether a unit is accepted, and cuts its run short at most.  So
a unit that does not end in an overflow does the same under every higher limit: it ends in the same
way, with the same reports, and leaves the same session.  One that does end in an overflow has
written the beginning of what it would write with more room, and read the beginning of what it would
read (`Session.limit_cuts_short`).
-/

namespace LoxLang

/-- **A unit ended in an overflow**: its run was stopped, and what this added to the log is that
there was no room for a call. -/
def UnitResult.Overflowed (result : UnitResult) (log : Log) : Prop :=
  result.ending = .finished .runtimeError ∧
    ∃ token, result.log = log ++ [RuntimeError.diagnostic ⟨token, .stackOverflow⟩]

namespace UnitResult

/-- The same result under another limit. -/
def withLimit (result : UnitResult) (limit : Nat) : UnitResult :=
  { result with session := result.session.setLimit limit }

/-- The console that a unit leaves. -/
def console (result : UnitResult) : Console := result.session.machine.console

end UnitResult

namespace Session

variable {s : Session} {sources : List String} {source : String} {log : Log} {d d' : Nat}

/-- A unit that is not accepted is rejected under every limit, and in the same way. -/
lemma run_setLimit_of_not_accepts (h : s.accepts source log = false) (limit fuel : Nat) :
    (s.setLimit limit).run fuel source log = (s.run fuel source log).withLimit limit := by
  have hread : (s.setLimit limit).reading source = s.reading source := rfl
  have hanalysis : (s.setLimit limit).analysis source = s.analysis source := rfl
  rw [run_eq, run_eq, hread, hanalysis]
  simp only
  by_cases hstatic : (log ++ (lexicalLog source ++ (s.reading source).log)).hasStatic = true
  · rw [if_pos hstatic, if_pos hstatic]
    rfl
  · have hresolved := hasStatic_of_not_accepts h hstatic
    rw [if_neg hstatic, if_neg hstatic, if_pos hresolved, if_pos hresolved]
    rfl

/-- **The run of a program under two limits.** -/
lemma execute_setLimit (hle : d ≤ d') (s : Session) (fuel : Nat) (program : List Stmt) (log : Log) :
    let short := (s.setLimit d).execute fuel program log
    let long := (s.setLimit d').execute fuel program log
    long = short.withLimit d' ∨ short.Overflowed log ∧ short.console.Continues long.console := by
  intro short long
  have hwider := (cutting.runProgram fuel program).wider (s.setLimit d).machine d' hle
  have hlong : (s.setLimit d).machine.withLimit d' = (s.setLimit d').machine := rfl
  rw [hlong] at hwider
  rcases hrun : runProgram fuel program (s.setLimit d).machine with ⟨outcome, m⟩
  rw [hrun] at hwider
  rcases hwider with hsame | ⟨⟨token, hoverflow⟩, hcontinues⟩
  · apply Or.inl
    simp only [short, long, execute, hrun, hsame]
    cases outcome <;> rfl
  · simp only at hoverflow
    subst hoverflow
    apply Or.inr
    constructor
    · simp only [short, execute, hrun]
      exact ⟨rfl, token, rfl⟩
    · simp only [short, long, UnitResult.console, machine_execute, hrun]
      exact hcontinues

/-- **A unit under two limits.** -/
lemma run_setLimit (hle : d ≤ d') (s : Session) (fuel : Nat) (source : String) (log : Log) :
    let short := (s.setLimit d).run fuel source log
    let long := (s.setLimit d').run fuel source log
    long = short.withLimit d' ∨ short.Overflowed log ∧ short.console.Continues long.console := by
  intro short long
  cases haccepts : s.accepts source log with
  | true =>
    have hshort : short = _ := run_of_accepts (s := s.setLimit d) haccepts fuel
    have hlong : long = _ := run_of_accepts (s := s.setLimit d') haccepts fuel
    rw [hshort, hlong]
    exact execute_setLimit hle (s.loaded source) fuel (s.reading source).program log
  | false =>
    apply Or.inl
    show (s.setLimit d').run fuel source log = ((s.setLimit d).run fuel source log).withLimit d'
    rw [run_setLimit_of_not_accepts haccepts, run_setLimit_of_not_accepts haccepts]
    rfl

/-- Between two units no call is counted, whatever limits were set. -/
lemma Hosted.depth_eq (h : s.Hosted sources) : s.machine.depth = 0 := by
  induction h with
  | start input clock => rfl
  | @run s _ _ fuel source log ih => exact (s.run_restored fuel source log).2.1.trans ih
  | console _ _ ih => exact ih
  | limit _ _ ih => exact ih

/-- **The limit of calls only cuts runs short.**  A unit that does not overflow under a limit ends
in the same way under every higher one: with the same status and reports, the same console, store
and clock.  One that overflows has written a beginning of what it writes under the higher limit,
however long that run goes on, and has read a beginning of what that run reads; no call is counted
afterwards. -/
theorem limit_cuts_short (hle : d ≤ d') (s : Session) (fuel : Nat) (source : String) (log : Log) :
    let short := (s.setLimit d).run fuel source log
    let long := fun fuel' => (s.setLimit d').run fuel' source log
    (¬ short.Overflowed log → long fuel = short.withLimit d') ∧
    (short.Overflowed log →
      (∀ fuel', fuel ≤ fuel' → short.console.Continues (long fuel').console) ∧
      short.session.machine.depth = s.machine.depth ∧
      ∀ sources, s.Hosted sources → short.session.machine.depth = 0) := by
  intro short long
  constructor
  · intro hroom
    rcases run_setLimit hle s fuel source log with hsame | ⟨hoverflow, -⟩
    · exact hsame
    · exact absurd hoverflow hroom
  · intro hoverflow
    have hdepth : short.session.machine.depth = s.machine.depth :=
      ((s.setLimit d).run_restored fuel source log).2.1
    refine ⟨?_, hdepth, fun sources hs => hdepth.trans hs.depth_eq⟩
    intro fuel' hfuel
    have hdone : short.ending ≠ .exhausted := by
      rw [hoverflow.1]
      exact nofun
    have hmore : (s.setLimit d).run fuel' source log = short := run_of_le hfuel hdone
    rcases run_setLimit hle s fuel' source log with hsame | ⟨-, hcontinues⟩
    · rw [hmore] at hsame
      show short.console.Continues ((s.setLimit d').run fuel' source log).console
      rw [hsame]
      exact .refl _
    · rwa [hmore] at hcontinues

/-- A function that calls itself once overflows when one call is allowed, after it has written its
first line, and makes no difference between two calls and three. -/
theorem limit_cuts_short_second_call :
    let s := Session.start [] (.startingAt 0)
    let source := "fun f(x) \x7b print x; if (x) f(false); \x7d f(true);"
    let run := fun limit => (s.setLimit limit).run 40 source []
    ((run 1).Overflowed [] ∧ (run 1).console.events = #[.printed "true"] ∧
      (run 1).console.Continues (run 2).console ∧ (run 1).session.machine.depth = 0) ∧
    ¬ (run 2).Overflowed [] ∧ (run 2).console.events = #[.printed "true", .printed "false"] ∧
      run 3 = (run 2).withLimit 3 := by
  intro s source run
  obtain ⟨hending, hlog, hfirst⟩ : (run 1).ending = .finished .runtimeError ∧
      (run 1).log = [RuntimeError.diagnostic ⟨⟨.mark .rightParen, ")", 1⟩, .stackOverflow⟩] ∧
      (run 1).console.events = #[.printed "true"] := by
    decide +kernel
  obtain ⟨hending₂, hboth⟩ : (run 2).ending = .finished .ok ∧
      (run 2).console.events = #[.printed "true", .printed "false"] := by
    decide +kernel
  have hoverflow : (run 1).Overflowed [] := ⟨hending, _, hlog⟩
  have hroom : ¬ (run 2).Overflowed [] := by
    intro hoverflowed
    rw [hoverflowed.1] at hending₂
    cases hending₂
  obtain ⟨hcontinues, -, hdepth⟩ :=
    (limit_cuts_short (Nat.le_succ 1) s 40 source []).2 hoverflow
  have hsame := (limit_cuts_short (Nat.le_succ 2) s 40 source []).1 hroom
  exact ⟨⟨hoverflow, hfirst, hcontinues 40 (Nat.le_refl 40), hdepth _ (.start [] (.startingAt 0))⟩,
    hroom, hboth, hsame⟩

end Session

end LoxLang
