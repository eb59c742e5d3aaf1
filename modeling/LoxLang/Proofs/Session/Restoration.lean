import LoxLang.Proofs.Machine.Activity
import LoxLang.Proofs.Session.Reachable

/-!
# Every exit puts the machine back

A unit of source can be left at many points: by its end, by an error at any depth of calls, or by
a `break` or `return` on the way.  None of them is seen in the next unit.  The scope is again that
of the globals and no call is counted (`Session.Reachable.rested`), because every single effect puts
back what it changed.
-/

namespace LoxLang

namespace Session

/-- An activity is under way while a unit of source runs. -/
def Underway (s : Session) (fuel : Nat) (source : String) (links : List Link) (a : Activity) :
    Prop :=
  LoxLang.Underway fuel (s.reading source).program (s.loaded source).machine links a

variable {s : Session} {sources : List String}

/-- A unit puts the machine back, whether it is run or not. -/
lemma run_restored (s : Session) (fuel : Nat) (source : String) (log : Log) :
    let m := (s.run fuel source log).session.machine
    m.scope = s.machine.scope ∧ m.depth = s.machine.depth ∧ m.limit = s.machine.limit := by
  intro m
  cases haccepts : s.accepts source log with
  | true =>
    have hrestored := restores_runProgram fuel (s.reading source).program (s.loaded source).machine
    have hmachine : m =
        (runProgram fuel (s.reading source).program (s.loaded source).machine).2 := by
      show (s.run fuel source log).session.machine = _
      rw [run_of_accepts haccepts, machine_execute]
    rw [hmachine]
    exact ⟨hrestored.scope, hrestored.depth, hrestored.limit⟩
  | false =>
    obtain ⟨log', hrun⟩ := run_of_not_accepts haccepts fuel
    have hmachine : m = (s.rejected source log).machine := by
      show (s.run fuel source log).session.machine = _
      rw [hrun]
    rw [hmachine]
    rcases s.rejected_cases source log with heq | ⟨-, heq⟩
    · rw [heq]
      exact ⟨rfl, rfl, rfl⟩
    · rw [heq]
      exact ⟨rfl, rfl, rfl⟩

/-- **Between two units** the machine is in the scope of the globals, and no call is counted. -/
lemma Reachable.rested (h : s.Reachable sources) :
    s.machine.scope = globalScope ∧ s.machine.depth = 0 := by
  induction h with
  | start input clock limit => exact ⟨rfl, rfl⟩
  | @run s _ _ fuel source log ih =>
    obtain ⟨hscope, hdepth, -⟩ := s.run_restored fuel source log
    exact ⟨hscope.trans ih.1, hdepth.trans ih.2⟩
  | console _ _ ih => exact ih
  | limit _ _ ih => exact ih

/-- **Every exit restores the machine.**  An expression, a statement, a list of statements in
another scope, and a value that is called leave the scope, the depth of calls and the limit as they
found them, with any fuel, on any machine and however they end.  So after every unit of a session
the scope is that of the globals and the depth is zero.  And during a unit the depth is the number
of calls that were entered and have not ended, which never is more than the limit. -/
theorem Reachable.exits_restored (hs : s.Reachable sources) :
    (∀ (m : Machine) n e, m.Restored (evaluate n e m).2) ∧
    (∀ (m : Machine) n stmt, m.Restored (LoxLang.execute n stmt m).2) ∧
    (∀ (m : Machine) n scope body, m.Restored (Effect.within scope (executeAll n body) m).2) ∧
    (∀ (m : Machine) n c arguments paren, m.Restored (call n c arguments paren m).2) ∧
    (∀ fuel source log,
      let after := (s.run fuel source log).session.machine
      after.scope = globalScope ∧ after.depth = 0 ∧ after.limit = s.machine.limit) ∧
    ∀ fuel source links a, s.Underway fuel source links a →
      a.machine.depth = links.count .call ∧ a.machine.depth ≤ s.machine.limit := by
  obtain ⟨hscope, hdepth⟩ := hs.rested
  refine ⟨fun m n e => (restoresAt n).evaluate e m, fun m n stmt => (restoresAt n).execute stmt m,
    fun m n scope body => ((restoresAt n).executeAll body).within scope m,
    fun m n c arguments paren => (restoresAt n).call c arguments paren m, ?_, ?_⟩
  · intro fuel source log after
    obtain ⟨hscope', hdepth', hlimit'⟩ := s.run_restored fuel source log
    exact ⟨hscope'.trans hscope, hdepth'.trans hdepth, hlimit'⟩
  · intro fuel source links a ha
    have hroom : (s.loaded source).machine.depth ≤ (s.loaded source).machine.limit := by
      show s.machine.depth ≤ s.machine.limit
      omega
    obtain ⟨hlimit, hcount, hbelow⟩ := LoxLang.Underway.depth_eq ha hroom
    constructor
    · rw [hcount]
      show s.machine.depth + _ = _
      omega
    · rw [hlimit] at hbelow
      exact hbelow

/-- In a session that allows one call, a function that calls itself fails inside of a block, and the
machine is back; and a call that is under way is counted. -/
theorem exits_restored_one_call :
    let s := (Session.start [] (.startingAt 0)).setLimit 1
    let source := "fun f() \x7b \x7b f(); \x7d \x7d f();"
    let result := s.run 30 source []
    (result.ending = .finished .runtimeError ∧ result.session.machine.scope = globalScope ∧
      result.session.machine.depth = 0) ∧
    ∃ links a, s.Underway 5 "clock();" links a ∧ a.machine.depth = links.count .call ∧
      a.machine.depth = 1 := by
  intro s source result
  have hs : s.Reachable [] := Reachable.start [] (.startingAt 0) 1
  obtain ⟨-, -, -, -, hafter, hduring⟩ := hs.exits_restored
  constructor
  · have hending : result.ending = .finished .runtimeError := by decide +kernel
    -- From here on it only matters how the unit ended.
    clear_value source
    obtain ⟨hscope, hdepth, -⟩ := hafter 30 source []
    exact ⟨hending, hscope, hdepth⟩
  · let callee : Expr := .variable 0 ⟨.identifier, "clock", 1⟩
    let paren : Token := ⟨.mark .rightParen, ")", 1⟩
    let m := (s.loaded "clock();").machine
    let clock : Callable := .builtin 0 .clock none
    have hprogram : (s.reading "clock();").program =
        [.expression (.call callee paren [])] := by with_unfolding_all rfl
    have hcallee : evaluate 3 callee m = (.ok (.callable clock), m) := by
      with_unfolding_all rfl
    have hclock : s.Underway 5 "clock();" [.call, .operand, .operand]
        ⟨2, .call clock [] paren, { m with depth := m.depth + 1 }⟩ := by
      refine ⟨[], _, [], m, hprogram, rfl, ?_⟩
      refine .start (.start (.start .here .expression) (.invoke hcallee rfl)) (.enter rfl ?_)
      exact Nat.one_pos
    exact ⟨_, _, hclock, (hduring _ _ _ _ hclock).1, rfl⟩

end Session

end LoxLang
