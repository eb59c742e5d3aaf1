import LoxLang.Machine.Run
import LoxLang.Scope.Analysis
import LoxLang.Syntax.Grammar

/-!
# Sessions

A session runs units of source one after another on one machine.  What a unit leaves behind, its
globals above all, is there for the next one; the table of distances and the reference numbers go
on as well, so that functions of an earlier unit stay what they were.

A unit goes through three stages: it is read, its scopes are analysed, and it is run.  Each stage
adds what it finds wrong to the same log, and a log with a static complaint stops the unit before
the next stage.  Whether the log was empty when the unit started is up to the caller, and so an
old complaint stops a new unit.
-/

namespace LoxLang

/-- How a unit ended that ended by itself. -/
inductive Status where
  | ok
  /-- The text of the program was at fault and nothing was run. -/
  | syntaxError
  /-- The run was stopped by an error. -/
  | runtimeError
  deriving DecidableEq, Repr

/-- The name of a status in reports. -/
def Status.name : Status → String
  | .ok => "ok"
  | .syntaxError => "syntax_error"
  | .runtimeError => "runtime_error"

/-- The exit code of a status. -/
def Status.exitCode : Status → Nat
  | .ok => 0
  | .syntaxError => 65
  | .runtimeError => 70

/-- How a unit ended. -/
inductive Ending where
  | finished (status : Status)
  | fault (f : Fault)
  | exhausted
  deriving DecidableEq, Repr

/-- A machine with the next free reference number. -/
structure Session where
  machine : Machine
  nextRef : RefId

/-- What a unit leaves: how it ended, the log, and the session. -/
structure UnitResult where
  ending : Ending
  log : Log
  session : Session

namespace Session

/-- A new session. -/
def start (input : List InputLine) (clock : Clock) : Session := ⟨.initial input clock, 0⟩

/-- Sets how deep calls may nest. -/
def setLimit (s : Session) (limit : Nat) : Session :=
  { s with machine := { s.machine with limit := limit } }

/-- Is a name bound globally? -/
def isGlobal (s : Session) (name : String) : Bool := s.machine.store.isDefined globalScope name

/-- The value of a global. -/
def global? (s : Session) (name : String) : Option Value :=
  s.machine.store.lookup? name globalScope

/-- Binds a global. -/
def defineGlobal (s : Session) (name : String) (value : Value) : Session :=
  { s with machine :=
      { s.machine with store := s.machine.store.define globalScope name value } }

/-- Writes an event. -/
def write (s : Session) (event : Event) : Session :=
  { s with machine := { s.machine with console := s.machine.console.write event } }

/-- Reads a source. -/
def read (s : Session) (source : String) : List Stmt × Log × Session :=
  let (reading, log) := readSource source s.nextRef
  (reading.program, log, { s with nextRef := reading.nextRef })

/-- Analyses the scopes of a program and records its distances. -/
def resolve (s : Session) (program : List Stmt) : Log × Session :=
  let analysis := analyseProgram s.isGlobal program s.machine.distances
  (analysis.log, { s with machine := { s.machine with distances := analysis.distances } })

/-- Runs a program that was read before. -/
def execute (s : Session) (fuel : Nat) (program : List Stmt) (log : Log) : UnitResult :=
  match runProgram fuel program s.machine with
  | (.ok _, m) =>
    ⟨.finished (if log.hasRuntime then .runtimeError else .ok), log, { s with machine := m }⟩
  | (.error e, m) =>
    ⟨.finished .runtimeError, log ++ [e.diagnostic], { s with machine := m }⟩
  | (.fault f, m) => ⟨.fault f, log, { s with machine := m }⟩
  | (.exhausted, m) => ⟨.exhausted, log, { s with machine := m }⟩

/-- **Runs a unit of source**, adding to a log. -/
def run (s : Session) (fuel : Nat) (source : String) (log : Log) : UnitResult :=
  let (program, complaints, s) := s.read source
  let log := log ++ complaints
  if log.hasStatic then ⟨.finished .syntaxError, log, s⟩
  else
    let (complaints, s) := s.resolve program
    let log := log ++ complaints
    if log.hasStatic then ⟨.finished .syntaxError, log, s⟩
    else s.execute fuel program log

end Session

end LoxLang
