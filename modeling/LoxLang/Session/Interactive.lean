import LoxLang.Session.Basic
import LoxLang.Text.Blank

/-!
# Interactive sessions

An interactive session collects lines until they look like a finished unit, runs the unit, reports
what was wrong with it, and starts collecting again.  The session has one log, which is emptied when
it has been reported.  A quit word ends the session, but only where a unit would start; lines that
the running program reads come from the same input.
-/

namespace LoxLang

/-- How an interactive session ended. -/
inductive InteractiveEnding where
  | finished
  /-- A line of input was not text. -/
  | unreadable
  | fault (f : Fault)
  | exhausted
  deriving DecidableEq, Repr

/-- Words that end a session. -/
def quitWords : List String := ["quit", "exit", "q", ":q"]

/-- Is a line a quit word, white space around it left aside? -/
def isQuitLine (line : String) : Bool := String.ofList (Text.trim line.toList) ∈ quitWords

/-- The prompt before a line, which tells whether a unit has been started. -/
def promptFor (buffer : String) : String := if buffer.isEmpty then "> " else ". "

/-- The lines collected so far with one more. -/
def extendBuffer (buffer line : String) : String :=
  if buffer.isEmpty then line else buffer ++ "\n" ++ line

namespace Session

/-- Takes the next line of input, if there is one. -/
def readLine (s : Session) : Option InputLine × Session :=
  let (line, console) := s.machine.console.readLine
  (line, { s with machine := { s.machine with console := console } })

/-- Reports a log, unless it is empty. -/
def report (s : Session) (log : Log) : Session :=
  if log.isEmpty then s else s.write (.reported log.block)

/-- Takes at most `rounds` lines one after another, with what has been collected and logged. -/
def converse (fuel : Nat) : Nat → String → Log → Session → InteractiveEnding × Session
  | 0, _, _, s => (.exhausted, s)
  | rounds + 1, buffer, log, s =>
    match (s.write (.prompted (promptFor buffer))).readLine with
    | (none, s) => (.finished, s.write (.printed "Bye!"))
    | (some .undecodable, s) => (.unreadable, s)
    | (some (.text line), s) =>
      if buffer.isEmpty && isQuitLine line then (.finished, s.write (.printed "Bye!"))
      else
        let buffer := extendBuffer buffer line
        if isFinishedUnit (tokensOf buffer) then
          let result := s.run fuel buffer log
          let s := result.session
          match result.ending with
          | .finished _ => converse fuel rounds "" [] (s.report result.log)
          | .fault f => (.fault f, s)
          | .exhausted => (.exhausted, s)
        else converse fuel rounds buffer log s

/-- **An interactive session** on the lines of the console.  A round takes at least one line, and
the last round finds none, so the number of lines bounds the rounds. -/
def interact (s : Session) (fuel : Nat) : InteractiveEnding × Session :=
  let s := s.write (.printed "Lox REPL, type quit to quit.")
  converse fuel (s.machine.console.input.length + 1) "" [] s

end Session

end LoxLang
