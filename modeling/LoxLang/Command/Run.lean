import LoxLang.Command.Arguments
import LoxLang.Command.FileTree
import LoxLang.Session.Interactive
import LoxLang.Syntax.Text
import LoxLang.Text.Utf8
import LoxLang.Token.Text

/-!
# Running commands

A command is run as a function of what it can reach: the files, standard input and the clock.  The
result is how it ended and what it wrote, in order; the outer layer of the program only carries
this out.
-/

namespace LoxLang

/-- What a command can reach. -/
structure World where
  /-- What comes of reading the file at a path. -/
  file : String → FileReading
  /-- The bytes of standard input. -/
  input : List UInt8
  clock : Clock

/-- How a command ended. -/
inductive CommandEnding where
  | finished (status : Status)
  /-- Something outside the program under work failed. -/
  | failed (context cause : String)
  | usage
  | fault (f : Fault)
  | exhausted
  deriving DecidableEq, Repr

/-- How a command ended, and what it wrote before. -/
structure CommandResult where
  ending : CommandEnding
  events : List Event

/-! ## Lines of standard input -/

/-- Cuts bytes behind each line feed; the last line may lack one. -/
def byteLines : List UInt8 → List (List UInt8)
  | [] => []
  | b :: rest =>
    if b = 10 then [b] :: byteLines rest
    else
      match byteLines rest with
      | [] => [[b]]
      | line :: others => (b :: line) :: others

/-- Is the character part of the end of a line? -/
def isLineEnd (c : Char) : Bool := c = '\n' || c = '\r'

/-- A line of bytes as input: without line ends, if it is text. -/
def InputLine.ofBytes (bytes : List UInt8) : InputLine :=
  match Text.decode bytes with
  | .ok line => .text (String.ofList (Text.trimEnd isLineEnd line.toList))
  | .error _ => .undecodable

/-- The lines of standard input. -/
def World.lines (w : World) : List InputLine := (byteLines w.input).map InputLine.ofBytes

/-! ## Commands -/

/-- The text of a file, or why there is none. -/
def World.readFile (w : World) (file : String) : Except CommandEnding String :=
  match w.file file with
  | .unopened e => .error (.failed ("Failed to open file " ++ Text.quoteName file) e.message)
  | .unread e => .error (.failed ("Failed to read file " ++ Text.quoteName file) e.message)
  | .bytes content =>
    match Text.decode content with
    | .ok text => .ok text
    | .error defect =>
      .error (.failed ("File " ++ Text.quoteName file ++ " is not valid UTF-8") defect.message)

/-- The event that reports a log, unless it is empty. -/
def Log.event (log : Log) : List Event := if log.isEmpty then [] else [.reported log.block]

/-- Lists the tokens of a source, and then what is wrong with it. -/
def tokenizeSource (json : Bool) (source : String) : CommandResult :=
  let tokens := tokensOf source
  let log := lexicalLog source
  let lines := if json then [(tokensJson tokens).pretty] else tokens.map Token.text
  ⟨.finished (if log.hasStatic then .syntaxError else .ok), lines.map .printed ++ log.event⟩

/-- Shows the program that a source writes, or what is wrong with it. -/
def parseSource (source : String) : CommandResult :=
  let (reading, log) := readSource source 0
  if log.hasStatic then ⟨.finished .syntaxError, log.event⟩
  else ⟨.finished .ok, reading.program.map fun s => .printed s.text⟩

/-- Runs a source in a new session, and reports what went wrong. -/
def runSource (w : World) (fuel : Nat) (source : String) : CommandResult :=
  let result := (Session.start w.lines w.clock).run fuel source []
  let events := result.session.machine.console.events.toList
  match result.ending with
  | .finished status => ⟨.finished status, events ++ result.log.event⟩
  | .fault f => ⟨.fault f, events⟩
  | .exhausted => ⟨.exhausted, events⟩

/-- Starts an interactive session on standard input. -/
def runInteractive (w : World) (fuel : Nat) : CommandResult :=
  let (ending, s) := (Session.start w.lines w.clock).interact fuel
  let events := s.machine.console.events.toList
  match ending with
  | .finished => ⟨.finished .ok, events⟩
  | .unreadable =>
    ⟨.failed "Failed to read from stdin" "stream did not contain valid UTF-8", events⟩
  | .fault f => ⟨.fault f, events⟩
  | .exhausted => ⟨.exhausted, events⟩

/-- Does something with the text of a file. -/
def World.withFile (w : World) (file : String) (f : String → CommandResult) : CommandResult :=
  match w.readFile file with
  | .ok source => f source
  | .error ending => ⟨ending, []⟩

/-- The name and version of the program. -/
def versionText : String := "rox 0.1.0"

/-- Runs a command. -/
def Command.perform (w : World) (fuel : Nat) : Command → CommandResult
  | .tokenize file json => w.withFile file (tokenizeSource json)
  | .parse file => w.withFile file parseSource
  | .run file => w.withFile file (runSource w fuel)
  | .interact => runInteractive w fuel
  | .version => ⟨.finished .ok, [.printed versionText]⟩

/-- **Runs the program** on arguments. -/
def runArguments (w : World) (fuel : Nat) (arguments : List String) : CommandResult :=
  match Command.ofArguments? arguments with
  | some command => command.perform w fuel
  | none => ⟨.usage, []⟩

/-! ## What the outer layer sees -/

/-- The exit code of a command. -/
def CommandEnding.exitCode : CommandEnding → Nat
  | .finished status => status.exitCode
  | .failed .. => 1
  | .usage => 64
  | .fault _ => 101
  | .exhausted => 124

/-- What an event writes to standard output. -/
def Event.outputText : Event → String
  | .printed text => text ++ "\n"
  | .prompted text => text
  | .reported _ => ""

/-- What an event writes to standard error. -/
def Event.errorText : Event → String
  | .reported text => text ++ "\n"
  | _ => ""

/-- What the ending of a command writes to standard error. -/
def CommandEnding.errorText : CommandEnding → String
  | .finished _ => ""
  | .failed context cause => "Error: " ++ context ++ "\n\nCaused by:\n    " ++ cause ++ "\n"
  | .usage => "Usage: [--log] [tokenize FILE [--json] | parse FILE | run FILE | repl]\n"
  | .fault f => f.message ++ "\n"
  | .exhausted => "Out of fuel.\n"

/-- Everything written to standard output. -/
def CommandResult.output (r : CommandResult) : String :=
  String.join (r.events.map Event.outputText)

/-- Everything written to standard error. -/
def CommandResult.errorOutput (r : CommandResult) : String :=
  String.join (r.events.map Event.errorText) ++ r.ending.errorText

end LoxLang
