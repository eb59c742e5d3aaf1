/-!
# The outside world of a run

A run prints lines, shows prompts and reads lines of input.  What it writes is kept as a list of
events in order; what it can read is a list of lines given beforehand, each of which may turn out
not to be text.  Time is a sequence of clock readings, also given beforehand, so a run is a
function of what it is given.
-/

namespace LoxLang

/-- Something written. -/
inductive Event where
  /-- A line of output. -/
  | printed (text : String)
  /-- Text before a line is read, without a line break. -/
  | prompted (text : String)
  /-- A block of diagnostics. -/
  | reported (text : String)
  deriving DecidableEq, Repr

namespace Event

/-- The line of output of an event. -/
def printed? : Event → Option String
  | .printed text => some text
  | _ => none

/-- The prompt of an event. -/
def prompted? : Event → Option String
  | .prompted text => some text
  | _ => none

/-- The diagnostics of an event. -/
def reported? : Event → Option String
  | .reported text => some text
  | _ => none

/-- The event on a device that only knows lines: prompts are printed like output. -/
def asLine : Event → Event
  | .prompted text => .printed text
  | event => event

end Event

/-- A line that can be read.  Bytes that are not text are found out when they are read. -/
inductive InputLine where
  | text (contents : String)
  | undecodable
  deriving DecidableEq, Repr

/-- What was written so far and what can still be read. -/
structure Console where
  events : Array Event
  input : List InputLine

namespace Console

/-- A console with lines to read. -/
def ofLines (lines : List InputLine) : Console := ⟨#[], lines⟩

/-- Writes an event. -/
def write (c : Console) (event : Event) : Console := { c with events := c.events.push event }

/-- Takes the next line, if there is one. -/
def readLine (c : Console) : Option InputLine × Console :=
  match c.input with
  | [] => (none, c)
  | line :: rest => (some line, { c with input := rest })

end Console

/-- The readings that a clock shows one after another, in seconds. -/
structure Clock where
  reading : Nat → Float
  /-- How many readings were taken. -/
  ticks : Nat

namespace Clock

/-- A clock that starts at a time and shows a millisecond more at each reading. -/
def startingAt (milliseconds : Nat) : Clock :=
  ⟨fun tick => Float.ofNat (milliseconds + tick) / 1000, 0⟩

/-- Takes a reading. -/
def read (c : Clock) : Float × Clock := (c.reading c.ticks, { c with ticks := c.ticks + 1 })

end Clock

end LoxLang
