import LoxLang.Command.Run
import Std.Time.DateTime.Timestamp

/-!
# The command line

The outer layer of the program: it collects what a command can reach, runs the command as a
function of that, and writes what the command wrote.  Standard input is read only for commands
that can use it.
-/

namespace LoxLang.CommandLine

/-- How many bytes are asked for at a time. -/
def chunkSize : USize := 65536

/-- All bytes that are left in a stream. -/
partial def readAll (stream : IO.FS.Stream) (done : ByteArray) : IO ByteArray := do
  let chunk ← stream.read chunkSize
  if chunk.isEmpty then pure done else readAll stream (done ++ chunk)

/-- The file that a command reads. -/
def fileOf? : Command → Option String
  | .tokenize file _ => some file
  | .parse file => some file
  | .run file => some file
  | .interact | .version => none

/-- Can a command read standard input? -/
def readsInput : Command → Bool
  | .run _ | .interact => true
  | _ => false

/-- The text and the number of a system error. -/
def systemError : IO.Error → SystemError
  | .noFileOrDirectory _ code text | .interrupted _ code text => ⟨text, code.toNat⟩
  | .alreadyExists _ code text | .invalidArgument _ code text | .permissionDenied _ code text
  | .resourceExhausted _ code text | .inappropriateType _ code text | .noSuchThing _ code text =>
    ⟨text, code.toNat⟩
  | .otherError code text | .resourceBusy code text | .resourceVanished code text
  | .unsupportedOperation code text | .hardwareFault code text | .unsatisfiedConstraints code text
  | .illegalOperation code text | .protocolError code text | .timeExpired code text =>
    ⟨text, code.toNat⟩
  | .unexpectedEof => ⟨"unexpected end of file", 0⟩
  | .userError text => ⟨text, 0⟩

/-- Reads an open file to its end. -/
def readHandle (handle : IO.FS.Handle) : IO FileReading := do
  try
    let content ← handle.readBinToEnd
    pure (.bytes content.toList)
  catch e => pure (.unread (systemError e))

/-- Opens a file and reads it to its end. -/
def readFile (file : String) : IO FileReading := do
  let handle ← (IO.FS.Handle.mk file .read).toBaseIO
  match handle with
  | .ok handle => readHandle handle
  | .error e => pure (.unopened (systemError e))

/-- What a command can reach. -/
def worldFor (command : Command) : IO World := do
  let reading ←
    match fileOf? command with
    | some file => readFile file
    | none => pure (.unopened .absent)
  let input ←
    if readsInput command then readAll (← IO.getStdin) .empty else pure .empty
  let now ← Std.Time.Timestamp.now
  pure {
    file := fun _ => reading
    input := input.toList
    clock := .startingAt now.toMillisecondsSinceUnixEpoch.val.toNat }

/-- More nested steps than any run can take. -/
def fuel : Nat := 1000000000000000000

/-- The result of running the program on arguments. -/
def resultOf (arguments : List String) : IO CommandResult := do
  match Command.ofArguments? arguments with
  | some command => pure (command.perform (← worldFor command) fuel)
  | none => pure ⟨.usage, []⟩

end LoxLang.CommandLine

/-- Runs the program on the arguments of the command line. -/
def main (arguments : List String) : IO UInt32 := do
  let result ← LoxLang.CommandLine.resultOf arguments
  IO.print result.output
  IO.eprint result.errorOutput
  pure result.ending.exitCode.toUInt32
