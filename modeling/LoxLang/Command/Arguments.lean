/-!
# Command line arguments

The program is told what to do by a subcommand, which may name a file.  Without one it starts an
interactive session.  Arguments that fit no command are a usage error; there is no partial answer,
so reading arguments gives a command or nothing.
-/

namespace LoxLang

/-- What the program is asked to do. -/
inductive Command where
  | tokenize (file : String) (json : Bool)
  | parse (file : String)
  | run (file : String)
  | interact
  | version
  deriving DecidableEq, Repr

/-- Subcommands. -/
inductive Subcommand where
  | tokenize
  | parse
  | run
  | repl
  deriving DecidableEq, Repr

/-- The subcommand that a word names. -/
def Subcommand.ofWord? : String → Option Subcommand
  | "tokenize" => some .tokenize
  | "parse" => some .parse
  | "run" => some .run
  | "repl" => some .repl
  | _ => none

/-- Arguments behind a subcommand, sorted: the files, and which flags were given. -/
structure SubArguments where
  files : List String
  json : Bool
  log : Bool

/-- Is the argument a flag?  A lone hyphen is a file name. -/
def isFlag (argument : String) : Bool := argument.startsWith "-" && argument != "-"

/-- Sorts the arguments behind a subcommand.  No flag may stand twice, and behind `--` everything is
a file. -/
def SubArguments.ofArguments? (sorted : SubArguments) : List String → Option SubArguments
  | [] => some sorted
  | "--" :: rest => some { sorted with files := sorted.files ++ rest }
  | "--json" :: rest =>
    if sorted.json then none else SubArguments.ofArguments? { sorted with json := true } rest
  | "--log" :: rest =>
    if sorted.log then none else SubArguments.ofArguments? { sorted with log := true } rest
  | argument :: rest =>
    if isFlag argument then none
    else SubArguments.ofArguments? { sorted with files := sorted.files ++ [argument] } rest

/-- The command of a subcommand with its arguments.  Only a token listing can be in JSON, and a
file has to have a name. -/
def Subcommand.command? (sub : Subcommand) (arguments : SubArguments) : Option Command :=
  match sub, arguments.files with
  | .tokenize, [file] => if file.isEmpty then none else some (.tokenize file arguments.json)
  | .parse, [file] => if file.isEmpty || arguments.json then none else some (.parse file)
  | .run, [file] => if file.isEmpty || arguments.json then none else some (.run file)
  | .repl, [] => if arguments.json then none else some .interact
  | _, _ => none

/-- The command that arguments ask for, when `log` tells whether logging was asked for before.  The
version is shown as soon as it is asked for, whatever stands behind: also behind its letter. -/
def Command.ofArgumentsFrom? (log : Bool) : List String → Option Command
  | [] => some .interact
  | ["--"] => some .interact
  | "--log" :: rest => if log then none else Command.ofArgumentsFrom? true rest
  | "--version" :: _ => some .version
  | argument :: rest =>
    if argument.startsWith "-V" then some .version
    else
      match Subcommand.ofWord? argument with
      | none => none
      | some sub =>
        match SubArguments.ofArguments? ⟨[], false, false⟩ rest with
        | none => none
        | some arguments => sub.command? arguments

/-- **The command that arguments ask for.**  Logging may be asked for once before and once behind
the subcommand. -/
def Command.ofArguments? (arguments : List String) : Option Command :=
  Command.ofArgumentsFrom? false arguments

end LoxLang
