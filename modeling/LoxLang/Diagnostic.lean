import LoxLang.Token.Scan

/-!
# Diagnostics

Everything that is found wrong with a program, before or during its run, ends up as a diagnostic
in a log, in the order in which it was found.  Lexical complaints know a line only; all others
know the token nearest to the trouble.

Whether a log holds a static complaint or a runtime error is read off its entries, so there is no
flag that could disagree with them.
-/

namespace LoxLang

/-- One report, with the stage it comes from. -/
inductive Diagnostic where
  | lexical (line : Nat) (message : String)
  | syntactic (token : Token) (message : String)
  | resolution (token : Token) (message : String)
  | runtime (token : Token) (message : String)
  deriving DecidableEq

namespace Diagnostic

/-- Where a static complaint points: at a token's text, or at the end of the source. -/
def place (t : Token) : String := if t.isEof then " at end" else " at '" ++ t.lexeme ++ "'"

/-- A static complaint on one line. -/
def staticText (line : Nat) (place message : String) : String :=
  "[line " ++ toString line ++ "] Error" ++ place ++ ": " ++ message

/-- A runtime error: the message, and the line below it. -/
def runtimeText (t : Token) (message : String) : String :=
  message ++ "\n[line " ++ toString t.line ++ "]"

/-- The rendered report. -/
def text : Diagnostic → String
  | .lexical line message => staticText line "" message
  | .syntactic t message => staticText t.line (place t) message
  | .resolution t message => staticText t.line (place t) message
  | .runtime t message => runtimeText t message

/-- Is the report about the program text, not about its run? -/
def isStatic : Diagnostic → Bool
  | .runtime .. => false
  | _ => true

end Diagnostic

/-- Reports in the order in which they were made. -/
abbrev Log := List Diagnostic

namespace Log

/-- The rendered reports. -/
def messages (log : Log) : List String := log.map Diagnostic.text

/-- Does the log hold a lexical, syntactic or resolution complaint? -/
def hasStatic (log : Log) : Bool := log.any Diagnostic.isStatic

/-- Does the log hold a runtime error? -/
def hasRuntime (log : Log) : Bool := log.any (!·.isStatic)

/-- All reports as one block of text. -/
def block (log : Log) : String := String.intercalate "\n" log.messages

end Log

/-- The diagnostic of an item that is no token. -/
def Item.diagnostic? : Item → Option Diagnostic
  | .token _ => none
  | .complaint line cause => some (.lexical line cause.message)

/-- The lexical complaints about a source. -/
def lexicalLog (source : String) : Log := (scan source).filterMap Item.diagnostic?

end LoxLang
