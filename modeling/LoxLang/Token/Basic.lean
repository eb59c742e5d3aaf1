/-!
# Tokens

A token is a kind, the text it was read from, and the line on which that text ends.  Kinds fall
into punctuation marks, keywords, and four kinds that are neither: identifiers, string and number
literals, and the end of the source.  Only the two literal kinds carry a payload.

**Two tokens agree when kind, text and line agree, the payload left aside.**  The payload is a
function of the text for every token read from a source, so nothing is lost; tokens made by hand
may differ in the payload alone, and then they still agree.
-/

namespace LoxLang

/-- Punctuation and operators. -/
inductive Mark where
  | leftParen | rightParen | leftBrace | rightBrace
  | comma | dot | minus | plus | semicolon | slash | star
  | bang | bangEqual | equal | equalEqual
  | greater | greaterEqual | less | lessEqual
  deriving DecidableEq, Repr

/-- Words that cannot be names.  Each is spelled as its constructor, without the underscore that
keeps it apart from the words of the host language. -/
inductive Keyword where
  | and_ | break_ | class_ | else_ | false_ | fun_ | for_ | if_ | nil_ | or_
  | print_ | return_ | super_ | this_ | true_ | var_ | while_
  deriving DecidableEq, Repr

/-- What a token is. -/
inductive Kind where
  | mark (m : Mark)
  | keyword (k : Keyword)
  | identifier
  | string (contents : String)
  | number (value : Float)
  | eof
  deriving DecidableEq

/-- A piece of source text with its kind.  `line` counts from one and is the line on which the
text ends. -/
structure Token where
  kind : Kind
  lexeme : String
  line : Nat
  deriving DecidableEq

/-! ## Marks -/

/-- How a mark is written. -/
def Mark.spelling : Mark → String
  | .leftParen => "("
  | .rightParen => ")"
  | .leftBrace => "\x7b"
  | .rightBrace => "\x7d"
  | .comma => ","
  | .dot => "."
  | .minus => "-"
  | .plus => "+"
  | .semicolon => ";"
  | .slash => "/"
  | .star => "*"
  | .bang => "!"
  | .bangEqual => "!="
  | .equal => "="
  | .equalEqual => "=="
  | .greater => ">"
  | .greaterEqual => ">="
  | .less => "<"
  | .lessEqual => "<="

/-- The name of a mark in token listings. -/
def Mark.name : Mark → String
  | .leftParen => "LEFT_PAREN"
  | .rightParen => "RIGHT_PAREN"
  | .leftBrace => "LEFT_BRACE"
  | .rightBrace => "RIGHT_BRACE"
  | .comma => "COMMA"
  | .dot => "DOT"
  | .minus => "MINUS"
  | .plus => "PLUS"
  | .semicolon => "SEMICOLON"
  | .slash => "SLASH"
  | .star => "STAR"
  | .bang => "BANG"
  | .bangEqual => "BANG_EQUAL"
  | .equal => "EQUAL"
  | .equalEqual => "EQUAL_EQUAL"
  | .greater => "GREATER"
  | .greaterEqual => "GREATER_EQUAL"
  | .less => "LESS"
  | .lessEqual => "LESS_EQUAL"

/-- Every mark. -/
def Mark.all : List Mark :=
  [.leftParen, .rightParen, .leftBrace, .rightBrace, .comma, .dot, .minus, .plus, .semicolon,
   .slash, .star, .bang, .bangEqual, .equal, .equalEqual, .greater, .greaterEqual, .less,
   .lessEqual]

theorem Mark.mem_all (m : Mark) : m ∈ Mark.all := by cases m <;> decide

/-! ## Keywords -/

/-- How a keyword is written. -/
def Keyword.spelling : Keyword → String
  | .and_ => "and"
  | .break_ => "break"
  | .class_ => "class"
  | .else_ => "else"
  | .false_ => "false"
  | .fun_ => "fun"
  | .for_ => "for"
  | .if_ => "if"
  | .nil_ => "nil"
  | .or_ => "or"
  | .print_ => "print"
  | .return_ => "return"
  | .super_ => "super"
  | .this_ => "this"
  | .true_ => "true"
  | .var_ => "var"
  | .while_ => "while"

/-- The name of a keyword in token listings. -/
def Keyword.name : Keyword → String
  | .and_ => "AND"
  | .break_ => "BREAK"
  | .class_ => "CLASS"
  | .else_ => "ELSE"
  | .false_ => "FALSE"
  | .fun_ => "FUN"
  | .for_ => "FOR"
  | .if_ => "IF"
  | .nil_ => "NIL"
  | .or_ => "OR"
  | .print_ => "PRINT"
  | .return_ => "RETURN"
  | .super_ => "SUPER"
  | .this_ => "THIS"
  | .true_ => "TRUE"
  | .var_ => "VAR"
  | .while_ => "WHILE"

/-- Every keyword. -/
def Keyword.all : List Keyword :=
  [.and_, .break_, .class_, .else_, .false_, .fun_, .for_, .if_, .nil_, .or_, .print_, .return_,
   .super_, .this_, .true_, .var_, .while_]

theorem Keyword.mem_all (k : Keyword) : k ∈ Keyword.all := by cases k <;> decide

/-- The keyword that a word spells, if it spells one. -/
def Keyword.ofWord? (word : String) : Option Keyword := all.find? (·.spelling = word)

theorem Keyword.ofWord?_spelling (k : Keyword) : ofWord? k.spelling = some k := by
  cases k <;> decide

theorem Keyword.spelling_of_ofWord? {word : String} {k : Keyword} (h : ofWord? word = some k) :
    k.spelling = word := by
  have hfound := List.find?_some h
  simpa using hfound

/-! ## Kinds and tokens -/

/-- The name of a kind in token listings. -/
def Kind.name : Kind → String
  | .mark m => m.name
  | .keyword k => k.name
  | .identifier => "IDENTIFIER"
  | .string _ => "STRING"
  | .number _ => "NUMBER"
  | .eof => "EOF"

/-- Do two kinds agree, payloads left aside? -/
def Kind.agrees : Kind → Kind → Bool
  | .mark m, .mark n => m = n
  | .keyword k, .keyword l => k = l
  | .identifier, .identifier => true
  | .string _, .string _ => true
  | .number _, .number _ => true
  | .eof, .eof => true
  | _, _ => false

@[simp] theorem Kind.agrees_refl (k : Kind) : k.agrees k = true := by cases k <;> simp [agrees]

namespace Token

/-- Do two tokens agree, payloads left aside? -/
def agrees (s t : Token) : Bool :=
  s.kind.agrees t.kind && s.lexeme == t.lexeme && s.line == t.line

@[simp] theorem agrees_refl (t : Token) : t.agrees t = true := by simp [agrees]

/-- Is the token this mark? -/
def isMark (t : Token) (m : Mark) : Bool := t.kind = .mark m

/-- Is the token this keyword? -/
def isKeyword (t : Token) (k : Keyword) : Bool := t.kind = .keyword k

/-- Is the token a name? -/
def isIdentifier (t : Token) : Bool := t.kind = .identifier

/-- Is the token the end of the source? -/
def isEof (t : Token) : Bool := t.kind = .eof

end Token

/-! ## Complete units -/

/-- Do the tokens look like a finished unit of source?  With an opening brace the braces have to
balance; without one the last token before the end has to be a semicolon. -/
def isFinishedUnit (tokens : List Token) : Bool :=
  let opened := tokens.countP (·.isMark .leftBrace)
  if 0 < opened then opened = tokens.countP (·.isMark .rightBrace)
  else ((tokens.filter (!·.isEof)).getLast?).any (·.isMark .semicolon)

end LoxLang
