import LoxLang.Number.Text
import LoxLang.Text.Json
import LoxLang.Token.Basic

/-!
# Token listings

Tokens are listed one per line, or as a JSON array.  Both forms show the payload of a literal
beside the text it was read from.
-/

namespace LoxLang

open Text (Json)

namespace Token

/-- The payload column of a listing. -/
def payloadText (t : Token) : String :=
  match t.kind with
  | .string contents => contents
  | .number value => Number.tokenText value
  | _ => "null"

/-- A token in a listing: the name of its kind, its text and its payload. -/
def text (t : Token) : String := t.kind.name ++ " " ++ t.lexeme ++ " " ++ t.payloadText

/-- The kind of a token in JSON: its name, with the payload under it for a literal. -/
def kindJson (t : Token) : Json :=
  match t.kind with
  | .string contents => .object [(t.kind.name, .string contents)]
  | .number value => .object [(t.kind.name, .scalar (Number.jsonText value))]
  | kind => .string kind.name

/-- A token in JSON. -/
def json (t : Token) : Json :=
  .object [("token_type", t.kindJson), ("lexeme", .string t.lexeme),
    ("line", .scalar (toString t.line))]

end Token

/-- A list of tokens in JSON. -/
def tokensJson (tokens : List Token) : Json := .array (tokens.map Token.json)

end LoxLang
