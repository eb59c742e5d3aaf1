import LoxLang.Text.Quoted

/-!
# JSON text

Just enough JSON to write a list of tokens: scalars whose text is already decided, arrays, and
objects with fields in a fixed order.  There are two layouts, one on a single line and one with
an indentation of two blanks per level.
-/

namespace LoxLang.Text

/-- A JSON value.  The text of a scalar is given by whoever builds it. -/
inductive Json where
  | scalar (text : String)
  | array (items : List Json)
  | object (fields : List (String × Json))

namespace Json

/-- A JSON string. -/
def string (s : String) : Json := .scalar (jsonString s)

mutual

/-- The text on one line, without blanks. -/
def compact : Json → String
  | .scalar text => text
  | .array items => "[" ++ String.intercalate "," (compactItems items) ++ "]"
  | .object fields => "\x7b" ++ String.intercalate "," (compactFields fields) ++ "\x7d"

/-- The texts of array items on one line. -/
def compactItems : List Json → List String
  | [] => []
  | j :: rest => compact j :: compactItems rest

/-- The texts of object fields on one line. -/
def compactFields : List (String × Json) → List String
  | [] => []
  | (name, j) :: rest => (jsonString name ++ ":" ++ compact j) :: compactFields rest

end

/-- The blanks in front of a line at an indentation level. -/
def indentation (level : Nat) : String := String.ofList (List.replicate (2 * level) ' ')

/-- Lines between an opening and a closing bracket, one level deeper than the brackets. -/
def bracketed (level : Nat) (opening closing : String) (lines : List String) : String :=
  if lines.isEmpty then opening ++ closing
  else
    let inner := lines.map (indentation (level + 1) ++ ·)
    opening ++ "\n" ++ String.intercalate ",\n" inner ++ "\n" ++ indentation level ++ closing

mutual

/-- The text with one item or field per line. -/
def prettyAt (level : Nat) : Json → String
  | .scalar text => text
  | .array items => bracketed level "[" "]" (prettyItems (level + 1) items)
  | .object fields => bracketed level "\x7b" "\x7d" (prettyFields (level + 1) fields)

/-- The texts of array items, one per line. -/
def prettyItems (level : Nat) : List Json → List String
  | [] => []
  | j :: rest => prettyAt level j :: prettyItems level rest

/-- The texts of object fields, one per line. -/
def prettyFields (level : Nat) : List (String × Json) → List String
  | [] => []
  | (name, j) :: rest => (jsonString name ++ ": " ++ prettyAt level j) :: prettyFields level rest

end

/-- The indented text of a value. -/
def pretty (j : Json) : String := prettyAt 0 j

end Json

end LoxLang.Text
