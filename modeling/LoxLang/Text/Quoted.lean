import LoxLang.Text.Printable

/-!
# Quoted texts

Two formats put text between double quotes: JSON, and the listing of names and paths in
reports.  Both escape the quote, the backslash and control characters, and differ in which
control characters have a short form.  A report is for readers, so it also escapes every character
that cannot be seen.
-/

namespace LoxLang.Text

/-- A hexadecimal digit in lower case. -/
def hexDigit (n : Nat) : Char := Nat.digitChar (n % 16)

/-! ## JSON -/

/-- A character inside a JSON string.  Control characters below the blank are escaped; all else
but the quote and the backslash stands for itself. -/
def jsonChar (c : Char) : List Char :=
  if c = '"' then ['\\', '"']
  else if c = '\\' then ['\\', '\\']
  else if c = '\x08' then ['\\', 'b']
  else if c = '\x0c' then ['\\', 'f']
  else if c = '\n' then ['\\', 'n']
  else if c = '\r' then ['\\', 'r']
  else if c = '\t' then ['\\', 't']
  else if c.toNat < 0x20 then
    ['\\', 'u', '0', '0', hexDigit (c.toNat / 16), hexDigit c.toNat]
  else [c]

/-- A JSON string. -/
def jsonString (s : String) : String :=
  String.ofList ('"' :: (s.toList.flatMap jsonChar ++ ['"']))

/-! ## Names in reports -/

/-- A character inside a reported name.  What is not printable is written as its code point. -/
def nameChar (c : Char) : List Char :=
  if c = '"' then ['\\', '"']
  else if c = '\\' then ['\\', '\\']
  else if c = '\x00' then ['\\', '0']
  else if c = '\n' then ['\\', 'n']
  else if c = '\r' then ['\\', 'r']
  else if c = '\t' then ['\\', 't']
  else if isPrintable c then [c]
  else ['\\', 'u', '\x7b'] ++ Nat.toDigits 16 c.toNat ++ ['\x7d']

/-- A name between quotes. -/
def quoteName (s : String) : String :=
  String.ofList ('"' :: (s.toList.flatMap nameChar ++ ['"']))

/-- A list of names between square brackets. -/
def quoteNames (names : List String) : String :=
  "[" ++ String.intercalate ", " (names.map quoteName) ++ "]"

end LoxLang.Text
