import LoxLang.Text.Ranges

/-!
# White space

A line of input is trimmed by the Unicode property *White_Space* before it is read as a number
or compared with a quit word.  The property is a short table of ranges.
-/

namespace LoxLang.Text

/-- The code point ranges with the property *White_Space*, ends included. -/
def blankRanges : List (Nat × Nat) :=
  [(0x09, 0x0D), (0x20, 0x20), (0x85, 0x85), (0xA0, 0xA0), (0x1680, 0x1680), (0x2000, 0x200A),
   (0x2028, 0x2029), (0x202F, 0x202F), (0x205F, 0x205F), (0x3000, 0x3000)]

/-- Does a character have the property *White_Space*? -/
def isBlank (c : Char) : Bool := inRanges blankRanges c

/-- A text without the characters of `drop` at its end. -/
def trimEnd (drop : Char → Bool) (cs : List Char) : List Char :=
  (cs.reverse.dropWhile drop).reverse

/-- A text without white space at either end. -/
def trim (cs : List Char) : List Char := trimEnd isBlank (cs.dropWhile isBlank)

example : ascending blankRanges = true ∧ rangesSize blankRanges = 25 := by decide

example : isBlank ' ' = true ∧ isBlank '\n' = true ∧ isBlank 'a' = false := by decide

end LoxLang.Text
