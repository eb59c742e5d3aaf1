import LoxLang.Text.Combining
import LoxLang.Text.Unassigned

/-!
# Printable characters

A character is printable if a reader can see it and see which one it is.  Controls, separators
other than the blank, format characters, fillers, code points for private use and those without a
character are not, and neither are combining marks, whose look depends on what is before them.
-/

namespace LoxLang.Text

/-- The code point ranges of the general category *Control*. -/
def controlRanges : List (Nat × Nat) := [(0x00, 0x1F), (0x7F, 0x9F)]

/-- The code point ranges of the separators, the blank apart. -/
def separatorRanges : List (Nat × Nat) :=
  [(0xA0, 0xA0), (0x1680, 0x1680), (0x2000, 0x200A), (0x2028, 0x2029), (0x202F, 0x202F),
   (0x205F, 0x205F), (0x3000, 0x3000)]

/-- The code point ranges of the general category *Format*. -/
def formatRanges : List (Nat × Nat) :=
  [(0xAD, 0xAD), (0x600, 0x605), (0x61C, 0x61C), (0x6DD, 0x6DD), (0x70F, 0x70F), (0x890, 0x891),
   (0x8E2, 0x8E2), (0x180E, 0x180E), (0x200B, 0x200F), (0x202A, 0x202E), (0x2060, 0x2064),
   (0x2066, 0x206F), (0xFEFF, 0xFEFF), (0xFFF9, 0xFFFB), (0x110BD, 0x110BD), (0x110CD, 0x110CD),
   (0x13430, 0x1343F), (0x1BCA0, 0x1BCA3), (0x1D173, 0x1D17A), (0xE0001, 0xE0001),
   (0xE0020, 0xE007F)]

/-- The code point ranges of letters that stand for a missing one and show nothing. -/
def fillerRanges : List (Nat × Nat) := [(0x115F, 0x1160), (0x3164, 0x3164), (0xFFA0, 0xFFA0)]

/-- The code point ranges for private use. -/
def privateRanges : List (Nat × Nat) :=
  [(0xE000, 0xF8FF), (0xF0000, 0xFFFFD), (0x100000, 0x10FFFD)]

/-- Does a character show nothing, or nothing that is agreed on? -/
def isHidden (c : Char) : Bool :=
  [controlRanges, separatorRanges, formatRanges, fillerRanges, privateRanges].any (inRanges · c)

/-- Can a reader see a character, and see which one it is?  Below the end of ASCII all but the
controls can be seen. -/
def isPrintable (c : Char) : Bool :=
  if c.toNat < 0x7F then 0x20 ≤ c.toNat
  else !(isHidden c || isCombining c || isUnassigned c)

example : [controlRanges, separatorRanges, formatRanges, fillerRanges, privateRanges].all
    ascending = true := by decide +kernel

example : "aZ~ é漢😀\u0903\u2800\uFF9E\uFFFC".toList.all isPrintable = true := by decide +kernel

example : "\x00\t\x7f\u00A0\u00AD\u0301\u09BE\u1160\u2028\uE000\uFFFF".toList.any isPrintable =
    false := by decide +kernel

end LoxLang.Text
