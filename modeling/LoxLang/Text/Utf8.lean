/-!
# UTF-8 with the place of the first defect

Program files and standard input arrive as bytes.  `decode` reads them as UTF-8 and, where they
are not, says where the first defect starts and how long it is: the bytes from the first one of
the broken character up to, but without, the byte that cannot follow.  A text that ends inside a
character has an unfinished defect, which has no length.
-/

namespace LoxLang.Text

/-- The first place where bytes stop being UTF-8.  `length` is absent when the bytes end inside a
character. -/
structure Defect where
  index : Nat
  length : Option Nat
  deriving DecidableEq, Repr

/-- How a defect is reported. -/
def Defect.message (d : Defect) : String :=
  match d.length with
  | some n => s!"invalid utf-8 sequence of {n} bytes from index {d.index}"
  | none => s!"incomplete utf-8 byte sequence from index {d.index}"

/-- What the first byte of a character promises: its own bits, how many bytes follow, and the
range of the next one.  Continuation bytes and bytes that start no character promise nothing. -/
structure Lead where
  bits : Nat
  owed : Nat
  low : Nat
  high : Nat

/-- The promise of a first byte. -/
def Lead.of? (b : Nat) : Option Lead :=
  if b < 0x80 then some ⟨b, 0, 0x80, 0xBF⟩
  else if 0xC2 ≤ b ∧ b ≤ 0xDF then some ⟨b % 32, 1, 0x80, 0xBF⟩
  else if b = 0xE0 then some ⟨0, 2, 0xA0, 0xBF⟩
  else if b = 0xED then some ⟨b % 16, 2, 0x80, 0x9F⟩
  else if 0xE1 ≤ b ∧ b ≤ 0xEF then some ⟨b % 16, 2, 0x80, 0xBF⟩
  else if b = 0xF0 then some ⟨0, 3, 0x90, 0xBF⟩
  else if 0xF1 ≤ b ∧ b ≤ 0xF3 then some ⟨b % 8, 3, 0x80, 0xBF⟩
  else if b = 0xF4 then some ⟨b % 8, 3, 0x80, 0x8F⟩
  else none

/-- Where a decoder stands between two bytes: between characters, or inside one that started at
byte `start`, of which `seen` bytes were read and `owed` are missing. -/
inductive Utf8State where
  | between
  | inside (start seen owed low high bits : Nat)

/-- Reads bytes from position `index` on, collecting characters in reverse. -/
def decodeFrom (index : Nat) (state : Utf8State) (done : List Char) :
    List UInt8 → Except Defect (List Char)
  | [] =>
    match state with
    | .between => .ok done.reverse
    | .inside start .. => .error ⟨start, none⟩
  | byte :: rest =>
    let b := byte.toNat
    match state with
    | .between =>
      match Lead.of? b with
      | none => .error ⟨index, some 1⟩
      | some lead =>
        if lead.owed = 0 then decodeFrom (index + 1) .between (Char.ofNat b :: done) rest
        else
          decodeFrom (index + 1) (.inside index 1 lead.owed lead.low lead.high lead.bits) done rest
    | .inside start seen owed low high bits =>
      if b < low ∨ high < b then .error ⟨start, some seen⟩
      else
        let bits := bits * 64 + b % 64
        if owed ≤ 1 then decodeFrom (index + 1) .between (Char.ofNat bits :: done) rest
        else decodeFrom (index + 1) (.inside start (seen + 1) (owed - 1) 0x80 0xBF bits) done rest

/-- The text that bytes encode, or the first defect. -/
def decode (bytes : List UInt8) : Except Defect String :=
  (decodeFrom 0 .between [] bytes).map String.ofList

end LoxLang.Text
