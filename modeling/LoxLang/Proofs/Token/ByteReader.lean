import LoxLang.Token.Scan
import Mathlib.Data.List.Defs

/-!
# Reading a source byte by byte

`nextSegment` cuts a text of characters, and the text behind a segment is at hand for the next one.
A reader of bytes has only a source and places in it.  It looks at single bytes, where it sees a
zero behind the last one, jumps to the next byte of some value, and cuts texts out of the source
between two places.

Here the rules for items are given once more in this way.  The reader keeps the place where the
current lexeme starts, the place behind the last byte it has looked at, the line, and the kind that
it has recognised; each call gives the next item, and behind the end of the source there is none any
more.

Two accidents are outcomes of their own: looking or cutting outside of the source, and cutting a
character in two.  `LoxLang.Proofs.Token.Bytes` compares the reader with the cut of characters and
shows that neither happens.
-/

namespace LoxLang

/-- Where a reader of bytes stands. -/
structure ByteCursor where
  /-- The place of the first byte of the current lexeme. -/
  start : Nat
  /-- The place behind the last byte that was looked at. -/
  curr : Nat
  line : Nat
  /-- What the current lexeme was recognised as. -/
  pending : Option Kind

/-- How a reader of bytes ends. -/
inductive ByteOutcome (α : Type) where
  | read (a : α) (s : ByteCursor)
  /-- The reader has looked outside of the source, or cut a character in two. -/
  | fault
  | exhausted

/-- The bytes of a source. -/
def bytesOf (source : String) : List UInt8 := source.toByteArray.data.toList

/-- A reader of bytes.  The source stays the same. -/
def ByteReader (α : Type) : Type := String → ByteCursor → ByteOutcome α

namespace ByteReader

instance : Monad ByteReader where
  pure a := fun _ s => .read a s
  bind p f := fun source s =>
    match p source s with
    | .read a s => f a source s
    | .fault => .fault
    | .exhausted => .exhausted

@[simp] theorem run_pure {α : Type} (a : α) (source : String) (s : ByteCursor) :
    (pure a : ByteReader α) source s = .read a s := rfl

@[simp] theorem run_bind {α β : Type} (p : ByteReader α) (f : α → ByteReader β) (source : String)
    (s : ByteCursor) : (p >>= f) source s = match p source s with
      | .read a s => f a source s
      | .fault => .fault
      | .exhausted => .exhausted := rfl

/-! ## Looking at bytes -/

/-- An accident. -/
def fault {α : Type} : ByteReader α := fun _ _ => .fault

/-- The fuel has run out. -/
def exhausted {α : Type} : ByteReader α := fun _ _ => .exhausted

/-- Where the reader stands. -/
def cursor : ByteReader ByteCursor := fun _ s => .read s s

/-- The number of bytes of the source. -/
def size : ByteReader Nat := fun source s => .read (bytesOf source).length s

/-- The byte some places further on; behind the source there are zeros. -/
def peekAt (offset : Nat) : ByteReader UInt8 := fun source s =>
  .read ((bytesOf source)[s.curr + offset]?.getD 0) s

/-- Goes on by some bytes. -/
def skip (n : Nat) : ByteReader Unit := fun _ s => .read () { s with curr := s.curr + n }

/-- Goes to a place. -/
def moveTo (place : Nat) : ByteReader Unit := fun _ s => .read () { s with curr := place }

/-- Counts lines. -/
def addLines (n : Nat) : ByteReader Unit := fun _ s => .read () { s with line := s.line + n }

/-- The next byte, which has to be there. -/
def advance : ByteReader UInt8 := fun source s =>
  match (bytesOf source)[s.curr]? with
  | some b => .read b { s with curr := s.curr + 1 }
  | none => .fault

/-- The place where a run of bytes ends. -/
def endOfRun (keep : UInt8 → Bool) (bytes : List UInt8) (i : Nat) : Nat :=
  if h : i < bytes.length then
    if keep bytes[i] then endOfRun keep bytes (i + 1) else i
  else i
termination_by bytes.length - i

/-- Goes on to the end of a run of bytes. -/
def advanceWhile (keep : UInt8 → Bool) : ByteReader Unit := fun source s =>
  .read () { s with curr := endOfRun keep (bytesOf source) s.curr }

/-! ## Cutting -/

/-- The first bytes of some bytes, of which there have to be enough. -/
def first (bytes : List UInt8) (n : Nat) : ByteReader (List UInt8) :=
  if n ≤ bytes.length then pure (bytes.take n) else fault

/-- The bytes between two places, which have to be in the source. -/
def bytesBetween (a b : Nat) : ByteReader (List UInt8) := fun source s =>
  if a ≤ b ∧ b ≤ (bytesOf source).length then .read (((bytesOf source).take b).drop a) s
  else .fault

/-- The bytes from the place on where the reader stands. -/
def rest : ByteReader (List UInt8) := do
  let c ← cursor
  bytesBetween c.curr (← size)

/-- The text between two places.  No character may lie on both sides of one of them. -/
def slice (a b : Nat) : ByteReader String := fun source s =>
  if h : String.Pos.Raw.IsValid source ⟨a⟩ ∧ String.Pos.Raw.IsValid source ⟨b⟩ ∧ a ≤ b then
    .read (String.extract (s := source) ⟨⟨a⟩, h.1⟩ ⟨⟨b⟩, h.2.1⟩) s
  else .fault

/-! ## What a byte starts -/

/-- The bytes that are marks by themselves. -/
def soleMarks : List (Char × Mark) :=
  [('(', .leftParen), (')', .rightParen), ('\x7b', .leftBrace), ('\x7d', .rightBrace),
   (',', .comma), ('.', .dot), ('-', .minus), ('+', .plus), (';', .semicolon), ('*', .star)]

/-- The bytes that an equals sign behind them makes other marks. -/
def equalMarks : List (Char × Mark × Mark) :=
  [('!', .bangEqual, .bang), ('=', .equalEqual, .equal), ('<', .lessEqual, .less),
   ('>', .greaterEqual, .greater)]

/-- Decimal digits. -/
def isDigitByte (b : UInt8) : Bool := '0'.toUInt8 ≤ b && b ≤ '9'.toUInt8

/-- The bytes that start a word. -/
def isLetterByte (b : UInt8) : Bool :=
  'a'.toUInt8 ≤ b && b ≤ 'z'.toUInt8 || 'A'.toUInt8 ≤ b && b ≤ 'Z'.toUInt8 || b == '_'.toUInt8

/-- The bytes that continue a word. -/
def isWordByte (b : UInt8) : Bool := isLetterByte b || isDigitByte b

/-- What the first byte of a lexeme says about it. -/
inductive Lead where
  | sole (m : Mark)
  /-- A mark that an equals sign behind it makes the other one. -/
  | equal (longer m : Mark)
  | slash | blank | feed | quote | digit | letter | other
  deriving DecidableEq

/-- What a byte says when it is the first one. -/
def Lead.of (b : UInt8) : Lead :=
  match soleMarks.find? (·.1.toUInt8 == b), equalMarks.find? (·.1.toUInt8 == b) with
  | some (_, m), _ => .sole m
  | none, some (_, longer, m) => .equal longer m
  | none, none =>
    if b = '/'.toUInt8 then .slash
    else if b = ' '.toUInt8 ∨ b = '\r'.toUInt8 ∨ b = '\t'.toUInt8 then .blank
    else if b = '\n'.toUInt8 then .feed
    else if b = '"'.toUInt8 then .quote
    else if isDigitByte b then .digit
    else if isLetterByte b then .letter
    else .other

/-! ## Lexemes

What follows reads one lexeme.  A kind that is recognised is kept for the caller; the result is the
complaint, if there is one. -/

/-- Keeps what was recognised. -/
def recognise (kind : Kind) : ByteReader (Option Item) := fun _ s =>
  .read none { s with pending := some kind }

/-- Complains on the current line. -/
def complain (cause : LexicalCause) : ByteReader (Option Item) := fun _ s =>
  .read (some (.complaint s.line cause)) s

/-- A line comment: up to the next line feed, or to the end. -/
def lineComment : ByteReader (Option Item) := do
  let behind ← rest
  skip ((behind.findIdx? (· == '\n'.toUInt8)).getD behind.length)
  pure none

/-- The place of the first `*/`: one star after the other, until a slash stands behind it. -/
def closeOf (bytes : List UInt8) : Option Nat :=
  (bytes.idxsOf '*'.toUInt8).find? fun i => bytes[i + 1]? == some '/'.toUInt8

/-- A block comment, behind its `/*`. -/
def blockComment : ByteReader (Option Item) := do
  let behind ← rest
  let close := closeOf behind
  let consumed := close.elim behind.length (· + 2)
  addLines ((← first behind consumed).count '\n'.toUInt8)
  skip consumed
  match close with
  | some _ => pure none
  | none => complain .openComment

/-- A string literal, behind its first quote. -/
def stringLiteral : ByteReader (Option Item) := do
  let behind ← rest
  match behind.findIdx? (· == '"'.toUInt8) with
  | none =>
    addLines (behind.count '\n'.toUInt8)
    moveTo (← size)
    complain .openString
  | some close =>
    addLines ((← first behind close).count '\n'.toUInt8)
    skip (close + 1)
    let c ← cursor
    let contents ← slice (c.start + 1) (c.curr - 1)
    recognise (.string contents)

/-- A number literal, behind its first digit.  A point belongs to it only if a digit follows. -/
def numberLiteral : ByteReader (Option Item) := do
  advanceWhile isDigitByte
  if (← peekAt 0) = '.'.toUInt8 ∧ isDigitByte (← peekAt 1) then
    skip 1
    advanceWhile isDigitByte
  let c ← cursor
  let text ← slice c.start c.curr
  recognise (.number (literalValue text.toList))

/-- The keyword with some bytes. -/
def keyword? (bytes : List UInt8) : Option Keyword :=
  Keyword.all.find? fun k => bytesOf k.spelling == bytes

/-- A word, behind its first letter. -/
def word : ByteReader (Option Item) := do
  advanceWhile isWordByte
  let c ← cursor
  let bytes ← bytesBetween c.start c.curr
  recognise ((keyword? bytes).elim .identifier .keyword)

/-- A mark that may become another one. -/
def markWithEqual (longer m : Mark) : ByteReader (Option Item) := do
  if (← peekAt 0) = '='.toUInt8 then
    skip 1
    recognise (.mark longer)
  else recognise (.mark m)

/-- A comment, or a slash. -/
def slash : ByteReader (Option Item) := do
  if (← peekAt 0) = '/'.toUInt8 then lineComment
  else if (← peekAt 0) = '*'.toUInt8 then
    skip 1
    blockComment
  else recognise (.mark .slash)

/-- A character that starts nothing, with all of its bytes. -/
def strayCharacter : ByteReader (Option Item) := do
  let c ← cursor
  let text ← slice c.start (← size)
  let stray := text.toList.head?.getD '\ufffd'
  moveTo (c.start + stray.utf8Size)
  complain (.strayCharacter stray)

/-- What stands behind the first byte of a lexeme. -/
def behindLead : Lead → ByteReader (Option Item)
  | .sole m => recognise (.mark m)
  | .equal longer m => markWithEqual longer m
  | .slash => slash
  | .blank => pure none
  | .feed => do
    addLines 1
    pure none
  | .quote => stringLiteral
  | .digit => numberLiteral
  | .letter => word
  | .other => strayCharacter

/-- One lexeme. -/
def lexeme : ByteReader (Option Item) := do
  behindLead (Lead.of (← advance))

/-! ## Items -/

/-- Starts a lexeme where the reader stands. -/
def startLexeme : ByteReader Unit := fun _ s => .read () { s with start := s.curr, pending := none }

/-- Takes what was recognised. -/
def takePending : ByteReader (Option Kind) := fun _ s =>
  .read s.pending { s with pending := none }

/-- **The next item**, if there is one, over at most so many lexemes. -/
def next : Nat → ByteReader (Option Item)
  | 0 => exhausted
  | n + 1 => do
    let c ← cursor
    let length ← size
    if c.curr ≤ length then
      if c.curr = length then
        skip 1
        pure (some (.token ⟨.eof, "", c.line⟩))
      else
        startLexeme
        match ← lexeme with
        | some complaint => pure (some complaint)
        | none =>
          match ← takePending with
          | some kind =>
            let c ← cursor
            let text ← slice c.start c.curr
            pure (some (.token ⟨kind, text, c.line⟩))
          | none => next n
    else pure none

/-- So many calls, one after the other, each of them over at most so many lexemes. -/
def calls (fuel : Nat) : Nat → ByteReader (List (Option Item))
  | 0 => pure []
  | k + 1 => do
    let item ← next fuel
    let others ← calls fuel k
    pure (item :: others)

end ByteReader

/-- Where a reader of bytes starts. -/
def ByteCursor.initial : ByteCursor := ⟨0, 0, 1, none⟩

end LoxLang
