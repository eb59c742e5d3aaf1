import LoxLang.Number.Text
import LoxLang.Token.Segment

/-!
# From segments to tokens

Each segment of a source is skipped, gives a token, or gives a complaint.  The line of a token or
complaint is the one on which its segment ends, and is read off the segments by a running count.
Blanks, block comments and strings are where the count goes on; no other segment reaches over a line
feed, so the count is that of all line feeds (`linesPassed_nextSegment`).  After the last segment
comes the token for the end of the source.

Complaints never stop the reading: the offending piece is a segment like any other.
-/

namespace LoxLang

/-- Why a piece of source text is no token. -/
inductive LexicalCause where
  | strayCharacter (c : Char)
  | openString
  | openComment
  deriving DecidableEq, Repr

/-- The wording of a lexical complaint. -/
def LexicalCause.message : LexicalCause → String
  | .strayCharacter c => "Unexpected character: '" ++ String.ofList [c] ++ "'"
  | .openString => "Unterminated string."
  | .openComment => "Unterminated block comment."

/-- What a source is read as: tokens, and complaints between them. -/
inductive Item where
  | token (t : Token)
  | complaint (line : Nat) (cause : LexicalCause)
  deriving DecidableEq

/-- The kind of a word: a keyword if it spells one, and otherwise a name. -/
def Kind.ofWord (word : String) : Kind :=
  match Keyword.ofWord? word with
  | some k => .keyword k
  | none => .identifier

/-- The number that a literal writes. -/
def literalValue (text : List Char) : Float :=
  match Number.decimal? text with
  | some d => d.toFloat
  | none => 0

/-- The characters between the quotes of a string literal. -/
def unquote (text : List Char) : List Char := text.tail.dropLast

/-- What a segment that ends on `line` gives. -/
def Segment.item? (line : Nat) (s : Segment) : Option Item :=
  let lexeme := String.ofList s.text
  match s.cls with
  | .blank | .lineComment | .blockComment => none
  | .openComment => some (.complaint line .openComment)
  | .openString => some (.complaint line .openString)
  | .string => some (.token ⟨.string (String.ofList (unquote s.text)), lexeme, line⟩)
  | .number => some (.token ⟨.number (literalValue s.text), lexeme, line⟩)
  | .word => some (.token ⟨.ofWord lexeme, lexeme, line⟩)
  | .mark m => some (.token ⟨.mark m, lexeme, line⟩)
  | .stray => s.text.head?.map fun c => .complaint line (.strayCharacter c)

/-- How many line feeds a text holds. -/
def lineFeeds (cs : List Char) : Nat := cs.count '\n'

/-- How many lines further down a segment ends than it starts.  A blank that is a line feed counts
for one, and the line feeds in block comments and strings are counted, whether these end or not. -/
def Segment.linesPassed (s : Segment) : Nat :=
  match s.cls with
  | .blank => if s.text = ['\n'] then 1 else 0
  | .blockComment | .openComment | .string | .openString => lineFeeds s.text
  | .lineComment | .number | .word | .mark _ | .stray => 0

/-- The items of segments that start on `line`, with the end of the source behind them. -/
def itemsFrom (line : Nat) : List Segment → List Item
  | [] => [.token ⟨.eof, "", line⟩]
  | s :: rest =>
    let after := line + s.linesPassed
    match s.item? after with
    | some item => item :: itemsFrom after rest
    | none => itemsFrom after rest

/-- **The items of a source**, in order, ending with the token for its end. -/
def scan (source : String) : List Item := itemsFrom 1 (segments source.toList)

/-- The token of an item. -/
def Item.token? : Item → Option Token
  | .token t => some t
  | .complaint .. => none

/-- The tokens of a source.  The last one is the end of the source, and no other is. -/
def tokensOf (source : String) : List Token := (scan source).filterMap Item.token?

/-! ## Lines are counted by line feeds -/

theorem lineFeeds_eq_zero {cs : List Char} (h : '\n' ∉ cs) : lineFeeds cs = 0 :=
  List.count_eq_zero.mpr h

theorem lineFeeds_cons_of_ne {c : Char} (h : c ≠ '\n') (cs : List Char) :
    lineFeeds (c :: cs) = lineFeeds cs := List.count_cons_of_ne h

theorem lineFeeds_append (cs cs' : List Char) :
    lineFeeds (cs ++ cs') = lineFeeds cs + lineFeeds cs' := List.count_append

/-- A run of characters that are no line feeds does not reach over one. -/
theorem not_mem_takeWhile_of_feed {p : Char → Bool} (hp : p '\n' = false) (cs : List Char) :
    '\n' ∉ cs.takeWhile p := by
  intro hmem
  have hkept := List.all_eq_true.mp List.all_takeWhile _ hmem
  rw [hp] at hkept
  cases hkept

theorem linesPassed_numberSegment {c : Char} (hc : c ≠ '\n') (cs : List Char) :
    (numberSegment c cs).1.linesPassed = lineFeeds (numberSegment c cs).1.text := by
  have hwhole := not_mem_takeWhile_of_feed (p := Char.isDigit) (by decide) cs
  unfold numberSegment
  split
  · next d after _ =>
    have hplaces := not_mem_takeWhile_of_feed (p := Char.isDigit) (by decide) after
    split
    · next hd =>
      have hfeed : d ≠ '\n' := by
        rintro rfl
        exact absurd hd (by decide)
      exact (lineFeeds_eq_zero (by simp [Ne.symm hc, Ne.symm hfeed, hwhole, hplaces])).symm
    · exact (lineFeeds_eq_zero (by simp [Ne.symm hc, hwhole])).symm
  · exact (lineFeeds_eq_zero (by simp [Ne.symm hc, hwhole])).symm

theorem linesPassed_markSegment {c : Char} (hc : c ≠ '\n') (cs : List Char) :
    (markSegment c cs).1.linesPassed = lineFeeds (markSegment c cs).1.text := by
  unfold markSegment
  split
  · exact (lineFeeds_eq_zero (by simp [Ne.symm hc])).symm
  · split
    · exact (lineFeeds_eq_zero (by simp [Ne.symm hc])).symm
    · exact (lineFeeds_eq_zero (by simp [Ne.symm hc])).symm

theorem linesPassed_blockCommentSegment (cs : List Char) :
    (blockCommentSegment cs).1.linesPassed = lineFeeds (blockCommentSegment cs).1.text := by
  unfold blockCommentSegment
  split <;> rfl

theorem linesPassed_stringSegment (cs : List Char) :
    (stringSegment cs).1.linesPassed = lineFeeds (stringSegment cs).1.text := by
  unfold stringSegment
  split <;> rfl

/-- **A segment ends as many lines further down as it has line feeds.** -/
theorem linesPassed_nextSegment (c : Char) (cs : List Char) :
    (nextSegment c cs).1.linesPassed = lineFeeds (nextSegment c cs).1.text := by
  unfold nextSegment
  by_cases hgap : isGap c = true
  · rw [if_pos hgap]
    simp [Segment.linesPassed, lineFeeds, List.count_singleton]
  have hc : c ≠ '\n' := by
    rintro rfl
    exact hgap rfl
  rw [if_neg hgap]
  split
  · exact linesPassed_stringSegment cs
  · split
    · exact linesPassed_numberSegment hc cs
    · split
      · have hword := not_mem_takeWhile_of_feed (p := isWordPart) (by decide) cs
        exact (lineFeeds_eq_zero (by simp [wordSegment, Ne.symm hc, hword])).symm
      · split
        · split
          · next rest =>
            have hline := not_mem_takeWhile_of_feed (p := (· ≠ '\n')) (by decide) rest
            have hslashes : '\n' ∉ ['/', '/'] := by decide
            exact (lineFeeds_eq_zero (List.not_mem_append hslashes hline)).symm
          · exact linesPassed_blockCommentSegment _
          · exact linesPassed_markSegment hc _
        · exact linesPassed_markSegment hc cs

end LoxLang
