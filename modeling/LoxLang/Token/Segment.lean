import LoxLang.Token.Basic

/-!
# Source text cut into segments

A source is cut from left to right into segments: blanks, comments, literals, words, marks, and
the pieces that are none of these.  Every character belongs to exactly one segment, so putting
the segments together gives the source back, and each segment is as long as its class allows.

The cut knows nothing of lines and payloads.  Those are read off the segments afterwards, which
keeps the choice of the next segment a function of the text alone.
-/

namespace LoxLang

/-- The classes of segments.  A string or a block comment without its end is a class of its own
and reaches to the end of the source. -/
inductive SegmentClass where
  | blank
  | lineComment
  | blockComment
  | openComment
  | string
  | openString
  | number
  | word
  | mark (m : Mark)
  | stray
  deriving DecidableEq, Repr

/-- A piece of source text with its class. -/
structure Segment where
  cls : SegmentClass
  text : List Char
  deriving DecidableEq, Repr

/-! ## Characters -/

/-- Blanks between tokens. -/
def isGap (c : Char) : Bool := c = ' ' || c = '\t' || c = '\r' || c = '\n'

/-- Characters that start a word. -/
def isWordStart (c : Char) : Bool := c.isAlpha || c = '_'

/-- Characters that continue a word. -/
def isWordPart (c : Char) : Bool := c.isAlphanum || c = '_'

/-- The mark that a single character writes. -/
def Mark.ofChar? (c : Char) : Option Mark :=
  if c = '(' then some .leftParen
  else if c = ')' then some .rightParen
  else if c = '\x7b' then some .leftBrace
  else if c = '\x7d' then some .rightBrace
  else if c = ',' then some .comma
  else if c = '.' then some .dot
  else if c = '-' then some .minus
  else if c = '+' then some .plus
  else if c = ';' then some .semicolon
  else if c = '/' then some .slash
  else if c = '*' then some .star
  else if c = '!' then some .bang
  else if c = '=' then some .equal
  else if c = '>' then some .greater
  else if c = '<' then some .less
  else none

/-- The mark that a mark becomes with an equals sign behind it. -/
def Mark.withEqual? : Mark → Option Mark
  | .bang => some .bangEqual
  | .equal => some .equalEqual
  | .greater => some .greaterEqual
  | .less => some .lessEqual
  | _ => none

/-! ## The next segment

Each function below is given the text behind the first character of a segment and splits off the
rest of that segment. -/

/-- The text up to and with the first `*/`, and what follows it. -/
def splitClose : List Char → Option (List Char × List Char)
  | [] => none
  | '*' :: '/' :: rest => some (['*', '/'], rest)
  | c :: rest => (splitClose rest).map fun (body, after) => (c :: body, after)

/-- A line comment: up to the next line feed, which is left where it is. -/
def lineCommentSegment (cs : List Char) : Segment × List Char :=
  (⟨.lineComment, '/' :: '/' :: cs.takeWhile (· ≠ '\n')⟩, cs.dropWhile (· ≠ '\n'))

/-- A block comment, up to and with the first `*/` behind the `/*`. -/
def blockCommentSegment (cs : List Char) : Segment × List Char :=
  match splitClose cs with
  | some (body, rest) => (⟨.blockComment, '/' :: '*' :: body⟩, rest)
  | none => (⟨.openComment, '/' :: '*' :: cs⟩, [])

/-- A string literal, up to and with the next quote. -/
def stringSegment (cs : List Char) : Segment × List Char :=
  match cs.dropWhile (· ≠ '"') with
  | _ :: rest => (⟨.string, '"' :: (cs.takeWhile (· ≠ '"') ++ ['"'])⟩, rest)
  | [] => (⟨.openString, '"' :: cs⟩, [])

/-- A number: digits, and a point with more digits if a digit follows the point. -/
def numberSegment (c : Char) (cs : List Char) : Segment × List Char :=
  let whole := cs.takeWhile Char.isDigit
  match cs.dropWhile Char.isDigit with
  | '.' :: d :: after =>
    if d.isDigit then
      (⟨.number, c :: (whole ++ '.' :: d :: after.takeWhile Char.isDigit)⟩,
        after.dropWhile Char.isDigit)
    else (⟨.number, c :: whole⟩, '.' :: d :: after)
  | rest => (⟨.number, c :: whole⟩, rest)

/-- A word: a letter or underscore with letters, digits and underscores behind it. -/
def wordSegment (c : Char) (cs : List Char) : Segment × List Char :=
  (⟨.word, c :: cs.takeWhile isWordPart⟩, cs.dropWhile isWordPart)

/-- A mark of one or two characters, the longer one if both fit; or a stray character. -/
def markSegment (c : Char) (cs : List Char) : Segment × List Char :=
  match Mark.ofChar? c with
  | none => (⟨.stray, [c]⟩, cs)
  | some m =>
    match m.withEqual?, cs with
    | some longer, '=' :: rest => (⟨.mark longer, [c, '=']⟩, rest)
    | _, _ => (⟨.mark m, [c]⟩, cs)

/-- **The next segment** of a text that starts with `c`, and what follows it. -/
def nextSegment (c : Char) (cs : List Char) : Segment × List Char :=
  if isGap c then (⟨.blank, [c]⟩, cs)
  else if c = '"' then stringSegment cs
  else if c.isDigit then numberSegment c cs
  else if isWordStart c then wordSegment c cs
  else if c = '/' then
    match cs with
    | '/' :: rest => lineCommentSegment rest
    | '*' :: rest => blockCommentSegment rest
    | _ => markSegment c cs
  else markSegment c cs

/-! ## Nothing is lost -/

theorem append_of_splitClose {cs body rest : List Char} (h : splitClose cs = some (body, rest)) :
    body ++ rest = cs := by
  fun_induction splitClose cs generalizing body rest with
  | case1 => simp at h
  | case2 after =>
    simp only [Option.some.injEq, Prod.mk.injEq] at h
    obtain ⟨rfl, rfl⟩ := h
    rfl
  | case3 c cs _ ih =>
    obtain ⟨⟨body', rest'⟩, hsplit, heq⟩ := Option.map_eq_some_iff.1 h
    simp only [Prod.mk.injEq] at heq
    obtain ⟨rfl, rfl⟩ := heq
    simp [ih hsplit]

theorem lineCommentSegment_append (cs : List Char) :
    (lineCommentSegment cs).1.text ++ (lineCommentSegment cs).2 = '/' :: '/' :: cs := by
  simp [lineCommentSegment]

theorem blockCommentSegment_append (cs : List Char) :
    (blockCommentSegment cs).1.text ++ (blockCommentSegment cs).2 = '/' :: '*' :: cs := by
  unfold blockCommentSegment
  split
  · next h => simp [append_of_splitClose h]
  · simp

/-- Behind the characters that are no quote stands a quote, if anything. -/
theorem eq_quote_of_dropWhile {cs rest : List Char} {q : Char}
    (h : cs.dropWhile (· ≠ '"') = q :: rest) : q = '"' := by
  have hne : cs.dropWhile (· ≠ '"') ≠ [] := by
    rw [h]
    exact List.cons_ne_nil q rest
  have hhead := List.head_dropWhile_not (· ≠ '"') hne
  have hq : (cs.dropWhile (· ≠ '"')).head hne = q := by simp only [h, List.head_cons]
  rw [hq] at hhead
  simpa using hhead

theorem stringSegment_append (cs : List Char) :
    (stringSegment cs).1.text ++ (stringSegment cs).2 = '"' :: cs := by
  unfold stringSegment
  split
  · next q rest h =>
    have hq := eq_quote_of_dropWhile h
    subst hq
    have happ : cs.takeWhile (· ≠ '"') ++ cs.dropWhile (· ≠ '"') = cs :=
      List.takeWhile_append_dropWhile
    rw [h] at happ
    simpa using happ
  · simp

theorem numberSegment_append (c : Char) (cs : List Char) :
    (numberSegment c cs).1.text ++ (numberSegment c cs).2 = c :: cs := by
  have happ : cs.takeWhile Char.isDigit ++ cs.dropWhile Char.isDigit = cs :=
    List.takeWhile_append_dropWhile
  unfold numberSegment
  split
  · next d after h =>
    rw [h] at happ
    split <;> simp [happ]
  · simp

theorem wordSegment_append (c : Char) (cs : List Char) :
    (wordSegment c cs).1.text ++ (wordSegment c cs).2 = c :: cs := by
  simp [wordSegment]

theorem markSegment_append (c : Char) (cs : List Char) :
    (markSegment c cs).1.text ++ (markSegment c cs).2 = c :: cs := by
  unfold markSegment
  split
  · simp
  · split <;> simp

/-- The next segment and what follows it are the text. -/
theorem nextSegment_append (c : Char) (cs : List Char) :
    (nextSegment c cs).1.text ++ (nextSegment c cs).2 = c :: cs := by
  unfold nextSegment
  split
  · simp
  · split
    · next h => simp [h, stringSegment_append]
    · split
      · exact numberSegment_append c cs
      · split
        · exact wordSegment_append c cs
        · split
          · next h =>
            subst h
            split
            · exact lineCommentSegment_append _
            · exact blockCommentSegment_append _
            · exact markSegment_append _ _
          · exact markSegment_append c cs

/-- A segment has a character at least. -/
theorem text_nextSegment_ne_nil (c : Char) (cs : List Char) : (nextSegment c cs).1.text ≠ [] := by
  unfold nextSegment stringSegment numberSegment markSegment blockCommentSegment
  repeat' split
  all_goals exact List.cons_ne_nil _ _

theorem length_nextSegment_le (c : Char) (cs : List Char) :
    (nextSegment c cs).2.length ≤ cs.length := by
  have happ := congrArg List.length (nextSegment_append c cs)
  have hpos := List.length_pos_iff.2 (text_nextSegment_ne_nil c cs)
  simp only [List.length_append, List.length_cons] at happ
  omega

/-! ## All segments -/

/-- Cuts at most `fuel` segments off a text. -/
def cutSegments : Nat → List Char → List Segment
  | 0, _ => []
  | _ + 1, [] => []
  | fuel + 1, c :: cs =>
    let (segment, rest) := nextSegment c cs
    segment :: cutSegments fuel rest

/-- The segments of a text.  Every segment has a character at least, so there are no more of them
than characters. -/
def segments (cs : List Char) : List Segment := cutSegments cs.length cs

/-- Fuel for every character is enough, and more changes nothing. -/
theorem cutSegments_eq {fuel more : Nat} {cs : List Char} (h : cs.length ≤ fuel)
    (h' : cs.length ≤ more) : cutSegments fuel cs = cutSegments more cs := by
  induction fuel generalizing more cs with
  | zero =>
    have : cs = [] := List.eq_nil_of_length_eq_zero (by omega)
    subst this
    cases more <;> rfl
  | succ fuel ih =>
    cases cs with
    | nil => cases more <;> rfl
    | cons c cs =>
      obtain ⟨more, rfl⟩ : ∃ k, more = k + 1 := ⟨more - 1, by simp at h'; omega⟩
      have hle := length_nextSegment_le c cs
      simp only [List.length_cons] at h h'
      simp only [cutSegments]
      exact congrArg _ (ih (by omega) (by omega))

@[simp] theorem segments_nil : segments [] = [] := rfl

theorem segments_cons (c : Char) (cs : List Char) :
    segments (c :: cs) = (nextSegment c cs).1 :: segments (nextSegment c cs).2 := by
  have hle := length_nextSegment_le c cs
  simp only [segments, List.length_cons, cutSegments]
  rw [cutSegments_eq hle (Nat.le_refl _)]

/-- **The segments of a text put together are the text.** -/
theorem flatMap_text_segments (cs : List Char) : (segments cs).flatMap Segment.text = cs := by
  induction h : cs.length using Nat.strongRecOn generalizing cs with
  | _ n ih =>
    cases cs with
    | nil => rfl
    | cons c cs =>
      have hle := length_nextSegment_le c cs
      rw [segments_cons, List.flatMap_cons,
        ih (nextSegment c cs).2.length (by simp at h; omega) _ rfl, nextSegment_append]

end LoxLang
