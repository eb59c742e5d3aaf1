import LoxLang.Proofs.Token.Division

/-!
# Reading tokens back from their texts

The texts of the tokens of a source, with a blank between each two, are a source again, and it has
the same tokens.  Comments, blanks and what was complained about are gone, so this source has no
complaint, also if the first one had some.

What a segment of the lexical grammar needs of the text behind it is that the segment could not be
longer.  A blank makes no segment longer that gives a token (`Segment.StandsBefore.before_blank`):
a string is complete in itself, and neither a number nor a word nor a mark has a blank in it.  So
the segments that give tokens, each with a blank behind it, are a division of the text that they
make together, and there is only one.

Nothing is said about lines, which change: only a line feed inside a string is kept.
-/

namespace LoxLang

/-- Does a segment of the class give a token? -/
def SegmentClass.isToken : SegmentClass → Bool
  | .string | .number | .word | .mark _ => true
  | _ => false

/-- What a token was read as, its line left aside: the kind, with the payload, and the text. -/
def Token.reading (t : Token) : Kind × String := (t.kind, t.lexeme)

/-- What the token of a segment is read as. -/
def Segment.reading? (s : Segment) : Option (Kind × String) :=
  ((s.item? 1).bind Item.token?).map Token.reading

/-- The segments that give tokens, with a blank behind each. -/
def respaced (l : List Segment) : List Segment :=
  (l.filter (·.cls.isToken)).flatMap fun s => [s, ⟨.blank, [' ']⟩]

/-! ## Tokens of segments -/

section Readings

variable {s : Segment}

/-- The line of a segment has no influence on what its token is read as. -/
lemma Segment.reading?_eq (s : Segment) (line : Nat) :
    s.reading? = ((s.item? line).bind Item.token?).map Token.reading := by
  rcases s with ⟨cls, text⟩
  cases cls
  case stray => cases text <;> rfl
  all_goals rfl

lemma Segment.reading?_of_isToken (h : s.cls.isToken = true) :
    ∃ kind, s.reading? = some (kind, .ofList s.text) := by
  rcases s with ⟨cls, text⟩
  cases cls
  case string | number | word | mark => exact ⟨_, rfl⟩
  all_goals cases h

lemma Segment.reading?_of_not_isToken (h : s.cls.isToken = false) : s.reading? = none := by
  rcases s with ⟨cls, text⟩
  cases cls
  case string | number | word | mark => cases h
  case stray => cases text <;> rfl
  all_goals rfl

/-- The tokens of segments are read one by one, and the end of the source stands behind them. -/
lemma map_reading_itemsFrom (line : Nat) (l : List Segment) :
    ((itemsFrom line l).filterMap Item.token?).map Token.reading =
      l.filterMap Segment.reading? ++ [(.eof, "")] := by
  induction l generalizing line with
  | nil => rfl
  | cons s rest ih =>
    have hs := s.reading?_eq (line + s.linesPassed)
    rw [itemsFrom, List.filterMap_cons, hs]
    cases s.item? (line + s.linesPassed) with
    | none => exact ih _
    | some item =>
      cases item with
      | complaint => exact ih _
      | token t => exact congrArg (t.reading :: ·) (ih _)

end Readings

/-! ## Segments with blanks between them -/

section Respaced

variable {s : Segment} {rest : List Char}

lemma respaced_cons_of_isToken (h : s.cls.isToken = true) (l : List Segment) :
    respaced (s :: l) = s :: ⟨.blank, [' ']⟩ :: respaced l := by
  rw [respaced, List.filter_cons_of_pos (p := fun s : Segment => s.cls.isToken) h]
  rfl

lemma respaced_cons_of_not_isToken (h : s.cls.isToken = false) (l : List Segment) :
    respaced (s :: l) = respaced l := by
  have hneg : ¬s.cls.isToken = true := by simp [h]
  rw [respaced, List.filter_cons_of_neg (p := fun s : Segment => s.cls.isToken) hneg, respaced]

lemma filterMap_reading?_respaced (l : List Segment) :
    (respaced l).filterMap Segment.reading? = l.filterMap Segment.reading? := by
  induction l with
  | nil => rfl
  | cons s l ih =>
    cases hs : s.cls.isToken with
    | true =>
      have hblank : Segment.reading? ⟨.blank, [' ']⟩ = none := rfl
      rw [respaced_cons_of_isToken hs, List.filterMap_cons, List.filterMap_cons_none hblank, ih,
        List.filterMap_cons]
    | false =>
      rw [respaced_cons_of_not_isToken hs, ih,
        List.filterMap_cons_none (Segment.reading?_of_not_isToken hs)]

lemma flatMap_text_respaced (l : List Segment) :
    (respaced l).flatMap Segment.text =
      (l.filterMap Segment.reading?).flatMap fun reading => reading.2.toList ++ [' '] := by
  induction l with
  | nil => rfl
  | cons s l ih =>
    cases hs : s.cls.isToken with
    | true =>
      obtain ⟨kind, hreading⟩ := Segment.reading?_of_isToken hs
      rw [respaced_cons_of_isToken hs, List.flatMap_cons, List.flatMap_cons, ih,
        List.filterMap_cons_some hreading, List.flatMap_cons, String.toList_ofList,
        List.append_assoc]
    | false =>
      rw [respaced_cons_of_not_isToken hs, ih,
        List.filterMap_cons_none (Segment.reading?_of_not_isToken hs)]

/-- A run that has no blank in it ends before a blank. -/
lemma endsRun_blank {p : Char → Prop} (h : ¬p ' ') (rest : List Char) :
    EndsRun p (' ' :: rest) := by
  rintro c hc
  cases hc
  exact h

/-- **A segment that gives a token may stand before a blank**, whatever it stood before. -/
lemma Segment.StandsBefore.before_blank (h : s.StandsBefore rest) (htoken : s.cls.isToken = true)
    (rest' : List Char) : s.StandsBefore (' ' :: rest') := by
  have hnumeral : ¬IsNumeral ' ' := by simp [← isDigit_iff]
  have hletter : ¬IsLetter ' ' := by simp [← isWordStart_iff, isWordStart, Char.isAlpha]
  have hpoint : ∀ after, ' ' :: rest' = '.' :: after → EndsRun IsNumeral after := by simp
  cases h
  case string hbody => exact .string hbody
  case whole hne hdigits _ _ => exact .whole hne hdigits (endsRun_blank hnumeral _) hpoint
  case fraction hwhole hplaces hdigits _ =>
    exact .fraction hwhole hplaces hdigits (endsRun_blank hnumeral _)
  case word hc hcs _ => exact .word hc hcs (endsRun_blank (by tauto) _)
  case mark m _ _ =>
    refine .mark (fun other hother => ?_) fun _ => endsRun_blank (by decide) _
    -- A longer mark would have a blank behind the text of this one.
    rcases m.spelling_cases with ⟨c, hc, -⟩ | ⟨c, short, hc, -, -⟩
    · rcases other.spelling_cases with ⟨d, hd, -⟩ | ⟨d, short, hd, -, -⟩
      · simp [hc, hd]
      · simp [hc, hd] at hother
    · have hlength := other.length_spelling_le
      simpa [hc] using hlength
  all_goals cases htoken

/-- The segments that give tokens are a division of the text that they make with blanks. -/
lemma Divided.respaced {cs : List Char} {l : List Segment} (h : Divided cs l) :
    Divided ((respaced l).flatMap Segment.text) (respaced l) := by
  induction h with
  | nil => exact .nil
  | @cons s rest l hs _ ih =>
    cases htoken : s.cls.isToken with
    | true =>
      rw [respaced_cons_of_isToken htoken, List.flatMap_cons, List.flatMap_cons]
      refine .cons (hs.before_blank htoken _) ?_
      exact .cons (.blank (by simp)) ih
    | false =>
      rwa [respaced_cons_of_not_isToken htoken]

/-- Segments that give tokens, and blanks, are not complained about. -/
lemma diagnostic?_itemsFrom_respaced (line : Nat) (l : List Segment) :
    (itemsFrom line (respaced l)).filterMap Item.diagnostic? = [] := by
  induction l generalizing line with
  | nil => rfl
  | cons s l ih =>
    cases hs : s.cls.isToken with
    | true =>
      rw [respaced_cons_of_isToken hs]
      rcases s with ⟨cls, text⟩
      cases cls
      case string | number | word | mark => exact ih _
      all_goals cases hs
    | false =>
      rw [respaced_cons_of_not_isToken hs]
      exact ih line

end Respaced

/-! ## The texts of tokens -/

/-- The words of a list, each with a blank behind it. -/
lemma toList_intercalate_blank (words : List String) :
    (String.intercalate " " (words ++ [""])).toList =
      words.flatMap fun word => word.toList ++ [' '] := by
  induction words with
  | nil => rfl
  | cons word words ih =>
    rcases hrest : words ++ [""] with _ | ⟨next, rest⟩
    · simp at hrest
    · rw [hrest] at ih
      rw [List.cons_append, hrest, String.intercalate_cons_cons, String.toList_append,
        String.toList_append, ih, List.flatMap_cons]
      rfl

/-- **The texts of the tokens give the tokens back.**  Put together with single blanks, they are a
source without complaints, whose tokens have the same kinds, payloads and texts, in order. -/
theorem tokensOf_respaced (source : String) :
    let texts := String.intercalate " " ((tokensOf source).map Token.lexeme)
    lexicalLog texts = [] ∧ (∀ line cause, .complaint line cause ∉ scan texts) ∧
      (tokensOf texts).map Token.reading = (tokensOf source).map Token.reading := by
  intro texts
  have hreadings : (tokensOf source).map Token.reading =
      (segments source.toList).filterMap Segment.reading? ++ [(.eof, "")] :=
    map_reading_itemsFrom 1 (segments source.toList)
  have hlexemes : (tokensOf source).map Token.lexeme =
      ((segments source.toList).filterMap Segment.reading?).map Prod.snd ++ [""] := by
    have hsnd := congrArg (List.map Prod.snd) hreadings
    rwa [List.map_map, List.map_append] at hsnd
  have htexts : texts.toList = (respaced (segments source.toList)).flatMap Segment.text := by
    rw [flatMap_text_respaced, ← List.flatMap_map Prod.snd fun word : String =>
      word.toList ++ [' '], ← toList_intercalate_blank, ← hlexemes]
  have hsegments : segments texts.toList = respaced (segments source.toList) := by
    rw [htexts]
    exact (divided_segments source.toList).respaced.eq_segments.symm
  have hquiet : lexicalLog texts = [] := by
    rw [lexicalLog, scan, hsegments]
    exact diagnostic?_itemsFrom_respaced 1 (segments source.toList)
  refine ⟨hquiet, fun line cause hmem => ?_, ?_⟩
  · have hdiagnostic := List.filterMap_eq_nil_iff.mp hquiet _ hmem
    cases hdiagnostic
  · have hagain : (tokensOf texts).map Token.reading =
        (segments texts.toList).filterMap Segment.reading? ++ [(.eof, "")] :=
      map_reading_itemsFrom 1 (segments texts.toList)
    rw [hagain, hsegments, filterMap_reading?_respaced, hreadings]

end LoxLang
