import LoxLang.Proofs.Token.Bytes

/-!
# Reading byte by byte is cutting into segments

The reader of bytes and the cut of a text are separate code.  Started at a segment, the reader ends
behind it, on the line where it ends, with the complaint or the kind that the segment gives
(`ByteReader.lexeme_eq`).  There is one lemma for each class of segments, and the first character
decides which one applies.

From one lexeme to the next, what the reader has still to give is what the segments ahead of it give
(`ByteReader.HasLeft`).  A call either uses up its fuel, which then was less than what was left to
read, or takes the first item of these.  So the calls on a source give its items, and neither of the
accidents that a reader of bytes could have ever happens.
-/

namespace LoxLang

open String (utf8EncodeChar)

/-! ## One lexeme -/

/-- What kind of token an item is. -/
def Item.kind? : Item → Option Kind
  | .token t => some t.kind
  | .complaint .. => none

/-- The complaint that an item is. -/
def Item.complaint? : Item → Option Item
  | .token _ => none
  | .complaint line cause => some (.complaint line cause)

/-- **What the reader makes of a segment** that starts at a place on a line: it stands behind the
segment, on the line where that ends, with the complaint that the segment gives, or with the kind of
the token. -/
def Segment.outcome (start line : Nat) (s : Segment) : ByteOutcome (Option Item) :=
  .read ((s.item? (line + s.linesPassed)).bind Item.complaint?)
    ⟨start, start + byteLength s.text, line + s.linesPassed,
      (s.item? (line + s.linesPassed)).bind Item.kind?⟩

namespace ByteReader

section Places

variable {source : String} {before cs : List Char} {s : ByteCursor}

lemma length_bytesOf (source : String) : (bytesOf source).length = byteLength source.toList := by
  rw [bytesOf_eq, byteLength]

lemma bytesBetween_eq {text after : List Char} (h : source.toList = before ++ text ++ after)
    {a b : Nat} (ha : a = byteLength before) (hb : b = byteLength (before ++ text)) :
    bytesBetween a b source s = .read (encoded text) s := by
  have hle : a ≤ b ∧ b ≤ (bytesOf source).length := by
    rw [length_bytesOf, h, byteLength_append (before ++ text), ← hb, hb, byteLength_append, ha]
    exact ⟨Nat.le_add_right _ _, Nat.le_add_right _ _⟩
  rw [bytesBetween, if_pos hle, bytesOf_eq, h, encoded_append, encoded_append, ha, hb, byteLength,
    byteLength, encoded_append, List.take_left, List.drop_left]

lemma rest_eq (h : source.toList = before ++ cs) (hs : s.curr = byteLength before) :
    rest source s = .read (encoded cs) s := by
  rw [← List.append_nil (before ++ cs)] at h
  simp only [rest, run_bind, cursor, size]
  refine bytesBetween_eq h hs ?_
  rw [length_bytesOf, h, List.append_nil]

lemma peekAt_eq (h : source.toList = before ++ cs) (hs : s.curr = byteLength before)
    (offset : Nat) : peekAt offset source s = .read ((encoded cs)[offset]?.getD 0) s := by
  rw [peekAt, bytesOf_eq, h, encoded_append, hs, byteLength,
    List.getElem?_append_right (Nat.le_add_right _ _), Nat.add_sub_cancel_left]

lemma advanceWhile_eq (h : source.toList = before ++ cs) (hs : s.curr = byteLength before)
    {keep : UInt8 → Bool} {p : Char → Bool} (hagree : AgreesWith keep p) :
    advanceWhile keep source s =
      .read () { s with curr := byteLength (before ++ cs.takeWhile p) } := by
  rw [advanceWhile, bytesOf_eq, h, encoded_append, hs, byteLength, endOfRun_eq,
    (takeWhile_encoded hagree cs).1, byteLength_append]
  rfl

lemma first_eq (front back : List Char) (source : String) (s : ByteCursor) :
    first (encoded (front ++ back)) (byteLength front) source s = .read (encoded front) s := by
  have hle : byteLength front ≤ (encoded (front ++ back)).length := by
    rw [encoded_append, List.length_append]
    exact Nat.le_add_right _ _
  rw [first, if_pos hle, encoded_append, byteLength, List.take_left]
  rfl

lemma peek_eq_iff (c₀ : Char) (h₀ : c₀.toNat < 128) (hzero : c₀.toUInt8 ≠ 0) (cs : List Char) :
    (encoded cs)[0]?.getD 0 = c₀.toUInt8 ↔ cs.head? = some c₀ := by
  rw [← head?_encoded_eq_iff h₀, List.head?_eq_getElem?]
  cases (encoded cs)[0]? with
  | none => simpa using hzero.symm
  | some b => simp

lemma isDigitByte_peek (cs : List Char) :
    isDigitByte ((encoded cs)[0]?.getD 0) = cs.head?.any Char.isDigit := by
  cases cs with
  | nil => decide
  | cons c cs =>
    obtain ⟨b, hb, bs, hcons⟩ := exists_encoded_cons c cs
    rw [hcons]
    exact agreesWith_isDigit c b hb

end Places

section Lexemes

variable {source : String} {before cs : List Char} {start line : Nat}

lemma lineComment_eq (h : source.toList = before ++ '/' :: '/' :: cs)
    (hstart : start = byteLength before) :
    lineComment source ⟨start, start + 1, line, none⟩ =
      (lineCommentSegment cs).1.outcome start line := by
  have hbehind : source.toList = (before ++ ['/']) ++ '/' :: cs := by simpa using h
  have hcurr : start + 1 = byteLength (before ++ ['/']) := by
    rw [byteLength_concat_of_lt (by decide), hstart]
  have hjump := jump_encoded '\n' (by decide) ('/' :: cs)
  rw [List.takeWhile_cons_of_pos (by decide), byteLength_cons_of_lt (by decide)] at hjump
  simp only [lineComment, run_bind, rest_eq hbehind (s := ⟨start, start + 1, line, none⟩) hcurr,
    hjump, skip, run_pure, Segment.outcome, lineCommentSegment, Segment.item?, Segment.linesPassed,
    Option.bind_none, byteLength_cons_of_lt (c := '/') (by decide)]
  congr 2
  omega

lemma blockComment_eq (h : source.toList = before ++ '/' :: '*' :: cs)
    (hstart : start = byteLength before) :
    blockComment source ⟨start, start + 2, line, none⟩ =
      (blockCommentSegment cs).1.outcome start line := by
  have hbehind : source.toList = (before ++ ['/'] ++ ['*']) ++ cs := by simpa using h
  have hcurr : start + 2 = byteLength (before ++ ['/'] ++ ['*']) := by
    rw [byteLength_concat_of_lt (by decide), byteLength_concat_of_lt (by decide), hstart]
  have hrest := rest_eq hbehind (s := ⟨start, start + 2, line, none⟩) hcurr
  have hclose := closeOf_encoded cs
  unfold blockCommentSegment
  cases hsplit : splitClose cs with
  | none =>
    rw [hsplit, Option.map_none, Option.map_eq_none_iff] at hclose
    have hfirst : first (encoded cs) (encoded cs).length source ⟨start, start + 2, line, none⟩ =
        .read (encoded cs) ⟨start, start + 2, line, none⟩ := by
      have hall := first_eq cs [] source ⟨start, start + 2, line, none⟩
      rwa [List.append_nil] at hall
    simp only [blockComment, run_bind, hrest, hclose, Option.elim_none, hfirst, addLines,
      count_encoded, skip, complain, Segment.outcome, Segment.item?, Segment.linesPassed,
      Option.bind_some, Item.complaint?, Item.kind?, byteLength_cons_of_lt (c := '/') (by decide),
      byteLength_cons_of_lt (c := '*') (by decide), lineFeeds_cons_of_ne (c := '/') (by decide),
      lineFeeds_cons_of_ne (c := '*') (by decide)]
    congr 2
    show start + 2 + byteLength cs = _
    omega
  | some found =>
    obtain ⟨body, after⟩ := found
    obtain rfl : body ++ after = cs := append_of_splitClose hsplit
    rw [hsplit, Option.map_some, Option.map_eq_some_iff] at hclose
    obtain ⟨i, hi, hlength⟩ := hclose
    have hfirst := first_eq body after source ⟨start, start + 2, line, none⟩
    simp only [blockComment, run_bind, hrest, hi, Option.elim_some, hlength, hfirst, addLines,
      count_encoded, skip, run_pure, Segment.outcome, Segment.item?, Segment.linesPassed,
      Option.bind_none, byteLength_cons_of_lt (c := '/') (by decide),
      byteLength_cons_of_lt (c := '*') (by decide), lineFeeds_cons_of_ne (c := '/') (by decide),
      lineFeeds_cons_of_ne (c := '*') (by decide)]
    congr 2
    omega

lemma stringLiteral_eq (h : source.toList = before ++ '"' :: cs)
    (hstart : start = byteLength before) :
    stringLiteral source ⟨start, start + 1, line, none⟩ =
      (stringSegment cs).1.outcome start line := by
  have hbehind : source.toList = (before ++ ['"']) ++ cs := by simpa using h
  have hcurr : start + 1 = byteLength (before ++ ['"']) := by
    rw [byteLength_concat_of_lt (by decide), hstart]
  have hrest := rest_eq hbehind (s := ⟨start, start + 1, line, none⟩) hcurr
  have hquote := findIdx?_encoded '"' (by decide) cs
  have happ : cs.takeWhile (· ≠ '"') ++ cs.dropWhile (· ≠ '"') = cs :=
    List.takeWhile_append_dropWhile
  unfold stringSegment
  cases hdrop : cs.dropWhile (· ≠ '"') with
  | nil =>
    rw [if_pos hdrop] at hquote
    have hsize : (bytesOf source).length = start + 1 + byteLength cs := by
      rw [length_bytesOf, hbehind, byteLength_append, hcurr]
    simp only [stringLiteral, run_bind, hrest, hquote, addLines, count_encoded, size, hsize, moveTo,
      complain, Segment.outcome, Segment.item?, Segment.linesPassed, Option.bind_some,
      Item.complaint?, Item.kind?, byteLength_cons_of_lt (c := '"') (by decide),
      lineFeeds_cons_of_ne (c := '"') (by decide)]
    congr 2
    omega
  | cons q after =>
    obtain rfl : q = '"' := eq_quote_of_dropWhile hdrop
    rw [if_neg (by rw [hdrop]; exact List.cons_ne_nil _ _)] at hquote
    rw [hdrop] at happ
    -- From here on only what stands between the quotes matters.
    generalize cs.takeWhile (· ≠ '"') = body at happ hquote ⊢
    subst happ
    have hfirst := first_eq body ('"' :: after) source ⟨start, start + 1, line, none⟩
    have hcontents := slice_eq
      (show source.toList = (before ++ ['"']) ++ body ++ '"' :: after by simpa using h) hcurr
      (b := start + 1 + byteLength body) (by rw [byteLength_append, hcurr])
    have hback : start + 1 + (byteLength body + 1) - 1 = start + 1 + byteLength body := by omega
    have hunquote : unquote ('"' :: (body ++ ['"'])) = body := by simp [unquote]
    have hfeeds : lineFeeds (body ++ ['"']) = lineFeeds body := by
      rw [lineFeeds_append]
      rfl
    simp only [stringLiteral, run_bind, hrest, hquote, hfirst, addLines, count_encoded, skip,
      cursor, hback, hcontents, recognise, Segment.outcome, Segment.item?, Segment.linesPassed,
      Option.bind_some, Item.complaint?, Item.kind?, hunquote,
      byteLength_cons_of_lt (c := '"') (by decide), byteLength_concat_of_lt (c := '"') (by decide),
      lineFeeds_cons_of_ne (c := '"') (by decide), hfeeds]
    congr 2
    omega

/-- The bytes show whether a point behind digits belongs to the number. -/
lemma isFraction_iff (cs : List Char) :
    ((encoded cs)[0]?.getD 0 = '.'.toUInt8 ∧ isDigitByte ((encoded cs)[1]?.getD 0) = true) ↔
      isFraction cs = true := by
  have hpoint : cs.head?.any (· = '.') = true ↔ cs.head? = some '.' := by cases cs <;> simp
  rw [peek_eq_iff '.' (by decide) (by decide), isFraction_eq, Bool.and_eq_true, hpoint]
  refine and_congr_right fun hhead => ?_
  obtain ⟨rest, rfl⟩ := List.head?_eq_some_iff.mp hhead
  rw [List.tail_cons, ← isDigitByte_peek]
  rfl

lemma numberLiteral_eq {c : Char} (hc : c.toNat < 128) (h : source.toList = before ++ c :: cs)
    (hstart : start = byteLength before) :
    numberLiteral source ⟨start, start + 1, line, none⟩ =
      (numberSegment c cs).1.outcome start line := by
  have hbehind : source.toList = (before ++ [c]) ++ cs := by simpa using h
  have hcurr : start + 1 = byteLength (before ++ [c]) := by
    rw [byteLength_concat_of_lt hc, hstart]
  have hrun := advanceWhile_eq hbehind (s := ⟨start, start + 1, line, none⟩) hcurr
    agreesWith_isDigit
  have happ : cs.takeWhile Char.isDigit ++ cs.dropWhile Char.isDigit = cs :=
    List.takeWhile_append_dropWhile
  have hdigits : ∀ d ∈ cs.takeWhile Char.isDigit, d.isDigit = true :=
    fun d hd => List.mem_takeWhile_imp hd
  have hend : (cs.dropWhile Char.isDigit).head?.any Char.isDigit = false := any_head?_dropWhile cs
  -- From here on the text is what the run of digits makes of it.
  generalize cs.takeWhile Char.isDigit = whole at hrun happ hdigits
  generalize cs.dropWhile Char.isDigit = tail at happ hend
  subst happ
  have hplace : source.toList = (before ++ [c] ++ whole) ++ tail := by simpa using h
  have hpeek := peekAt_eq hplace (s := ⟨start, byteLength (before ++ [c] ++ whole), line, none⟩) rfl
  by_cases hfraction : isFraction tail = true
  · obtain ⟨d, after, rfl, hd⟩ : ∃ d after, tail = '.' :: d :: after ∧ d.isDigit = true := by
      revert hfraction
      fun_cases isFraction tail with
      | case1 d after => exact fun hd => ⟨d, after, rfl, hd⟩
      | case2 => simp
    have hyes := (isFraction_iff ('.' :: d :: after)).mpr hfraction
    have hpoint : source.toList = (before ++ [c] ++ whole ++ ['.']) ++ d :: after := by
      rw [hplace]
      simp
    have hskip : byteLength (before ++ [c] ++ whole) + 1 =
        byteLength (before ++ [c] ++ whole ++ ['.']) :=
      (byteLength_concat_of_lt (by decide) _).symm
    have hplaces := advanceWhile_eq hpoint
      (s := ⟨start, byteLength (before ++ [c] ++ whole) + 1, line, none⟩) hskip agreesWith_isDigit
    rw [List.takeWhile_cons_of_pos hd] at hplaces
    have htext := slice_eq
      (show source.toList = before ++ c :: (whole ++ '.' :: d :: after.takeWhile Char.isDigit) ++
        after.dropWhile Char.isDigit by simpa using h)
      (b := byteLength (before ++ [c] ++ whole ++ ['.'] ++ d :: after.takeWhile Char.isDigit))
      hstart (by simp)
    have hsegment : numberSegment c (whole ++ '.' :: d :: after) =
        (⟨.number, c :: (whole ++ '.' :: d :: after.takeWhile Char.isDigit)⟩,
          after.dropWhile Char.isDigit) := by
      have hstop : ('.' :: d :: after).head?.any Char.isDigit = false := rfl
      simp only [numberSegment, takeWhile_append_of_head? hdigits hstop,
        dropWhile_append_of_head? hdigits hstop, hd, if_true]
    rw [hsegment]
    simp only [numberLiteral, run_bind, hrun, hpeek, if_pos hyes, skip, hplaces, cursor, htext,
      recognise, String.toList_ofList, Segment.outcome, Segment.item?, Segment.linesPassed,
      Option.bind_some, Item.complaint?, Item.kind?]
    rw [hstart, ← byteLength_append]
    simp
  · rw [Bool.not_eq_true] at hfraction
    rw [numberSegment_of_not_isFraction hdigits hend hfraction]
    have hno := mt (isFraction_iff tail).mp (by simp [hfraction])
    have htext := slice_eq (show source.toList = before ++ c :: whole ++ tail by simpa using h)
      (b := byteLength (before ++ [c] ++ whole)) hstart (by simp)
    simp only [numberLiteral, run_bind, hrun, hpeek, hno, if_false, cursor, htext, recognise,
      String.toList_ofList, Segment.outcome, Segment.item?, Segment.linesPassed,
      Option.bind_some, Item.complaint?, Item.kind?]
    rw [hstart, ← byteLength_append, List.append_assoc, List.singleton_append]
    rfl

lemma keyword?_encoded (text : List Char) :
    keyword? (encoded text) = Keyword.ofWord? (String.ofList text) := by
  unfold keyword? Keyword.ofWord?
  congr 1
  funext k
  rw [← bytesOf_ofList, Bool.eq_iff_iff, beq_iff_eq, bytesOf_inj, decide_eq_true_iff]

lemma word_eq {c : Char} (hc : c.toNat < 128) (h : source.toList = before ++ c :: cs)
    (hstart : start = byteLength before) :
    word source ⟨start, start + 1, line, none⟩ = (wordSegment c cs).1.outcome start line := by
  have hbehind : source.toList = (before ++ [c]) ++ cs := by simpa using h
  have hcurr : start + 1 = byteLength (before ++ [c]) := by
    rw [byteLength_concat_of_lt hc, hstart]
  have hrun := advanceWhile_eq hbehind (s := ⟨start, start + 1, line, none⟩) hcurr
    agreesWith_isWordPart
  have happ : cs.takeWhile isWordPart ++ cs.dropWhile isWordPart = cs :=
    List.takeWhile_append_dropWhile
  have hbytes := bytesBetween_eq
    (show source.toList = before ++ c :: cs.takeWhile isWordPart ++ cs.dropWhile isWordPart by
      simp [h, happ])
    (s := ⟨start, byteLength (before ++ [c] ++ cs.takeWhile isWordPart), line, none⟩) hstart
    (b := byteLength (before ++ [c] ++ cs.takeWhile isWordPart)) (by simp)
  have hkind : (Keyword.ofWord? (String.ofList (c :: cs.takeWhile isWordPart))).elim
      .identifier .keyword = Kind.ofWord (String.ofList (c :: cs.takeWhile isWordPart)) := by
    unfold Kind.ofWord
    cases Keyword.ofWord? (String.ofList (c :: cs.takeWhile isWordPart)) <;> rfl
  simp only [word, run_bind, hrun, cursor, hbytes, keyword?_encoded, recognise, hkind, wordSegment,
    Segment.outcome, Segment.item?, Segment.linesPassed, Option.bind_some, Item.complaint?,
    Item.kind?]
  rw [hstart, ← byteLength_append]
  simp

lemma markWithEqual_eq {c : Char} (hc : c.toNat < 128) {longer m : Mark}
    (hmark : Mark.ofChar? c = some m) (hlonger : m.withEqual? = some longer)
    (h : source.toList = before ++ c :: cs) (hstart : start = byteLength before) :
    markWithEqual longer m source ⟨start, start + 1, line, none⟩ =
      (markSegment c cs).1.outcome start line := by
  have hbehind : source.toList = (before ++ [c]) ++ cs := by simpa using h
  have hcurr : start + 1 = byteLength (before ++ [c]) := by
    rw [byteLength_concat_of_lt hc, hstart]
  have hpeek := peekAt_eq hbehind (s := ⟨start, start + 1, line, none⟩) hcurr 0
  have hiff := peek_eq_iff '=' (by decide) (by decide) cs
  have hone : byteLength [c] = 1 := byteLength_cons_of_lt hc []
  by_cases hequal : cs.head? = some '='
  · obtain ⟨rest, rfl⟩ := List.head?_eq_some_iff.mp hequal
    simp only [markWithEqual, run_bind, hpeek, if_pos (hiff.mpr hequal), skip, recognise,
      markSegment, hmark, hlonger, Segment.outcome, Segment.item?, Segment.linesPassed,
      Option.bind_some, Item.complaint?, Item.kind?, byteLength_cons_of_lt hc]
    rfl
  · have hno := mt hiff.mp hequal
    have hsegment : markSegment c cs = (⟨.mark m, [c]⟩, cs) := by
      simp only [markSegment, hmark]
      split
      · next rest _ => exact absurd rfl hequal
      · rfl
    simp only [markWithEqual, run_bind, hpeek, if_neg hno, recognise,
      hsegment, Segment.outcome, Segment.item?, Segment.linesPassed,
      Option.bind_some, Item.complaint?, Item.kind?, hone, Nat.add_zero]

lemma strayCharacter_eq {c : Char} (h : source.toList = before ++ c :: cs)
    (hstart : start = byteLength before) :
    strayCharacter source ⟨start, start + 1, line, none⟩ =
      Segment.outcome start line ⟨.stray, [c]⟩ := by
  have htext := slice_eq (show source.toList = before ++ c :: cs ++ [] by simpa using h) hstart
    (b := (bytesOf source).length) (by rw [length_bytesOf, h])
  have hwidth : byteLength [c] = c.utf8Size := by
    rw [byteLength, encoded_cons, encoded_nil, List.append_nil, String.length_utf8EncodeChar]
  simp only [strayCharacter, run_bind, cursor, size, htext, String.toList_ofList, List.head?_cons,
    Option.getD_some, moveTo, complain, Segment.outcome, Segment.item?, Segment.linesPassed,
    Option.map_some, Option.bind_some, Item.complaint?, Item.kind?, hwidth, Nat.add_zero]

lemma slash_eq (h : source.toList = before ++ '/' :: cs) (hstart : start = byteLength before) :
    slash source ⟨start, start + 1, line, none⟩ = (nextSegment '/' cs).1.outcome start line := by
  have hbehind : source.toList = (before ++ ['/']) ++ cs := by simpa using h
  have hcurr : start + 1 = byteLength (before ++ ['/']) := by
    rw [byteLength_concat_of_lt (by decide), hstart]
  have hpeek := peekAt_eq hbehind (s := ⟨start, start + 1, line, none⟩) hcurr 0
  have hline := peek_eq_iff '/' (by decide) (by decide) cs
  have hblock := peek_eq_iff '*' (by decide) (by decide) cs
  simp only [slash, run_bind, hpeek]
  by_cases hsecond : cs.head? = some '/'
  · obtain ⟨rest, rfl⟩ := List.head?_eq_some_iff.mp hsecond
    rw [if_pos (hline.mpr rfl)]
    exact lineComment_eq h hstart
  rw [if_neg (mt hline.mp hsecond)]
  by_cases hstar : cs.head? = some '*'
  · obtain ⟨rest, rfl⟩ := List.head?_eq_some_iff.mp hstar
    simp only [run_bind, hpeek]
    rw [if_pos (hblock.mpr rfl)]
    exact blockComment_eq h hstart
  · have hone : byteLength ['/'] = 1 := rfl
    simp only [run_bind, hpeek]
    rw [if_neg (mt hblock.mp hstar), nextSegment_slash hsecond hstar]
    simp only [recognise, Segment.outcome, Segment.item?, Segment.linesPassed, Option.bind_some,
      Item.complaint?, Item.kind?, hone, Nat.add_zero]

/-- What the first character of a segment says about it. -/
def leadOf (c : Char) : Lead :=
  if isGap c then if c = '\n' then .feed else .blank
  else if c = '"' then .quote
  else if c.isDigit then .digit
  else if isWordStart c then .letter
  else if c = '/' then .slash
  else
    match Mark.ofChar? c with
    | none => .other
    | some m => m.withEqual?.elim (.sole m) (.equal · m)

lemma of_toUInt8 {c : Char} (hc : c.toNat < 128) : Lead.of c.toUInt8 = leadOf c :=
  forall_lt_128 (P := fun c => Lead.of c.toUInt8 = leadOf c) (by decide +kernel) hc

lemma of_eq_other {b : UInt8} (hb : 128 ≤ b.toNat) : Lead.of b = .other :=
  forall_byte (P := fun b => 128 ≤ b.toNat → Lead.of b = .other) (by decide +kernel) b hb

/-- A character from 128 on starts nothing. -/
lemma nextSegment_of_le {c : Char} (hc : 128 ≤ c.toNat) (cs : List Char) :
    nextSegment c cs = (⟨.stray, [c]⟩, cs) := by
  have hne : ∀ d : Char, d.toNat < 128 → c ≠ d := by
    rintro d hd rfl
    omega
  have hnot : ∀ d : Char, d.toNat < 128 → ¬c ≤ d := by
    intro d hd hle
    exact absurd (UInt32.le_iff_toNat_le.mp hle) (Nat.not_le.mpr (Nat.lt_of_lt_of_le hd hc))
  have hspellings : ∀ m : Mark, m.spelling.toList.all (·.toNat < 128) = true := by
    intro m
    cases m <;> rfl
  have hstands : Segment.StandsBefore ⟨.stray, [c]⟩ cs := by
    refine .stray ?_ (hne _ (by decide)) (fun h => hnot _ (by decide) h.2) ?_ fun m hm => ?_
    · simp [hne ' ' (by decide), hne '\t' (by decide), hne '\r' (by decide),
        hne '\n' (by decide)]
    · rintro (h | h | rfl)
      · exact hnot _ (by decide) h.2
      · exact hnot _ (by decide) h.2
      · exact absurd hc (by decide)
    · have hlow := List.all_eq_true.mp (hspellings m) c (List.mem_of_mem_head? hm)
      rw [decide_eq_true_iff] at hlow
      omega
  obtain ⟨d, ds, htext, hnext⟩ := hstands.nextSegment_eq
  rw [List.singleton_append, List.cons.injEq] at htext
  rw [htext.1, htext.2, hnext, ← htext.1, ← htext.2]

/-- A lexeme behind its first byte, when that is a character of its own. -/
lemma lexeme_of_lt {c : Char} (hc : c.toNat < 128) (h : source.toList = before ++ c :: cs)
    (hstart : start = byteLength before) :
    behindLead (leadOf c) source ⟨start, start + 1, line, none⟩ =
      (nextSegment c cs).1.outcome start line := by
  have hone : byteLength [c] = 1 := byteLength_cons_of_lt hc []
  by_cases hslash : c = '/'
  · subst hslash
    exact slash_eq h hstart
  unfold leadOf nextSegment
  by_cases hgap : isGap c = true
  · rw [if_pos hgap, if_pos hgap]
    by_cases hfeed : c = '\n'
    · subst hfeed
      rfl
    · rw [if_neg hfeed]
      simp only [behindLead, run_pure, Segment.outcome, Segment.item?, Segment.linesPassed, hone,
        List.cons.injEq, hfeed, false_and, if_false, Option.bind_none, Nat.add_zero]
  rw [if_neg hgap, if_neg hgap]
  by_cases hquote : c = '"'
  · rw [if_pos hquote, if_pos hquote]
    exact stringLiteral_eq (hquote ▸ h) hstart
  rw [if_neg hquote, if_neg hquote]
  by_cases hdigit : c.isDigit = true
  · rw [if_pos hdigit, if_pos hdigit]
    exact numberLiteral_eq hc h hstart
  rw [if_neg hdigit, if_neg hdigit]
  by_cases hword : isWordStart c = true
  · rw [if_pos hword, if_pos hword]
    exact word_eq hc h hstart
  rw [if_neg hword, if_neg hword, if_neg hslash, if_neg hslash]
  cases hmark : Mark.ofChar? c with
  | none =>
    simp only [markSegment, hmark]
    exact strayCharacter_eq h hstart
  | some m =>
    cases hlonger : m.withEqual? with
    | none =>
      have hsegment : markSegment c cs = (⟨.mark m, [c]⟩, cs) := by
        simp only [markSegment, hmark, hlonger]
      simp only [hlonger, hsegment, Option.elim_none, behindLead, recognise, Segment.outcome,
        Segment.item?, Segment.linesPassed, Option.bind_some, Item.complaint?, Item.kind?, hone,
        Nat.add_zero]
    | some longer =>
      simp only [hlonger, Option.elim_some]
      exact markWithEqual_eq hc hmark hlonger h hstart

lemma lexeme_eq {c : Char} (h : source.toList = before ++ c :: cs)
    (hstart : start = byteLength before) :
    lexeme source ⟨start, start, line, none⟩ = (nextSegment c cs).1.outcome start line := by
  obtain ⟨b, hb, bs, hcons⟩ := exists_encoded_cons c cs
  have hadvance : advance source ⟨start, start, line, none⟩ =
      .read b ⟨start, start + 1, line, none⟩ := by
    have hbyte : (bytesOf source)[start]? = some b := by
      rw [bytesOf_eq, h, encoded_append, hstart, byteLength,
        List.getElem?_append_right (Nat.le_refl _), Nat.sub_self, hcons]
      rfl
    simp only [advance, hbyte]
  simp only [lexeme, run_bind, hadvance]
  rcases Nat.lt_or_ge c.toNat 128 with hc | hc
  · obtain rfl : b = c.toUInt8 := by
      rwa [utf8EncodeChar_of_lt hc, List.mem_singleton] at hb
    rw [of_toUInt8 hc]
    exact lexeme_of_lt hc h hstart
  · have hhigh := le_of_mem_utf8EncodeChar hc hb
    rw [of_eq_other hhigh, nextSegment_of_le hc]
    exact strayCharacter_eq h hstart

end Lexemes

/-! ## One item after the other -/

section Items

variable {source : String} {s : ByteCursor} {items : List Item}

/-- **What a reader has still to give**, which stands between two segments or behind the end. -/
inductive HasLeft (source : String) : ByteCursor → List Item → Prop
  | between {before after : List Char} {s : ByteCursor} (h : source.toList = before ++ after)
      (hcurr : s.curr = byteLength before) :
      HasLeft source s (itemsFrom s.line (segments after))
  | behind {s : ByteCursor} (hcurr : byteLength source.toList < s.curr) : HasLeft source s []

/-- A segment's token has the text of the segment, and is on the line where the segment ends. -/
lemma eq_of_item? {seg : Segment} {line : Nat} {t : Token}
    (h : seg.item? line = some (.token t)) :
    t = ⟨t.kind, String.ofList seg.text, line⟩ := by
  obtain ⟨cls, text⟩ := seg
  cases cls
  case stray => cases text <;> simp [Segment.item?] at h
  all_goals simp only [Segment.item?, Option.some.injEq, Item.token.injEq, reduceCtorEq] at h
  all_goals rw [← h]

lemma next_eof {before : List Char} (n : Nat) (h : source.toList = before)
    (hcurr : s.curr = byteLength before) :
    next (n + 1) source s =
      .read (some (.token ⟨.eof, "", s.line⟩)) { s with curr := s.curr + 1 } := by
  have hsize : s.curr = (bytesOf source).length := by rw [length_bytesOf, h, hcurr]
  simp only [next, run_bind, cursor, size, hsize, Nat.le_refl, if_true, skip, run_pure]

/-- One round of a call, at a segment. -/
lemma next_cons {before cs : List Char} {c : Char} (n : Nat)
    (h : source.toList = before ++ c :: cs) (hcurr : s.curr = byteLength before) :
    let seg := (nextSegment c cs).1
    let s' : ByteCursor := ⟨s.curr, byteLength (before ++ seg.text), s.line + seg.linesPassed, none⟩
    next (n + 1) source s =
      match seg.item? s'.line with
      | some item => .read (some item) s'
      | none => next n source s' := by
  intro seg s'
  have hle : s.curr ≤ (bytesOf source).length := by
    rw [length_bytesOf, h, hcurr, byteLength_append]
    exact Nat.le_add_right _ _
  have hne : ¬s.curr = (bytesOf source).length := by
    have hpos : 0 < byteLength (c :: cs) :=
      Nat.lt_of_lt_of_le (Nat.succ_pos cs.length) (length_le_byteLength (c :: cs))
    rw [length_bytesOf, h, hcurr, byteLength_append]
    omega
  have hlexeme : lexeme source ⟨s.curr, s.curr, s.line, none⟩ = seg.outcome s.curr s.line :=
    lexeme_eq h hcurr
  have hplace : s.curr + byteLength seg.text = byteLength (before ++ seg.text) := by
    rw [byteLength_append, hcurr]
  have hcut : source.toList = before ++ seg.text ++ (nextSegment c cs).2 := by
    rw [h, List.append_assoc, nextSegment_append]
  have htext := slice_eq hcut hcurr rfl
  simp only [next, run_bind, cursor, size, hle, if_true, hne, if_false, startLexeme, hlexeme,
    Segment.outcome, hplace]
  cases hitem : seg.item? (s.line + seg.linesPassed) with
  | none => simp only [Option.bind_none, run_bind, takePending, s']
  | some item =>
    cases item with
    | complaint at_ cause =>
      simp only [Option.bind_some, Item.complaint?, Item.kind?, run_pure, s']
    | token t =>
      simp only [Option.bind_some, Item.complaint?, Item.kind?, run_bind, takePending, cursor,
        htext, run_pure, s']
      rw [← eq_of_item? hitem]

/-- **A call gives the next item that is left**, or the fuel is less than what is left to read. -/
lemma next_eq (h : HasLeft source s items) (fuel : Nat) :
    next fuel source s = .exhausted ∧ fuel ≤ source.toList.length ∨
      ∃ s', next fuel source s = .read items.head? s' ∧ HasLeft source s' items.tail := by
  cases h with
  | behind hcurr =>
    cases fuel with
    | zero => exact .inl ⟨rfl, Nat.zero_le _⟩
    | succ n =>
      have hnot : ¬s.curr ≤ (bytesOf source).length := by
        rw [length_bytesOf]
        omega
      refine .inr ⟨s, ?_, .behind hcurr⟩
      simp only [next, run_bind, cursor, size, if_neg hnot, run_pure, List.head?_nil]
  | @between before after s h hcurr =>
    have hlength : after.length ≤ source.toList.length := by
      rw [h, List.length_append]
      exact Nat.le_add_left _ _
    suffices hcall : next fuel source s = .exhausted ∧ fuel ≤ after.length ∨
        ∃ s', next fuel source s = .read (itemsFrom s.line (segments after)).head? s' ∧
          HasLeft source s' (itemsFrom s.line (segments after)).tail from
      hcall.imp_left fun hout => ⟨hout.1, Nat.le_trans hout.2 hlength⟩
    clear hlength
    -- Each round that gives nothing reads a segment at least.
    induction fuel generalizing before after s with
    | zero => exact .inl ⟨rfl, Nat.zero_le _⟩
    | succ n ih =>
      cases after with
      | nil =>
        rw [List.append_nil] at h
        refine .inr ⟨_, next_eof n h hcurr, .behind ?_⟩
        show _ < s.curr + 1
        rw [h, hcurr]
        exact Nat.lt_succ_self _
      | cons c cs =>
        have hround := next_cons n h hcurr
        have hrest : source.toList = (before ++ (nextSegment c cs).1.text) ++
            (nextSegment c cs).2 := by
          rw [h, List.append_assoc, nextSegment_append]
        have hle := length_nextSegment_le c cs
        rw [segments_cons]
        simp only [itemsFrom]
        cases hitem : (nextSegment c cs).1.item?
            (s.line + (nextSegment c cs).1.linesPassed) with
        | some item =>
          simp only [hitem] at hround
          exact .inr ⟨_, hround, .between hrest rfl⟩
        | none =>
          simp only [hitem] at hround
          rw [hround]
          refine (ih hrest rfl).imp_left fun hout => ⟨hout.1, ?_⟩
          have hscarce := hout.2
          rw [List.length_cons]
          omega

/-- **So many calls give so many items**, and none any more when there are none left. -/
lemma calls_eq (h : HasLeft source s items) (fuel k : Nat) :
    calls fuel k source s = .exhausted ∧ fuel ≤ source.toList.length ∨
      ∃ s', calls fuel k source s = .read ((List.range k).map (items[·]?)) s' := by
  induction k generalizing s items with
  | zero => exact .inr ⟨s, rfl⟩
  | succ k ih =>
    rcases next_eq h fuel with ⟨hout, hscarce⟩ | ⟨s₁, hnext, hleft⟩
    · exact .inl ⟨by simp only [calls, run_bind, hout], hscarce⟩
    rcases ih hleft with ⟨hout, hscarce⟩ | ⟨s₂, hcalls⟩
    · exact .inl ⟨by simp only [calls, run_bind, hnext, hout], hscarce⟩
    · refine .inr ⟨s₂, ?_⟩
      simp only [calls, run_bind, hnext, hcalls, run_pure]
      congr 1
      rw [List.range_succ_eq_map, List.map_cons, List.map_map]
      cases items <;> rfl

end Items

end ByteReader

/-! ## The division of a source, as it is read -/

/-- Each segment of a divided text may stand in front of those behind it. -/
lemma Divided.standsBefore {cs : List Char} {before after : List Segment} {s : Segment}
    (h : Divided cs (before ++ s :: after)) : s.StandsBefore (after.flatMap Segment.text) := by
  induction before generalizing cs with
  | nil =>
    rw [List.nil_append] at h
    cases h with
    | @cons _ rest _ hs hafter =>
      rwa [hafter.eq_segments, flatMap_text_segments]
  | cons first before ih =>
    rw [List.cons_append] at h
    cases h with
    | cons _ hrest => exact ih hrest

/-- **Every source is read as the lexical grammar divides it.**  There is one division, and its
segments put together are the source.  The items are those that the segments show, one by one and in
order; behind them comes the end of the source, which has no text.

A reader that only looks at bytes and cuts between places gives these items, call after call, and
behind the end of the source nothing, however often it is called.  With any fuel it neither looks
outside of the source nor cuts a character in two.  Started at a segment it ends behind it. -/
theorem scan_divides (source : String) :
    ∃ l items, Divided source.toList l ∧ (∀ l', Divided source.toList l' → l' = l) ∧
      l.flatMap Segment.text = source.toList ∧
      Shown 1 l items ∧ (∀ t, .token t ∈ items → t.kind ≠ .eof) ∧
      scan source = items ++ [.token ⟨.eof, "", 1 + lineFeeds source.toList⟩] ∧
      (∀ fuel, source.utf8ByteSize < fuel → ∀ k, ∃ s,
        ByteReader.calls fuel k source .initial =
          .read ((List.range k).map fun i => (scan source)[i]?) s) ∧
      (∀ fuel k, ByteReader.calls fuel k source .initial ≠ .fault) ∧
      ∀ before s after, l = before ++ s :: after → ∀ line,
        let start := byteLength (before.flatMap Segment.text)
        ByteReader.lexeme source ⟨start, start, line, none⟩ = s.outcome start line := by
  have hdivided := divided_segments source.toList
  have htext := flatMap_text_segments source.toList
  obtain ⟨items, hshown, hitems⟩ := hdivided.exists_items 1
  have hleft : ByteReader.HasLeft source .initial (scan source) :=
    @ByteReader.HasLeft.between source [] source.toList .initial rfl rfl
  have hlength : source.toList.length ≤ source.utf8ByteSize := by
    rw [← String.ofList_toList (s := source), utf8ByteSize_ofList, String.toList_ofList]
    exact length_le_byteLength _
  refine ⟨segments source.toList, items, hdivided, fun l' => Divided.eq_segments, htext, hshown,
    hshown.ne_eof, hitems, fun fuel hfuel k => ?_, fun fuel k => ?_, ?_⟩
  · rcases ByteReader.calls_eq hleft fuel k with ⟨-, hscarce⟩ | hread
    · omega
    · exact hread
  · intro hfault
    rcases ByteReader.calls_eq hleft fuel k with ⟨hout, -⟩ | ⟨s, hread⟩
    · exact nomatch hout.symm.trans hfault
    · exact nomatch hread.symm.trans hfault
  · intro before s after hl line start
    have hsource : source.toList = before.flatMap Segment.text ++
        (s.text ++ after.flatMap Segment.text) := by
      rw [← htext, hl, List.flatMap_append, List.flatMap_cons]
    rw [hl] at hdivided
    obtain ⟨c, cs, hcs, hnext⟩ := hdivided.standsBefore.nextSegment_eq
    rw [hcs] at hsource
    rw [ByteReader.lexeme_eq hsource rfl, hnext]

end LoxLang
