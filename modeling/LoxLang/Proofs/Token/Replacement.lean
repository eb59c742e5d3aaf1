import LoxLang.Proofs.Token.Concatenation
import Mathlib

/-!
# Other words in a source

A word of a source can be replaced by another one, and nothing else is read differently
(`exists_source_respelled`).  Whether a segment ends where it does is decided by what follows it, so
the question is how much of that it can see.  It is one character, and two if the first is a point,
and it makes no difference to any segment which letter or underscore it is that follows.

So a text in which some words are others has the front that it had (`SameFront`), as far as a
segment before it is concerned, and the segments are found again one by one.
-/

namespace LoxLang

/-- Is the text a word? -/
def isWord : List Char → Bool
  | [] => false
  | c :: cs => isWordStart c && cs.all isWordPart

/-- Is the text a name?  Names are the words that are no keywords. -/
def isName (text : String) : Bool := isWord text.toList && (Keyword.ofWord? text).isNone

lemma ofWord?_of_isName {text : String} (h : isName text = true) :
    Keyword.ofWord? text = none :=
  Option.isNone_iff_eq_none.mp (Bool.and_eq_true _ _ ▸ h).2

/-! ## What a segment sees of the text behind it -/

/-- The first character of a text, where the characters that start a word are taken for one. -/
def front (cs : List Char) : Option (Option Char) :=
  cs.head?.map fun c => if isWordStart c then none else some c

/-- Is the text a point with digits behind it, which belongs to the number in front of it? -/
def isFraction : List Char → Bool
  | '.' :: d :: _ => d.isDigit
  | _ => false

/-- Texts that a segment in front of them cannot tell apart. -/
structure SameFront (rest rest' : List Char) : Prop where
  first : front rest' = front rest
  second : rest.head? = some '.' → front rest'.tail = front rest.tail

section Fronts

variable {rest rest' : List Char} {p : Char → Bool}

lemma isWordPart_of_isWordStart {c : Char} (h : isWordStart c = true) : isWordPart c = true := by
  simp only [isWordStart, isWordPart, Char.isAlphanum, Bool.or_eq_true] at h ⊢
  tauto

lemma isDigit_of_isWordStart {c : Char} (h : isWordStart c = true) : c.isDigit = false := by
  rcases Bool.or_eq_true _ _ |>.mp h with halpha | hunderscore
  · simp only [Char.isAlpha, Char.isUpper, Char.isLower, Char.isDigit, Bool.or_eq_true,
      Bool.and_eq_true, decide_eq_true_eq, Bool.and_eq_false_iff, decide_eq_false_iff_not,
      ge_iff_le, UInt32.le_iff_toNat_le] at halpha ⊢
    simp at halpha ⊢
    omega
  · rw [of_decide_eq_true hunderscore]
    decide

lemma ne_of_isWordStart {c d : Char} (hd : isWordStart d = false) (h : isWordStart c = true) :
    c ≠ d := by
  rintro rfl
  rw [h] at hd
  cases hd

/-- A class of characters that has all those which start a word, or none of them, does not tell
the two fronts apart. -/
lemma any_head?_of_front (hfront : front rest' = front rest)
    (hp : ∀ c, isWordStart c = true → p c = p 'a') : rest'.head?.any p = rest.head?.any p := by
  rcases rest with _ | ⟨c, cs⟩ <;> rcases rest' with _ | ⟨c', cs'⟩
  · rfl
  · simp [front] at hfront
  · simp [front] at hfront
  · simp only [front, List.head?_cons, Option.map_some, Option.some.injEq] at hfront
    rw [List.head?_cons, List.head?_cons, Option.any_some, Option.any_some]
    by_cases hc : isWordStart c = true <;> by_cases hc' : isWordStart c' = true
    · rw [hp c hc, hp c' hc']
    · simp [hc, hc'] at hfront
    · simp [hc, hc'] at hfront
    · simp only [hc, hc', Bool.false_eq_true, if_false, Option.some.injEq] at hfront
      rw [hfront]

lemma any_isWordPart_of_front (h : front rest' = front rest) :
    rest'.head?.any isWordPart = rest.head?.any isWordPart := by
  refine any_head?_of_front h fun c hc => ?_
  rw [isWordPart_of_isWordStart hc]
  rfl

lemma any_isDigit_of_front (h : front rest' = front rest) :
    rest'.head?.any Char.isDigit = rest.head?.any Char.isDigit := by
  refine any_head?_of_front h fun c hc => ?_
  rw [isDigit_of_isWordStart hc]
  rfl

/-- A character that starts no word is first in both texts, or in none. -/
lemma head?_of_front (h : front rest' = front rest) {d : Char} (hd : isWordStart d = false) :
    rest'.head? = some d ↔ rest.head? = some d := by
  have hany : rest'.head?.any (· = d) = rest.head?.any (· = d) := by
    refine any_head?_of_front h fun c hc => ?_
    have ha : 'a' ≠ d := ne_of_isWordStart hd rfl
    simp [ne_of_isWordStart hd hc, ha]
  rcases rest with _ | ⟨c, cs⟩ <;> rcases rest' with _ | ⟨c', cs'⟩ <;> simp at hany ⊢
  all_goals exact hany

lemma front_append (cs : List Char) (h : front rest' = front rest) :
    front (cs ++ rest') = front (cs ++ rest) := by
  cases cs with
  | nil => exact h
  | cons c cs => rfl

lemma isFraction_eq (cs : List Char) :
    isFraction cs = (cs.head?.any (· = '.') && cs.tail.head?.any Char.isDigit) := by
  rcases cs with _ | ⟨c, _ | ⟨d, cs⟩⟩
  · rfl
  · by_cases hc : c = '.' <;> simp [isFraction, hc]
  · by_cases hc : c = '.' <;> simp [isFraction, hc]

lemma isFraction_of_sameFront (h : SameFront rest rest') : isFraction rest' = isFraction rest := by
  have hdot := head?_of_front h.first (d := '.') (by decide)
  rw [isFraction_eq, isFraction_eq]
  by_cases hfirst : rest.head? = some '.'
  · rw [hdot.mpr hfirst, hfirst, any_isDigit_of_front (h.second hfirst)]
  · have hany : ∀ cs : List Char, cs.head? ≠ some '.' → cs.head?.any (· = '.') = false := by
      intro cs hcs
      cases cs <;> simp_all
    rw [hany _ hfirst, hany _ (mt hdot.mp hfirst)]
    rfl

end Fronts

/-! ## The next segment in front of another text -/

section NextSegment

variable {cs rest rest' : List Char} {c : Char} {p : Char → Bool}

/-- A run of characters ends before a text that does not start with one of them. -/
lemma takeWhile_append_of_head? (hcs : ∀ d ∈ cs, p d = true) (hrest : rest.head?.any p = false) :
    (cs ++ rest).takeWhile p = cs := by
  rw [List.takeWhile_append_of_pos hcs]
  cases rest with
  | nil => simp
  | cons d rest =>
    have hd : p d = false := hrest
    simp [hd]

lemma dropWhile_append_of_head? (hcs : ∀ d ∈ cs, p d = true) (hrest : rest.head?.any p = false) :
    (cs ++ rest).dropWhile p = rest := by
  rw [List.dropWhile_append_of_pos hcs]
  cases rest with
  | nil => rfl
  | cons d rest =>
    have hd : p d = false := hrest
    simp [hd]

lemma any_head?_dropWhile (cs : List Char) : (cs.dropWhile p).head?.any p = false := by
  induction cs with
  | nil => rfl
  | cons d cs ih => by_cases hd : p d = true <;> simp [hd, ih]

lemma wordSegment_of_head? (hcs : ∀ d ∈ cs, isWordPart d = true)
    (hrest : rest.head?.any isWordPart = false) :
    wordSegment c (cs ++ rest) = (⟨.word, c :: cs⟩, rest) := by
  simp only [wordSegment, takeWhile_append_of_head? hcs hrest, dropWhile_append_of_head? hcs hrest]

/-- A number without a fraction, in front of a text that is none. -/
lemma numberSegment_of_not_isFraction (hcs : ∀ d ∈ cs, d.isDigit = true)
    (hrest : rest.head?.any Char.isDigit = false) (hfraction : isFraction rest = false) :
    numberSegment c (cs ++ rest) = (⟨.number, c :: cs⟩, rest) := by
  simp only [numberSegment, takeWhile_append_of_head? hcs hrest,
    dropWhile_append_of_head? hcs hrest]
  split
  · next d after => rw [if_neg (by simpa [isFraction] using hfraction)]
  · rfl

lemma numberSegment_replaced (h : SameFront (numberSegment c cs).2 rest') :
    numberSegment c ((numberSegment c cs).1.text.tail ++ rest') =
      ((numberSegment c cs).1, rest') := by
  have hwhole : ∀ d ∈ cs.takeWhile Char.isDigit, d.isDigit = true :=
    fun d hd => List.mem_takeWhile_imp hd
  have hdrop : (cs.dropWhile Char.isDigit).head?.any Char.isDigit = false := any_head?_dropWhile cs
  by_cases hfraction : isFraction (cs.dropWhile Char.isDigit) = true
  · obtain ⟨d, after, hafter, hd⟩ :
        ∃ d after, cs.dropWhile Char.isDigit = '.' :: d :: after ∧ d.isDigit = true := by
      revert hfraction
      fun_cases isFraction (cs.dropWhile Char.isDigit) with
      | case1 d after => exact fun hd => ⟨d, after, rfl, hd⟩
      | case2 => simp
    have hsegment : numberSegment c cs =
        (⟨.number, c :: (cs.takeWhile Char.isDigit ++ '.' :: d :: after.takeWhile Char.isDigit)⟩,
          after.dropWhile Char.isDigit) := by
      simp only [numberSegment, hafter, hd, if_true]
    rw [hsegment] at h ⊢
    have hrest' : rest'.head?.any Char.isDigit = false := by
      rw [any_isDigit_of_front h.first]
      exact any_head?_dropWhile after
    have hpoint : ∀ l : List Char, ('.' :: d :: l).head?.any Char.isDigit = false := fun _ => rfl
    have hdigits : ∀ e ∈ after.takeWhile Char.isDigit, e.isDigit = true :=
      fun e he => List.mem_takeWhile_imp he
    simp only [List.tail_cons, List.append_assoc, List.cons_append, numberSegment,
      takeWhile_append_of_head? hwhole (hpoint _), dropWhile_append_of_head? hwhole (hpoint _), hd,
      if_true, takeWhile_append_of_head? hdigits hrest', dropWhile_append_of_head? hdigits hrest']
  · have hsegment : numberSegment c cs =
        (⟨.number, c :: cs.takeWhile Char.isDigit⟩, cs.dropWhile Char.isDigit) := by
      have hsplit :=
        numberSegment_of_not_isFraction (c := c) hwhole hdrop (by simpa using hfraction)
      rwa [List.takeWhile_append_dropWhile] at hsplit
    rw [hsegment] at h ⊢
    refine numberSegment_of_not_isFraction hwhole ?_ ?_
    · rw [any_isDigit_of_front h.first, hdrop]
    · rw [isFraction_of_sameFront h]
      simpa using hfraction

lemma markSegment_replaced (h : SameFront (markSegment c cs).2 rest') :
    markSegment c ((markSegment c cs).1.text.tail ++ rest') = ((markSegment c cs).1, rest') := by
  cases hmark : Mark.ofChar? c with
  | none => simp [markSegment, hmark]
  | some m =>
    cases hlonger : m.withEqual? with
    | none => simp [markSegment, hmark, hlonger]
    | some longer =>
      by_cases hequal : cs.head? = some '='
      · obtain ⟨rest, rfl⟩ := List.head?_eq_some_iff.mp hequal
        simp [markSegment, hmark, hlonger]
      · -- No equals sign follows, so none follows in front of the other text either.
        have hshort : ∀ l : List Char, l.head? ≠ some '=' →
            markSegment c l = (⟨.mark m, [c]⟩, l) := by
          intro l hl
          cases l with
          | nil => simp [markSegment, hmark, hlonger]
          | cons d l =>
            have hd : d ≠ '=' := by simpa using hl
            simp [markSegment, hmark, hlonger, hd]
        rw [hshort cs hequal] at h ⊢
        have hrest' : rest'.head? ≠ some '=' :=
          mt (head?_of_front h.first (by decide)).mp hequal
        exact hshort rest' hrest'

lemma lineCommentSegment_replaced (h : SameFront (lineCommentSegment cs).2 rest') :
    lineCommentSegment (cs.takeWhile (· ≠ '\n') ++ rest') = ((lineCommentSegment cs).1, rest') := by
  have hline : ∀ d ∈ cs.takeWhile (· ≠ '\n'), decide (d ≠ '\n') = true :=
    fun d hd => List.mem_takeWhile_imp (p := (· ≠ '\n')) hd
  have hrest' : rest'.head?.any (· ≠ '\n') = false := by
    rw [any_head?_of_front h.first fun c hc => ?_]
    · exact any_head?_dropWhile cs
    · have hc : c ≠ '\n' := ne_of_isWordStart (by decide) hc
      simp [hc]
  simp only [lineCommentSegment, takeWhile_append_of_head? hline hrest',
    dropWhile_append_of_head? hline hrest']

lemma stringSegment_replaced (h : (stringSegment cs).1.cls.isOpen = false) :
    stringSegment ((stringSegment cs).1.text.tail ++ rest') = ((stringSegment cs).1, rest') := by
  cases hdrop : cs.dropWhile (· ≠ '"') with
  | nil =>
    simp only [stringSegment, hdrop] at h
    cases h
  | cons q behind =>
    have hinside : ∀ d ∈ cs.takeWhile (· ≠ '"'), decide (d ≠ '"') = true :=
      fun d hd => List.mem_takeWhile_imp (p := (· ≠ '"')) hd
    have hquote : ('"' :: rest').head?.any (· ≠ '"') = false := rfl
    simp only [stringSegment, hdrop, List.tail_cons, List.append_assoc, List.singleton_append,
      takeWhile_append_of_head? hinside hquote, dropWhile_append_of_head? hinside hquote]

/-- The text up to the end of a comment is that also if another text follows. -/
lemma splitClose_replaced {body : List Char} (h : splitClose cs = some (body, rest)) :
    splitClose (body ++ rest') = some (body, rest') := by
  have hbody : splitClose body = some (body, []) := by
    fun_induction splitClose cs generalizing body rest with
    | case1 => simp at h
    | case2 behind =>
      simp only [Option.some.injEq, Prod.mk.injEq] at h
      obtain ⟨rfl, -⟩ := h
      rfl
    | case3 c cs hclose ih =>
      obtain ⟨⟨body', after'⟩, hsplit, heq⟩ := Option.map_eq_some_iff.mp h
      simp only [Prod.mk.injEq] at heq
      obtain ⟨rfl, rfl⟩ := heq
      have hne : ∀ behind, c = '*' → body' = '/' :: behind → False := by
        intro behind hc hbody'
        have happend := append_of_splitClose hsplit
        rw [hbody'] at happend
        exact hclose (behind ++ after') hc happend.symm
      rw [splitClose, ih hsplit]
      · rfl
      · exact hne
  have happend := splitClose_append hbody rest'
  rwa [List.nil_append] at happend

lemma blockCommentSegment_replaced (h : (blockCommentSegment cs).1.cls.isOpen = false) :
    blockCommentSegment ((blockCommentSegment cs).1.text.tail.tail ++ rest') =
      ((blockCommentSegment cs).1, rest') := by
  cases hsplit : splitClose cs with
  | none => simp [blockCommentSegment, hsplit, SegmentClass.isOpen] at h
  | some found => simp [blockCommentSegment, hsplit, splitClose_replaced hsplit]

/-- A slash starts a comment or is a mark, which the character behind it decides. -/
lemma nextSegment_slash (h₁ : rest.head? ≠ some '/') (h₂ : rest.head? ≠ some '*') :
    nextSegment '/' rest = (⟨.mark .slash, ['/']⟩, rest) := by
  rcases rest with _ | ⟨d, rest⟩
  · rfl
  · have hline : d ≠ '/' := by simpa using h₁
    have hblock : d ≠ '*' := by simpa using h₂
    simp [nextSegment, isGap, isWordStart, Char.isAlpha, Char.isUpper, Char.isLower, Char.isDigit,
      hline, hblock, markSegment, Mark.ofChar?, Mark.withEqual?]

lemma nextSegment_slash_replaced (hopen : (nextSegment '/' cs).1.cls.isOpen = false)
    (h : SameFront (nextSegment '/' cs).2 rest') :
    nextSegment '/' ((nextSegment '/' cs).1.text.tail ++ rest') =
      ((nextSegment '/' cs).1, rest') := by
  by_cases hline : cs.head? = some '/'
  · obtain ⟨rest, rfl⟩ := List.head?_eq_some_iff.mp hline
    exact lineCommentSegment_replaced h
  by_cases hblock : cs.head? = some '*'
  · obtain ⟨rest, rfl⟩ := List.head?_eq_some_iff.mp hblock
    have htext : (nextSegment '/' ('*' :: rest)).1.text.tail =
        '*' :: (blockCommentSegment rest).1.text.tail.tail := by
      show (blockCommentSegment rest).1.text.tail = _
      unfold blockCommentSegment
      split <;> rfl
    rw [htext]
    exact blockCommentSegment_replaced hopen
  · rw [nextSegment_slash hline hblock] at h ⊢
    exact nextSegment_slash (mt (head?_of_front h.first (by decide)).mp hline)
      (mt (head?_of_front h.first (by decide)).mp hblock)

/-- **What the first character of a segment decides**: which rule is used for the rest of it.  Only
a slash leaves the choice to the next character. -/
lemma nextSegment_cases (c : Char) :
    (∀ l, nextSegment c l = (⟨.blank, [c]⟩, l)) ∨ (∀ l, nextSegment c l = stringSegment l) ∨
      (∀ l, nextSegment c l = numberSegment c l) ∨
      (isWordStart c = true ∧ ∀ l, nextSegment c l = wordSegment c l) ∨ c = '/' ∨
      ∀ l, nextSegment c l = markSegment c l := by
  unfold nextSegment
  by_cases hgap : isGap c = true
  · exact .inl fun _ => if_pos hgap
  by_cases hquote : c = '"'
  · refine .inr (.inl fun _ => ?_)
    rw [if_neg hgap, if_pos hquote]
  by_cases hdigit : c.isDigit = true
  · refine .inr (.inr (.inl fun _ => ?_))
    rw [if_neg hgap, if_neg hquote, if_pos hdigit]
  by_cases hword : isWordStart c = true
  · refine .inr (.inr (.inr (.inl ⟨hword, fun _ => ?_⟩)))
    rw [if_neg hgap, if_neg hquote, if_neg hdigit, if_pos hword]
  by_cases hslash : c = '/'
  · exact .inr (.inr (.inr (.inr (.inl hslash))))
  · refine .inr (.inr (.inr (.inr (.inr fun _ => ?_))))
    rw [if_neg hgap, if_neg hquote, if_neg hdigit, if_neg hword, if_neg hslash]

/-- **A complete segment is the same in front of a text that it cannot tell from the one that
follows it.** -/
lemma nextSegment_replaced (hopen : (nextSegment c cs).1.cls.isOpen = false)
    (h : SameFront (nextSegment c cs).2 rest') :
    nextSegment c ((nextSegment c cs).1.text.tail ++ rest') = ((nextSegment c cs).1, rest') := by
  rcases nextSegment_cases c with hrule | hrule | hrule | ⟨-, hrule⟩ | rfl | hrule
  · rw [hrule, hrule, List.tail_cons, List.nil_append]
  · rw [hrule] at hopen
    rw [hrule, hrule]
    exact stringSegment_replaced hopen
  · rw [hrule] at h
    rw [hrule, hrule]
    exact numberSegment_replaced h
  · rw [hrule] at h
    rw [hrule, hrule]
    refine wordSegment_of_head? (fun d hd => List.mem_takeWhile_imp hd) ?_
    rw [any_isWordPart_of_front h.first]
    exact any_head?_dropWhile cs
  · exact nextSegment_slash_replaced hopen h
  · rw [hrule] at h
    rw [hrule, hrule]
    exact markSegment_replaced h

/-- The character that starts a word starts nothing else. -/
lemma nextSegment_of_isWordStart (h : isWordStart c = true) (cs : List Char) :
    nextSegment c cs = wordSegment c cs := by
  have hgap : isGap c = false := by
    have hne : ∀ d, isWordStart d = false → c ≠ d := fun d hd => ne_of_isWordStart hd h
    simp only [isGap, hne ' ' rfl, hne '\t' rfl, hne '\r' rfl, hne '\n' rfl, decide_false,
      Bool.or_false]
  have hquote : c ≠ '"' := ne_of_isWordStart (by decide) h
  simp only [nextSegment, hgap, if_neg hquote, isDigit_of_isWordStart h, h, Bool.false_eq_true,
    if_false, if_true]

/-- A segment is a word only if it starts as one. -/
lemma isWordStart_of_nextSegment (h : (nextSegment c cs).1.cls = .word) : isWordStart c = true := by
  rcases nextSegment_cases c with hrule | hrule | hrule | ⟨hstart, -⟩ | rfl | hrule
  · rw [hrule] at h
    cases h
  · rw [hrule, stringSegment] at h
    split at h <;> cases h
  · rw [hrule] at h
    unfold numberSegment at h
    split at h
    · split at h <;> cases h
    · cases h
  · exact hstart
  · by_cases hline : cs.head? = some '/'
    · obtain ⟨rest, rfl⟩ := List.head?_eq_some_iff.mp hline
      cases h
    by_cases hblock : cs.head? = some '*'
    · obtain ⟨rest, rfl⟩ := List.head?_eq_some_iff.mp hblock
      change (blockCommentSegment rest).1.cls = .word at h
      unfold blockCommentSegment at h
      split at h <;> cases h
    · rw [nextSegment_slash hline hblock] at h
      cases h
  · rw [hrule] at h
    unfold markSegment at h
    split at h
    · cases h
    · split at h <;> cases h

end NextSegment

/-! ## Segments with other words -/

/-- A segment, or another word in its place. -/
structure Segment.Reworded (s s' : Segment) : Prop where
  cls : s'.cls = s.cls
  text : s'.text = s.text ∨ s.cls = .word ∧ isWord s'.text = true

section Segments

variable {cs rest' : List Char} {c : Char} {s s' : Segment} {l l' : List Segment}

lemma exists_of_isWord (h : isWord cs = true) :
    ∃ d ds, cs = d :: ds ∧ isWordStart d = true ∧ ∀ e ∈ ds, isWordPart e = true := by
  cases cs with
  | nil => cases h
  | cons d ds =>
    obtain ⟨hd, hds⟩ := Bool.and_eq_true _ _ ▸ h
    exact ⟨d, ds, rfl, hd, List.all_eq_true.mp hds⟩

/-- **One segment of a text with other words**: it is found at the front, and the text has the front
that the original has. -/
lemma nextSegment_reworded (hopen : (nextSegment c cs).1.cls.isOpen = false)
    (hs : (nextSegment c cs).1.Reworded s') (hfront : SameFront (nextSegment c cs).2 rest') :
    ∃ d ds, s'.text = d :: ds ∧ nextSegment d (ds ++ rest') = (s', rest') ∧
      SameFront (c :: cs) (d :: (ds ++ rest')) := by
  rcases hs.text with hsame | ⟨hword, hother⟩
  · obtain ⟨cls', text'⟩ := s'
    obtain rfl : cls' = _ := hs.cls
    obtain rfl : text' = _ := hsame
    obtain ⟨d, ds, htext⟩ := List.exists_cons_of_ne_nil (text_nextSegment_ne_nil c cs)
    have happend := nextSegment_append c cs
    rw [htext, List.cons_append, List.cons.injEq] at happend
    obtain ⟨rfl, hcs⟩ := happend
    have hnext := nextSegment_replaced hopen hfront
    rw [htext, List.tail_cons] at hnext
    refine ⟨d, ds, htext, hnext, rfl, fun _ => ?_⟩
    have hbehind := front_append ds hfront.first
    rwa [hcs] at hbehind
  · have hstart := isWordStart_of_nextSegment hword
    obtain ⟨d, ds, htext, hd, hds⟩ := exists_of_isWord hother
    have hrest' : rest'.head?.any isWordPart = false := by
      rw [any_isWordPart_of_front hfront.first, nextSegment_of_isWordStart hstart]
      exact any_head?_dropWhile cs
    refine ⟨d, ds, htext, ?_, ?_, fun hdot => ?_⟩
    · obtain ⟨cls', text'⟩ := s'
      obtain rfl : cls' = .word := hs.cls.trans hword
      obtain rfl : text' = d :: ds := htext
      rw [nextSegment_of_isWordStart hd]
      exact wordSegment_of_head? hds hrest'
    · simp [front, hstart, hd]
    · cases hdot
      cases hstart

/-- **The segments of a text with other words** are those of the text, with the other words. -/
lemma segments_reworded (hcomplete : ∀ s ∈ segments cs, s.cls.isOpen = false)
    (h : List.Forall₂ Segment.Reworded (segments cs) l') :
    segments (l'.flatMap Segment.text) = l' ∧ SameFront cs (l'.flatMap Segment.text) := by
  induction cs using segments_induction generalizing l' with
  | nil =>
    cases h
    exact ⟨rfl, rfl, fun _ => rfl⟩
  | cons c cs ih =>
    rw [segments_cons] at h hcomplete
    obtain ⟨hopen, hothers⟩ := List.forall_mem_cons.mp hcomplete
    cases h with
    | cons hs hrest =>
      obtain ⟨hsegments, hfront⟩ := ih hothers hrest
      obtain ⟨d, ds, htext, hnext, hfronts⟩ := nextSegment_reworded hopen hs hfront
      rw [List.flatMap_cons, htext, List.cons_append, segments_cons, hnext, hsegments]
      exact ⟨rfl, hfronts⟩

end Segments

/-! ## Sources with other words -/

/-- Tokens that differ in the spelling of one name at most. -/
structure Token.Respelled (old new : String) (t t' : Token) : Prop where
  kind : t'.kind = t.kind
  line : t'.line = t.line
  lexeme : t'.lexeme = t.lexeme ∨ t.kind = .identifier ∧ t.lexeme = old ∧ t'.lexeme = new

lemma Token.Respelled.refl {old new : String} (t : Token) : t.Respelled old new t :=
  ⟨rfl, rfl, .inl rfl⟩

section Sources

variable {old new : String} {l : List Segment}

/-- A name is a word, and its line is the one that the word ends on. -/
lemma Segment.word_of_item? {s : Segment} {line : Nat} {t : Token}
    (hitem : s.item? line = some (.token t)) (ht : t.kind = .identifier) :
    s.cls = .word ∧ t.line = line := by
  obtain ⟨cls, text⟩ := s
  cases cls
  case stray => cases text <;> simp [Segment.item?] at hitem
  all_goals simp only [Segment.item?, Option.some.injEq, Item.token.injEq, reduceCtorEq] at hitem
  all_goals subst hitem
  case word => exact ⟨rfl, rfl⟩
  all_goals cases ht

/-- The segment of a token that is spelled otherwise. -/
lemma Segment.exists_reworded {s : Segment} {line : Nat} {t t' : Token} (hnew : isName new = true)
    (hitem : s.item? line = some (.token t)) (ht : t.Respelled old new t') :
    ∃ s', s.Reworded s' ∧ s'.linesPassed = s.linesPassed ∧
      s'.item? line = some (.token t') := by
  have hnewWord : isWord new.toList = true := (Bool.and_eq_true _ _ ▸ hnew).1
  rcases ht.lexeme with hsame | ⟨hidentifier, -, hlexeme⟩
  · obtain ⟨kind', lexeme', line'⟩ := t'
    obtain rfl : kind' = _ := ht.kind
    obtain rfl : lexeme' = _ := hsame
    obtain rfl : line' = _ := ht.line
    exact ⟨s, ⟨rfl, .inl rfl⟩, rfl, hitem⟩
  · obtain ⟨hcls, hline⟩ := Segment.word_of_item? hitem hidentifier
    refine ⟨⟨.word, new.toList⟩, ⟨hcls.symm, .inr ⟨hcls, hnewWord⟩⟩, ?_, ?_⟩
    · rw [Segment.linesPassed, Segment.linesPassed, hcls]
    · have hkind : t'.kind = Kind.ofWord new := by
        rw [ht.kind, hidentifier, Kind.ofWord, ofWord?_of_isName hnew]
      rw [Segment.item?, String.ofList_toList, ← hkind, ← hlexeme, ← hline, ← ht.line]

/-- Segments for tokens that are spelled otherwise. -/
lemma exists_itemsFrom_respelled (hnew : isName new = true) {line : Nat} {ts' : List Token}
    (hquiet : ∀ at_ cause, .complaint at_ cause ∉ itemsFrom line l)
    (h : List.Forall₂ (Token.Respelled old new) ((itemsFrom line l).filterMap Item.token?) ts') :
    ∃ l', List.Forall₂ Segment.Reworded l l' ∧ itemsFrom line l' = ts'.map .token := by
  induction l generalizing line ts' with
  | nil =>
    -- Only the end of the source is left, which is not spelled at all.
    cases h with
    | @cons _ t' _ _ ht hnil =>
      cases hnil
      obtain ⟨kind', lexeme', line'⟩ := t'
      obtain rfl : kind' = _ := ht.kind
      obtain rfl : line' = _ := ht.line
      obtain rfl : lexeme' = "" := by
        rcases ht.lexeme with hsame | ⟨hidentifier, -⟩
        · exact hsame
        · cases hidentifier
      exact ⟨[], .nil, rfl⟩
  | cons s rest ih =>
    simp only [itemsFrom] at hquiet h
    cases hitem : s.item? (line + s.linesPassed) with
    | none =>
      rw [hitem] at hquiet h
      obtain ⟨l', hl', hitems⟩ := ih hquiet h
      refine ⟨s :: l', .cons ⟨rfl, .inl rfl⟩ hl', ?_⟩
      simp only [itemsFrom, hitem, hitems]
    | some item =>
      rw [hitem] at hquiet h
      cases item with
      | complaint at_ cause => exact absurd (.head _) (hquiet at_ cause)
      | token t =>
        cases h with
        | @cons _ t' _ ts' ht hothers =>
          obtain ⟨s', hs', hfeeds, hitem'⟩ := Segment.exists_reworded hnew hitem ht
          have hquiet' : ∀ at_ cause,
              .complaint at_ cause ∉ itemsFrom (line + s.linesPassed) rest :=
            fun at_ cause hmem => hquiet at_ cause (.tail _ hmem)
          obtain ⟨l', hl', hitems⟩ := ih hquiet' hothers
          refine ⟨s' :: l', .cons hs' hl', ?_⟩
          simp only [itemsFrom, hfeeds, hitem', hitems, List.map_cons]

/-- **A name can be spelled otherwise in a source.**  Each token may be, or may not be. -/
theorem exists_source_respelled {source : String} {ts' : List Token} (hnew : isName new = true)
    (hquiet : lexicalLog source = [])
    (h : List.Forall₂ (Token.Respelled old new) (tokensOf source) ts') :
    ∃ source', lexicalLog source' = [] ∧ tokensOf source' = ts' := by
  have hcomplaints : ∀ at_ cause, .complaint at_ cause ∉ itemsFrom 1 (segments source.toList) := by
    intro at_ cause hmem
    have hdiagnostic : Diagnostic.lexical at_ cause.message ∈ lexicalLog source :=
      List.mem_filterMap.mpr ⟨_, hmem, rfl⟩
    simp [hquiet] at hdiagnostic
  obtain ⟨l', hl', hitems⟩ := exists_itemsFrom_respelled hnew hcomplaints h
  obtain ⟨hsegments, -⟩ := segments_reworded (isOpen_of_lexicalLog hquiet) hl'
  have hscan : scan (String.ofList (l'.flatMap Segment.text)) = ts'.map .token := by
    rw [scan, String.toList_ofList, hsegments, hitems]
  refine ⟨String.ofList (l'.flatMap Segment.text), ?_, ?_⟩
  · rw [lexicalLog, hscan, List.filterMap_map]
    exact List.filterMap_eq_nil_iff.mpr fun _ _ => rfl
  · rw [tokensOf, hscan, List.filterMap_map]
    exact List.filterMap_some

end Sources

end LoxLang
