import LoxLang.Proofs.Token.Replacement

/-!
# The division of a source

The lexical grammar says what may stand at a place as one segment, and what may follow it there
(`Segment.StandsBefore`).  A segment is as long as its class allows, which is a condition on the
text behind it: digits end where no digit follows, a mark where no longer mark is written, a comment
at the first end that it could have.  Nothing here mentions the functions that cut a source.

From left to right, the grammar divides every source in exactly one way (`Divided`), and this is the
way in which sources are cut.  The items of a source are those of its segments one by one, blanks
and comments left out, and behind them stands the end of the source (`Divided.exists_items`).
-/

namespace LoxLang

/-! ## The lexical grammar -/

/-- Digits. -/
def IsNumeral (c : Char) : Prop := '0' ≤ c ∧ c ≤ '9'

/-- Letters, and the underscore. -/
def IsLetter (c : Char) : Prop := 'A' ≤ c ∧ c ≤ 'Z' ∨ 'a' ≤ c ∧ c ≤ 'z' ∨ c = '_'

/-- A text does not go on with a character of some kind. -/
def EndsRun (p : Char → Prop) (rest : List Char) : Prop := ∀ c, rest.head? = some c → ¬p c

/-- The end of a block comment is nowhere in a text. -/
def Unclosed (cs : List Char) : Prop := ¬['*', '/'] <:+: cs

/-- **The lexical grammar**: a segment may stand in front of a rest. -/
inductive Segment.StandsBefore : Segment → List Char → Prop
  | blank {c : Char} {rest : List Char} (hc : c ∈ [' ', '\t', '\r', '\n']) :
      StandsBefore ⟨.blank, [c]⟩ rest
  | lineComment {body rest : List Char} (hbody : '\n' ∉ body) (hrest : EndsRun (· ≠ '\n') rest) :
      StandsBefore ⟨.lineComment, '/' :: '/' :: body⟩ rest
  /-- The comment ends with the first `*/` behind its `/*`. -/
  | blockComment {body rest : List Char} (hbody : Unclosed (body ++ ['*'])) :
      StandsBefore ⟨.blockComment, '/' :: '*' :: (body ++ ['*', '/'])⟩ rest
  | openComment {body : List Char} (hbody : Unclosed body) :
      StandsBefore ⟨.openComment, '/' :: '*' :: body⟩ []
  | string {body rest : List Char} (hbody : '"' ∉ body) :
      StandsBefore ⟨.string, '"' :: (body ++ ['"'])⟩ rest
  | openString {body : List Char} (hbody : '"' ∉ body) : StandsBefore ⟨.openString, '"' :: body⟩ []
  /-- A point belongs to a number only if a digit follows it. -/
  | whole {digits rest : List Char} (hne : digits ≠ []) (hdigits : ∀ c ∈ digits, IsNumeral c)
      (hrest : EndsRun IsNumeral rest)
      (hpoint : ∀ after, rest = '.' :: after → EndsRun IsNumeral after) :
      StandsBefore ⟨.number, digits⟩ rest
  | fraction {whole places rest : List Char} (hwhole : whole ≠ []) (hplaces : places ≠ [])
      (hdigits : ∀ c ∈ whole ++ places, IsNumeral c) (hrest : EndsRun IsNumeral rest) :
      StandsBefore ⟨.number, whole ++ '.' :: places⟩ rest
  | word {c : Char} {cs rest : List Char} (hc : IsLetter c)
      (hcs : ∀ d ∈ cs, IsLetter d ∨ IsNumeral d)
      (hrest : EndsRun (fun d => IsLetter d ∨ IsNumeral d) rest) :
      StandsBefore ⟨.word, c :: cs⟩ rest
  /-- No longer mark is written there, and a slash starts no comment. -/
  | mark {m : Mark} {rest : List Char}
      (hlongest : ∀ other : Mark, other.spelling.toList <+: m.spelling.toList ++ rest →
        other.spelling.toList.length ≤ m.spelling.toList.length)
      (hslash : m = .slash → EndsRun (fun c => c = '/' ∨ c = '*') rest) :
      StandsBefore ⟨.mark m, m.spelling.toList⟩ rest
  /-- A character that starts nothing else. -/
  | stray {c : Char} {rest : List Char} (hblank : c ∉ [' ', '\t', '\r', '\n']) (hquote : c ≠ '"')
      (hnumeral : ¬IsNumeral c) (hletter : ¬IsLetter c)
      (hmark : ∀ m : Mark, m.spelling.toList.head? ≠ some c) : StandsBefore ⟨.stray, [c]⟩ rest

/-- **A text is divided** from left to right into segments that may stand where they stand. -/
inductive Divided : List Char → List Segment → Prop
  | nil : Divided [] []
  | cons {s : Segment} {rest : List Char} {segments : List Segment} (hs : s.StandsBefore rest)
      (hrest : Divided rest segments) : Divided (s.text ++ rest) (s :: segments)

/-! ## Characters and marks -/

section Characters

variable {p : Char → Bool} {P : Char → Prop} {rest : List Char}

lemma isDigit_iff (c : Char) : c.isDigit = true ↔ IsNumeral c := by
  simp [Char.isDigit, IsNumeral, Char.le_def]

lemma isWordStart_iff (c : Char) : isWordStart c = true ↔ IsLetter c := by
  simp [isWordStart, IsLetter, Char.isAlpha, Char.isUpper, Char.isLower, Char.le_def, or_assoc]

lemma isWordPart_iff (c : Char) : isWordPart c = true ↔ IsLetter c ∨ IsNumeral c := by
  rw [← isWordStart_iff, ← isDigit_iff]
  simp only [isWordPart, isWordStart, Char.isAlphanum, Bool.or_eq_true]
  tauto

lemma isGap_iff (c : Char) : isGap c = true ↔ c ∈ [' ', '\t', '\r', '\n'] := by
  simp [isGap, or_assoc]

lemma endsRun_iff (hp : ∀ c, p c = true ↔ P c) : EndsRun P rest ↔ rest.head?.any p = false := by
  rcases rest with _ | ⟨c, rest⟩
  · simp [EndsRun]
  · simp [EndsRun, ← hp]

lemma endsRun_dropWhile (hp : ∀ c, p c = true ↔ P c) (cs : List Char) :
    EndsRun P (cs.dropWhile p) := (endsRun_iff hp).mpr (any_head?_dropWhile cs)

end Characters

/-- A mark has one character, or it is such a mark with an equals sign behind it. -/
lemma Mark.spelling_cases (m : Mark) :
    (∃ c, m.spelling.toList = [c] ∧ Mark.ofChar? c = some m) ∨
      ∃ c short, m.spelling.toList = [c, '='] ∧ Mark.ofChar? c = some short ∧
        short.withEqual? = some m := by
  cases m
  case bangEqual | equalEqual | greaterEqual | lessEqual =>
    exact .inr ⟨_, _, rfl, rfl, rfl⟩
  all_goals exact .inl ⟨_, rfl, rfl⟩

lemma Mark.spelling_of_ofChar? {c : Char} {m : Mark} (h : Mark.ofChar? c = some m) :
    m.spelling.toList = [c] := by
  have hstep : ∀ {d : Char} {found : Mark} {others : Option Mark},
      (if c = d then some found else others) = some m → c = d ∧ found = m ∨ others = some m := by
    intro d found others hite
    by_cases hd : c = d
    · rw [if_pos hd, Option.some.injEq] at hite
      exact .inl ⟨hd, hite⟩
    · rw [if_neg hd] at hite
      exact .inr hite
  unfold Mark.ofChar? at h
  iterate 15
    obtain ⟨rfl, rfl⟩ | h := hstep h
    · rfl
  cases h

lemma Mark.spelling_of_withEqual? {short m : Mark} (h : short.withEqual? = some m) :
    m.spelling.toList = short.spelling.toList ++ ['='] := by
  cases short <;> cases h <;> rfl

/-! ## Comments -/

/-- The first end of a comment is found. -/
lemma splitClose_of_unclosed {body : List Char} (h : Unclosed (body ++ ['*'])) (rest : List Char) :
    splitClose (body ++ '*' :: '/' :: rest) = some (body ++ ['*', '/'], rest) := by
  induction body with
  | nil => rfl
  | cons c body ih =>
    rw [Unclosed, List.cons_append, List.infix_cons_iff, not_or] at h
    have hearly : ∀ after, c = '*' → body ++ '*' :: '/' :: rest = '/' :: after → False := by
      intro after hc hbody
      cases body with
      | nil => simp at hbody
      | cons d body =>
        rw [List.cons_append, List.cons.injEq] at hbody
        exact h.1 (by simp [hc, hbody.1])
    rw [List.cons_append, splitClose, ih h.2]
    · rfl
    · exact hearly

lemma exists_of_splitClose {cs text rest : List Char} (h : splitClose cs = some (text, rest)) :
    ∃ body, text = body ++ ['*', '/'] ∧ Unclosed (body ++ ['*']) := by
  fun_induction splitClose cs generalizing text rest with
  | case1 => simp at h
  | case2 after =>
    simp only [Option.some.injEq, Prod.mk.injEq] at h
    obtain ⟨rfl, rfl⟩ := h
    exact ⟨[], rfl, by simp [Unclosed, List.infix_cons_iff]⟩
  | case3 c cs hearly ih =>
    obtain ⟨⟨text', rest'⟩, hsplit, heq⟩ := Option.map_eq_some_iff.mp h
    simp only [Prod.mk.injEq] at heq
    obtain ⟨rfl, rfl⟩ := heq
    obtain ⟨body, rfl, hbody⟩ := ih hsplit
    refine ⟨c :: body, rfl, ?_⟩
    rw [Unclosed, List.cons_append, List.infix_cons_iff, not_or]
    refine ⟨fun hfirst => ?_, hbody⟩
    have hcs := append_of_splitClose hsplit
    rcases body with _ | ⟨d, body⟩
    · simp at hfirst
    · simp only [List.cons_append, List.cons_prefix_cons, List.nil_prefix, and_true] at hfirst
      exact hearly _ hfirst.1.symm (by rw [← hcs, ← hfirst.2]; rfl)

lemma splitClose_eq_none_iff {cs : List Char} : splitClose cs = none ↔ Unclosed cs := by
  fun_induction splitClose cs with
  | case1 => simp [Unclosed]
  | case2 after => simp [Unclosed, List.infix_cons_iff]
  | case3 c cs hearly ih =>
    rw [Option.map_eq_none_iff, ih, Unclosed, Unclosed, List.infix_cons_iff, not_or]
    refine ⟨fun h => ⟨fun hfirst => ?_, h⟩, And.right⟩
    rcases cs with _ | ⟨d, cs⟩
    · simp at hfirst
    · simp only [List.cons_prefix_cons, List.nil_prefix, and_true] at hfirst
      exact hearly cs hfirst.1.symm (by rw [← hfirst.2])

/-! ## The next segment may stand where it stands -/

section Sound

variable (c : Char) (cs : List Char)

lemma lineCommentSegment_stands :
    (lineCommentSegment cs).1.StandsBefore (lineCommentSegment cs).2 := by
  refine .lineComment (fun hmem => ?_) (endsRun_dropWhile (by simp) cs)
  have hne := List.mem_takeWhile_imp (p := (· ≠ '\n')) hmem
  simp at hne

lemma blockCommentSegment_stands :
    (blockCommentSegment cs).1.StandsBefore (blockCommentSegment cs).2 := by
  unfold blockCommentSegment
  cases hsplit : splitClose cs with
  | none => exact .openComment (splitClose_eq_none_iff.mp hsplit)
  | some found =>
    obtain ⟨text, rest⟩ := found
    obtain ⟨body, rfl, hbody⟩ := exists_of_splitClose hsplit
    exact .blockComment hbody

lemma stringSegment_stands : (stringSegment cs).1.StandsBefore (stringSegment cs).2 := by
  have hbody : '"' ∉ cs.takeWhile (· ≠ '"') := by
    intro hmem
    have hne := List.mem_takeWhile_imp (p := (· ≠ '"')) hmem
    simp at hne
  unfold stringSegment
  cases hdrop : cs.dropWhile (· ≠ '"') with
  | nil =>
    have hall : cs.takeWhile (· ≠ '"') = cs := by
      have happ := List.takeWhile_append_dropWhile (p := (· ≠ '"')) (l := cs)
      rwa [hdrop, List.append_nil] at happ
    rw [hall] at hbody
    exact .openString hbody
  | cons q rest => exact .string hbody

lemma numberSegment_stands (hc : c.isDigit = true) :
    (numberSegment c cs).1.StandsBefore (numberSegment c cs).2 := by
  have hwhole : ∀ d ∈ c :: cs.takeWhile Char.isDigit, IsNumeral d := by
    refine List.forall_mem_cons.mpr ⟨(isDigit_iff _).mp hc, fun d hd => ?_⟩
    exact (isDigit_iff _).mp (List.mem_takeWhile_imp hd)
  have hrest := endsRun_dropWhile isDigit_iff cs
  -- What follows the digits, if the point behind them is not followed by another digit.
  have hkept : (∀ after, cs.dropWhile Char.isDigit = '.' :: after → EndsRun IsNumeral after) →
      Segment.StandsBefore ⟨.number, c :: cs.takeWhile Char.isDigit⟩ (cs.dropWhile Char.isDigit) :=
    fun hpoint => .whole (List.cons_ne_nil _ _) hwhole hrest hpoint
  unfold numberSegment
  simp only
  split
  · next d after hdrop =>
    rw [hdrop] at hkept
    by_cases hd : d.isDigit = true
    · rw [if_pos hd]
      refine .fraction (List.cons_ne_nil _ _) (List.cons_ne_nil _ _) (fun e he => ?_)
        (endsRun_dropWhile isDigit_iff after)
      rcases List.mem_append.mp he with he | he
      · exact hwhole e he
      · rcases List.mem_cons.mp he with rfl | he
        · exact (isDigit_iff _).mp hd
        · exact (isDigit_iff _).mp (List.mem_takeWhile_imp he)
    · rw [if_neg hd]
      refine hkept fun after' hafter e he => ?_
      cases hafter
      cases he
      rwa [← isDigit_iff]
  · next hfraction =>
    refine hkept fun after hafter d hd => ?_
    rcases after with _ | ⟨e, after⟩
    · cases hd
    · exact absurd hafter (hfraction e after)

lemma wordSegment_stands (hc : isWordStart c = true) :
    (wordSegment c cs).1.StandsBefore (wordSegment c cs).2 := by
  refine .word ((isWordStart_iff _).mp hc) (fun d hd => ?_)
    (endsRun_dropWhile isWordPart_iff cs)
  exact (isWordPart_iff _).mp (List.mem_takeWhile_imp hd)

/-- Marks have one or two characters, so a mark of two is not extended by anything. -/
lemma Mark.length_spelling_le (m : Mark) : m.spelling.toList.length ≤ 2 := by
  rcases m.spelling_cases with ⟨d, hspelling, -⟩ | ⟨d, short, hspelling, -, -⟩
  · simp [hspelling]
  · simp [hspelling]

lemma markSegment_stands (hblank : isGap c = false) (hquote : c ≠ '"') (hdigit : c.isDigit = false)
    (hletter : isWordStart c = false) (hslash : c = '/' → EndsRun (fun d => d = '/' ∨ d = '*') cs) :
    (markSegment c cs).1.StandsBefore (markSegment c cs).2 := by
  unfold markSegment
  cases hmark : Mark.ofChar? c with
  | none =>
    refine .stray ?_ hquote ?_ ?_ fun m hm => ?_
    · rw [← isGap_iff, hblank]
      exact Bool.false_ne_true
    · rw [← isDigit_iff, hdigit]
      exact Bool.false_ne_true
    · rw [← isWordStart_iff, hletter]
      exact Bool.false_ne_true
    · rcases m.spelling_cases with ⟨d, hspelling, hd⟩ | ⟨d, short, hspelling, hd, -⟩
      all_goals
        rw [hspelling, List.head?_cons, Option.some.injEq] at hm
        rw [hm, hmark] at hd
        cases hd
  | some m =>
    have hm := Mark.spelling_of_ofChar? hmark
    simp only
    split
    · next longer rest hlonger =>
      have htext : longer.spelling.toList = [c, '='] := by
        rw [Mark.spelling_of_withEqual? hlonger, hm]
        rfl
      rw [← htext]
      refine .mark (fun other _ => ?_) (fun hother => ?_)
      · have hlength := other.length_spelling_le
        simpa [htext] using hlength
      · rw [hother] at htext
        simp [Mark.spelling] at htext
    · next hshort =>
      rw [← hm]
      refine .mark (fun other hother => ?_) (fun hother => ?_)
      · rw [hm] at hother ⊢
        rcases other.spelling_cases with ⟨d, hspelling, -⟩ | ⟨d, short, hspelling, hd, hlonger⟩
        · simp [hspelling]
        · -- A mark with an equals sign would have been found.
          rw [hspelling, List.singleton_append, List.cons_prefix_cons] at hother
          obtain ⟨rfl, rest, rfl⟩ := hother
          rw [hmark, Option.some.injEq] at hd
          subst hd
          exact absurd rfl (hshort other rest hlonger)
      · subst hother
        have hc : ['/'] = [c] := hm
        exact hslash (List.cons.inj hc).1.symm

/-- **The next segment of a text may stand in front of the rest.** -/
lemma nextSegment_stands : (nextSegment c cs).1.StandsBefore (nextSegment c cs).2 := by
  unfold nextSegment
  by_cases hblank : isGap c = true
  · rw [if_pos hblank]
    exact .blank ((isGap_iff c).mp hblank)
  rw [if_neg hblank]
  by_cases hquote : c = '"'
  · rw [if_pos hquote]
    exact stringSegment_stands cs
  rw [if_neg hquote]
  by_cases hdigit : c.isDigit = true
  · rw [if_pos hdigit]
    exact numberSegment_stands c cs hdigit
  rw [if_neg hdigit]
  by_cases hletter : isWordStart c = true
  · rw [if_pos hletter]
    exact wordSegment_stands c cs hletter
  rw [if_neg hletter]
  have hmark := markSegment_stands c cs (by simpa using hblank) hquote (by simpa using hdigit)
    (by simpa using hletter)
  by_cases hslash : c = '/'
  · rw [if_pos hslash]
    split
    · exact lineCommentSegment_stands _
    · exact blockCommentSegment_stands _
    · next hline hblock =>
      refine hmark fun _ d hd => ?_
      obtain ⟨rest, hrest⟩ := List.head?_eq_some_iff.mp hd
      rw [not_or]
      exact ⟨fun h => hline rest (h ▸ hrest), fun h => hblock rest (h ▸ hrest)⟩
  · rw [if_neg hslash]
    exact hmark fun h => absurd h hslash

end Sound

/-- The cut of a text divides it. -/
lemma divided_segments (cs : List Char) : Divided cs (segments cs) := by
  induction cs using segments_induction with
  | nil => exact .nil
  | cons c cs ih =>
    rw [segments_cons]
    have hdivided := Divided.cons (nextSegment_stands c cs) ih
    rwa [nextSegment_append] at hdivided

/-! ## Nothing else may stand there -/

section Unique

variable {s : Segment} {rest : List Char}

lemma lineCommentSegment_of_endsRun {body : List Char} (hbody : '\n' ∉ body)
    (hrest : EndsRun (· ≠ '\n') rest) :
    lineCommentSegment (body ++ rest) = (⟨.lineComment, '/' :: '/' :: body⟩, rest) := by
  have hinside : ∀ d ∈ body, decide (d ≠ '\n') = true := by
    intro d hd
    exact decide_eq_true fun h => hbody (h ▸ hd)
  have hend : rest.head?.any (· ≠ '\n') = false := (endsRun_iff (by simp)).mp hrest
  simp only [lineCommentSegment, takeWhile_append_of_head? hinside hend,
    dropWhile_append_of_head? hinside hend]

lemma stringSegment_of_body {body : List Char} (hbody : '"' ∉ body) (rest : List Char) :
    stringSegment (body ++ '"' :: rest) = (⟨.string, '"' :: (body ++ ['"'])⟩, rest) := by
  have hinside : ∀ d ∈ body, decide (d ≠ '"') = true := by
    intro d hd
    exact decide_eq_true fun h => hbody (h ▸ hd)
  have hquote : ('"' :: rest).head?.any (· ≠ '"') = false := rfl
  simp only [stringSegment, takeWhile_append_of_head? hinside hquote,
    dropWhile_append_of_head? hinside hquote]

lemma stringSegment_of_not_mem {body : List Char} (hbody : '"' ∉ body) :
    stringSegment body = (⟨.openString, '"' :: body⟩, []) := by
  have hdrop : body.dropWhile (· ≠ '"') = [] := by
    rw [List.dropWhile_eq_nil_iff]
    intro d hd
    exact decide_eq_true fun h => hbody (h ▸ hd)
  simp only [stringSegment, hdrop]

lemma nextSegment_of_isDigit {c : Char} (h : c.isDigit = true) (cs : List Char) :
    nextSegment c cs = numberSegment c cs := by
  have hne : ∀ d : Char, d.isDigit = false → c ≠ d := by
    rintro d hd rfl
    rw [h] at hd
    cases hd
  have hgap : isGap c = false := by
    simp only [isGap, hne ' ' rfl, hne '\t' rfl, hne '\r' rfl, hne '\n' rfl, decide_false,
      Bool.or_false]
  simp only [nextSegment, hgap, if_neg (hne '"' rfl), h, Bool.false_eq_true, if_false, if_true]

/-- A character that writes a mark is no blank, quote, digit or letter, and a slash that starts no
comment is a mark. -/
lemma nextSegment_of_ofChar? {c : Char} {m : Mark} (h : Mark.ofChar? c = some m) {cs : List Char}
    (hslash : m = .slash → EndsRun (fun d => d = '/' ∨ d = '*') cs) :
    nextSegment c cs = markSegment c cs := by
  have hspelling := Mark.spelling_of_ofChar? h
  cases m
  case slash =>
    have hc : c = '/' := (List.cons.inj hspelling).1.symm
    subst hc
    have hend := hslash rfl
    rw [nextSegment_slash (fun h => hend _ h (.inl rfl)) (fun h => hend _ h (.inr rfl))]
    cases cs <;> rfl
  case bangEqual | equalEqual | greaterEqual | lessEqual => simp [Mark.spelling] at hspelling
  all_goals
    have hc := (List.cons.inj hspelling).1.symm
    subst hc
    rfl

lemma markSegment_of_longest {c : Char} {m : Mark} (h : Mark.ofChar? c = some m)
    (hlongest : ∀ other : Mark, other.spelling.toList <+: m.spelling.toList ++ rest →
      other.spelling.toList.length ≤ m.spelling.toList.length) :
    markSegment c rest = (⟨.mark m, [c]⟩, rest) := by
  simp only [markSegment, h]
  split
  · next longer after hlonger =>
    -- The longer mark is written here too.
    have hspelling := Mark.spelling_of_withEqual? hlonger
    have hlength := hlongest longer ⟨after, by simp [hspelling]⟩
    simp [hspelling] at hlength
  · rfl

/-- **A segment that may stand in front of a rest is the next one there.** -/
lemma Segment.StandsBefore.nextSegment_eq (h : s.StandsBefore rest) :
    ∃ c cs, s.text ++ rest = c :: cs ∧ nextSegment c cs = (s, rest) := by
  cases h with
  | @blank c rest hc =>
    refine ⟨c, rest, rfl, ?_⟩
    simp only [nextSegment, if_pos ((isGap_iff c).mpr hc)]
  | @lineComment body rest hbody hrest =>
    exact ⟨'/', '/' :: (body ++ rest), rfl, lineCommentSegment_of_endsRun hbody hrest⟩
  | @blockComment body rest hbody =>
    refine ⟨'/', '*' :: (body ++ '*' :: '/' :: rest), by simp, ?_⟩
    show blockCommentSegment (body ++ '*' :: '/' :: rest) = _
    simp only [blockCommentSegment, splitClose_of_unclosed hbody]
  | @openComment body hbody =>
    refine ⟨'/', '*' :: body, by simp, ?_⟩
    show blockCommentSegment body = _
    simp only [blockCommentSegment, splitClose_eq_none_iff.mpr hbody]
  | @string body rest hbody =>
    exact ⟨'"', body ++ '"' :: rest, by simp, stringSegment_of_body hbody rest⟩
  | @openString body hbody => exact ⟨'"', body, by simp, stringSegment_of_not_mem hbody⟩
  | @whole digits rest hne hdigits hrest hpoint =>
    obtain ⟨c, digits, rfl⟩ := List.exists_cons_of_ne_nil hne
    obtain ⟨hc, hdigits⟩ := List.forall_mem_cons.mp hdigits
    refine ⟨c, digits ++ rest, rfl, ?_⟩
    rw [nextSegment_of_isDigit ((isDigit_iff c).mpr hc)]
    refine numberSegment_of_not_isFraction (fun d hd => (isDigit_iff d).mpr (hdigits d hd))
      ((endsRun_iff isDigit_iff).mp hrest) ?_
    unfold isFraction
    split
    · next d after =>
      have hd := hpoint (d :: after) rfl d rfl
      rwa [← isDigit_iff, Bool.not_eq_true] at hd
    · rfl
  | @fraction whole places rest hwhole hplaces hdigits hrest =>
    obtain ⟨c, whole, rfl⟩ := List.exists_cons_of_ne_nil hwhole
    obtain ⟨d, places, rfl⟩ := List.exists_cons_of_ne_nil hplaces
    simp only [List.cons_append, List.forall_mem_cons, List.forall_mem_append, ← isDigit_iff]
      at hdigits
    obtain ⟨hc, hbefore, hd, hbehind⟩ := hdigits
    refine ⟨c, whole ++ '.' :: d :: (places ++ rest), by simp, ?_⟩
    have hpoint : ('.' :: d :: (places ++ rest)).head?.any Char.isDigit = false := rfl
    have hend := (endsRun_iff isDigit_iff).mp hrest
    rw [nextSegment_of_isDigit hc]
    simp only [numberSegment, takeWhile_append_of_head? hbefore hpoint,
      dropWhile_append_of_head? hbefore hpoint, hd, if_true,
      takeWhile_append_of_head? hbehind hend, dropWhile_append_of_head? hbehind hend,
      List.cons_append]
  | @word c cs rest hc hcs hrest =>
    refine ⟨c, cs ++ rest, rfl, ?_⟩
    rw [nextSegment_of_isWordStart ((isWordStart_iff c).mpr hc)]
    exact wordSegment_of_head? (fun d hd => (isWordPart_iff d).mpr (hcs d hd))
      ((endsRun_iff isWordPart_iff).mp hrest)
  | @mark m rest hlongest hslash =>
    rcases m.spelling_cases with ⟨c, hspelling, hc⟩ | ⟨c, short, hspelling, hc, hlonger⟩
    · refine ⟨c, rest, by simp [hspelling], ?_⟩
      rw [nextSegment_of_ofChar? hc hslash, markSegment_of_longest hc hlongest, hspelling]
    · refine ⟨c, '=' :: rest, by simp [hspelling], ?_⟩
      have hequal : EndsRun (fun d => d = '/' ∨ d = '*') ('=' :: rest) := by simp [EndsRun]
      rw [nextSegment_of_ofChar? hc fun _ => hequal]
      simp only [markSegment, hc, hlonger, hspelling]
  | @stray c rest hblank hquote hnumeral hletter hmark =>
    rw [← isGap_iff] at hblank
    rw [← isDigit_iff] at hnumeral
    rw [← isWordStart_iff] at hletter
    have hnone : Mark.ofChar? c = none := by
      refine Option.eq_none_iff_forall_not_mem.mpr fun m hm => hmark m ?_
      rw [Mark.spelling_of_ofChar? hm]
      rfl
    have hslash : c ≠ '/' := by
      rintro rfl
      cases hnone
    refine ⟨c, rest, rfl, ?_⟩
    simp only [nextSegment, if_neg hblank, if_neg hquote, if_neg hnumeral, if_neg hletter,
      if_neg hslash, markSegment, hnone]

/-- A segment ends as many lines further down as it has line feeds. -/
lemma Segment.StandsBefore.linesPassed_eq (h : s.StandsBefore rest) :
    s.linesPassed = lineFeeds s.text := by
  obtain ⟨c, cs, -, hnext⟩ := h.nextSegment_eq
  have hpassed := linesPassed_nextSegment c cs
  rwa [hnext] at hpassed

/-- A text is divided in no other way than the one in which it is cut. -/
lemma Divided.eq_segments {cs : List Char} {l : List Segment} (h : Divided cs l) :
    l = segments cs := by
  induction h with
  | nil => rfl
  | cons hs _ ih =>
    obtain ⟨c, cs, htext, hnext⟩ := hs.nextSegment_eq
    rw [htext, segments_cons, hnext, ← ih]

end Unique

/-! ## What the segments show -/

/-- Blanks and comments give no item. -/
def SegmentClass.isSkipped : SegmentClass → Bool
  | .blank | .lineComment | .blockComment => true
  | _ => false

/-- The number that digits before and behind a point write. -/
def writtenNumber (whole places : List Char) : Float :=
  Number.Decimal.toFloat ⟨Number.ofDigits (whole ++ places), -(places.length : Int)⟩

/-- **What a segment shows** that ends on a line: a token whose text is the segment, with the
payload that stands in it, or a complaint. -/
inductive Segment.Shows (line : Nat) : Segment → Item → Prop
  | openComment (text : List Char) :
      Shows line ⟨.openComment, text⟩ (.complaint line .openComment)
  | openString (text : List Char) : Shows line ⟨.openString, text⟩ (.complaint line .openString)
  | stray (c : Char) : Shows line ⟨.stray, [c]⟩ (.complaint line (.strayCharacter c))
  | string (body : List Char) : Shows line ⟨.string, '"' :: (body ++ ['"'])⟩
      (.token ⟨.string (.ofList body), .ofList ('"' :: (body ++ ['"'])), line⟩)
  | whole {digits : List Char} (hdigits : ∀ c ∈ digits, IsNumeral c) :
      Shows line ⟨.number, digits⟩
        (.token ⟨.number (writtenNumber digits []), .ofList digits, line⟩)
  | fraction {whole places : List Char} (hdigits : ∀ c ∈ whole ++ places, IsNumeral c) :
      Shows line ⟨.number, whole ++ '.' :: places⟩
        (.token ⟨.number (writtenNumber whole places), .ofList (whole ++ '.' :: places), line⟩)
  | keyword (k : Keyword) :
      Shows line ⟨.word, k.spelling.toList⟩ (.token ⟨.keyword k, k.spelling, line⟩)
  | name {word : List Char} (hword : ∀ k : Keyword, word ≠ k.spelling.toList) :
      Shows line ⟨.word, word⟩ (.token ⟨.identifier, .ofList word, line⟩)
  | mark (m : Mark) :
      Shows line ⟨.mark m, m.spelling.toList⟩ (.token ⟨.mark m, m.spelling, line⟩)

/-- **Items that are those of segments, one by one and in order**, blanks and comments left out.
The segments start on a line, and each item is on the line where its segment ends. -/
inductive Shown : Nat → List Segment → List Item → Prop
  | nil (line : Nat) : Shown line [] []
  | skip {line : Nat} {s : Segment} {l : List Segment} {items : List Item}
      (hs : s.cls.isSkipped = true) (hrest : Shown (line + lineFeeds s.text) l items) :
      Shown line (s :: l) items
  | cons {line : Nat} {s : Segment} {item : Item} {l : List Segment} {items : List Item}
      (hs : s.cls.isSkipped = false) (hshows : s.Shows (line + lineFeeds s.text) item)
      (hrest : Shown (line + lineFeeds s.text) l items) : Shown line (s :: l) (item :: items)

section Items

variable {s : Segment} {rest : List Char}

lemma literalValue_whole {digits : List Char} (hne : digits ≠ [])
    (hdigits : ∀ c ∈ digits, c.isDigit = true) :
    literalValue digits = writtenNumber digits [] := by
  have hend : ([] : List Char).head?.any Char.isDigit = false := rfl
  have htake := takeWhile_append_of_head? hdigits hend
  have hdrop := dropWhile_append_of_head? hdigits hend
  rw [List.append_nil] at htake hdrop
  simp [literalValue, Number.decimal?, Number.spanDigits, htake, hdrop, hne, Number.exponentPart?,
    writtenNumber]

lemma literalValue_fraction {whole places : List Char} (hne : whole ≠ [])
    (hwhole : ∀ c ∈ whole, c.isDigit = true) (hplaces : ∀ c ∈ places, c.isDigit = true) :
    literalValue (whole ++ '.' :: places) = writtenNumber whole places := by
  have hpoint : ('.' :: places).head?.any Char.isDigit = false := rfl
  have hend : ([] : List Char).head?.any Char.isDigit = false := rfl
  have htake := takeWhile_append_of_head? hplaces hend
  have hdrop := dropWhile_append_of_head? hplaces hend
  rw [List.append_nil] at htake hdrop
  simp [literalValue, Number.decimal?, Number.spanDigits, takeWhile_append_of_head? hwhole hpoint,
    dropWhile_append_of_head? hwhole hpoint, htake, hdrop, hne, Number.exponentPart?,
    writtenNumber]

/-- A word is a keyword exactly if it is one of their spellings. -/
lemma Segment.shows_word (line : Nat) (word : List Char) :
    Segment.Shows line ⟨.word, word⟩
      (.token ⟨.ofWord (.ofList word), .ofList word, line⟩) := by
  unfold Kind.ofWord
  cases hword : Keyword.ofWord? (.ofList word) with
  | none =>
    refine .name fun k hk => ?_
    rw [hk, String.ofList_toList, Keyword.ofWord?_spelling] at hword
    cases hword
  | some k =>
    have hspelling := Keyword.spelling_of_ofWord? hword
    have hlist : word = k.spelling.toList := by rw [hspelling, String.toList_ofList]
    rw [← hspelling, hlist]
    exact .keyword k

/-- A segment that may stand somewhere gives no item, or the one that it shows. -/
lemma Segment.StandsBefore.item? (h : s.StandsBefore rest) (line : Nat) :
    s.cls.isSkipped = true ∧ s.item? line = none ∨
      s.cls.isSkipped = false ∧ ∃ item, s.item? line = some item ∧ s.Shows line item := by
  cases h with
  | blank | lineComment | blockComment => exact .inl ⟨rfl, rfl⟩
  | openComment => exact .inr ⟨rfl, _, rfl, .openComment _⟩
  | openString => exact .inr ⟨rfl, _, rfl, .openString _⟩
  | stray => exact .inr ⟨rfl, _, rfl, .stray _⟩
  | @string body _ hbody =>
    have hunquote : unquote ('"' :: (body ++ ['"'])) = body := by simp [unquote]
    refine .inr ⟨rfl, _, rfl, ?_⟩
    rw [hunquote]
    exact .string body
  | @whole digits _ hne hdigits =>
    have hvalue := literalValue_whole hne fun c hc => (isDigit_iff c).mpr (hdigits c hc)
    refine .inr ⟨rfl, _, rfl, ?_⟩
    rw [hvalue]
    exact .whole hdigits
  | @fraction whole places _ hwhole _ hdigits =>
    have hdigit : ∀ c ∈ whole ++ places, c.isDigit = true :=
      fun c hc => (isDigit_iff c).mpr (hdigits c hc)
    rw [List.forall_mem_append] at hdigit
    have hvalue := literalValue_fraction hwhole hdigit.1 hdigit.2
    refine .inr ⟨rfl, _, rfl, ?_⟩
    rw [hvalue]
    exact .fraction hdigits
  | word => exact .inr ⟨rfl, _, rfl, Segment.shows_word line _⟩
  | mark =>
    refine .inr ⟨rfl, _, rfl, ?_⟩
    rw [String.ofList_toList]
    exact .mark _

/-- The items of a divided text are those that its segments show, and the end of the source. -/
lemma Divided.exists_items {cs : List Char} {l : List Segment} (h : Divided cs l) (line : Nat) :
    ∃ items, Shown line l items ∧
      itemsFrom line l = items ++ [.token ⟨.eof, "", line + lineFeeds cs⟩] := by
  induction h generalizing line with
  | nil => exact ⟨[], .nil line, rfl⟩
  | @cons s rest l hs _ ih =>
    obtain ⟨items, hshown, hitems⟩ := ih (line + lineFeeds s.text)
    rw [Nat.add_assoc, ← lineFeeds_append] at hitems
    have hpassed := hs.linesPassed_eq
    rcases hs.item? (line + lineFeeds s.text) with ⟨hskipped, hnone⟩ | ⟨hkept, item, hsome, hshows⟩
    · refine ⟨items, .skip hskipped hshown, ?_⟩
      simp only [itemsFrom, hpassed, hnone, hitems]
    · refine ⟨item :: items, .cons hkept hshows hshown, ?_⟩
      simp only [itemsFrom, hpassed, hsome, hitems, List.cons_append]

lemma Segment.Shows.ne_eof {line : Nat} {t : Token} (h : s.Shows line (.token t)) :
    t.kind ≠ .eof := by
  cases h <;> exact nofun

lemma Shown.ne_eof {line : Nat} {l : List Segment} {items : List Item} (h : Shown line l items) :
    ∀ t, .token t ∈ items → t.kind ≠ .eof := by
  induction h with
  | nil => exact nofun
  | skip _ _ ih => exact ih
  | cons _ hshows _ ih =>
    intro t ht
    rcases List.mem_cons.mp ht with rfl | hmem
    · exact hshows.ne_eof
    · exact ih t hmem

end Items

end LoxLang
