import LoxLang.Diagnostic
import Mathlib.Tactic.Common

/-!
# Sources written one below the other

A source that leaves no string and no block comment open can be followed by another one on a new
line.  Each of its segments is complete, and the line feed behind it extends none of them: a word, a
number or a line comment ends before a line feed, and so does a mark that another character could
have made longer.  So the items of the two sources together are those of the first without its end,
and then those of the second, moved down by the lines of the first (`scan_below`).

A stray character is a complaint, but it is complete.  So the first source may have complaints of
that sort, and only an open segment, which would take in the second source, is excluded.
-/

namespace LoxLang

/-! ## The next segment in front of a line feed -/

section Runs

variable {p : Char → Bool} {c : Char}

/-- A run of characters ends before a character that does not belong to it. -/
lemma takeWhile_append_cons (hc : p c = false) (cs rest : List Char) :
    (cs ++ c :: rest).takeWhile p = cs.takeWhile p := by
  induction cs with
  | nil => simp [hc]
  | cons d cs ih => by_cases hd : p d = true <;> simp [hd, ih]

lemma dropWhile_append_cons (hc : p c = false) (cs rest : List Char) :
    (cs ++ c :: rest).dropWhile p = cs.dropWhile p ++ c :: rest := by
  induction cs with
  | nil => simp [hc]
  | cons d cs ih => by_cases hd : p d = true <;> simp [hd, ih]

/-- A run that ends inside a text is not affected by what follows the text. -/
lemma takeWhile_append_of_dropWhile {cs : List Char} (h : cs.dropWhile p ≠ []) (rest : List Char) :
    (cs ++ rest).takeWhile p = cs.takeWhile p := by
  induction cs with
  | nil => exact absurd rfl h
  | cons d cs ih =>
    by_cases hd : p d = true
    · rw [List.dropWhile_cons_of_pos hd] at h
      rw [List.cons_append, List.takeWhile_cons_of_pos hd, List.takeWhile_cons_of_pos hd, ih h]
    · rw [List.cons_append, List.takeWhile_cons_of_neg hd, List.takeWhile_cons_of_neg hd]

lemma dropWhile_append_of_dropWhile {cs : List Char} (h : cs.dropWhile p ≠ []) (rest : List Char) :
    (cs ++ rest).dropWhile p = cs.dropWhile p ++ rest := by
  induction cs with
  | nil => exact absurd rfl h
  | cons d cs ih =>
    by_cases hd : p d = true
    · rw [List.dropWhile_cons_of_pos hd] at h
      rw [List.cons_append, List.dropWhile_cons_of_pos hd, List.dropWhile_cons_of_pos hd, ih h]
    · rw [List.cons_append, List.dropWhile_cons_of_neg hd, List.dropWhile_cons_of_neg hd,
        List.cons_append]

end Runs

/-- Does a segment of the class reach to the end of the source for want of an end? -/
def SegmentClass.isOpen : SegmentClass → Bool
  | .openComment | .openString => true
  | _ => false

section NextSegment

variable {cs rest : List Char}

lemma splitClose_append {body after : List Char} (h : splitClose cs = some (body, after))
    (rest : List Char) : splitClose (cs ++ rest) = some (body, after ++ rest) := by
  fun_induction splitClose cs generalizing body after with
  | case1 => simp at h
  | case2 behind =>
    simp only [Option.some.injEq, Prod.mk.injEq] at h
    obtain ⟨rfl, rfl⟩ := h
    rfl
  | case3 c cs hclose ih =>
    obtain ⟨⟨body', after'⟩, hsplit, heq⟩ := Option.map_eq_some_iff.mp h
    simp only [Prod.mk.injEq] at heq
    obtain ⟨rfl, rfl⟩ := heq
    have hne : ∀ behind, c = '*' → cs ++ rest = '/' :: behind → False := by
      intro behind hc hcs
      cases cs with
      | nil => simp [splitClose] at hsplit
      | cons d cs =>
        rw [List.cons_append, List.cons.injEq] at hcs
        exact hclose cs hc (by rw [hcs.1])
    rw [List.cons_append, splitClose, ih hsplit]
    · rfl
    · exact hne

lemma lineCommentSegment_append_feed (cs rest : List Char) :
    lineCommentSegment (cs ++ '\n' :: rest) =
      ((lineCommentSegment cs).1, (lineCommentSegment cs).2 ++ '\n' :: rest) := by
  have htake := takeWhile_append_cons (p := (· ≠ '\n')) (c := '\n') (by decide) cs rest
  have hdrop := dropWhile_append_cons (p := (· ≠ '\n')) (c := '\n') (by decide) cs rest
  simp only [lineCommentSegment, htake, hdrop]

lemma blockCommentSegment_append_rest (h : (blockCommentSegment cs).1.cls.isOpen = false)
    (rest : List Char) : blockCommentSegment (cs ++ rest) =
      ((blockCommentSegment cs).1, (blockCommentSegment cs).2 ++ rest) := by
  cases hsplit : splitClose cs with
  | none => simp [blockCommentSegment, hsplit, SegmentClass.isOpen] at h
  | some found => simp only [blockCommentSegment, hsplit, splitClose_append hsplit]

lemma stringSegment_append_rest (h : (stringSegment cs).1.cls.isOpen = false) (rest : List Char) :
    stringSegment (cs ++ rest) = ((stringSegment cs).1, (stringSegment cs).2 ++ rest) := by
  cases hdrop : cs.dropWhile (· ≠ '"') with
  | nil =>
    simp only [stringSegment, hdrop] at h
    cases h
  | cons q behind =>
    have hne : cs.dropWhile (· ≠ '"') ≠ [] := by
      rw [hdrop]
      exact List.cons_ne_nil q behind
    simp only [stringSegment, takeWhile_append_of_dropWhile hne, dropWhile_append_of_dropWhile hne,
      hdrop, List.cons_append]

lemma numberSegment_append_feed (c : Char) (cs rest : List Char) :
    numberSegment c (cs ++ '\n' :: rest) =
      ((numberSegment c cs).1, (numberSegment c cs).2 ++ '\n' :: rest) := by
  have hfeed : Char.isDigit '\n' = false := by decide
  simp only [numberSegment, takeWhile_append_cons hfeed, dropWhile_append_cons hfeed]
  rcases hdrop : cs.dropWhile Char.isDigit with _ | ⟨d, _ | ⟨e, behind⟩⟩
  · rfl
  · -- A point at the end of the text is followed by the line feed, which is no digit.
    by_cases hd : d = '.'
    · subst hd
      simp [hfeed]
    · simp [hd]
  · by_cases hd : d = '.'
    · subst hd
      simp only [List.cons_append, takeWhile_append_cons hfeed, dropWhile_append_cons hfeed]
      split <;> simp
    · simp [hd]

lemma wordSegment_append_feed (c : Char) (cs rest : List Char) :
    wordSegment c (cs ++ '\n' :: rest) =
      ((wordSegment c cs).1, (wordSegment c cs).2 ++ '\n' :: rest) := by
  have hfeed : isWordPart '\n' = false := by decide
  simp only [wordSegment, takeWhile_append_cons hfeed, dropWhile_append_cons hfeed]

lemma markSegment_append_feed (c : Char) (cs rest : List Char) :
    markSegment c (cs ++ '\n' :: rest) =
      ((markSegment c cs).1, (markSegment c cs).2 ++ '\n' :: rest) := by
  cases hmark : Mark.ofChar? c with
  | none => simp [markSegment, hmark]
  | some m =>
    simp only [markSegment, hmark]
    cases hlonger : m.withEqual? with
    | none => simp
    | some longer =>
      rcases cs with _ | ⟨d, cs⟩
      · simp
      · by_cases hd : d = '='
        · subst hd
          simp
        · simp [hd]

/-- **A complete segment is the same in front of a line feed.** -/
lemma nextSegment_append_feed {c : Char} (h : (nextSegment c cs).1.cls.isOpen = false)
    (rest : List Char) : nextSegment c (cs ++ '\n' :: rest) =
      ((nextSegment c cs).1, (nextSegment c cs).2 ++ '\n' :: rest) := by
  unfold nextSegment at h ⊢
  by_cases hgap : isGap c = true
  · simp only [if_pos hgap]
  simp only [if_neg hgap] at h ⊢
  by_cases hquote : c = '"'
  · simp only [if_pos hquote] at h ⊢
    exact stringSegment_append_rest h _
  simp only [if_neg hquote] at h ⊢
  by_cases hdigit : c.isDigit = true
  · simp only [if_pos hdigit]
    exact numberSegment_append_feed c cs rest
  simp only [if_neg hdigit] at h ⊢
  by_cases hword : isWordStart c = true
  · simp only [if_pos hword]
    exact wordSegment_append_feed c cs rest
  simp only [if_neg hword] at h ⊢
  by_cases hslash : c = '/'
  · simp only [if_pos hslash] at h ⊢
    rcases cs with _ | ⟨d, cs⟩
    · exact markSegment_append_feed c [] rest
    · by_cases hline : d = '/'
      · subst hline
        exact lineCommentSegment_append_feed cs rest
      · by_cases hblock : d = '*'
        · subst hblock
          exact blockCommentSegment_append_rest h _
        · simpa [hline, hblock] using markSegment_append_feed c (d :: cs) rest
  · simp only [if_neg hslash]
    exact markSegment_append_feed c cs rest

end NextSegment

/-- **Induction along the cut of a text**: what holds of the rest behind the first segment holds of
the text. -/
@[elab_as_elim]
lemma segments_induction {P : List Char → Prop} (nil : P [])
    (cons : ∀ c cs, P (nextSegment c cs).2 → P (c :: cs)) (cs : List Char) : P cs := by
  induction hlength : cs.length using Nat.strongRecOn generalizing cs with
  | _ n ih =>
    cases cs with
    | nil => exact nil
    | cons c cs =>
      have hle := length_nextSegment_le c cs
      have hlt : (nextSegment c cs).2.length < n := by
        rw [← hlength, List.length_cons]
        omega
      exact cons c cs (ih _ hlt _ rfl)

/-- **The segments of a text without an open one, and of another text on a new line.** -/
lemma segments_below {cs : List Char} (h : ∀ s ∈ segments cs, s.cls.isOpen = false)
    (rest : List Char) :
    segments (cs ++ '\n' :: rest) = segments cs ++ ⟨.blank, ['\n']⟩ :: segments rest := by
  induction cs using segments_induction with
  | nil =>
    rw [List.nil_append, segments_cons]
    rfl
  | cons c cs ih =>
    rw [segments_cons, List.forall_mem_cons] at h
    rw [List.cons_append, segments_cons, nextSegment_append_feed h.1, segments_cons, ih h.2,
      List.cons_append]

/-! ## Items and lines -/

/-- The token some lines further down. -/
def Token.later (k : Nat) (t : Token) : Token := { t with line := t.line + k }

@[simp] lemma Token.kind_later (k : Nat) (t : Token) : (t.later k).kind = t.kind := rfl

@[simp] lemma Token.lexeme_later (k : Nat) (t : Token) : (t.later k).lexeme = t.lexeme := rfl

/-- The item some lines further down. -/
def Item.later (k : Nat) : Item → Item
  | .token t => .token (t.later k)
  | .complaint line cause => .complaint (line + k) cause

lemma Segment.item?_later (s : Segment) (line k : Nat) :
    s.item? (line + k) = (s.item? line).map (Item.later k) := by
  unfold Segment.item?
  rcases s with ⟨cls, text⟩
  cases cls
  case stray => cases text <;> rfl
  all_goals rfl

/-- Only the first line matters for the lines of items. -/
lemma itemsFrom_later (line k : Nat) (l : List Segment) :
    itemsFrom (line + k) l = (itemsFrom line l).map (Item.later k) := by
  induction l generalizing line with
  | nil => rfl
  | cons s rest ih =>
    have hline : line + k + s.linesPassed = line + s.linesPassed + k := by omega
    have hitem := s.item?_later (line + s.linesPassed) k
    simp only [itemsFrom, hline, hitem, ih]
    cases s.item? (line + s.linesPassed) <;> rfl

/-- No segment is the end of the source. -/
lemma Segment.ne_eof_of_item? {s : Segment} {line : Nat} {t : Token}
    (h : s.item? line = some (.token t)) : t.kind ≠ .eof := by
  unfold Segment.item? at h
  rcases s with ⟨cls, text⟩
  cases cls
  case stray => cases text <;> simp at h
  all_goals
    simp only [Option.some.injEq, Item.token.injEq, reduceCtorEq] at h
  case word =>
    subst h
    simp only [Kind.ofWord]
    split <;> simp
  all_goals
    subst h
    simp

/-- The segments of a text end as many lines further down as they have line feeds. -/
lemma linesPassed_segments (cs : List Char) :
    ∀ s ∈ segments cs, s.linesPassed = lineFeeds s.text := by
  induction cs using segments_induction with
  | nil => exact fun s hs => nomatch hs
  | cons c cs ih =>
    rw [segments_cons, List.forall_mem_cons]
    exact ⟨linesPassed_nextSegment c cs, ih⟩

/-- The items of segments do not depend on the segments that follow, which start where they end. -/
lemma exists_itemsFrom_append (line : Nat) {l : List Segment}
    (hl : ∀ s ∈ l, s.linesPassed = lineFeeds s.text) :
    ∃ items, (∀ t, Item.token t ∈ items → t.kind ≠ .eof) ∧ ∀ l', itemsFrom line (l ++ l') =
      items ++ itemsFrom (line + lineFeeds (l.flatMap Segment.text)) l' := by
  induction l generalizing line with
  | nil => exact ⟨[], by simp, fun _ => rfl⟩
  | cons s rest ih =>
    obtain ⟨hs, hrest⟩ := List.forall_mem_cons.mp hl
    obtain ⟨items, heof, happend⟩ := ih (line + s.linesPassed) hrest
    have hline : line + lineFeeds ((s :: rest).flatMap Segment.text) =
        line + s.linesPassed + lineFeeds (rest.flatMap Segment.text) := by
      rw [List.flatMap_cons, lineFeeds_append, hs, Nat.add_assoc]
    cases hitem : s.item? (line + s.linesPassed) with
    | none =>
      refine ⟨items, heof, fun l' => ?_⟩
      rw [hline, ← happend]
      simp only [List.cons_append, itemsFrom, hitem]
    | some item =>
      refine ⟨item :: items, fun t ht => ?_, fun l' => ?_⟩
      · rcases List.mem_cons.mp ht with rfl | hmem
        · exact Segment.ne_eof_of_item? hitem
        · exact heof t hmem
      · simp only [hline, List.cons_append, itemsFrom, hitem, happend]

/-- A segment without its end is complained about. -/
lemma exists_complaint {l : List Segment} {s : Segment} (hs : s ∈ l) (hopen : s.cls.isOpen = true)
    (line : Nat) : ∃ at_ cause, (cause = .openString ∨ cause = .openComment) ∧
      .complaint at_ cause ∈ itemsFrom line l := by
  induction l generalizing line with
  | nil => cases hs
  | cons first rest ih =>
    rcases List.mem_cons.mp hs with rfl | hmem
    · rcases s with ⟨cls, text⟩
      cases cls <;> simp [SegmentClass.isOpen] at hopen
      case openComment => exact ⟨_, _, .inr rfl, .head _⟩
      case openString => exact ⟨_, _, .inl rfl, .head _⟩
    · obtain ⟨at_, cause, hcause, hcomplaint⟩ := ih hmem (line + first.linesPassed)
      refine ⟨at_, cause, hcause, ?_⟩
      simp only [itemsFrom]
      split
      · exact .tail _ hcomplaint
      · exact hcomplaint

/-! ## Sources one below the other -/

section Below

variable {first : String}

lemma isOpen_of_lexicalLog (h : lexicalLog first = []) :
    ∀ s ∈ segments first.toList, s.cls.isOpen = false := by
  intro s hs
  by_contra hopen
  obtain ⟨line, cause, -, hmem⟩ := exists_complaint hs (by simpa using hopen) 1
  have hdiagnostic : Diagnostic.lexical line cause.message ∈ lexicalLog first :=
    List.mem_filterMap.mpr ⟨_, hmem, rfl⟩
  simp [h] at hdiagnostic

/-- **The items of two sources**, when the first has no open segment. -/
lemma exists_scan_below (h : ∀ s ∈ segments first.toList, s.cls.isOpen = false) :
    ∃ items, (∀ t, Item.token t ∈ items → t.kind ≠ .eof) ∧
      scan first = items ++ [.token ⟨.eof, "", 1 + lineFeeds first.toList⟩] ∧
      ∀ second, scan (first ++ "\n" ++ second) =
        items ++ (scan second).map (Item.later (lineFeeds first.toList + 1)) := by
  obtain ⟨items, heof, happend⟩ := exists_itemsFrom_append 1 (linesPassed_segments first.toList)
  rw [flatMap_text_segments] at happend
  refine ⟨items, heof, ?_, fun second => ?_⟩
  · have hend := happend []
    rwa [List.append_nil] at hend
  · have hlist : (first ++ "\n" ++ second).toList = first.toList ++ '\n' :: second.toList := by
      simp
    have hfeed : itemsFrom (1 + lineFeeds first.toList)
        (⟨.blank, ['\n']⟩ :: segments second.toList) =
        itemsFrom (1 + (lineFeeds first.toList + 1)) (segments second.toList) := rfl
    rw [scan, hlist, segments_below h, happend, hfeed, itemsFrom_later]
    rfl

/-- **The tokens of two sources**: those of the first up to its end, and those of the second,
moved down by the lines of the first. -/
lemma tokensOf_below (h : lexicalLog first = []) (second : String) :
    tokensOf (first ++ "\n" ++ second) = (tokensOf first).takeWhile (!·.isEof) ++
      (tokensOf second).map (Token.later (lineFeeds first.toList + 1)) := by
  obtain ⟨items, heof, hfirst, hboth⟩ := exists_scan_below (isOpen_of_lexicalLog h)
  have htake : (tokensOf first).takeWhile (!·.isEof) = items.filterMap Item.token? := by
    have hall : ∀ t ∈ items.filterMap Item.token?, (!t.isEof) = true := by
      intro t ht
      obtain ⟨item, hitem, htoken⟩ := List.mem_filterMap.mp ht
      cases item <;> simp only [Item.token?, Option.some.injEq, reduceCtorEq] at htoken
      subst htoken
      simpa [Token.isEof] using heof _ hitem
    rw [tokensOf, hfirst, List.filterMap_append, List.takeWhile_append_of_pos hall]
    simp [Item.token?, Token.isEof]
  have hlater : ∀ item : Item, (item.later (lineFeeds first.toList + 1)).token? =
      item.token?.map (Token.later (lineFeeds first.toList + 1)) := by
    intro item
    cases item <;> rfl
  rw [htake, tokensOf, hboth, List.filterMap_append, List.filterMap_map, tokensOf,
    List.map_filterMap]
  simp only [Function.comp_def, hlater]

/-- Two sources without complaints have none together. -/
lemma lexicalLog_below (h : lexicalLog first = []) {second : String}
    (h' : lexicalLog second = []) : lexicalLog (first ++ "\n" ++ second) = [] := by
  obtain ⟨items, -, hfirst, hboth⟩ := exists_scan_below (isOpen_of_lexicalLog h)
  have hitems : items.filterMap Item.diagnostic? = [] := by
    rw [lexicalLog, hfirst, List.filterMap_append, List.append_eq_nil_iff] at h
    exact h.1
  have hlater : ∀ (item : Item) (k : Nat), item.diagnostic? = none →
      (item.later k).diagnostic? = none := by
    intro item k hitem
    cases item
    · rfl
    · simp [Item.diagnostic?] at hitem
  rw [lexicalLog, List.filterMap_eq_nil_iff] at h'
  rw [lexicalLog, hboth, List.filterMap_append, hitems, List.nil_append, List.filterMap_map,
    List.filterMap_eq_nil_iff]
  exact fun item hitem => hlater item _ (h' item hitem)

/-- **Items are those of one line after the other**: if the first source leaves no string and no
block comment open, the items of the two sources together are those of the first without its end,
and then those of the second, moved down by the lines of the first. -/
theorem scan_below (hstring : ∀ line, .complaint line .openString ∉ scan first)
    (hcomment : ∀ line, .complaint line .openComment ∉ scan first) (second : String) :
    ∃ items, scan first = items ++ [.token ⟨.eof, "", 1 + lineFeeds first.toList⟩] ∧
      (∀ t, .token t ∈ items → t.kind ≠ .eof) ∧
      scan (first ++ "\n" ++ second) =
        items ++ (scan second).map (Item.later (1 + lineFeeds first.toList)) := by
  have hcomplete : ∀ s ∈ segments first.toList, s.cls.isOpen = false := by
    intro s hs
    by_contra hopen
    obtain ⟨line, cause, hcause, hmem⟩ := exists_complaint hs (by simpa using hopen) 1
    rcases hcause with rfl | rfl
    · exact hstring line hmem
    · exact hcomment line hmem
  obtain ⟨items, heof, hfirst, hboth⟩ := exists_scan_below hcomplete
  refine ⟨items, hfirst, heof, ?_⟩
  rw [hboth second, Nat.add_comm 1]

/-- A stray character, and a slash at the end that the text behind it would make a comment. -/
theorem scan_below_slash :
    ∃ items, scan "a !\n$ /" = items ++ [.token ⟨.eof, "", 2⟩] ∧
      (∀ t, .token t ∈ items → t.kind ≠ .eof) ∧
      scan ("a !\n$ /" ++ "\n" ++ "/= b\"") =
        items ++ (scan "/= b\"").map (Item.later 2) := by
  have hscan : scan "a !\n$ /" = [.token ⟨.identifier, "a", 1⟩, .token ⟨.mark .bang, "!", 1⟩,
      .complaint 2 (.strayCharacter '$'), .token ⟨.mark .slash, "/", 2⟩,
      .token ⟨.eof, "", 2⟩] := by decide +kernel
  have hstring : ∀ line, .complaint line .openString ∉ scan "a !\n$ /" := by simp [hscan]
  have hcomment : ∀ line, .complaint line .openComment ∉ scan "a !\n$ /" := by simp [hscan]
  exact scan_below hstring hcomment "/= b\""

end Below

end LoxLang
