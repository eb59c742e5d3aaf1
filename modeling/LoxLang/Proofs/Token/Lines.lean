import LoxLang.Proofs.Token.Division

/-!
# The lines of items

An item is on the line on which the text that it was read from ends.  This text is a segment of the
division of the source, so the line can be said without the running count that computes it: one
more than the line feeds that stand in the source up to the end of the segment.

Which segment it is follows from the place of the item among the items (`Shown.exists_segment`).
Blanks and comments give no item, so the `i`-th item was read from the segment that `i` others
without them stand in front of.  The token for the end of the source was read from no segment and
stands behind all of them.
-/

namespace LoxLang

/-- The line on which an item stands. -/
def Item.line : Item → Nat
  | .token t => t.line
  | .complaint line _ => line

/-- Does a segment give an item? -/
def Segment.givesItem (s : Segment) : Bool := !s.cls.isSkipped

/-- **An item was read from a segment of a source**, and is on the line on which the segment ends.
The segment is the text of a token, the one character that is out of place, or what is left open and
reaches to the end of the source. -/
structure Item.ReadFrom (source : String) (before : List Segment) (s : Segment)
    (after : List Segment) (item : Item) : Prop where
  source_eq : source.toList =
    before.flatMap Segment.text ++ s.text ++ after.flatMap Segment.text
  line_eq : item.line = 1 + lineFeeds (before.flatMap Segment.text ++ s.text)
  token : ∀ t, item = .token t → t.kind ≠ .eof ∧ t.lexeme.toList = s.text
  complaint : ∀ line cause, item = .complaint line cause →
    (∃ c, cause = .strayCharacter c ∧ s.text = [c]) ∨
      (cause = .openString ∨ cause = .openComment) ∧ after = [] ∧
        line = 1 + lineFeeds source.toList

section

variable {s : Segment} {line : Nat} {item : Item} {l : List Segment} {items : List Item}

lemma Segment.Shows.line_eq (h : s.Shows line item) : item.line = line := by
  cases h <;> rfl

/-- A token is shown by its own text. -/
lemma Segment.Shows.lexeme_eq {t : Token} (h : s.Shows line (.token t)) :
    t.lexeme.toList = s.text := by
  cases h with
  | keyword | mark => rfl
  | string | whole | fraction | name => exact String.toList_ofList

/-- What a complaint is about: one character, or a segment without its end. -/
lemma Segment.Shows.of_complaint {at_ : Nat} {cause : LexicalCause}
    (h : s.Shows line (.complaint at_ cause)) :
    (∃ c, cause = .strayCharacter c ∧ s.text = [c]) ∨
      (cause = .openString ∨ cause = .openComment) ∧ s.cls.isOpen = true := by
  cases h with
  | stray c => exact .inl ⟨c, rfl, rfl⟩
  | openString => exact .inr ⟨.inl rfl, rfl⟩
  | openComment => exact .inr ⟨.inr rfl, rfl⟩

lemma Shown.length_eq (h : Shown line l items) : items.length = l.countP Segment.givesItem := by
  induction h with
  | nil => rfl
  | skip hs _ ih => rw [ih, List.countP_cons_of_neg (by simp [Segment.givesItem, hs])]
  | cons hs _ _ ih =>
    rw [List.length_cons, ih, List.countP_cons_of_pos (by simp [Segment.givesItem, hs])]

/-- **The segment that an item was read from**, with the segments in front of it. -/
lemma Shown.exists_segment (h : Shown line l items) {i : Nat} (hi : items[i]? = some item) :
    ∃ before s after, l = before ++ s :: after ∧ before.countP Segment.givesItem = i ∧
      s.Shows (line + lineFeeds ((before ++ [s]).flatMap Segment.text)) item := by
  have hfeeds : ∀ (line : Nat) (first : Segment) (more : List Segment),
      line + lineFeeds first.text + lineFeeds (more.flatMap Segment.text) =
        line + lineFeeds ((first :: more).flatMap Segment.text) := by
    intro line first more
    rw [List.flatMap_cons, lineFeeds, lineFeeds, lineFeeds, List.count_append, Nat.add_assoc]
  induction h generalizing i with
  | nil => simp at hi
  | @skip line first l items hs _ ih =>
    obtain ⟨before, s, after, rfl, hcount, hshows⟩ := ih hi
    rw [hfeeds] at hshows
    refine ⟨first :: before, s, after, rfl, ?_, hshows⟩
    rw [List.countP_cons_of_neg (by simp [Segment.givesItem, hs]), hcount]
  | @cons line first firstItem l items hs hfirst _ ih =>
    cases i with
    | zero =>
      rw [List.getElem?_cons_zero, Option.some.injEq] at hi
      subst hi
      refine ⟨[], first, l, rfl, rfl, ?_⟩
      rwa [List.nil_append, List.flatMap_cons, List.flatMap_nil, List.append_nil]
    | succ i =>
      rw [List.getElem?_cons_succ] at hi
      obtain ⟨before, s, after, rfl, hcount, hshows⟩ := ih hi
      rw [hfeeds] at hshows
      refine ⟨first :: before, s, after, rfl, ?_, hshows⟩
      rw [List.countP_cons_of_pos (by simp [Segment.givesItem, hs]), hcount]

/-- Nothing stands behind a segment without its end. -/
lemma Divided.eq_nil_of_isOpen {cs : List Char} {before after : List Segment}
    (h : Divided cs (before ++ s :: after)) (hopen : s.cls.isOpen = true) : after = [] := by
  induction before generalizing cs with
  | nil =>
    rw [List.nil_append] at h
    cases h with
    | cons hs hafter =>
      cases hs
      case openComment | openString => exact hafter.eq_segments
      all_goals cases hopen
  | cons first before ih =>
    rw [List.cons_append] at h
    cases h with
    | cons _ hrest => exact ih hrest

/-- What the division of a source shows on the line where a segment ends was read from there. -/
lemma Segment.Shows.readFrom {source : String} {before after : List Segment}
    (hdivided : Divided source.toList (before ++ s :: after))
    (h : s.Shows (1 + lineFeeds ((before ++ [s]).flatMap Segment.text)) item) :
    item.ReadFrom source before s after := by
  have hread : (before ++ [s]).flatMap Segment.text = before.flatMap Segment.text ++ s.text := by
    rw [List.flatMap_append, List.flatMap_singleton]
  have hsource : source.toList =
      before.flatMap Segment.text ++ s.text ++ after.flatMap Segment.text := by
    rw [← flatMap_text_segments source.toList, ← hdivided.eq_segments, List.flatMap_append,
      List.flatMap_cons, List.append_assoc]
  rw [hread] at h
  refine ⟨hsource, h.line_eq, ?_, ?_⟩
  · rintro t rfl
    exact ⟨h.ne_eof, h.lexeme_eq⟩
  · rintro line cause rfl
    rcases h.of_complaint with hstray | ⟨hcause, hopen⟩
    · exact .inl hstray
    · -- An open segment is the last one, and what is read up to its end is the whole source.
      have hafter := hdivided.eq_nil_of_isOpen hopen
      have hline : line = 1 + lineFeeds (before.flatMap Segment.text ++ s.text) := h.line_eq
      rw [hafter, List.flatMap_nil, List.append_nil] at hsource
      rw [← hsource] at hline
      exact .inr ⟨hcause, hafter, hline⟩

end

/-- **The line of every item.**  There is one division of the source.  An item was read from a
segment of it, the one that its place among the items determines, and is on the line where this
segment ends.  The only other item is the end of the source, which comes last. -/
theorem scan_lines (source : String) :
    ∃ l, Divided source.toList l ∧ (∀ l', Divided source.toList l' → l' = l) ∧
      (scan source).length = l.countP Segment.givesItem + 1 ∧
      ∀ i item, (scan source)[i]? = some item →
        (∃ before s after, l = before ++ s :: after ∧ s.givesItem = true ∧
          before.countP Segment.givesItem = i ∧ item.ReadFrom source before s after) ∨
        i = l.countP Segment.givesItem ∧
          item = .token ⟨.eof, "", 1 + lineFeeds source.toList⟩ := by
  have hdivided := divided_segments source.toList
  obtain ⟨items, hshown, hitems⟩ := hdivided.exists_items 1
  have hscan : scan source = items ++ [.token ⟨.eof, "", 1 + lineFeeds source.toList⟩] := hitems
  have hlength := hshown.length_eq
  refine ⟨segments source.toList, hdivided, fun l' => Divided.eq_segments, ?_, fun i item hi => ?_⟩
  · rw [hscan, List.length_append, hlength, List.length_singleton]
  rw [hscan] at hi
  rcases Nat.lt_or_ge i items.length with hlt | hge
  · rw [List.getElem?_append_left hlt] at hi
    obtain ⟨before, s, after, hl, hcount, hshows⟩ := hshown.exists_segment hi
    rw [hl] at hdivided
    refine .inl ⟨before, s, after, hl, ?_, hcount, hshows.readFrom hdivided⟩
    cases hshows <;> rfl
  · rw [List.getElem?_append_right hge, List.getElem?_singleton] at hi
    obtain ⟨hzero, hitem⟩ := Option.ite_none_right_eq_some.mp hi
    rw [← hlength]
    exact .inr ⟨by omega, (Option.some.inj hitem).symm⟩

end LoxLang
