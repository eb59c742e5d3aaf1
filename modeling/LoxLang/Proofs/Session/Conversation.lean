import LoxLang.Command.Run
import Mathlib.Data.List.Induction
import Mathlib.Tactic.Common

/-!
# Interactive sessions, unit by unit

An interactive session takes its lines one at a time and keeps what it has collected in a buffer.
Seen from outside it does something simpler: it divides its lines into units and serves one after
the other (`Session.converse_units`).

How lines are divided can be said without a buffer (`Grouping.Divides`).  A unit is the shortest
group of lines that looks finished; empty lines in front of it are part of the group and not of its
source.  What is left at the end of the input is a group that is not finished yet.  A quit word ends
the session where no line but empty ones has been collected, and nowhere else; the lines from the
quit word on are not read.  There is exactly one division like that (`exists_unique_divides`).

To serve a unit is to ask for each of its lines, to run its source with an empty log, and to report
that log (`Session.serve`).  The session has one log for all units, and it is empty whenever a unit
begins (`Session.converse_unit`); so what is in it is the unit's own, whatever went wrong before.
-/

namespace LoxLang

/-! ## Groups of lines -/

/-- The source that a group of lines makes: the lines with line feeds between them, without the
empty ones in front. -/
def unitSource (lines : List String) : String :=
  "\n".intercalate (lines.dropWhile (·.isEmpty))

/-- A group of lines looks like a finished unit. -/
def LooksFinished (lines : List String) : Prop :=
  isFinishedUnit (tokensOf (unitSource lines)) = true

instance : DecidablePred LooksFinished := fun lines =>
  inferInstanceAs (Decidable (isFinishedUnit (tokensOf (unitSource lines)) = true))

/-- **A group is not ended early**, by a quit word: none stands where only empty lines have been
collected. -/
def QuitsNowhere (lines : List String) : Prop :=
  ∀ blanks line rest, lines = blanks ++ line :: rest → (∀ b ∈ blanks, b = "") →
    isQuitLine line = false

/-- Lines cut into groups. -/
structure Grouping where
  /-- The groups that are run. -/
  units : List (List String)
  /-- The group that is not finished when the session ends. -/
  pending : List String
  /-- The lines from the quit word on. -/
  unread : List String
  deriving DecidableEq

/-- **How an interactive session divides its lines.** -/
structure Grouping.Divides (g : Grouping) (lines : List String) : Prop where
  /-- The groups are consecutive and disjoint, and no line is left out. -/
  lines_eq : lines = g.units.flatten ++ (g.pending ++ g.unread)
  finished : ∀ unit ∈ g.units, LooksFinished unit
  /-- No unit could have been run earlier. -/
  shortest : ∀ unit ∈ g.units, ∀ part, part <+: unit → part ≠ unit → ¬ LooksFinished part
  unfinished : ∀ part, part <+: g.pending → ¬ LooksFinished part
  /-- A quit word does not end the session in the middle of a group. -/
  goesOn : ∀ group ∈ g.units ++ [g.pending], QuitsNowhere group
  /-- What is not read begins with a quit word, where no line but empty ones has been collected. -/
  quits : ∀ line rest, g.unread = line :: rest →
    isQuitLine line = true ∧ ∀ b ∈ g.pending, b = ""

/-- The lines behind a unit are divided as they were. -/
lemma Grouping.Divides.behind {unit : List String} {others : List (List String)}
    {pending unread lines : List String}
    (hg : Grouping.Divides ⟨unit :: others, pending, unread⟩ lines) :
    Grouping.Divides ⟨others, pending, unread⟩ (others.flatten ++ (pending ++ unread)) where
  lines_eq := rfl
  finished u hu := hg.finished u (List.mem_cons_of_mem _ hu)
  shortest u hu := hg.shortest u (List.mem_cons_of_mem _ hu)
  unfinished := hg.unfinished
  goesOn group hgroup := hg.goesOn group (List.mem_cons_of_mem _ hgroup)
  quits := hg.quits

/-! ### The buffer -/

section Buffer

variable {lines part : List String} {line : String}

lemma isEmpty_intercalate_cons (hline : line ≠ "") (rest : List String) :
    ("\n".intercalate (line :: rest)).isEmpty = false := by
  rw [← Bool.not_eq_true, String.isEmpty_iff]
  intro hempty
  apply hline
  rw [← String.toList_inj] at hempty ⊢
  rw [String.toList_intercalate, List.map_cons] at hempty
  cases rest with
  | nil => simpa using hempty
  | cons next rest =>
    rw [List.map_cons, List.intercalate_cons_cons] at hempty
    simp at hempty

/-- The buffer is empty when only empty lines have been collected. -/
lemma isEmpty_unitSource : (unitSource lines).isEmpty = true ↔ ∀ b ∈ lines, b = "" := by
  unfold unitSource
  induction lines with
  | nil => simp
  | cons line rest ih =>
    by_cases hline : line = ""
    · subst hline
      rw [List.dropWhile_cons_of_pos (by simp), ih]
      simp
    · rw [List.dropWhile_cons_of_neg (by simpa using hline), isEmpty_intercalate_cons hline]
      simp [hline]

lemma intercalate_snoc (first : String) (rest : List String) (line : String) :
    "\n".intercalate (first :: (rest ++ [line])) =
      "\n".intercalate (first :: rest) ++ "\n" ++ line := by
  rw [← List.cons_append, String.intercalate_append_of_ne_nil (by simp) (by simp)]
  simp

/-- **One more line**: what is collected is what the lines together make. -/
lemma extendBuffer_unitSource (lines : List String) (line : String) :
    extendBuffer (unitSource lines) line = unitSource (lines ++ [line]) := by
  unfold extendBuffer unitSource
  induction lines with
  | nil =>
    by_cases hline : line = ""
    · subst hline
      rfl
    · rw [List.nil_append, List.dropWhile_cons_of_neg (by simpa using hline)]
      simp
  | cons first rest ih =>
    by_cases hfirst : first = ""
    · subst hfirst
      rw [List.cons_append, List.dropWhile_cons_of_pos (by simp),
        List.dropWhile_cons_of_pos (by simp)]
      exact ih
    · rw [List.cons_append, List.dropWhile_cons_of_neg (by simpa using hfirst),
        List.dropWhile_cons_of_neg (by simpa using hfirst), isEmpty_intercalate_cons hfirst,
        intercalate_snoc]
      rfl

lemma QuitsNowhere.buffer (h : QuitsNowhere (lines ++ [line])) :
    ((unitSource lines).isEmpty && isQuitLine line) = false := by
  cases hempty : (unitSource lines).isEmpty with
  | false => rfl
  | true =>
    rw [Bool.true_and]
    exact h lines line [] rfl (isEmpty_unitSource.mp hempty)

lemma QuitsNowhere.init (h : QuitsNowhere (lines ++ [line])) : QuitsNowhere lines := by
  intro blanks other after heq hblanks
  exact h blanks other (after ++ [line]) (by simp [heq]) hblanks

lemma not_looksFinished_nil : ¬ LooksFinished [] := by
  have hopen : isFinishedUnit (tokensOf "") = false := by decide +kernel
  exact fun hfinished => Bool.false_ne_true (hopen.symm.trans hfinished)

/-- A group that looks finished has a last line. -/
lemma LooksFinished.exists_last (h : LooksFinished lines) :
    ∃ init last, lines = init ++ [last] := by
  rcases List.eq_nil_or_concat lines with rfl | hlast
  · exact absurd h not_looksFinished_nil
  · simpa using hlast

end Buffer

/-! ## Serving units -/

namespace Session

/-- Asks for a line, and takes it if there is one. -/
def ask (s : Session) (buffer : String) : Session :=
  ((s.write (.prompted (promptFor buffer))).readLine).2

/-- Asks for the lines of a group, one after the other, beside what has been collected. -/
def collect (s : Session) (lines : List String) : Session × String :=
  lines.foldl (fun (s, buffer) line => (s.ask buffer, extendBuffer buffer line)) (s, "")

/-- Asks for the lines of a group and runs its source, **with an empty log**. -/
def runUnit (s : Session) (fuel : Nat) (lines : List String) : UnitResult :=
  (s.collect lines).1.run fuel (unitSource lines) []

/-- **Serves a unit**: runs it and reports what was wrong with it. -/
def serve (fuel : Nat) (s : Session) (lines : List String) : Session :=
  (s.runUnit fuel lines).session.report (s.runUnit fuel lines).log

/-- The session before a unit, when the ones before it have been served. -/
def afterUnits (s : Session) (fuel : Nat) (units : List (List String)) : Session :=
  units.foldl (serve fuel) s

/-- **A unit minds its own business**: it ends by itself and takes no line of input. -/
def Undisturbed (s : Session) (fuel : Nat) (lines : List String) : Prop :=
  (∃ status, (s.runUnit fuel lines).ending = .finished status) ∧
    (s.runUnit fuel lines).session.machine.console.input =
      (s.collect lines).1.machine.console.input

/-- What the session does when all units have been served: it asks for the lines that make no unit,
asks once more, and takes its leave. -/
def takeLeave (s : Session) (pending : List String) : Session :=
  (((s.collect pending).1).ask (unitSource pending)).write (.printed "Bye!")

/-! ### Taking lines -/

section Lines

variable {s : Session} {lines : List String} {line : String} {rest : List InputLine}

/-- What has not been read yet. -/
def input (s : Session) : List InputLine := s.machine.console.input

lemma readLine_of_input {x : InputLine} (h : s.input = x :: rest) (event : Event) :
    (s.write event).readLine = (some x, ((s.write event).readLine).2) ∧
      ((s.write event).readLine).2.input = rest := by
  have hinput : (s.write event).machine.console.input = x :: rest := h
  simp only [readLine, Console.readLine, hinput, input, and_self]

lemma readLine_of_end (h : s.input = []) (event : Event) :
    (s.write event).readLine = (none, ((s.write event).readLine).2) := by
  have hinput : (s.write event).machine.console.input = [] := h
  simp only [readLine, Console.readLine, hinput]

lemma input_ask {x : InputLine} (h : s.input = x :: rest) (buffer : String) :
    (s.ask buffer).input = rest := (readLine_of_input h _).2

lemma collect_snoc (s : Session) (lines : List String) (line : String) :
    s.collect (lines ++ [line]) =
      (((s.collect lines).1).ask (s.collect lines).2, extendBuffer (s.collect lines).2 line) := by
  simp [collect]

/-- What has been collected is the source that the lines make. -/
lemma collect_snd (s : Session) (lines : List String) :
    (s.collect lines).2 = unitSource lines := by
  induction lines using List.reverseRecOn with
  | nil => rfl
  | append_singleton lines line ih => rw [collect_snoc, ih, extendBuffer_unitSource]

lemma collect_fst_snoc (s : Session) (lines : List String) (line : String) :
    (s.collect (lines ++ [line])).1 = ((s.collect lines).1).ask (unitSource lines) := by
  rw [collect_snoc, collect_snd]

/-- The lines of a group are taken off the input. -/
lemma input_collect (h : s.input = lines.map .text ++ rest) : (s.collect lines).1.input = rest := by
  induction lines using List.reverseRecOn generalizing rest with
  | nil => exact h
  | append_singleton lines line ih =>
    rw [collect_fst_snoc]
    have hlines : s.input = lines.map .text ++ (.text line :: rest) := by simpa using h
    exact input_ask (ih hlines) _

lemma input_report (s : Session) (log : Log) : (s.report log).input = s.input := by
  unfold report
  split <;> rfl

end Lines

/-! ### Rounds of the loop -/

section Rounds

variable {s : Session} {lines : List String} {line : String} {rest : List InputLine}
  {fuel rounds : Nat}

/-- A line that is no quit word is taken into the buffer. -/
lemma converse_line (hinput : s.input = .text line :: rest) (buffer : String) (log : Log)
    (hquit : (buffer.isEmpty && isQuitLine line) = false) :
    s.converse fuel (rounds + 1) buffer log =
      if isFinishedUnit (tokensOf (extendBuffer buffer line)) then
        let result := (s.ask buffer).run fuel (extendBuffer buffer line) log
        match result.ending with
        | .finished _ => (result.session.report result.log).converse fuel rounds "" []
        | .fault f => (.fault f, result.session)
        | .exhausted => (.exhausted, result.session)
      else (s.ask buffer).converse fuel rounds (extendBuffer buffer line) log := by
  obtain ⟨hread, -⟩ := readLine_of_input hinput (.prompted (promptFor buffer))
  rw [converse, hread]
  simp only [hquit, Bool.false_eq_true, if_false]
  rfl

/-- **Lines that make no unit are only collected**, and nothing is logged. -/
lemma converse_collect (hinput : s.input = lines.map .text ++ rest)
    (hunfinished : ∀ part, part <+: lines → ¬ LooksFinished part) (hgoesOn : QuitsNowhere lines) :
    s.converse fuel (lines.length + rounds) "" [] =
      (s.collect lines).1.converse fuel rounds (unitSource lines) [] := by
  induction lines using List.reverseRecOn generalizing rest rounds with
  | nil =>
    rw [List.length_nil, Nat.zero_add]
    rfl
  | append_singleton lines line ih =>
    have hlines : s.input = lines.map .text ++ (.text line :: rest) := by simpa using hinput
    have hearlier : ∀ part, part <+: lines → ¬ LooksFinished part :=
      fun part hpart => hunfinished part (hpart.trans (List.prefix_append _ _))
    have hopen : ¬ isFinishedUnit (tokensOf (extendBuffer (unitSource lines) line)) = true := by
      rw [extendBuffer_unitSource]
      exact hunfinished _ (List.prefix_refl _)
    rw [List.length_append, List.length_singleton, Nat.add_assoc, Nat.add_comm 1 rounds,
      ih hlines hearlier hgoesOn.init,
      converse_line (input_collect hlines) _ _ hgoesOn.buffer, if_neg hopen, collect_fst_snoc,
      extendBuffer_unitSource]

/-- **The lines of a unit are served**, and the log is empty again behind it. -/
lemma converse_unit (hinput : s.input = lines.map .text ++ rest) (hfinished : LooksFinished lines)
    (hshortest : ∀ part, part <+: lines → part ≠ lines → ¬ LooksFinished part)
    (hgoesOn : QuitsNowhere lines) (hquiet : s.Undisturbed fuel lines) :
    s.converse fuel (lines.length + rounds) "" [] =
        (s.serve fuel lines).converse fuel rounds "" [] ∧
      (s.serve fuel lines).input = rest := by
  constructor
  · obtain ⟨init, last, rfl⟩ := hfinished.exists_last
    have hinit : s.input = init.map .text ++ (.text last :: rest) := by simpa using hinput
    have hearlier : ∀ part, part <+: init → ¬ LooksFinished part := by
      intro part hpart
      apply hshortest part (hpart.trans (List.prefix_append _ _))
      rintro rfl
      have hlength := hpart.length_le
      rw [List.length_append, List.length_singleton] at hlength
      omega
    have hclosed : isFinishedUnit (tokensOf (extendBuffer (unitSource init) last)) = true := by
      rw [extendBuffer_unitSource]
      exact hfinished
    obtain ⟨⟨status, hstatus⟩, -⟩ := hquiet
    rw [runUnit, collect_fst_snoc] at hstatus
    rw [List.length_append, List.length_singleton, Nat.add_assoc, Nat.add_comm 1 rounds,
      converse_collect hinit hearlier hgoesOn.init,
      converse_line (input_collect hinit) _ _ hgoesOn.buffer, if_pos hclosed,
      extendBuffer_unitSource, serve, runUnit, collect_fst_snoc]
    simp only [hstatus]
  · rw [serve, input_report]
    exact hquiet.2.trans (input_collect hinput)

/-- **What is left at the end makes no unit**: the session is over. -/
lemma converse_end {pending unread : List String}
    (hinput : s.input = (pending ++ unread).map .text)
    (hunfinished : ∀ part, part <+: pending → ¬ LooksFinished part)
    (hgoesOn : QuitsNowhere pending)
    (hquits : ∀ line rest, unread = line :: rest →
      isQuitLine line = true ∧ ∀ b ∈ pending, b = "") :
    s.converse fuel (pending.length + (rounds + 1)) "" [] = (.finished, s.takeLeave pending) := by
  have hlines : s.input = pending.map .text ++ unread.map .text := by simpa using hinput
  have hrest : (s.collect pending).1.input = unread.map .text := input_collect hlines
  rw [converse_collect hlines hunfinished hgoesOn, converse]
  cases unread with
  | nil =>
    rw [readLine_of_end hrest]
    rfl
  | cons line after =>
    obtain ⟨hquit, hblank⟩ := hquits line after rfl
    obtain ⟨hread, -⟩ := readLine_of_input hrest (.prompted (promptFor (unitSource pending)))
    rw [hread]
    simp only [isEmpty_unitSource.mpr hblank, hquit, Bool.and_self, if_true]
    rfl

end Rounds

/-! ### The whole session -/

section Whole

variable {s : Session} {lines : List String} {g : Grouping} {fuel : Nat}

lemma afterUnits_cons (s : Session) (fuel : Nat) (unit : List String)
    (others : List (List String)) :
    s.afterUnits fuel (unit :: others) = (s.serve fuel unit).afterUnits fuel others := rfl

/-- **An interactive loop serves the units of its lines one after the other.** -/
lemma converse_units {units : List (List String)} {pending unread : List String}
    (hg : Grouping.Divides ⟨units, pending, unread⟩ lines)
    (hinput : s.input = lines.map .text)
    (hquiet : ∀ before unit after, units = before ++ unit :: after →
      (s.afterUnits fuel before).Undisturbed fuel unit) {rounds : Nat}
    (hrounds : lines.length < rounds) :
    s.converse fuel rounds "" [] =
      (.finished, (s.afterUnits fuel units).takeLeave pending) := by
  induction units generalizing s lines rounds with
  | nil =>
    have hlines : lines = pending ++ unread := by simpa using hg.lines_eq
    subst hlines
    obtain ⟨more, rfl⟩ : ∃ more, rounds = pending.length + (more + 1) := by
      rw [List.length_append] at hrounds
      exact ⟨rounds - pending.length - 1, by omega⟩
    exact converse_end hinput hg.unfinished (hg.goesOn pending (by simp)) hg.quits
  | cons unit others ih =>
    have hlines : lines = unit ++ (others.flatten ++ (pending ++ unread)) := by
      simpa using hg.lines_eq
    have hbehind := hg.behind
    subst hlines
    obtain ⟨more, rfl⟩ : ∃ more, rounds = unit.length + more := by
      rw [List.length_append] at hrounds
      exact ⟨rounds - unit.length, by omega⟩
    rw [List.map_append] at hinput
    obtain ⟨hserved, hrest⟩ := converse_unit hinput
      (hg.finished unit List.mem_cons_self) (hg.shortest unit List.mem_cons_self)
      (hg.goesOn unit (by simp)) (hquiet [] unit others rfl)
    rw [hserved, afterUnits_cons]
    apply ih hbehind hrest
    · intro before u after heq
      exact hquiet (unit :: before) u after (by rw [heq]; rfl)
    · rw [List.length_append] at hrounds
      omega

end Whole

end Session

/-! ## There is one division -/

namespace Grouping

variable {lines collected rest unit pending unread : List String} {line : String}

/-- Lines that make no unit yet, and among which no quit word ends the session. -/
structure StaysOpen (lines : List String) : Prop where
  unfinished : ∀ part, part <+: lines → ¬ LooksFinished part
  goesOn : QuitsNowhere lines

lemma staysOpen_nil : StaysOpen [] where
  unfinished part hpart := by
    rw [List.prefix_nil.mp hpart]
    exact not_looksFinished_nil
  goesOn blanks line rest heq := by simp at heq

lemma QuitsNowhere.snoc (h : QuitsNowhere lines)
    (hline : ((unitSource lines).isEmpty && isQuitLine line) = false) :
    QuitsNowhere (lines ++ [line]) := by
  intro blanks other after heq hblanks
  rcases List.eq_nil_or_concat after with rfl | ⟨init, last, rfl⟩
  · obtain ⟨hlines, hlast⟩ := List.append_inj' heq rfl
    rw [hlines, isEmpty_unitSource.mpr hblanks, Bool.true_and] at hline
    rw [← List.singleton_inj.mp hlast]
    exact hline
  · apply h blanks other init _ hblanks
    rw [List.concat_eq_append, ← List.cons_append, ← List.append_assoc] at heq
    exact (List.append_inj' heq rfl).1

lemma StaysOpen.snoc (h : StaysOpen collected)
    (hline : ((unitSource collected).isEmpty && isQuitLine line) = false)
    (hopen : ¬ LooksFinished (collected ++ [line])) : StaysOpen (collected ++ [line]) where
  unfinished part hpart := by
    rcases List.prefix_concat_iff.mp hpart with rfl | hearlier
    · exact hopen
    · exact h.unfinished part hearlier
  goesOn := QuitsNowhere.snoc h.goesOn hline

/-- **The division of lines**, when some have been collected already. -/
def dividing (collected : List String) : List String → Grouping
  | [] => ⟨[], collected, []⟩
  | line :: rest =>
    if (unitSource collected).isEmpty && isQuitLine line then ⟨[], collected, line :: rest⟩
    else if LooksFinished (collected ++ [line]) then
      ⟨(collected ++ [line]) :: (dividing [] rest).units, (dividing [] rest).pending,
        (dividing [] rest).unread⟩
    else dividing (collected ++ [line]) rest

/-- The division is one. -/
lemma divides_dividing (h : StaysOpen collected) (lines : List String) :
    (dividing collected lines).Divides (collected ++ lines) := by
  induction lines generalizing collected with
  | nil =>
    exact ⟨by simp [dividing], by simp [dividing], by simp [dividing], h.unfinished,
      by simpa [dividing] using h.goesOn, by simp [dividing]⟩
  | cons line rest ih =>
    rw [dividing]
    cases hquit : (unitSource collected).isEmpty && isQuitLine line with
    | true =>
      rw [if_pos rfl]
      obtain ⟨hempty, hline⟩ := (Bool.and_eq_true _ _).mp hquit
      refine ⟨by simp, by simp, by simp, h.unfinished, by simpa using h.goesOn, ?_⟩
      rintro _ _ ⟨⟩
      exact ⟨hline, isEmpty_unitSource.mp hempty⟩
    | false =>
      rw [if_neg Bool.false_ne_true]
      by_cases hfinished : LooksFinished (collected ++ [line])
      · have hrest := ih staysOpen_nil
        rw [List.nil_append] at hrest
        rw [if_pos hfinished]
        refine ⟨?_, ?_, ?_, hrest.unfinished, ?_, hrest.quits⟩
        · rw [List.flatten_cons, List.append_assoc, ← hrest.lines_eq]
          simp
        · intro unit hunit
          rcases List.mem_cons.mp hunit with rfl | hunit
          · exact hfinished
          · exact hrest.finished unit hunit
        · intro unit hunit part hpart hne
          rcases List.mem_cons.mp hunit with rfl | hunit
          · exact h.unfinished part ((List.prefix_concat_iff.mp hpart).resolve_left hne)
          · exact hrest.shortest unit hunit part hpart hne
        · intro group hgroup
          rcases List.mem_cons.mp hgroup with rfl | hgroup
          · exact QuitsNowhere.snoc h.goesOn hquit
          · exact hrest.goesOn group hgroup
      · rw [if_neg hfinished]
        have hrest := ih (h.snoc hquit hfinished)
        rwa [List.append_assoc] at hrest

/-- A unit takes in the line behind those that make none. -/
lemma prefix_unit (h : StaysOpen collected) (hfinished : LooksFinished unit)
    (hunit : unit <+: collected ++ line :: rest) : collected ++ [line] <+: unit := by
  have hline : collected ++ [line] <+: collected ++ line :: rest :=
    ⟨rest, by simp⟩
  rcases List.prefix_or_prefix_of_prefix hunit hline with hshort | hlong
  · rcases List.prefix_concat_iff.mp hshort with rfl | hearlier
    · exact List.prefix_refl _
    · exact absurd hfinished (h.unfinished unit hearlier)
  · exact hlong

/-- So do lines that make no unit, but for a quit word. -/
lemma prefix_pending (h : StaysOpen collected)
    (heq : collected ++ line :: rest = pending ++ unread)
    (hquits : ∀ line rest, unread = line :: rest →
      isQuitLine line = true ∧ ∀ b ∈ pending, b = "") :
    collected ++ [line] <+: pending ∨ (pending = collected ∧ unread = line :: rest ∧
      ((unitSource collected).isEmpty && isQuitLine line) = true) := by
  rcases List.append_eq_append_iff.mp heq with ⟨more, rfl, hmore⟩ | ⟨more, rfl, hmore⟩
  · cases more with
    | nil =>
      right
      rw [List.append_nil] at hquits ⊢
      rw [List.nil_append] at hmore
      obtain ⟨hline, hblank⟩ := hquits line rest hmore.symm
      exact ⟨rfl, hmore.symm, by rw [isEmpty_unitSource.mpr hblank, hline, Bool.true_and]⟩
    | cons first more =>
      left
      rw [List.cons_append, List.cons.injEq] at hmore
      exact ⟨more, by simp [hmore.1]⟩
  · cases more with
    | nil =>
      right
      rw [List.append_nil] at h ⊢
      rw [List.nil_append] at hmore
      obtain ⟨hline, hblank⟩ := hquits line rest hmore
      exact ⟨rfl, hmore, by rw [isEmpty_unitSource.mpr hblank, hline, Bool.true_and]⟩
    | cons first more =>
      obtain ⟨hfirst, hblank⟩ := hquits first (more ++ line :: rest) hmore
      exact absurd ((h.goesOn pending first more rfl hblank).symm.trans hfirst)
        Bool.false_ne_true

/-- **There is no other division.** -/
lemma Divides.eq_dividing (h : StaysOpen collected) {g : Grouping}
    (hg : g.Divides (collected ++ lines)) : g = dividing collected lines := by
  induction lines generalizing collected g with
  | nil =>
    obtain ⟨units, pending, unread⟩ := g
    have hlines : collected ++ [] = units.flatten ++ (pending ++ unread) := hg.lines_eq
    rw [List.append_nil] at hlines
    cases units with
    | cons unit others =>
      rw [List.flatten_cons, List.append_assoc] at hlines
      exact absurd (hg.finished unit List.mem_cons_self) (h.unfinished unit ⟨_, hlines.symm⟩)
    | nil =>
      rw [List.flatten_nil, List.nil_append] at hlines
      cases unread with
      | nil => rw [hlines, List.append_nil, dividing]
      | cons line after =>
        obtain ⟨hline, hblank⟩ := hg.quits line after rfl
        exact absurd ((h.goesOn pending line after hlines hblank).symm.trans hline)
          Bool.false_ne_true
  | cons line rest ih =>
    obtain ⟨units, pending, unread⟩ := g
    have hlines : collected ++ line :: rest = units.flatten ++ (pending ++ unread) := hg.lines_eq
    rw [dividing]
    -- The first group that is not all of what has been collected takes in the next line.
    cases hquit : (unitSource collected).isEmpty && isQuitLine line with
    | true =>
      rw [if_pos rfl]
      obtain ⟨hempty, hline⟩ := (Bool.and_eq_true _ _).mp hquit
      have hnot : ∀ group, QuitsNowhere group → ¬ collected ++ [line] <+: group := by
        rintro group hgoesOn ⟨more, rfl⟩
        have hgoes := hgoesOn collected line more (by simp) (isEmpty_unitSource.mp hempty)
        exact absurd (hgoes.symm.trans hline) Bool.false_ne_true
      cases units with
      | cons unit others =>
        rw [List.flatten_cons, List.append_assoc] at hlines
        exact absurd (prefix_unit h (hg.finished unit List.mem_cons_self) ⟨_, hlines.symm⟩)
          (hnot unit (hg.goesOn unit (by simp)))
      | nil =>
        rw [List.flatten_nil, List.nil_append] at hlines
        rcases prefix_pending h hlines hg.quits with hlong | ⟨hpending, hunread, -⟩
        · exact absurd hlong (hnot pending (hg.goesOn pending (by simp)))
        · rw [hpending, hunread]
    | false =>
      rw [if_neg Bool.false_ne_true]
      by_cases hfinished : LooksFinished (collected ++ [line])
      · rw [if_pos hfinished]
        cases units with
        | nil =>
          rw [List.flatten_nil, List.nil_append] at hlines
          rcases prefix_pending h hlines hg.quits with hlong | ⟨-, -, hquits⟩
          · exact absurd hfinished (hg.unfinished _ hlong)
          · exact absurd (hquit.symm.trans hquits) Bool.false_ne_true
        | cons unit others =>
          rw [List.flatten_cons, List.append_assoc] at hlines
          have hlong := prefix_unit h (hg.finished unit List.mem_cons_self) ⟨_, hlines.symm⟩
          have hunit : collected ++ [line] = unit := by
            by_contra hne
            exact hg.shortest unit List.mem_cons_self _ hlong hne hfinished
          subst hunit
          rw [List.append_cons, List.append_cancel_left_eq] at hlines
          have hbehind := hg.behind
          rw [← hlines] at hbehind
          have hrest := ih staysOpen_nil hbehind
          rw [← hrest]
      · rw [if_neg hfinished]
        apply ih (h.snoc hquit hfinished)
        rwa [List.append_cons] at hg

end Grouping

namespace Session

/-- What a session writes first. -/
def greet (s : Session) : Session := s.write (.printed "Lox REPL, type quit to quit.")

lemma events_report (s : Session) (log : Log) :
    (s.report log).machine.console.events.toList =
      s.machine.console.events.toList ++ log.event := by
  unfold report Log.event
  split
  · simp
  · exact Array.toList_push

/-- **An interactive session serves the units of its lines**, each by itself.

Whatever the lines are, there is one way in which they are divided.  If the units end by themselves
and leave the input alone, the session asks for the lines of each unit in turn, runs the source of
the unit with an empty log, reports that log, and nothing else happens but the greeting and the
leave that is taken at the quit word or at the end of the input.  So what is reported behind a unit
is what was found wrong with it, and neither an earlier unit's complaints nor its lines are there
any more. -/
theorem interact_serves_units (s : Session) (fuel : Nat) (lines : List String)
    (hinput : s.machine.console.input = lines.map .text) :
    ∃ g : Grouping, g.Divides lines ∧ (∀ g' : Grouping, g'.Divides lines → g' = g) ∧
      ((∀ before unit after, g.units = before ++ unit :: after →
          (s.greet.afterUnits fuel before).Undisturbed fuel unit) →
        s.interact fuel = (.finished, (s.greet.afterUnits fuel g.units).takeLeave g.pending) ∧
        ∀ before unit after, g.units = before ++ unit :: after →
          let result := (s.greet.afterUnits fuel before).runUnit fuel unit
          (s.greet.afterUnits fuel (before ++ [unit])).machine.console.events.toList =
            result.session.machine.console.events.toList ++ result.log.event) := by
  have hdivides : (Grouping.dividing [] lines).Divides lines :=
    Grouping.divides_dividing Grouping.staysOpen_nil lines
  refine ⟨Grouping.dividing [] lines, hdivides, ?_, ?_⟩
  · intro g' hg'
    exact Grouping.Divides.eq_dividing Grouping.staysOpen_nil hg'
  · intro hquiet
    constructor
    · have hgreeted : s.greet.input = lines.map .text := hinput
      have hrounds : lines.length < s.greet.machine.console.input.length + 1 := by
        have hlength := congrArg List.length hgreeted
        rw [List.length_map] at hlength
        exact Nat.lt_succ_of_le (Nat.le_of_eq hlength.symm)
      exact converse_units hdivides hgreeted hquiet hrounds
    · intro before unit after _
      have hlast : s.greet.afterUnits fuel (before ++ [unit]) =
          serve fuel (s.greet.afterUnits fuel before) unit := by
        rw [afterUnits, List.foldl_append]
        rfl
      simp only [hlast]
      exact events_report _ _

/-- A unit that cannot be read, then one behind an empty line that can. -/
def twoUnits : List String := ["print;", "", "print", "\"on\";", "quit", "print \"off\";"]

theorem interact_serves_units_behind_complaint :
    let s : Session := .start (twoUnits.map .text) (.startingAt 0)
    s.machine.console.input = twoUnits.map .text ∧
      s.interact 10 = (.finished,
        (s.greet.afterUnits 10 [["print;"], ["", "print", "\"on\";"]]).takeLeave []) := by
  have hinput : (Session.start (twoUnits.map .text) (.startingAt 0)).machine.console.input =
      twoUnits.map .text := rfl
  obtain ⟨g, -, hunique, hserves⟩ := interact_serves_units _ 10 twoUnits hinput
  have hg : ⟨[["print;"], ["", "print", "\"on\";"]], [], ["quit", "print \"off\";"]⟩ = g := by
    apply hunique
    have hdivided : Grouping.dividing [] twoUnits =
        ⟨[["print;"], ["", "print", "\"on\";"]], [], ["quit", "print \"off\";"]⟩ := by
      decide +kernel
    rw [← hdivided]
    exact Grouping.divides_dividing Grouping.staysOpen_nil twoUnits
  subst hg
  refine ⟨hinput, (hserves ?_).1⟩
  intro before unit after heq
  rcases before with _ | ⟨first, _ | ⟨second, before⟩⟩
  · cases heq
    exact ⟨⟨.syntaxError, by decide +kernel⟩, by decide +kernel⟩
  · cases heq
    exact ⟨⟨.ok, by decide +kernel⟩, by decide +kernel⟩
  · simp at heq

end Session

end LoxLang
