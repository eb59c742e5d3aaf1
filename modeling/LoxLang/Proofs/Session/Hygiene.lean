import LoxLang.Proofs.Scope.Renaming
import LoxLang.Proofs.Session.Reachable
import LoxLang.Proofs.Syntax.Respelling

/-!
# Scoping is hygienic

What a local is called makes no difference.  If a local variable or parameter of an accepted unit is
given a name that does not occur in it, the unit is accepted again, every reference has the distance
recorded that it had, and the run cannot be told from that of the original: not by its output, not
by the input it takes, and not by how it ends.

The argument has three parts that do not touch.  The analyses of the two programs are compared in
`LoxLang.Proofs.Scope.Hygiene`.  Their runs are compared by the relation between machines that are
alike, where each frame has the renaming of the scope that it was made for.  The store of the
session is alike to itself with nothing renamed; functions of earlier units may use the new name as
they like, since no reference of theirs leads to a frame of this unit.  And the renamed program is
one that can be written (`exists_reads`): its tokens are those of the source, some of them spelled
otherwise, and so is its text.
-/

namespace LoxLang

namespace Session

/-- A source is read without complaint, as a given program. -/
structure Reads (s : Session) (source : String) (program : List Stmt) : Prop where
  lexical : lexicalLog source = []
  syntactic : (s.reading source).errors = []
  program : (s.reading source).program = program

/-- **What a user can see of a unit**: how it ended, the reports, what was printed and what is left
to read, and the clock. -/
structure SameReport (r r' : UnitResult) : Prop where
  ending : r'.ending = r.ending
  messages : r'.log.messages = r.log.messages
  console : r'.session.machine.console = r.session.machine.console
  clock : r'.session.machine.clock = r.session.machine.clock

variable {s : Session} {sources : List String} {source : String} {log : Log}
  {old new : String} {place : List Nat}

/-- The tokens of an accepted source are spelled, and none of them is a name that occurs nowhere. -/
lemma without_tokensOf (hfresh : ∀ t ∈ tokensOf source, t.lexeme ≠ new) :
    ∀ t ∈ tokensOf source, t.Without new :=
  fun t ht => ⟨isSpelled_tokensOf source t ht, hfresh t ht⟩

/-- The locals of an accepted source are no keywords. -/
lemma ofWord?_of_mem_locals (haccepts : s.accepts source log = true)
    (hlocal : (place, old) ∈ programLocals (s.reading source).program) :
    Keyword.ofWord? old = none := by
  have hread := reading_of_accepts haccepts
  have hself := like_reading hread (isSpelled_tokensOf source) fun _ => True
  refine (Stmt.ofWord?_allLocals ?_ (s.reading source).program 0 (derives_reading hread).fits
    hself).2 _ hlocal
  exact fun h => h.2

/-- **A program in which a local is renamed** is like the program, whatever its tokens were. -/
lemma like_renamed (haccepts : s.accepts source log = true)
    (hlocal : (place, old) ∈ programLocals (s.reading source).program)
    (hold : Keyword.ofWord? old = none) (hnew : Keyword.ofWord? new = none)
    (hfresh : ∀ t ∈ tokensOf source, t.lexeme ≠ new) :
    Stmt.LikeAll (.respelled hold hnew (·.Without new) (s.analysis source).distances) []
      (s.reading source).program
      (renameProgram (s.analysis source).distances old new place (s.reading source).program) := by
  have hread := reading_of_accepts haccepts
  have hself := like_reading hread (without_tokensOf hfresh) fun _ => True
  have hnormal : Stmt.areNormal (s.reading source).program = true := (derives_reading hread).fits
  have hdistinct := Stmt.allDistinct s.isGlobal .topLevel (s.reading source).program _ hnormal .nil
    (analysis_of_accepts haccepts)
  refine like_renameProgram hold hnew ?_ hnormal hself hdistinct hlocal
  exact fun h => h.2

/-- **The renamed program is accepted**, and its analysis records what that of the program did. -/
lemma analysis_renamed (hs : s.Settled sources) (haccepts : s.accepts source log = true)
    (hlocal : (place, old) ∈ programLocals (s.reading source).program)
    (hnew : Keyword.ofWord? new = none) (hfresh : ∀ t ∈ tokensOf source, t.lexeme ≠ new) :
    let program :=
      renameProgram (s.analysis source).distances old new place (s.reading source).program
    (analyseProgram s.isGlobal program s.machine.distances).errors = [] ∧
      (analyseProgram s.isGlobal program s.machine.distances).distances =
        (s.analysis source).distances := by
  intro program
  have hold := ofWord?_of_mem_locals haccepts hlocal
  have hread := reading_of_accepts haccepts
  have hquiet := analysis_of_accepts haccepts
  have hlike := like_renamed haccepts hlocal hold hnew hfresh
  have hrecorded := (derives_reading hread).find?_site hquiet hs.fresh
  have hplaced := placed_reading hread
  refine renamed_analyseProgram (Likeness.hygienic_respelled hold hnew) (derives_reading hread).fits
    hlike (fun site hsite => ⟨hrecorded site hsite, (hplaced site hsite).super⟩) hquiet

/-- **The renamed program runs as the program does**, on the machine with the program loaded. -/
lemma agree_renamed (hs : s.Settled sources) (haccepts : s.accepts source log = true)
    (hlocal : (place, old) ∈ programLocals (s.reading source).program)
    (hold : Keyword.ofWord? old = none) (hnew : Keyword.ofWord? new = none)
    (hfresh : ∀ t ∈ tokensOf source, t.lexeme ≠ new) (fuel : Nat) :
    let ρ := Likeness.respelled hold hnew (fun _ => True) (s.analysis source).distances
    let program :=
      renameProgram (s.analysis source).distances old new place (s.reading source).program
    let own := runProgram fuel (s.reading source).program (s.loaded source).machine
    let other := runProgram fuel program (s.loaded source).machine
    ∃ T, own.1.Like ρ Eq other.1 ∧ own.2.Like ρ T other.2 := by
  intro ρ program own other
  have hprogram : Stmt.LikeAll ρ [] (s.reading source).program program := by
    refine Stmt.LikeAll.mono (S := fun _ => True) ?_ _ (fun _ _ => trivial)
      (like_renamed haccepts hlocal hold hnew hfresh)
    exact ⟨fun h => ⟨h.1, trivial⟩, fun _ h => h, id, id, id⟩
  obtain ⟨T, hlike⟩ := hs.like
  have hmachine : (s.loaded source).machine.Like ρ T (s.loaded source).machine := by
    refine hlike.load ?_ (fun _ _ => trivial) (fun href => ?_) fun _ => rfl
    · exact ⟨fun h => ⟨h.1 ▸ .refl _, trivial⟩, fun _ h => h.1, fun _ => trivial,
        fun h => ⟨false, h⟩, fun _ => trivial⟩
    · rw [href]
  have hadmits : ∀ stmt ∈ (s.reading source).program, globalScope.Admits ρ stmt :=
    fun _ _ => ⟨fun _ _ _ => trivial, fun _ _ => trivial⟩
  obtain ⟨T₁, -, houtcome, hafter, -⟩ := agree_runProgram fuel hprogram
    (.global hmachine.store.opened) hadmits _ _ hmachine hs.scope
  exact ⟨T₁, houtcome, hafter⟩

/-- **The renamed program can be written.**  Its text is that of the program, but for the names. -/
lemma exists_reads (haccepts : s.accepts source log = true)
    (hlocal : (place, old) ∈ programLocals (s.reading source).program)
    (hname : isName new = true) (hfresh : ∀ t ∈ tokensOf source, t.lexeme ≠ new) :
    ∃ source', s.Reads source' (renameProgram (s.analysis source).distances old new place
      (s.reading source).program) := by
  have hold := ofWord?_of_mem_locals haccepts hlocal
  have hnew := ofWord?_of_isName hname
  have hread := reading_of_accepts haccepts
  have hlike := like_renamed haccepts hlocal hold hnew hfresh
  have hspelled : ∀ {t t'}, (Likeness.respelled hold hnew (·.Without new)
      (s.analysis source).distances).token t t' → t.Respelled old new t' := And.left
  obtain ⟨ts', hts, hderives⟩ := (derives_reading hread).exists_like id hspelled .refl hlike
  -- The end of the source, which is no part of the program, stays as it is.
  have htokens : List.Forall₂ (Token.Respelled old new) (tokensOf source)
      (ts' ++ (tokensOf source).dropWhile (!·.isEof)) := by
    have hend : List.Forall₂ (Token.Respelled old new) ((tokensOf source).dropWhile (!·.isEof))
        ((tokensOf source).dropWhile (!·.isEof)) := List.forall₂_same.mpr fun t _ => .refl t
    have happend : List.Forall₂ (Token.Respelled old new) ((tokensOf source).takeWhile (!·.isEof) ++
        (tokensOf source).dropWhile (!·.isEof)) _ := List.rel_append hts hend
    rwa [List.takeWhile_append_dropWhile] at happend
  obtain ⟨source', hlexical, htokens'⟩ :=
    exists_source_respelled hname (lexicalLog_of_accepts haccepts) htokens
  have hreading := hderives.readProgram_eq (kind_headD_dropWhile (tokensOf source))
  rw [← htokens'] at hreading
  exact ⟨source', hlexical, congrArg Reading.errors hreading, congrArg Reading.program hreading⟩

/-- Runs that end alike are reported alike, if the tokens that correspond are on the same lines. -/
lemma sameReport_execute {t t' : Session} {fuel : Nat} {program program' : List Stmt}
    {ρ : Likeness} {T : List Renaming} (hline : ∀ {t t'}, ρ.token t t' → t'.line = t.line)
    (hsame : t'.machine = t.machine)
    (houtcome : (runProgram fuel program t.machine).1.Like ρ Eq
      (runProgram fuel program' t.machine).1)
    (hmachine : (runProgram fuel program t.machine).2.Like ρ T
      (runProgram fuel program' t.machine).2)
    (hfault : ∀ f, (t.execute fuel program log).ending ≠ .fault f) :
    SameReport (t.execute fuel program log) (t'.execute fuel program' log) := by
  rcases hrun : runProgram fuel program t.machine with ⟨outcome, m⟩
  rcases hrun' : runProgram fuel program' t.machine with ⟨outcome', m'⟩
  rw [hrun, hrun'] at houtcome hmachine
  simp only [execute, hsame, hrun, hrun'] at hfault ⊢
  cases houtcome with
  | ok => exact ⟨rfl, rfl, hmachine.console, hmachine.clock⟩
  | error htoken cause =>
    refine ⟨rfl, ?_, hmachine.console, hmachine.clock⟩
    show Log.messages (log ++ [.runtime _ _]) = Log.messages (log ++ [.runtime _ _])
    simp only [Log.messages, List.map_append, List.map_cons, List.map_nil, Diagnostic.text,
      Diagnostic.runtimeText, hline htoken]
  | fault => exact absurd rfl (hfault _)
  | exhausted => exact ⟨rfl, rfl, hmachine.console, hmachine.clock⟩

/-- **Scoping is hygienic.**  Let a local variable or parameter of an accepted source be renamed,
and with it exactly the references that are bound to it, to a name that does not occur in the
source.  The renamed program has the same locals but for this name.  It has a source, and every
source of it is accepted, has the distance recorded for every reference that was recorded before,
and is run as the original is: if that ends in no fault, the two end in the same way, with the same
reports, and with the same output, input and clock readings.  Nothing has to be known of the names
of globals, not even that the new name is none of them. -/
theorem Reachable.hygienic (hs : s.Reachable sources) (haccepts : s.accepts source log = true)
    (hlocal : (place, old) ∈ programLocals (s.reading source).program)
    (hname : isName new = true) (hfresh : ∀ t ∈ tokensOf source, t.lexeme ≠ new) :
    let program :=
      renameProgram (s.analysis source).distances old new place (s.reading source).program
    (programLocals program = (programLocals (s.reading source).program).map fun entry =>
        if entry = (place, old) then (place, new) else entry) ∧
      (∃ source', s.Reads source' program) ∧
      ∀ source', s.Reads source' program →
        s.accepts source' log = true ∧
        (s.analysis source').distances = (s.analysis source).distances ∧
        ∀ fuel, (∀ f, (s.run fuel source log).ending ≠ .fault f) →
          SameReport (s.run fuel source log) (s.run fuel source' log) := by
  intro program
  have hold := ofWord?_of_mem_locals haccepts hlocal
  have hnew := ofWord?_of_isName hname
  obtain ⟨hquiet, hdistances⟩ := analysis_renamed hs.settled haccepts hlocal hnew hfresh
  refine ⟨programLocals_renameProgram place _, exists_reads haccepts hlocal hname hfresh,
    fun source' hreads => ?_⟩
  have hanalysis : s.analysis source' = analyseProgram s.isGlobal program s.machine.distances := by
    rw [analysis, hreads.program]
  rw [← hanalysis] at hquiet hdistances
  have haccepts' : s.accepts source' log = true := by
    simp only [accepts, Bool.and_eq_true, List.isEmpty_iff] at haccepts ⊢
    exact ⟨⟨⟨haccepts.1.1.1, hreads.lexical⟩, hreads.syntactic⟩, hquiet⟩
  refine ⟨haccepts', hdistances, fun fuel hfault => ?_⟩
  have hmachine : (s.loaded source').machine = (s.loaded source).machine := by
    simp only [loaded, hdistances]
  obtain ⟨T, houtcome, hlike⟩ := agree_renamed hs.settled haccepts hlocal hold hnew hfresh fuel
  rw [run_of_accepts haccepts] at hfault ⊢
  rw [run_of_accepts haccepts', hreads.program]
  refine sameReport_execute ?_ hmachine houtcome hlike hfault
  exact fun htoken => htoken.1.line

/-- A local that hides a global: a function before its declaration uses the global, and so does its
own initializer. -/
theorem hygienic_own_initializer :
    let s := (Session.start [] (.startingAt 0)).setLimit 10
    let source := "var a = nil;\n" ++
      "\x7b fun g() \x7b return a; \x7d var a = a; a = true; print g(); print a; print -a; \x7d"
    let program :=
      renameProgram (s.analysis source).distances "a" "b" [1] (s.reading source).program
    (s.run 30 source []).ending = .finished .runtimeError ∧ programLocals program = [([1], "b")] ∧
      ∃ source', s.Reads source' program ∧ s.accepts source' [] = true ∧
        SameReport (s.run 30 source []) (s.run 30 source' []) := by
  intro s source program
  have hreach : s.Reachable [] := Reachable.start [] (.startingAt 0) 10
  have hending : (s.run 30 source []).ending = .finished .runtimeError := by decide +kernel
  have hlocals : programLocals (s.reading source).program = [([1], "a")] := by decide +kernel
  have hfresh : ∀ t ∈ tokensOf source, t.lexeme ≠ "b" := by decide +kernel
  -- From here on it does not matter what the source is.
  clear_value s source
  have haccepts : s.accepts source [] = true := accepts_of_ending (by rw [hending]; simp)
  have hlocal : ([1], "a") ∈ programLocals (s.reading source).program := by simp [hlocals]
  obtain ⟨hrenamed, ⟨source', hreads⟩, hsame⟩ :=
    hreach.hygienic haccepts hlocal (by decide) hfresh
  obtain ⟨haccepts', -, hreport⟩ := hsame source' hreads
  rw [hlocals] at hrenamed
  have hfault : ∀ f, (s.run 30 source []).ending ≠ .fault f := by
    intro f
    rw [hending]
    simp
  exact ⟨hending, hrenamed, source', hreads, haccepts', hreport 30 hfault⟩

end Session

end LoxLang
