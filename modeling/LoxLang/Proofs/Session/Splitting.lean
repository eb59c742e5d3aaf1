import LoxLang.Proofs.Session.Reachable
import LoxLang.Proofs.Token.Concatenation

/-!
# Units put together

Two units of source that are run one after the other do the same as one unit that has the second
source below the first.  There are two steps.

Put together, the tokens are those of the first source, and then those that the second one has below
as many empty lines.  So the program is that of the first source followed by that of the lowered
second one, number for number, and the analysis records the same distances, for it takes the names
of the first unit from its own record of the top level, and all globals that the run of the first
unit has bound are there.  What such a unit leaves is therefore what the lowered second source
leaves after the first, the report and its lines included (`Session.Settled.run_append`).

What empty lines above a source do is said for one source in one session
(`Session.Settled.run_belowLines`): the outcome is the same, and a runtime error is at the same
token, which stands further down if it is one of this source.  Whether it is one is the same for all
numbers of lines (`Log.lowers_of_moved`), so that it does not depend on what the token looks like.
-/

namespace LoxLang

/-! ## Lines above a source -/

/-- A source with some empty lines above it. -/
def belowLines : Nat → String → String
  | 0, source => source
  | n + 1, source => "\n" ++ belowLines n source

lemma belowLines_lineFeed (n : Nat) (source : String) :
    belowLines n ("\n" ++ source) = belowLines (n + 1) source := by
  induction n with
  | zero => rfl
  | succ n ih =>
    rw [belowLines, ih]
    rfl

lemma Token.later_zero : Token.later 0 = id := rfl

lemma Token.later_later (t : Token) (i j : Nat) : (t.later i).later j = t.later (i + j) := by
  simp only [Token.later, Nat.add_assoc]

/-- A line feed above a source is an empty source above it. -/
lemma lineFeed_append (source : String) : "\n" ++ source = "" ++ "\n" ++ source := by
  rw [String.empty_append]

lemma tokensOf_belowLines (n : Nat) (source : String) :
    tokensOf (belowLines n source) = (tokensOf source).map (Token.later n) := by
  induction n with
  | zero =>
    rw [Token.later_zero, List.map_id]
    rfl
  | succ n ih =>
    have hempty : lexicalLog "" = [] := rfl
    rw [belowLines, lineFeed_append, tokensOf_below hempty, ih, List.map_map]
    simp only [Function.comp_def, Token.later_later]
    rfl

lemma lexicalLog_belowLines {source : String} (h : lexicalLog source = []) (n : Nat) :
    lexicalLog (belowLines n source) = [] := by
  induction n with
  | zero => exact h
  | succ n ih =>
    have hempty : lexicalLog "" = [] := rfl
    rw [belowLines, lineFeed_append]
    exact lexicalLog_below hempty ih

/-- **The tokens of two sources put together** are those of the first, and those that the second has
below as many lines. -/
lemma tokensOf_append_belowLines {first : String} (h : lexicalLog first = []) (second : String) :
    tokensOf (first ++ "\n" ++ second) = (tokensOf first).takeWhile (!·.isEof) ++
      tokensOf (belowLines (1 + lineFeeds first.toList) second) := by
  rw [tokensOf_below h, tokensOf_belowLines, Nat.add_comm 1]

/-! ## Reports -/

/-- **Some tokens are moved down**: those in a list, by a number of lines.  Others, which have a
given property, are kept. -/
def Likeness.moved (P : Token → Prop) (tokens : List Token) (k : Nat) (S : RefId → Prop) :
    Likeness where
  token t t' := t' = t ∧ P t ∨ t' = t.later k ∧ t ∈ tokens
  ref ref ref' := ref' = ref ∧ S ref
  distance _ _ := True
  renames π := π = .identity
  function := fun d isInitializer => d.Contained isInitializer
  global _ := True
  kind h := by
    rcases h with ⟨rfl, -⟩ | ⟨rfl, -⟩
    · rfl
    · exact Token.kind_later _ _
  identity := rfl
  inner := @FunDecl.contained_makes

/-- Two runtime errors at tokens that correspond when the last source is moved down. -/
inductive Diagnostic.Moved (earlier : List String) (last : String) (k : Nat) :
    Diagnostic → Diagnostic → Prop
  | earlier {t : Token} (ht : IsTokenOf earlier t) (message : String) :
      Diagnostic.Moved earlier last k (.runtime t message) (.runtime t message)
  | later {t : Token} (ht : t ∈ tokensOf last) (message : String) :
      Diagnostic.Moved earlier last k (.runtime t message) (.runtime (t.later k) message)

/-- **What lines above the last source do to the report**, as a function of their number: there is
none, or it is an error at a token of an earlier source, which stays where it is however many lines
there are, or one at a token of the last source, which goes down with the lines. -/
inductive Log.Lowers (earlier : List String) (last : String) : (Nat → Log) → Prop
  | quiet {logs : Nat → Log} (h : ∀ n, logs n = []) : Lowers earlier last logs
  | stays {logs : Nat → Log} {t : Token} (ht : IsTokenOf earlier t) (message : String)
      (h : ∀ n, logs n = [.runtime t message]) : Lowers earlier last logs
  | follows {logs : Nat → Log} {t : Token} (ht : t ∈ tokensOf last) (message : String)
      (h : ∀ n, logs n = [.runtime (t.later n) message]) : Lowers earlier last logs

section Lowers

variable {earlier : List String} {last : String} {k : Nat}

lemma Diagnostic.Moved.line {t t' : Token} {message message' : String}
    (h : Moved earlier last k (.runtime t message) (.runtime t' message')) :
    t'.line = t.line ∨ t'.line = t.line + k := by
  cases h with
  | earlier => exact .inl rfl
  | later => exact .inr rfl

/-- **One line tells the two apart.**  A token that has moved by one line when there is one has
moved by `n` when there are `n`, for seen from the first line it cannot have gone back. -/
lemma Log.lowers_of_moved {logs : Nat → Log} (hone : (logs 0).length ≤ 1)
    (h : ∀ n, List.Forall₂ (Diagnostic.Moved earlier last n) (logs 0) (logs n))
    (hnext : ∀ n, List.Forall₂ (Diagnostic.Moved earlier ("\n" ++ last) n) (logs 1)
      (logs (n + 1))) : Log.Lowers earlier last logs := by
  rcases hlog : logs 0 with _ | ⟨d, rest⟩
  · refine .quiet fun n => ?_
    have hn := h n
    rwa [hlog, List.forall₂_nil_left_iff] at hn
  obtain rfl : rest = [] := by simpa [hlog] using hone
  have hmoved : ∀ n, ∃ d', logs n = [d'] ∧ Diagnostic.Moved earlier last n d d' := by
    intro n
    have hn := h n
    rw [hlog, List.forall₂_cons_left_iff] at hn
    obtain ⟨d', rest', hd, hrest, heq⟩ := hn
    rw [List.forall₂_nil_left_iff.mp hrest] at heq
    exact ⟨d', heq, hd⟩
  have hafter : ∀ {n d₁ d₂}, logs 1 = [d₁] → logs (n + 1) = [d₂] →
      Diagnostic.Moved earlier ("\n" ++ last) n d₁ d₂ := by
    intro n d₁ d₂ h₁ h₂
    have hn := hnext n
    rw [h₁, h₂] at hn
    exact (List.forall₂_cons.mp hn).1
  obtain ⟨d₁, hone, hd₁⟩ := hmoved 1
  cases hd₁ with
  | @earlier t ht message =>
    refine .stays ht message fun n => ?_
    cases n with
    | zero => exact hlog
    | succ n =>
      obtain ⟨d₂, hlater, hd₂⟩ := hmoved (n + 1)
      cases hd₂ with
      | earlier => exact hlater
      | later =>
        have hline := (hafter hone hlater).line
        simp only [Token.later] at hline
        omega
  | @later t ht message =>
    refine .follows ht message fun n => ?_
    cases n with
    | zero => exact hlog
    | succ n =>
      obtain ⟨d₂, hlater, hd₂⟩ := hmoved (n + 1)
      cases hd₂ with
      | earlier =>
        have hline := (hafter hone hlater).line
        simp only [Token.later] at hline
        omega
      | later => exact hlater

end Lowers

namespace Session

variable {s s' : Session} {sources : List String} {first second : String}

/-! ## Outcomes of programs -/

/-- **Two units end alike**: in the same way, with the same output, and with the same input and the
same clock readings left. -/
structure EndsLike (r r' : UnitResult) : Prop where
  ending : r.ending = r'.ending
  console : r.session.machine.console = r'.session.machine.console
  clock : r.session.machine.clock = r'.session.machine.clock

lemma EndsLike.trans {r r' r'' : UnitResult} (h : EndsLike r r') (h' : EndsLike r' r'') :
    EndsLike r r'' :=
  ⟨h.ending.trans h'.ending, h.console.trans h'.console, h.clock.trans h'.clock⟩

/-- Programs that end alike end the unit in the same way. -/
lemma like_execute (s s' : Session) {ρ : Likeness} {R : Diagnostic → Diagnostic → Prop}
    (hrenames : ∀ {π}, ρ.renames π → π = .identity)
    (htoken : ∀ {t t' : Token}, ρ.token t t' →
      ∀ message, R (.runtime t message) (.runtime t' message))
    {fuel : Nat} {program program' : List Stmt}
    (h : (runProgram fuel program s.machine).1.Like ρ (· = ·)
      (runProgram fuel program' s'.machine).1) :
    (s'.execute fuel program' []).ending = (s.execute fuel program []).ending ∧
      List.Forall₂ R (s.execute fuel program []).log (s'.execute fuel program' []).log := by
  rcases hrun : runProgram fuel program s.machine with ⟨outcome, m⟩
  rcases hrun' : runProgram fuel program' s'.machine with ⟨outcome', m'⟩
  rw [hrun, hrun'] at h
  simp only [execute, hrun, hrun']
  cases h with
  | ok => exact ⟨rfl, .nil⟩
  | fault hfault =>
    rw [hfault.eq hrenames]
    exact ⟨rfl, .nil⟩
  | exhausted => exact ⟨rfl, .nil⟩
  | error ht cause => exact ⟨rfl, .cons (htoken ht _) .nil⟩

/-- A program reports at most one error. -/
lemma length_log_execute (s : Session) (fuel : Nat) (program : List Stmt) :
    (s.execute fuel program []).log.length ≤ 1 := by
  unfold execute
  split <;> simp

lemma runProgram_of_ok {fuel : Nat} {program : List Stmt} {log : Log}
    (h : (s.execute fuel program log).ending = .finished .ok) :
    runProgram fuel program s.machine = (.ok (), (runProgram fuel program s.machine).2) := by
  unfold execute at h
  split at h
  · next hrun => rw [hrun]
  · cases h
  · cases h
  · cases h

/-! ## A source moved down -/

/-- **What a source is read as further down**: a program that is like the one it is read as. -/
lemma like_reading_belowLines (hread : (s.reading second).errors = []) (P : Token → Prop)
    (k : Nat) : Stmt.LikeAll (.moved P (tokensOf second) k (· < (s.reading second).nextRef)) []
        (s.reading second).program (s.reading (belowLines k second)).program ∧
      (s.reading (belowLines k second)).errors = [] := by
  let ρ := Likeness.moved P (tokensOf second) k fun _ => True
  have htokens : List.Forall₂ ρ.Same (tokensOf second) (tokensOf (belowLines k second)) := by
    rw [tokensOf_belowLines, List.forall₂_map_right_iff]
    exact List.forall₂_same.mpr fun t ht => ⟨.inr ⟨rfl, ht⟩, Token.lexeme_later _ _⟩
  have href : ∀ i, ρ.ref (s.nextRef + i) (s.nextRef + i) := fun _ => ⟨rfl, trivial⟩
  obtain ⟨hlike, herrors, -⟩ := like_readProgram htokens (exists_eof_tokensOf second) href
    fun _ => trivial
  have hbounds : Reference.AllIn (· < (s.reading second).nextRef)
      (Stmt.allReferences (s.reading second).program) :=
    fun r hr => ((derives_reading hread).numbered.bounds r hr).2
  have hle : ρ.Le (· < (s.reading second).nextRef)
      (.moved P (tokensOf second) k (· < (s.reading second).nextRef)) :=
    ⟨id, fun hlt href => ⟨href.1, hlt⟩, fun _ => trivial, id, id⟩
  have hnil : (readProgram (tokensOf second) s.nextRef).errors = [] := hread
  rw [hnil] at herrors
  exact ⟨Stmt.LikeAll.mono hle _ hbounds (hlike [] plain_nil),
    List.forall₂_nil_left_iff.mp herrors⟩

/-- **Lines above a source move the errors at its own tokens and nothing else.** -/
lemma Settled.run_belowLines (h : s.Settled sources) (haccepts : s.accepts second [] = true)
    (fuel k : Nat) : s.accepts (belowLines k second) [] = true ∧
      EndsLike (s.run fuel (belowLines k second) []) (s.run fuel second []) ∧
      List.Forall₂ (Diagnostic.Moved sources second k) (s.run fuel second []).log
        (s.run fuel (belowLines k second) []).log := by
  let ρ := Likeness.moved (IsTokenOf sources) (tokensOf second) k
    (· < (s.reading second).nextRef)
  have hread := reading_of_accepts haccepts
  obtain ⟨hprogram, herrors⟩ := like_reading_belowLines hread (IsTokenOf sources) k
  have hanalysis : (s.analysis second).Like s.isGlobal s.isGlobal
      (s.analysis (belowLines k second)) :=
    Stmt.steps_analyseAll (Analysis.Like.steps And.left) ⟨id, fun _ => trivial⟩ .topLevel _
      plain_nil hprogram ⟨rfl, rfl, fun _ => id, id⟩
  have haccepts' : s.accepts (belowLines k second) [] = true := by
    have hlexical := lexicalLog_belowLines (lexicalLog_of_accepts haccepts) k
    have hquiet := hanalysis.quiet (analysis_of_accepts haccepts)
    simp [accepts, hlexical, herrors, hquiet, Log.hasStatic]
  -- The two programs are run on one machine, for the tables of distances are the same.
  obtain ⟨T, hlike⟩ := h.like
  have hle : s.nextRef ≤ (s.reading second).nextRef := (derives_reading hread).ref_le
  have hmoved : (Likeness.kept (IsTokenOf sources) (· < s.nextRef) fun _ => True).Le
      (fun _ => True) ρ :=
    ⟨.inl, fun _ href => ⟨href.1, Nat.lt_of_lt_of_le href.2 hle⟩, fun _ => trivial, id, id⟩
  have hloaded : (s.loaded second).machine.Like ρ T (s.loaded (belowLines k second)).machine :=
    hlike.load hmoved (fun _ _ => trivial)
      (fun href => by rw [href.1, hanalysis.distances]) fun _ => trivial
  have hadmits := admits_mayBind ρ (fun _ _ => trivial) id (analysis_of_accepts haccepts)
  obtain ⟨T₁, -, houtcome, hmachine, -⟩ :=
    agree_runProgram fuel hprogram (.global hloaded.store.opened) hadmits _ _ hloaded h.scope
  have htoken : ∀ {t t' : Token}, ρ.token t t' → ∀ message,
      Diagnostic.Moved sources second k (.runtime t message) (.runtime t' message) := by
    intro t t' ht message
    rcases ht with ⟨rfl, ht⟩ | ⟨rfl, ht⟩
    · exact .earlier ht message
    · exact .later ht message
  obtain ⟨hending, hlog⟩ := like_execute _ _ id htoken houtcome
  rw [run_of_accepts haccepts, run_of_accepts haccepts']
  refine ⟨haccepts', ⟨hending, ?_, ?_⟩, hlog⟩
  · rw [machine_execute, machine_execute]
    exact hmachine.console
  · rw [machine_execute, machine_execute]
    exact hmachine.clock

/-- What an accepted source reports with lines above it. -/
lemma Settled.lowers (h : s.Settled sources) (haccepts : s.accepts second [] = true)
    (fuel : Nat) :
    Log.Lowers sources second fun n => (s.run fuel (belowLines n second) []).log := by
  obtain ⟨haccepts', -⟩ := h.run_belowLines haccepts fuel 1
  refine Log.lowers_of_moved ?_ (fun n => ?_) fun n => ?_
  · show (s.run fuel second []).log.length ≤ 1
    rw [run_of_accepts haccepts]
    exact length_log_execute _ _ _
  · exact (h.run_belowLines haccepts fuel n).2.2
  · have hlines : belowLines n (belowLines 1 second) = belowLines (n + 1) second :=
      belowLines_lineFeed n second
    have hmoved := (h.run_belowLines haccepts' fuel n).2.2
    rw [hlines] at hmoved
    exact hmoved

/-! ## After the first unit -/

/-- What the session is like once the program of a source was run. -/
structure Settled.After (s s' : Session) (source : String) : Prop where
  nextRef : s'.nextRef = (s.reading source).nextRef
  scope : s'.machine.scope = globalScope
  distances : s'.machine.distances = (s.analysis source).distances
  global : ∀ name, s'.isGlobal name = true → s.mayBind source name

lemma Settled.after (h : s.Settled sources) {log : Log} (haccepts : s.accepts first log = true)
    (fuel : Nat) : Settled.After s (s.run fuel first log).session first := by
  obtain ⟨T, -, hlike⟩ := h.agree_load haccepts fuel fun _ _ => rfl
  have hrestored := restores_runProgram fuel (s.reading first).program (s.loaded first).machine
  have hscope := hrestored.scope.trans h.scope
  have hdistances := hrestored.distances
  have hglobal := hlike.store.global
  rw [run_of_accepts haccepts, machine_execute]
  generalize (runProgram fuel (s.reading first).program (s.loaded first).machine).2 = m
    at hscope hdistances hglobal ⊢
  exact ⟨rfl, hscope, hdistances, hglobal⟩

/-! ## Two sources put together -/

section Together

variable {last whole : String}
  (htokens : tokensOf whole = (tokensOf first).takeWhile (!·.isEof) ++ tokensOf last)

include htokens

/-- **What two sources are read as together**: the program of the first, and that of the last. -/
lemma reading_append (hread : (s.reading first).errors = [])
    (hread' : (s'.reading last).errors = []) (hafter : Settled.After s s' first) :
    (s.reading whole).program = (s.reading first).program ++ (s'.reading last).program ∧
      (s.reading whole).errors = [] := by
  have hfirst := derives_reading hread
  have hlast := derives_reading hread'
  rw [hafter.nextRef] at hlast
  -- The end of the first source is gone, so the tokens run on into those of the last.
  have htake : (tokensOf whole).takeWhile (!·.isEof) =
      (tokensOf first).takeWhile (!·.isEof) ++ (tokensOf last).takeWhile (!·.isEof) := by
    have hall : ∀ t ∈ (tokensOf first).takeWhile (!·.isEof), (!t.isEof) = true := by
      intro t ht
      simpa [Token.isEof] using hfirst.ne_eof t ht
    rw [htokens, List.takeWhile_append_of_pos hall]
  have hwhole := hfirst.append hlast
  rw [← htake] at hwhole
  have hreading : s.reading whole = _ := hwhole.readProgram_takeWhile
  rw [hreading]
  exact ⟨rfl, rfl⟩

/-- **The analysis of two sources together** is where that of the last is, when this starts from
what the first has left. -/
lemma like_analysis_append (hread : (s.reading first).errors = [])
    (hread' : (s'.reading last).errors = []) (hquiet : (s.analysis first).errors = [])
    (hafter : Settled.After s s' first) :
    (s'.analysis last).Like s'.isGlobal s.isGlobal (s.analysis whole) := by
  obtain ⟨hprogram, -⟩ := reading_append htokens hread hread' hafter
  have hwhole : s.analysis whole =
      Stmt.analyseAll s.isGlobal .topLevel (s'.reading last).program (s.analysis first) := by
    rw [analysis, hprogram, analyseProgram, Stmt.analyseAll_append]
    rfl
  have hlike := like_reading hread' (P := fun _ => True) (fun _ _ => trivial) fun _ => True
  rw [hwhole]
  refine Stmt.steps_analyseAll (Analysis.Like.steps And.left) ⟨id, fun _ => trivial⟩ .topLevel _
    plain_nil hlike ⟨?_, hafter.distances.symm, fun name hname => ?_, fun _ => hquiet⟩
  · exact (Stmt.grows_analyseAll s.isGlobal .topLevel _ _).scopes_eq_nil rfl
  · rcases hname with hname | hname
    · cases hname
    · exact (hafter.global name hname).symm

/-- **The two programs, run in two units and in one.**  The table of the last unit serves for
both, because it agrees with that of the first unit on the references of the first. -/
lemma Settled.agree_append (h : s.Settled sources) {fuel : Nat}
    (haccepts : s.accepts first [] = true) (haccepts' : s'.accepts last [] = true)
    (hafter : Settled.After s s' first)
    (hrun : runProgram fuel (s.reading first).program (s.loaded first).machine =
      (.ok (), s'.machine)) :
    let ρ := Likeness.kept (fun _ => True) (· < (s'.reading last).nextRef) fun _ => True
    let split := runProgram fuel (s'.reading last).program (s'.loaded last).machine
    let together := runProgram fuel (s.reading whole).program (s.loaded whole).machine
    ∃ T, split.1.Like ρ (· = ·) together.1 ∧ split.2.Like ρ T together.2 := by
  intro ρ split together
  have hread := reading_of_accepts haccepts
  have hread' := reading_of_accepts haccepts'
  have hderives := derives_reading hread'
  have htable : ∀ ref, ref < (s.reading first).nextRef →
      (s'.analysis last).distances.find? ref = (s.analysis first).distances.find? ref := by
    intro ref href
    rw [← hafter.nextRef] at href
    rw [← hafter.distances]
    exact hderives.find?_analyseProgram (.inl href)
  obtain ⟨T, houtcome, hlike⟩ := h.agree_load haccepts fuel htable
  rw [hrun] at houtcome hlike
  have hanalysis := like_analysis_append htokens hread hread' (analysis_of_accepts haccepts) hafter
  have hprogram := (reading_append htokens hread hread' hafter).1
  have htogether : together = runProgram fuel (s'.reading last).program (runProgram fuel
      (s.reading first).program
      { s.machine with distances := (s'.analysis last).distances }).2 := by
    simp only [together, loaded, hanalysis.distances, hprogram, runProgram_append,
      Effect.run_bind]
    rcases hother : runProgram fuel (s.reading first).program
      { s.machine with distances := (s'.analysis last).distances } with ⟨outcome, m⟩
    rw [hother] at houtcome
    cases houtcome with
    | ok => rfl
  -- Where the last unit starts, the tables are the same.
  have hkept := (restores_runProgram fuel (s.reading first).program
    { s.machine with distances := (s'.analysis last).distances }).distances
  have hle : (s.reading first).nextRef ≤ (s'.reading last).nextRef := by
    rw [← hafter.nextRef]
    exact hderives.ref_le
  have hstart : (s'.loaded last).machine.Like ρ T (runProgram fuel (s.reading first).program
      { s.machine with distances := (s'.analysis last).distances }).2 :=
    hlike.loadFirst (Likeness.kept_le (fun _ _ => trivial) fun _ hlt => Nat.lt_of_lt_of_le hlt hle)
      (fun _ _ => trivial) (fun href => by rw [hkept, href.1]) fun _ => trivial
  have hadmits := admits_mayBind ρ (fun _ _ => trivial) id (analysis_of_accepts haccepts')
  have hprogram := like_reading hread' (P := fun _ => True) (fun _ _ => trivial) fun _ => True
  obtain ⟨T₁, -, hend, hmachines, -⟩ :=
    agree_runProgram fuel hprogram (.global hstart.store.opened) hadmits _ _ hstart hafter.scope
  rw [htogether]
  exact ⟨T₁, hend, hmachines⟩

/-- **A unit whose tokens are those of two sources** leaves what the second leaves after the
first. -/
lemma Settled.run_append (h : s.Settled sources) {fuel : Nat}
    (hlexical : lexicalLog whole = []) (hfirst : (s.run fuel first []).ending = .finished .ok)
    (haccepts' : (s.run fuel first []).session.accepts last [] = true) :
    EndsLike (s.run fuel whole []) ((s.run fuel first []).session.run fuel last []) ∧
      (s.run fuel whole []).log = ((s.run fuel first []).session.run fuel last []).log := by
  have haccepts : s.accepts first [] = true := accepts_of_ending (by rw [hfirst]; simp)
  have hafter := h.after haccepts fuel
  have hread := reading_of_accepts haccepts
  have hread' := reading_of_accepts haccepts'
  have hrun : runProgram fuel (s.reading first).program (s.loaded first).machine =
      (.ok (), (s.run fuel first []).session.machine) := by
    rw [run_of_accepts haccepts] at hfirst ⊢
    rw [machine_execute]
    exact runProgram_of_ok hfirst
  have hboth : s.accepts whole [] = true := by
    have herrors := (reading_append htokens hread hread' hafter).2
    have hquiet := (like_analysis_append htokens hread hread' (analysis_of_accepts haccepts)
      hafter).quiet (analysis_of_accepts haccepts')
    simp [accepts, hlexical, herrors, hquiet, Log.hasStatic]
  obtain ⟨T, houtcome, hlike⟩ := h.agree_append htokens haccepts haccepts' hafter hrun
  obtain ⟨hending, hlog⟩ := like_execute _ _ (R := Eq) id (fun ht _ => by rw [ht.1]) houtcome
  rw [List.forall₂_eq_eq_eq] at hlog
  rw [run_of_accepts hboth, run_of_accepts haccepts']
  refine ⟨⟨hending, ?_, ?_⟩, hlog.symm⟩
  · rw [machine_execute, machine_execute]
    exact hlike.console
  · rw [machine_execute, machine_execute]
    exact hlike.clock

end Together

/-- **Splitting a program across units does not change its meaning.**  In every session that units
of source lead to: if a first unit ends well and a second one is then accepted, the two together,
the second source below the first, end as the second does.  What was written is the same, and so are
the input and the clock readings that are left.  The report is the one that the second unit gives
when there are one line and the lines of the first source above it: none, or the same runtime error,
which is further down by these lines exactly if its token is one that lines above the second source
move. -/
theorem Reachable.run_below (hs : s.Reachable sources) (fuel : Nat) (first second : String)
    (hfirst : (s.run fuel first []).ending = .finished .ok)
    (hsecond : ((s.run fuel first []).session.run fuel second []).ending ≠
      .finished .syntaxError) :
    let between := (s.run fuel first []).session
    let split := between.run fuel second []
    let lowered := fun n => between.run fuel (belowLines n second) []
    let whole := s.run fuel (first ++ "\n" ++ second) []
    whole.ending = split.ending ∧
      whole.session.machine.console = split.session.machine.console ∧
      whole.session.machine.clock = split.session.machine.clock ∧
      split.log = (lowered 0).log ∧
      whole.log = (lowered (1 + lineFeeds first.toList)).log ∧
      Log.Lowers (first :: sources) second fun n => (lowered n).log := by
  intro between split lowered whole
  have haccepts : s.accepts first [] = true := accepts_of_ending (by rw [hfirst]; simp)
  have haccepts' : between.accepts second [] = true := accepts_of_ending hsecond
  have hbetween : between.Settled (first :: sources) := hs.settled.run fuel first []
  have hlexical := lexicalLog_of_accepts haccepts
  obtain ⟨hlowered, hends, -⟩ :=
    hbetween.run_belowLines haccepts' fuel (1 + lineFeeds first.toList)
  obtain ⟨hends', hlog⟩ := hs.settled.run_append (tokensOf_append_belowLines hlexical second)
    (lexicalLog_below hlexical (lexicalLog_of_accepts haccepts')) hfirst hlowered
  have hsame : EndsLike whole split := hends'.trans hends
  exact ⟨hsame.ending, hsame.console, hsame.clock, rfl, hlog, hbetween.lowers haccepts' fuel⟩

/-- A second text that calls a function of the first, reads a global of the first in the initializer
of a local of the same name, and ends in an error.  Its last line has the token at fault where the
first text has one like it. -/
theorem run_below_own_initializer :
    let s := (Session.start [] (.startingAt 0)).setLimit 10
    let first := "var a = nil;\nvar b = -1; fun f() \x7b return a; \x7d"
    let second := "\x7b var a = a; print f(); \x7d\n-nil;"
    let between := (s.run 30 first []).session
    let split := between.run 30 second []
    let lowered := fun n => between.run 30 (belowLines n second) []
    let whole := s.run 30 (first ++ "\n" ++ second) []
    (s.run 30 first []).ending = .finished .ok ∧ split.ending = .finished .runtimeError ∧
      split.log = [.runtime ⟨.mark .minus, "-", 2⟩ "Operand must be a number."] ∧
      whole.ending = split.ending ∧
      whole.session.machine.console = split.session.machine.console ∧
      whole.session.machine.clock = split.session.machine.clock ∧
      split.log = (lowered 0).log ∧
      whole.log = (lowered (1 + lineFeeds first.toList)).log ∧
      Log.Lowers [first] second fun n => (lowered n).log := by
  intro s first second
  have hreach : s.Reachable [] := Reachable.start [] (.startingAt 0) 10
  have hfirst : (s.run 30 first []).ending = .finished .ok := by decide +kernel
  have hsplit : ((s.run 30 first []).session.run 30 second []).ending =
      .finished .runtimeError := by decide +kernel
  have hlog : ((s.run 30 first []).session.run 30 second []).log =
      [.runtime ⟨.mark .minus, "-", 2⟩ "Operand must be a number."] := by decide +kernel
  -- From here on only the two endings matter, not what the texts are.
  clear_value s first second
  have hsecond : ((s.run 30 first []).session.run 30 second []).ending ≠
      .finished .syntaxError := by
    rw [hsplit]
    simp
  exact ⟨hfirst, hsplit, hlog, hreach.run_below 30 first second hfirst hsecond⟩

end Session

end LoxLang
