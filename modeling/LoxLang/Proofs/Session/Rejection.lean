import LoxLang.Proofs.Session.Reachable

/-!
# A rejected unit leaves no trace

A unit that is not accepted changes two things in a session: reference numbers were handed out for
it, and if it could be read, there are distances in the table for these numbers.  Neither can be
seen later.  The numbers of later units are higher than they would have been, all by the same
amount, and nothing looks at a number but to find its distance.

So the session that has seen the rejected unit is compared with the one that has not, up to this
shift of numbers (`Session.Renumbered`).  Every later unit is read, analysed and run alike in both,
whether it is accepted or not, and the two stay related.
-/

namespace LoxLang

/-- The number of a reference when `skipped` numbers were left out from `n` on. -/
def renumber (n skipped ref : Nat) : Nat := if ref < n then ref else ref + skipped

lemma renumber_of_lt {n ref : Nat} (h : ref < n) (skipped : Nat) : renumber n skipped ref = ref :=
  if_pos h

lemma renumber_of_le {n ref : Nat} (h : n ≤ ref) (skipped : Nat) :
    renumber n skipped ref = ref + skipped := if_neg (Nat.not_lt.mpr h)

lemma renumber_injective (n skipped : Nat) : Function.Injective (renumber n skipped) := by
  intro ref ref' heq
  unfold renumber at heq
  split at heq <;> split at heq <;> omega

/-- **Nothing but numbers is replaced.** -/
def Likeness.renumbered (n skipped : Nat) : Likeness where
  token t t' := t' = t
  ref ref ref' := ref' = renumber n skipped ref
  distance _ _ := True
  renames π := π = .identity
  function _ _ := True
  global _ := True
  kind h := by rw [h]
  identity := rfl
  inner _ _ _ := trivial

/-! ## Analyses -/

/-- The same walk, with other numbers in the table. -/
structure Analysis.Renumbered (number : RefId → RefId) (a a' : Analysis) : Prop where
  scopes : a'.scopes = a.scopes
  topLevel : a'.topLevel = a.topLevel
  errors : a'.errors = a.errors
  distances : ∀ ref, a'.distances.find? (number ref) = a.distances.find? ref

namespace Analysis.Renumbered

variable {number : RefId → RefId} {a a' : Analysis}

/-- The tables stay related when the same distance is recorded in both. -/
lemma record (h : a.Renumbered number a') (hnumber : Function.Injective number) (ref : RefId)
    (d : Nat) : ∀ other, (a'.distances.record (number ref) d).find? (number other) =
      (a.distances.record ref d).find? other := by
  intro other
  by_cases heq : other = ref
  · subst heq
    simp only [Distances.find?_record_self]
  · have hne : number other ≠ number ref := fun hsame => heq (hnumber hsame)
    rw [Distances.find?_record_of_ne _ heq, Distances.find?_record_of_ne _ hne]
    exact h.distances other

lemma complain (h : a.Renumbered number a') (t : Token) (cause : ResolutionCause) :
    (a.complain t cause).Renumbered number (a'.complain t cause) :=
  ⟨h.scopes, h.topLevel, by simp only [Analysis.complain, h.errors], h.distances⟩

lemma bind (h : a.Renumbered number a') (hnumber : Function.Injective number) (ref : RefId)
    (name : String) : (a.bind ref name).Renumbered number (a'.bind (number ref) name) := by
  simp only [Analysis.bind, h.scopes]
  split
  · exact ⟨rfl, h.topLevel, h.errors, h.record hnumber ref _⟩
  · exact h

lemma bindOuter (h : a.Renumbered number a') (hnumber : Function.Injective number)
    (known : String → Bool) (ref : RefId) (t : Token) :
    (a.bindOuter known ref t).Renumbered number (a'.bindOuter known (number ref) t) := by
  simp only [Analysis.bindOuter, h.scopes, h.topLevel]
  split
  · exact ⟨rfl, rfl, h.errors, h.record hnumber ref _⟩
  · split
    · exact h
    · exact h.complain t _

lemma read (h : a.Renumbered number a') (hnumber : Function.Injective number)
    (known : String → Bool) (ref : RefId) (t : Token) :
    (a.read known ref t).Renumbered number (a'.read known (number ref) t) := by
  have hinitializing : a'.isInitializing t.lexeme = a.isInitializing t.lexeme := by
    simp only [Analysis.isInitializing, h.scopes]
  rw [Analysis.read, Analysis.read, hinitializing]
  split
  · exact h.bindOuter hnumber known ref t
  · exact h.bind hnumber ref t.lexeme

/-- Every step keeps the relation. -/
lemma steps (hnumber : Function.Injective number) {ρ : Likeness}
    (htoken : ∀ {t t'}, ρ.token t t' → t' = t)
    (href : ∀ {ref ref'}, ρ.ref ref ref' → ref' = number ref) (known : String → Bool) :
    Analysis.Steps ρ known known (Renumbered number) where
  complain h ht cause := htoken ht.token ▸ h.complain _ cause
  push h names := ⟨by simp only [Analysis.push, h.scopes], h.topLevel, h.errors, h.distances⟩
  pop h := ⟨by simp only [Analysis.pop, h.scopes], h.topLevel, h.errors, h.distances⟩
  declare {a a' t t'} h ht := by
    obtain rfl := htoken ht.token
    simp only [Analysis.declare, h.scopes]
    cases a.scopes with
    | nil => exact h
    | cons scope outer =>
      have hdeclared : Renumbered number { a with scopes := scope.insert t'.lexeme false :: outer }
          { a' with scopes := scope.insert t'.lexeme false :: outer } :=
        ⟨rfl, h.topLevel, h.errors, h.distances⟩
      by_cases hagain : scope.contains t'.lexeme = true
      · simp only [if_pos hagain]
        exact hdeclared.complain t' _
      · simp only [if_neg hagain]
        exact hdeclared
  define {a a' t t'} h ht := by
    obtain rfl := htoken ht.token
    simp only [Analysis.define, h.scopes]
    cases a.scopes with
    | nil => exact ⟨rfl, by simp only [h.topLevel], h.errors, h.distances⟩
    | cons scope outer => exact ⟨rfl, h.topLevel, h.errors, h.distances⟩
  bind h hnumbers name := href hnumbers ▸ h.bind hnumber _ name
  read h hnumbers ht := by
    rw [href hnumbers, htoken ht.token]
    exact h.read hnumber known _ _

end Analysis.Renumbered

namespace Session

/-- **The second session is the first**, but that it has skipped some numbers. -/
structure Renumbered (n skipped : Nat) (s s' : Session) : Prop where
  like : ∃ T, s.machine.Like (.renumbered n skipped) T s'.machine
  scope : s.machine.scope = globalScope
  nextRef : s'.nextRef = s.nextRef + skipped
  le : n ≤ s.nextRef

namespace Renumbered

variable {n skipped : Nat} {s s' : Session}

/-! ## One unit -/

lemma isGlobal (h : s.Renumbered n skipped s') : s'.isGlobal = s.isGlobal := by
  funext name
  obtain ⟨T, hlike⟩ := h.like
  exact (hlike.store.frame hlike.store.opened).contains name

lemma reading (h : s.Renumbered n skipped s') (source : String) :
    Stmt.LikeAll (.renumbered n skipped) [] (s.reading source).program
        (s'.reading source).program ∧
      (s'.reading source).log = (s.reading source).log ∧
      (s'.reading source).nextRef = (s.reading source).nextRef + skipped := by
  have htokens : List.Forall₂ (Likeness.renumbered n skipped).Same (tokensOf source)
      (tokensOf source) := List.forall₂_same.mpr fun _ _ => ⟨rfl, rfl⟩
  have href : ∀ i, (Likeness.renumbered n skipped).ref (s.nextRef + i) (s'.nextRef + i) := by
    intro i
    show s'.nextRef + i = renumber n skipped (s.nextRef + i)
    rw [renumber_of_le (Nat.le_trans h.le (Nat.le_add_right _ _)), h.nextRef]
    exact Nat.add_right_comm _ _ _
  obtain ⟨hprogram, herrors, i, hnext, hnext'⟩ :=
    like_readProgram htokens (exists_eof_tokensOf source) href fun _ => trivial
  refine ⟨hprogram [] plain_nil, ?_, ?_⟩
  · have hsame : (s.reading source).errors = (s'.reading source).errors := by
      refine List.forall₂_eq_eq_eq ▸ herrors.imp fun e e' he => ?_
      obtain ⟨token, cause, position⟩ := e
      obtain ⟨htoken, rfl, rfl⟩ := he
      obtain rfl := htoken.token
      rfl
    rw [Reading.log, Reading.log, hsame]
  · have hnext : (s.reading source).nextRef = s.nextRef + i := hnext
    have hnext' : (s'.reading source).nextRef = s'.nextRef + i := hnext'
    rw [hnext, hnext', h.nextRef]
    exact Nat.add_right_comm _ _ _

lemma analysis (h : s.Renumbered n skipped s') (source : String) :
    (s.analysis source).Renumbered (renumber n skipped) (s'.analysis source) := by
  obtain ⟨T, hlike⟩ := h.like
  obtain ⟨hprogram, -, -⟩ := h.reading source
  have hsteps : Analysis.Steps (.renumbered n skipped) s.isGlobal s.isGlobal
      (Analysis.Renumbered (renumber n skipped)) :=
    Analysis.Renumbered.steps (renumber_injective n skipped) id id s.isGlobal
  rw [Session.analysis, Session.analysis, h.isGlobal]
  refine Stmt.steps_analyseAll hsteps ⟨id, fun _ => trivial⟩ .topLevel _ plain_nil hprogram ?_
  exact ⟨rfl, rfl, rfl, fun ref => hlike.distances rfl⟩

/-- When the numbers of a unit were handed out. -/
lemma numbered (h : s.Renumbered n skipped s') (source : String) :
    Renumbered n skipped { s with nextRef := (s.reading source).nextRef }
      { s' with nextRef := (s'.reading source).nextRef } := by
  obtain ⟨-, -, hnext⟩ := h.reading source
  have hle : s.nextRef ≤ (s.reading source).nextRef := le_nextRef_readProgram _ _
  exact ⟨h.like, h.scope, hnext, Nat.le_trans h.le hle⟩

/-- When the distances of a unit were recorded. -/
lemma loaded (h : s.Renumbered n skipped s') (source : String) :
    (s.loaded source).Renumbered n skipped (s'.loaded source) := by
  obtain ⟨T, hlike⟩ := h.like
  have hnumbered := h.numbered source
  have hanalysis := h.analysis source
  refine ⟨⟨T, hlike.load (.refl _) (fun _ _ => trivial) (fun href => ?_) fun _ => trivial⟩, h.scope,
    hnumbered.nextRef, hnumbered.le⟩
  rw [href]
  exact hanalysis.distances _

/-- When a program was run. -/
lemma execute (h : s.Renumbered n skipped s') {program program' : List Stmt}
    (hprogram : Stmt.LikeAll (.renumbered n skipped) [] program program') (fuel : Nat) (log : Log) :
    (s'.execute fuel program' log).ending = (s.execute fuel program log).ending ∧
      (s'.execute fuel program' log).log = (s.execute fuel program log).log ∧
      (s.execute fuel program log).session.Renumbered n skipped
        (s'.execute fuel program' log).session := by
  obtain ⟨T, hlike⟩ := h.like
  have hadmits : ∀ stmt ∈ program, globalScope.Admits (.renumbered n skipped) stmt :=
    fun _ _ => ⟨fun _ _ _ => trivial, fun _ _ => trivial⟩
  obtain ⟨T₁, -, houtcome, hmachine, hscope⟩ :=
    agree_runProgram fuel hprogram (.global hlike.store.opened) hadmits _ _ hlike h.scope
  have hafter : (s.execute fuel program log).session.Renumbered n skipped
      (s'.execute fuel program' log).session := by
    rw [machine_execute, machine_execute]
    exact ⟨⟨T₁, hmachine⟩, hscope, h.nextRef, h.le⟩
  rcases hrun : runProgram fuel program s.machine with ⟨outcome, m⟩
  rcases hrun' : runProgram fuel program' s'.machine with ⟨outcome', m'⟩
  rw [hrun, hrun'] at houtcome
  simp only [Session.execute, hrun, hrun'] at hafter ⊢
  cases houtcome with
  | ok => exact ⟨rfl, rfl, hafter⟩
  | exhausted => exact ⟨rfl, rfl, hafter⟩
  | fault hfault =>
    obtain rfl := hfault.eq id
    exact ⟨rfl, rfl, hafter⟩
  | error htoken cause =>
    obtain rfl := htoken
    exact ⟨rfl, rfl, hafter⟩

/-- **A unit gives the same in both sessions**, whether it is accepted or not. -/
lemma run (h : s.Renumbered n skipped s') (fuel : Nat) (source : String) (log : Log) :
    (s'.run fuel source log).ending = (s.run fuel source log).ending ∧
      (s'.run fuel source log).log = (s.run fuel source log).log ∧
      (s.run fuel source log).session.Renumbered n skipped
        (s'.run fuel source log).session := by
  obtain ⟨hprogram, hreading, -⟩ := h.reading source
  have hanalysis : (s'.analysis source).log = (s.analysis source).log := by
    rw [Analysis.log, Analysis.log, (h.analysis source).errors]
  rw [run_eq, run_eq, hreading, hanalysis]
  simp only
  split
  · exact ⟨rfl, rfl, h.numbered source⟩
  · split
    · exact ⟨rfl, rfl, h.loaded source⟩
    · exact (h.loaded source).execute hprogram fuel _

end Renumbered

/-! ## All later units -/

/-- Runs units one after another, each with an empty log, and gives what each of them leaves. -/
def runAll (s : Session) : List (Nat × String) → List UnitResult
  | [] => []
  | (fuel, source) :: rest =>
    let result := s.run fuel source []
    result :: result.session.runAll rest

/-- What can be seen of a unit from outside. -/
structure SameResult (r r' : UnitResult) : Prop where
  ending : r'.ending = r.ending
  log : r'.log = r.log
  console : r'.session.machine.console = r.session.machine.console
  clock : r'.session.machine.clock = r.session.machine.clock

variable {s : Session} {sources : List String}

lemma Renumbered.runAll {n skipped : Nat} {s s' : Session} (h : s.Renumbered n skipped s')
    (units : List (Nat × String)) : List.Forall₂ SameResult (s.runAll units) (s'.runAll units) := by
  induction units generalizing s s' with
  | nil => exact .nil
  | cons unit rest ih =>
    obtain ⟨fuel, source⟩ := unit
    obtain ⟨hending, hlog, hafter⟩ := h.run fuel source []
    obtain ⟨T, hlike⟩ := hafter.like
    exact .cons ⟨hending, hlog, hlike.console, hlike.clock⟩ (ih hafter)

/-- **A rejected unit only skips numbers.**  What it has recorded is recorded for numbers that the
session would have given to others. -/
lemma Settled.renumbered_rejected (h : s.Settled sources) (source : String) (log : Log) :
    ∃ skipped, s.Renumbered s.nextRef skipped (s.rejected source log) := by
  have hle : s.nextRef ≤ (s.reading source).nextRef := le_nextRef_readProgram _ _
  obtain ⟨skipped, hskipped⟩ := Nat.exists_eq_add_of_le hle
  obtain ⟨T, hlike⟩ := h.like
  have hkept : (Likeness.kept (IsTokenOf sources) (· < s.nextRef) fun _ => True).Le (fun _ => True)
      (.renumbered s.nextRef skipped) :=
    ⟨And.left, fun _ href => href.1.trans (renumber_of_lt href.2 skipped).symm,
      fun _ => trivial, id, fun _ => trivial⟩
  have hload : ∀ d : Distances,
      (∀ ref, d.find? (renumber s.nextRef skipped ref) = s.machine.distances.find? ref) →
      Machine.Like (.renumbered s.nextRef skipped) T s.machine { s.machine with distances := d } :=
    fun d hd => hlike.load hkept (fun _ _ => trivial) (fun href => href ▸ hd _) fun _ => trivial
  refine ⟨skipped, ?_⟩
  rcases s.rejected_cases source log with heq | ⟨hread, heq⟩
  · rw [heq]
    refine ⟨⟨T, hload s.machine.distances fun ref => ?_⟩, h.scope, hskipped, Nat.le_refl _⟩
    by_cases hlt : ref < s.nextRef
    · rw [renumber_of_lt hlt]
    · have hfresh : s.nextRef ≤ ref := Nat.not_lt.mp hlt
      rw [renumber_of_le hfresh, h.fresh _ hfresh, h.fresh _ (Nat.le_add_right_of_le hfresh)]
  · rw [heq]
    refine ⟨⟨T, hload (s.analysis source).distances fun ref => ?_⟩, h.scope, hskipped,
      Nat.le_refl _⟩
    by_cases hlt : ref < s.nextRef
    · rw [renumber_of_lt hlt]
      exact (derives_reading hread).find?_analyseProgram (.inl hlt)
    · have hfresh : s.nextRef ≤ ref := Nat.not_lt.mp hlt
      have hlater : (s.reading source).nextRef ≤ ref + skipped := by
        rw [hskipped]
        exact Nat.add_le_add_right hfresh skipped
      rw [renumber_of_le hfresh, h.fresh _ hfresh]
      exact h.fresh_analysis hread _ hlater

/-- Only what is not accepted ends as a syntax error. -/
lemma not_accepts_of_ending {fuel : Nat} {source : String} {log : Log}
    (h : (s.run fuel source log).ending = .finished .syntaxError) :
    s.accepts source log = false := by
  by_contra haccepts
  rw [Bool.not_eq_false] at haccepts
  rw [run_of_accepts haccepts, Session.execute] at h
  split at h
  · split at h <;> cases h
  · cases h
  · cases h
  · cases h

/-- **A rejected unit leaves no trace.**  In every session that units of source lead to: a unit that
ends as a syntax error changes nothing in the machine but the table of distances, so that the store,
the scope, the depth of calls, the console and the clock are as they were.  And all units that
follow end in the same way, with the same log, the same output and the same input left, as if it had
never been there. -/
theorem Reachable.rejected_unseen (hs : s.Reachable sources) (fuel : Nat) (source : String)
    (hrejected : (s.run fuel source []).ending = .finished .syntaxError) :
    let after := (s.run fuel source []).session
    after.machine = { s.machine with distances := after.machine.distances } ∧
      ∀ units, List.Forall₂ SameResult (s.runAll units) (after.runAll units) := by
  intro after
  have hnot := not_accepts_of_ending hrejected
  obtain ⟨log', hrun⟩ := run_of_not_accepts hnot fuel
  have hafter : after = s.rejected source [] := by
    show (s.run fuel source []).session = _
    rw [hrun]
  rw [hafter]
  constructor
  · rcases s.rejected_cases source [] with heq | ⟨-, heq⟩
    · rw [heq]
    · rw [heq]
      rfl
  · obtain ⟨skipped, hrenumbered⟩ := hs.settled.renumbered_rejected source []
    exact hrenumbered.runAll

/-- A unit that is rejected after its scopes were analysed, and then one that declares and calls a
function and fails. -/
theorem rejected_unseen_break :
    let s := (Session.start [] (.startingAt 0)).setLimit 10
    let source := "\x7b var a = 1; print a; \x7d break;"
    let later := "fun f(a) \x7b return -a; \x7d print f(1); f(nil);"
    (s.run 20 source []).ending = .finished .syntaxError ∧
      (s.run 20 source []).session.machine.distances.find? 0 = some 0 ∧
      (s.run 20 later []).ending = .finished .runtimeError ∧
      List.Forall₂ SameResult (s.runAll [(20, later)])
        ((s.run 20 source []).session.runAll [(20, later)]) := by
  intro s source later
  have hs : s.Reachable [] := Reachable.start [] (.startingAt 0) 10
  have hrejected : (s.run 20 source []).ending = .finished .syntaxError := by decide +kernel
  have hrecorded : (s.run 20 source []).session.machine.distances.find? 0 = some 0 := by
    decide +kernel
  have hlater : (s.run 20 later []).ending = .finished .runtimeError := by decide +kernel
  clear_value source later
  exact ⟨hrejected, hrecorded, hlater, (hs.rejected_unseen 20 source hrejected).2 _⟩

end Session

end LoxLang
