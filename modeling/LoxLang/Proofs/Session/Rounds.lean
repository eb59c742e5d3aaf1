import LoxLang.Proofs.Machine.Rounds
import LoxLang.Proofs.Session.References
import LoxLang.Proofs.Session.Restoration
import Mathlib

/-!
# The frames of rounds cannot be seen

On any machine what was read of a `for` loop does what the loop does with a frame for each of its
rounds (`forLoop_same_runs`).  In every session the loop does the same without these frames
(`Reachable.rounds_unseen`).  They hold nothing, and no name in the condition, the increment or the
body is looked for in them, because a recorded distance leads to a scope of the text that declares
the name.

The loop is one that is under way in an accepted unit, anywhere in it, also inside a function that
an earlier unit has declared.  The machine is then one that mirrors itself (`Activity.Stands`), and
the loop with frames and the loop without them are run on it side by side (`mirror_runFor`).
-/

namespace LoxLang

/-- Did a statement end normally? -/
def Outcome.isNormal : Outcome Flow → Bool
  | .ok .normal => true
  | _ => false

lemma Outcome.eq_normal_of_isNormal {x : Outcome Flow} (h : x.isNormal = true) :
    x = .ok .normal := by
  unfold isNormal at h
  split at h
  · rfl
  · cases h

namespace WatchedSession

variable {h : WatchedSession} {source : String} {log : Log}

/-- **Runs that differ in nothing but frames of rounds.**  From one machine they end alike and write
and read the same.  Every frame that was there before corresponds to itself, so each of its bindings
is the same in the end, and both runs end in the scope in which they began. -/
def DifferInRounds (S : Site → Prop) (m : Machine) (run run' : Outcome Flow × Machine) : Prop :=
  ∃ W, Images.identity m.store.frames.size <+: W ∧ run.1.Mirror (Flow.Mirror S W) run'.1 ∧
    run.2.Mirror S W run'.2 ∧ run.2.scope = m.scope ∧ run'.2.scope = m.scope

/-- **A `for` loop does what it would do without frames for its rounds.**  Neither of the two runs
longer than the other, up to the fuel that the blocks take. -/
theorem Reachable.rounds_unseen (hh : h.Reachable) (haccepts : h.session.accepts source log = true)
    {fuel n : Nat} {links : List Link} {initializer : Option Stmt}
    {condition increment : Option Expr} {body : Stmt} {m : Machine} {P : Token → Prop}
    (hbody : body.Formed P) (hstatement : body.isDeclaration = false)
    (ha : h.session.Underway fuel source links
      ⟨n, .execute (.forLoop initializer condition increment body), m⟩) :
    let S := h.sitesWith source
    let loop := Stmt.forLoop initializer condition increment body
    let plain := runFor Effect.inSameScope n condition increment body initializer m
    ((execute n loop m).1 ≠ .exhausted → DifferInRounds S m (execute n loop m) plain) ∧
      (plain.1 ≠ .exhausted → DifferInRounds S m (execute (n + 8) loop m) plain) := by
  intro S loop plain
  obtain ⟨w, rfl, hsound, hglobal, Γ, halign, hsites⟩ := hh.stands haccepts ha
  let framed := runFor Effect.inNewScope n condition increment body initializer
  have hmirror := mirror_runFor n halign.mirror hsites hbody hstatement
  have halike : DifferInRounds S w.machine (framed w.machine) plain :=
    hmirror _ _ (hsound.mirror hglobal) rfl rfl
  constructor
  · intro hends
    have hextends : (execute n loop).Extends framed := forLoop_extends initializer n
    rcases hextends w.machine with hexhausted | heq
    · exact absurd hexhausted hends
    · rwa [← heq]
  · intro hends
    have hextends : framed.Extends (execute (n + 8) loop) := extends_forLoop initializer n
    rcases hextends w.machine with hexhausted | heq
    · -- The loop without frames would have run out of fuel, too.
      obtain ⟨W, -, houtcome, -⟩ := halike
      rw [hexhausted] at houtcome
      cases hplain : plain.1 with
      | exhausted => exact absurd hplain hends
      | _ =>
        rw [hplain] at houtcome
        cases houtcome
    · rwa [heq]

/-- **A `for` loop means what its clauses say.**  On any machine, what was read has the same runs as
the loop: the initializer once in a scope of its own; then round after round the condition, the
body, and the increment if the body ended normally.  Here body and increment of a round are run in
a frame that is made for them.

Where a loop with a body that the grammar allows is under way in a session, the loop without such
frames has the same runs, too. -/
theorem loops_run_directly :
    (∀ (initializer : Option Stmt) (condition increment : Option Expr) (body : Stmt) (n : Nat),
      let loop := Stmt.forLoop initializer condition increment body
      (execute n loop).Extends
          (runFor Effect.inNewScope n condition increment body initializer) ∧
        (runFor Effect.inNewScope n condition increment body initializer).Extends
          (execute (n + 8) loop)) ∧
    ∀ (h : WatchedSession) (source : String) (log : Log) (fuel n : Nat) (links : List Link)
      (initializer : Option Stmt) (condition increment : Option Expr) (body : Stmt) (m : Machine)
      (P : Token → Prop),
      let S := h.sitesWith source
      let loop := Stmt.forLoop initializer condition increment body
      let plain := runFor Effect.inSameScope n condition increment body initializer m
      h.Reachable → h.session.accepts source log = true →
      body.Formed P → body.isDeclaration = false →
      h.session.Underway fuel source links ⟨n, .execute loop, m⟩ →
      ((execute n loop m).1 ≠ .exhausted → DifferInRounds S m (execute n loop m) plain) ∧
        (plain.1 ≠ .exhausted → DifferInRounds S m (execute (n + 8) loop m) plain) := by
  constructor
  · intro initializer condition increment body n
    exact forLoop_same_runs initializer condition increment body n
  · intro h source log fuel n links initializer condition increment body m P S loop plain hh
      haccepts hbody hstatement ha
    exact hh.rounds_unseen haccepts hbody hstatement ha

/-- A loop with all clauses that runs for one round, in a session that has just begun. -/
theorem loops_run_directly_one_round :
    let h : WatchedSession := ⟨(Session.start [] (.startingAt 0)).setLimit 10, [], []⟩
    let source := "for (var more = true; more; more = false) print more;"
    let m := (h.session.loaded source).machine
    let more : Token := ⟨.identifier, "more", 1⟩
    let condition : Expr := .variable 0 more
    let increment : Expr := .assign 2 more (.literal (.bool false))
    let body : Stmt := .print (.variable 3 more)
    let initializer : Stmt := .var more (some (.literal (.bool true)))
    let loop := Stmt.forLoop (some initializer) (some condition) (some increment) body
    let plain := runFor Effect.inSameScope 12 condition increment body initializer m
    h.session.accepts source [] = true ∧
      h.session.Underway 12 source [] ⟨12, .execute loop, m⟩ ∧
      (execute 12 loop m).1 = .ok .normal ∧
      (execute 12 loop m).2.console.events = #[.printed "true"] ∧
      DifferInRounds (h.sitesWith source) m (execute 12 loop m) plain ∧
      plain.2.console.events = #[.printed "true"] := by
  intro h source m more condition increment body initializer loop plain
  have hh : h.Reachable := .start [] (.startingAt 0) 10
  have haccepts : h.session.accepts source [] = true := by decide +kernel
  have htokens : tokensOf source = [⟨.keyword .for_, "for", 1⟩, ⟨.mark .leftParen, "(", 1⟩,
      ⟨.keyword .var_, "var", 1⟩, more, ⟨.mark .equal, "=", 1⟩, ⟨.keyword .true_, "true", 1⟩,
      ⟨.mark .semicolon, ";", 1⟩, more, ⟨.mark .semicolon, ";", 1⟩, more, ⟨.mark .equal, "=", 1⟩,
      ⟨.keyword .false_, "false", 1⟩, ⟨.mark .rightParen, ")", 1⟩, ⟨.keyword .print_, "print", 1⟩,
      more, ⟨.mark .semicolon, ";", 1⟩, ⟨.eof, "", 1⟩] := by
    decide +kernel
  have hprogram : (h.session.reading source).program = [loop] := by
    rw [Session.reading, htokens]
    cbv
  have ha : h.session.Underway 12 source [] ⟨12, .execute loop, m⟩ :=
    ⟨[], loop, [], m, hprogram, rfl, .here⟩
  have hnormal : (execute 12 loop m).1 = .ok .normal :=
    Outcome.eq_normal_of_isNormal (by decide +kernel)
  have hevents : (execute 12 loop m).2.console.events = #[.printed "true"] := by decide +kernel
  have hends : (execute 12 loop m).1 ≠ .exhausted := by
    rw [hnormal]
    intro heq
    cases heq
  have hbody : body.Formed fun _ => True := ⟨rfl, trivial⟩
  have halike : DifferInRounds (h.sitesWith source) m (execute 12 loop m) plain :=
    (loops_run_directly.2 h source [] 12 12 [] initializer condition increment body m _ hh haccepts
      hbody rfl ha).1 hends
  refine ⟨haccepts, ha, hnormal, hevents, halike, ?_⟩
  obtain ⟨W, -, -, hmirror, -⟩ := halike
  rw [hmirror.console, hevents]

end WatchedSession

end LoxLang
