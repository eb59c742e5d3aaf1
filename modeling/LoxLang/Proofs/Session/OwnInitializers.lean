import LoxLang.Proofs.Machine.Promises
import LoxLang.Proofs.Session.Dispatch

/-!
# Variables in their own initializers

A read of a local variable in its own initializer is resolved past the variable, and accepted on two
different grounds.  If a scope further out declares the name, the frame of that scope is around
whenever the read is evaluated, and binds the name (`Aligned`).  If no scope does, a global has to
be known to the analysis, and that it is bound by the time of the read depends on how the units of
the session have ended (`Kept`).

Not every site of an accepted program has its promise kept at the end of the unit: the unit may end
before it comes to the declaration of the global.  But then it has not come to the site either, and
what it did not come to is never evaluated, in this unit or in a later one.
-/

namespace LoxLang

/-- **A site finds a value**: the value that its name has in the frame of the visible declaration,
or globally where no declaration is visible. -/
structure Site.Finds (site : Site) (m : Machine) (value : Value) : Prop where
  visible : ∀ d, site.visible? = some d → ∃ frame, m.scope[d]? = some frame ∧
    (m.store.frame frame).find? site.name = some value
  global : site.visible? = none → (m.store.frame globalFrame).find? site.name = some value
  evaluate : ∀ n, evaluate (n + 1) (.variable site.reference.ref site.reference.token) m =
    (.ok value, m)

section Finds

variable {site : Site} {m : Machine} {before : List Observation}

/-- A read whose promise is kept finds a value. -/
lemma exists_finds (halign : Aligned ⟨m, before⟩ site.pending site.scopes m.scope)
    (hplaced : site.Placed) (hdistance : m.distances.find? site.reference.ref = site.visible?)
    (hown : site.isOwnRead = true) (hanswered : site.Answered m.HasGlobal) :
    ∃ value, site.Finds m value := by
  have hread : site.isOwnAssignment = false := by
    simp only [Site.isOwnRead, Bool.and_eq_true, decide_eq_true_eq] at hown
    simp [Site.isOwnAssignment, hown.1]
  have hevaluate : ∀ n, evaluate (n + 1) (.variable site.reference.ref site.reference.token) m =
      Effect.readRef site.reference.ref site.reference.token m := fun _ => rfl
  cases hvisible : site.visible? with
  | some d =>
    obtain ⟨σ, frame, -, -, hframe, -, hbound⟩ := halign.exists_visible hplaced hvisible
    obtain ⟨value, hvalue⟩ := Bindings.exists_of_contains (hbound hread)
    refine ⟨value, ⟨fun d' hd' => ?_, fun hnone => ?_, fun n => ?_⟩⟩
    · rw [hvisible, Option.some.injEq] at hd'
      exact ⟨frame, hd' ▸ hframe, hvalue⟩
    · rw [hvisible] at hnone
      cases hnone
    · rw [hevaluate]
      simp only [Effect.readRef, hdistance, hvisible]
      exact Effect.readAt_of_frame hframe hvalue
  | none =>
    obtain ⟨value, hvalue⟩ := Bindings.exists_of_contains (hanswered hown hvisible)
    refine ⟨value, ⟨fun d hd => ?_, fun _ => hvalue, fun n => ?_⟩⟩
    · rw [hvisible] at hd
      cases hd
    · rw [hevaluate]
      have hname : (m.store.frame globalFrame).find? site.reference.token.lexeme = some value :=
        hvalue
      simp only [Effect.readRef, hdistance, hvisible, Effect.readGlobal, Store.lookup?, globalScope,
        hname]

end Finds

/-- Does a note tell that a reference was followed? -/
def Observation.tells (reference : Reference) : Observation → Bool
  | .followed other _ => other = reference
  | .opened .. => false

lemma exists_told {trace : List Observation} {reference : Reference}
    (h : trace.any (·.tells reference) = true) : ∃ before m after,
      trace = before ++ .followed reference m :: after := by
  obtain ⟨o, ho, htells⟩ := List.any_eq_true.mp h
  obtain ⟨before, after, rfl⟩ := List.append_of_mem ho
  cases o with
  | followed other m =>
    obtain rfl : other = reference := of_decide_eq_true htells
    exact ⟨before, m, after, rfl⟩
  | opened => cases htells

namespace WatchedSession

variable {h : WatchedSession}

/-- All promises for the sites of a session are kept that were made for a statement which was
run. -/
def KeepsPromises (h : WatchedSession) : Prop :=
  ∃ S, (∀ site, S site → site ∈ h.sites) ∧ Kept S ⟨h.session.machine, h.trace⟩ ∧
    Watch.AtTop ⟨h.session.machine, h.trace⟩

/-- An accepted unit keeps the promises, up to where it ends. -/
lemma Reachable.keepsPromises_run (hh : h.Reachable) (hkeeps : h.KeepsPromises) {source : String}
    {log : Log} (haccepts : h.session.accepts source log = true) (fuel : Nat) :
    (h.run fuel source log).KeepsPromises := by
  obtain ⟨S, hS, hkept, htop⟩ := hkeeps
  let program := (h.session.reading source).program
  have hread := Session.reading_of_accepts haccepts
  have hloaded := (hh.invariant.loaded haccepts fuel).sound
  have htidy := (hh.run fuel source log).tidy_classes
  have hextends := (hh.invariant.meets fuel haccepts).1
  have hsites := sites_of_accepts haccepts fuel
  have hclasses := classes_of_accepts haccepts fuel
  have hprovided := hh.provided htidy fun c hc => hclasses ▸ List.mem_append_left _ hc
  have hall : ∀ site ∈ programSites program, site.Placed ∧
      (h.session.loaded source).machine.distances.find? site.reference.ref = site.visible? := by
    intro site hsite
    have hmem : site ∈ (h.loading fuel source).sites := by
      rw [sites_loading]
      exact List.mem_append_right _ hsite
    exact ⟨hloaded.placed site hmem, hloaded.distances site hmem⟩
  have harrived : Arrived (· ∈ (h.run fuel source log).classes) S h.session.isGlobal
      ⟨[], [], h.session.machine.distances, []⟩ ⟨(h.session.loaded source).machine, h.trace⟩ := by
    refine ⟨hkept.load (fun s hs => hh.invariant.find?_loaded hread s (hS s hs)) rfl rfl,
      hprovided.congr rfl rfl, ⟨htop.scope, htop.rooted⟩, rfl, fun name hname => ?_⟩
    -- Nothing is defined at top level before the walk begins.
    rcases hname with hmem | hglobal
    · cases hmem
    · exact hglobal
  obtain ⟨S', hS', hend⟩ := harrived.runProgram
    (Stmt.allFormed_of_areNormal program (Session.derives_reading hread).fits)
    (tidy_readProgram fun c hc => hclasses ▸ List.mem_append_right _ hc)
    (Session.analysis_of_accepts haccepts) hall fuel
  refine ⟨S', fun site hsite => ?_, ?_⟩
  · rw [hsites, List.mem_append]
    exact (hS' site hsite).imp_left (hS site)
  · rw [run_of_accepts haccepts]
    exact ⟨hend, harrived.top.extends hextends⟩

/-- **Every session keeps the promises for what its runs came to.** -/
lemma Reachable.keepsPromises (hh : h.Reachable) : h.KeepsPromises := by
  induction hh with
  | start input clock limit =>
    have hnothing : Kept (fun _ => False)
        ⟨((Session.start input clock).setLimit limit).machine, []⟩ :=
      ⟨sound_initial (fun _ => id) rfl, fun _ hsite => hsite.elim, by simp⟩
    refine ⟨fun _ => False, fun _ hsite => hsite.elim, hnothing, rfl, ?_⟩
    show 0 < Store.initial.frames.size
    decide
  | @run h hh fuel source log ih =>
    cases haccepts : h.session.accepts source log with
    | false =>
      obtain ⟨S, hS, hkept, htop⟩ := ih
      rw [run_of_not_accepts haccepts]
      refine ⟨S, hS, ?_⟩
      rcases h.session.rejected_cases source log with heq | ⟨hread, heq⟩
      · rw [heq]
        exact ⟨hkept, htop⟩
      · rw [heq]
        refine ⟨hkept.load (fun s hs => ?_) rfl rfl, htop.scope, htop.rooted⟩
        exact hh.invariant.find?_loaded hread s (hS s hs)
    | true => exact hh.keepsPromises_run ih haccepts fuel
  | console _ _ ih | limit _ _ ih =>
    obtain ⟨S, hS, hkept, htop⟩ := ih
    exact ⟨S, hS, hkept.load hkept.sound.distances rfl rfl, htop.scope, htop.rooted⟩

/-- **A read of a local variable in its own initializer finds a value.**  Watching changes no run,
and every variable that is evaluated is noted.  Whenever such a read was noted in a session, in
whatever unit and however the units before it have ended, it ended there with the value of the next
variable out, or with that of the global. -/
theorem Reachable.own_reads_succeed {h : WatchedSession} (hh : h.Reachable) :
    (∀ fuel program, Watched.Erases (Watched.runProgram fuel program) (runProgram fuel program)) ∧
    (∀ n ref name w, (Watched.evaluate (n + 1) (.variable ref name) w).2.trace =
      w.trace ++ [.followed ⟨.read, ref, name⟩ w.machine]) ∧
    ∀ before reference m after, h.trace = before ++ .followed reference m :: after →
      ∀ site ∈ h.sites, site.reference.ref = reference.ref → site.isOwnRead = true →
        site.reference = reference ∧ ∃ value, site.Finds m value := by
  refine ⟨Watched.erases_runProgram, fun n ref name w => rfl, ?_⟩
  intro before reference m after htrace site hsite href hown
  have hinvariant := hh.invariant
  obtain ⟨S, hS, hkept, -⟩ := hh.keepsPromises
  obtain ⟨noted, ⟨hnoted, hanswered⟩, rfl, hdistance, halign⟩ :=
    hkept.followed before reference m after htrace
  obtain rfl : site = noted := hh.eq_of_ref_eq hsite (hS noted hnoted) href
  exact ⟨rfl, exists_finds halign (hinvariant.sound.placed site hsite) hdistance hown hanswered⟩

/-- The first unit ends in an error.  The second one reads a variable in its own initializer, and is
accepted because a global of that name is declared further up in it. -/
theorem own_reads_succeed_promised_global :
    let s := (Session.start [] (.startingAt 0)).setLimit 10
    let h₁ : WatchedSession := .run ⟨s, [], []⟩ 20 "var b; nil();" []
    let h := h₁.run 20 "var a = b; fun f() \x7b var a = a; \x7d f();" []
    (s.run 20 "var b; nil();" []).ending = .finished .runtimeError ∧
    h₁.session.isGlobal "a" = false ∧
    ∃ before m after, ∃ site ∈ h.sites, site.isOwnRead = true ∧ site.visible? = none ∧
      h.trace = before ++ .followed site.reference m :: after ∧ ∃ value, site.Finds m value := by
  intro s h₁ h
  have hreachable : h.Reachable := .run (.run (.start [] (.startingAt 0) 10) 20 _ []) 20 _ []
  obtain ⟨hended, hfree, hsome⟩ :
      (s.run 20 "var b; nil();" []).ending = .finished .runtimeError ∧
      h₁.session.isGlobal "a" = false ∧
      h.sites.any (fun site => site.isOwnRead && site.visible?.isNone &&
        h.trace.any (·.tells site.reference)) = true := by
    decide +kernel
  obtain ⟨site, hsite, hall⟩ := List.any_eq_true.mp hsome
  simp only [Bool.and_eq_true, Option.isNone_iff_eq_none] at hall
  obtain ⟨⟨hown, hvisible⟩, htold⟩ := hall
  obtain ⟨before, m, after, htrace⟩ := exists_told htold
  obtain ⟨-, -, hfinds⟩ := hreachable.own_reads_succeed
  obtain ⟨-, hvalue⟩ := hfinds before site.reference m after htrace site hsite rfl hown
  exact ⟨hended, hfree, before, m, after, site, hsite, hown, hvisible, htrace, hvalue⟩

end WatchedSession

end LoxLang
