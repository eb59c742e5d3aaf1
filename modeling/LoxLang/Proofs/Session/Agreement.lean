import LoxLang.Proofs.Machine.Activity
import LoxLang.Proofs.Machine.Agreement
import LoxLang.Proofs.Session.Stages

/-!
# Watched sessions

A session runs one unit of source after another, and a function of one unit may be called in any
later one.  Here all units of a session are watched together: the notes of a unit are added to those
of the units before it, and the runs of the programs that were accepted are kept.

Whatever units a session has run, with whatever fuel, accepted or not, runs and text agree between
two units (`WatchedSession.Invariant`), and no two references of accepted programs have the same
number.
-/

namespace LoxLang

/-! ## Watched sessions -/

/-- The run of the program of a source. -/
def Session.programRun (s : Session) (fuel : Nat) (source : String) : ProgramRun :=
  ⟨fuel, (s.reading source).program, (s.loaded source).machine⟩

/-- A session, with all that was noted in it and the runs of the programs that it accepted, in
order. -/
structure WatchedSession where
  session : Session
  trace : List Observation
  runs : List ProgramRun

namespace WatchedSession

/-- Runs a unit of source.  Only a unit that is accepted is run and has something to note. -/
def run (h : WatchedSession) (fuel : Nat) (source : String) (log : Log) : WatchedSession :=
  if h.session.accepts source log then
    let program := (h.session.reading source).program
    let start : Watch := ⟨(h.session.loaded source).machine, h.trace⟩
    ⟨(h.session.run fuel source log).session, (Watched.runProgram fuel program start).2.trace,
      h.runs ++ [h.session.programRun fuel source]⟩
  else { h with session := (h.session.run fuel source log).session }

/-- The session when the program of an accepted source is about to be run. -/
def loading (h : WatchedSession) (fuel : Nat) (source : String) : WatchedSession :=
  ⟨h.session.loaded source, h.trace, h.runs ++ [h.session.programRun fuel source]⟩

/-- A unit that is not accepted has nothing to note. -/
lemma run_of_not_accepts {h : WatchedSession} {source : String} {log : Log}
    (hnot : h.session.accepts source log = false) (fuel : Nat) :
    h.run fuel source log = { h with session := h.session.rejected source log } := by
  obtain ⟨log', hrun⟩ := Session.run_of_not_accepts hnot fuel
  rw [WatchedSession.run, if_neg (by simp [hnot]), hrun]

/-- An accepted unit leaves what the watched run of its program leaves. -/
lemma run_of_accepts {h : WatchedSession} {source : String} {log : Log}
    (haccepts : h.session.accepts source log = true) (fuel : Nat) : h.run fuel source log =
      let program := (h.session.reading source).program
      let w := (Watched.runProgram fuel program ⟨(h.session.loaded source).machine, h.trace⟩).2
      ⟨{ h.session.loaded source with machine := w.machine }, w.trace,
        (h.loading fuel source).runs⟩ := by
  -- Without its notes the watched run is the run.
  have herases := Watched.erases_runProgram fuel (h.session.reading source).program
    ⟨(h.session.loaded source).machine, h.trace⟩
  rw [WatchedSession.run, if_pos haccepts, Session.run_of_accepts haccepts,
    Session.machine_execute, ← congrArg Prod.snd herases]
  rfl

/-- A unit that is accepted adds its run. -/
lemma runs_of_accepts {h : WatchedSession} {source : String} {log : Log}
    (haccepts : h.session.accepts source log = true) (fuel : Nat) :
    (h.run fuel source log).runs = h.runs ++ [h.session.programRun fuel source] := by
  rw [WatchedSession.run, if_pos haccepts]

/-- The programs that were accepted. -/
def programs (h : WatchedSession) : List (List Stmt) := h.runs.map ProgramRun.program

/-- A unit that is accepted adds its program. -/
lemma programs_of_accepts {h : WatchedSession} {source : String} {log : Log}
    (haccepts : h.session.accepts source log = true) (fuel : Nat) :
    (h.run fuel source log).programs = h.programs ++ [(h.session.reading source).program] := by
  simp [programs, runs_of_accepts haccepts, Session.programRun]

@[simp] lemma programs_loading (h : WatchedSession) (fuel : Nat) (source : String) :
    (h.loading fuel source).programs = h.programs ++ [(h.session.reading source).program] := by
  simp [programs, loading, Session.programRun]

/-- The sites of all accepted programs. -/
def sites (h : WatchedSession) : List Site := h.programs.flatMap programSites

@[simp] lemma sites_loading (h : WatchedSession) (fuel : Nat) (source : String) :
    (h.loading fuel source).sites =
      h.sites ++ programSites (h.session.reading source).program := by
  simp [sites]

lemma sites_of_accepts {h : WatchedSession} {source : String} {log : Log}
    (haccepts : h.session.accepts source log = true) (fuel : Nat) :
    (h.run fuel source log).sites =
      h.sites ++ programSites (h.session.reading source).program := by
  simp [sites, programs_of_accepts haccepts]

/-- **The sessions that units of source lead to.**  A host may read and write on the console between
two units, and set how deep calls may nest. -/
inductive Reachable : WatchedSession → Prop
  | start (input : List InputLine) (clock : Clock) (limit : Nat) :
      Reachable ⟨(Session.start input clock).setLimit limit, [], []⟩
  | run {h : WatchedSession} (hh : Reachable h) (fuel : Nat) (source : String) (log : Log) :
      Reachable (h.run fuel source log)
  | console {h : WatchedSession} (hh : Reachable h) (console : Console) :
      Reachable { h with session :=
        { h.session with machine := { h.session.machine with console := console } } }
  | limit {h : WatchedSession} (hh : Reachable h) (limit : Nat) :
      Reachable { h with session := h.session.setLimit limit }

/-! ## The invariant of a session -/

/-- What holds between two units. -/
structure Invariant (h : WatchedSession) : Prop where
  sound : Sound (· ∈ h.sites) ⟨h.session.machine, h.trace⟩
  scope : h.session.machine.scope = globalScope
  numbered : Numbered 0 h.session.nextRef (h.sites.map Site.reference)
  free : ∀ ref : Nat, h.session.nextRef ≤ ref → h.session.machine.distances.find? ref = none

/-- A class whose methods are builtins has no closure that could be misplaced. -/
lemma fits_builtinClass {S : Site → Prop} {w : Watch} (stamp : Stamp) (name : String)
    (methods : List Builtin) : (builtinClass stamp name methods).Fits S w := by
  intro method found hfound
  simp only [Class.lookup?, Class.layers, builtinClass, List.findSome?_cons,
    List.findSome?_nil] at hfound
  split at hfound
  · next hmethod =>
    cases hfound
    rcases Bindings.mem_of_find?_insertAll hmethod with hmem | hnone
    · obtain ⟨b, -, heq⟩ := List.mem_map.mp hmem
      cases heq
      trivial
    · simp at hnone
  · cases hfound

/-- The globals that every session starts with fit. -/
lemma sound_initial {S : Site → Prop} (hS : ∀ s, ¬S s) {m : Machine}
    (hstore : m.store = Store.initial) : Sound S ⟨m, []⟩ := by
  refine ⟨fun frame name value hvalue => ?_, fun id i hi => ?_, fun s hs => absurd hs (hS s),
    fun s hs => absurd hs (hS s), by simp [openedFrames], by simp [openedFrames], by simp⟩
  · rw [hstore] at hvalue
    by_cases hframe : frame = 0
    · subst hframe
      have hglobals := Bindings.mem_of_find?_insertAll hvalue
      simp only [Bindings.find?_empty, reduceCtorEq, or_false, List.mem_cons, Prod.mk.injEq,
        List.not_mem_nil] at hglobals
      rcases hglobals with ⟨-, rfl⟩ | ⟨-, rfl⟩ | ⟨-, rfl⟩
      · trivial
      · exact fits_builtinClass _ _ _
      · exact fits_builtinClass _ _ _
    · have hempty : Store.initial.frame frame = .empty :=
        Store.frame_of_size_le (Nat.one_le_iff_ne_zero.mpr hframe)
      rw [hempty] at hvalue
      simp at hvalue
  · rw [hstore] at hi
    simp [Store.initial] at hi

lemma invariant_start (input : List InputLine) (clock : Clock) (limit : Nat) :
    Invariant ⟨(Session.start input clock).setLimit limit, [], []⟩ where
  sound := sound_initial (by simp [sites, programs]) rfl
  scope := rfl
  numbered := .nil
  free ref _ := by simp [Session.start, Session.setLimit, Machine.initial, Distances.find?,
    Distances.empty]

namespace Invariant

variable {h : WatchedSession}

/-- The analysis of a source that can be read leaves alone the distances of earlier sites. -/
lemma find?_loaded (hh : h.Invariant) {source : String}
    (hread : (h.session.reading source).errors = []) :
    ∀ s ∈ h.sites, (h.session.loaded source).machine.distances.find? s.reference.ref =
      s.visible? := by
  intro s hs
  have hlt := (hh.numbered.bounds _ (List.mem_map_of_mem hs)).2
  rw [← hh.sound.distances s hs]
  exact (Session.derives_reading hread).find?_analyseProgram (.inl hlt)

/-- No distance is recorded yet for numbers that were not given away. -/
lemma free_loaded (hh : h.Invariant) {source : String}
    (hread : (h.session.reading source).errors = []) :
    ∀ ref : Nat, (h.session.loaded source).nextRef ≤ ref →
      (h.session.loaded source).machine.distances.find? ref = none := by
  intro ref href
  have hderives := Session.derives_reading hread
  have hle := hderives.ref_le
  rw [← hh.free ref (Nat.le_trans hle href)]
  exact hderives.find?_analyseProgram (.inr href)

/-- A unit that is not accepted leaves the invariant as it was. -/
lemma rejected (hh : h.Invariant) (source : String) (log : Log) :
    Invariant { h with session := h.session.rejected source log } := by
  have hle : h.session.nextRef ≤ (h.session.reading source).nextRef := le_nextRef_readProgram _ _
  rcases h.session.rejected_cases source log with heq | ⟨hread, heq⟩
  · rw [heq]
    refine ⟨hh.sound, hh.scope, hh.numbered.mono (Nat.le_refl _) hle, fun ref href => ?_⟩
    exact hh.free ref (Nat.le_trans hle href)
  · rw [heq]
    have hfind := hh.find?_loaded hread
    have hfree := hh.free_loaded hread
    -- What the analysis has recorded is not looked at again.
    unfold Session.loaded at hfind hfree ⊢
    generalize (h.session.analysis source).distances = distances at hfind hfree ⊢
    generalize (h.session.reading source).nextRef = nextRef at hle hfree ⊢
    refine ⟨?_, hh.scope, hh.numbered.mono (Nat.le_refl _) hle, hfree⟩
    exact hh.sound.load (fun _ hs => hs) hh.sound.placed hfind rfl rfl

/-- The invariant when the program of an accepted source is about to be run. -/
lemma loaded (hh : h.Invariant) {source : String} {log : Log}
    (haccepts : h.session.accepts source log = true) (fuel : Nat) :
    (h.loading fuel source).Invariant := by
  have hread := Session.reading_of_accepts haccepts
  have hderives := Session.derives_reading hread
  refine ⟨hh.sound.load (fun s hs => ?_) (fun s hs => ?_) (fun s hs => ?_) rfl rfl, hh.scope, ?_,
    hh.free_loaded hread⟩
  · rw [sites_loading]
    exact List.mem_append_left _ hs
  · rw [sites_loading, List.mem_append] at hs
    rcases hs with hs | hs
    · exact hh.sound.placed s hs
    · exact Session.placed_reading hread s hs
  · rw [sites_loading, List.mem_append] at hs
    rcases hs with hs | hs
    · exact hh.find?_loaded hread s hs
    · exact hderives.find?_site (Session.analysis_of_accepts haccepts) hh.free s hs
  · rw [sites_loading, List.map_append]
    exact hh.numbered.append hderives.numbered_programSites (Nat.zero_le _) hderives.ref_le

/-- The watched run of an accepted program, from the point where it is loaded. -/
lemma meets (hh : h.Invariant) {source : String} {log : Log} (fuel : Nat)
    (haccepts : h.session.accepts source log = true) :
    Meets (· ∈ (h.run fuel source log).sites) ⟨(h.session.loaded source).machine, h.trace⟩
      (Watched.runProgram fuel (h.session.reading source).program) fun _ _ => True := by
  have hloaded := hh.loaded haccepts fuel
  have hsites : (h.run fuel source log).sites = (h.loading fuel source).sites := by
    rw [sites_of_accepts haccepts, sites_loading]
  rw [hsites]
  refine meets_runProgram fuel _ hloaded.sound hloaded.scope fun s hs => ?_
  rw [sites_loading]
  exact List.mem_append_right _ hs

/-- **Every unit keeps the invariant.** -/
lemma run (hh : h.Invariant) (fuel : Nat) (source : String) (log : Log) :
    (h.run fuel source log).Invariant := by
  cases haccepts : h.session.accepts source log with
  | false =>
    rw [run_of_not_accepts haccepts]
    exact hh.rejected source log
  | true =>
    obtain ⟨hextends, hsound, -⟩ := hh.meets fuel haccepts
    have hloaded := hh.loaded haccepts fuel
    have hscope := hextends.scope.trans hloaded.scope
    have hdistances := hextends.distances
    rw [run_of_accepts haccepts] at hsound ⊢
    dsimp only at hsound ⊢
    -- From here on it does not matter what is run.
    generalize Watched.runProgram fuel _ _ = result at hsound hscope hdistances ⊢
    refine ⟨hsound, hscope, hloaded.numbered, fun ref href => ?_⟩
    have hfree : (h.session.loaded source).machine.distances.find? ref = none :=
      hloaded.free ref href
    rw [← hfree]
    exact congrArg (fun d => Distances.find? d ref) hdistances

lemma console (hh : h.Invariant) (console : Console) :
    Invariant { h with session :=
      { h.session with machine := { h.session.machine with console := console } } } :=
  ⟨hh.sound.congr rfl rfl rfl, hh.scope, hh.numbered, hh.free⟩

lemma setLimit (hh : h.Invariant) (limit : Nat) :
    Invariant { h with session := h.session.setLimit limit } :=
  ⟨hh.sound.congr rfl rfl rfl, hh.scope, hh.numbered, hh.free⟩

end Invariant

lemma Reachable.invariant {h : WatchedSession} (hh : h.Reachable) : h.Invariant := by
  induction hh with
  | start input clock limit => exact invariant_start input clock limit
  | run _ fuel source log ih => exact ih.run fuel source log
  | console _ console ih => exact ih.console console
  | limit _ limit ih => exact ih.setLimit limit

end WatchedSession

end LoxLang
