import LoxLang.Proofs.Machine.Activation
import LoxLang.Proofs.Machine.Noting
import LoxLang.Proofs.Machine.Standing
import LoxLang.Proofs.Session.Agreement

/-!
# References in sessions

Where does a machine find what a reference denotes?  The text says how many scopes out the visible
declaration is (`Site.visible?`), and the machine goes that many frames out from its scope.  Two
things make this the same place.

The activity that follows the reference stands in activations of the regions of the text around it
(`Enclosed`), and there is no choice: the text of an accepted program has no two references of one
number, so the regions are known, and the frames are those of the scope.  And the names that the
text declares before the reference are bound in these frames, as the invariant of a session says
(`Aligned`).  Here the two are put together, for everything that is under way in any unit of a
session (`WatchedSession.Reachable.follows_text`).

There is one exception, an assignment to a local variable in its own initializer.  A unit ends in a
fault only there.

All of this is about activities.  The notes of a session are those of its activities, all of them
and no others (`WatchedSession.Reachable.followed_mem_trace_iff`), so what is said of notes
elsewhere is said of every evaluation.
-/

namespace LoxLang

/-! ## Activities that follow a reference -/

section Follows

variable {S : Site → Prop} {a : Activity} {reference : Reference} {m : Machine}

/-- A reference is followed in the scope in which the activity was begun. -/
lemma Activity.Follows.scope (h : a.Follows reference m) : m.scope = a.machine.scope := by
  cases h with
  | assign hvalue => exact (((restoresAt _).evaluate _).of_run hvalue).scope
  | _ => rfl

/-- The reference has its site where the text of the activity sits. -/
lemma Activity.Follows.site (h : a.Follows reference m) {Γ : LexicalContext}
    {pending : Option String} (ha : a.task.SitsIn S Γ pending) : S ⟨reference, Γ, pending⟩ := by
  cases h with
  | assign => exact ha _ (List.mem_append_right _ (List.mem_singleton_self _))
  | _ => exact ha _ (List.mem_singleton_self _)

/-- **When a reference is followed the scope is aligned with its site.** -/
lemma Activity.Follows.aligned (h : a.Follows reference m) (ha : a.Stands S) :
    ∃ (w : Watch) (site : Site), w.machine = m ∧ LoxLang.Sound S w ∧ S site ∧
      site.reference = reference ∧ Aligned w site.pending site.scopes m.scope := by
  obtain ⟨w, hm, hsound, -, htask⟩ := ha
  cases h with
  | assign hvalue =>
    subst hm
    obtain ⟨Γ, pending, halign, hsites⟩ := htask
    obtain ⟨hfirst, hlast⟩ := List.forall_mem_append.mp hsites
    obtain ⟨w₁, rfl, hw, hsound₁, -⟩ := ((keepsAt S _).evaluate _ hsound halign hfirst).of_run
      ((Watched.erasesAt _).evaluate _) hvalue
    exact ⟨w₁, _, rfl, hsound₁, hlast _ (List.mem_singleton_self _), rfl, halign.later hw⟩
  | _ =>
    subst hm
    obtain ⟨Γ, pending, halign, hsites⟩ := htask
    exact ⟨w, _, rfl, hsound, hsites _ (List.mem_singleton_self _), rfl, halign⟩

end Follows

/-- Activations are told apart by their regions and frames. -/
lemma Activation.eq_of_map {chain other : List Activation}
    (hregions : chain.map region = other.map region) (hframes : chain.map frame = other.map frame) :
    chain = other := by
  induction chain generalizing other with
  | nil => exact (List.map_eq_nil_iff.mp hframes.symm).symm
  | cons first rest ih =>
    cases other with
    | nil => cases hframes
    | cons first' rest' =>
      simp only [List.map_cons, List.cons.injEq] at hregions hframes
      obtain rfl : first = first' := Activation.ext hregions.1 hframes.1
      rw [ih hregions.2 hframes.2]

/-- **A machine finds what a site denotes `d` hops out**, in a chain of activations.  The visible
declaration is in the scope that many scopes out.  The scope of the machine consists of the frames
of the activations, which are of the regions around the site; so the frame that is found was made
for the activation of that scope.  The name is bound there, but for one exception. -/
structure Site.FoundAt (site : Site) (d : Nat) (chain : List Activation) (m : Machine) :
    Prop where
  visible : site.visible? = some d
  hops : d < chain.length
  scope : m.scope = chain.map Activation.frame ++ globalScope
  regions : chain.map Activation.region = site.scopes.map LexicalScope.region
  bound : site.isOwnAssignment = false → ∀ A, chain[d]? = some A →
    (m.store.frame A.frame).contains site.name = true

/-- The activation of a scope around a site. -/
lemma Site.FoundAt.activation {site : Site} {d i : Nat} {chain : List Activation} {m : Machine}
    {σ : LexicalScope} (h : site.FoundAt d chain m) (hσ : site.scopes[i]? = some σ) :
    ∃ frame, chain[i]? = some ⟨σ.region, frame⟩ ∧ m.scope[i]? = some frame := by
  have hregion : (chain[i]?).map Activation.region = some σ.region := by
    rw [← List.getElem?_map, h.regions, List.getElem?_map, hσ]
    rfl
  obtain ⟨A, hA, hsame⟩ := Option.map_eq_some_iff.mp hregion
  have hframe : (chain.map Activation.frame)[i]? = some A.frame := by
    rw [List.getElem?_map, hA]
    rfl
  refine ⟨A.frame, ?_, ?_⟩
  · rw [hA, ← hsame]
  · rw [h.scope, List.getElem?_append_left (List.getElem?_eq_some_iff.mp hframe).1]
    exact hframe

/-- Does a note tell that a local variable was followed in a scope, when there were a number of
frames? -/
def Observation.isLocal (scope : Scope) (frames : Nat) : Observation → Bool
  | .followed reference m => m.scope = scope && m.store.frames.size = frames &&
    (m.distances.find? reference.ref).isSome
  | .opened .. => false

lemma exists_isLocal {trace : List Observation} {scope : Scope} {frames : Nat}
    (h : trace.any (·.isLocal scope frames) = true) : ∃ reference m d,
      .followed reference m ∈ trace ∧ m.scope = scope ∧ m.store.frames.size = frames ∧
        m.distances.find? reference.ref = some d := by
  obtain ⟨o, ho, hlocal⟩ := List.any_eq_true.mp h
  cases o with
  | followed reference m =>
    simp only [Observation.isLocal, Bool.and_eq_true, decide_eq_true_eq] at hlocal
    obtain ⟨⟨hscope, hsize⟩, hd⟩ := hlocal
    obtain ⟨d, hd⟩ := Option.isSome_iff_exists.mp hd
    exact ⟨reference, m, d, ho, hscope, hsize, hd⟩
  | opened => cases hlocal

namespace WatchedSession

variable {h : WatchedSession} {source : String} {log : Log}

/-! ## What is under way in a session -/

/-- An activity that was under way in one of the units. -/
def Underway (h : WatchedSession) (a : Activity) : Prop :=
  ∃ r ∈ h.runs, ∃ links, r.Underway links a

/-- The frame of the globals is always there. -/
lemma Reachable.globalFrame_lt (hh : h.Reachable) :
    globalFrame < h.session.machine.store.frames.size := by
  induction hh with
  | start => exact Nat.one_pos
  | @run h hh fuel source log ih =>
    cases haccepts : h.session.accepts source log with
    | false =>
      rw [run_of_not_accepts haccepts]
      rcases h.session.rejected_cases source log with heq | ⟨-, heq⟩
      · rw [heq]
        exact ih
      · rw [heq]
        exact ih
    | true =>
      rw [run_of_accepts haccepts]
      exact Nat.lt_of_lt_of_le ih (hh.invariant.meets fuel haccepts).1.size
  | console _ _ ih => exact ih
  | limit _ _ ih => exact ih

/-- The sites of all programs, when the program of an accepted source is about to be run. -/
def sitesWith (h : WatchedSession) (source : String) (s : Site) : Prop :=
  s ∈ h.sites ∨ s ∈ programSites (h.session.reading source).program

/-- Whatever is under way in an accepted unit stands somewhere. -/
lemma Reachable.stands (hh : h.Reachable) (haccepts : h.session.accepts source log = true)
    {fuel : Nat} {links : List Link} {a : Activity}
    (ha : (h.session.programRun fuel source).Underway links a) :
    a.Stands (h.sitesWith source) := by
  have hloaded := hh.invariant.loaded haccepts fuel
  have hsites : (· ∈ (h.loading fuel source).sites) = h.sitesWith source := by
    funext s
    simp [sitesWith]
  have hsound := hloaded.sound
  rw [hsites] at hsound
  exact LoxLang.Underway.stands hsound hh.globalFrame_lt hloaded.scope (fun _ hs => .inr hs) ha

/-- **Every run of a session is that of an accepted source**, and the sites that there were by then
are sites of the session. -/
lemma Reachable.exists_accepted (hh : h.Reachable) :
    ∀ r ∈ h.runs, ∃ (earlier : WatchedSession) (fuel : Nat) (source : String) (log : Log),
      earlier.Reachable ∧ earlier.session.accepts source log = true ∧
      r = earlier.session.programRun fuel source ∧
      ∀ s, earlier.sitesWith source s → s ∈ h.sites := by
  induction hh with
  | start input clock limit => exact List.forall_mem_nil _
  | @run h hh fuel source log ih =>
    cases haccepts : h.session.accepts source log with
    | false =>
      rw [run_of_not_accepts haccepts]
      exact ih
    | true =>
      rw [runs_of_accepts haccepts, sites_of_accepts haccepts]
      refine List.forall_mem_append.mpr ⟨fun r hr => ?_, List.forall_mem_singleton.mpr ?_⟩
      · obtain ⟨earlier, fuel, source, log, he, hes, hr, hbefore⟩ := ih r hr
        exact ⟨earlier, fuel, source, log, he, hes, hr,
          fun s hs => List.mem_append_left _ (hbefore s hs)⟩
      · exact ⟨h, fuel, source, log, hh, haccepts, rfl, fun s hs => List.mem_append.mpr hs⟩
  | console _ _ ih => exact ih
  | limit _ _ ih => exact ih

/-- The machine of a session is one that its runs lead to. -/
lemma Reachable.reached (hh : h.Reachable) : h.session.machine.Reached h.runs.reverse := by
  induction hh with
  | start input clock limit => exact (Machine.Reached.start input clock).host rfl rfl
  | @run h _ fuel source log ih =>
    cases haccepts : h.session.accepts source log with
    | false =>
      rw [run_of_not_accepts haccepts]
      rcases h.session.rejected_cases source log with heq | ⟨-, heq⟩
      · rw [heq]
        exact ih
      · rw [heq]
        exact ih.host rfl rfl
    | true =>
      have hloaded : (h.session.loaded source).machine.Reached h.runs.reverse := ih.host rfl rfl
      have hafter := hloaded.run source h.session.nextRef fuel
      have hmachine : (h.run fuel source log).session.machine =
          (ProgramRun.ofSource source h.session.nextRef fuel
            (h.session.loaded source).machine).after := by
        rw [WatchedSession.run, if_pos haccepts]
        simp only [Session.run_of_accepts haccepts, Session.machine_execute]
        rfl
      rw [runs_of_accepts haccepts, List.reverse_append, hmachine]
      exact hafter
  | console _ _ ih => exact ih.host rfl rfl
  | limit _ _ ih => exact ih.host rfl rfl

/-- Every run of a session began in the scope of the globals. -/
lemma Reachable.scope_of_mem_runs (hh : h.Reachable) :
    ∀ r ∈ h.runs, r.machine.scope = globalScope := by
  intro r hr
  obtain ⟨earlier, fuel, source, log, he, haccepts, rfl, -⟩ := hh.exists_accepted r hr
  exact (he.invariant.loaded haccepts fuel).scope

/-- The sites of the programs that were run are those of the session. -/
lemma mem_sites_of_mem_runs : ∀ r ∈ h.runs, ∀ s ∈ programSites r.program, s ∈ h.sites :=
  fun _ hr _ hs => List.mem_flatMap.mpr ⟨_, List.mem_map_of_mem hr, hs⟩

/-- **No two sites of a session have one number.** -/
lemma Reachable.eq_of_ref_eq (hh : h.Reachable) {s s' : Site} (hs : s ∈ h.sites)
    (hs' : s' ∈ h.sites) (href : s.reference.ref = s'.reference.ref) : s = s' := by
  have hnodup := hh.invariant.numbered.nodup
  rw [List.map_map] at hnodup
  exact List.inj_on_of_nodup_map hnodup hs hs' href

/-- Every reference that is noted in an accepted unit was followed by an activity of its run. -/
lemma exists_notes (h : WatchedSession) (haccepts : h.session.accepts source log = true)
    (fuel : Nat) : ∃ added, (h.run fuel source log).trace = h.trace ++ added ∧
      ∀ reference m, .followed reference m ∈ added → ∃ links a,
        (h.session.programRun fuel source).Underway links a ∧ a.Follows reference m := by
  rw [WatchedSession.run, if_pos haccepts]
  exact exists_notes_runProgram ⟨(h.session.loaded source).machine, h.trace⟩ fuel _

/-- Every note of a session is about an activity that was under way. -/
lemma Reachable.exists_follows (hh : h.Reachable) {reference : Reference} {m : Machine}
    (hnote : .followed reference m ∈ h.trace) : ∃ a, h.Underway a ∧ a.Follows reference m := by
  induction hh with
  | start => cases hnote
  | @run h _ fuel source log ih =>
    cases haccepts : h.session.accepts source log with
    | false =>
      rw [run_of_not_accepts haccepts] at hnote ⊢
      exact ih hnote
    | true =>
      have hruns := runs_of_accepts haccepts fuel
      obtain ⟨added, htrace, hadded⟩ := h.exists_notes haccepts fuel
      rw [htrace, List.mem_append] at hnote
      rcases hnote with hold | hnew
      · obtain ⟨a, ⟨r, hr, links, ha⟩, hfollows⟩ := ih hold
        exact ⟨a, ⟨r, hruns ▸ List.mem_append_left _ hr, links, ha⟩, hfollows⟩
      · obtain ⟨links, a, ha, hfollows⟩ := hadded reference m hnew
        refine ⟨a, ⟨h.session.programRun fuel source, ?_, links, ha⟩, hfollows⟩
        rw [hruns]
        exact List.mem_append_right _ (List.mem_singleton_self _)
  | console _ _ ih => exact ih hnote
  | limit _ _ ih => exact ih hnote

/-- Everything that was under way in a session is noted. -/
lemma Reachable.noted (hh : h.Reachable) {a : Activity} (ha : h.Underway a) : a.Noted h.trace := by
  induction hh with
  | start =>
    obtain ⟨r, hr, -⟩ := ha
    cases hr
  | @run h _ fuel source log ih =>
    cases haccepts : h.session.accepts source log with
    | false =>
      rw [run_of_not_accepts haccepts] at ha ⊢
      exact ih ha
    | true =>
      obtain ⟨r, hr, links, ha⟩ := ha
      rw [runs_of_accepts haccepts, List.mem_append, List.mem_singleton] at hr
      rcases hr with hr | rfl
      · obtain ⟨w, hw, hnoted⟩ := ih ⟨r, hr, links, ha⟩
        obtain ⟨added, htrace, -⟩ := h.exists_notes haccepts fuel
        exact ⟨w, hw, hnoted.trans ⟨added, htrace.symm⟩⟩
      · rw [WatchedSession.run, if_pos haccepts]
        exact LoxLang.Underway.noted (w := ⟨(h.session.loaded source).machine, h.trace⟩) ha
  | console _ _ ih => exact ih ha
  | limit _ _ ih => exact ih ha

/-- **What is noted is what was followed**, all of it and nothing else. -/
lemma Reachable.followed_mem_trace_iff (hh : h.Reachable) (reference : Reference) (m : Machine) :
    .followed reference m ∈ h.trace ↔ ∃ a, h.Underway a ∧ a.Follows reference m := by
  refine ⟨hh.exists_follows, ?_⟩
  rintro ⟨a, ha, hfollows⟩
  exact (hh.noted ha).followed hfollows

/-! ## What the text says of a session -/

/-- **An activity that follows a reference stands in one chain of activations**, and there the
reference is found. -/
lemma Reachable.exists_foundAt (hh : h.Reachable) {a : Activity} {reference : Reference}
    {m : Machine} (ha : h.Underway a) (hfollows : a.Follows reference m) :
    ∃ site ∈ h.sites, site.reference = reference ∧ ∃ chain,
      (∀ other, Enclosed h.runs (.activity a) other ↔ other = chain) ∧
      m.distances.find? reference.ref = site.visible? ∧
      ∀ d, site.visible? = some d → site.FoundAt d chain m := by
  obtain ⟨r, hr, links, hunder⟩ := ha
  -- The site that the scope is aligned with.
  obtain ⟨earlier, fuel, source, log, he, haccepts, rfl, hbefore⟩ := hh.exists_accepted r hr
  obtain ⟨w, site, rfl, hsound, hearlier, rfl, halign⟩ :=
    hfollows.aligned (he.stands haccepts hunder)
  have hsite := hbefore site hearlier
  -- Whatever chain the activity stands in, frames and regions are known.
  have hany : ∀ other, Enclosed h.runs (.activity a) other →
      w.machine.scope = other.map Activation.frame ++ globalScope ∧
        other.map Activation.region = site.scopes.map LexicalScope.region := by
    intro other hother
    refine ⟨hfollows.scope.trans (hother.hasScope hh.scope_of_mem_runs), ?_⟩
    obtain ⟨Γ, pending, hregions, htask⟩ := hother.sitsIn (S := (· ∈ h.sites)) mem_sites_of_mem_runs
    have heq := hh.eq_of_ref_eq (hfollows.site htask) hsite rfl
    rw [← hregions, ← heq]
  obtain ⟨chain, hchain⟩ := hh.reached.enclosed (List.mem_reverse.mpr hr) hunder
  have hchain : Enclosed h.runs (.activity a) chain :=
    hchain.mono fun _ hr => List.mem_reverse.mp hr
  obtain ⟨hscope, hregions⟩ := hany chain hchain
  refine ⟨site, hsite, rfl, chain, fun other => ⟨fun hother => ?_, fun heq => heq ▸ hchain⟩,
    hsound.distances site hearlier, fun d hd => ?_⟩
  · obtain ⟨hscope', hregions'⟩ := hany other hother
    exact Activation.eq_of_map (hregions'.trans hregions.symm)
      (List.append_cancel_right (hscope'.symm.trans hscope))
  · obtain ⟨σ, frame, hσ, -, hframe, -, hbound⟩ :=
      halign.exists_visible (hsound.placed site hearlier) hd
    have hlength : chain.length = site.scopes.length := by
      simpa using congrArg List.length hregions
    have hops : d < chain.length := hlength ▸ (List.getElem?_eq_some_iff.mp hσ).1
    refine ⟨hd, hops, hscope, hregions, fun hown A hA => ?_⟩
    have hsame : w.machine.scope[d]? = some A.frame := by
      rw [hscope, List.getElem?_append_left (by simpa using hops), List.getElem?_map, hA]
      rfl
    obtain rfl : frame = A.frame := Option.some.inj (hframe.symm.trans hsame)
    exact hbound hown

/-- A unit that ends in a fault has just followed an assignment to a local variable in its own
initializer. -/
lemma Reachable.exists_ownAssignment (hh : h.Reachable)
    (haccepts : h.session.accepts source log = true) {fuel : Nat} {f : Fault}
    (hfault : (h.session.run fuel source log).ending = .fault f) :
    EndsInOwnAssignment (· ∈ (h.run fuel source log).sites) f h.trace
      (h.run fuel source log).trace := by
  rw [Session.run_of_accepts haccepts] at hfault
  have hmeets := (hh.invariant.meets fuel haccepts).2.2
  have herases := congrArg Prod.fst (Watched.erases_runProgram fuel
    (h.session.reading source).program ⟨(h.session.loaded source).machine, h.trace⟩)
  rw [Session.fault_execute hfault] at herases
  simp only at herases
  rw [herases] at hmeets
  have htrace : (h.run fuel source log).trace = (Watched.runProgram fuel
      (h.session.reading source).program ⟨(h.session.loaded source).machine, h.trace⟩).2.trace := by
    rw [WatchedSession.run, if_pos haccepts]
  rw [htrace]
  exact hmeets

/-- **In every session, references are followed as the text says.**  Each time a variable, a `this`,
a `super` or an assignment with a recorded distance is evaluated, in any unit and however far the
unit goes on, it has a site of its own in an accepted program.  The activity that evaluates it
stands in one chain of activations: of the blocks and calls that it is part of, and from a function
outward of those that the function was made in.  In this chain the machine finds what the site
denotes.

All of these evaluations are noted, and nothing else is.  A unit that ends in a fault has just
followed an assignment to a local variable in its own initializer, and it is the writing to that
variable which gives the fault. -/
theorem Reachable.follows_text (hh : h.Reachable) :
    (∀ reference m, .followed reference m ∈ h.trace ↔
      ∃ a, h.Underway a ∧ a.Follows reference m) ∧
    (∀ a reference m d, h.Underway a → a.Follows reference m →
      m.distances.find? reference.ref = some d →
      ∃ site ∈ h.sites, site.reference = reference ∧
        (∀ other ∈ h.sites, other.reference.ref = reference.ref → other = site) ∧
        ∃ chain, (∀ other, Enclosed h.runs (.activity a) other ↔ other = chain) ∧
          site.FoundAt d chain m) ∧
    (∀ fuel source log f, (h.session.run fuel source log).ending = .fault f →
      ∃ links a before m value, ∃ site ∈ (h.run fuel source log).sites,
        (h.session.programRun fuel source).Underway links a ∧ a.Follows site.reference m ∧
        site.isOwnAssignment = true ∧
        (h.run fuel source log).trace = before ++ [.followed site.reference m] ∧
        Effect.writeRef site.reference.ref site.reference.token value m = (.fault f, m)) := by
  refine ⟨hh.followed_mem_trace_iff, ?_, ?_⟩
  · intro a reference m d ha hfollows hd
    obtain ⟨site, hsite, rfl, chain, hchain, hvisible, hfound⟩ := hh.exists_foundAt ha hfollows
    exact ⟨site, hsite, rfl, fun other hother href => hh.eq_of_ref_eq hother hsite href, chain,
      hchain, hfound d (hvisible.symm.trans hd)⟩
  · intro fuel source log f hfault
    cases haccepts : h.session.accepts source log with
    | false =>
      obtain ⟨log', hrun⟩ := Session.run_of_not_accepts haccepts fuel
      rw [hrun] at hfault
      cases hfault
    | true =>
      obtain ⟨added, site, value, m, hsite, hown, htrace, hwrite⟩ :=
        hh.exists_ownAssignment haccepts hfault
      obtain ⟨noted, htrace', hnoted⟩ := h.exists_notes haccepts fuel
      obtain rfl := List.append_cancel_left (htrace'.symm.trans htrace)
      obtain ⟨links, a, ha, hfollows⟩ := hnoted site.reference m (by simp)
      exact ⟨links, a, _, m, value, site, hsite, ha, hfollows, hown,
        htrace.trans (List.append_assoc _ _ _).symm, hwrite⟩

/-- A call goes on after it has called itself.  It stands in its own activation, though that of the
other call was made later and of the same region.  And a unit assigns to a variable in its own
initializer. -/
theorem follows_text_recursion_and_fault :
    let h : WatchedSession := .run ⟨(Session.start [] (.startingAt 0)).setLimit 10, [], []⟩ 20
      "fun f(b) \x7b if (b) f(false); print b; \x7d f(true);" []
    (∃ a reference m d, h.Underway a ∧ a.Follows reference m ∧
      m.distances.find? reference.ref = some d ∧ m.store.frames.size = 3 ∧
      ∃ site ∈ h.sites, ∃ chain, (∀ other, Enclosed h.runs (.activity a) other ↔ other = chain) ∧
        site.FoundAt d chain m ∧ chain.map Activation.frame = [1]) ∧
    (h.session.run 20 "\x7b var a = a = nil; \x7d" []).ending = .fault (.missingLocal "a" 0) ∧
    ∃ links a before m value, ∃ site ∈ (h.run 20 "\x7b var a = a = nil; \x7d" []).sites,
      (h.session.programRun 20 "\x7b var a = a = nil; \x7d").Underway links a ∧
      a.Follows site.reference m ∧ site.isOwnAssignment = true ∧
      (h.run 20 "\x7b var a = a = nil; \x7d" []).trace =
        before ++ [.followed site.reference m] ∧
      Effect.writeRef site.reference.ref site.reference.token value m =
        (.fault (.missingLocal "a" 0), m) := by
  intro h
  have hreachable : h.Reachable := .run (.start [] (.startingAt 0) 10) 20 _ []
  have hfault : (h.session.run 20 "\x7b var a = a = nil; \x7d" []).ending =
      .fault (.missingLocal "a" 0) := by decide +kernel
  obtain ⟨hnoted, hfollowed, hfaults⟩ := hreachable.follows_text
  refine ⟨?_, hfault, hfaults 20 _ [] _ hfault⟩
  -- The variable that is printed by the outer call.
  obtain ⟨reference, m, d, hnote, hscope, hsize, hd⟩ :=
    exists_isLocal (by decide +kernel : h.trace.any (·.isLocal [1, 0] 3) = true)
  obtain ⟨a, ha, hfollows⟩ := (hnoted reference m).mp hnote
  obtain ⟨site, hsite, -, -, chain, hchain, hfound⟩ := hfollowed a reference m d ha hfollows hd
  have hframes : chain.map Activation.frame ++ globalScope = [1] ++ globalScope :=
    hfound.scope.symm.trans hscope
  exact ⟨a, reference, m, d, ha, hfollows, hd, hsize, site, hsite, chain, hchain, hfound,
    List.append_cancel_right hframes⟩

end WatchedSession

end LoxLang
