import LoxLang.Proofs.Machine.Inheritance
import LoxLang.Proofs.Scope.Contexts
import LoxLang.Proofs.Scope.Locals

/-!
# Promised globals

A local variable that is read in its own initializer means the next variable out, and a global where
there is none.  The analysis accepts such a read if it knows the global: an earlier unit has bound
it, or it is declared further up in the same program.  In the second case that is a promise, since
nothing of the program has run yet, and the run may end before it comes to the declaration.

So a site counts only once the run has come to the statement it is in (`Kept`).  By then everything
declared further up is bound, since the run would have ended otherwise.  What the statement itself
declares is bound before anything inside runs: a function is bound before it can be called, and a
class is bound to `nil` first.  The initializer of a global comes before its binding, but no local
variable is pending there.  And a name that is bound globally stays bound, however a unit ends.
-/

namespace LoxLang

/-- A name is bound globally. -/
def Machine.HasGlobal (m : Machine) (name : String) : Prop :=
  (m.store.frame globalFrame).contains name = true

/-- The machine runs in the scope of the globals. -/
structure Watch.AtTop (w : Watch) : Prop where
  scope : w.machine.scope = globalScope
  rooted : globalFrame < w.machine.store.frames.size

section Globals

variable {w w' : Watch} {m m' : Machine} {name : String}

/-- **What is bound globally stays bound.** -/
lemma Machine.HasGlobal.becomes {N : String → Prop} (h : m.HasGlobal name)
    (hstore : m.store.Becomes N m'.store) : m'.HasGlobal name := hstore.contains h

lemma Machine.HasGlobal.leads (h : w.machine.HasGlobal name) (hw : w.Leads w') :
    w'.machine.HasGlobal name := h.becomes hw.store

lemma Watch.AtTop.extends (h : w.AtTop) (hw : w.Extends w') : w'.AtTop :=
  ⟨hw.scope.trans h.scope, Nat.lt_of_lt_of_le h.rooted hw.size⟩

/-- At top level a definition binds a global. -/
lemma Watch.AtTop.hasGlobal_define (h : w.AtTop) {store : Store}
    (hframes : store.frames = w.machine.store.frames) (name : String) (value : Value) :
    Machine.HasGlobal { w.machine with store := store.define w.machine.scope name value } name := by
  have hrooted : globalFrame < store.frames.size := hframes ▸ h.rooted
  rw [h.scope]
  show ((store.bindIn globalFrame name value).frame globalFrame).contains name = true
  rw [Store.frame_bindIn_self store hrooted]
  exact Bindings.contains_insert_self

end Globals

/-! ## Promises that are kept -/

/-- **The promises for some sites are kept**: the globals that they mean are bound by now, and were
so whenever one of the sites was followed. -/
structure Kept (S : Site → Prop) (w : Watch) : Prop where
  sound : Sound S w
  now : ∀ s, S s → s.Answered w.machine.HasGlobal
  followed : ∀ before reference m after, w.trace = before ++ .followed reference m :: after →
    Agrees (fun s => S s ∧ s.Answered m.HasGlobal) before reference m

lemma Agrees.weaken {S S' : Site → Prop} {before : List Observation} {reference : Reference}
    {m : Machine} (h : Agrees S before reference m) (hS : ∀ s, S s → S' s) :
    Agrees S' before reference m := by
  obtain ⟨s, hs, hagrees⟩ := h
  exact ⟨s, hS s hs, hagrees⟩

/-- A note of a longer trace stands in the old part of it, or among the new notes. -/
lemma eq_append_or_mem {trace notes before after : List Observation} {o : Observation}
    (h : trace ++ notes = before ++ o :: after) :
    (∃ rest, trace = before ++ o :: rest) ∨ o ∈ notes := by
  rcases List.append_eq_append_iff.mp h with ⟨added, -, hnotes⟩ | ⟨rest, htrace, hafter⟩
  · exact .inr (hnotes ▸ List.mem_append_right _ List.mem_cons_self)
  · cases rest with
    | nil =>
      rw [List.nil_append] at hafter
      exact .inr (hafter ▸ List.mem_cons_self)
    | cons first rest =>
      obtain ⟨rfl, -⟩ := List.cons.inj hafter
      exact .inl ⟨rest, htrace⟩

namespace Kept

variable {S S' : Site → Prop} {w w₁ w' : Watch}

/-- Promises for more sites are kept, if the globals that these mean are bound before anything is
noted. -/
lemma advance (h : Kept S w) (hS : ∀ s, S s → S' s) (hsound : Sound S' w') (hbegin : w.Leads w₁)
    (htrace : w₁.trace = w.trace) (hrest : w₁.Leads w')
    (hnew : ∀ s, S' s → S s ∨ s.Answered w₁.machine.HasGlobal) : Kept S' w' := by
  have hanswered : ∀ s, S' s → s.Answered w₁.machine.HasGlobal := by
    intro s hs
    rcases hnew s hs with hold | hnow
    · exact (h.now s hold).mono fun _ hname => hname.leads hbegin
    · exact hnow
  refine ⟨hsound, fun s hs => (hanswered s hs).mono fun _ hname => hname.leads hrest,
    fun before reference m after heq => ?_⟩
  obtain ⟨notes, hnotes, hbetween⟩ := hrest.trace
  have hsplit := heq
  rw [hnotes, htrace] at hsplit
  rcases eq_append_or_mem hsplit with ⟨rest, hold⟩ | hmem
  · exact (h.followed before reference m rest hold).weaken fun s hs => ⟨hS s hs.1, hs.2⟩
  · obtain ⟨s, hs, hagrees⟩ := hsound.followed before reference m after heq
    refine ⟨s, ⟨hs, (hanswered s hs).mono fun _ hname => ?_⟩, hagrees⟩
    exact hname.becomes (hbetween reference m hmem)

/-- Loading a program keeps all promises. -/
lemma load (h : Kept S w) (hdistances : ∀ s, S s →
      w'.machine.distances.find? s.reference.ref = s.visible?)
    (hstore : w'.machine.store = w.machine.store) (htrace : w'.trace = w.trace) : Kept S w' where
  sound := h.sound.load (fun _ hs => hs) h.sound.placed hdistances hstore htrace
  now s hs := (h.now s hs).mono fun name hname => by
    show (w'.machine.store.frame globalFrame).contains name = true
    rw [hstore]
    exact hname
  followed := htrace ▸ h.followed

end Kept

/-! ## Statements at top level -/

section Statements

variable {P : Token → Prop} {isGlobal : String → Bool} {a : Analysis} {s : Stmt}

/-- Behind a statement at top level the walk knows what it knew before, and what the statement
declares. -/
lemma knows_analyse (hs : s.Formed P) (hscopes : a.scopes = []) {name : String}
    (h : (s.analyse isGlobal .topLevel a).Knows isGlobal name) :
    a.Knows isGlobal name ∨ s.declared? = some name := by
  have hat : Situated ⟨[], a.topLevel⟩ a := ⟨hscopes ▸ Reflects.nil, rfl⟩
  have hbehind := (s.surveyed isGlobal hs rfl hat).situated.topLevel
  rcases h with hmem | hglobal
  · have hknown : name ∈ (s.behind ⟨[], a.topLevel⟩).topLevel := hbehind ▸ hmem
    cases s with
    | var declared _ | classDecl declared _ _ =>
      rcases List.mem_cons.mp hknown with rfl | hold
      · exact .inr rfl
      · exact .inl (.inl hold)
    | function decl =>
      rcases List.mem_cons.mp hknown with rfl | hold
      · exact .inr rfl
      · exact .inl (.inl hold)
    | _ => exact .inl (.inl hknown)
  · exact .inl (.inr hglobal)

/-- Behind a statement at top level the walk is at top level. -/
lemma scopes_analyse (hs : s.Formed P) (hscopes : a.scopes = []) :
    (s.analyse isGlobal .topLevel a).scopes = [] := by
  have hat : Situated ⟨[], a.topLevel⟩ a := ⟨hscopes ▸ Reflects.nil, rfl⟩
  have hbehind := (s.surveyed isGlobal hs rfl hat).situated.reflects
  have hnone : (s.behind ⟨[], a.topLevel⟩).scopes = [] := by
    obtain hsame | ⟨name, hname⟩ := s.behind_cases ⟨[], a.topLevel⟩
    · rw [hsame]
      rfl
    · rw [hname, Location.scopes_introduce]
      rfl
  rw [hnone] at hbehind
  exact hbehind.eq_nil

/-- A statement at top level that is no variable is answered by what is known behind it.  The
initializer of a global needs no answer. -/
lemma answered_analyse (hs : s.Formed P) (hscopes : a.scopes = [])
    (hquiet : (s.analyse isGlobal .topLevel a).errors = []) :
    ∀ site ∈ s.sites [], site.Answered fun name =>
      a.Knows isGlobal name ∨ s.declared? = some name ∧ s.varName? = none := by
  intro site hsite
  cases s with
  | var declared value =>
    cases value with
    | none => cases hsite
    | some e => exact Site.answered_of_pending (e.place_of_mem_sites site hsite).2
  | _ =>
    have hwalked := Stmt.walked isGlobal .topLevel _ a hs (hscopes ▸ Reflects.nil) hquiet
    refine (hwalked.answered site hsite).mono fun name hname => ?_
    exact (knows_analyse hs hscopes hname).imp_right fun hdeclared => ⟨hdeclared, rfl⟩

end Statements

section Runs

variable {K : ClassDecl → Prop} {w : Watch} {n : Nat} {s : Stmt} {name : String}

/-- **A function or class is bound before anything inside it runs.** -/
lemma exists_bound_first (hw : Provided K w) (htop : w.AtTop) (hs : s.Tidy K)
    (hdeclared : s.declared? = some name) (hvar : s.varName? = none) :
    ∃ w₁, w.Leads w₁ ∧ w₁.trace = w.trace ∧ w₁.machine.HasGlobal name ∧
      w₁.Leads (Watched.execute (n + 1) s w).2 := by
  cases s with
  | function decl =>
    cases hdeclared
    refine ⟨_, ((providesAt K (n + 1)).execute _ hs hw).1, rfl, ?_, .refl _⟩
    have hframes : w.machine.store.freshStamp.2.frames = w.machine.store.frames := rfl
    exact htop.hasGlobal_define hframes decl.name.lexeme _
  | classDecl declared superclass methods =>
    cases hdeclared
    obtain ⟨hc, hname, hsuperclass, -⟩ := hs
    let bound := Watched.quietly (Effect.define declared.lexeme .nil)
    obtain ⟨hleads, hprovided, -⟩ : Provides K w bound fun _ _ => True := .defineNil hw hname
    refine ⟨(bound w).2, hleads, rfl, htop.hasGlobal_define rfl declared.lexeme .nil, ?_⟩
    cases superclass with
    | none =>
      have hrest := (Provides.defineBase hprovided hc hname rfl).bind fun _ w₂ _ h₂ _ =>
        Provides.pure (Q := fun _ _ => True) (a := Flow.normal) h₂ trivial
      exact hrest.1
    | some e =>
      obtain ⟨ref, token, rfl⟩ := hsuperclass e rfl
      exact (Provides.inherit hprovided hc hname rfl n).1
  | var declared value => cases hvar
  | _ => cases hdeclared

/-- **A declaration that ends well has bound its name.** -/
lemma hasGlobal_of_execute {S : Site → Prop} (hw : Provided K w) (htop : w.AtTop)
    (hs : s.Tidy K) (hsound : Sound S w) (hsites : ∀ site ∈ s.sites [], S site)
    (hdeclared : s.declared? = some name) {flow : Flow}
    (hok : (Watched.execute (n + 1) s w).1 = .ok flow) :
    (Watched.execute (n + 1) s w).2.machine.HasGlobal name := by
  cases hvar : s.varName? with
  | none =>
    obtain ⟨w₁, -, -, hbound, hrest⟩ := exists_bound_first (n := n) hw htop hs hdeclared hvar
    exact hbound.leads hrest
  | some _ =>
    cases s with
    | var declared value =>
      cases hdeclared
      cases value with
      | none => exact htop.hasGlobal_define rfl declared.lexeme .nil
      | some e =>
        have halign : Aligned w none [] w.machine.scope := htop.scope ▸ .globals
        have hextends := ((keepsAt S n).evaluate e hsound halign hsites).1
        have hrun : Watched.execute (n + 1) (.var declared (some e)) w =
            (Watched.evaluate n e >>= fun value =>
              Watched.quietly (Effect.define declared.lexeme value) >>= fun _ =>
                pure Flow.normal) w := rfl
        rw [hrun, Watched.run_bind] at hok ⊢
        rcases hvalue : Watched.evaluate n e w with ⟨value | _ | _ | _, w₁⟩
        all_goals rw [hvalue] at hok hextends
        case ok => exact (htop.extends hextends).hasGlobal_define rfl declared.lexeme value
        all_goals cases hok
    | _ => cases hvar

end Runs

/-! ## Programs -/

/-- The run of a program has come to a statement, and so has the walk.  The promises for what was
run are kept, and all that the walk knows is bound. -/
structure Arrived (K : ClassDecl → Prop) (S : Site → Prop) (isGlobal : String → Bool) (a : Analysis)
    (w : Watch) : Prop where
  kept : Kept S w
  provided : Provided K w
  top : w.AtTop
  scopes : a.scopes = []
  bound : ∀ name, a.Knows isGlobal name → w.machine.HasGlobal name

section Programs

variable {P : Token → Prop} {K : ClassDecl → Prop} {S : Site → Prop} {isGlobal : String → Bool}
  {a : Analysis} {w : Watch}

/-- **A statement at top level keeps the promises for what is in it**, and if it ends well the run
comes to the next one. -/
lemma Arrived.execute (h : Arrived K S isGlobal a w) {s : Stmt} (hformed : s.Formed P)
    (htidy : s.Tidy K) (hquiet : (s.analyse isGlobal .topLevel a).errors = [])
    (hsites : ∀ site ∈ s.sites [], site.Placed ∧
      w.machine.distances.find? site.reference.ref = site.visible?) (n : Nat) :
    let S' := fun site => S site ∨ site ∈ s.sites []
    w.Extends (Watched.execute (n + 1) s w).2 ∧ Kept S' (Watched.execute (n + 1) s w).2 ∧
      ∀ flow, (Watched.execute (n + 1) s w).1 = .ok flow →
        Arrived K S' isGlobal (s.analyse isGlobal .topLevel a) (Watched.execute (n + 1) s w).2 := by
  intro S'
  have hsound : Sound S' w := h.kept.sound.load (fun _ hs => .inl hs)
    (fun site hsite => hsite.elim (h.kept.sound.placed site) fun hs => (hsites site hs).1)
    (fun site hsite => hsite.elim (h.kept.sound.distances site) fun hs => (hsites site hs).2)
    rfl rfl
  have halign : Aligned w none [] w.machine.scope := h.top.scope ▸ .globals
  obtain ⟨hextends, hsound', -⟩ := (keepsAt S' (n + 1)).execute s hsound halign fun _ => .inr
  obtain ⟨hleads, hprovided, -⟩ := (providesAt K (n + 1)).execute s htidy h.provided
  have hanswered := answered_analyse hformed h.scopes hquiet
  have hkept : Kept S' (Watched.execute (n + 1) s w).2 := by
    -- Only a function or class relies on its own name.
    by_cases hown : s.varName? = none ∧ ∃ name, s.declared? = some name
    · obtain ⟨hvar, name, hname⟩ := hown
      obtain ⟨w₁, hbegin, htrace, hbound, hrest⟩ :=
        exists_bound_first (n := n) h.provided h.top htidy hname hvar
      refine h.kept.advance (fun _ => .inl) hsound' hbegin htrace hrest fun site hsite =>
        hsite.imp_right fun hs => (hanswered site hs).mono ?_
      rintro other (hknown | ⟨hother, -⟩)
      · exact (h.bound other hknown).leads hbegin
      · rw [hname, Option.some.injEq] at hother
        exact hother ▸ hbound
    · refine h.kept.advance (fun _ => .inl) hsound' (.refl w) rfl hleads fun site hsite =>
        hsite.imp_right fun hs => (hanswered site hs).mono ?_
      rintro other (hknown | ⟨hother, hvar⟩)
      · exact h.bound other hknown
      · exact absurd ⟨hvar, other, hother⟩ hown
  refine ⟨hextends, hkept, fun flow hok => ⟨hkept, hprovided, h.top.extends hextends,
    scopes_analyse hformed h.scopes, fun name hname => ?_⟩⟩
  rcases knows_analyse hformed h.scopes hname with hold | hdeclared
  · exact (h.bound name hold).leads hleads
  · exact hasGlobal_of_execute h.provided h.top htidy hsound (fun _ => .inr) hdeclared hok

/-- **The run of a program keeps the promises for all statements that it comes to.** -/
lemma Arrived.runProgram (h : Arrived K S isGlobal a w) {program : List Stmt}
    (hformed : Stmt.AllFormed P program) (htidy : Stmt.AllTidy K program)
    (hquiet : (Stmt.analyseAll isGlobal .topLevel program a).errors = [])
    (hsites : ∀ site ∈ programSites program, site.Placed ∧
      w.machine.distances.find? site.reference.ref = site.visible?) (fuel : Nat) :
    ∃ S', (∀ site, S' site → S site ∨ site ∈ programSites program) ∧
      Kept S' (Watched.runProgram fuel program w).2 := by
  induction program generalizing S a w with
  | nil => exact ⟨S, fun _ => .inl, h.kept⟩
  | cons s rest ih =>
    rw [programSites_cons, List.forall_mem_append] at hsites
    simp only [programSites_cons, List.mem_append]
    have hfirst := quiet_before (Stmt.prefix_analyseAll isGlobal .topLevel rest _) hquiet
    cases fuel with
    | zero => exact ⟨S, fun _ => .inl, h.kept⟩
    | succ n =>
      obtain ⟨hextends, hkept, hnext⟩ := h.execute hformed.1 htidy.1 hfirst hsites.1 n
      rw [Watched.runProgram, Watched.run_bind]
      rcases hrun : Watched.execute (n + 1) s w with ⟨flow | _ | _ | _, w₁⟩
      all_goals rw [hrun] at hextends hkept hnext
      case ok =>
        rw [← hextends.distances] at hsites
        obtain ⟨S', hS', hend⟩ := ih (hnext flow rfl) hformed.2 htidy.2 hquiet hsites.2
        exact ⟨S', fun site hsite => (hS' site hsite).elim (·.imp_right .inl) (.inr ∘ .inr), hend⟩
      all_goals exact ⟨_, fun _ hs => hs.imp_right .inl, hkept⟩

end Programs

end LoxLang
