import LoxLang.Proofs.Machine.Moments
import LoxLang.Proofs.Machine.WellFormed
import Mathlib

/-!
# The machines that programs lead to

A host runs one program after another on a machine.  It need not have analysed them, so references
may have any distances or none, and a program may be what is left of a source that could not be
read.  Whatever they are, every machine that occurs is well formed: between two programs, and
whenever an activity is begun or has ended during one (`occurring_wellFormed`).

What an activity is about is part of the invariant.  Text binds nothing but names, which is a
property of everything that is read, and what is called is well formed where the call is begun.
Each activity hands both on to those that it starts.  The scope of an activity stays one of the
store while others go on inside of it, because frames stay nested as they are.

Every function that is found in a binding, a field or an array was made in one of the runs so far,
by a `fun` statement or by binding a method, and every class that declares a method was made there,
too (`IsMadeIn`).
-/

namespace LoxLang

/-! ## Activities -/

/-- A task is about text that binds nothing but names, or about values that exist. -/
def Task.WellFormed (F : Made → Prop) (N : Nesting) (s : Store) : Task → Prop
  | .evaluate e => e.Tidy
  | .evaluateAll es => Expr.AllTidy es
  | .invoke value arguments _ => value.WellFormed F N s ∧ AllWellFormed F N s arguments
  | .call c arguments _ => c.WellFormed F N s ∧ AllWellFormed F N s arguments
  | .execute stmt => stmt.Tidy IsAnyClass
  | .executeAll body => Stmt.AllTidy IsAnyClass body
  | .repeatWhile condition body => condition.Tidy ∧ body.Tidy IsAnyClass

namespace Activity

/-- An activity is well formed if its machine and its task are, and if what it makes is as `F`
says. -/
structure WellFormed (F : Made → Prop) (N : Nesting) (a : Activity) : Prop where
  machine : a.machine.WellFormed F N
  task : a.task.WellFormed F N a.machine.store
  makes : a.MakesOnly F

variable {F : Made → Prop} {N : Nesting} {a b : Activity} {link : Link}
  {links : List Link}

/-- **What is started is well formed too**, and the store has grown. -/
lemma Starts.wellFormed (h : a.Starts link b) (ha : a.WellFormed F N) :
    ∃ N₁, a.machine.store.Grows N N₁ b.machine.store ∧ b.WellFormed F N₁ := by
  obtain ⟨hm, htask, hF⟩ := ha
  have hb : b.MakesOnly F := hF.starts h
  have hfirst : ∀ {n e m₁ value}, Expr.Tidy e → MakesOnly F ⟨n, .evaluate e, a.machine⟩ →
      LoxLang.evaluate n e a.machine = (.ok value, m₁) →
      ∃ N₁, a.machine.store.Grows N N₁ m₁.store ∧ m₁.WellFormed F N₁ ∧
        value.WellFormed F N₁ m₁.store := by
    intro n e m₁ value he hleft hrun
    obtain ⟨N₁, hgrows, h₁, hvalue⟩ := ((upholdsAt F n).evaluate e he hm hleft).of_run hm hrun
    exact ⟨N₁, hgrows, h₁, hvalue value rfl⟩
  cases h with
  | grouping | unary | get | expression | print | returnValue | whileLoop =>
    exact ⟨N, .refl N _, hm, htask, hb⟩
  | binaryLeft | logicalLeft | callee | setObject | first | whileCondition | head =>
    exact ⟨N, .refl N _, hm, htask.1, hb⟩
  | assign | var => exact ⟨N, .refl N _, hm, htask.2, hb⟩
  | @condition n condition thenBranch elseBranch m =>
    cases elseBranch <;> exact ⟨N, .refl N _, hm, htask.1, hb⟩
  | binaryRight hleft =>
    obtain ⟨N₁, hgrows, h₁, -⟩ := hfirst htask.1 (hF.starts .binaryLeft) hleft
    exact ⟨N₁, hgrows, h₁, htask.2, hb⟩
  | logicalRight hleft =>
    obtain ⟨N₁, hgrows, h₁, -⟩ := hfirst htask.1 (hF.starts .logicalLeft) hleft
    exact ⟨N₁, hgrows, h₁, htask.2, hb⟩
  | arguments hcallee =>
    obtain ⟨N₁, hgrows, h₁, -⟩ := hfirst htask.1 (hF.starts .callee) hcallee
    exact ⟨N₁, hgrows, h₁, htask.2, hb⟩
  | setValue hobject =>
    obtain ⟨N₁, hgrows, h₁, -⟩ := hfirst htask.1 (hF.starts .setObject) hobject
    exact ⟨N₁, hgrows, h₁, htask.2, hb⟩
  | others hrun =>
    obtain ⟨N₁, hgrows, h₁, -⟩ := hfirst htask.1 (hF.starts .first) hrun
    exact ⟨N₁, hgrows, h₁, htask.2, hb⟩
  | @thenBranch n condition thenBranch elseBranch value m m₁ hcondition htrue =>
    cases elseBranch with
    | none =>
      obtain ⟨N₁, hgrows, h₁, -⟩ := hfirst htask.1 (hF.starts .condition) hcondition
      exact ⟨N₁, hgrows, h₁, htask.2, hb⟩
    | some s =>
      obtain ⟨N₁, hgrows, h₁, -⟩ := hfirst htask.1 (hF.starts .condition) hcondition
      exact ⟨N₁, hgrows, h₁, htask.2.1, hb⟩
  | elseBranch hcondition =>
    obtain ⟨N₁, hgrows, h₁, -⟩ := hfirst htask.1 (hF.starts .condition) hcondition
    exact ⟨N₁, hgrows, h₁, htask.2.2, hb⟩
  | round hcondition =>
    obtain ⟨N₁, hgrows, h₁, -⟩ := hfirst htask.1 (hF.starts .whileCondition) hcondition
    exact ⟨N₁, hgrows, h₁, htask.2, hb⟩
  | @again n _ _ _ _ _ _ hcondition htrue hround =>
    obtain ⟨N₁, hgrows₁, h₁, -⟩ := hfirst htask.1 (hF.starts .whileCondition) hcondition
    have hbody := (upholdsAt F n).execute _ htask.2 h₁ (hF.starts (.round hcondition htrue))
    obtain ⟨N₂, hgrows₂, h₂, -⟩ := hbody.of_run h₁ hround
    exact ⟨N₂, hgrows₁.trans hgrows₂, h₂, htask, hb⟩
  | @invoke n _ _ _ _ _ _ _ _ hcallee harguments =>
    obtain ⟨N₁, hgrows₁, h₁, hvalue⟩ := hfirst htask.1 (hF.starts .callee) hcallee
    have hall := (upholdsAt F n).evaluateAll _ htask.2 h₁ (hF.starts (.arguments hcallee))
    obtain ⟨N₂, hgrows₂, h₂, hvalues⟩ := hall.of_run h₁ harguments
    exact ⟨N₂, hgrows₁.trans hgrows₂, h₂, ⟨hvalue.mono hgrows₂, hvalues _ rfl⟩, hb⟩
  | enter => exact ⟨N, .refl N _, ⟨hm.store, hm.scope⟩, htask, hb⟩
  | body hframe =>
    obtain ⟨hfunction, harguments⟩ := htask
    have hclosure := Closure.IsFunction.wellFormed hfunction
    obtain ⟨N₁, hgrows, h₁, hscope⟩ := (Upholds.openCall hm hclosure harguments).of_run hm hframe
    exact ⟨N₁, hgrows, ⟨h₁.store, hscope _ rfl⟩, hclosure.decl.body, hb⟩
  | construct hid hmethod hbound =>
    obtain ⟨hc, harguments⟩ := htask
    obtain ⟨N₁, hgrows₁, h₁, hnew⟩ := (Upholds.addInstance hm hc).of_run hm hid
    have hclosure : ∀ closure, _ = Method.declared closure →
        closure.WellFormed N₁ _ ∧ F (Store.boundMethod _ closure) := fun closure heq =>
      have hlookup := hmethod.trans (congrArg some heq)
      ⟨(Class.WellFormed.mono hc hgrows₁).lookup hlookup,
        hF.here _ (.method (.construct hid) hlookup)⟩
    obtain ⟨N₂, hgrows₂, h₂, hinitializer⟩ :=
      (Upholds.bindMethod h₁ hclosure (hnew _ rfl)).of_run h₁ hbound
    have hgrows := hgrows₁.trans hgrows₂
    exact ⟨N₂, hgrows, h₂, ⟨hinitializer _ rfl, harguments.mono hgrows⟩, hb⟩
  | block hframe =>
    obtain ⟨N₁, hgrows, h₁, hinner⟩ := (Upholds.openBlock hm).of_run hm hframe
    have hscope := ((Effect.Restores.onStore _).of_run hframe).scope
    exact ⟨N₁, hgrows, ⟨h₁.store, hscope ▸ hinner _ rfl⟩, htask, hb⟩
  | superclass hname =>
    obtain ⟨-, hbindable, hsuperclass, -⟩ := htask
    obtain ⟨N₁, hgrows, h₁, -⟩ := (Upholds.defineNil hm hbindable).of_run hm hname
    obtain ⟨ref, parent, rfl⟩ := hsuperclass _ rfl
    exact ⟨N₁, hgrows, h₁, trivial, hb⟩
  | @tail n _ _ _ _ hhead =>
    obtain ⟨N₁, hgrows, h₁, -⟩ :=
      ((upholdsAt F n).execute _ htask.1 hm (hF.starts .head)).of_run hm hhead
    exact ⟨N₁, hgrows, h₁, htask.2, hb⟩

/-- Everything that an activity leads to is well formed. -/
lemma Reaches.wellFormed (h : a.Reaches links b) (ha : a.WellFormed F N) :
    ∃ N₁, a.machine.store.Grows N N₁ b.machine.store ∧ b.WellFormed F N₁ := by
  induction h with
  | here => exact ⟨N, .refl N _, ha⟩
  | start _ hstart ih =>
    obtain ⟨N₁, hgrows₁, hb⟩ := ih
    obtain ⟨N₂, hgrows₂, hc⟩ := hstart.wellFormed hb
    exact ⟨N₂, hgrows₁.trans hgrows₂, hc⟩

/-- **A well-formed activity leaves a well-formed machine**, however it ends. -/
lemma WellFormed.after (h : a.WellFormed F N) :
    ∃ N₁, a.machine.store.Grows N N₁ a.after.store ∧ a.after.WellFormed F N₁ := by
  obtain ⟨n, task, m⟩ := a
  obtain ⟨hm, htask, hF⟩ := h
  have hat := upholdsAt F n
  have hended : ∀ {α : Type} {x : Effect α} {Q}, Upholds F N m x Q →
      ∃ N₁, m.store.Grows N N₁ (x m).2.store ∧ (x m).2.WellFormed F N₁ := by
    intro α x Q hx
    obtain ⟨N₁, hgrows, h₁, -⟩ := hx.of_run hm rfl
    exact ⟨N₁, hgrows, h₁⟩
  cases task with
  | evaluate e => exact hended (hat.evaluate e htask hm hF)
  | evaluateAll es => exact hended (hat.evaluateAll es htask hm hF)
  | invoke value arguments paren =>
    exact hended (hat.invoke value arguments paren htask.1 htask.2 hm hF)
  | call c arguments paren => exact hended (hat.call c arguments paren htask.1 htask.2 hm hF)
  | execute s => exact hended (hat.execute s htask hm hF)
  | executeAll body => exact hended (hat.executeAll body htask hm hF)
  | repeatWhile condition body =>
    exact hended (hat.repeatWhile condition body htask.1 htask.2 hm hF)

/-- **Reading `this` behind the body of an initializer cannot fail.**  The closure was bound before
it was called, and while the body was run nothing has bound `this` anew. -/
lemma WellFormed.closureResult {n : Nat} {stamp : Stamp} {closure : Closure}
    {arguments : List Value} {paren : Token} {flow : Flow} {m m₁ : Machine}
    (h : WellFormed F N ⟨n + 1, .call (.function stamp closure) arguments paren, m⟩)
    (hinitializer : closure.isInitializer = true)
    (hbody : closure.runBody n arguments m = (.ok flow, m₁)) :
    ∃ id, LoxLang.closureResult closure flow m₁ = (.ok (.object id), m₁) ∧
      id < m₁.store.instances.size := by
  obtain ⟨hm, ⟨hfunction, harguments⟩, hF⟩ := h
  have hfunction : closure.IsFunction F N m.store stamp := hfunction
  obtain ⟨N₁, hgrows, -⟩ :=
    ((upholdsAt F n).runBody hfunction.wellFormed harguments hm hF).of_run hm hbody
  rcases hfunction.made with ⟨-, hplain⟩ | ⟨-, hreceiver⟩
  · rw [hinitializer] at hplain
    cases hplain
  · obtain ⟨frame, outer, id, hscope, hthis, hid⟩ := hreceiver.mono hgrows
    refine ⟨id, ?_, hid⟩
    simp only [LoxLang.closureResult, hinitializer, if_true, Effect.readAt, Store.readAt, hscope,
      List.getElem?_cons_zero, hthis]

end Activity

/-! ## Programs -/

namespace ProgramRun

/-- **A source is read and begun on a machine**, whether or not there are complaints about it.  The
numbers of its references start anywhere, so there need be no distances for them. -/
def ofSource (source : String) (n : RefId) (fuel : Nat) (m : Machine) : ProgramRun :=
  ⟨fuel, (readProgram (tokensOf source) n).program, m⟩

/-- The machine when the run has ended, in whatever way. -/
def after (r : ProgramRun) : Machine := (runProgram r.fuel r.program r.machine).2

/-- Everything that is made during the run is as `F` says. -/
def MakesOnly (F : Made → Prop) (r : ProgramRun) : Prop :=
  ∀ links a x, r.Underway links a → a.Makes x → F x

variable {F : Made → Prop} {N : Nesting} {fuel : Nat} {s : Stmt}
  {before rest program : List Stmt} {m m₁ : Machine}

/-- Behind the statements before it, a statement makes only what the program makes. -/
lemma MakesOnly.statement (before : List Stmt) (h : MakesOnly F ⟨fuel, before ++ s :: rest, m⟩)
    (hbefore : runProgram fuel before m = (.ok (), m₁)) :
    Activity.MakesOnly F ⟨fuel, .execute s, m₁⟩ := fun links b hb x hmakes =>
  h links b x ⟨before, s, rest, m₁, rfl, hbefore, hb⟩ hmakes

lemma MakesOnly.tail {flow : Flow} (h : MakesOnly F ⟨fuel, s :: rest, m⟩)
    (hs : execute fuel s m = (.ok flow, m₁)) : MakesOnly F ⟨fuel, rest, m₁⟩ := by
  intro links a x ha hmakes
  obtain ⟨before, s', later, m₂, hrest, hbefore, hreaches⟩ := ha
  have hrest : rest = before ++ s' :: later := hrest
  refine h links a x ⟨s :: before, s', later, m₂, ?_, ?_, hreaches⟩ hmakes
  · exact congrArg (List.cons s) hrest
  · rw [runProgram, Effect.run_bind, hs]
    exact hbefore

/-- **The run of a program keeps machines well formed.** -/
lemma upholds (fuel : Nat) (hprogram : Stmt.AllTidy IsAnyClass program) (hm : m.WellFormed F N)
    (hF : MakesOnly F ⟨fuel, program, m⟩) :
    Upholds F N m (runProgram fuel program) fun _ _ _ => True := by
  induction program generalizing N m with
  | nil => exact .pure hm trivial
  | cons s rest ih =>
    have hs : Activity.MakesOnly F ⟨fuel, .execute s, m⟩ := hF.statement [] rfl
    exact ((upholdsAt F fuel).execute s hprogram.1 hm hs).bind hm fun flow N₁ m₁ hrun _ h₁ _ =>
      ih hprogram.2 h₁ (hF.tail hrun)

/-- What comes before a statement makes only what the program makes. -/
lemma MakesOnly.earlier (h : MakesOnly F ⟨fuel, before ++ rest, m⟩) :
    MakesOnly F ⟨fuel, before, m⟩ := by
  intro links a x ha hmakes
  obtain ⟨earlier, s', later, m₁, hbefore, hrun, hreaches⟩ := ha
  have hbefore : before = earlier ++ s' :: later := hbefore
  refine h links a x ⟨earlier, s', later ++ rest, m₁, ?_, hrun, hreaches⟩ hmakes
  show before ++ rest = _
  rw [hbefore, List.append_assoc, List.cons_append]

/-- **Whatever is under way is well formed.** -/
lemma Underway.wellFormed {links : List Link} {a : Activity}
    (ha : ProgramRun.Underway ⟨fuel, program, m⟩ links a)
    (hprogram : Stmt.AllTidy IsAnyClass program) (hm : m.WellFormed F N)
    (hF : MakesOnly F ⟨fuel, program, m⟩) : ∃ N₁, a.WellFormed F N₁ := by
  obtain ⟨before, s, rest, m₁, heq, hbefore, hreaches⟩ := ha
  have heq : program = before ++ s :: rest := heq
  subst heq
  obtain ⟨hearlier, hs, -⟩ := Stmt.allTidy_append.mp hprogram
  obtain ⟨N₁, -, h₁, -⟩ := (upholds fuel hearlier hm hF.earlier).of_run hm hbefore
  obtain ⟨N₂, -, ha⟩ := hreaches.wellFormed ⟨h₁, hs, hF.statement before hbefore⟩
  exact ⟨N₂, ha⟩

end ProgramRun

/-! ## Machines that occur -/

/-- What was made by an activity of one of the runs. -/
def IsMadeIn (runs : List ProgramRun) (x : Made) : Prop :=
  ∃ r ∈ runs, ∃ links a, r.Underway links a ∧ a.Makes x

/-- **The machines that sources lead to**, with the runs that led there, the last one first.
Between two of them a host may change everything but the store and the scope; in particular there
may be any distances, right or wrong, or none. -/
inductive Machine.Reached : Machine → List ProgramRun → Prop
  | start (input : List InputLine) (clock : Clock) : Reached (.initial input clock) []
  | host {m m' : Machine} {runs : List ProgramRun} (hm : Reached m runs)
      (hstore : m'.store = m.store) (hscope : m'.scope = m.scope) : Reached m' runs
  | run {m : Machine} {runs : List ProgramRun} (hm : Reached m runs) (source : String) (n : RefId)
      (fuel : Nat) : Reached (ProgramRun.ofSource source n fuel m).after
        (.ofSource source n fuel m :: runs)

/-- An activity that is under way during a run, with the runs up to this one. -/
inductive Activity.Occurs : Activity → List ProgramRun → Prop
  | underway {m : Machine} {runs : List ProgramRun} {source : String} {n : RefId} {fuel : Nat}
      {links : List Link} {a : Activity} (hm : m.Reached runs)
      (ha : (ProgramRun.ofSource source n fuel m).Underway links a) :
      Occurs a (.ofSource source n fuel m :: runs)

/-- **A machine that occurs**, between two programs or when an activity is begun or has ended, and
with it a scope that is the current one or that of an activity which is still under way. -/
inductive Machine.Occurs : Machine → Scope → List ProgramRun → Prop
  | rest {m : Machine} {runs : List ProgramRun} (hm : m.Reached runs) : Occurs m m.scope runs
  | begun {a b : Activity} {links : List Link} {runs : List ProgramRun} (ha : a.Occurs runs)
      (hb : a.Reaches links b) : Occurs b.machine a.machine.scope runs
  | ended {a b : Activity} {links : List Link} {runs : List ProgramRun} (ha : a.Occurs runs)
      (hb : a.Reaches links b) : Occurs b.after a.machine.scope runs

section Occurring

variable {F : Made → Prop} {runs : List ProgramRun} {m : Machine}

lemma tidy_ofSource (source : String) (n : RefId) :
    Stmt.AllTidy IsAnyClass (readProgram (tokensOf source) n).program :=
  tidy_readProgram fun _ _ => trivial

/-- Each run makes only what all of them together make. -/
lemma ProgramRun.makesOnly_of_mem {r : ProgramRun} (hr : r ∈ runs)
    (hF : ∀ x, IsMadeIn runs x → F x) : r.MakesOnly F :=
  fun links a x ha hmakes => hF x ⟨r, hr, links, a, ha, hmakes⟩

/-- What earlier runs made is among what all of them made, so that `F` need not change. -/
lemma IsMadeIn.cons {r : ProgramRun} {x : Made} (h : IsMadeIn runs x) :
    IsMadeIn (r :: runs) x := by
  obtain ⟨r', hr', hmade⟩ := h
  exact ⟨r', List.mem_cons_of_mem _ hr', hmade⟩

/-- The induction along the runs is for any predicate that holds of all that was made in the end. -/
lemma Machine.Reached.wellFormed (h : m.Reached runs) (hF : ∀ x, IsMadeIn runs x → F x) :
    ∃ N, m.WellFormed F N := by
  induction h with
  | start input clock =>
    have hscope : globalScope.WellFormed .initial Store.initial :=
      ⟨globalFrame, Nat.zero_lt_one, (Nesting.chain_globalFrame _).symm⟩
    exact ⟨.initial, Store.wellFormed_initial _, hscope⟩
  | host _ hstore hscope ih =>
    obtain ⟨N, hm⟩ := ih hF
    exact ⟨N, hstore ▸ hm.store, by rw [hscope, hstore]; exact hm.scope⟩
  | run _ source n fuel ih =>
    obtain ⟨N, hm⟩ := ih fun x hmade => hF x hmade.cons
    have hmakes := ProgramRun.makesOnly_of_mem (List.mem_cons_self ..) hF
    obtain ⟨N₁, -, h₁, -⟩ :=
      (ProgramRun.upholds fuel (tidy_ofSource source n) hm hmakes).of_run hm rfl
    exact ⟨N₁, h₁⟩

/-- **Whatever was under way in any of the runs was well formed.** -/
lemma Machine.Reached.underway (h : m.Reached runs) (hF : ∀ x, IsMadeIn runs x → F x) :
    ∀ r ∈ runs, ∀ {links a}, r.Underway links a → ∃ N, a.WellFormed F N := by
  induction h with
  | start => exact List.forall_mem_nil _
  | host _ _ _ ih => exact ih hF
  | run hm source n fuel ih =>
    have hearlier : ∀ x, IsMadeIn _ x → F x := fun x hmade => hF x hmade.cons
    refine List.forall_mem_cons.mpr ⟨fun ha => ?_, ih hearlier⟩
    obtain ⟨N, hm⟩ := hm.wellFormed hearlier
    exact ha.wellFormed (tidy_ofSource source n) hm
      (ProgramRun.makesOnly_of_mem (List.mem_cons_self ..) hF)

lemma Activity.Occurs.wellFormed {a : Activity} (h : a.Occurs runs) :
    ∃ N, a.WellFormed (IsMadeIn runs) N := by
  cases h with
  | @underway m runs source n fuel links a hm ha =>
    exact (hm.run source n fuel).underway (fun _ => id) _ (List.mem_cons_self ..) ha

lemma Machine.Occurs.wellFormed {scope : Scope} (h : m.Occurs scope runs) :
    ∃ N, m.WellFormed (IsMadeIn runs) N ∧ scope.WellFormed N m.store := by
  cases h with
  | rest hm =>
    obtain ⟨N, hm⟩ := hm.wellFormed fun _ => id
    exact ⟨N, hm, hm.scope⟩
  | begun ha hb =>
    obtain ⟨N, ha⟩ := ha.wellFormed
    obtain ⟨N₁, hgrows, hb⟩ := hb.wellFormed ha
    exact ⟨N₁, hb.machine, ha.machine.scope.mono hgrows⟩
  | ended ha hb =>
    obtain ⟨N, ha⟩ := ha.wellFormed
    obtain ⟨N₁, hgrows₁, hb⟩ := hb.wellFormed ha
    obtain ⟨N₂, hgrows₂, hafter⟩ := hb.after
    exact ⟨N₂, hafter, ha.machine.scope.mono (hgrows₁.trans hgrows₂)⟩

end Occurring

/-- **The store stays well formed**, whatever sources are run one after the other, with any
distances and any fuel.  On every machine that occurs, the current scope and those that activities
go back to are chains of one nesting of the frames.  Each frame has a chain of its own, which runs
in no circle and ends in the globals.  So do all scopes that closures keep; no class is above
itself; what a value refers to exists; and a function that is a value was made by a `fun` statement
of one of the runs, or it is a method that was bound in one of them.

So where an initializer is called and its body ends, `this` can be read, and it is an instance. -/
theorem occurring_wellFormed :
    (∀ (m : Machine) scope runs, m.Occurs scope runs → ∃ N : Nesting,
      m.WellFormed (IsMadeIn runs) N ∧ scope.WellFormed N m.store ∧
      ∀ frame < m.store.frames.size, (∀ outer ∈ N.chain frame, outer < m.store.frames.size) ∧
        (N.chain frame).Nodup ∧ (N.chain frame).getLast? = some globalFrame) ∧
    ∀ n stamp closure arguments paren m runs flow m₁,
      Activity.Occurs ⟨n + 1, .call (.function stamp closure) arguments paren, m⟩ runs →
      closure.isInitializer = true → closure.runBody n arguments m = (.ok flow, m₁) →
      ∃ id, closureResult closure flow m₁ = (.ok (.object id), m₁) ∧
        id < m₁.store.instances.size := by
  constructor
  · intro m scope runs h
    obtain ⟨N, hm, hscope⟩ := h.wellFormed
    refine ⟨N, hm, hscope, fun frame hframe => ?_⟩
    have hchain : Scope.WellFormed N m.store (N.chain frame) := ⟨frame, hframe, rfl⟩
    exact ⟨hchain.lt_size, N.nodup_chain frame, N.getLast?_chain frame⟩
  · intro n stamp closure arguments paren m runs flow m₁ h hinitializer hbody
    obtain ⟨N, ha⟩ := h.wellFormed
    exact ha.closureResult hinitializer hbody

/-- The initializer of a class while it is called, and the instance that it gives back. -/
theorem occurring_wellFormed_initializer :
    let source := "class C \x7b init() \x7b return; \x7d \x7d C();"
    let paren : Token := ⟨.mark .rightParen, ")", 1⟩
    let r := ProgramRun.ofSource source 0 9 (.initial [] (.startingAt 0))
    ∃ n stamp closure m flow m₁,
      Activity.Occurs ⟨n + 1, .call (.function stamp closure) [] paren, m⟩ [r] ∧
      closure.isInitializer = true ∧ closure.runBody n [] m = (.ok flow, m₁) ∧
      (∃ N, m.WellFormed (IsMadeIn [r]) N) ∧
      ∃ id, closureResult closure flow m₁ = (.ok (.object id), m₁) := by
  intro source paren r
  let name : Token := ⟨.identifier, "C", 1⟩
  let init : Token := ⟨.identifier, "init", 1⟩
  let keyword : Token := ⟨.keyword .return_, "return", 1⟩
  let decl : FunDecl := .mk init [] [.returnValue keyword none]
  let declared : Stmt := .classDecl name none [decl]
  let called : Expr := .call (.variable 0 name) paren []
  have htokens : tokensOf source = [⟨.keyword .class_, "class", 1⟩, name,
      ⟨.mark .leftBrace, "\x7b", 1⟩, init, ⟨.mark .leftParen, "(", 1⟩, paren,
      ⟨.mark .leftBrace, "\x7b", 1⟩, keyword, ⟨.mark .semicolon, ";", 1⟩,
      ⟨.mark .rightBrace, "\x7d", 1⟩, ⟨.mark .rightBrace, "\x7d", 1⟩, name,
      ⟨.mark .leftParen, "(", 1⟩, paren, ⟨.mark .semicolon, ";", 1⟩, ⟨.eof, "", 1⟩] := by
    decide +kernel
  have hprogram : r.program = [declared, .expression called] := by
    show (readProgram (tokensOf source) 0).program = _
    rw [htokens]
    cbv
  -- The machines when the class is declared, when its call is entered, when there is an instance,
  -- and when the initializer is bound to it.
  let m₁ := (execute 9 declared r.machine).2
  let m₂ := { m₁ with depth := m₁.depth + 1 }
  let c : Class := .extend ⟨3, "C", methodTable globalScope [decl]⟩ none
  let m₃ := (Effect.addInstance c m₂).2
  let closure : Closure := ⟨decl, 1 :: globalScope, true⟩
  let m₄ := (Effect.bindMethod (.declared ⟨decl, globalScope, true⟩) 0 m₃).2
  have hdeclared : execute 9 declared r.machine = (.ok .normal, m₁) := rfl
  have hcallee : evaluate 7 (.variable 0 name) m₁ = (.ok (.callable (.cls c)), m₁) := by
    cbv
  have hmethod : c.lookup? initializerName = some (.declared ⟨decl, globalScope, true⟩) := rfl
  have harity : ([] : List Value).length = (Callable.cls c).arity := rfl
  have hcalled : Activity.Occurs ⟨5, .call (.function 4 closure) [] paren, m₄⟩ [r] := by
    have hreaches : Activity.Reaches ⟨9, .execute (.expression called), m₁⟩
        [.construct, .call, .operand, .operand] ⟨5, .call (.function 4 closure) [] paren, m₄⟩ := by
      refine .start (.start (.start (.start .here .expression) (.invoke hcallee rfl))
        (.enter harity ?_)) (.construct rfl hmethod rfl)
      decide
    refine .underway (.start [] (.startingAt 0)) ⟨[declared], .expression called, [], m₁, hprogram,
      ?_, hreaches⟩
    show runProgram 9 [declared] r.machine = _
    simp only [runProgram, Effect.run_bind, hdeclared, Effect.run_pure]
  have hbody : closure.runBody 4 [] m₄ = (.ok (.returned .nil), (closure.runBody 4 [] m₄).2) := rfl
  obtain ⟨N, hm, -⟩ := occurring_wellFormed.1 _ _ _ (.begun hcalled .here)
  obtain ⟨id, hresult, -⟩ := occurring_wellFormed.2 _ _ _ _ _ _ _ _ _ hcalled rfl hbody
  exact ⟨4, 4, closure, m₄, .returned .nil, _, hcalled, rfl, hbody, ⟨N, hm⟩, id, hresult⟩

end LoxLang
