import LoxLang.Proofs.Machine.Construction
import LoxLang.Proofs.Machine.Reached
import LoxLang.Proofs.Session.Dispatch
import LoxLang.Proofs.Session.Termination
import Mathlib

/-!
# Constructors

A call of a class gives a new instance of it, on any machine whatever.  A call of an initializer
that was obtained from an instance gives that instance, and here it matters what happens between the
two: the initializer may be kept in a variable or a field and be called much later, by another
program, after one that failed, or from inside of the initializer itself.

So all that went on on a machine is taken together (`Machine.Recalls`), whatever sources were run
there, with any distances.  Of any two moments of it the earlier one leads to the later one, and
both lead to where the machine is now; there the frame of the initializer has one `this`.

The machine of every session is among these machines (`Session.Hosted.reached`).
-/

namespace LoxLang

/-! ## What programs rely on -/

/-- A class statement of something that was read. -/
def IsReadClass (c : ClassDecl) : Prop :=
  ∃ (source : String) (n : RefId), c ∈ Stmt.allClasses (readProgram (tokensOf source) n).program

lemma tidy_read (source : String) (n : RefId) :
    Stmt.AllTidy IsReadClass (readProgram (tokensOf source) n).program :=
  tidy_readProgram fun _ hc => ⟨source, n, hc⟩

lemma tidy_readClass {c : ClassDecl} (hc : IsReadClass c) :
    FunDecl.AllTidy IsReadClass c.methods := by
  obtain ⟨source, n, hmem⟩ := hc
  exact Stmt.AllTidy.classes _ (tidy_read source n) c hmem

namespace Machine

variable {m : Machine} {runs : List ProgramRun} {a : Activity}

/-- **Every machine that programs lead to provides what they rely on.** -/
lemma Reached.provided (h : m.Reached runs) : ∃ trace, Provided IsReadClass ⟨m, trace⟩ := by
  induction h with
  | start input clock =>
    exact ⟨[], fun _ => tidy_readClass, furnished_initial IsReadClass, by simp⟩
  | host _ hstore _ ih =>
    obtain ⟨trace, hm⟩ := ih
    exact ⟨trace, hm.congr hstore rfl⟩
  | run _ source n fuel ih =>
    obtain ⟨trace, hm⟩ := ih
    obtain ⟨trace', -, -, hrun, -⟩ := (provides_runProgram fuel _ (tidy_read source n) hm).of_run
      (Watched.erases_runProgram _ _) rfl
    exact ⟨trace', hrun⟩

/-- A run leads from where it begins to where it ends. -/
lemma Reached.leads_after (h : m.Reached runs) (source : String) (n : RefId) (fuel : Nat) :
    m.Leads (ProgramRun.ofSource source n fuel m).after := by
  obtain ⟨trace, hm⟩ := h.provided
  exact leads_runProgram (tidy_read source n) hm

/-- **An activity that went on on a machine**: it was under way during one of the runs that led to
where the machine is. -/
inductive Recalls : Machine → Activity → Prop
  | now {m : Machine} {runs : List ProgramRun} {source : String} {n : RefId} {fuel : Nat}
      {links : List Link} {a : Activity} (hm : m.Reached runs)
      (ha : (ProgramRun.ofSource source n fuel m).Underway links a) :
      Recalls (ProgramRun.ofSource source n fuel m).after a
  | run {m : Machine} {a : Activity} (h : Recalls m a) (source : String) (n : RefId) (fuel : Nat) :
      Recalls (ProgramRun.ofSource source n fuel m).after a
  | host {m m' : Machine} {a : Activity} (h : Recalls m a) (hstore : m'.store = m.store)
      (hscope : m'.scope = m.scope) : Recalls m' a

namespace Recalls

lemma reached (h : m.Recalls a) : ∃ runs, m.Reached runs := by
  induction h with
  | @now m runs source n fuel _ _ hm _ => exact ⟨_, hm.run source n fuel⟩
  | run _ source n fuel ih =>
    obtain ⟨runs, hm⟩ := ih
    exact ⟨_, hm.run source n fuel⟩
  | host _ hstore hscope ih =>
    obtain ⟨runs, hm⟩ := ih
    exact ⟨runs, hm.host hstore hscope⟩

/-- **Whatever went on leads to where the machine is now.** -/
lemma leads (h : m.Recalls a) : a.Provided IsReadClass ∧ a.after.Leads m := by
  induction h with
  | @now m runs source n fuel _ a hm ha =>
    obtain ⟨trace, hprovided⟩ := hm.provided
    obtain ⟨hknown, -, hend⟩ := Underway.leads (tidy_read source n) hprovided ha
    exact ⟨hknown, hend⟩
  | run h source n fuel ih =>
    obtain ⟨runs, hm⟩ := h.reached
    exact ⟨ih.1, ih.2.trans (hm.leads_after source n fuel)⟩
  | host _ hstore _ ih =>
    refine ⟨ih.1, ?_⟩
    unfold Leads
    rw [hstore]
    exact ih.2

end Recalls

end Machine

/-- **The machine of every session is one that programs lead to**, whatever the units were. -/
lemma Session.Hosted.reached {s : Session} {sources : List String} (h : s.Hosted sources) :
    ∃ runs, s.machine.Reached runs := by
  induction h with
  | start input clock => exact ⟨[], .start input clock⟩
  | @run s _ _ fuel source log ih =>
    obtain ⟨runs, hs⟩ := ih
    cases haccepts : s.accepts source log with
    | false =>
      obtain ⟨log', hrun⟩ := run_of_not_accepts haccepts fuel
      rw [hrun]
      rcases s.rejected_cases source log with heq | ⟨-, heq⟩
      · rw [heq]
        exact ⟨runs, hs⟩
      · rw [heq]
        exact ⟨runs, hs.host rfl rfl⟩
    | true =>
      have hloaded : (s.loaded source).machine.Reached runs := hs.host rfl rfl
      rw [run_of_accepts haccepts, machine_execute]
      exact ⟨_, hloaded.run source s.nextRef fuel⟩
  | console _ _ ih | limit _ _ ih =>
    obtain ⟨runs, hs⟩ := ih
    exact ⟨runs, hs.host rfl rfl⟩

/-! ## What constructors give -/

/-- No program binds `this`. -/
lemma not_isBindableName_this : ¬ IsBindableName "this" := by
  rw [IsBindableName, show ("this" : String) = Keyword.this_.spelling from rfl,
    Keyword.ofWord?_spelling]
  exact nofun

/-- **Constructors give the instance.**  A call of a class, on any machine and with any fuel, that
ends with a value had as many arguments as the first initializer on its chain has parameters, or
none if there is no initializer.  The value is an instance of the class that did not exist before,
whatever the initializer did.

An initializer that was obtained from an instance, at any time on a machine, gives that instance in
every call that ends with a value, at any other time.  It does not matter which sources were run in
between, nor with which distances. -/
theorem constructs :
    (∀ n c arguments paren m v m', invoke n (.callable (.cls c)) arguments paren m = (.ok v, m') →
      (∀ method, c.lookup? initializerName = some method → arguments.length = method.arity) ∧
      (c.lookup? initializerName = none → arguments.length = 0) ∧
      ∃ id, v = .object id ∧ m.store.instances[id]? = none ∧
        ∃ i, m'.store.instances[id]? = some i ∧ i.cls = c) ∧
    ∀ (m : Machine) a b v id arguments paren w m', m.Recalls a → m.Recalls b →
      a.ObtainsInitializer v id → b.task = .invoke v arguments paren →
      invoke b.fuel v arguments paren b.machine = (.ok w, m') → w = .object id := by
  constructor
  · intro n c arguments paren m v m' hinvoke
    cases n with
    | zero => cases hinvoke
    | succ n =>
      obtain ⟨harity, m₁, hcall, hstore⟩ := call_of_invoke hinvoke
      obtain ⟨rfl, i, hi, hcls⟩ := call_class hcall
      refine ⟨fun method hmethod => ?_, fun hnone => ?_, _, rfl, ?_, i, hstore ▸ hi, hcls⟩
      · simpa only [Callable.arity, Class.arity, hmethod] using harity
      · simpa only [Callable.arity, Class.arity, hnone] using harity
      · exact Array.getElem?_eq_none (Nat.le_refl _)
  · intro m a b v id arguments paren w m' ha hb hobtains htask hinvoke
    obtain ⟨hprovided, hleads⟩ := ha.leads
    obtain ⟨stamp, own, frame, hown, rfl, hthis⟩ := hobtains.isInitializerOf hprovided
    have hafter : b.after = m' := by
      rw [Activity.after, htask]
      exact congrArg Prod.snd hinvoke
    have hleads' := hb.leads.2
    rw [hafter] at hleads'
    -- Both have become the `this` that the frame has now.
    have hnow := hleads.find? not_isBindableName_this hthis
    have hnow' := hleads'.find? not_isBindableName_this (find?_this_of_invoke hown hinvoke)
    rw [hnow, Option.some.injEq] at hnow'
    exact hnow'.symm

/-- An initializer that returns early is kept in a variable, and called when the statement in which
it was obtained has ended.  And a class without initializer is called. -/
theorem constructs_stored_initializer :
    let m₀ := Machine.initial [] (.startingAt 0)
    let source := "class C \x7b init() \x7b return; \x7d \x7d var f = C().init; f();"
    let r := ProgramRun.ofSource source 0 9 m₀
    let paren : Token := ⟨.mark .rightParen, ")", 1⟩
    (∃ c id m', invoke 2 (.callable (.cls c)) [] paren m₀ = (.ok (.object id), m') ∧
      m₀.store.instances[id]? = none ∧ ∃ i, m'.store.instances[id]? = some i ∧ i.cls = c) ∧
    ∃ a b v m', r.after.Recalls a ∧ r.after.Recalls b ∧
      a.ObtainsInitializer v 0 ∧ b.task = .invoke v [] paren ∧
      invoke b.fuel v [] paren b.machine = (.ok (.object 0), m') := by
  intro m₀ source r paren
  constructor
  · let c : Class := .extend ⟨0, "C", .empty⟩ none
    obtain ⟨m', hcall⟩ : ∃ m', invoke 2 (.callable (.cls c)) [] paren m₀ =
        (.ok (.object 0), m') := ⟨_, rfl⟩
    obtain ⟨-, -, id, hid, hnew, hinstance⟩ := constructs.1 _ _ _ _ _ _ _ hcall
    cases hid
    exact ⟨c, 0, m', hcall, hnew, hinstance⟩
  · let name : Token := ⟨.identifier, "C", 1⟩
    let f : Token := ⟨.identifier, "f", 1⟩
    let init : Token := ⟨.identifier, "init", 1⟩
    let keyword : Token := ⟨.keyword .return_, "return", 1⟩
    let declared : Stmt := .classDecl name none [.mk init [] [.returnValue keyword none]]
    let new : Expr := .call (.variable 0 name) paren []
    let kept : Stmt := .var f (some (.get new init))
    let called : Expr := .call (.variable 1 f) paren []
    have hm₀ : m₀.Reached [] := .start [] (.startingAt 0)
    have htokens : tokensOf source = [⟨.keyword .class_, "class", 1⟩, name,
        ⟨.mark .leftBrace, "\x7b", 1⟩, init, ⟨.mark .leftParen, "(", 1⟩, paren,
        ⟨.mark .leftBrace, "\x7b", 1⟩, keyword, ⟨.mark .semicolon, ";", 1⟩,
        ⟨.mark .rightBrace, "\x7d", 1⟩, ⟨.mark .rightBrace, "\x7d", 1⟩,
        ⟨.keyword .var_, "var", 1⟩, f, ⟨.mark .equal, "=", 1⟩, name, ⟨.mark .leftParen, "(", 1⟩,
        paren, ⟨.mark .dot, ".", 1⟩, init, ⟨.mark .semicolon, ";", 1⟩,
        f, ⟨.mark .leftParen, "(", 1⟩, paren, ⟨.mark .semicolon, ";", 1⟩, ⟨.eof, "", 1⟩] := by
      decide +kernel
    have hprogram : r.program = [declared, kept, .expression called] := by
      show (readProgram (tokensOf source) 0).program = _
      rw [htokens]
      cbv
    -- The machine after the class statement, and the one when the initializer was obtained.
    let m₁ := (execute 9 declared m₀).2
    have hdeclared : execute 9 declared m₀ = (.ok .normal, m₁) := rfl
    have hnew := Outcome.eq_of_instance?
      (by decide +kernel : (evaluate 7 new m₁).1.instance? = some 0)
    have hfield : ((evaluate 7 new m₁).2.store.fields 0).find? init.lexeme = none :=
      Option.isNone_iff_eq_none.mp (by decide +kernel)
    obtain ⟨v, hget⟩ := Outcome.exists_of_isOk
      (by decide +kernel : (evaluate 8 (.get new init) m₁).1.isOk = true)
    obtain ⟨m₂, (hkept : execute 9 kept m₁ = _), hstored⟩ := global_kept 1 f hget
      (by decide +kernel) (by decide +kernel) (by decide +kernel)
    obtain ⟨w, hcall⟩ := Outcome.exists_of_isOk
      (by decide +kernel : (evaluate 8 called (execute 9 kept m₁).2).1.isOk = true)
    clear_value m₁
    rw [hkept] at hcall
    have hinvoke : evaluate 8 called m₂ = invoke 7 v [] paren m₂ := by
      show (evaluate 7 (.variable 1 f) >>= _) m₂ = _
      rw [Effect.run_bind, hstored]
      rfl
    have hobtained : r.after.Recalls ⟨8, .evaluate (.get new init), m₁⟩ := by
      refine .now hm₀ ⟨[declared], kept, _, m₁, hprogram, ?_, .start .here .var⟩
      show runProgram 9 [declared] m₀ = _
      simp only [runProgram, Effect.run_bind, hdeclared, Effect.run_pure]
    have hinvoked : r.after.Recalls ⟨7, .invoke v [] paren, m₂⟩ := by
      have hreaches : Activity.Reaches ⟨9, .execute (.expression called), m₂⟩ [.operand, .operand]
          ⟨7, .invoke v [] paren, m₂⟩ :=
        .start (.start .here .expression) (.invoke (hstored 6) rfl)
      refine .now hm₀ ⟨[declared, kept], .expression called, [], m₂, hprogram, ?_, hreaches⟩
      show runProgram 9 [declared, kept] m₀ = _
      simp only [runProgram, Effect.run_bind, hdeclared, hkept, Effect.run_pure]
    have hobtains : Activity.ObtainsInitializer ⟨8, .evaluate (.get new init), m₁⟩ v 0 :=
      .property rfl hnew hfield hget
    rw [hinvoke] at hcall
    obtain rfl := constructs.2 _ _ _ _ _ _ _ _ _ hobtained hinvoked hobtains rfl hcall
    exact ⟨_, _, v, _, hobtained, hinvoked, hobtains, rfl, hcall⟩

end LoxLang
