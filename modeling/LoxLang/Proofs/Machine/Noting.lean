import LoxLang.Proofs.Machine.Inheritance
import LoxLang.Proofs.Machine.Notes

/-!
# Everything is noted

Each note of a watched run is about an activity of the run.  Here it is shown that none is missing:
what an activity notes by itself is among the notes of every run that it is part of
(`Activity.Starts.noted`, `Underway.noted`), and in the same order.

Notes are only added.  So it is enough to see that a run comes to where the activity begins, and
goes on with it from there; whatever comes before or after leaves the notes of the activity
together.
-/

namespace LoxLang

namespace Watched

variable {α β : Type}

/-- Watched effects that note what activities follow add to the notes. -/
lemma adds_of_notes {x : Watched α} (h : ∀ w, Notes (fun _ _ => True) w x) : Adds x := by
  intro w
  obtain ⟨added, htrace, -⟩ := h w
  exact ⟨added, htrace.symm⟩

lemma Adds.ite {c : Prop} [Decidable c] {x y : Watched α} (hx : Adds x) (hy : Adds y) :
    Adds (if c then x else y) := by
  by_cases hc : c
  · rwa [if_pos hc]
  · rwa [if_neg hc]

/-- Where the first of two effects ends the second goes on. -/
lemma prefix_after {x : Watched α} {f : α → Watched β} {w w₁ : Watch} {a : α}
    {trace : List Observation} (hx : x w = (.ok a, w₁)) (hf : trace <+: (f a w₁).2.trace) :
    trace <+: ((x >>= f) w).2.trace := by
  rw [run_bind, hx]
  exact hf

/-- A watched effect ends where the effect ends. -/
lemma Erases.exists_run {x : Watched α} {y : Effect α} (h : Erases x y) {w : Watch} {a : α}
    {m : Machine} (hrun : y w.machine = (.ok a, m)) : ∃ w₁, w₁.machine = m ∧ x w = (.ok a, w₁) := by
  have hsame := h w
  rw [hrun, Prod.mk.injEq] at hsame
  exact ⟨(x w).2, hsame.2, Prod.ext hsame.1 rfl⟩

section Runs

variable (n : Nat)

lemma adds_evaluate (e : Expr) : Adds (evaluate n e) :=
  adds_of_notes fun _ => (notesAt _ n).evaluate e fun _ _ _ _ _ _ => trivial

lemma adds_evaluateAll (es : List Expr) : Adds (evaluateAll n es) :=
  adds_of_notes fun _ => (notesAt _ n).evaluateAll es fun _ _ _ _ _ _ => trivial

lemma adds_invoke (value : Value) (arguments : List Value) (paren : Token) :
    Adds (invoke n value arguments paren) :=
  adds_of_notes fun _ => (notesAt _ n).invoke value arguments paren fun _ _ _ _ _ _ => trivial

lemma adds_execute (s : Stmt) : Adds (execute n s) :=
  adds_of_notes fun _ => (notesAt _ n).execute s fun _ _ _ _ _ _ => trivial

lemma adds_executeAll (body : List Stmt) : Adds (executeAll n body) :=
  adds_of_notes fun _ => (notesAt _ n).executeAll body fun _ _ _ _ _ _ => trivial

lemma adds_repeatWhile (condition : Expr) (body : Stmt) : Adds (repeatWhile n condition body) :=
  adds_of_notes fun _ => (notesAt _ n).repeatWhile condition body fun _ _ _ _ _ _ => trivial

lemma adds_property (id : InstanceId) (name : Token) : Adds (property id name) :=
  adds_of_notes fun _ => .property id name

lemma adds_defineClass (name : Token) (superclass : Option Class) (methods : List FunDecl) :
    Adds (defineClass name superclass methods) :=
  adds_of_notes fun _ => .defineClass name superclass methods

end Runs

/-- A class below a superclass notes the frame for `super` at once. -/
lemma prefix_defineClass (name : Token) (c : Class) (methods : List FunDecl) (w : Watch) :
    w.trace ++ [.opened (.parent name methods) w.machine.store.frames.size w.machine.scope] <+:
      (defineClass name (some c) methods w).2.trace := by
  have houter : quietly Effect.scope w = (.ok w.machine.scope, w) := rfl
  exact prefix_after houter (prefix_bind List.prefix_rfl fun _ => (adds_pure _).bind fun _ =>
    (adds_quietly _).bind fun _ => adds_quietly _)

end Watched

/-! ## Activities -/

/-- Where the watched run of a task ends. -/
def Task.watched (n : Nat) (w : Watch) : Task → Watch
  | .evaluate e => (Watched.evaluate n e w).2
  | .evaluateAll es => (Watched.evaluateAll n es w).2
  | .invoke value arguments paren => (Watched.invoke n value arguments paren w).2
  | .call c arguments paren => (Watched.call n c arguments paren w).2
  | .execute s => (Watched.execute n s w).2
  | .executeAll body => (Watched.executeAll n body w).2
  | .repeatWhile condition body => (Watched.repeatWhile n condition body w).2

/-- **An activity is noted**: up to some point the notes are those of a run of the activity, and of
what was before it. -/
def Activity.Noted (trace : List Observation) (a : Activity) : Prop :=
  ∃ w : Watch, w.machine = a.machine ∧ (a.task.watched a.fuel w).trace <+: trace

namespace Activity

open Watched

variable {a b : Activity} {link : Link} {trace : List Observation}

/-- **A run goes through those that it starts.** -/
lemma Starts.exists_watched (h : a.Starts link b) {w : Watch} (hw : w.machine = a.machine) :
    ∃ w₁ : Watch, w₁.machine = b.machine ∧
      (b.task.watched b.fuel w₁).trace <+: (a.task.watched a.fuel w).trace := by
  have hevaluate : ∀ {w : Watch} {n e value m}, LoxLang.evaluate n e w.machine = (.ok value, m) →
      ∃ w₁, w₁.machine = m ∧ Watched.evaluate n e w = (.ok value, w₁) :=
    fun hrun => ((erasesAt _).evaluate _).exists_run hrun
  have hexecute : ∀ {w : Watch} {n s flow m}, LoxLang.execute n s w.machine = (.ok flow, m) →
      ∃ w₁, w₁.machine = m ∧ Watched.execute n s w = (.ok flow, w₁) :=
    fun hrun => ((erasesAt _).execute _).exists_run hrun
  cases h with
  | grouping | whileLoop => exact ⟨w, hw, List.prefix_rfl⟩
  | unary => exact ⟨w, hw, prefix_bind List.prefix_rfl fun _ => adds_quietly _⟩
  | expression | returnValue => exact ⟨w, hw, prefix_bind List.prefix_rfl fun _ => adds_pure _⟩
  | binaryLeft =>
    exact ⟨w, hw, prefix_bind List.prefix_rfl fun _ =>
      (adds_evaluate _ _).bind fun _ => adds_quietly _⟩
  | binaryRight hleft =>
    subst hw
    obtain ⟨w₁, hm₁, hrun⟩ := hevaluate hleft
    exact ⟨w₁, hm₁, prefix_after hrun (prefix_bind List.prefix_rfl fun _ => adds_quietly _)⟩
  | logicalLeft =>
    exact ⟨w, hw, prefix_bind List.prefix_rfl fun a => (adds_pure a).ite (adds_evaluate _ _)⟩
  | logicalRight hleft hopen =>
    subst hw
    obtain ⟨w₁, hm₁, hrun⟩ := hevaluate hleft
    refine ⟨w₁, hm₁, prefix_after hrun ?_⟩
    rw [if_neg (by simp [hopen])]
    exact List.prefix_rfl
  | assign =>
    exact ⟨w, hw, prefix_bind List.prefix_rfl fun v =>
      (adds_noting _ _).bind fun _ => adds_pure v⟩
  | callee =>
    exact ⟨w, hw, prefix_bind List.prefix_rfl fun _ => (adds_evaluateAll _ _).bind fun _ =>
      adds_invoke _ _ _ _⟩
  | arguments hcallee =>
    subst hw
    obtain ⟨w₁, hm₁, hrun⟩ := hevaluate hcallee
    exact ⟨w₁, hm₁, prefix_after hrun (prefix_bind List.prefix_rfl fun _ => adds_invoke _ _ _ _)⟩
  | invoke hcallee harguments =>
    subst hw
    obtain ⟨w₁, rfl, hrun⟩ := hevaluate hcallee
    obtain ⟨w₂, hm₂, hrun₂⟩ := ((erasesAt _).evaluateAll _).exists_run harguments
    exact ⟨w₂, hm₂, prefix_after hrun (prefix_after hrun₂ List.prefix_rfl)⟩
  | get =>
    refine ⟨w, hw, prefix_bind List.prefix_rfl fun value => ?_⟩
    cases value with
    | object id => exact adds_property _ _
    | _ => exact adds_quietly _
  | setObject =>
    refine ⟨w, hw, prefix_bind List.prefix_rfl fun value => ?_⟩
    cases value with
    | object id =>
      exact (adds_evaluate _ _).bind fun _ => (adds_quietly _).bind fun _ => adds_pure _
    | _ => exact adds_quietly _
  | setValue hobject =>
    subst hw
    obtain ⟨w₁, hm₁, hrun⟩ := hevaluate hobject
    exact ⟨w₁, hm₁, prefix_after hrun (prefix_bind List.prefix_rfl fun _ =>
      (adds_quietly _).bind fun _ => adds_pure _)⟩
  | first =>
    exact ⟨w, hw, prefix_bind List.prefix_rfl fun _ =>
      (adds_evaluateAll _ _).bind fun _ => adds_pure _⟩
  | others hfirst =>
    subst hw
    obtain ⟨w₁, hm₁, hrun⟩ := hevaluate hfirst
    exact ⟨w₁, hm₁, prefix_after hrun (prefix_bind List.prefix_rfl fun _ => adds_pure _)⟩
  | @enter n c arguments paren m harity hroom =>
    subst hw
    have hlimit : Watched.quietly Effect.isAtLimit w = (.ok false, w) := by
      simp [Watched.quietly, Effect.isAtLimit, hroom]
    refine ⟨{ w with machine := { w.machine with depth := w.machine.depth + 1 } }, rfl, ?_⟩
    show _ <+: ((if arguments.length ≠ c.arity then _ else
      Watched.quietly Effect.isAtLimit >>= _ : Watched Value) w).2.trace
    rw [if_neg (not_not.mpr harity)]
    exact prefix_after hlimit List.prefix_rfl
  | body hframe =>
    subst hw
    obtain ⟨w₁, rfl, hrun⟩ := (erases_noting _ _).exists_run hframe
    exact ⟨{ w₁ with machine := { w₁.machine with scope := _ } }, rfl,
      prefix_after hrun (prefix_bind List.prefix_rfl fun _ => adds_quietly _)⟩
  | construct hid hmethod hbound =>
    subst hw
    obtain ⟨w₁, rfl, hrun⟩ := (erases_quietly _).exists_run hid
    obtain ⟨w₂, hm₂, hrun₂⟩ := (erases_noting _ _).exists_run hbound
    refine ⟨w₂, hm₂, prefix_after hrun ?_⟩
    rw [hmethod]
    exact prefix_after hrun₂ (prefix_bind List.prefix_rfl fun _ => adds_pure _)
  | print =>
    exact ⟨w, hw, prefix_bind List.prefix_rfl fun _ => (adds_quietly _).bind fun _ =>
      (adds_quietly _).bind fun _ => adds_pure _⟩
  | var =>
    exact ⟨w, hw, prefix_bind List.prefix_rfl fun _ => (adds_quietly _).bind fun _ => adds_pure _⟩
  | @block n body frame m m₁ hframe =>
    subst hw
    have houter : Watched.quietly Effect.scope w = (.ok w.machine.scope, w) := rfl
    have herases : Erases (Watched.openFrame (.block body) w.machine.scope .empty)
        (Effect.addFrame .empty) := erases_noting _ _
    obtain ⟨w₁, rfl, hrun⟩ := herases.exists_run hframe
    have hscope : w₁.machine.scope = w.machine.scope :=
      ((Effect.Restores.onStore _).of_run hframe).scope
    refine ⟨{ w₁ with machine := { w₁.machine with scope := frame :: w₁.machine.scope } }, rfl, ?_⟩
    rw [hscope]
    exact prefix_after houter (prefix_after hrun List.prefix_rfl)
  | condition =>
    refine ⟨w, hw, prefix_bind List.prefix_rfl fun _ => (adds_execute _ _).ite ?_⟩
    split
    · exact adds_execute _ _
    · exact adds_pure _
  | thenBranch hcondition htrue =>
    subst hw
    obtain ⟨w₁, hm₁, hrun⟩ := hevaluate hcondition
    refine ⟨w₁, hm₁, prefix_after hrun ?_⟩
    rw [if_pos htrue]
    exact List.prefix_rfl
  | elseBranch hcondition hfalse =>
    subst hw
    obtain ⟨w₁, hm₁, hrun⟩ := hevaluate hcondition
    refine ⟨w₁, hm₁, prefix_after hrun ?_⟩
    rw [if_neg (by simp [hfalse])]
    exact List.prefix_rfl
  | superclass hname =>
    subst hw
    obtain ⟨w₁, hm₁, hrun⟩ := (erases_quietly _).exists_run hname
    exact ⟨w₁, hm₁, prefix_after hrun (prefix_bind List.prefix_rfl fun _ => (adds_quietly _).bind
      fun _ => (adds_defineClass _ _ _).bind fun _ => adds_pure _)⟩
  | head =>
    refine ⟨w, hw, prefix_bind List.prefix_rfl fun flow => ?_⟩
    cases flow with
    | normal => exact adds_executeAll _ _
    | _ => exact adds_pure _
  | tail hhead =>
    subst hw
    obtain ⟨w₁, hm₁, hrun⟩ := hexecute hhead
    exact ⟨w₁, hm₁, prefix_after hrun List.prefix_rfl⟩
  | whileCondition =>
    refine ⟨w, hw, prefix_bind List.prefix_rfl fun _ => Adds.ite ?_ (adds_pure _)⟩
    refine (adds_execute _ _).bind fun flow => ?_
    cases flow with
    | normal => exact adds_repeatWhile _ _ _
    | _ => exact adds_pure _
  | round hcondition htrue =>
    subst hw
    obtain ⟨w₁, hm₁, hrun⟩ := hevaluate hcondition
    refine ⟨w₁, hm₁, prefix_after hrun ?_⟩
    rw [if_pos htrue]
    refine prefix_bind List.prefix_rfl fun flow => ?_
    cases flow with
    | normal => exact adds_repeatWhile _ _ _
    | _ => exact adds_pure _
  | again hcondition htrue hround =>
    subst hw
    obtain ⟨w₁, rfl, hrun⟩ := hevaluate hcondition
    obtain ⟨w₂, hm₂, hrun₂⟩ := hexecute hround
    refine ⟨w₂, hm₂, prefix_after hrun ?_⟩
    rw [if_pos htrue]
    exact prefix_after hrun₂ List.prefix_rfl

/-- **What is started is noted**, if what starts it is. -/
lemma Starts.noted (h : a.Starts link b) (ha : a.Noted trace) : b.Noted trace := by
  obtain ⟨w, hw, hnoted⟩ := ha
  obtain ⟨w₁, hw₁, hpart⟩ := h.exists_watched hw
  exact ⟨w₁, hw₁, hpart.trans hnoted⟩

/-- The reference that an activity follows is among its notes. -/
lemma Noted.followed (h : a.Noted trace) {reference : Reference} {m : Machine}
    (hfollows : a.Follows reference m) : .followed reference m ∈ trace := by
  obtain ⟨w, hw, hnoted⟩ := h
  have hlast : ∀ {before : List Observation}, before ++ [.followed reference m] <+:
      (a.task.watched a.fuel w).trace → .followed reference m ∈ trace := fun hwithin =>
    (hwithin.trans hnoted).subset (List.mem_append_right _ (List.mem_singleton_self _))
  cases hfollows with
  | «variable» | this =>
    subst hw
    exact hlast List.prefix_rfl
  | super =>
    subst hw
    exact hlast (prefix_evaluate_super _ _ _ _ w)
  | assign hvalue =>
    subst hw
    obtain ⟨w₁, rfl, hrun⟩ := ((erasesAt _).evaluate _).exists_run hvalue
    exact hlast (prefix_after hrun (prefix_bind List.prefix_rfl fun _ => adds_pure _))

/-- **A class statement with a superclass** notes that the name of the superclass is followed, and
next the frame that it makes for `super`. -/
lemma Noted.superclass {n : Nat} {name : Token} {ref : RefId} {token : Token}
    {methods : List FunDecl} {parent : Class} {m m₁ m₂ : Machine}
    (h : Noted trace ⟨n + 1, .execute (.classDecl name (some (.variable ref token)) methods), m⟩)
    (hname : Effect.define name.lexeme .nil m = (.ok (), m₁))
    (hparent : LoxLang.evaluate n (.variable ref token) m₁ = (.ok (.callable (.cls parent)), m₂)) :
    m₂ = m₁ ∧ ∃ before after, trace = before ++ .followed ⟨.read, ref, token⟩ m₁ ::
      .opened (.parent name methods) m₁.store.frames.size m₁.scope :: after := by
  obtain ⟨w, hw, hnoted⟩ := h
  subst hw
  cases n with
  | zero => cases hparent
  | succ n =>
    have hread : Effect.readRef ref token m₁ = (.ok (.callable (.cls parent)), m₂) := hparent
    have hsame := Effect.snd_readRef ref token m₁
    rw [hread] at hsame
    subst hsame
    obtain ⟨w₁, rfl, hdefined⟩ := (erases_quietly _).exists_run hname
    let w₂ : Watch := ⟨w₁.machine, w₁.trace ++ [.followed ⟨.read, ref, token⟩ w₁.machine]⟩
    have hfollowed : Watched.evaluate (n + 1) (.variable ref token) w₁ =
        (.ok (.callable (.cls parent)), w₂) := by
      show Watched.readRef .read ref token w₁ = _
      simp only [Watched.readRef, Watched.noting, hread, w₂]
    have hexpected : Watched.quietly (expectClass (superclassToken (.variable ref token) name)
        (.callable (.cls parent))) w₂ = (.ok parent, w₂) := rfl
    have hclass : w₂.trace ++ [.opened (.parent name methods) w₂.machine.store.frames.size
        w₂.machine.scope] <+: trace := by
      refine List.IsPrefix.trans ?_ hnoted
      refine prefix_after hdefined (prefix_after hfollowed (prefix_after hexpected ?_))
      exact prefix_bind (prefix_defineClass name parent methods w₂) fun _ => adds_pure _
    obtain ⟨after, hafter⟩ := hclass
    refine ⟨rfl, w₁.trace, after, ?_⟩
    rw [← hafter]
    simp [w₂]

end Activity

/-! ## Programs -/

lemma Watched.adds_runProgram (fuel : Nat) (program : List Stmt) :
    Watched.Adds (Watched.runProgram fuel program) :=
  Watched.adds_of_notes fun _ => notes_runProgram fuel program fun _ _ _ _ _ _ => trivial

/-- **Whatever is under way is noted.** -/
lemma Underway.noted {w : Watch} {fuel : Nat} {program : List Stmt} {links : List Link}
    {a : Activity} (h : Underway fuel program w.machine links a) :
    a.Noted (Watched.runProgram fuel program w).2.trace := by
  refine Underway.induct (P := fun _ a => a.Noted (Watched.runProgram fuel program w).2.trace) ?_
    (fun _ ha hstart => hstart.noted ha) h
  intro before s rest m hprogram hbefore
  clear h
  subst hprogram
  induction before generalizing w with
  | nil =>
    cases hbefore
    exact ⟨w, rfl, Watched.prefix_bind List.prefix_rfl fun _ => Watched.adds_runProgram _ _⟩
  | cons first before ih =>
    rw [runProgram, Effect.run_bind] at hbefore
    split at hbefore
    · next flow m₁ hfirst =>
      obtain ⟨w₁, rfl, hrun⟩ := ((Watched.erasesAt fuel).execute first).exists_run hfirst
      obtain ⟨w₂, hw₂, hnoted⟩ := ih hbefore
      exact ⟨w₂, hw₂, hnoted.trans (Watched.prefix_after hrun List.prefix_rfl)⟩
    all_goals cases hbefore

end LoxLang
