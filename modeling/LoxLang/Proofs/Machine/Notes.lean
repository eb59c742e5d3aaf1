import LoxLang.Proofs.Machine.Activity
import LoxLang.Proofs.Machine.Watched

/-!
# Where notes come from

A watched run notes every reference that it follows.  The notes are a list, and do not tell which
activity of the run a note is about.  Here each of them is traced back to one: it was made when an
expression was evaluated that is a variable, a `this`, a `super` or an assignment, and the
evaluation was under way in the run (`exists_notes_runProgram`).

What is noted on the way is said with a property that every reference has which any activity
follows.  The parts of an activity follow no more than the whole, so the property is handed down to
them, as the induction on the fuel goes on.
-/

namespace LoxLang

/-! ## Following a reference -/

namespace Activity

/-- **An activity follows a reference** on a machine.  The reference is looked up at once, but that
of an assignment only when there is a value to assign. -/
inductive Follows : Activity → Reference → Machine → Prop
  | variable {n : Nat} {ref : RefId} {name : Token} {m : Machine} :
      Follows ⟨n + 1, .evaluate (.variable ref name), m⟩ ⟨.read, ref, name⟩ m
  | this {n : Nat} {ref : RefId} {keyword : Token} {m : Machine} :
      Follows ⟨n + 1, .evaluate (.this ref keyword), m⟩ ⟨.this, ref, keyword⟩ m
  | super {n : Nat} {ref : RefId} {keyword method : Token} {m : Machine} :
      Follows ⟨n + 1, .evaluate (.super ref keyword method), m⟩ ⟨.super, ref, keyword⟩ m
  | assign {n : Nat} {ref : RefId} {name : Token} {e : Expr} {value : Value} {m m₁ : Machine}
      (hvalue : LoxLang.evaluate n e m = (.ok value, m₁)) :
      Follows ⟨n + 1, .evaluate (.assign ref name e), m⟩ ⟨.assign, ref, name⟩ m₁

/-- Every reference that is followed while an activity goes on is as `G` says. -/
def FollowsOnly (G : Reference → Machine → Prop) : Activity → Prop :=
  Throughout fun b => ∀ reference m, b.Follows reference m → G reference m

end Activity

/-! ## What an effect notes -/

/-- **The effect, begun at `w`, adds to the notes**, and every reference in what it adds is as `G`
says. -/
def Notes {α : Type} (G : Reference → Machine → Prop) (w : Watch) (x : Watched α) : Prop :=
  ∃ added, (x w).2.trace = w.trace ++ added ∧
    ∀ reference m, .followed reference m ∈ added → G reference m

namespace Notes

variable {α β : Type} {G : Reference → Machine → Prop} {w : Watch}

/-! ### Rules -/

section Rules

variable {x y : Watched α} {f : α → Watched β}

/-- An effect that leaves the notes alone. -/
lemma of_trace_eq (h : (x w).2.trace = w.trace) : Notes G w x :=
  ⟨[], by simpa using h, fun _ _ hmem => by cases hmem⟩

lemma pure (a : α) : Notes G w (Pure.pure a : Watched α) := of_trace_eq rfl

lemma quietly (x : Effect α) : Notes G w (Watched.quietly x) := of_trace_eq rfl

lemma bind_of_run (hx : Notes G w x) (hf : ∀ a w₁, x w = (.ok a, w₁) → Notes G w₁ (f a)) :
    Notes G w (x >>= f) := by
  obtain ⟨added, htrace, hadded⟩ := hx
  unfold Notes
  rw [Watched.run_bind]
  rcases hrun : x w with ⟨a | _ | _ | _, w₁⟩
  all_goals rw [hrun] at htrace
  · obtain ⟨more, htrace₁, hmore⟩ := hf a w₁ hrun
    refine ⟨added ++ more, ?_, fun reference m hmem => ?_⟩
    · rw [← List.append_assoc, ← htrace]
      exact htrace₁
    · exact (List.mem_append.mp hmem).elim (hadded reference m) (hmore reference m)
  all_goals exact ⟨added, htrace, hadded⟩

/-- One effect after another.  The second begins where the first has ended. -/
lemma bind {z : Effect α} (herases : Watched.Erases x z) (hx : Notes G w x)
    (hf : ∀ a w₁, z w.machine = (.ok a, w₁.machine) → Notes G w₁ (f a)) :
    Notes G w (x >>= f) := by
  refine hx.bind_of_run fun a w₁ hrun => hf a w₁ ?_
  have hsame := herases w
  rw [hrun] at hsame
  exact hsame.symm

/-- One effect after another, wherever the first has ended. -/
lemma andThen (hx : Notes G w x) (hf : ∀ a w₁, Notes G w₁ (f a)) : Notes G w (x >>= f) :=
  hx.bind_of_run fun a w₁ _ => hf a w₁

lemma noting {notes : Machine → List Observation} {x : Effect α}
    (h : ∀ reference m, .followed reference m ∈ notes w.machine → G reference m) :
    Notes G w (Watched.noting notes x) := ⟨_, rfl, h⟩

lemma within {scope : Scope}
    (hx : Notes G { w with machine := { w.machine with scope := scope } } x) :
    Notes G w (Watched.within scope x) := hx

lemma deeper
    (hx : Notes G { w with machine := { w.machine with depth := w.machine.depth + 1 } } x) :
    Notes G w (Watched.deeper x) := hx

lemma ite {c : Prop} [Decidable c] (hx : c → Notes G w x) (hy : ¬ c → Notes G w y) :
    Notes G w (if c then x else y) := by
  by_cases hc : c
  · rw [if_pos hc]
    exact hx hc
  · rw [if_neg hc]
    exact hy hc

end Rules

/-! ### Effects of a run -/

lemma openFrame (region : Region) (outer : Scope) (bindings : Bindings Value) :
    Notes G w (Watched.openFrame region outer bindings) := noting (by simp)

lemma bindMethod (method : Method) (id : InstanceId) : Notes G w (Watched.bindMethod method id) :=
  noting (by cases method <;> simp [Watched.receiverNotes])

/-- The one reference that is noted. -/
lemma followed {reference : Reference} (x : Effect α) (h : G reference w.machine) :
    Notes G w (Watched.noting (fun m => [.followed reference m]) x) := by
  refine noting fun _ _ hmem => ?_
  cases List.mem_singleton.mp hmem
  exact h

lemma readRef {use : ReferenceUse} {ref : RefId} {name : Token}
    (h : G ⟨use, ref, name⟩ w.machine) : Notes G w (Watched.readRef use ref name) :=
  followed _ h

lemma writeRef {ref : RefId} {name : Token} (value : Value)
    (h : G ⟨.assign, ref, name⟩ w.machine) : Notes G w (Watched.writeRef ref name value) :=
  followed _ h

lemma property (id : InstanceId) (name : Token) : Notes G w (Watched.property id name) := by
  have hbound : ∀ method, Notes G w (Watched.bindMethod method id >>= fun c =>
      Pure.pure (Value.callable c)) := fun method =>
    (bindMethod method id).andThen fun _ _ => pure _
  unfold Notes Watched.property
  split
  · exact ⟨[], (List.append_nil _).symm, by simp⟩
  · split
    · exact hbound _
    · exact ⟨[], (List.append_nil _).symm, by simp⟩

lemma defineClass (name : Token) (superclass : Option Class) (methods : List FunDecl) :
    Notes G w (Watched.defineClass name superclass methods) := by
  refine (quietly _).andThen fun outer w₁ => ?_
  cases superclass with
  | none => exact (pure _).andThen fun _ _ => (quietly _).andThen fun _ _ => quietly _
  | some c =>
    exact (openFrame _ _ _).andThen fun _ _ => (pure _).andThen fun _ _ =>
      (quietly _).andThen fun _ _ => quietly _

lemma superMethod {ref : RefId} {keyword : Token} (method : Token)
    (h : G ⟨.super, ref, keyword⟩ w.machine) :
    Notes G w (Watched.superMethod ref keyword method) := by
  refine (followed (Effect.distance? ref) h).andThen fun distance w₁ => ?_
  cases distance with
  | none => exact quietly _
  | some d =>
    refine (quietly _).andThen fun current w₂ => (quietly _).andThen fun parent w₃ => ?_
    split
    · refine (quietly _).andThen fun this w₄ => ?_
      split
      · split
        · exact (bindMethod _ _).andThen fun _ _ => pure _
        · exact quietly _
      · exact quietly _
    · exact quietly _

end Notes

/-! ## Runs -/

/-- **Runs with a given amount of fuel note what their activities follow.** -/
structure NotesAt (G : Reference → Machine → Prop) (n : Nat) : Prop where
  evaluate : ∀ {w : Watch} (e : Expr), Activity.FollowsOnly G ⟨n, .evaluate e, w.machine⟩ →
    Notes G w (Watched.evaluate n e)
  evaluateAll : ∀ {w : Watch} (es : List Expr),
    Activity.FollowsOnly G ⟨n, .evaluateAll es, w.machine⟩ →
    Notes G w (Watched.evaluateAll n es)
  invoke : ∀ {w : Watch} (value : Value) (arguments : List Value) (paren : Token),
    Activity.FollowsOnly G ⟨n, .invoke value arguments paren, w.machine⟩ →
    Notes G w (Watched.invoke n value arguments paren)
  call : ∀ {w : Watch} (c : Callable) (arguments : List Value) (paren : Token),
    Activity.FollowsOnly G ⟨n, .call c arguments paren, w.machine⟩ →
    Notes G w (Watched.call n c arguments paren)
  execute : ∀ {w : Watch} (s : Stmt), Activity.FollowsOnly G ⟨n, .execute s, w.machine⟩ →
    Notes G w (Watched.execute n s)
  executeAll : ∀ {w : Watch} (body : List Stmt),
    Activity.FollowsOnly G ⟨n, .executeAll body, w.machine⟩ →
    Notes G w (Watched.executeAll n body)
  repeatWhile : ∀ {w : Watch} (condition : Expr) (body : Stmt),
    Activity.FollowsOnly G ⟨n, .repeatWhile condition body, w.machine⟩ →
    Notes G w (Watched.repeatWhile n condition body)

namespace NotesAt

variable {G : Reference → Machine → Prop} {n : Nat} {w : Watch}

/-- What comes after an expression begins where its evaluation has ended. -/
lemma afterExpr (h : NotesAt G n) {β : Type} {e : Expr} {f : Value → Watched β}
    (he : Activity.FollowsOnly G ⟨n, .evaluate e, w.machine⟩)
    (hf : ∀ value w₁, LoxLang.evaluate n e w.machine = (.ok value, w₁.machine) →
      Notes G w₁ (f value)) : Notes G w (Watched.evaluate n e >>= f) :=
  .bind ((Watched.erasesAt n).evaluate e) (h.evaluate e he) hf

lemma succ_evaluate (h : NotesAt G n) (e : Expr)
    (hG : Activity.FollowsOnly G ⟨n + 1, .evaluate e, w.machine⟩) :
    Notes G w (Watched.evaluate (n + 1) e) := by
  cases e with
  | literal value => exact .pure _
  | grouping inner => exact h.evaluate inner (hG.starts .grouping)
  | unary operator right =>
    exact (h.evaluate right (hG.starts .unary)).andThen fun _ _ => .quietly _
  | binary left operator right =>
    refine h.afterExpr (hG.starts .binaryLeft) fun a w₁ hleft => ?_
    exact (h.evaluate right (hG.starts (.binaryRight hleft))).andThen fun _ _ => .quietly _
  | logical left operator right =>
    refine h.afterExpr (hG.starts .logicalLeft) fun a w₁ hleft => .ite (fun _ => .pure a)
      fun hopen => ?_
    exact h.evaluate right (hG.starts (.logicalRight hleft (by simpa using hopen)))
  | «variable» ref name => exact .readRef (hG.here _ _ .variable)
  | this ref keyword => exact .readRef (hG.here _ _ .this)
  | assign ref name value =>
    refine h.afterExpr (hG.starts .assign) fun v w₁ hvalue => ?_
    exact (Notes.writeRef v (hG.here _ _ (.assign hvalue))).andThen fun _ _ => .pure v
  | call callee paren arguments =>
    refine h.afterExpr (hG.starts .callee) fun c w₁ hcallee => ?_
    have harguments := h.evaluateAll arguments (hG.starts (.arguments hcallee))
    exact .bind ((Watched.erasesAt n).evaluateAll arguments) harguments fun values w₂ hvalues =>
      h.invoke c values paren (hG.starts (.invoke hcallee hvalues))
  | get object name =>
    refine (h.evaluate object (hG.starts .get)).andThen fun value w₁ => ?_
    cases value with
    | object id => exact .property id name
    | _ => exact .quietly _
  | set object name value =>
    refine h.afterExpr (hG.starts .setObject) fun target w₁ hobject => ?_
    cases target with
    | object id =>
      exact (h.evaluate value (hG.starts (.setValue hobject))).andThen fun _ _ =>
        (Notes.quietly _).andThen fun _ _ => .pure _
    | _ => exact .quietly _
  | super ref keyword method => exact .superMethod method (hG.here _ _ .super)

lemma succ_evaluateAll (h : NotesAt G n) (es : List Expr)
    (hG : Activity.FollowsOnly G ⟨n + 1, .evaluateAll es, w.machine⟩) :
    Notes G w (Watched.evaluateAll (n + 1) es) := by
  cases es with
  | nil => exact .pure _
  | cons e rest =>
    refine h.afterExpr (hG.starts .first) fun first w₁ hfirst => ?_
    exact (h.evaluateAll rest (hG.starts (.others hfirst))).andThen fun _ _ => .pure _

lemma succ_invoke (h : NotesAt G n) (value : Value) (arguments : List Value) (paren : Token)
    (hG : Activity.FollowsOnly G ⟨n + 1, .invoke value arguments paren, w.machine⟩) :
    Notes G w (Watched.invoke (n + 1) value arguments paren) := by
  cases value with
  | callable c =>
    refine .ite (fun _ => .quietly _) fun harity => ?_
    refine .bind (Watched.erases_quietly _) (.quietly _) fun full w₁ hlimit =>
      .ite (fun _ => .quietly _) fun hroom => ?_
    obtain ⟨hfull, hmachine⟩ := Prod.mk.inj hlimit
    cases hfull
    have hroom : w.machine.depth < w.machine.limit := by simpa using hroom
    have hcall := hG.starts (.enter (not_not.mp harity) hroom)
    rw [hmachine] at hcall
    exact .deeper (h.call c arguments paren hcall)
  | _ => exact .quietly _

lemma succ_call (h : NotesAt G n) (c : Callable) (arguments : List Value) (paren : Token)
    (hG : Activity.FollowsOnly G ⟨n + 1, .call c arguments paren, w.machine⟩) :
    Notes G w (Watched.call (n + 1) c arguments paren) := by
  cases c with
  | builtin stamp b receiver => exact .quietly _
  | function stamp closure =>
    refine .bind (Watched.erases_noting _ _) (.openFrame _ _ _) fun frame w₁ hframe => ?_
    have hbody : Notes G w₁ (Watched.within (frame :: closure.scope)
        (Watched.executeAll n closure.decl.body)) :=
      .within (h.executeAll closure.decl.body (hG.starts (.body hframe)))
    exact hbody.andThen fun _ _ => .quietly _
  | cls c =>
    refine .bind (Watched.erases_quietly _) (.quietly _) fun id w₁ hid => ?_
    cases hmethod : c.lookup? initializerName with
    | none => exact .pure _
    | some method =>
      refine .bind (Watched.erases_noting _ _) (.bindMethod method id) fun initializer w₂ hbound =>
        (h.call initializer arguments paren ?_).andThen fun _ _ => .pure _
      exact hG.starts (.construct hid hmethod hbound)

lemma succ_execute (h : NotesAt G n) (s : Stmt)
    (hG : Activity.FollowsOnly G ⟨n + 1, .execute s, w.machine⟩) :
    Notes G w (Watched.execute (n + 1) s) := by
  cases s with
  | expression e => exact (h.evaluate e (hG.starts .expression)).andThen fun _ _ => .pure _
  | print e =>
    exact (h.evaluate e (hG.starts .print)).andThen fun _ _ => (Notes.quietly _).andThen
      fun _ _ => (Notes.quietly _).andThen fun _ _ => .pure _
  | var name initializer =>
    cases initializer with
    | none => exact (Notes.quietly _).andThen fun _ _ => .pure _
    | some e =>
      exact (h.evaluate e (hG.starts .var)).andThen fun _ _ =>
        (Notes.quietly _).andThen fun _ _ => .pure _
  | block body =>
    refine .bind (Watched.erases_quietly _) (.quietly _) fun outer w₁ houter => ?_
    refine .bind (Watched.erases_noting _ _) (.openFrame _ _ _) fun frame w₂ hframe => ?_
    obtain ⟨hcurrent, hmachine⟩ := Prod.mk.inj houter
    cases hcurrent
    rw [← hmachine] at hframe
    have hscope : w₂.machine.scope = w.machine.scope :=
      ((Effect.Restores.onStore _).of_run hframe).scope
    have hbody := hG.starts (.block hframe)
    rw [hscope] at hbody
    exact .within (h.executeAll body hbody)
  | ifThen condition thenBranch elseBranch =>
    refine h.afterExpr (hG.starts .condition) fun value w₁ hcondition => .ite (fun htrue => ?_)
      fun hfalse => ?_
    · exact h.execute thenBranch (hG.starts (.thenBranch hcondition htrue))
    · cases elseBranch with
      | none => exact .pure _
      | some elseBranch =>
        exact h.execute elseBranch (hG.starts (.elseBranch hcondition (by simpa using hfalse)))
  | whileLoop condition body => exact h.repeatWhile condition body (hG.starts .whileLoop)
  | breakLoop keyword => exact .pure _
  | returnValue keyword value =>
    cases value with
    | none => exact .pure _
    | some e => exact (h.evaluate e (hG.starts .returnValue)).andThen fun _ _ => .pure _
  | function decl =>
    exact (Notes.quietly _).andThen fun _ _ => (Notes.quietly _).andThen fun _ _ =>
      (Notes.quietly _).andThen fun _ _ => .pure _
  | classDecl name superclass methods =>
    cases superclass with
    | none =>
      exact (Notes.quietly _).andThen fun _ _ => (Notes.defineClass name none methods).andThen
        fun _ _ => .pure _
    | some e =>
      refine .bind (Watched.erases_quietly _) (.quietly _) fun _ w₁ hname => ?_
      refine (h.evaluate e (hG.starts (.superclass hname))).andThen fun value w₂ => ?_
      exact (Notes.quietly _).andThen fun c w₃ => (Notes.defineClass name (some c) methods).andThen
        fun _ _ => .pure _

lemma succ_executeAll (h : NotesAt G n) (body : List Stmt)
    (hG : Activity.FollowsOnly G ⟨n + 1, .executeAll body, w.machine⟩) :
    Notes G w (Watched.executeAll (n + 1) body) := by
  cases body with
  | nil => exact .pure _
  | cons s rest =>
    refine .bind ((Watched.erasesAt n).execute s) (h.execute s (hG.starts .head))
      fun flow w₁ hhead => ?_
    cases flow with
    | normal => exact h.executeAll rest (hG.starts (.tail hhead))
    | _ => exact .pure _

lemma succ_repeatWhile (h : NotesAt G n) (condition : Expr) (body : Stmt)
    (hG : Activity.FollowsOnly G ⟨n + 1, .repeatWhile condition body, w.machine⟩) :
    Notes G w (Watched.repeatWhile (n + 1) condition body) := by
  refine h.afterExpr (hG.starts .whileCondition) fun value w₁ hcondition =>
    .ite (fun htrue => ?_) fun _ => .pure _
  refine .bind ((Watched.erasesAt n).execute body)
    (h.execute body (hG.starts (.round hcondition htrue))) fun flow w₂ hround => ?_
  cases flow with
  | normal => exact h.repeatWhile condition body (hG.starts (.again hcondition htrue hround))
  | _ => exact .pure _

end NotesAt

/-- Runs note what their activities follow, whatever fuel they have. -/
lemma notesAt (G : Reference → Machine → Prop) (n : Nat) : NotesAt G n := by
  induction n with
  | zero => refine ⟨?_, ?_, ?_, ?_, ?_, ?_, ?_⟩ <;> intros <;> exact .quietly _
  | succ n ih =>
    exact ⟨ih.succ_evaluate, ih.succ_evaluateAll, ih.succ_invoke, ih.succ_call, ih.succ_execute,
      ih.succ_executeAll, ih.succ_repeatWhile⟩

/-! ## Programs -/

lemma notes_runProgram {G : Reference → Machine → Prop} {w : Watch} (fuel : Nat)
    (program : List Stmt) (hG : ∀ links a reference m, Underway fuel program w.machine links a →
      a.Follows reference m → G reference m) : Notes G w (Watched.runProgram fuel program) := by
  induction program generalizing w with
  | nil => exact .pure _
  | cons s rest ih =>
    have hs : Activity.FollowsOnly G ⟨fuel, .execute s, w.machine⟩ := fun links a ha reference m =>
      hG links a reference m ⟨[], s, rest, w.machine, rfl, rfl, ha⟩
    refine .bind ((Watched.erasesAt fuel).execute s) ((notesAt G fuel).execute s hs)
      fun flow w₁ hrun => ih fun links a reference m ha => ?_
    obtain ⟨before, s', later, m₁, rfl, hbefore, hreaches⟩ := ha
    refine hG links a reference m ⟨s :: before, s', later, m₁, rfl, ?_, hreaches⟩
    rw [runProgram, Effect.run_bind, hrun]
    exact hbefore

/-- **Every reference that is noted in the run of a program** was followed by an activity that was
under way. -/
lemma exists_notes_runProgram (w : Watch) (fuel : Nat) (program : List Stmt) :
    ∃ added, (Watched.runProgram fuel program w).2.trace = w.trace ++ added ∧
      ∀ reference m, .followed reference m ∈ added →
        ∃ links a, Underway fuel program w.machine links a ∧ a.Follows reference m :=
  notes_runProgram fuel program fun links a _ _ ha hfollows => ⟨links, a, ha, hfollows⟩

end LoxLang
