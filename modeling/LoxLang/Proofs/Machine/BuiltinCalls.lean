import LoxLang.Proofs.Machine.Activity
import LoxLang.Proofs.Store.Closed

/-!
# The builtin calls of a run

A run calls builtins, and the calls come in an order.  `Task.started` lists what a task starts, each
on the machine that the ones before it have left, and the calls of a task are those of everything
that it starts, one after the other (`Task.builtinCalls`).  So the calls of a task are a list that
can be computed, and they are the calls of builtins that are under way at some moment
(`mem_programCalls_iff`).

Between two calls a run may do anything to the store but change a list: that is the only thing that
no statement does by itself (`Played`).  The receiver of every call exists, since what a run can get
hold of in a closed store refers to instances of the store (`Plays`).
-/

namespace LoxLang

/-! ## Calls -/

/-- Looking at an element changes nothing. -/
lemma Builtin.snd_call_arrayGet (receiver : Option InstanceId) (arguments : List Value)
    (paren : Token) (m : Machine) : (Builtin.arrayGet.call receiver arguments paren m).2 = m := by
  cases receiver with
  | none => rfl
  | some id =>
    rcases hargument : arguments.head? with _ | _ | _ | x | _ | _ | _
    all_goals simp only [call, onReceiver, hargument, Effect.raise, elementAt]
    split <;> rfl

/-- A call of a builtin on a machine. -/
structure BuiltinCall where
  builtin : Builtin
  /-- The instance that the builtin was bound to when it was looked up. -/
  receiver : Option InstanceId
  arguments : List Value
  paren : Token
  machine : Machine

namespace BuiltinCall

/-- How the call ends. -/
def outcome (c : BuiltinCall) : Outcome Value :=
  (c.builtin.call c.receiver c.arguments c.paren c.machine).1

/-- The machine after the call. -/
def after (c : BuiltinCall) : Machine :=
  (c.builtin.call c.receiver c.arguments c.paren c.machine).2

/-- The receiver exists.  Only the clock needs none. -/
def HasReceiver (c : BuiltinCall) : Prop :=
  c.builtin = .clock ∨ ∃ id, c.receiver = some id ∧ id < c.machine.store.instances.size

/-- **A call leaves the store alone, or changes the elements of its receiver**, to some of those
that it had and the first argument. -/
lemma store_after (c : BuiltinCall) : c.after.store = c.machine.store ∨
    (c.builtin = .arrayPush ∨ c.builtin = .arrayPop) ∧
      ∃ id f, c.receiver = some id ∧ c.after.store = c.machine.store.updateElements id f ∧
        ∀ elements, ∀ v ∈ f elements, v ∈ elements ∨ v = c.arguments.head?.getD .nil := by
  obtain ⟨b, receiver, arguments, paren, m⟩ := c
  have hread := calm_readPrompted paren arguments
  cases b with
  | clock => exact .inl rfl
  | inputString =>
    have hcalm := hread.bind fun line _ =>
      (.pure trivial : (pure (.string line) : Effect Value).Calm fun _ => True)
    exact .inl (hcalm m).1
  | inputNumber =>
    have hcalm := hread.bind fun line _ => calm_numberOfLine paren line
    exact .inl (hcalm m).1
  | arrayGet => exact .inl (congrArg Machine.store (Builtin.snd_call_arrayGet _ _ _ _))
  | arrayLength =>
    left
    cases receiver <;> rfl
  | arrayPush =>
    cases receiver with
    | none => exact .inl rfl
    | some id =>
      refine .inr ⟨.inl rfl, id, (·.push (arguments.head?.getD .nil)), rfl, rfl,
        fun elements v hv => ?_⟩
      exact Array.mem_push.mp hv
  | arrayPop =>
    cases receiver with
    | none => exact .inl rfl
    | some id =>
      refine .inr ⟨.inr rfl, id, Array.pop, rfl, rfl, fun elements v hv => .inl ?_⟩
      rw [← Array.mem_toList_iff, Array.toList_pop] at hv
      exact Array.mem_toList_iff.mp (List.dropLast_subset _ hv)

end BuiltinCall

/-! ## What a task starts -/

/-- What comes after an effect that gives a result; nothing comes after another end. -/
def Effect.onResult {α β : Type} (x : Effect α) (m : Machine) (f : α → Machine → List β) :
    List β :=
  match x m with
  | (.ok a, m₁) => f a m₁
  | _ => []

/-- What is bound comes from a first result. -/
lemma Effect.ok_of_bind {α β : Type} {x : Effect α} {f : α → Effect β} {m : Machine} {b : β}
    (h : ((x >>= f) m).1 = .ok b) : ∃ a m₁, x m = (.ok a, m₁) ∧ (f a m₁).1 = .ok b := by
  rw [Effect.run_bind] at h
  split at h
  · next a m₁ hrun => exact ⟨a, m₁, hrun, h⟩
  all_goals cases h

lemma Effect.onResult_of_eq {α β : Type} {x : Effect α} {m m₁ : Machine} {a : α}
    (h : x m = (.ok a, m₁)) (f : α → Machine → List β) : x.onResult m f = f a m₁ := by
  rw [onResult, h]

lemma Effect.onResult_nil {α β : Type} (x : Effect α) (m : Machine) :
    (x.onResult m fun _ _ => ([] : List β)) = [] := by
  unfold onResult
  split <;> rfl

lemma Effect.mem_onResult {α β : Type} {x : Effect α} {m : Machine} {f : α → Machine → List β}
    {b : β} : b ∈ x.onResult m f ↔ ∃ a m₁, x m = (.ok a, m₁) ∧ b ∈ f a m₁ := by
  unfold onResult
  split
  · next a m₁ hrun => simp [hrun]
  · next hrun =>
    simp only [List.not_mem_nil, false_iff, not_exists, not_and]
    exact fun a m₁ h => absurd h (hrun a m₁)

@[simp] lemma Effect.flatMap_onResult {α β γ : Type} (x : Effect α) (m : Machine)
    (f : α → Machine → List β) (g : β → List γ) :
    (x.onResult m f).flatMap g = x.onResult m fun a m₁ => (f a m₁).flatMap g := by
  unfold onResult
  split <;> rfl

namespace Task

open Effect (onResult)

/-- **What a task starts**, with `n` units of fuel for each, in order. -/
def started (n : ℕ) (m : Machine) : Task → List (Task × Machine)
  | .evaluate e =>
    match e with
    | .literal _ | .variable _ _ | .this _ _ | .super _ _ _ => []
    | .grouping e | .unary _ e | .assign _ _ e | .get e _ => [(.evaluate e, m)]
    | .binary left _ right =>
      (.evaluate left, m) ::
        onResult (LoxLang.evaluate n left) m fun _ m₁ => [(.evaluate right, m₁)]
    | .logical left operator right =>
      (.evaluate left, m) :: onResult (LoxLang.evaluate n left) m fun a m₁ =>
        if isDecided operator a then [] else [(.evaluate right, m₁)]
    | .call callee paren arguments =>
      (.evaluate callee, m) :: onResult (LoxLang.evaluate n callee) m fun c m₁ =>
        (.evaluateAll arguments, m₁) :: onResult (LoxLang.evaluateAll n arguments) m₁
          fun values m₂ => [(.invoke c values paren, m₂)]
    | .set object _ value =>
      (.evaluate object, m) :: onResult (LoxLang.evaluate n object) m fun target m₁ =>
        match target with
        | .object _ => [(.evaluate value, m₁)]
        | _ => []
  | .evaluateAll [] => []
  | .evaluateAll (e :: rest) =>
    (.evaluate e, m) :: onResult (LoxLang.evaluate n e) m fun _ m₁ => [(.evaluateAll rest, m₁)]
  | .invoke value arguments paren =>
    match value with
    | .callable c =>
      if arguments.length ≠ c.arity ∨ m.limit ≤ m.depth then []
      else [(.call c arguments paren, { m with depth := m.depth + 1 })]
    | _ => []
  | .call c arguments paren =>
    match c with
    | .builtin _ _ _ => []
    | .function _ closure =>
      onResult (Effect.addFrame (bindParameters closure.decl.params arguments)) m fun frame m₁ =>
        [(.executeAll closure.decl.body, { m₁ with scope := frame :: closure.scope })]
    | .cls c =>
      onResult (Effect.addInstance c) m fun id m₁ =>
        match c.lookup? initializerName with
        | none => []
        | some method => onResult (Effect.bindMethod method id) m₁ fun initializer m₂ =>
          [(.call initializer arguments paren, m₂)]
  | .execute s =>
    match s with
    | .var _ none | .breakLoop _ | .returnValue _ none | .function _ | .classDecl _ none _ => []
    | .expression e | .print e | .var _ (some e) | .returnValue _ (some e) => [(.evaluate e, m)]
    | .block body =>
      onResult (Effect.addFrame .empty) m fun frame m₁ =>
        [(.executeAll body, { m₁ with scope := frame :: m₁.scope })]
    | .ifThen condition thenBranch elseBranch =>
      (.evaluate condition, m) :: onResult (LoxLang.evaluate n condition) m fun value m₁ =>
        if value.isTruthy then [(.execute thenBranch, m₁)]
        else (elseBranch.map fun s => (.execute s, m₁)).toList
    | .whileLoop condition body => [(.repeatWhile condition body, m)]
    | .classDecl name (some e) _ =>
      onResult (Effect.define name.lexeme .nil) m fun _ m₁ => [(.evaluate e, m₁)]
  | .executeAll [] => []
  | .executeAll (s :: rest) =>
    (.execute s, m) :: onResult (LoxLang.execute n s) m fun flow m₁ =>
      match flow with
      | .normal => [(.executeAll rest, m₁)]
      | _ => []
  | .repeatWhile condition body =>
    (.evaluate condition, m) :: onResult (LoxLang.evaluate n condition) m fun value m₁ =>
      if value.isTruthy then
        (.execute body, m₁) :: onResult (LoxLang.execute n body) m₁ fun flow m₂ =>
          match flow with
          | .normal => [(.repeatWhile condition body, m₂)]
          | _ => []
      else []

/-- The call that a task is itself. -/
def ownCalls (m : Machine) : Task → List BuiltinCall
  | .call (.builtin _ b receiver) arguments paren => [⟨b, receiver, arguments, paren, m⟩]
  | _ => []

/-- **The builtin calls of a task**, in order. -/
def builtinCalls : ℕ → Machine → Task → List BuiltinCall
  | 0, _, _ => []
  | n + 1, m, task =>
    task.ownCalls m ++ (task.started n m).flatMap fun next => builtinCalls n next.2 next.1

/-- Unless a task is a call itself, its calls are those of what it starts. -/
lemma builtinCalls_succ {n : ℕ} {m : Machine} {task : Task} (hown : task.ownCalls m = []) :
    task.builtinCalls (n + 1) m =
      (task.started n m).flatMap fun next => builtinCalls n next.2 next.1 := by
  rw [builtinCalls, hown, List.nil_append]

end Task

/-- **The builtin calls of a program**, in order. -/
def programCalls (fuel : ℕ) : List Stmt → Machine → List BuiltinCall
  | [], _ => []
  | s :: rest, m =>
    Task.builtinCalls fuel m (.execute s) ++
      (execute fuel s).onResult m fun _ m₁ => programCalls fuel rest m₁

/-! ## The listed calls are those under way -/

section Listed

variable {n : ℕ} {m m' : Machine} {task t : Task}

/-- A task starts everything that is listed. -/
lemma Task.starts_of_mem_started (h : (t, m') ∈ task.started n m) :
    ∃ link, Activity.Starts ⟨n + 1, task, m⟩ link ⟨n, t, m'⟩ := by
  cases task with
  | evaluate e =>
    cases e with
    | literal | «variable» | this | super => simp [started] at h
    | grouping | unary | assign | get =>
      simp only [started, List.mem_singleton, Prod.mk.injEq] at h
      obtain ⟨rfl, rfl⟩ := h
      exact ⟨_, by constructor⟩
    | binary left operator right =>
      simp only [started, List.mem_cons, Effect.mem_onResult, List.not_mem_nil, or_false,
        Prod.mk.injEq] at h
      rcases h with ⟨rfl, rfl⟩ | ⟨a, m₁, hleft, rfl, rfl⟩
      · exact ⟨_, .binaryLeft⟩
      · exact ⟨_, .binaryRight hleft⟩
    | logical left operator right =>
      simp only [started, List.mem_cons, Effect.mem_onResult, Prod.mk.injEq] at h
      rcases h with ⟨rfl, rfl⟩ | ⟨a, m₁, hleft, h⟩
      · exact ⟨_, .logicalLeft⟩
      · split at h
        · cases h
        · next hopen =>
          obtain ⟨rfl, rfl⟩ := Prod.mk.inj (List.mem_singleton.mp h)
          exact ⟨_, .logicalRight hleft (Bool.eq_false_iff.mpr hopen)⟩
    | call callee paren arguments =>
      simp only [started, List.mem_cons, Effect.mem_onResult, List.not_mem_nil, or_false,
        Prod.mk.injEq] at h
      rcases h with ⟨rfl, rfl⟩ | ⟨c, m₁, hcallee, ⟨rfl, rfl⟩ | ⟨values, m₂, hvalues, rfl, rfl⟩⟩
      · exact ⟨_, .callee⟩
      · exact ⟨_, .arguments hcallee⟩
      · exact ⟨_, .invoke hcallee hvalues⟩
    | set object name value =>
      simp only [started, List.mem_cons, Effect.mem_onResult, Prod.mk.injEq] at h
      rcases h with ⟨rfl, rfl⟩ | ⟨target, m₁, hobject, h⟩
      · exact ⟨_, .setObject⟩
      · cases target with
        | object id =>
          obtain ⟨rfl, rfl⟩ := Prod.mk.inj (List.mem_singleton.mp h)
          exact ⟨_, .setValue hobject⟩
        | _ => cases h
  | evaluateAll es =>
    cases es with
    | nil => cases h
    | cons e rest =>
      simp only [started, List.mem_cons, Effect.mem_onResult, List.not_mem_nil, or_false,
        Prod.mk.injEq] at h
      rcases h with ⟨rfl, rfl⟩ | ⟨first, m₁, hfirst, rfl, rfl⟩
      · exact ⟨_, .first⟩
      · exact ⟨_, .others hfirst⟩
  | invoke value arguments paren =>
    cases value with
    | callable c =>
      simp only [started] at h
      split at h
      · cases h
      · next hroom =>
        simp only [not_or, not_not, not_le] at hroom
        obtain ⟨rfl, rfl⟩ := Prod.mk.inj (List.mem_singleton.mp h)
        exact ⟨_, .enter hroom.1 hroom.2⟩
    | _ => cases h
  | call c arguments paren =>
    cases c with
    | builtin => cases h
    | function stamp closure =>
      simp only [started, Effect.mem_onResult, List.mem_singleton, Prod.mk.injEq] at h
      obtain ⟨frame, m₁, hframe, rfl, rfl⟩ := h
      exact ⟨_, .body hframe⟩
    | cls c =>
      simp only [started, Effect.mem_onResult] at h
      obtain ⟨id, m₁, hid, h⟩ := h
      split at h
      · cases h
      · next method hmethod =>
        simp only [Effect.mem_onResult, List.mem_singleton, Prod.mk.injEq] at h
        obtain ⟨initializer, m₂, hbound, rfl, rfl⟩ := h
        exact ⟨_, .construct hid hmethod hbound⟩
  | execute s =>
    cases s with
    | breakLoop | function => cases h
    | expression | print | whileLoop =>
      obtain ⟨rfl, rfl⟩ := Prod.mk.inj (List.mem_singleton.mp h)
      exact ⟨_, by constructor⟩
    | var name e | returnValue name e =>
      cases e with
      | none => cases h
      | some e =>
        obtain ⟨rfl, rfl⟩ := Prod.mk.inj (List.mem_singleton.mp h)
        exact ⟨_, by constructor⟩
    | block body =>
      simp only [started, Effect.mem_onResult, List.mem_singleton, Prod.mk.injEq] at h
      obtain ⟨frame, m₁, hframe, rfl, rfl⟩ := h
      exact ⟨_, .block hframe⟩
    | ifThen condition thenBranch elseBranch =>
      simp only [started, List.mem_cons, Effect.mem_onResult, Prod.mk.injEq] at h
      rcases h with ⟨rfl, rfl⟩ | ⟨value, m₁, hcondition, h⟩
      · exact ⟨_, .condition⟩
      · split at h
        · next htrue =>
          obtain ⟨rfl, rfl⟩ := Prod.mk.inj (List.mem_singleton.mp h)
          exact ⟨_, .thenBranch hcondition htrue⟩
        · next hfalse =>
          cases elseBranch with
          | none => cases h
          | some s =>
            obtain ⟨rfl, rfl⟩ := Prod.mk.inj (List.mem_singleton.mp h)
            exact ⟨_, .elseBranch hcondition (Bool.eq_false_iff.mpr hfalse)⟩
    | classDecl name superclass methods =>
      cases superclass with
      | none => cases h
      | some e =>
        simp only [started, Effect.mem_onResult, List.mem_singleton, Prod.mk.injEq] at h
        obtain ⟨_, m₁, hname, rfl, rfl⟩ := h
        exact ⟨_, .superclass hname⟩
  | executeAll body =>
    cases body with
    | nil => cases h
    | cons s rest =>
      simp only [started, List.mem_cons, Effect.mem_onResult, Prod.mk.injEq] at h
      rcases h with ⟨rfl, rfl⟩ | ⟨flow, m₁, hhead, h⟩
      · exact ⟨_, .head⟩
      · cases flow with
        | normal =>
          obtain ⟨rfl, rfl⟩ := Prod.mk.inj (List.mem_singleton.mp h)
          exact ⟨_, .tail hhead⟩
        | _ => cases h
  | repeatWhile condition body =>
    simp only [started, List.mem_cons, Effect.mem_onResult, Prod.mk.injEq] at h
    rcases h with ⟨rfl, rfl⟩ | ⟨value, m₁, hcondition, h⟩
    · exact ⟨_, .whileCondition⟩
    · split at h
      · next htrue =>
        simp only [List.mem_cons, Effect.mem_onResult, Prod.mk.injEq] at h
        rcases h with ⟨rfl, rfl⟩ | ⟨flow, m₂, hround, h⟩
        · exact ⟨_, .round hcondition htrue⟩
        · cases flow with
          | normal =>
            obtain ⟨rfl, rfl⟩ := Prod.mk.inj (List.mem_singleton.mp h)
            exact ⟨_, .again hcondition htrue hround⟩
          | _ => cases h
      · cases h

/-- Everything that a task starts is listed. -/
lemma Task.mem_started_of_starts {a : Activity} {link : Link}
    (h : Activity.Starts ⟨n + 1, task, m⟩ link a) :
    a.fuel = n ∧ (a.task, a.machine) ∈ task.started n m := by
  cases h with
  | binaryRight h | arguments h | setValue h | others h | body h | block h | superclass h
  | tail h => simp [started, Effect.onResult_of_eq h]
  | logicalRight h htest | thenBranch h htest | elseBranch h htest | round h htest =>
    simp [started, Effect.onResult_of_eq h, htest]
  | invoke hcallee harguments =>
    simp [started, Effect.onResult_of_eq hcallee, Effect.onResult_of_eq harguments]
  | again hcondition htrue hround =>
    simp [started, Effect.onResult_of_eq hcondition, htrue, Effect.onResult_of_eq hround]
  | construct hid hmethod hbound =>
    simp [started, Effect.onResult_of_eq hid, hmethod, Effect.onResult_of_eq hbound]
  | enter harity hroom => simp [started, harity, hroom]
  | _ => simp [started]

/-- The calls of what a task leads to are among its own. -/
lemma Activity.Reaches.builtinCalls_subset {a b : Activity} {links : List Link}
    (h : a.Reaches links b) :
    b.task.builtinCalls b.fuel b.machine ⊆ a.task.builtinCalls a.fuel a.machine := by
  induction h with
  | here => exact List.Subset.refl _
  | @start links link b c hb hc ih =>
    obtain ⟨fuel, task, m⟩ := b
    refine List.Subset.trans ?_ ih
    cases fuel with
    | zero => cases hc
    | succ n =>
      obtain ⟨rfl, hmem⟩ := Task.mem_started_of_starts hc
      intro call hcall
      exact List.mem_append_right _ (List.mem_flatMap.mpr ⟨_, hmem, hcall⟩)

/-- A task leads to each of its calls. -/
lemma Task.reaches_of_mem_builtinCalls {c : BuiltinCall} (h : c ∈ task.builtinCalls n m) :
    ∃ links k stamp, Activity.Reaches ⟨n, task, m⟩ links
      ⟨k + 1, .call (.builtin stamp c.builtin c.receiver) c.arguments c.paren, c.machine⟩ := by
  induction n generalizing task m with
  | zero => cases h
  | succ n ih =>
    rcases List.mem_append.mp h with hown | hstarted
    · unfold ownCalls at hown
      split at hown
      · next stamp b receiver arguments paren =>
        cases List.mem_singleton.mp hown
        exact ⟨[], n, stamp, .here⟩
      · cases hown
    · obtain ⟨⟨t, m'⟩, hmem, hcall⟩ := List.mem_flatMap.mp hstarted
      obtain ⟨link, hlink⟩ := Task.starts_of_mem_started hmem
      obtain ⟨links, k, stamp, hreaches⟩ := ih hcall
      exact ⟨links ++ [link], k, stamp, .cons hlink hreaches⟩

/-- **The listed calls are the calls of builtins that are under way** at some moment of the run. -/
theorem mem_programCalls_iff {fuel : ℕ} {program : List Stmt} {c : BuiltinCall} :
    c ∈ programCalls fuel program m ↔ ∃ links k stamp, Underway fuel program m links
      ⟨k + 1, .call (.builtin stamp c.builtin c.receiver) c.arguments c.paren, c.machine⟩ := by
  constructor
  · intro h
    induction program generalizing m with
    | nil => cases h
    | cons s rest ih =>
      rcases List.mem_append.mp h with hfirst | hrest
      · obtain ⟨links, k, stamp, hreaches⟩ := Task.reaches_of_mem_builtinCalls hfirst
        exact ⟨links, k, stamp, [], s, rest, m, rfl, rfl, hreaches⟩
      · obtain ⟨flow, m₁, hrun, hc⟩ := Effect.mem_onResult.mp hrest
        obtain ⟨links, k, stamp, before, s', rest', m₂, hprogram, hbefore, hreaches⟩ := ih hc
        refine ⟨links, k, stamp, s :: before, s', rest', m₂, by rw [hprogram]; rfl, ?_, hreaches⟩
        rw [runProgram, Effect.run_bind, hrun]
        exact hbefore
  · rintro ⟨links, k, stamp, before, s, rest, m₁, rfl, hbefore, hreaches⟩
    have hlisted : c ∈ Task.builtinCalls fuel m₁ (.execute s) :=
      hreaches.builtinCalls_subset (List.mem_append_left _ (List.mem_singleton.mpr rfl))
    induction before generalizing m with
    | nil =>
      cases hbefore
      exact List.mem_append_left _ hlisted
    | cons first before ih =>
      rw [runProgram, Effect.run_bind] at hbefore
      split at hbefore
      · next flow m₂ hrun =>
        exact List.mem_append_right _ (Effect.mem_onResult.mpr ⟨flow, m₂, hrun, ih hbefore⟩)
      all_goals cases hbefore

end Listed

/-! ## What happens to lists between calls -/

/-- **A store plays calls and becomes another store**: the calls are made one after the other, and
what happens between them changes no list. -/
inductive Played : Store → List BuiltinCall → Store → Prop
  | quiet {s s' : Store} (hsize : s.instances.size ≤ s'.instances.size)
      (helements : ∀ id, s'.elements id = s.elements id) : Played s [] s'
  | call (c : BuiltinCall) (hreceiver : c.HasReceiver) :
      Played c.machine.store [c] c.after.store
  | append {s s₁ s' : Store} {calls calls' : List BuiltinCall} (h : Played s calls s₁)
      (h' : Played s₁ calls' s') : Played s (calls ++ calls') s'

lemma Played.refl (s : Store) : Played s [] s := .quiet (Nat.le_refl _) fun _ => rfl

/-- No instance is lost in a call. -/
lemma BuiltinCall.size_after (c : BuiltinCall) :
    c.after.store.instances.size = c.machine.store.instances.size := by
  rcases c.store_after with hsame | ⟨-, id, f, -, hstore, -⟩
  · rw [hsame]
  · rw [hstore]
    simp [Store.updateElements]

lemma Played.size_le {s s' : Store} {calls : List BuiltinCall} (h : Played s calls s') :
    s.instances.size ≤ s'.instances.size := by
  induction h with
  | quiet hsize => exact hsize
  | call c => exact Nat.le_of_eq c.size_after.symm
  | append _ _ ih ih' => exact Nat.le_trans ih ih'

/-- The instances that a flow carries a reference to are among the first `n`. -/
def Flow.RefersBelow (n : ℕ) : Flow → Prop
  | .returned value => value.RefersBelow n
  | _ => True

/-- **An effect plays calls**: they are made while it runs, the store is closed afterwards, and the
result has a property that depends on how many instances there are. -/
structure Plays {α : Type} (m : Machine) (x : Effect α) (calls : List BuiltinCall)
    (Q : ℕ → α → Prop) : Prop where
  played : Played m.store calls (x m).2.store
  closed : (x m).2.store.Closed
  result : ∀ a, (x m).1 = .ok a → Q (x m).2.store.instances.size a

namespace Plays

variable {α β : Type} {m : Machine} {x : Effect α} {calls : List BuiltinCall} {Q : ℕ → α → Prop}
  {R : ℕ → β → Prop}

/-! ### Rules -/

lemma pure (hm : m.store.Closed) {a : α} (ha : Q m.store.instances.size a) :
    Plays m (Pure.pure a) [] Q :=
  ⟨.refl _, hm, fun _ h => by cases h; exact ha⟩

/-- An effect that leaves the store alone and gives nothing. -/
lemma raise (hm : m.store.Closed) (token : Token) (cause : RuntimeCause) :
    Plays m (Effect.raise token cause) [] Q := ⟨.refl _, hm, nofun⟩

lemma exhausted (hm : m.store.Closed) : Plays m Effect.exhausted [] Q := ⟨.refl _, hm, nofun⟩

lemma calm (hm : m.store.Closed) {P : α → Prop} (hx : x.Calm P) :
    Plays m x [] fun _ a => P a := by
  obtain ⟨hstore, -, -, hend⟩ := hx m
  refine ⟨by rw [hstore]; exact .refl _, by rwa [hstore], fun a ha => ?_⟩
  rwa [ha] at hend

/-- Of two effects both make calls. -/
lemma bind {f : α → Effect β} {rest : α → Machine → List BuiltinCall} (hx : Plays m x calls Q)
    (hf : ∀ a m₁, m₁.store.Closed → m.store.instances.size ≤ m₁.store.instances.size →
      Q m₁.store.instances.size a → Plays m₁ (f a) (rest a m₁) R) :
    Plays m (x >>= f) (calls ++ x.onResult m rest) R := by
  obtain ⟨hplayed, hclosed, hresult⟩ := hx
  rcases hrun : x m with ⟨a | _ | _ | _, m₁⟩
  all_goals rw [hrun] at hplayed hclosed hresult
  · have hnext := hf a m₁ hclosed hplayed.size_le (hresult a rfl)
    rw [Effect.onResult_of_eq hrun]
    constructor
    all_goals rw [Effect.run_bind, hrun]
    · exact hplayed.append hnext.played
    · exact hnext.closed
    · exact hnext.result
  all_goals
    rw [Effect.onResult, hrun, List.append_nil]
    constructor
    all_goals rw [Effect.run_bind, hrun]
    · exact hplayed
    · exact hclosed
    · exact nofun

/-- Of two effects only the second makes calls. -/
lemma quietBind {f : α → Effect β} {rest : α → Machine → List BuiltinCall} (hx : Plays m x [] Q)
    (hf : ∀ a m₁, m₁.store.Closed → m.store.instances.size ≤ m₁.store.instances.size →
      Q m₁.store.instances.size a → Plays m₁ (f a) (rest a m₁) R) :
    Plays m (x >>= f) (x.onResult m rest) R := hx.bind hf

/-- Of two effects only the first makes calls. -/
lemma bindQuiet {f : α → Effect β} (hx : Plays m x calls Q)
    (hf : ∀ a m₁, m₁.store.Closed → m.store.instances.size ≤ m₁.store.instances.size →
      Q m₁.store.instances.size a → Plays m₁ (f a) [] R) : Plays m (x >>= f) calls R := by
  have h := hx.bind hf
  rwa [Effect.onResult_nil, List.append_nil] at h

/-- An effect does what another one does on this machine. -/
lemma of_eq {y : Effect α} (hrun : x m = y m) (hy : Plays m y calls Q) : Plays m x calls Q := by
  obtain ⟨hplayed, hclosed, hresult⟩ := hy
  rw [← hrun] at hplayed hclosed hresult
  exact ⟨hplayed, hclosed, hresult⟩

lemma within (scope : Scope) (hx : Plays { m with scope := scope } x calls Q) :
    Plays m (Effect.within scope x) calls Q := ⟨hx.played, hx.closed, hx.result⟩

lemma deeper (hx : Plays { m with depth := m.depth + 1 } x calls Q) :
    Plays m (Effect.deeper x) calls Q := ⟨hx.played, hx.closed, hx.result⟩

/-! ### Effects -/

section Effects

/-- An effect that changes no list. -/
lemma quiet (hclosed : (x m).2.store.Closed)
    (hsize : m.store.instances.size ≤ (x m).2.store.instances.size)
    (helements : ∀ id, (x m).2.store.elements id = m.store.elements id)
    (hresult : ∀ a, (x m).1 = .ok a → Q (x m).2.store.instances.size a) : Plays m x [] Q :=
  ⟨.quiet hsize helements, hclosed, hresult⟩

variable (hm : m.store.Closed)

include hm

lemma scope : Plays m Effect.scope [] fun _ _ => True :=
  .quiet hm (Nat.le_refl _) (fun _ => rfl) fun _ _ => trivial

lemma freshStamp : Plays m Effect.freshStamp [] fun _ _ => True :=
  .quiet hm.freshStamp (Nat.le_refl _) (fun _ => rfl) fun _ _ => trivial

lemma addFrame {bindings : Bindings Value} (hbindings : ∀ name value,
    bindings.find? name = some value → value.RefersBelow m.store.instances.size) :
    Plays m (Effect.addFrame bindings) [] fun _ _ => True :=
  .quiet (hm.addFrame hbindings) (Nat.le_refl _) (fun _ => rfl) fun _ _ => trivial

lemma define (name : String) (value : Value) (hvalue : value.RefersBelow m.store.instances.size) :
    Plays m (Effect.define name value) [] fun _ _ => True := by
  have hinstances : (m.store.define m.scope name value).instances = m.store.instances := by
    cases m.scope <;> rfl
  refine .quiet (hm.define m.scope name hvalue) ?_ (fun id => ?_) fun _ _ => trivial
  · exact Nat.le_of_eq (congrArg Array.size hinstances.symm)
  · show (m.store.define m.scope name value).elements id = m.store.elements id
    rw [Store.elements, hinstances, Store.elements]

lemma setField (id : InstanceId) (name : String) {value : Value}
    (hvalue : value.RefersBelow m.store.instances.size) :
    Plays m (Effect.setField id name value) [] fun _ _ => True :=
  .quiet (hm.setField id name hvalue) (by simp [Effect.setField, Store.setField])
    (m.store.elements_setField id name value) fun _ _ => trivial

lemma addInstance (c : Class) : Plays m (Effect.addInstance c) [] fun n id => id < n := by
  refine .quiet (hm.addInstance c) (by simp [Effect.addInstance, Store.addInstance])
    (m.store.elements_addInstance c) fun id hid => ?_
  cases hid
  simp [Effect.addInstance, Store.addInstance]

lemma bindMethod (method : Method) {id : InstanceId} (hid : id < m.store.instances.size) :
    Plays m (Effect.bindMethod method id) [] Callable.RefersBelow := by
  have hinstances : (m.store.bindMethod method id).2.instances = m.store.instances := by
    cases method <;> rfl
  refine .quiet (hm.bindMethod method hid) ?_ (fun other => ?_) fun c hc => ?_
  · exact Nat.le_of_eq (congrArg Array.size hinstances.symm)
  · show (m.store.bindMethod method id).2.elements other = m.store.elements other
    rw [Store.elements, hinstances, Store.elements]
  · show c.RefersBelow (m.store.bindMethod method id).2.instances.size
    rw [hinstances]
    cases method with
    | builtin b =>
      cases hc
      exact hid
    | declared closure =>
      cases hc
      trivial

/-- What a closed store binds refers to its instances. -/
lemma readAt (scope : Scope) (d : ℕ) (name : String) :
    Plays m (Effect.readAt scope d name) [] Value.RefersBelow := by
  have hsame := Effect.snd_readAt scope d name m
  refine .quiet (by rwa [hsame]) (by rw [hsame]) (fun _ => by rw [hsame]) fun value hvalue => ?_
  obtain ⟨frame, hframe⟩ := Effect.exists_of_readAt (Prod.ext hvalue hsame)
  rw [hsame]
  exact hm.frames frame name value hframe

lemma readRef (ref : RefId) (name : Token) :
    Plays m (Effect.readRef ref name) [] Value.RefersBelow := by
  have hsame := Effect.snd_readRef ref name m
  refine .quiet (by rwa [hsame]) (by rw [hsame]) (fun _ => by rw [hsame]) fun value hvalue => ?_
  obtain ⟨frame, hframe⟩ := Effect.exists_of_readRef (Prod.ext hvalue hsame)
  rw [hsame]
  exact hm.frames frame name.lexeme value hframe

lemma writeRef (ref : RefId) (name : Token) {value : Value}
    (hvalue : value.RefersBelow m.store.instances.size) :
    Plays m (Effect.writeRef ref name value) [] fun _ _ => True := by
  have hbind : ∀ frame, Plays m (Effect.onStore fun s =>
      ((), s.bindIn frame name.lexeme value)) [] fun _ _ => True := fun _ =>
    .quiet (hm.bindIn _ _ hvalue) (Nat.le_refl _) (fun _ => rfl) fun _ _ => trivial
  cases hdistance : m.distances.find? ref with
  | some d =>
    cases hframe : m.store.frameAt m.scope d name.lexeme with
    | ok frame =>
      refine .of_eq ?_ (hbind frame)
      simp only [Effect.writeRef, hdistance, Effect.writeAt, hframe]
    | error fault =>
      refine .of_eq (y := fun m => (.fault fault, m)) ?_ ⟨.refl _, hm, fun _ h => by cases h⟩
      simp only [Effect.writeRef, hdistance, Effect.writeAt, hframe]
  | none =>
    cases hframe : m.store.frameOf? name.lexeme globalScope with
    | some frame =>
      refine .of_eq ?_ (hbind frame)
      simp only [Effect.writeRef, hdistance, Effect.writeGlobal, hframe]
    | none =>
      refine .of_eq ?_ (.raise hm name (.undefinedVariable name.lexeme))
      simp only [Effect.writeRef, hdistance, Effect.writeGlobal, hframe, Effect.raise]

lemma property {id : InstanceId} (hid : id < m.store.instances.size) (name : Token) :
    Plays m (Effect.property id name) [] Value.RefersBelow := by
  cases hfield : (m.store.fields id).find? name.lexeme with
  | some value =>
    refine .of_eq ?_ (.pure hm (hm.fields id name.lexeme value hfield))
    simp only [Effect.property, hfield, Effect.run_pure]
  | none =>
    cases hmethod : (m.store.instances[id]?).bind fun i => i.cls.lookup? name.lexeme with
    | some method =>
      refine .of_eq (y := Effect.bindMethod method id >>= fun c => Pure.pure (.callable c)) ?_
        ((bindMethod hm method hid).bindQuiet fun c m₁ h₁ _ hc => .pure h₁ hc)
      simp only [Effect.property, hfield, hmethod]
      rfl
    | none =>
      refine .of_eq ?_ (.raise hm name (.undefinedProperty name.lexeme))
      simp only [Effect.property, hfield, hmethod, Effect.raise]

lemma superMethod (ref : RefId) (keyword method : Token) :
    Plays m (LoxLang.superMethod ref keyword method) [] Value.RefersBelow := by
  have hdistance : Plays m (Effect.distance? ref) [] fun _ _ => True :=
    .quiet hm (Nat.le_refl _) (fun _ => rfl) fun _ _ => trivial
  refine hdistance.bindQuiet fun distance m₁ h₁ _ _ => ?_
  cases distance with
  | none => exact .raise h₁ _ _
  | some d =>
    refine (scope h₁).bindQuiet fun current m₂ h₂ _ _ => ?_
    refine (readAt h₂ current d "super").bindQuiet fun parent m₃ h₃ _ _ => ?_
    rcases parent with _ | _ | _ | _ | (_ | _ | parent) | _
    case callable.cls =>
      refine (readAt h₃ current (d - 1) "this").bindQuiet fun this m₄ h₄ _ hthis => ?_
      cases this with
      | object id =>
        simp only
        cases parent.lookup? method.lexeme with
        | none => exact .raise h₄ _ _
        | some found => exact (bindMethod h₄ found hthis).bindQuiet fun c m₅ h₅ _ hc => .pure h₅ hc
      | _ => exact .raise h₄ _ _
    all_goals exact .raise h₃ _ _

lemma defineClass (name : Token) (superclass : Option Class) (methods : List FunDecl) :
    Plays m (LoxLang.defineClass name superclass methods) [] fun _ _ => True := by
  refine (scope hm).bindQuiet fun outer m₁ h₁ _ _ => ?_
  have hrest : ∀ (inner : Scope) {m₂}, m₂.store.Closed →
      Plays m₂ (Effect.freshStamp >>= fun stamp => Effect.define name.lexeme (.callable (.cls
        (.extend ⟨stamp, name.lexeme, methodTable inner methods⟩ superclass)))) []
        fun _ _ => True := fun inner m₂ h₂ =>
    (freshStamp h₂).bindQuiet fun stamp m₃ h₃ _ _ => define h₃ _ _ trivial
  cases superclass with
  | none => exact hrest outer h₁
  | some c =>
    refine (addFrame h₁ fun label value hvalue => ?_).bindQuiet fun frame m₂ h₂ _ _ =>
      hrest (frame :: outer) h₂
    rw [(Bindings.find?_singleton hvalue).2]
    trivial

lemma expectClass (token : Token) (value : Value) :
    Plays m (LoxLang.expectClass token value) [] fun _ _ => True := by
  unfold LoxLang.expectClass
  split
  · exact .pure hm trivial
  · exact .raise hm _ _

/-! ### Calls -/

lemma closureResult (closure : Closure) {flow : Flow}
    (hflow : flow.RefersBelow m.store.instances.size) :
    Plays m (LoxLang.closureResult closure flow) [] Value.RefersBelow := by
  unfold LoxLang.closureResult
  split
  · exact readAt hm closure.scope 0 "this"
  · cases flow with
    | returned value => exact .pure hm hflow
    | normal => exact .pure hm trivial
    | broken => exact .pure hm trivial

end Effects

/-- A call on a closed store leaves a closed store. -/
lemma closed_after {c : BuiltinCall} (hm : c.machine.store.Closed)
    (harguments : ∀ v ∈ c.arguments, v.RefersBelow c.machine.store.instances.size) :
    c.after.store.Closed := by
  rcases c.store_after with hsame | ⟨-, id, f, -, hstore, hf⟩
  · rwa [hsame]
  · rw [hstore]
    refine hm.updateElements id fun v hv => ?_
    rcases hf _ v hv with hold | rfl
    · exact hm.elements id v hold
    · cases harg : c.arguments with
      | nil => trivial
      | cons first rest => exact harguments first (by simp [harg])

/-- **A call of a builtin is a call**, and it gives a plain value or an element of an array. -/
lemma builtinCall {c : BuiltinCall} (hm : c.machine.store.Closed) (hreceiver : c.HasReceiver)
    (harguments : ∀ v ∈ c.arguments, v.RefersBelow c.machine.store.instances.size) :
    Plays c.machine (c.builtin.call c.receiver c.arguments c.paren) [c] Value.RefersBelow := by
  refine ⟨.call c hreceiver, closed_after hm harguments, fun value hvalue => ?_⟩
  refine Value.RefersBelow.mono ?_ (Nat.le_of_eq c.size_after.symm)
  obtain ⟨b, receiver, arguments, paren, m⟩ := c
  cases b with
  | clock =>
    cases hvalue
    trivial
  | inputString =>
    obtain ⟨line, m₁, -, hline⟩ := Effect.ok_of_bind hvalue
    cases hline
    trivial
  | inputNumber =>
    obtain ⟨line, m₁, -, hline⟩ := Effect.ok_of_bind hvalue
    cases hx : Number.ofText? (Text.trim line.toList) with
    | none =>
      simp only [Builtin.numberOfLine, hx] at hline
      cases hline
    | some x =>
      simp only [Builtin.numberOfLine, hx] at hline
      cases hline
      trivial
  | arrayLength =>
    cases receiver with
    | none => cases hvalue
    | some id =>
      cases hvalue
      trivial
  | arrayPush =>
    cases receiver with
    | none => cases hvalue
    | some id =>
      cases hvalue
      trivial
  | arrayPop =>
    cases receiver with
    | none => cases hvalue
    | some id =>
      cases hvalue
      cases hlast : (m.store.elements id).back? with
      | none => trivial
      | some last => exact hm.elements id last (Array.mem_of_back? hlast)
  | arrayGet =>
    cases receiver with
    | none => cases hvalue
    | some id =>
      rcases hargument : arguments.head? with _ | _ | _ | x | _ | _ | _
      all_goals simp only [Builtin.call, Builtin.onReceiver, hargument] at hvalue
      case some.number =>
        unfold Builtin.elementAt at hvalue
        split at hvalue
        · next found hfound =>
          cases hvalue
          obtain ⟨i, -, hi⟩ := Option.bind_eq_some_iff.mp hfound
          exact hm.elements id _ (Array.mem_of_getElem? hi)
        · cases hvalue
      all_goals cases hvalue

/-! ### Operators -/

section Operators

variable (hm : m.store.Closed) (operator : Token)

include hm

lemma applyUnary (right : Value) :
    Plays m (LoxLang.applyUnary operator right) [] Value.RefersBelow := by
  unfold LoxLang.applyUnary
  split
  · split
    · exact .pure hm trivial
    · exact .raise hm _ _
  · exact .pure hm trivial
  · exact .raise hm _ _

lemma onNumbers (left right : Value) {f : Float → Float → Effect Value}
    (hf : ∀ a b, Plays m (f a b) [] Value.RefersBelow) :
    Plays m (LoxLang.onNumbers operator left right f) [] Value.RefersBelow := by
  unfold LoxLang.onNumbers
  split
  · exact hf _ _
  · exact .raise hm _ _

/-- Operators give numbers, texts and truth values. -/
lemma applyBinary (left right : Value) :
    Plays m (LoxLang.applyBinary operator left right) [] Value.RefersBelow := by
  unfold LoxLang.applyBinary
  split
  case h_1 =>
    unfold applyPlus
    split
    · exact .pure hm trivial
    · exact .pure hm trivial
    · exact .raise hm _ _
  case h_4 =>
    refine onNumbers hm operator left right fun a b => ?_
    unfold applySlash
    split
    · exact .raise hm _ _
    · exact .pure hm trivial
  case h_9 | h_10 => exact .pure hm trivial
  case h_11 => exact .raise hm _ _
  all_goals exact onNumbers hm operator left right fun a b => .pure hm trivial

end Operators

end Plays

/-! ## Runs -/

/-- The instances that some values refer to are among the first `n`. -/
def AllReferBelow (n : ℕ) (values : List Value) : Prop := ∀ v ∈ values, v.RefersBelow n

lemma AllReferBelow.mono {n n' : ℕ} {values : List Value} (h : AllReferBelow n values)
    (hn : n ≤ n') : AllReferBelow n' values := fun v hv => (h v hv).mono hn

/-- **Runs with a given amount of fuel play the calls that are listed.** -/
structure PlaysAt (n : ℕ) : Prop where
  evaluate : ∀ {m : Machine} (e : Expr), m.store.Closed →
    Plays m (LoxLang.evaluate n e) (Task.builtinCalls n m (.evaluate e)) Value.RefersBelow
  evaluateAll : ∀ {m : Machine} (es : List Expr), m.store.Closed →
    Plays m (LoxLang.evaluateAll n es) (Task.builtinCalls n m (.evaluateAll es)) AllReferBelow
  invoke : ∀ {m : Machine} (value : Value) (arguments : List Value) (paren : Token),
    m.store.Closed → value.RefersBelow m.store.instances.size →
    AllReferBelow m.store.instances.size arguments →
    Plays m (LoxLang.invoke n value arguments paren)
      (Task.builtinCalls n m (.invoke value arguments paren)) Value.RefersBelow
  call : ∀ {m : Machine} (c : Callable) (arguments : List Value) (paren : Token),
    m.store.Closed → c.RefersBelow m.store.instances.size →
    AllReferBelow m.store.instances.size arguments →
    Plays m (LoxLang.call n c arguments paren)
      (Task.builtinCalls n m (.call c arguments paren)) Value.RefersBelow
  execute : ∀ {m : Machine} (s : Stmt), m.store.Closed →
    Plays m (LoxLang.execute n s) (Task.builtinCalls n m (.execute s)) Flow.RefersBelow
  executeAll : ∀ {m : Machine} (body : List Stmt), m.store.Closed →
    Plays m (LoxLang.executeAll n body) (Task.builtinCalls n m (.executeAll body)) Flow.RefersBelow
  repeatWhile : ∀ {m : Machine} (condition : Expr) (body : Stmt), m.store.Closed →
    Plays m (LoxLang.repeatWhile n condition body)
      (Task.builtinCalls n m (.repeatWhile condition body)) Flow.RefersBelow

namespace PlaysAt

variable {n : ℕ} {m : Machine}

lemma succ_evaluate (h : PlaysAt n) (e : Expr) (hm : m.store.Closed) :
    Plays m (LoxLang.evaluate (n + 1) e) (Task.builtinCalls (n + 1) m (.evaluate e))
      Value.RefersBelow := by
  rw [Task.builtinCalls_succ rfl]
  cases e
  all_goals simp only [Task.started, List.flatMap_nil, List.flatMap_cons, List.append_nil,
    Effect.flatMap_onResult]
  case literal value => exact .pure hm (Value.refersBelow_ofLiteral _ value)
  case «variable» ref name => exact .readRef hm ref name
  case this ref keyword => exact .readRef hm ref keyword
  case super ref keyword method => exact .superMethod hm ref keyword method
  case grouping inner => exact h.evaluate inner hm
  case unary operator right =>
    exact (h.evaluate right hm).bindQuiet fun value m₁ h₁ _ _ => .applyUnary h₁ operator value
  case binary left operator right =>
    refine (h.evaluate left hm).bind fun a m₁ h₁ _ _ => ?_
    exact (h.evaluate right h₁).bindQuiet fun b m₂ h₂ _ _ => .applyBinary h₂ operator a b
  case logical left operator right =>
    refine (h.evaluate left hm).bind fun a m₁ h₁ _ ha => ?_
    split
    · exact .pure h₁ ha
    · rw [List.flatMap_singleton]
      exact h.evaluate right h₁
  case assign ref name value =>
    refine (h.evaluate value hm).bindQuiet fun v m₁ h₁ _ hv => ?_
    exact (Plays.writeRef h₁ ref name hv).bindQuiet fun _ m₂ h₂ hgrows _ =>
      .pure h₂ (hv.mono hgrows)
  case call callee paren arguments =>
    refine (h.evaluate callee hm).bind fun c m₁ h₁ _ hc => ?_
    refine (h.evaluateAll arguments h₁).bind fun values m₂ h₂ hgrows hvalues => ?_
    exact h.invoke c values paren h₂ (hc.mono hgrows) hvalues
  case get object name =>
    refine (h.evaluate object hm).bindQuiet fun target m₁ h₁ _ htarget => ?_
    cases target with
    | object id => exact .property h₁ htarget name
    | _ => exact .raise h₁ _ _
  case set object name value =>
    refine (h.evaluate object hm).bind fun target m₁ h₁ _ _ => ?_
    cases target with
    | object id =>
      simp only [List.flatMap_singleton]
      refine (h.evaluate value h₁).bindQuiet fun v m₂ h₂ _ hv => ?_
      exact (Plays.setField h₂ id name.lexeme hv).bindQuiet fun _ m₃ h₃ hgrows _ =>
        .pure h₃ (hv.mono hgrows)
    | _ => exact .raise h₁ _ _

lemma succ_evaluateAll (h : PlaysAt n) (es : List Expr) (hm : m.store.Closed) :
    Plays m (LoxLang.evaluateAll (n + 1) es) (Task.builtinCalls (n + 1) m (.evaluateAll es))
      AllReferBelow := by
  rw [Task.builtinCalls_succ rfl]
  cases es with
  | nil => exact .pure hm (List.forall_mem_nil _)
  | cons e rest =>
    simp only [Task.started, List.flatMap_nil, List.flatMap_cons, List.append_nil,
      Effect.flatMap_onResult]
    refine (h.evaluate e hm).bind fun first m₁ h₁ _ hfirst => ?_
    refine (h.evaluateAll rest h₁).bindQuiet fun others m₂ h₂ hgrows hothers => ?_
    exact .pure h₂ (List.forall_mem_cons.mpr ⟨hfirst.mono hgrows, hothers⟩)

lemma succ_invoke (h : PlaysAt n) (value : Value) (arguments : List Value) (paren : Token)
    (hm : m.store.Closed) (hvalue : value.RefersBelow m.store.instances.size)
    (harguments : AllReferBelow m.store.instances.size arguments) :
    Plays m (LoxLang.invoke (n + 1) value arguments paren)
      (Task.builtinCalls (n + 1) m (.invoke value arguments paren)) Value.RefersBelow := by
  rw [Task.builtinCalls_succ rfl]
  cases value with
  | callable c =>
    simp only [Task.started]
    by_cases harity : arguments.length = c.arity
    · by_cases hlimit : m.limit ≤ m.depth
      · rw [if_pos (.inr hlimit), List.flatMap_nil]
        refine .of_eq ?_ (.raise hm paren .stackOverflow)
        simp [LoxLang.invoke, harity, Effect.isAtLimit, hlimit]
      · rw [if_neg (by simp [harity, hlimit]), List.flatMap_singleton]
        refine .of_eq ?_ (.deeper (h.call c arguments paren hm hvalue harguments))
        simp [LoxLang.invoke, harity, Effect.isAtLimit, hlimit]
    · rw [if_pos (.inl harity), List.flatMap_nil]
      refine .of_eq ?_ (.raise hm paren (.wrongArity c.arity arguments.length))
      simp [LoxLang.invoke, harity]
  | _ => exact .raise hm _ _

lemma succ_call (h : PlaysAt n) (c : Callable) (arguments : List Value) (paren : Token)
    (hm : m.store.Closed) (hc : c.RefersBelow m.store.instances.size)
    (harguments : AllReferBelow m.store.instances.size arguments) :
    Plays m (LoxLang.call (n + 1) c arguments paren)
      (Task.builtinCalls (n + 1) m (.call c arguments paren)) Value.RefersBelow := by
  cases c with
  | builtin stamp b receiver =>
    have hreceiver : BuiltinCall.HasReceiver ⟨b, receiver, arguments, paren, m⟩ := by
      cases receiver with
      | none => exact .inl hc
      | some id => exact .inr ⟨id, rfl, hc⟩
    exact .builtinCall hm hreceiver harguments
  | function stamp closure =>
    rw [Task.builtinCalls_succ rfl]
    simp only [Task.started, List.flatMap_nil, List.flatMap_cons, List.append_nil,
      Effect.flatMap_onResult]
    have hbound : ∀ name value,
        (bindParameters closure.decl.params arguments).find? name = some value →
          value.RefersBelow m.store.instances.size := by
      intro name value hvalue
      rcases Bindings.mem_of_find?_insertAll hvalue with hmem | hnone
      · exact harguments value (List.of_mem_zip hmem).2
      · cases hnone
    refine (Plays.addFrame hm hbound).quietBind fun frame m₁ h₁ _ _ => ?_
    refine (Plays.within (frame :: closure.scope) (h.executeAll closure.decl.body h₁)).bindQuiet
      fun flow m₂ h₂ _ hflow => ?_
    exact .closureResult h₂ closure hflow
  | cls c =>
    rw [Task.builtinCalls_succ rfl]
    simp only [Task.started, Effect.flatMap_onResult]
    refine (Plays.addInstance hm c).quietBind fun id m₁ h₁ hgrows hid => ?_
    cases c.lookup? initializerName with
    | none => exact .pure h₁ hid
    | some method =>
      simp only [Effect.flatMap_onResult, List.flatMap_singleton]
      refine (Plays.bindMethod h₁ method hid).quietBind fun initializer m₂ h₂ hgrows' hinit => ?_
      refine (h.call initializer arguments paren h₂ hinit
        (harguments.mono (Nat.le_trans hgrows hgrows'))).bindQuiet fun _ m₃ h₃ hgrows'' _ => ?_
      exact .pure h₃ (Nat.lt_of_lt_of_le hid (Nat.le_trans hgrows' hgrows''))

lemma succ_execute (h : PlaysAt n) (s : Stmt) (hm : m.store.Closed) :
    Plays m (LoxLang.execute (n + 1) s) (Task.builtinCalls (n + 1) m (.execute s))
      Flow.RefersBelow := by
  rw [Task.builtinCalls_succ rfl]
  cases s with
  | expression e =>
    simp only [Task.started, List.flatMap_singleton]
    exact (h.evaluate e hm).bindQuiet fun _ m₁ h₁ _ _ => .pure h₁ trivial
  | print e =>
    simp only [Task.started, List.flatMap_singleton]
    refine (h.evaluate e hm).bindQuiet fun value m₁ h₁ _ _ => ?_
    refine (Plays.calm h₁ (.text value)).bindQuiet fun line m₂ h₂ _ _ => ?_
    exact (Plays.calm h₂ (.write _)).bindQuiet fun _ m₃ h₃ _ _ => .pure h₃ trivial
  | var name initializer =>
    cases initializer with
    | none =>
      exact (Plays.define hm name.lexeme .nil trivial).bindQuiet
        fun _ m₁ h₁ _ _ => .pure h₁ trivial
    | some e =>
      simp only [Task.started, List.flatMap_singleton]
      refine (h.evaluate e hm).bindQuiet fun value m₁ h₁ _ hvalue => ?_
      exact (Plays.define h₁ name.lexeme value hvalue).bindQuiet fun _ m₂ h₂ _ _ => .pure h₂ trivial
  | block body =>
    simp only [Task.started, List.flatMap_singleton, Effect.flatMap_onResult]
    refine (Plays.addFrame hm (by simp)).quietBind fun frame m₁ h₁ _ _ => ?_
    refine .of_eq ?_ (.within (frame :: m₁.scope) (h.executeAll body h₁))
    rfl
  | ifThen condition thenBranch elseBranch =>
    simp only [Task.started, List.flatMap_cons, Effect.flatMap_onResult]
    refine (h.evaluate condition hm).bind fun value m₁ h₁ _ _ => ?_
    split
    · rw [List.flatMap_singleton]
      exact h.execute thenBranch h₁
    · cases elseBranch with
      | none => exact .pure h₁ trivial
      | some s =>
        simp only [Option.map_some, Option.toList_some, List.flatMap_singleton]
        exact h.execute s h₁
  | whileLoop condition body =>
    simp only [Task.started, List.flatMap_singleton]
    exact h.repeatWhile condition body hm
  | breakLoop keyword => exact .pure hm trivial
  | returnValue keyword value =>
    cases value with
    | none => exact .pure hm trivial
    | some e =>
      simp only [Task.started, List.flatMap_singleton]
      exact (h.evaluate e hm).bindQuiet fun value m₁ h₁ _ hvalue => .pure h₁ hvalue
  | function decl =>
    refine (Plays.freshStamp hm).bindQuiet fun stamp m₁ h₁ _ _ => ?_
    refine (Plays.scope h₁).bindQuiet fun current m₂ h₂ _ _ => ?_
    have hdefine := Plays.define h₂ decl.name.lexeme
      (.callable (.function stamp ⟨decl, current, false⟩)) trivial
    exact hdefine.bindQuiet fun _ m₃ h₃ _ _ => .pure h₃ trivial
  | classDecl name superclass methods =>
    cases superclass with
    | none =>
      refine (Plays.define hm name.lexeme .nil trivial).bindQuiet fun _ m₁ h₁ _ _ => ?_
      exact (Plays.defineClass h₁ name none methods).bindQuiet fun _ m₂ h₂ _ _ => .pure h₂ trivial
    | some e =>
      simp only [Task.started, List.flatMap_singleton, Effect.flatMap_onResult]
      refine (Plays.define hm name.lexeme .nil trivial).quietBind fun _ m₁ h₁ _ _ => ?_
      refine (h.evaluate e h₁).bindQuiet fun value m₂ h₂ _ _ => ?_
      refine (Plays.expectClass h₂ (superclassToken e name) value).bindQuiet
        fun parent m₃ h₃ _ _ => ?_
      exact (Plays.defineClass h₃ name (some parent) methods).bindQuiet
        fun _ m₄ h₄ _ _ => .pure h₄ trivial

lemma succ_executeAll (h : PlaysAt n) (body : List Stmt) (hm : m.store.Closed) :
    Plays m (LoxLang.executeAll (n + 1) body) (Task.builtinCalls (n + 1) m (.executeAll body))
      Flow.RefersBelow := by
  rw [Task.builtinCalls_succ rfl]
  cases body with
  | nil => exact .pure hm trivial
  | cons s rest =>
    simp only [Task.started, List.flatMap_cons, Effect.flatMap_onResult]
    refine (h.execute s hm).bind fun flow m₁ h₁ _ hflow => ?_
    cases flow with
    | normal =>
      simp only [List.flatMap_singleton]
      exact h.executeAll rest h₁
    | broken => exact .pure h₁ hflow
    | returned value => exact .pure h₁ hflow

lemma succ_repeatWhile (h : PlaysAt n) (condition : Expr) (body : Stmt) (hm : m.store.Closed) :
    Plays m (LoxLang.repeatWhile (n + 1) condition body)
      (Task.builtinCalls (n + 1) m (.repeatWhile condition body)) Flow.RefersBelow := by
  rw [Task.builtinCalls_succ rfl]
  simp only [Task.started, List.flatMap_cons, Effect.flatMap_onResult]
  refine (h.evaluate condition hm).bind fun value m₁ h₁ _ _ => ?_
  split
  · simp only [List.flatMap_cons, Effect.flatMap_onResult]
    refine (h.execute body h₁).bind fun flow m₂ h₂ _ hflow => ?_
    cases flow with
    | normal =>
      simp only [List.flatMap_singleton]
      exact h.repeatWhile condition body h₂
    | broken => exact .pure h₂ trivial
    | returned value => exact .pure h₂ hflow
  · exact .pure h₁ trivial

end PlaysAt

/-- Runs play their calls, whatever fuel they have. -/
lemma playsAt (n : ℕ) : PlaysAt n := by
  induction n with
  | zero => refine ⟨?_, ?_, ?_, ?_, ?_, ?_, ?_⟩ <;> intros <;> exact .exhausted ‹_›
  | succ n ih =>
    exact ⟨ih.succ_evaluate, ih.succ_evaluateAll, ih.succ_invoke, ih.succ_call, ih.succ_execute,
      ih.succ_executeAll, ih.succ_repeatWhile⟩

/-- **The run of a program plays its calls.** -/
theorem plays_runProgram (fuel : ℕ) (program : List Stmt) {m : Machine} (hm : m.store.Closed) :
    Plays m (runProgram fuel program) (programCalls fuel program m) fun _ _ => True := by
  induction program generalizing m with
  | nil => exact .pure hm trivial
  | cons s rest ih => exact ((playsAt fuel).execute s hm).bind fun _ m₁ h₁ _ _ => ih h₁

end LoxLang
