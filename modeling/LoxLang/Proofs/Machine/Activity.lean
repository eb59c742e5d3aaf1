import LoxLang.Proofs.Machine.Restoration

/-!
# What goes on during a run

The functions that run a program call each other.  An *activity* is one such call: a task that was
begun on a machine with some fuel.  An activity starts others on its way, each on the machine that
the ones before it have left (`Activity.Starts`), and the activities that are under way at a moment
of a run are those on a path of such starts from a statement at top level (`Underway`).

Each start has a *link* that says what the one activity is to the other.  The links of a path, the
innermost first, are what an interpreter keeps on its stack.  Counting the links `call` counts the
calls that were entered and are not finished; this is what the machine has in its own count, and the
limit is never passed (`Underway.depth_eq`).
-/

namespace LoxLang

/-! ## Activities -/

/-- What the machine can be asked for. -/
inductive Task where
  | evaluate (e : Expr)
  | evaluateAll (es : List Expr)
  | invoke (value : Value) (arguments : List Value) (paren : Token)
  | call (c : Callable) (arguments : List Value) (paren : Token)
  | execute (s : Stmt)
  | executeAll (body : List Stmt)
  | repeatWhile (condition : Expr) (body : Stmt)

/-- A task that was begun on a machine. -/
structure Activity where
  fuel : Nat
  task : Task
  machine : Machine

/-- Does the task go on in a frame of its own? -/
def Task.opens : Task → Bool
  | .execute (.block _) | .call (.function _ _) _ _ => true
  | _ => false

/-- What an activity is to the one that started it. -/
inductive Link where
  /-- An expression whose value is needed, or the call that a call expression is about. -/
  | operand
  /-- A call that is entered, and counted. -/
  | call
  /-- The initializer that is part of a call of a class. -/
  | construct
  /-- The body of a function that is called. -/
  | body
  /-- A statement that is part of another one, or the rest of a list. -/
  | part
  /-- A loop, or the rounds of it that are still to come. -/
  | loop
  /-- One round of a loop. -/
  | round
  deriving DecidableEq

/-- **One activity starts another**, with one unit of fuel less. -/
inductive Activity.Starts : Activity → Link → Activity → Prop
  | grouping {n : Nat} {inner : Expr} {m : Machine} :
      Starts ⟨n + 1, .evaluate (.grouping inner), m⟩ .operand ⟨n, .evaluate inner, m⟩
  | unary {n : Nat} {operator : Token} {right : Expr} {m : Machine} :
      Starts ⟨n + 1, .evaluate (.unary operator right), m⟩ .operand ⟨n, .evaluate right, m⟩
  | binaryLeft {n : Nat} {left right : Expr} {operator : Token} {m : Machine} :
      Starts ⟨n + 1, .evaluate (.binary left operator right), m⟩ .operand ⟨n, .evaluate left, m⟩
  | binaryRight {n : Nat} {left right : Expr} {operator : Token} {a : Value} {m m₁ : Machine}
      (hleft : LoxLang.evaluate n left m = (.ok a, m₁)) :
      Starts ⟨n + 1, .evaluate (.binary left operator right), m⟩ .operand ⟨n, .evaluate right, m₁⟩
  | logicalLeft {n : Nat} {left right : Expr} {operator : Token} {m : Machine} :
      Starts ⟨n + 1, .evaluate (.logical left operator right), m⟩ .operand ⟨n, .evaluate left, m⟩
  | logicalRight {n : Nat} {left right : Expr} {operator : Token} {a : Value} {m m₁ : Machine}
      (hleft : LoxLang.evaluate n left m = (.ok a, m₁)) (hopen : isDecided operator a = false) :
      Starts ⟨n + 1, .evaluate (.logical left operator right), m⟩ .operand
        ⟨n, .evaluate right, m₁⟩
  | assign {n : Nat} {ref : RefId} {name : Token} {value : Expr} {m : Machine} :
      Starts ⟨n + 1, .evaluate (.assign ref name value), m⟩ .operand ⟨n, .evaluate value, m⟩
  | callee {n : Nat} {callee : Expr} {paren : Token} {arguments : List Expr} {m : Machine} :
      Starts ⟨n + 1, .evaluate (.call callee paren arguments), m⟩ .operand ⟨n, .evaluate callee, m⟩
  | arguments {n : Nat} {callee : Expr} {paren : Token} {arguments : List Expr} {value : Value}
      {m m₁ : Machine} (hcallee : LoxLang.evaluate n callee m = (.ok value, m₁)) :
      Starts ⟨n + 1, .evaluate (.call callee paren arguments), m⟩ .operand
        ⟨n, .evaluateAll arguments, m₁⟩
  | invoke {n : Nat} {callee : Expr} {paren : Token} {arguments : List Expr} {value : Value}
      {values : List Value} {m m₁ m₂ : Machine}
      (hcallee : LoxLang.evaluate n callee m = (.ok value, m₁))
      (harguments : LoxLang.evaluateAll n arguments m₁ = (.ok values, m₂)) :
      Starts ⟨n + 1, .evaluate (.call callee paren arguments), m⟩ .operand
        ⟨n, .invoke value values paren, m₂⟩
  | get {n : Nat} {object : Expr} {name : Token} {m : Machine} :
      Starts ⟨n + 1, .evaluate (.get object name), m⟩ .operand ⟨n, .evaluate object, m⟩
  | setObject {n : Nat} {object value : Expr} {name : Token} {m : Machine} :
      Starts ⟨n + 1, .evaluate (.set object name value), m⟩ .operand ⟨n, .evaluate object, m⟩
  | setValue {n : Nat} {object value : Expr} {name : Token} {id : InstanceId} {m m₁ : Machine}
      (hobject : LoxLang.evaluate n object m = (.ok (.object id), m₁)) :
      Starts ⟨n + 1, .evaluate (.set object name value), m⟩ .operand ⟨n, .evaluate value, m₁⟩
  | first {n : Nat} {e : Expr} {rest : List Expr} {m : Machine} :
      Starts ⟨n + 1, .evaluateAll (e :: rest), m⟩ .operand ⟨n, .evaluate e, m⟩
  | others {n : Nat} {e : Expr} {rest : List Expr} {value : Value} {m m₁ : Machine}
      (hfirst : LoxLang.evaluate n e m = (.ok value, m₁)) :
      Starts ⟨n + 1, .evaluateAll (e :: rest), m⟩ .operand ⟨n, .evaluateAll rest, m₁⟩
  | enter {n : Nat} {c : Callable} {arguments : List Value} {paren : Token} {m : Machine}
      (harity : arguments.length = c.arity) (hroom : m.depth < m.limit) :
      Starts ⟨n + 1, .invoke (.callable c) arguments paren, m⟩ .call
        ⟨n, .call c arguments paren, { m with depth := m.depth + 1 }⟩
  | body {n : Nat} {stamp : Stamp} {closure : Closure} {arguments : List Value} {paren : Token}
      {frame : FrameId} {m m₁ : Machine}
      (hframe : Effect.addFrame (bindParameters closure.decl.params arguments) m =
        (.ok frame, m₁)) :
      Starts ⟨n + 1, .call (.function stamp closure) arguments paren, m⟩ .body
        ⟨n, .executeAll closure.decl.body, { m₁ with scope := frame :: closure.scope }⟩
  | construct {n : Nat} {c : Class} {method : Method} {arguments : List Value} {paren : Token}
      {id : InstanceId} {initializer : Callable} {m m₁ m₂ : Machine}
      (hid : Effect.addInstance c m = (.ok id, m₁))
      (hmethod : c.lookup? initializerName = some method)
      (hbound : Effect.bindMethod method id m₁ = (.ok initializer, m₂)) :
      Starts ⟨n + 1, .call (.cls c) arguments paren, m⟩ .construct
        ⟨n, .call initializer arguments paren, m₂⟩
  | expression {n : Nat} {e : Expr} {m : Machine} :
      Starts ⟨n + 1, .execute (.expression e), m⟩ .operand ⟨n, .evaluate e, m⟩
  | print {n : Nat} {e : Expr} {m : Machine} :
      Starts ⟨n + 1, .execute (.print e), m⟩ .operand ⟨n, .evaluate e, m⟩
  | var {n : Nat} {name : Token} {e : Expr} {m : Machine} :
      Starts ⟨n + 1, .execute (.var name (some e)), m⟩ .operand ⟨n, .evaluate e, m⟩
  | block {n : Nat} {body : List Stmt} {frame : FrameId} {m m₁ : Machine}
      (hframe : Effect.addFrame .empty m = (.ok frame, m₁)) :
      Starts ⟨n + 1, .execute (.block body), m⟩ .part
        ⟨n, .executeAll body, { m₁ with scope := frame :: m₁.scope }⟩
  | condition {n : Nat} {condition : Expr} {thenBranch : Stmt} {elseBranch : Option Stmt}
      {m : Machine} :
      Starts ⟨n + 1, .execute (.ifThen condition thenBranch elseBranch), m⟩ .operand
        ⟨n, .evaluate condition, m⟩
  | thenBranch {n : Nat} {condition : Expr} {thenBranch : Stmt} {elseBranch : Option Stmt}
      {value : Value} {m m₁ : Machine}
      (hcondition : LoxLang.evaluate n condition m = (.ok value, m₁))
      (htrue : value.isTruthy = true) :
      Starts ⟨n + 1, .execute (.ifThen condition thenBranch elseBranch), m⟩ .part
        ⟨n, .execute thenBranch, m₁⟩
  | elseBranch {n : Nat} {condition : Expr} {thenBranch elseBranch : Stmt} {value : Value}
      {m m₁ : Machine} (hcondition : LoxLang.evaluate n condition m = (.ok value, m₁))
      (hfalse : value.isTruthy = false) :
      Starts ⟨n + 1, .execute (.ifThen condition thenBranch (some elseBranch)), m⟩ .part
        ⟨n, .execute elseBranch, m₁⟩
  | whileLoop {n : Nat} {condition : Expr} {body : Stmt} {m : Machine} :
      Starts ⟨n + 1, .execute (.whileLoop condition body), m⟩ .loop
        ⟨n, .repeatWhile condition body, m⟩
  | returnValue {n : Nat} {keyword : Token} {e : Expr} {m : Machine} :
      Starts ⟨n + 1, .execute (.returnValue keyword (some e)), m⟩ .operand ⟨n, .evaluate e, m⟩
  | superclass {n : Nat} {name : Token} {e : Expr} {methods : List FunDecl} {m m₁ : Machine}
      (hname : Effect.define name.lexeme .nil m = (.ok (), m₁)) :
      Starts ⟨n + 1, .execute (.classDecl name (some e) methods), m⟩ .operand ⟨n, .evaluate e, m₁⟩
  | head {n : Nat} {s : Stmt} {rest : List Stmt} {m : Machine} :
      Starts ⟨n + 1, .executeAll (s :: rest), m⟩ .part ⟨n, .execute s, m⟩
  | tail {n : Nat} {s : Stmt} {rest : List Stmt} {m m₁ : Machine}
      (hhead : LoxLang.execute n s m = (.ok .normal, m₁)) :
      Starts ⟨n + 1, .executeAll (s :: rest), m⟩ .part ⟨n, .executeAll rest, m₁⟩
  | whileCondition {n : Nat} {condition : Expr} {body : Stmt} {m : Machine} :
      Starts ⟨n + 1, .repeatWhile condition body, m⟩ .operand ⟨n, .evaluate condition, m⟩
  | round {n : Nat} {condition : Expr} {body : Stmt} {value : Value} {m m₁ : Machine}
      (hcondition : LoxLang.evaluate n condition m = (.ok value, m₁))
      (htrue : value.isTruthy = true) :
      Starts ⟨n + 1, .repeatWhile condition body, m⟩ .round ⟨n, .execute body, m₁⟩
  | again {n : Nat} {condition : Expr} {body : Stmt} {value : Value} {m m₁ m₂ : Machine}
      (hcondition : LoxLang.evaluate n condition m = (.ok value, m₁))
      (htrue : value.isTruthy = true) (hround : LoxLang.execute n body m₁ = (.ok .normal, m₂)) :
      Starts ⟨n + 1, .repeatWhile condition body, m⟩ .loop ⟨n, .repeatWhile condition body, m₂⟩

/-- **The activities that an activity leads to**, with the links on the way, the innermost
first. -/
inductive Activity.Reaches (a : Activity) : List Link → Activity → Prop
  | here : a.Reaches [] a
  | start {links : List Link} {link : Link} {b c : Activity} (hb : a.Reaches links b)
      (hc : b.Starts link c) : a.Reaches (link :: links) c

lemma Activity.Reaches.cons {a b c : Activity} {link : Link} {links : List Link}
    (hb : a.Starts link b) (hc : b.Reaches links c) : a.Reaches (links ++ [link]) c := by
  induction hc with
  | here => exact .start .here hb
  | start _ hd ih => exact .start ih hd

/-- What holds of all that goes on during an activity, and of the activity itself. -/
def Activity.Throughout (P : Activity → Prop) (a : Activity) : Prop :=
  ∀ links b, a.Reaches links b → P b

namespace Activity.Throughout

variable {P : Activity → Prop} {a b : Activity} {link : Link}

lemma here (h : a.Throughout P) : P a := h _ _ .here

/-- The parts of an activity lead to nothing else. -/
lemma starts (h : a.Throughout P) (hb : a.Starts link b) : b.Throughout P :=
  fun _ c hc => h _ c (.cons hb hc)

end Activity.Throughout

/-- **An activity is under way** during the run of a program: the statements before one of its
statements have ended, and this one leads to the activity. -/
def Underway (fuel : Nat) (program : List Stmt) (m : Machine) (links : List Link) (a : Activity) :
    Prop :=
  ∃ before s rest m₁, program = before ++ s :: rest ∧ runProgram fuel before m = (.ok (), m₁) ∧
    (⟨fuel, .execute s, m₁⟩ : Activity).Reaches links a

section Underway

variable {fuel : Nat} {program : List Stmt} {m : Machine}

/-- **What holds of the statements at top level and is kept by every start** holds of all that is
under way. -/
lemma Underway.induct {P : List Link → Activity → Prop}
    (top : ∀ {before s rest m₁}, program = before ++ s :: rest →
      runProgram fuel before m = (.ok (), m₁) → P [] ⟨fuel, .execute s, m₁⟩)
    (step : ∀ {links link a b}, Underway fuel program m links a → P links a → a.Starts link b →
      P (link :: links) b) {links : List Link} {a : Activity}
    (h : Underway fuel program m links a) : P links a := by
  obtain ⟨before, s, rest, m₁, hprogram, hbefore, ha⟩ := h
  induction ha with
  | here => exact top hprogram hbefore
  | start hb hc ih => exact step ⟨before, s, rest, m₁, hprogram, hbefore, hb⟩ ih hc

end Underway

/-- A program that was begun on a machine. -/
structure ProgramRun where
  fuel : Nat
  program : List Stmt
  machine : Machine

/-- An activity is under way during the run. -/
def ProgramRun.Underway (r : ProgramRun) (links : List Link) (a : Activity) : Prop :=
  LoxLang.Underway r.fuel r.program r.machine links a

/-! ## Counting calls -/

/-- The machine of an activity, compared with the machine of the one that started it. -/
lemma Activity.Starts.machine {a b : Activity} {link : Link} (h : a.Starts link b) :
    (a.task.opens = false → b.machine.scope = a.machine.scope) ∧
      b.machine.limit = a.machine.limit ∧
      b.machine.depth = a.machine.depth + (if link = .call then 1 else 0) ∧
      (link = .call → a.machine.depth < a.machine.limit) := by
  -- Everything that was done before the start has put the scope and the count back.
  cases h with
  | enter harity hroom => simpa using hroom
  | binaryRight h | logicalRight h | arguments h | setValue h | others h | thenBranch h
  | elseBranch h | round h =>
    have hkept := ((restoresAt _).evaluate _).of_run h
    simp [hkept.scope, hkept.limit, hkept.depth]
  | invoke hcallee harguments =>
    have hkept := (((restoresAt _).evaluate _).of_run hcallee).trans
      (((restoresAt _).evaluateAll _).of_run harguments)
    simp [hkept.scope, hkept.limit, hkept.depth]
  | body h | block h =>
    have hkept := (Effect.Restores.onStore _).of_run h
    simp [Task.opens, hkept.limit, hkept.depth]
  | construct hid _ hbound =>
    have hkept := ((Effect.Restores.onStore _).of_run hid).trans
      ((Effect.Restores.onStore _).of_run hbound)
    simp [hkept.scope, hkept.limit, hkept.depth]
  | superclass h =>
    have hkept := (Effect.Restores.define _ _).of_run h
    simp [hkept.scope, hkept.limit, hkept.depth]
  | tail h =>
    have hkept := ((restoresAt _).execute _).of_run h
    simp [hkept.scope, hkept.limit, hkept.depth]
  | again hcondition _ hround =>
    have hkept := (((restoresAt _).evaluate _).of_run hcondition).trans
      (((restoresAt _).execute _).of_run hround)
    simp [hkept.scope, hkept.limit, hkept.depth]
  | _ => simp

/-- **The machine counts the calls that are under way**, and stays under its limit. -/
lemma Activity.Reaches.depth_eq {a b : Activity} {links : List Link} (h : a.Reaches links b)
    (hroom : a.machine.depth ≤ a.machine.limit) :
    b.machine.limit = a.machine.limit ∧ b.machine.depth = a.machine.depth + links.count .call ∧
      b.machine.depth ≤ b.machine.limit := by
  induction h with
  | here => exact ⟨rfl, rfl, hroom⟩
  | @start links link b c _ hc ih =>
    obtain ⟨hlimit, hdepth, hbelow⟩ := ih
    obtain ⟨-, hlimit', hdepth', hroom'⟩ := hc.machine
    by_cases hlink : link = .call
    · subst hlink
      have hroom := hroom' rfl
      simp only [if_true, List.count_cons_self] at hdepth' ⊢
      omega
    · rw [if_neg hlink] at hdepth'
      rw [List.count_cons_of_ne hlink]
      omega

/-- During the run of a program the machine counts from where the program began. -/
lemma Underway.depth_eq {fuel : Nat} {program : List Stmt} {m : Machine} {links : List Link}
    {a : Activity} (h : Underway fuel program m links a) (hroom : m.depth ≤ m.limit) :
    a.machine.limit = m.limit ∧ a.machine.depth = m.depth + links.count .call ∧
      a.machine.depth ≤ a.machine.limit := by
  obtain ⟨before, s, rest, m₁, -, hbefore, hreach⟩ := h
  have hrestored := restores_runProgram fuel before m
  rw [hbefore] at hrestored
  have hroom₁ : m₁.depth ≤ m₁.limit := by
    rw [hrestored.depth, hrestored.limit]
    exact hroom
  obtain ⟨hlimit, hdepth, hbelow⟩ := hreach.depth_eq hroom₁
  exact ⟨hlimit.trans hrestored.limit, hdepth.trans (by rw [hrestored.depth]), hbelow⟩

end LoxLang
