import LoxLang.Proofs.Machine.Fuel

/-!
# Loops

A `for` loop is read as a block with a `while` loop inside, and the increment is put into one more
block behind the body.  What such a loop does is said here on its own (`runFor`): the initializer
once, in a scope of its own; then the condition, the body and the increment, round after round,
until the condition is false, the body breaks out or returns, or something fails.

The block around body and increment makes a frame in each round.  How a round is entered is
therefore a parameter.  With a frame for each round the loop is what was read
(`forLoop_extends`, `extends_forLoop`), up to the fuel that the blocks take.
-/

namespace LoxLang

open Effect

/-! ## What a `for` loop does -/

namespace Effect

variable {α : Type}

/-- Runs an effect in a new scope inside the current one. -/
def inNewScope (x : Effect α) : Effect α := do
  let frame ← addFrame .empty
  let outer ← scope
  within (frame :: outer) x

/-- Runs an effect in the current scope.  The innermost frame is there twice, because distances
count the block that was read around the effect. -/
def inSameScope (x : Effect α) : Effect α := do
  let current ← scope
  within (current.take 1 ++ current) x

end Effect

/-- Is the condition of a loop true?  A missing one always is. -/
def holds (n : Nat) : Option Expr → Effect Bool
  | none => pure true
  | some e => do
    let value ← evaluate n e
    pure value.isTruthy

/-- One round of a loop: the body, and the increment if the body ended normally. -/
def runRound (enter : Effect Flow → Effect Flow) (n : Nat) (body : Stmt) :
    Option Expr → Effect Flow
  | none => execute n body
  | some e => enter do
    match ← execute n body with
    | .normal => do
      let _ ← evaluate n e
      pure .normal
    | flow => pure flow

/-- What a loop does behind a round: it goes on, or it ends a `break`, or it passes on a value that
is returned. -/
def afterRound (next : Effect Flow) : Flow → Effect Flow
  | .normal => next
  | .broken => pure .normal
  | .returned value => pure (.returned value)

/-- The rounds of a loop, until the condition is false or a round does not end normally. -/
def runRounds (enter : Effect Flow → Effect Flow) (condition increment : Option Expr)
    (body : Stmt) : Nat → Effect Flow
  | 0 => exhausted
  | n + 1 => do
    if ← holds n condition then
      let flow ← runRound enter n body increment
      afterRound (runRounds enter condition increment body n) flow
    else pure .normal

/-- **A `for` loop**: the initializer once, in a scope that all rounds share, and then the
rounds. -/
def runFor (enter : Effect Flow → Effect Flow) (n : Nat) (condition increment : Option Expr)
    (body : Stmt) : Option Stmt → Effect Flow
  | none => runRounds enter condition increment body n
  | some s => inNewScope do
    match ← execute n s with
    | .normal => runRounds enter condition increment body n
    | flow => pure flow

/-! ## More fuel -/

lemma extends_evaluate {n k : Nat} (hle : n ≤ k) (e : Expr) :
    (evaluate n e).Extends (evaluate k e) := by
  induction hle with
  | refl => exact .refl _
  | step _ ih => exact ih.trans ((extendsAt _).evaluate e)

lemma extends_execute {n k : Nat} (hle : n ≤ k) (s : Stmt) :
    (execute n s).Extends (execute k s) := by
  induction hle with
  | refl => exact .refl _
  | step _ ih => exact ih.trans ((extendsAt _).execute s)

lemma Effect.Extends.inNewScope {α : Type} {x y : Effect α} (h : x.Extends y) :
    (Effect.inNewScope x).Extends (Effect.inNewScope y) :=
  .after _ fun frame => .after _ fun outer => h.within (frame :: outer)

lemma Effect.Extends.afterRound {next next' : Effect Flow} (h : next.Extends next') (flow : Flow) :
    (LoxLang.afterRound next flow).Extends (LoxLang.afterRound next' flow) := by
  cases flow with
  | normal => exact h
  | broken | returned => exact .refl _

section Fuel

variable {condition increment : Option Expr} {body : Stmt} {n k : Nat}

lemma extends_holds (hle : n ≤ k) : (holds n condition).Extends (holds k condition) := by
  cases condition with
  | none => exact .refl _
  | some e => exact (extends_evaluate hle e).before _

lemma extends_runRound (hle : n ≤ k) :
    (runRound inNewScope n body increment).Extends (runRound inNewScope k body increment) := by
  cases increment with
  | none => exact extends_execute hle body
  | some e =>
    refine Extends.inNewScope ((extends_execute hle body).bind fun flow => ?_)
    cases flow with
    | normal => exact (extends_evaluate hle e).before _
    | broken | returned => exact .refl _

lemma extends_runRounds (hle : n ≤ k) : (runRounds inNewScope condition increment body n).Extends
    (runRounds inNewScope condition increment body k) := by
  induction n generalizing k with
  | zero => exact .exhausted _
  | succ n ih =>
    cases k with
    | zero => exact absurd hle (Nat.not_succ_le_zero n)
    | succ k =>
      have hle := Nat.le_of_succ_le_succ hle
      refine (extends_holds hle).bind fun again => .ite ?_ (.refl _)
      exact (extends_runRound hle).bind (ih hle).afterRound

end Fuel

/-! ## The loop as it is read -/

lemma Effect.bind_pure_bind {α β γ : Type} (x : Effect α) (f : α → β) (g : β → Effect γ) :
    (x >>= fun a => pure (f a)) >>= g = x >>= fun a => g (f a) := by
  funext m
  rw [run_bind, run_bind, run_bind]
  rcases x m with ⟨_ | _ | _ | _, m₁⟩ <;> rfl

/-- What follows a statement in a list. -/
def continueWith (n : Nat) (rest : List Stmt) : Flow → Effect Flow
  | .normal => executeAll n rest
  | flow => pure flow

lemma executeAll_cons (n : Nat) (s : Stmt) (rest : List Stmt) :
    executeAll (n + 1) (s :: rest) = execute n s >>= continueWith n rest := by
  rw [executeAll]
  rfl

/-- With nothing behind it, a statement is the whole list. -/
lemma executeAll_singleton (n : Nat) (s : Stmt) : executeAll (n + 2) [s] = execute (n + 1) s := by
  rw [executeAll_cons]
  funext m
  rw [run_bind]
  rcases execute (n + 1) s m with ⟨(_ | _ | _) | _ | _ | _, m₁⟩ <;> rfl

/-- What stands in the `while` loop for the body and the increment. -/
def Stmt.round (body : Stmt) : Option Expr → Stmt
  | none => body
  | some e => .block [body, .expression e]

/-- The condition of the `while` loop. -/
def Expr.orTrue (condition : Option Expr) : Expr := condition.getD (.literal (.bool true))

/-- A `while` loop, once its condition is known. -/
lemma repeatWhile_succ (n : Nat) (condition : Expr) (body : Stmt) :
    repeatWhile (n + 1) condition body = evaluate n condition >>= fun value =>
      if value.isTruthy then execute n body >>= afterRound (repeatWhile n condition body)
      else pure .normal := by
  rw [repeatWhile]
  rfl

section Read

variable {condition increment : Option Expr} {body : Stmt}

lemma condition_extends {n : Nat} (f : Bool → Effect Flow) :
    (evaluate n (.orTrue condition) >>= fun value => f value.isTruthy).Extends
      (holds n condition >>= f) := by
  cases condition with
  | none =>
    cases n with
    | zero => exact .exhausted _
    | succ n => exact .refl _
  | some e =>
    rw [holds, bind_pure_bind]
    exact .refl _

lemma extends_condition {n k : Nat} (hlt : n < k) (f : Bool → Effect Flow) :
    (holds n condition >>= f).Extends
      (evaluate k (.orTrue condition) >>= fun value => f value.isTruthy) := by
  cases condition with
  | none =>
    cases k with
    | zero => exact absurd hlt (Nat.not_lt_zero n)
    | succ k => exact .refl _
  | some e =>
    rw [holds, bind_pure_bind]
    exact (extends_evaluate (Nat.le_of_lt hlt) e).before _

lemma round_extends (n : Nat) :
    (execute n (body.round increment)).Extends (runRound inNewScope n body increment) := by
  cases increment with
  | none => exact .refl _
  | some e =>
    rcases n with _ | _ | n
    · exact .exhausted _
    · exact fun m => .inl rfl
    · refine Extends.inNewScope ((extends_execute (Nat.le_add_right n 2) body).bind fun flow => ?_)
      cases flow with
      | normal =>
        show (executeAll n [.expression e]).Extends _
        rcases n with _ | _ | n
        · exact .exhausted _
        · exact fun m => .inl rfl
        · rw [executeAll_singleton]
          exact (extends_evaluate (Nat.le_add_right n 4) e).before _
      | broken | returned => exact .refl _

lemma extends_round (n : Nat) :
    (runRound inNewScope n body increment).Extends (execute (n + 4) (body.round increment)) := by
  cases increment with
  | none => exact extends_execute (Nat.le_add_right n 4) body
  | some e =>
    refine Extends.inNewScope ((extends_execute (Nat.le_add_right n 2) body).bind fun flow => ?_)
    cases flow with
    | normal =>
      show Extends _ (executeAll (n + 2) [.expression e])
      rw [executeAll_singleton]
      exact .refl _
    | broken | returned => exact .refl _

lemma rounds_extends (n : Nat) :
    (repeatWhile n (.orTrue condition) (body.round increment)).Extends
      (runRounds inNewScope condition increment body n) := by
  induction n with
  | zero => exact .exhausted _
  | succ n ih =>
    let loop := repeatWhile n (.orTrue condition) (body.round increment)
    rw [repeatWhile_succ]
    apply (condition_extends fun again =>
      if again then execute n (body.round increment) >>= afterRound loop else pure .normal).trans
    refine .after _ fun again => .ite ?_ (.refl _)
    exact (round_extends n).bind ih.afterRound

lemma extends_rounds (n : Nat) :
    (runRounds inNewScope condition increment body n).Extends
      (repeatWhile (n + 4) (.orTrue condition) (body.round increment)) := by
  induction n with
  | zero => exact .exhausted _
  | succ n ih =>
    let loop := repeatWhile (n + 4) (.orTrue condition) (body.round increment)
    rw [repeatWhile_succ]
    refine Extends.trans ?_ (extends_condition (by omega : n < n + 4) fun again =>
      if again then execute (n + 4) (body.round increment) >>= afterRound loop else pure .normal)
    refine .after _ fun again => .ite ?_ (.refl _)
    exact (extends_round n).bind ih.afterRound

/-- A `for` loop in terms of its rounds. -/
lemma Stmt.forLoop_eq (initializer : Option Stmt) : Stmt.forLoop initializer condition increment
    body = initializer.elim (.whileLoop (.orTrue condition) (body.round increment))
      fun s => .block [s, .whileLoop (.orTrue condition) (body.round increment)] := by
  cases initializer <;> cases increment <;> rfl

/-- **What was read does what a `for` loop does**, as far as its fuel lasts. -/
lemma forLoop_extends (initializer : Option Stmt) (n : Nat) :
    (execute n (.forLoop initializer condition increment body)).Extends
      (runFor inNewScope n condition increment body initializer) := by
  have hloop : ∀ n, (execute n (.whileLoop (.orTrue condition) (body.round increment))).Extends
      (runRounds inNewScope condition increment body n)
    | 0 => .exhausted _
    | n + 1 => (rounds_extends n).trans (extends_runRounds (Nat.le_succ n))
  rw [Stmt.forLoop_eq]
  cases initializer with
  | none => exact hloop n
  | some s =>
    rcases n with _ | _ | n
    · exact .exhausted _
    · exact fun m => .inl rfl
    · show (inNewScope (executeAll (n + 1) _)).Extends _
      rw [executeAll_cons]
      refine Extends.inNewScope ((extends_execute (Nat.le_add_right n 2) s).bind fun flow => ?_)
      cases flow with
      | normal =>
        rcases n with _ | _ | n
        · exact .exhausted _
        · exact fun m => .inl rfl
        · show (executeAll (n + 2) [_]).Extends _
          rw [executeAll_singleton]
          exact (hloop (n + 1)).trans (extends_runRounds (Nat.le_add_right (n + 1) 3))
      | broken | returned => exact .refl _

/-- **A `for` loop does what was read**, with some more fuel for the blocks. -/
lemma extends_forLoop (initializer : Option Stmt) (n : Nat) :
    (runFor inNewScope n condition increment body initializer).Extends
      (execute (n + 8) (.forLoop initializer condition increment body)) := by
  have hloop : ∀ k, n + 4 ≤ k → (runRounds inNewScope condition increment body n).Extends
      (execute (k + 1) (.whileLoop (.orTrue condition) (body.round increment))) := by
    intro k hle
    refine (extends_rounds n).trans ?_
    show Extends (execute (n + 4 + 1) (.whileLoop (.orTrue condition) (body.round increment))) _
    exact extends_execute (Nat.succ_le_succ hle) _
  rw [Stmt.forLoop_eq]
  cases initializer with
  | none => exact hloop (n + 7) (by omega)
  | some s =>
    show Extends _ (inNewScope (executeAll (n + 7) _))
    rw [executeAll_cons]
    refine Extends.inNewScope ((extends_execute (Nat.le_add_right n 6) s).bind fun flow => ?_)
    cases flow with
    | normal =>
      show Extends _ (executeAll (n + 6) [_])
      rw [executeAll_singleton]
      exact hloop (n + 4) (Nat.le_refl _)
    | broken | returned => exact .refl _

/-- **What was read and the loop have the same runs**, up to the fuel that the blocks take. -/
theorem forLoop_same_runs (initializer : Option Stmt) (condition increment : Option Expr)
    (body : Stmt) (n : Nat) :
    (execute n (.forLoop initializer condition increment body)).Extends
        (runFor inNewScope n condition increment body initializer) ∧
      (runFor inNewScope n condition increment body initializer).Extends
        (execute (n + 8) (.forLoop initializer condition increment body)) :=
  ⟨forLoop_extends initializer n, extends_forLoop initializer n⟩

end Read

end LoxLang
