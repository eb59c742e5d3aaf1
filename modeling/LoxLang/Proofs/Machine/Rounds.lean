import LoxLang.Proofs.Machine.Loops
import LoxLang.Proofs.Machine.Mirroring

/-!
# Rounds without frames

The block that is put around the body and the increment of a `for` loop makes a frame in each round,
and its scope in the text declares nothing.  So the frame of the loop can stand for it: the loop
with a frame for each round and the loop without them mirror each other (`mirror_runFor`).

This needs that nothing is declared straight in a round.  The body of a loop that was read is no
declaration, and no declaration stands where it is run in place of the body, as the branch of a
conditional or the body of another loop (`Stmt.Formed`).
-/

namespace LoxLang

open Effect

/-! ## Scopes of rounds -/

lemma Scope.Mirror.exists_head {W : Images} {Γ : LexicalContext} {scope scope' : Scope}
    (h : scope.Mirror W Γ scope') : ∃ id outer, scope' = id :: outer := by
  cases h <;> exact ⟨_, _, rfl⟩

section Enter

variable {α : Type} {S : Site → Prop} {W : Images} {Γ : LexicalContext} {scope scope' : Scope}
  {Q : Images → α → α → Prop} {x x' : Effect α}

/-- In a new scope on both machines. -/
lemma Effect.Mirror.inNewScope (hΓ : scope.Mirror W Γ scope')
    (hx : ∀ {W₁ inner inner'}, W <+: W₁ → (∀ σ, Scope.Mirror W₁ (σ :: Γ) inner inner') →
      Scope.IsOwn W₁ inner → Effect.Mirror S W₁ inner inner' x x' Q) :
    Effect.Mirror S W scope scope' (Effect.inNewScope x) (Effect.inNewScope x') Q := by
  refine (Effect.Mirror.addFrame .empty).bind fun hW frame frame' hframe => ?_
  refine Effect.Mirror.current.bind fun hW₁ outer outer' hcurrent => ?_
  obtain ⟨rfl, rfl⟩ := hcurrent
  have hlater := hW.trans hW₁
  have hnew := Images.grow hW₁ hframe
  exact .within (hx hlater (fun σ => .own hnew (hΓ.grow hlater)) (Scope.isOwn_cons hnew _))

/-- **A round in a frame of its own mirrors a round in the frame of the loop.**  The text has a
scope there that declares nothing. -/
lemma Effect.Mirror.enterRound (hΓ : scope.Mirror W Γ scope') (σ : LexicalScope)
    (hσ : σ.names = [])
    (hx : ∀ {W₁ inner inner'}, W <+: W₁ → Scope.Mirror W₁ (σ :: Γ) inner inner' →
      Effect.Mirror S W₁ inner inner' x x' Q) :
    Effect.Mirror S W scope scope' (Effect.inNewScope x) (Effect.inSameScope x') Q := by
  obtain ⟨loop, outer', rfl⟩ := hΓ.exists_head
  intro m m' hm hscope hscope'
  have hW : W <+: W ++ [.round loop] := List.prefix_append W _
  have hframe : (W ++ [.round loop])[m.store.frames.size]? = some (.round loop) := by
    rw [hm.store.size]
    simp
  have hround : Machine.Mirror S (W ++ [.round loop])
      { m with store := (m.store.addFrame .empty).2 } m' :=
    { hm with store := hm.store.addRound loop }
  have hinside := hx hW (.round hframe hσ (hΓ.grow hW))
  obtain ⟨W₁, hW₁, hend⟩ := hinside.within _ _ hround hscope hscope'
  refine ⟨W₁, hW.trans hW₁, ?_⟩
  subst hscope
  have hrun : Effect.inSameScope x' m' = Effect.within (loop :: loop :: outer') x' m' := by
    show Effect.within (m'.scope.take 1 ++ m'.scope) x' m' = _
    rw [hscope']
    rfl
  rw [hrun]
  exact hend

end Enter

/-! ## Loops without frames for their rounds -/

lemma Stmt.after_of_not_isDeclaration {s : Stmt} (h : s.isDeclaration = false)
    (Γ : LexicalContext) : s.after Γ = Γ := by
  cases s with
  | var | function | classDecl => cases h
  | _ => rfl

section Rounds

variable {S : Site → Prop} {W : Images} {Γ : LexicalContext} {scope scope' : Scope}
  {condition increment : Option Expr} {body : Stmt}

lemma mirror_holds (n : Nat) (hΓ : scope.Mirror W Γ scope')
    (hsites : ∀ s ∈ (Expr.orTrue condition).sites Γ none, S s) :
    Effect.Mirror S W scope scope' (holds n condition) (holds n condition) fun _ => Eq := by
  cases condition with
  | none => exact .pure rfl
  | some e =>
    refine ((mirrorAt S n).evaluate hΓ hsites).bind fun _ _ _ hv => .pure ?_
    exact hv.isTruthy.symm

/-- **A round mirrors a round without a frame.** -/
lemma mirror_runRound (n : Nat) (hΓ : scope.Mirror W Γ scope')
    (hsites : ∀ s ∈ (body.round increment).sites Γ, S s) {P : Token → Prop}
    (hbody : body.Formed P) (hstatement : body.isDeclaration = false) :
    Effect.Mirror S W scope scope' (runRound inNewScope n body increment)
      (runRound inSameScope n body increment) (Flow.Mirror S) := by
  have hrun : ∀ {W : Images} {scope : Scope}, scope.MayRun W body := .inr ⟨⟨P, hbody⟩, hstatement⟩
  cases increment with
  | none => exact (mirrorAt S n).execute hΓ hsites hrun
  | some e =>
    obtain ⟨hfirst, hrest⟩ := List.forall_mem_append.mp hsites
    rw [Stmt.after_of_not_isDeclaration hstatement] at hrest
    obtain ⟨hincrement, -⟩ := List.forall_mem_append.mp hrest
    refine .enterRound hΓ ⟨.block [body, .expression e], []⟩ rfl fun hW hinside => ?_
    refine ((mirrorAt S n).execute hinside hfirst hrun).bind fun hW₁ _ _ hflow => ?_
    cases hflow with
    | normal =>
      refine ((mirrorAt S n).evaluate (hinside.grow hW₁) hincrement).bind fun _ _ _ _ => ?_
      exact .pure .normal
    | broken => exact .pure .broken
    | returned hv => exact .pure (.returned hv)

lemma mirror_runRounds (n : Nat) (hΓ : scope.Mirror W Γ scope')
    (hcondition : ∀ s ∈ (Expr.orTrue condition).sites Γ none, S s)
    (hsites : ∀ s ∈ (body.round increment).sites Γ, S s) {P : Token → Prop}
    (hbody : body.Formed P) (hstatement : body.isDeclaration = false) :
    Effect.Mirror S W scope scope' (runRounds inNewScope condition increment body n)
      (runRounds inSameScope condition increment body n) (Flow.Mirror S) := by
  induction n generalizing W with
  | zero => exact .exhausted
  | succ n ih =>
    refine (mirror_holds n hΓ hcondition).bind fun hW again again' heq => ?_
    subst heq
    refine .ite Iff.rfl ?_ (.pure .normal)
    refine (mirror_runRound n (hΓ.grow hW) hsites hbody hstatement).bind fun hW₁ _ _ hflow => ?_
    cases hflow with
    | normal => exact ih (hΓ.grow (hW.trans hW₁))
    | broken => exact .pure .normal
    | returned hv => exact .pure (.returned hv)

/-- **A `for` loop with frames for its rounds mirrors the loop without them.** -/
lemma mirror_runFor (n : Nat) (hΓ : scope.Mirror W Γ scope') {initializer : Option Stmt}
    (hsites : ∀ s ∈ (Stmt.forLoop initializer condition increment body).sites Γ, S s)
    {P : Token → Prop} (hbody : body.Formed P) (hstatement : body.isDeclaration = false) :
    Effect.Mirror S W scope scope' (runFor inNewScope n condition increment body initializer)
      (runFor inSameScope n condition increment body initializer) (Flow.Mirror S) := by
  rw [Stmt.forLoop_eq] at hsites
  cases initializer with
  | none =>
    obtain ⟨hcondition, hround⟩ := List.forall_mem_append.mp hsites
    exact mirror_runRounds n hΓ hcondition hround hbody hstatement
  | some s =>
    obtain ⟨hfirst, hrest⟩ := List.forall_mem_append.mp hsites
    obtain ⟨hloop, -⟩ := List.forall_mem_append.mp hrest
    obtain ⟨hcondition, hround⟩ := List.forall_mem_append.mp hloop
    refine .inNewScope hΓ fun hW hinside hown => ?_
    refine ((mirrorAt S n).execute (hinside _) hfirst (.inl hown)).bind fun hW₁ _ _ hflow => ?_
    cases hflow with
    | normal =>
      exact mirror_runRounds n (((hinside _).after hown s).grow hW₁) hcondition hround hbody
        hstatement
    | broken => exact .pure .broken
    | returned hv => exact .pure (.returned hv)

end Rounds

end LoxLang
