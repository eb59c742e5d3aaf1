import LoxLang.Proofs.Machine.Rules

/-!
# Runs that put everything back

However an effect ends, the machine is back in the scope, at the call depth and under the limit in
which the effect began, and the table of distances is the one that was there (`Effect.Restores`).
Two places make this more than a reading of the definitions.  A block and the body of a function are
run in another scope (`Effect.within`), and a call one level further down (`Effect.deeper`); what is
put back there has to be what everything inside of them has put back as well, at every fuel, for
every machine and for every way to end.

In particular a called value ends at the depth at which it was begun.  So it makes no difference
whether the old depth is put back after a call or the depth is counted down by one
(`deeper_call`).
-/

namespace LoxLang

/-! ## Effects that put back -/

/-- **The machine is back** where it was, whatever happened to its store, its console and its
clock. -/
structure Machine.Restored (m m₁ : Machine) : Prop where
  scope : m₁.scope = m.scope
  depth : m₁.depth = m.depth
  limit : m₁.limit = m.limit
  distances : m₁.distances = m.distances

namespace Machine.Restored

lemma refl (m : Machine) : m.Restored m := ⟨rfl, rfl, rfl, rfl⟩

lemma trans {m m₁ m₂ : Machine} (h : m.Restored m₁) (h' : m₁.Restored m₂) : m.Restored m₂ where
  scope := h'.scope.trans h.scope
  depth := h'.depth.trans h.depth
  limit := h'.limit.trans h.limit
  distances := h'.distances.trans h.distances

end Machine.Restored

/-- An effect that puts back, however it ends. -/
def Effect.Restores {α : Type} (x : Effect α) : Prop := ∀ m : Machine, m.Restored (x m).2

namespace Effect.Restores

variable {α β : Type} {x y : Effect α}

lemma of_run (h : x.Restores) {m m₁ : Machine} {outcome : Outcome α} (hrun : x m = (outcome, m₁)) :
    m.Restored m₁ := by
  have hrestored := h m
  rwa [hrun] at hrestored

lemma onView (f : Scope → Distances → Store → Outcome α × Store) : (Effect.onView f).Restores :=
  fun _ => ⟨rfl, rfl, rfl, rfl⟩

lemma onStore (f : Store → α × Store) : (Effect.onStore f).Restores :=
  fun _ => ⟨rfl, rfl, rfl, rfl⟩

lemma define (name : String) (value : Value) : (Effect.define name value).Restores :=
  fun _ => ⟨rfl, rfl, rfl, rfl⟩

/-- An effect that ends early skips the rest, and then nothing but the first part has to put
back. -/
lemma bind {f : α → Effect β} (hx : x.Restores) (hf : ∀ a, (f a).Restores) :
    (x >>= f).Restores := by
  intro m
  have hfirst := hx m
  rw [Effect.run_bind]
  rcases hrun : x m with ⟨outcome, m₁⟩
  rw [hrun] at hfirst
  cases outcome with
  | ok a => exact hfirst.trans (hf a m₁)
  | error e => exact hfirst
  | fault f => exact hfirst
  | exhausted => exact hfirst

lemma within (hx : x.Restores) (scope : Scope) : (Effect.within scope x).Restores := by
  intro m
  have hinner := hx { m with scope := scope }
  exact ⟨rfl, hinner.depth, hinner.limit, hinner.distances⟩

lemma deeper (hx : x.Restores) : (Effect.deeper x).Restores := by
  intro m
  have hinner := hx { m with depth := m.depth + 1 }
  exact ⟨hinner.scope, rfl, hinner.limit, hinner.distances⟩

/-- A call is counted while it runs, and only then. -/
lemma counted (hx : x.Restores) (paren : Token) : (Effect.counted paren x).Restores := by
  intro m
  rcases Nat.lt_or_ge m.depth m.limit with hroom | hfull
  · rw [Effect.counted_of_lt hroom]
    exact hx.deeper m
  · rw [Effect.counted_of_le hfull]
    exact .refl m

end Effect.Restores

/-! ## Runs -/

/-- Everything that a run does puts back. -/
lemma restoring : Effect.RunRules @Effect.Restores where
  bind := .bind
  onView f _ := .onView f
  write _ _ := ⟨rfl, rfl, rfl, rfl⟩
  readLine _ := ⟨rfl, rfl, rfl, rfl⟩
  readClock _ := ⟨rfl, rfl, rfl, rfl⟩
  exhausted _ := .refl _
  within scope hx := hx.within scope
  counted paren hx := hx.counted paren

/-- Runs put back, whatever fuel they have. -/
lemma restoresAt (n : Nat) : Effect.HoldsAt @Effect.Restores n := restoring.holdsAt n

/-- **A call can be counted down as well.**  What is called ends at the depth at which it was begun,
so that one less is the old depth. -/
lemma deeper_call (n : Nat) (c : Callable) (arguments : List Value) (paren : Token) (m : Machine) :
    Effect.deeper (call n c arguments paren) m =
      let (outcome, m₁) := call n c arguments paren { m with depth := m.depth + 1 }
      (outcome, { m₁ with depth := m₁.depth - 1 }) := by
  have hrestored := (restoresAt n).call c arguments paren { m with depth := m.depth + 1 }
  simp only [Effect.deeper, hrestored.depth, Nat.add_sub_cancel]

lemma restores_runProgram (fuel : Nat) (program : List Stmt) :
    (runProgram fuel program).Restores := restoring.runProgram fuel program

end LoxLang
