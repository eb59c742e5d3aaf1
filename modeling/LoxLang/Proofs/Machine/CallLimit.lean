import LoxLang.Proofs.Machine.Rules

/-!
# The limit of calls only cuts runs short

How deep calls may nest is looked at in one place, where a call is about to be made and may be
refused.  So two runs of one program that differ in the limit only, one limit `d` and the other at
least `d`, go side by side: they end in the same way on the same machine, unless the run with the
limit `d` is stopped by an overflow (`Effect.Cut.wider`).  Where it is stopped the other one goes
on, and what it does from there on can be seen on its console only as more output and less input
(`Console.Continues`).

Both halves are needed at once.  When the first of two effects overflows, the second one is run with
the higher limit only, and nothing is left to compare it with; all there is to say is that the
console continues.
-/

namespace LoxLang

/-! ## Consoles that continue -/

/-- **A console continues another**: more may have been written, and more may have been read. -/
structure Console.Continues (c c' : Console) : Prop where
  events : c.events.toList <+: c'.events.toList
  input : c'.input <:+ c.input

namespace Console.Continues

lemma refl (c : Console) : c.Continues c := ⟨List.prefix_rfl, List.suffix_rfl⟩

lemma trans {c c₁ c₂ : Console} (h : c.Continues c₁) (h' : c₁.Continues c₂) : c.Continues c₂ :=
  ⟨h.events.trans h'.events, h'.input.trans h.input⟩

lemma write (c : Console) (event : Event) : c.Continues (c.write event) where
  events := ⟨[event], by simp [Console.write]⟩
  input := List.suffix_rfl

lemma readLine (c : Console) : c.Continues c.readLine.2 := by
  unfold Console.readLine
  split
  · exact refl c
  · next line rest hinput =>
    exact ⟨List.prefix_rfl, hinput ▸ List.suffix_cons line rest⟩

end Console.Continues

/-- The machine under another limit. -/
def Machine.withLimit (m : Machine) (limit : Nat) : Machine := { m with limit := limit }

@[simp] lemma Machine.withLimit_self (m : Machine) : m.withLimit m.limit = m := rfl

@[simp] lemma Machine.limit_withLimit (m : Machine) (limit : Nat) :
    (m.withLimit limit).limit = limit := rfl

@[simp] lemma Machine.console_withLimit (m : Machine) (limit : Nat) :
    (m.withLimit limit).console = m.console := rfl

/-- An outcome is the refusal of a call for want of room. -/
def Outcome.IsOverflow {α : Type} (outcome : Outcome α) : Prop :=
  ∃ token, outcome = .error ⟨token, .stackOverflow⟩

/-! ## Effects that the limit only cuts short -/

/-- **The limit only cuts an effect short.**  Under a higher limit it does the same, unless it was
stopped by an overflow; then it goes on, and its console continues. -/
structure Effect.Cut {α : Type} (x : Effect α) : Prop where
  limit : ∀ m : Machine, (x m).2.limit = m.limit
  continues : ∀ m : Machine, m.console.Continues (x m).2.console
  wider : ∀ (m : Machine) limit, m.limit ≤ limit →
    x (m.withLimit limit) = ((x m).1, (x m).2.withLimit limit) ∨
      (x m).1.IsOverflow ∧ (x m).2.console.Continues (x (m.withLimit limit)).2.console

namespace Effect.Cut

variable {α β : Type} {x y : Effect α}

/-- An effect that does not look at the limit is not cut short at all. -/
lemma of_blind
    (hblind : ∀ (m : Machine) limit,
      x (m.withLimit limit) = ((x m).1, (x m).2.withLimit limit))
    (hcontinues : ∀ m : Machine, m.console.Continues (x m).2.console) : x.Cut where
  limit m := by
    have hself := hblind m m.limit
    rw [Machine.withLimit_self] at hself
    rw [hself]
    rfl
  continues := hcontinues
  wider m limit _ := .inl (hblind m limit)

/-- If the first effect overflows, the second is run under the higher limit only. -/
lemma bind {f : α → Effect β} (hx : x.Cut) (hf : ∀ a, (f a).Cut) : (x >>= f).Cut where
  limit m := by
    have hfirst := hx.limit m
    rw [Effect.run_bind]
    rcases hrun : x m with ⟨outcome, m₁⟩
    rw [hrun] at hfirst
    cases outcome with
    | ok a => exact ((hf a).limit m₁).trans hfirst
    | error | fault | exhausted => exact hfirst
  continues m := by
    have hfirst := hx.continues m
    rw [Effect.run_bind]
    rcases hrun : x m with ⟨outcome, m₁⟩
    rw [hrun] at hfirst
    cases outcome with
    | ok a => exact hfirst.trans ((hf a).continues m₁)
    | error | fault | exhausted => exact hfirst
  wider m limit hle := by
    have hlimit := hx.limit m
    have hfirst := hx.wider m limit hle
    rw [Effect.run_bind, Effect.run_bind]
    rcases hrun : x m with ⟨outcome, m₁⟩
    rw [hrun] at hlimit hfirst
    rcases hfirst with hsame | ⟨⟨token, hoverflow⟩, hcontinues⟩
    · rw [hsame]
      cases outcome with
      | ok a => exact (hf a).wider m₁ limit (hlimit ▸ hle)
      | error | fault | exhausted => exact .inl rfl
    · simp only at hoverflow
      subst hoverflow
      refine .inr ⟨⟨token, rfl⟩, hcontinues.trans ?_⟩
      rcases x (m.withLimit limit) with ⟨outcome', m₁'⟩
      cases outcome' with
      | ok a => exact (hf a).continues m₁'
      | error | fault | exhausted => exact .refl _

lemma within (hx : x.Cut) (scope : Scope) : (Effect.within scope x).Cut where
  limit m := hx.limit { m with scope := scope }
  continues m := hx.continues { m with scope := scope }
  wider m limit hle := by
    rcases hx.wider { m with scope := scope } limit hle with hsame | hcut
    · refine .inl ?_
      show Effect.within scope x (m.withLimit limit) = _
      have hinner : x { m.withLimit limit with scope := scope } = _ := hsame
      simp only [Effect.within, hinner]
      rfl
    · exact .inr hcut

lemma deeper (hx : x.Cut) : (Effect.deeper x).Cut where
  limit m := hx.limit { m with depth := m.depth + 1 }
  continues m := hx.continues { m with depth := m.depth + 1 }
  wider m limit hle := by
    rcases hx.wider { m with depth := m.depth + 1 } limit hle with hsame | hcut
    · refine .inl ?_
      have hinner : x { m.withLimit limit with depth := (m.withLimit limit).depth + 1 } = _ := hsame
      simp only [Effect.deeper, hinner]
      rfl
    · exact .inr hcut

/-- **The one place where the limit is looked at.**  If there is room under the lower limit, there
is room under the higher one. -/
lemma counted (hx : x.Cut) (paren : Token) : (Effect.counted paren x).Cut where
  limit m := by
    rcases Nat.lt_or_ge m.depth m.limit with hroom | hfull
    · rw [Effect.counted_of_lt hroom]
      exact hx.deeper.limit m
    · rw [Effect.counted_of_le hfull]
  continues m := by
    rcases Nat.lt_or_ge m.depth m.limit with hroom | hfull
    · rw [Effect.counted_of_lt hroom]
      exact hx.deeper.continues m
    · rw [Effect.counted_of_le hfull]
      exact .refl _
  wider m limit hle := by
    rcases Nat.lt_or_ge m.depth m.limit with hroom | hfull
    · have hroom' : (m.withLimit limit).depth < (m.withLimit limit).limit :=
        Nat.lt_of_lt_of_le hroom hle
      rw [Effect.counted_of_lt hroom, Effect.counted_of_lt hroom']
      exact hx.deeper.wider m limit hle
    · rw [Effect.counted_of_le hfull]
      refine .inr ⟨⟨paren, rfl⟩, ?_⟩
      show m.console.Continues (Effect.counted paren x (m.withLimit limit)).2.console
      rcases Nat.lt_or_ge m.depth limit with hroom' | hfull'
      · rw [Effect.counted_of_lt (m := m.withLimit limit) hroom']
        exact hx.deeper.continues (m.withLimit limit)
      · rw [Effect.counted_of_le (m := m.withLimit limit) hfull']
        exact .refl _

end Effect.Cut

/-! ## Runs -/

/-- **The limit only cuts runs short.** -/
lemma cutting : Effect.RunRules @Effect.Cut where
  bind := .bind
  onView _ _ := .of_blind (fun _ _ => rfl) fun _ => .refl _
  write event := .of_blind (fun _ _ => rfl) fun m => .write m.console event
  readLine := .of_blind (fun _ _ => rfl) fun m => .readLine m.console
  readClock := .of_blind (fun _ _ => rfl) fun _ => .refl _
  exhausted := .of_blind (fun _ _ => rfl) fun _ => .refl _
  within scope hx := hx.within scope
  counted paren hx := hx.counted paren

end LoxLang
