import LoxLang.Proofs.Syntax.Displacement
import LoxLang.Proofs.Syntax.Progress
import LoxLang.Proofs.Syntax.Renumbering

/-!
# A correct beginning

Tokens that are read without a complaint are read the same whatever stands behind them, with one
exception: an `else` behind a conditional would belong to it.  What stands behind them may be of any
sort.  It is read as if nothing stood before it, and what it is complained about is that, too.

The two halves have different reasons.  A beginning without complaints is a list of declarations,
and a declaration reads its own tokens and no others (`Derives.complete`), so the reader of programs
leads to itself behind them (`leads_declarations`).  From there on nothing is known of the tokens.
But a reader by position never looks back behind the place where it starts, so it does the same with
other tokens in front (`shifts_declarations`), and what it does is what the reader over a cursor
does (`declarations_read`).
-/

namespace LoxLang

open Reader in
/-- **The reader of programs comes to the end of declarations** and goes on behind them, with fuel
that is less by one for each declaration at most. -/
lemma leads_declarations {n n' : RefId} {ts : List Token} {program : List Stmt}
    (h : Derives .declarations n ts n' program) {fuel : Nat} {rest : List Token}
    (hfuel : 16 * ts.length + 14 ≤ fuel) (hrest : (rest.headD .atEnd).isKeyword .else_ = false) :
    ∃ fuel', fuel ≤ fuel' + ts.length ∧ (declarations fuel).Leads n ts n'
      (do let others ← declarations fuel'; pure (program ++ others)) rest := by
  induction program generalizing n ts fuel with
  | nil =>
    cases h
    refine ⟨fuel, Nat.le_refl _, fun position errors => ?_⟩
    rw [run_bind]
    simp only [List.nil_append, List.length_nil, Nat.add_zero, run_pure]
    generalize declarations fuel ⟨rest, position, n', errors⟩ = outcome
    obtain ⟨_ | others, c⟩ := outcome <;> rfl
  | cons s body ih =>
    cases h with
    | @moreDeclarations _ ts n₁ _ others _ _ hs hbody =>
      obtain ⟨t, tail, rfl, ht⟩ := hs.exists_head rfl
      obtain ⟨hend, -, -⟩ := Kind.startsDeclaration_ne ht
      simp only [List.length_append, List.length_cons] at hfuel
      obtain ⟨fuel, rfl⟩ := Nat.exists_eq_add_of_le' (by omega : 1 ≤ fuel)
      obtain ⟨fuel', hle, hothers⟩ := ih hbody (by omega : 16 * others.length + 14 ≤ fuel)
      have hfirst := hs.complete fuel (others ++ rest) (by simp only [List.length_cons]; omega)
        (isElse_declarations hbody hrest)
      refine ⟨fuel', by simp only [List.length_append, List.length_cons]; omega, ?_⟩
      rw [declarations]
      refine leads_isAtEnd ?_
      simp only [List.cons_append, List.headD_cons, hend, decide_false, Bool.false_eq_true,
        if_false]
      refine Leads.bind (s := t :: tail) hfirst fun position errors => ?_
      rw [run_bind, hothers position errors, run_bind, run_bind]
      rcases declarations fuel' ⟨rest, position + others.length, n', errors⟩ with ⟨_ | more, c⟩
      · rfl
      · rfl

section Programs

variable {ts us : List Token} {e : Token}

lemma endsOnce_behind (hts : ∀ t ∈ ts, t.kind ≠ .eof) (hus : ∀ t ∈ us, t.kind ≠ .eof)
    (he : e.kind = .eof) : EndsOnce (ts ++ (us ++ [e])) := by
  rw [← List.append_assoc]
  exact endsOnce_append (List.forall_mem_append.mpr ⟨hts, hus⟩) he

/-- **The reader of programs does behind other tokens what it does without them**, with fuel that is
enough in both places. -/
lemma declarations_behind (hts : ∀ t ∈ ts, t.kind ≠ .eof) (hus : ∀ t ∈ us, t.kind ≠ .eof)
    (he : e.kind = .eof) (n : RefId) {fuel : Nat}
    (hfuel : fuelPerToken * ((us ++ [e]).length + 1) ≤ fuel) :
    let reading := readProgram (us ++ [e]) n
    ∃ c, Reader.declarations fuel ⟨us ++ [e], ts.length, n, []⟩ = (some reading.program, c) ∧
      c.errors = reading.errors.map (.later ts.length) ∧ c.nextRef = reading.nextRef ∧
      c.rest = reading.rest := by
  intro reading
  have hend : EndsOnce (us ++ [e]) := endsOnce_append hus he
  have hstart : Cursor.On ⟨us ++ [e], 0, n, []⟩ (us ++ [e]) := ⟨rfl, by simp⟩
  obtain ⟨program, c, -, hp, hq, hon, -⟩ :=
    declarations_read hend hstart (suffices_fuelPerToken (by decide) (Nat.le_refl _))
  have hreading : reading = ⟨program, c.errors, c.nextRef, c.rest⟩ := by
    simp only [reading, readProgram, hp, Option.getD_some]
  -- Behind the other tokens the same is read by position, and so it is over a cursor.
  have hshift : IndexedReader.declarations fuel (ts ++ (us ++ [e])) ⟨ts.length, n, []⟩ =
      .read program (c.stand.behind ts.length) := by
    have hbehind : Stand.behind ts.length ⟨0, n, []⟩ = ⟨ts.length, n, []⟩ := by
      simp [Stand.behind]
    have hshifts : IndexedReader.Shifts ts (us ++ [e]) _ _ := shifts_declarations hfuel
    rcases hshifts ⟨0, n, []⟩ with hscarce | hout | hread
    · cases hq.symm.trans hscarce
    · cases hq.symm.trans hout
    · rw [hbehind] at hread
      rw [hread]
      exact congrArg (IndexedOutcome.behind ts.length) hq
  have hend' := endsOnce_behind hts hus he
  have hstart' : Cursor.On ⟨us ++ [e], ts.length, n, []⟩ (ts ++ (us ++ [e])) :=
    ⟨List.drop_left.symm, by simp⟩
  have henough : Suffices (ts ++ (us ++ [e])) ⟨us ++ [e], ts.length, n, []⟩ 14 fuel := by
    simp only [fuelPerToken] at hfuel
    simp only [Suffices, List.length_append] at hfuel ⊢
    omega
  obtain ⟨program', c', -, hp', hq', hon', -⟩ := declarations_read hend' hstart' henough
  have hsame := hq'.symm.trans hshift
  simp only [IndexedOutcome.read.injEq, Stand.behind, Cursor.stand, Stand.mk.injEq] at hsame
  obtain ⟨rfl, hposition, hnumber, herrors⟩ := hsame
  rw [hreading]
  refine ⟨c', hp', herrors, hnumber, ?_⟩
  rw [hon'.rest, hon.rest, hposition, Nat.add_comm, List.drop_length_add_append]

/-- **Exactly what is read behind a correct beginning**, when the numbers go on. -/
lemma readProgram_behind (hts : ∀ t ∈ ts, t.kind ≠ .eof) (hus : ∀ t ∈ us, t.kind ≠ .eof)
    (he : e.kind = .eof) (helse : ∀ t, us.head? = some t → t.kind ≠ .keyword .else_) {n : RefId}
    (hquiet : (readProgram (ts ++ [e]) n).errors = []) :
    let first := readProgram (ts ++ [e]) n
    let second := readProgram (us ++ [e]) first.nextRef
    readProgram (ts ++ us ++ [e]) n =
      ⟨first.program ++ second.program, second.errors.map (.later ts.length), second.nextRef,
        second.rest⟩ := by
  intro first second
  have hderives : Derives .declarations n ts first.nextRef first.program := by
    have h := derives_readProgram hquiet
    have hkept : ∀ t ∈ ts, (!t.isEof) = true := by simpa [Token.isEof] using hts
    rw [List.takeWhile_append_of_pos hkept] at h
    simpa [Token.isEof, he] using h
  have hrest : ((us ++ [e]).headD .atEnd).isKeyword .else_ = false := by
    cases us with
    | nil => simp [Token.isKeyword, he]
    | cons t rest => simpa [Token.isKeyword] using helse t rfl
  have hfuel : 16 * ts.length + 14 ≤ fuelPerToken * ((ts ++ us ++ [e]).length + 1) := by
    simp only [fuelPerToken, List.length_append]
    omega
  obtain ⟨fuel, hle, hleads⟩ := leads_declarations hderives hfuel hrest
  have hfuel' : fuelPerToken * ((us ++ [e]).length + 1) ≤ fuel := by
    simp only [fuelPerToken, List.length_append] at hle ⊢
    omega
  obtain ⟨c, hread, herrors, hnumber, hleft⟩ := declarations_behind hts hus he first.nextRef hfuel'
  have hrun := hleads 0 []
  rw [Nat.zero_add, Reader.run_bind, hread] at hrun
  rw [← herrors, ← hnumber, ← hleft]
  rw [List.append_assoc] at hrun ⊢
  simp only [readProgram, hrun, Reader.run_pure, Option.getD_some, second]

lemma exists_isEof_append (ts : List Token) (he : e.kind = .eof) :
    ∃ t ∈ ts ++ [e], t.isEof = true := ⟨e, by simp, by simp [Token.isEof, he]⟩

/-- **A correct beginning is read the same whatever follows.**  If tokens are read without a
complaint, and no `else` stands behind them, then what stands behind them is read as it is read
alone, whether it is correct or not: the statements are those of the beginning and then those of
what follows, and the complaints are those about what follows.

Each of the three readings may start from a number of its own.  The statements are the same but for
the numbers of their references, and the complaints but for the number of tokens read before. -/
theorem readProgram_append (hts : ∀ t ∈ ts, t.kind ≠ .eof) (hus : ∀ t ∈ us, t.kind ≠ .eof)
    (he : e.kind = .eof) (helse : ∀ t, us.head? = some t → t.kind ≠ .keyword .else_) {n₁ : RefId}
    (hquiet : (readProgram (ts ++ [e]) n₁).errors = []) (n n₂ : RefId) :
    let first := readProgram (ts ++ [e]) n₁
    let second := readProgram (us ++ [e]) n₂
    let both := readProgram (ts ++ us ++ [e]) n
    both.program = Stmt.renumberAll (moved n₁ n) first.program ++
        Stmt.renumberAll (moved n₂ (moved n₁ n first.nextRef)) second.program ∧
      both.errors = second.errors.map (.later ts.length) ∧ both.log = second.log := by
  intro first second both
  obtain ⟨hprogram, herrors, hnumber⟩ := readProgram_renumbered (exists_isEof_append ts he) n₁ n
  obtain ⟨hprogram', herrors', -⟩ :=
    readProgram_renumbered (exists_isEof_append us he) n₂ (readProgram (ts ++ [e]) n).nextRef
  have hboth : both = ⟨_, _, _, _⟩ := readProgram_behind hts hus he helse (herrors.trans hquiet)
  rw [hprogram, hprogram', herrors', hnumber] at hboth
  refine ⟨congrArg Reading.program hboth, congrArg Reading.errors hboth, ?_⟩
  have hlog : both.log = (second.errors.map (.later ts.length)).map SyntaxError.diagnostic :=
    congrArg Reading.log hboth
  rw [hlog, List.map_map]
  exact List.map_congr_left fun x _ => SyntaxError.diagnostic_later ts.length x

/-- The tokens of `if (a) b;` and of `) print c;` behind them, where only the parenthesis is
complained about. -/
theorem readProgram_append_conditional :
    let ts : List Token := [⟨.keyword .if_, "if", 1⟩, ⟨.mark .leftParen, "(", 1⟩,
      ⟨.identifier, "a", 1⟩, ⟨.mark .rightParen, ")", 1⟩, ⟨.identifier, "b", 1⟩,
      ⟨.mark .semicolon, ";", 1⟩]
    let us : List Token := [⟨.mark .rightParen, ")", 1⟩, ⟨.keyword .print_, "print", 1⟩,
      ⟨.identifier, "c", 1⟩, ⟨.mark .semicolon, ";", 1⟩]
    let e : Token := ⟨.eof, "", 1⟩
    (readProgram (ts ++ us ++ [e]) 7).program =
        Stmt.renumberAll (moved 0 7) (readProgram (ts ++ [e]) 0).program ++
          Stmt.renumberAll (moved 3 9) (readProgram (us ++ [e]) 3).program ∧
      (readProgram (ts ++ us ++ [e]) 7).errors.map (·.position) = [6] ∧
      (readProgram (ts ++ us ++ [e]) 7).log = (readProgram (us ++ [e]) 3).log := by
  intro ts us e
  have hquiet : (readProgram (ts ++ [e]) 0).errors = [] := by decide +kernel
  have helse : ∀ t, us.head? = some t → t.kind ≠ .keyword .else_ := by
    rintro t ht
    cases ht
    decide
  obtain ⟨hprogram, -, hlog⟩ :=
    @readProgram_append ts us e (by decide) (by decide) rfl helse 0 hquiet 7 3
  have hnumber : moved 0 7 (readProgram (ts ++ [e]) 0).nextRef = 9 := by decide +kernel
  rw [hnumber] at hprogram
  exact ⟨hprogram, by decide +kernel, hlog⟩

end Programs

end LoxLang
