import LoxLang.Proofs.Syntax.Indexed
import LoxLang.Proofs.Syntax.Soundness

/-!
# Reading makes progress and stays in range

On tokens that end with the end of the source, and have it nowhere else, the readers by position and
the readers over a cursor do the same (`Tracks`).  So no reader ever looks where there is no token,
and with fuel in proportion to the tokens it comes to an end.

The same description says what a reader adds to the complaints.  A complaint that ends a declaration
is about the token at the position where it is made.  Behind it the reader moves on by one token at
least, unless it stands at the end of the source, so that the next one of its kind is further on.
Inside a reader these complaints lie between the position where it starts and the one where it ends;
only a reader that fails has one at the very position where it stops (`Orderly`).
-/

namespace LoxLang

/-! ## Complaints in order -/

/-- Does the complaint end a declaration before the end of the source? -/
def SyntaxError.stops (e : SyntaxError) : Bool := e.cause.isFatal && !e.token.isEof

/-- **Complaints that are in order.**  Those that end a declaration are about the token at their
position, and those of them before the end of the source have positions that go up, from `low` on
and below `high`. -/
structure Orderly (tokens : List Token) (low high : Nat) (errors : List SyntaxError) : Prop where
  located : ∀ e ∈ errors, e.cause.isFatal = true → tokens[e.position]? = some e.token
  within : ∀ e ∈ errors, e.stops = true → low ≤ e.position ∧ e.position < high
  ascending : (errors.filter SyntaxError.stops).Pairwise (·.position < ·.position)

namespace Orderly

variable {tokens : List Token} {low middle high : Nat} {errors errors' : List SyntaxError}

lemma nil : Orderly tokens low high [] := ⟨by simp, by simp, by simp⟩

lemma mono (h : Orderly tokens low middle errors) (hle : middle ≤ high) :
    Orderly tokens low high errors where
  located := h.located
  within e he hstops := ⟨(h.within e he hstops).1, Nat.lt_of_lt_of_le (h.within e he hstops).2 hle⟩
  ascending := h.ascending

lemma lower (h : Orderly tokens middle high errors) (hle : low ≤ middle) :
    Orderly tokens low high errors where
  located := h.located
  within e he hstops := ⟨Nat.le_trans hle (h.within e he hstops).1, (h.within e he hstops).2⟩
  ascending := h.ascending

/-- Complaints made one after another. -/
lemma append (h : Orderly tokens low middle errors) (h' : Orderly tokens middle high errors')
    (hlow : low ≤ middle) (hhigh : middle ≤ high) :
    Orderly tokens low high (errors ++ errors') where
  located := List.forall_mem_append.mpr ⟨h.located, h'.located⟩
  within := by
    rw [List.forall_mem_append]
    constructor
    · intro e he hstops
      have := h.within e he hstops
      omega
    · intro e he hstops
      have := h'.within e he hstops
      omega
  ascending := by
    rw [List.filter_append, List.pairwise_append]
    refine ⟨h.ascending, h'.ascending, fun e he e' he' => ?_⟩
    rw [List.mem_filter] at he he'
    have hbefore := h.within e he.1 he.2
    have hbehind := h'.within e' he'.1 he'.2
    omega

/-- A complaint that does not end a declaration. -/
lemma passing {e : SyntaxError} (h : e.cause.isFatal = false) : Orderly tokens low high [e] := by
  refine ⟨by simp [h], by simp [SyntaxError.stops, h], ?_⟩
  simp [SyntaxError.stops, h]

/-- A complaint that ends a declaration, about the token at its position. -/
lemma fatal {position : Nat} {t : Token} (h : tokens[position]? = some t) (cause : SyntaxCause) :
    Orderly tokens position (position + 1) [⟨t, cause, position⟩] := by
  refine ⟨by simpa using fun _ => h, by simp, ?_⟩
  exact (List.pairwise_singleton _ _).filter _

end Orderly

/-! ## Cursors on a list of tokens -/

/-- The tokens end with the end of the source and have it nowhere else. -/
structure EndsOnce (tokens : List Token) : Prop where
  isEof_iff : ∀ i t, tokens[i]? = some t → (t.isEof = true ↔ i + 1 = tokens.length)

/-- The place of a cursor in a list of tokens, which it must not leave. -/
structure Cursor.On (c : Cursor) (tokens : List Token) : Prop where
  rest : c.rest = tokens.drop c.position
  position : c.position < tokens.length

/-- Where a reader by position stands when it is at the place of a cursor. -/
def Cursor.stand (c : Cursor) : Stand := ⟨c.position, c.nextRef, c.errors⟩

namespace Cursor.On

variable {tokens : List Token} {c : Cursor}

lemma token (h : c.On tokens) : tokens[c.position]? = some c.token := by
  have hlt := h.position
  rw [Cursor.token, h.rest, List.headD_eq_head?_getD, List.head?_drop,
    List.getElem?_eq_getElem hlt]
  rfl

lemma isAtEnd_iff (h : c.On tokens) (hend : EndsOnce tokens) :
    c.isAtEnd = true ↔ c.position + 1 = tokens.length := hend.isEof_iff _ _ h.token

/-- The cursor one token further on. -/
lemma next (h : c.On tokens) (hend : EndsOnce tokens) (hopen : c.isAtEnd = false) :
    c.advance = { c with rest := c.rest.tail, position := c.position + 1 } ∧
      c.advance.On tokens := by
  have hstep : c.advance = { c with rest := c.rest.tail, position := c.position + 1 } := by
    simp [Cursor.advance, hopen]
  have hlt : c.position + 1 < tokens.length := by
    have hne : ¬c.position + 1 = tokens.length := by
      rw [← h.isAtEnd_iff hend, hopen]
      simp
    have := h.position
    omega
  rw [hstep]
  exact ⟨rfl, by simp [h.rest], hlt⟩

end Cursor.On

/-! ## Readers that do the same -/

/-- **A reader by position does what a reader over a cursor does.**  It never looks where there is
no token, and it runs out of fuel only if there is not enough.  A result satisfies `post`, which may
look at the cursor behind it. -/
inductive Tracks {α : Type} (tokens : List Token) (enough : Prop) (q : IndexedReader α)
    (p : Reader α) (c : Cursor) (post : Cursor → α → Prop) : Prop
  | read {a : α} {c' : Cursor} {added : List SyntaxError} (hp : p c = (some a, c'))
      (hq : q tokens c.stand = .read a c'.stand) (hon : c'.On tokens)
      (hle : c.position ≤ c'.position) (herrors : c'.errors = c.errors ++ added)
      (hadded : Orderly tokens c.position c'.position added) (hpost : post c' a)
  | failed {c' : Cursor} {added : List SyntaxError} (hp : p c = (none, c'))
      (hq : q tokens c.stand = .failed c'.stand) (hon : c'.On tokens)
      (hle : c.position ≤ c'.position) (herrors : c'.errors = c.errors ++ added)
      (hadded : Orderly tokens c.position (c'.position + 1) added)
  | exhausted (hq : q tokens c.stand = .exhausted) (hscarce : ¬enough)

namespace Tracks

variable {α β : Type} {tokens : List Token} {enough enough' : Prop} {q : IndexedReader α}
  {p : Reader α} {c : Cursor} {post post' : Cursor → α → Prop}

/-- A description can be weakened, and may count on less fuel. -/
lemma mono (h : Tracks tokens enough' q p c post') (henough : enough → enough')
    (hpost : ∀ c' a, c.position ≤ c'.position → post' c' a → post c' a) :
    Tracks tokens enough q p c post := by
  cases h with
  | read hp hq hon hle herrors hadded h' =>
    exact .read hp hq hon hle herrors hadded (hpost _ _ hle h')
  | failed hp hq hon hle herrors hadded => exact .failed hp hq hon hle herrors hadded
  | exhausted hq hscarce => exact .exhausted hq fun h => hscarce (henough h)

lemma of_enough (h : Tracks tokens enough' q p c post) (henough : enough → enough') :
    Tracks tokens enough q p c post := h.mono henough fun _ _ _ h => h

/-- **One reader behind another.** -/
lemma bind {g : α → IndexedReader β} {f : α → Reader β} {post₂ : Cursor → β → Prop}
    (h : Tracks tokens enough q p c post)
    (hnext : ∀ a c₁, c₁.On tokens → c.position ≤ c₁.position → post c₁ a →
      Tracks tokens enough (g a) (f a) c₁ post₂) :
    Tracks tokens enough (q >>= g) (p >>= f) c post₂ := by
  cases h with
  | @read a c₁ added hp hq hon hle herrors hadded hpost =>
    have hp' : (p >>= f) c = f a c₁ := by rw [Reader.run_bind, hp]
    have hq' : (q >>= g) tokens c.stand = g a tokens c₁.stand := by
      rw [IndexedReader.run_bind, hq]
    cases hnext a c₁ hon hle hpost with
    | @read b c₂ added₂ hp₂ hq₂ hon₂ hle₂ herrors₂ hadded₂ hpost₂ =>
      have hboth : c₂.errors = c.errors ++ (added ++ added₂) := by
        rw [herrors₂, herrors, List.append_assoc]
      exact .read (hp'.trans hp₂) (hq'.trans hq₂) hon₂ (Nat.le_trans hle hle₂) hboth
        (hadded.append hadded₂ hle hle₂) hpost₂
    | @failed c₂ added₂ hp₂ hq₂ hon₂ hle₂ herrors₂ hadded₂ =>
      have hboth : c₂.errors = c.errors ++ (added ++ added₂) := by
        rw [herrors₂, herrors, List.append_assoc]
      exact .failed (hp'.trans hp₂) (hq'.trans hq₂) hon₂ (Nat.le_trans hle hle₂) hboth
        (hadded.append hadded₂ hle (by omega))
    | exhausted hq₂ hscarce => exact .exhausted (hq'.trans hq₂) hscarce
  | @failed c₁ added hp hq hon hle herrors hadded =>
    have hp' : (p >>= f) c = (none, c₁) := by rw [Reader.run_bind, hp]
    have hq' : (q >>= g) tokens c.stand = .failed c₁.stand := by
      rw [IndexedReader.run_bind, hq]
    exact .failed hp' hq' hon hle herrors hadded
  | exhausted hq hscarce =>
    have hq' : (q >>= g) tokens c.stand = .exhausted := by rw [IndexedReader.run_bind, hq]
    exact .exhausted hq' hscarce

/-- A reader that makes no complaint, before another one. -/
lemma after {γ : Type} {q₁ : IndexedReader β} {p₁ : Reader γ} {b : β} {u : γ} {c₁ : Cursor}
    {g : β → IndexedReader α} {f : γ → Reader α} (hq₁ : q₁ tokens c.stand = .read b c₁.stand)
    (hp₁ : p₁ c = (some u, c₁)) (hle : c.position ≤ c₁.position) (hsame : c₁.errors = c.errors)
    (h : Tracks tokens enough (g b) (f u) c₁ post) :
    Tracks tokens enough (q₁ >>= g) (p₁ >>= f) c post := by
  have hp' : (p₁ >>= f) c = f u c₁ := by rw [Reader.run_bind, hp₁]
  have hq' : (q₁ >>= g) tokens c.stand = g b tokens c₁.stand := by
    rw [IndexedReader.run_bind, hq₁]
  cases h with
  | read hp hq hon hle' herrors hadded hpost =>
    exact .read (hp'.trans hp) (hq'.trans hq) hon (Nat.le_trans hle hle') (hsame ▸ herrors)
      (hadded.lower hle) hpost
  | failed hp hq hon hle' herrors hadded =>
    exact .failed (hp'.trans hp) (hq'.trans hq) hon (Nat.le_trans hle hle') (hsame ▸ herrors)
      (hadded.lower hle)
  | exhausted hq hscarce => exact .exhausted (hq'.trans hq) hscarce

end Tracks

/-! ## The primitive readers -/

section Primitives

variable {α : Type} {tokens : List Token} {enough : Prop} {c : Cursor} {post : Cursor → α → Prop}

lemma tracks_pure {a : α} (hc : c.On tokens) (ha : post c a) :
    Tracks tokens enough (pure a) (pure a) c post :=
  .read rfl rfl hc (Nat.le_refl _) (List.append_nil _).symm .nil ha

/-- Without fuel there is not enough. -/
lemma tracks_exhausted {p : Reader α} (hscarce : ¬enough) :
    Tracks tokens enough IndexedReader.exhausted p c post := .exhausted rfl hscarce

lemma run_peek (hc : c.On tokens) : IndexedReader.peek tokens c.stand = .read c.token c.stand := by
  simp [IndexedReader.peek, Cursor.stand, hc.token]

/-- Looking at the next token moves nothing. -/
lemma tracks_peek (hc : c.On tokens) {g : Token → IndexedReader α} {f : Token → Reader α}
    (h : Tracks tokens enough (g c.token) (f c.token) c post) :
    Tracks tokens enough (IndexedReader.peek >>= g) (Reader.peek >>= f) c post :=
  .after (run_peek hc) rfl (Nat.le_refl _) rfl h

lemma run_isAtEnd (hc : c.On tokens) :
    IndexedReader.isAtEnd tokens c.stand = .read c.isAtEnd c.stand := by
  rw [IndexedReader.isAtEnd, IndexedReader.run_bind, run_peek hc]
  rfl

lemma tracks_isAtEnd (hc : c.On tokens) {g : Bool → IndexedReader α} {f : Bool → Reader α}
    (h : Tracks tokens enough (g c.isAtEnd) (f c.isAtEnd) c post) :
    Tracks tokens enough (IndexedReader.isAtEnd >>= g) (Reader.isAtEnd >>= f) c post :=
  .after (run_isAtEnd hc) rfl (Nat.le_refl _) rfl h

lemma run_check (hc : c.On tokens) (test : Token → Bool) :
    IndexedReader.check test tokens c.stand = .read (!c.isAtEnd && test c.token) c.stand := by
  rw [IndexedReader.check, IndexedReader.run_bind, run_isAtEnd hc]
  cases c.isAtEnd
  · simp [run_peek hc]
  · simp

lemma tracks_check (hc : c.On tokens) {test : Token → Bool} {g : Bool → IndexedReader α}
    {f : Bool → Reader α}
    (h : Tracks tokens enough (g (!c.isAtEnd && test c.token)) (f (!c.isAtEnd && test c.token)) c
      post) :
    Tracks tokens enough (IndexedReader.check test >>= g) (Reader.check test >>= f) c post :=
  .after (run_check hc test) rfl (Nat.le_refl _) rfl h

/-- Moving on gives back the token that was passed. -/
lemma run_advance (hend : EndsOnce tokens) (hc : c.On tokens) (hopen : c.isAtEnd = false) :
    IndexedReader.advance tokens c.stand = .read c.token c.advance.stand := by
  rw [IndexedReader.advance, IndexedReader.run_bind, run_isAtEnd hc, hopen,
    (hc.next hend hopen).1]
  simp [IndexedReader.step, IndexedReader.previous, Cursor.stand, hc.token]

/-- Moving past a token that is not the end of the source. -/
lemma tracks_advance (hend : EndsOnce tokens) (hc : c.On tokens) {k : Kind}
    (hkind : c.token.kind = k) (hk : k ≠ .eof) {g : Token → IndexedReader α} {f : Unit → Reader α}
    (h : ∀ c₁, c₁.On tokens → c₁.position = c.position + 1 →
      Tracks tokens enough (g c.token) (f ()) c₁ post) :
    Tracks tokens enough (IndexedReader.advance >>= g) (Reader.advance >>= f) c post := by
  have hopen := Cursor.isAtEnd_eq_false_of_kind hkind hk
  obtain ⟨hstep, hon⟩ := hc.next hend hopen
  refine .after (run_advance hend hc hopen) rfl ?_ Cursor.errors_advance (h _ hon ?_)
  · rw [hstep]
    exact Nat.le_succ _
  · rw [hstep]

/-- A token is read if it passes the test, and otherwise the cursor stays. -/
lemma tracks_accept? (hend : EndsOnce tokens) (hc : c.On tokens) {test : Token → Bool} :
    Tracks tokens enough (IndexedReader.accept? test) (Reader.accept? test) c
      fun c' o => o.isSome = true → c.position < c'.position := by
  have hrun : IndexedReader.accept? test tokens c.stand =
      (if !c.isAtEnd && test c.token then do
        let t ← IndexedReader.advance
        pure (some t)
      else pure none : IndexedReader (Option Token)) tokens c.stand := by
    rw [IndexedReader.accept?, IndexedReader.run_bind, run_check hc]
  by_cases hpass : (!c.isAtEnd && test c.token) = true
  · obtain ⟨hopen, -⟩ : c.isAtEnd = false ∧ test c.token = true := by simpa using hpass
    obtain ⟨hstep, hon⟩ := hc.next hend hopen
    have hmoved : c.advance.position = c.position + 1 := by rw [hstep]
    have hsame : c.advance.errors = c.errors := by rw [hstep]
    rw [if_pos hpass, IndexedReader.run_bind, run_advance hend hc hopen] at hrun
    refine .read (a := some c.token) (by rw [Reader.accept?, if_pos hpass]) hrun hon (by omega)
      (hsame.trans (List.append_nil _).symm) .nil fun _ => ?_
    omega
  · rw [if_neg hpass] at hrun
    refine .read (a := none) (by rw [Reader.accept?, if_neg hpass]) hrun hc (Nat.le_refl _)
      (List.append_nil _).symm .nil ?_
    simp

/-- A complaint about the token at the cursor that ends a reader. -/
lemma tracks_complain_fail (hc : c.On tokens) {what : Expectation} :
    Tracks tokens enough
      (IndexedReader.complain c.token (.expected what) >>= fun _ => IndexedReader.fail)
      (Reader.complain c.token (.expected what) >>= fun _ => Reader.fail) c post :=
  .failed rfl rfl ⟨hc.rest, hc.position⟩ (Nat.le_refl _) rfl (.fatal hc.token _)

/-- A complaint that ends nothing. -/
lemma tracks_complain (hc : c.On tokens) {t : Token} {cause : SyntaxCause}
    (hcause : cause.isFatal = false) :
    Tracks tokens enough (IndexedReader.complain t cause) (Reader.complain t cause) c
      fun c' _ => c'.position = c.position :=
  .read rfl rfl ⟨hc.rest, hc.position⟩ (Nat.le_refl _) rfl (.passing hcause) rfl

/-- A token that has to pass the test. -/
lemma tracks_expect (hend : EndsOnce tokens) (hc : c.On tokens) {test : Token → Bool}
    {what : Expectation} :
    Tracks tokens enough (IndexedReader.expect test what) (Reader.expect test what) c
      fun c' _ => c.position < c'.position := by
  have hrun : IndexedReader.expect test what tokens c.stand =
      (if !c.isAtEnd && test c.token then IndexedReader.advance
      else do
        let t ← IndexedReader.peek
        IndexedReader.complain t (.expected what)
        IndexedReader.fail : IndexedReader Token) tokens c.stand := by
    rw [IndexedReader.expect, IndexedReader.run_bind, run_check hc]
  by_cases hpass : (!c.isAtEnd && test c.token) = true
  · obtain ⟨hopen, -⟩ : c.isAtEnd = false ∧ test c.token = true := by simpa using hpass
    obtain ⟨hstep, hon⟩ := hc.next hend hopen
    have hmoved : c.advance.position = c.position + 1 := by rw [hstep]
    have hsame : c.advance.errors = c.errors := by rw [hstep]
    rw [if_pos hpass, run_advance hend hc hopen] at hrun
    exact .read (by rw [Reader.expect, if_pos hpass]) hrun hon (by omega)
      (hsame.trans (List.append_nil _).symm) .nil (by omega)
  · rw [if_neg hpass, IndexedReader.run_bind, run_peek hc] at hrun
    have hp : Reader.expect test what c = (none, c.complain c.token (.expected what)) :=
      if_neg hpass
    exact .failed hp hrun ⟨hc.rest, hc.position⟩ (Nat.le_refl _) rfl (.fatal hc.token _)

lemma tracks_freshRef (hc : c.On tokens) :
    Tracks tokens enough IndexedReader.freshRef Reader.freshRef c fun _ _ => True :=
  .read rfl rfl ⟨hc.rest, hc.position⟩ (Nat.le_refl _) (List.append_nil _).symm .nil trivial

end Primitives

/-! ## Recovery -/

section Recovery

variable {tokens : List Token} {c : Cursor}

/-- The cursor behind so many more tokens. -/
def Cursor.forward (c : Cursor) (k : Nat) : Cursor :=
  { c with rest := c.rest.drop k, position := c.position + k }

/-- One step to the next statement, when the token before is `before`. -/
lemma run_skip_succ (hend : EndsOnce tokens) (hc : c.On tokens) {i : Nat} {before : Token}
    (hi : c.position = i + 1) (hbefore : tokens[i]? = some before) (n : Nat) :
    IndexedReader.skip (n + 1) tokens c.stand =
      if (c.isAtEnd || before.isMark .semicolon || Cursor.startsStatement c.token) = true then
        .read () c.stand
      else IndexedReader.skip n tokens c.advance.stand := by
  have hprevious : IndexedReader.previous tokens c.stand = .read before c.stand := by
    simp [IndexedReader.previous, Cursor.stand, hi, hbefore]
  rw [IndexedReader.skip, IndexedReader.run_bind, run_isAtEnd hc]
  cases hopen : c.isAtEnd with
  | true => simp
  | false =>
    cases hsemicolon : before.isMark .semicolon with
    | true => simp [hprevious, hsemicolon]
    | false =>
      cases hstart : Cursor.startsStatement c.token with
      | true => simp [hprevious, hsemicolon, run_peek hc, hstart]
      | false => simp [hprevious, hsemicolon, run_peek hc, hstart, run_advance hend hc hopen]

lemma Cursor.On.rest_eq (hc : c.On tokens) : c.rest = c.token :: c.rest.tail := by
  rw [Cursor.token, hc.rest, List.headD_eq_head?_getD, List.head?_drop, List.tail_drop,
    List.getElem?_eq_getElem hc.position, Option.getD_some]
  exact List.drop_eq_getElem_cons hc.position

/-- The way to the next statement, when the token before is `before`. -/
lemma run_skip (hend : EndsOnce tokens) {n i : Nat} {before : Token} (hc : c.On tokens)
    (hi : c.position = i + 1) (hbefore : tokens[i]? = some before)
    (hn : tokens.length ≤ n + c.position) :
    IndexedReader.skip n tokens c.stand =
        .read () (c.forward (Cursor.skipCount before c.rest)).stand ∧
      (c.forward (Cursor.skipCount before c.rest)).On tokens := by
  induction n generalizing c i before with
  | zero =>
    have := hc.position
    omega
  | succ n ih =>
    rw [run_skip_succ hend hc hi hbefore, hc.rest_eq, Cursor.skipCount]
    split
    · next hstop =>
      have hstop' : (c.token.isEof || before.isMark .semicolon || Cursor.startsStatement c.token) =
          true := hstop
      have hstay : c.forward 0 = c := by simp [Cursor.forward]
      rw [if_pos hstop', hstay]
      exact ⟨rfl, hc⟩
    · next hgo =>
      have hgo' : ¬(c.token.isEof || before.isMark .semicolon || Cursor.startsStatement c.token) =
          true := hgo
      have hopen : c.isAtEnd = false := by
        simp only [Bool.or_eq_true, not_or, Bool.not_eq_true] at hgo
        exact hgo.1.1
      obtain ⟨hstep, hon⟩ := hc.next hend hopen
      have hmoved : c.advance.position = c.position + 1 := by rw [hstep]
      have hforward : c.advance.forward (Cursor.skipCount c.token c.advance.rest) =
          c.forward (Cursor.skipCount c.token c.rest.tail + 1) := by
        simp only [hstep, Cursor.forward, List.drop_tail, Cursor.mk.injEq, true_and, and_true]
        omega
      rw [if_neg hgo', ← hforward]
      exact ih hon hmoved hc.token (by omega)

/-- Moving past the offending token and on to the next statement. -/
lemma run_synchronize (hend : EndsOnce tokens) (hc : c.On tokens) (hopen : c.isAtEnd = false) :
    IndexedReader.synchronize tokens c.stand = .read () c.skipToStatement.stand ∧
      c.skipToStatement.On tokens ∧ c.position < c.skipToStatement.position := by
  obtain ⟨hstep, hon⟩ := hc.next hend hopen
  have hmoved : c.advance.position = c.position + 1 := by rw [hstep]
  have hskip := run_skip hend (n := tokens.length) hon hmoved hc.token (by omega)
  have heof : c.token.isEof = false := hopen
  have hforward : c.advance.forward (Cursor.skipCount c.token c.advance.rest) =
      c.skipToStatement := by
    rw [Cursor.skipToStatement, hc.rest_eq]
    simp only [heof, Bool.false_eq_true, if_false, hstep, Cursor.forward]
  rw [hforward] at hskip
  refine ⟨?_, hskip.2, ?_⟩
  · rw [IndexedReader.synchronize, IndexedReader.run_bind, run_advance hend hc hopen]
    exact hskip.1
  · rw [← hforward]
    simp only [Cursor.forward]
    omega

/-- At the end of the source recovery stays where it is.  It looks back once, so there has to be a
token before. -/
lemma run_synchronize_atEnd (hc : c.On tokens) (hclosed : c.isAtEnd = true)
    (hpos : 0 < c.position) :
    IndexedReader.synchronize tokens c.stand = .read () c.stand ∧ c.skipToStatement = c := by
  obtain ⟨i, hi⟩ : ∃ i, c.position = i + 1 := ⟨c.position - 1, by omega⟩
  have hlt := hc.position
  have hbefore : tokens[i]? = some tokens[i] := List.getElem?_eq_getElem (by omega)
  have hprevious : IndexedReader.previous tokens c.stand = .read tokens[i] c.stand := by
    simp [IndexedReader.previous, Cursor.stand, hi, hbefore]
  obtain ⟨m, hm⟩ : ∃ m, tokens.length = m + 1 := ⟨tokens.length - 1, by omega⟩
  constructor
  · simp [IndexedReader.synchronize, IndexedReader.advance, run_isAtEnd hc, hclosed, hprevious, hm,
      IndexedReader.skip]
  · have heof : c.token.isEof = true := hclosed
    rw [Cursor.skipToStatement, hc.rest_eq]
    simp [heof]

/-- No complaint that stops a declaration is about the end of the source. -/
lemma Orderly.tighten {low : Nat} {errors : List SyntaxError} (hc : c.On tokens)
    (hclosed : c.isAtEnd = true) (h : Orderly tokens low (c.position + 1) errors) :
    Orderly tokens low c.position errors where
  located := h.located
  within e he hstops := by
    obtain ⟨hlow, hhigh⟩ := h.within e he hstops
    refine ⟨hlow, Nat.lt_of_le_of_ne (Nat.le_of_lt_succ hhigh) fun hposition => ?_⟩
    simp only [SyntaxError.stops, Bool.and_eq_true, Bool.not_eq_true'] at hstops
    have htoken := h.located e he hstops.1
    rw [hposition, hc.token, Option.some.injEq] at htoken
    rw [← htoken] at hstops
    exact absurd (show c.token.isEof = true from hclosed) (by simp [hstops.2])
  ascending := h.ascending

/-- **A reader that recovers moves on**, whether it has a result or not. -/
lemma tracks_recover {α : Type} {enough : Prop} {q : IndexedReader α} {p : Reader α}
    (hend : EndsOnce tokens) (hc : c.On tokens) (hopen : c.isAtEnd = false)
    (h : Tracks tokens enough q p c fun c' _ => c.position < c'.position) :
    Tracks tokens enough (IndexedReader.recover q) (Reader.recover p) c
      fun c' _ => c.position < c'.position := by
  cases h with
  | @read a c' added hp hq hon hle herrors hadded hpost =>
    refine .read (a := some a) ?_ ?_ hon hle herrors hadded hpost
    · simp only [Reader.recover, hp]
    · simp only [IndexedReader.recover, hq]
  | @failed c' added hp hq hon hle herrors hadded =>
    have hp' : Reader.recover p c = (some none, c'.skipToStatement) := by
      simp only [Reader.recover, hp]
    have herrors' : c'.skipToStatement.errors = c.errors ++ added := by
      rw [Cursor.errors_skipToStatement, herrors]
    by_cases hclosed : c'.isAtEnd = true
    · -- The start is not at the end of the source, so there is a token before this one.
      have hlt : c.position < c'.position := by
        refine Nat.lt_of_le_of_ne hle fun hsame => ?_
        rw [hon.isAtEnd_iff hend, ← hsame, ← hc.isAtEnd_iff hend, hopen] at hclosed
        cases hclosed
      obtain ⟨hrun, hstay⟩ := run_synchronize_atEnd hon hclosed (by omega)
      rw [hstay] at hp' herrors'
      refine .read hp' ?_ hon hle herrors' (hadded.tighten hon hclosed) hlt
      simp [IndexedReader.recover, hq, hrun]
    · obtain ⟨hrun, hon', hlt⟩ := run_synchronize hend hon (by simpa using hclosed)
      refine .read hp' ?_ hon' (by omega) herrors' (hadded.mono hlt) (by omega)
      simp [IndexedReader.recover, hq, hrun]
  | exhausted hq hscarce =>
    exact .exhausted (by simp only [IndexedReader.recover, hq]) hscarce

end Recovery

/-! ## Expressions -/

/-- Is the fuel enough for a rule of this rank?  Between two tokens the ranks go down. -/
def Suffices (tokens : List Token) (c : Cursor) (rank n : Nat) : Prop :=
  16 * tokens.length + rank ≤ n + 16 * c.position

lemma Suffices.later {tokens : List Token} {c c' : Cursor} {rank n : Nat}
    (h : Suffices tokens c rank n) (hle : c.position ≤ c'.position) :
    Suffices tokens c' rank n := by
  unfold Suffices at h ⊢
  omega

/-- Without fuel there is not enough. -/
lemma not_suffices_zero {tokens : List Token} {c : Cursor} {rank : Nat} (hc : c.On tokens)
    (hrank : 0 < rank) : ¬Suffices tokens c rank 0 := by
  intro h
  have := hc.position
  unfold Suffices at h
  omega

/-- Nothing is said about the result. -/
abbrev anyResult {α : Type} : Cursor → α → Prop := fun _ _ => True

/-- With fuel `n`, expressions are read by position as they are read over a cursor. -/
structure ExpressionsTrack (tokens : List Token) (n : Nat) : Prop where
  expression : ∀ c : Cursor, c.On tokens → Tracks tokens (Suffices tokens c 10 n)
    (IndexedReader.expression n) (Reader.expression n) c anyResult
  operand : ∀ (level : Option Level) (c : Cursor), c.On tokens →
    Tracks tokens (Suffices tokens c (Reader.operandRank level) n)
      (IndexedReader.operand n level) (Reader.operand n level) c anyResult
  chain : ∀ (l : Level) (left : Expr) (c : Cursor), c.On tokens →
    Tracks tokens (Suffices tokens c 1 n) (IndexedReader.chain n l left) (Reader.chain n l left) c
      anyResult
  unary : ∀ c : Cursor, c.On tokens → Tracks tokens (Suffices tokens c 2 n)
    (IndexedReader.unary n) (Reader.unary n) c anyResult
  suffixes : ∀ (first : Expr) (c : Cursor), c.On tokens → Tracks tokens (Suffices tokens c 1 n)
    (IndexedReader.suffixes n first) (Reader.suffixes n first) c anyResult
  argumentList : ∀ c : Cursor, c.On tokens → Tracks tokens (Suffices tokens c 12 n)
    (IndexedReader.argumentList n) (Reader.argumentList n) c anyResult
  argumentsFrom : ∀ (count : Nat) (c : Cursor), c.On tokens →
    Tracks tokens (Suffices tokens c 11 n) (IndexedReader.argumentsFrom n count)
      (Reader.argumentsFrom n count) c anyResult
  primary : ∀ c : Cursor, c.On tokens → Tracks tokens (Suffices tokens c 1 n)
    (IndexedReader.primary n) (Reader.primary n) c anyResult

section Expressions

variable {tokens : List Token} {n : Nat} {c : Cursor}

lemma tracks_expression (hend : EndsOnce tokens) (ih : ExpressionsTrack tokens n)
    (hc : c.On tokens) : Tracks tokens (Suffices tokens c 10 (n + 1))
      (IndexedReader.expression (n + 1)) (Reader.expression (n + 1)) c anyResult := by
  rw [IndexedReader.expression, Reader.expression]
  have htarget : Tracks tokens (Suffices tokens c 10 (n + 1)) _ _ c anyResult :=
    (ih.operand (some .disjunction) c hc).of_enough
      (by simp only [Suffices, Reader.operandRank]; omega)
  refine htarget.bind fun target c₁ hc₁ hle₁ _ => ?_
  refine (tracks_accept? hend hc₁).bind fun equals c₂ hc₂ hle₂ hsome => ?_
  rcases equals with _ | equals
  · exact tracks_pure hc₂ trivial
  · have hlt := hsome rfl
    refine ((ih.expression c₂ hc₂).of_enough (by simp only [Suffices]; omega)).bind
      fun value c₃ hc₃ _ _ => ?_
    cases target
    case «variable» ref name =>
      exact (tracks_freshRef hc₃).bind fun ref c₄ hc₄ _ _ => tracks_pure hc₄ trivial
    case get object name => exact tracks_pure hc₃ trivial
    all_goals exact (tracks_complain hc₃ rfl).bind fun _ c₄ hc₄ _ _ => tracks_pure hc₄ trivial

lemma tracks_operand (ih : ExpressionsTrack tokens n) (level : Option Level) (hc : c.On tokens) :
    Tracks tokens (Suffices tokens c (Reader.operandRank level) (n + 1))
      (IndexedReader.operand (n + 1) level) (Reader.operand (n + 1) level) c anyResult := by
  rcases level with _ | l
  · rw [IndexedReader.operand, Reader.operand]
    exact (ih.unary c hc).of_enough (by simp only [Suffices, Reader.operandRank]; omega)
  · rw [IndexedReader.operand, Reader.operand]
    have hrank := Reader.operandRank_tighter l
    have hpos := Reader.three_le_operandRank (some l)
    refine ((ih.operand l.tighter? c hc).of_enough (by simp only [Suffices]; omega)).bind
      fun first c₁ hc₁ hle₁ _ => ?_
    exact (ih.chain l first c₁ hc₁).of_enough (by simp only [Suffices]; omega)

lemma tracks_chain (hend : EndsOnce tokens) (ih : ExpressionsTrack tokens n) (l : Level)
    (left : Expr) (hc : c.On tokens) :
    Tracks tokens (Suffices tokens c 1 (n + 1)) (IndexedReader.chain (n + 1) l left)
      (Reader.chain (n + 1) l left) c anyResult := by
  rw [IndexedReader.chain, Reader.chain]
  refine (tracks_accept? hend hc).bind fun operator c₁ hc₁ hle₁ hsome => ?_
  rcases operator with _ | operator
  · exact tracks_pure hc₁ trivial
  · have hlt := hsome rfl
    have hrank := Reader.operandRank_le l.tighter?
    refine ((ih.operand l.tighter? c₁ hc₁).of_enough (by simp only [Suffices]; omega)).bind
      fun right c₂ hc₂ hle₂ _ => ?_
    exact (ih.chain l _ c₂ hc₂).of_enough (by simp only [Suffices]; omega)

lemma tracks_unary (hend : EndsOnce tokens) (ih : ExpressionsTrack tokens n) (hc : c.On tokens) :
    Tracks tokens (Suffices tokens c 2 (n + 1)) (IndexedReader.unary (n + 1))
      (Reader.unary (n + 1)) c anyResult := by
  rw [IndexedReader.unary, Reader.unary]
  refine (tracks_accept? hend hc).bind fun operator c₁ hc₁ hle₁ hsome => ?_
  rcases operator with _ | operator
  · refine ((ih.primary c₁ hc₁).of_enough (by simp only [Suffices]; omega)).bind
      fun first c₂ hc₂ hle₂ _ => ?_
    exact (ih.suffixes first c₂ hc₂).of_enough (by simp only [Suffices]; omega)
  · have hlt := hsome rfl
    exact ((ih.unary c₁ hc₁).of_enough (by simp only [Suffices]; omega)).bind
      fun right c₂ hc₂ _ _ => tracks_pure hc₂ trivial

lemma tracks_suffixes (hend : EndsOnce tokens) (ih : ExpressionsTrack tokens n) (first : Expr)
    (hc : c.On tokens) :
    Tracks tokens (Suffices tokens c 1 (n + 1)) (IndexedReader.suffixes (n + 1) first)
      (Reader.suffixes (n + 1) first) c anyResult := by
  rw [IndexedReader.suffixes, Reader.suffixes]
  refine (tracks_accept? hend hc).bind fun left c₁ hc₁ hle₁ hleft => ?_
  rcases left with _ | left
  · refine (tracks_accept? hend hc₁).bind fun dot c₂ hc₂ hle₂ hdot => ?_
    rcases dot with _ | dot
    · exact tracks_pure hc₂ trivial
    · have hlt := hdot rfl
      refine (tracks_expect hend hc₂).bind fun name c₃ hc₃ hle₃ _ => ?_
      exact (ih.suffixes _ c₃ hc₃).of_enough (by simp only [Suffices]; omega)
  · have hlt := hleft rfl
    refine ((ih.argumentList c₁ hc₁).of_enough (by simp only [Suffices]; omega)).bind
      fun arguments c₂ hc₂ hle₂ _ => ?_
    refine (tracks_expect hend hc₂).bind fun paren c₃ hc₃ hle₃ _ => ?_
    exact (ih.suffixes _ c₃ hc₃).of_enough (by simp only [Suffices]; omega)

lemma tracks_argumentList (ih : ExpressionsTrack tokens n) (hc : c.On tokens) :
    Tracks tokens (Suffices tokens c 12 (n + 1)) (IndexedReader.argumentList (n + 1))
      (Reader.argumentList (n + 1)) c anyResult := by
  rw [IndexedReader.argumentList, Reader.argumentList]
  refine tracks_check hc ?_
  split
  · exact tracks_pure hc trivial
  · exact (ih.argumentsFrom 0 c hc).of_enough (by simp only [Suffices]; omega)

/-- One entry of a list and, behind a comma, the others. -/
lemma tracks_entries {α : Type} {enough : Prop} (hend : EndsOnce tokens) {q : IndexedReader α}
    {p : Reader α} {qs : IndexedReader (List α)} {ps : Reader (List α)}
    (hfirst : Tracks tokens enough q p c anyResult)
    (hothers : ∀ c', c'.On tokens → c.position < c'.position →
      Tracks tokens enough qs ps c' anyResult) :
    Tracks tokens enough
      (do
        let first ← q
        match ← IndexedReader.accept? (·.isMark .comma) with
        | some _ =>
          let others ← qs
          pure (first :: others)
        | none => pure [first])
      (do
        let first ← p
        match ← Reader.accept? (·.isMark .comma) with
        | some _ =>
          let others ← ps
          pure (first :: others)
        | none => pure [first]) c anyResult := by
  refine hfirst.bind fun first c₁ hc₁ hle₁ _ => ?_
  refine (tracks_accept? hend hc₁).bind fun comma c₂ hc₂ hle₂ hcomma => ?_
  rcases comma with _ | comma
  · exact tracks_pure hc₂ trivial
  · exact (hothers c₂ hc₂ (Nat.lt_of_le_of_lt hle₁ (hcomma rfl))).bind
      fun others c₃ hc₃ _ _ => tracks_pure hc₃ trivial

/-- A complaint about too many entries, which comes before the next one. -/
lemma tracks_limited {α : Type} {enough : Prop} {count : Nat} {cause : SyntaxCause}
    (hcause : cause.isFatal = false) (hc : c.On tokens) {q : IndexedReader α} {p : Reader α}
    {post : Cursor → α → Prop}
    (h : ∀ c', c'.On tokens → c'.position = c.position → Tracks tokens enough q p c' post) :
    Tracks tokens enough
      (do
        if maxArity ≤ count then IndexedReader.complain (← IndexedReader.peek) cause
        q)
      (do
        if maxArity ≤ count then Reader.complain (← Reader.peek) cause
        p) c post := by
  split
  · refine tracks_peek hc ?_
    exact (tracks_complain hc hcause).bind fun _ c₁ hc₁ _ hsame => h c₁ hc₁ hsame
  · exact h c hc rfl

lemma tracks_argumentsFrom (hend : EndsOnce tokens) (ih : ExpressionsTrack tokens n) (count : Nat)
    (hc : c.On tokens) :
    Tracks tokens (Suffices tokens c 11 (n + 1)) (IndexedReader.argumentsFrom (n + 1) count)
      (Reader.argumentsFrom (n + 1) count) c anyResult := by
  rw [IndexedReader.argumentsFrom, Reader.argumentsFrom]
  refine tracks_limited rfl hc fun c₁ hc₁ hsame => ?_
  refine tracks_entries hend ?_ fun c₂ hc₂ hlt => ?_
  · exact (ih.expression c₁ hc₁).of_enough (by simp only [Suffices]; omega)
  · exact (ih.argumentsFrom (count + 1) c₂ hc₂).of_enough (by simp only [Suffices]; omega)

/-- A constant is one token. -/
lemma tracks_constant {enough : Prop} (hend : EndsOnce tokens) (hc : c.On tokens) {k : Kind}
    (hkind : c.token.kind = k) (hk : k ≠ .eof) {e : Expr} :
    Tracks tokens enough (IndexedReader.advance >>= fun _ => pure e)
      (Reader.advance >>= fun _ => pure e) c anyResult :=
  tracks_advance hend hc hkind hk fun _ hc₁ _ => tracks_pure hc₁ trivial

lemma tracks_primary (hend : EndsOnce tokens) (ih : ExpressionsTrack tokens n)
    (hc : c.On tokens) : Tracks tokens (Suffices tokens c 1 (n + 1))
      (IndexedReader.primary (n + 1)) (Reader.primary (n + 1)) c anyResult := by
  rw [IndexedReader.primary, Reader.primary]
  refine tracks_peek hc ?_
  generalize hkind : c.token.kind = k
  cases k with
  | eof => exact tracks_complain_fail hc
  | number | string => exact tracks_constant hend hc hkind (by simp)
  | identifier =>
    refine tracks_advance hend hc hkind (by simp) fun c₁ hc₁ _ => ?_
    exact (tracks_freshRef hc₁).bind fun ref c₂ hc₂ _ _ => tracks_pure hc₂ trivial
  | keyword word =>
    cases word
    case false_ | true_ | nil_ => exact tracks_constant hend hc hkind (by simp)
    case super_ =>
      refine tracks_advance hend hc hkind (by simp) fun c₁ hc₁ _ => ?_
      refine (tracks_expect hend hc₁).bind fun dot c₂ hc₂ _ _ => ?_
      refine (tracks_expect hend hc₂).bind fun method c₃ hc₃ _ _ => ?_
      exact (tracks_freshRef hc₃).bind fun ref c₄ hc₄ _ _ => tracks_pure hc₄ trivial
    case this_ =>
      refine tracks_advance hend hc hkind (by simp) fun c₁ hc₁ _ => ?_
      exact (tracks_freshRef hc₁).bind fun ref c₂ hc₂ _ _ => tracks_pure hc₂ trivial
    all_goals exact tracks_complain_fail hc
  | mark m =>
    cases m
    case leftParen =>
      refine tracks_advance hend hc hkind (by simp) fun c₁ hc₁ hmoved => ?_
      refine ((ih.expression c₁ hc₁).of_enough (by simp only [Suffices]; omega)).bind
        fun inner c₂ hc₂ _ _ => ?_
      exact (tracks_expect hend hc₂).bind fun right c₃ hc₃ _ _ => tracks_pure hc₃ trivial
    all_goals exact tracks_complain_fail hc

end Expressions

/-- **Expressions are read by position as they are read over a cursor.** -/
lemma expressionsTrack {tokens : List Token} (hend : EndsOnce tokens) (n : Nat) :
    ExpressionsTrack tokens n := by
  induction n with
  | zero =>
    constructor
    case operand =>
      intro level c hc
      have hrank := Reader.three_le_operandRank level
      exact tracks_exhausted (not_suffices_zero hc (by omega))
    all_goals
      intros
      exact tracks_exhausted (not_suffices_zero (by assumption) (by decide))
  | succ n ih =>
    exact {
      expression := fun _ hc => tracks_expression hend ih hc
      operand := fun level _ hc => tracks_operand ih level hc
      chain := fun l left _ hc => tracks_chain hend ih l left hc
      unary := fun _ hc => tracks_unary hend ih hc
      suffixes := fun first _ hc => tracks_suffixes hend ih first hc
      argumentList := fun _ hc => tracks_argumentList ih hc
      argumentsFrom := fun count _ hc => tracks_argumentsFrom hend ih count hc
      primary := fun _ hc => tracks_primary hend ih hc }

/-! ## Clauses of statements and declarations -/

/-- The cursor has moved on. -/
abbrev movedOn {α : Type} (c : Cursor) : Cursor → α → Prop := fun c' _ => c.position < c'.position

section Clauses

variable {tokens : List Token} {n rank : Nat} {c : Cursor} {enough : Prop}

/-- An expression inside a clause. -/
lemma tracks_inner (hend : EndsOnce tokens) (hc : c.On tokens)
    (henough : enough → Suffices tokens c 10 n) :
    Tracks tokens enough (IndexedReader.expression n) (Reader.expression n) c anyResult :=
  ((expressionsTrack hend n).expression c hc).of_enough henough

lemma tracks_expressionUnless (hend : EndsOnce tokens) (hc : c.On tokens) (m : Mark)
    (henough : enough → Suffices tokens c 10 n) :
    Tracks tokens enough (IndexedReader.expressionUnless n m) (Reader.expressionUnless n m) c
      anyResult := by
  refine tracks_check hc ?_
  split
  · exact tracks_pure hc trivial
  · exact (tracks_inner hend hc henough).bind fun e c₁ hc₁ _ _ => tracks_pure hc₁ trivial

lemma tracks_expressionStatement (hend : EndsOnce tokens) (hc : c.On tokens)
    (henough : enough → Suffices tokens c 10 n) :
    Tracks tokens enough (IndexedReader.expressionStatement n) (Reader.expressionStatement n) c
      (movedOn c) := by
  refine (tracks_inner hend hc henough).bind fun e c₁ hc₁ hle₁ _ => ?_
  exact (tracks_expect hend hc₁).bind fun semicolon c₂ hc₂ _ hlt₂ =>
    tracks_pure hc₂ (Nat.lt_of_le_of_lt hle₁ hlt₂)

lemma tracks_varDeclaration (hend : EndsOnce tokens) (hc : c.On tokens)
    (henough : enough → Suffices tokens c 10 n) :
    Tracks tokens enough (IndexedReader.varDeclaration n) (Reader.varDeclaration n) c
      (movedOn c) := by
  refine (tracks_expect hend hc).bind fun name c₁ hc₁ _ hlt₁ => ?_
  refine (tracks_accept? hend hc₁).bind fun equals c₂ hc₂ hle₂ _ => ?_
  rcases equals with _ | equals
  · refine (tracks_expect hend hc₂).bind fun semicolon c₃ hc₃ hle₃ _ => ?_
    exact tracks_pure hc₃ (by show _ < _; omega)
  · have henough₂ : enough → Suffices tokens c₂ 10 n := fun h => (henough h).later (by omega)
    refine (tracks_inner hend hc₂ henough₂).bind fun e c₃ hc₃ hle₃ _ => ?_
    refine (tracks_expect hend hc₃).bind fun semicolon c₄ hc₄ hle₄ _ => ?_
    exact tracks_pure hc₄ (by show _ < _; omega)

lemma tracks_printStatement (hend : EndsOnce tokens) (hc : c.On tokens)
    (henough : enough → Suffices tokens c 10 n) :
    Tracks tokens enough (IndexedReader.printStatement n) (Reader.printStatement n) c
      anyResult := by
  refine (tracks_inner hend hc henough).bind fun e c₁ hc₁ _ _ => ?_
  exact (tracks_expect hend hc₁).bind fun semicolon c₂ hc₂ _ _ => tracks_pure hc₂ trivial

lemma tracks_returnStatement (hend : EndsOnce tokens) (hc : c.On tokens) (keyword : Token)
    (henough : enough → Suffices tokens c 10 n) :
    Tracks tokens enough (IndexedReader.returnStatement n keyword)
      (Reader.returnStatement n keyword) c anyResult := by
  refine (tracks_expressionUnless hend hc .semicolon henough).bind fun value c₁ hc₁ _ _ => ?_
  exact (tracks_expect hend hc₁).bind fun semicolon c₂ hc₂ _ _ => tracks_pure hc₂ trivial

lemma tracks_breakStatement (hend : EndsOnce tokens) (hc : c.On tokens) (keyword : Token) :
    Tracks tokens enough (IndexedReader.breakStatement keyword) (Reader.breakStatement keyword) c
      anyResult :=
  (tracks_expect hend hc).bind fun _ _ hc₁ _ _ => tracks_pure hc₁ trivial

lemma tracks_forInitializer (hend : EndsOnce tokens) (hc : c.On tokens)
    (henough : enough → Suffices tokens c 10 n) :
    Tracks tokens enough (IndexedReader.forInitializer n) (Reader.forInitializer n) c
      anyResult := by
  have hlater : ∀ c' : Cursor, c.position ≤ c'.position → enough → Suffices tokens c' 10 n :=
    fun _ hle h => (henough h).later hle
  refine (tracks_accept? hend hc).bind fun semicolon c₁ hc₁ hle₁ _ => ?_
  rcases semicolon with _ | semicolon
  · refine (tracks_accept? hend hc₁).bind fun keyword c₂ hc₂ hle₂ _ => ?_
    rcases keyword with _ | keyword
    · exact (tracks_expressionStatement hend hc₂ (hlater c₂ (by omega))).bind
        fun s c₃ hc₃ _ _ => tracks_pure hc₃ trivial
    · exact (tracks_varDeclaration hend hc₂ (hlater c₂ (by omega))).bind
        fun s c₃ hc₃ _ _ => tracks_pure hc₃ trivial
  · exact tracks_pure hc₁ trivial

lemma tracks_parametersFrom (hend : EndsOnce tokens) (count : Nat) (hc : c.On tokens)
    (henough : enough → Suffices tokens c 1 n) :
    Tracks tokens enough (IndexedReader.parametersFrom n count) (Reader.parametersFrom n count) c
      anyResult := by
  induction n generalizing c count with
  | zero =>
    exact tracks_exhausted fun h => not_suffices_zero hc (by decide) (henough h)
  | succ n ih =>
    refine tracks_limited rfl hc fun c₁ hc₁ hsame => ?_
    refine tracks_entries hend ?_ fun c₂ hc₂ hlt => ih (count + 1) hc₂ fun h => ?_
    · exact (tracks_expect hend hc₁).mono id fun _ _ _ _ => trivial
    · have hle := henough h
      unfold Suffices at hle ⊢
      omega

lemma tracks_parameterList (hend : EndsOnce tokens) (hc : c.On tokens)
    (henough : enough → Suffices tokens c 1 n) :
    Tracks tokens enough (IndexedReader.parameterList n) (Reader.parameterList n) c
      anyResult := by
  refine tracks_check hc ?_
  split
  · exact tracks_pure hc trivial
  · exact tracks_parametersFrom hend 0 hc henough

end Clauses

/-! ## Declarations and statements -/

/-- With fuel `n`, declarations and statements are read by position as they are read over a cursor.
A declaration before the end of the source moves on, whether it can be read or not. -/
structure DeclarationsTrack (tokens : List Token) (n : Nat) : Prop where
  declaration : ∀ c : Cursor, c.On tokens → c.isAtEnd = false →
    Tracks tokens (Suffices tokens c 13 n) (IndexedReader.declaration n) (Reader.declaration n) c
      (movedOn c)
  declarationRule : ∀ c : Cursor, c.On tokens → Tracks tokens (Suffices tokens c 12 n)
    (IndexedReader.declarationRule n) (Reader.declarationRule n) c (movedOn c)
  classDeclaration : ∀ c : Cursor, c.On tokens → Tracks tokens (Suffices tokens c 1 n)
    (IndexedReader.classDeclaration n) (Reader.classDeclaration n) c anyResult
  methodList : ∀ c : Cursor, c.On tokens → Tracks tokens (Suffices tokens c 2 n)
    (IndexedReader.methodList n) (Reader.methodList n) c anyResult
  function : ∀ (role : Reader.Role) (c : Cursor), c.On tokens →
    Tracks tokens (Suffices tokens c 1 n) (IndexedReader.function n role) (Reader.function n role) c
      (movedOn c)
  block : ∀ c : Cursor, c.On tokens → Tracks tokens (Suffices tokens c 15 n)
    (IndexedReader.block n) (Reader.block n) c anyResult
  blockItems : ∀ c : Cursor, c.On tokens → Tracks tokens (Suffices tokens c 14 n)
    (IndexedReader.blockItems n) (Reader.blockItems n) c anyResult
  statement : ∀ c : Cursor, c.On tokens → Tracks tokens (Suffices tokens c 11 n)
    (IndexedReader.statement n) (Reader.statement n) c (movedOn c)
  forStatement : ∀ c : Cursor, c.On tokens → Tracks tokens (Suffices tokens c 1 n)
    (IndexedReader.forStatement n) (Reader.forStatement n) c anyResult
  ifStatement : ∀ c : Cursor, c.On tokens → Tracks tokens (Suffices tokens c 1 n)
    (IndexedReader.ifStatement n) (Reader.ifStatement n) c anyResult
  whileStatement : ∀ c : Cursor, c.On tokens → Tracks tokens (Suffices tokens c 1 n)
    (IndexedReader.whileStatement n) (Reader.whileStatement n) c anyResult

section Declarations

variable {tokens : List Token} {n : Nat} {c : Cursor}

lemma tracks_declaration (hend : EndsOnce tokens) (ih : DeclarationsTrack tokens n)
    (hc : c.On tokens) (hopen : c.isAtEnd = false) :
    Tracks tokens (Suffices tokens c 13 (n + 1)) (IndexedReader.declaration (n + 1))
      (Reader.declaration (n + 1)) c (movedOn c) := by
  rw [IndexedReader.declaration, Reader.declaration]
  refine tracks_recover hend hc hopen ?_
  exact (ih.declarationRule c hc).of_enough (by simp only [Suffices]; omega)

/-- What follows a keyword has moved on, by the keyword at least. -/
lemma tracks_behind {α : Type} {enough : Prop} (hend : EndsOnce tokens) (hc : c.On tokens)
    {k : Kind} (hkind : c.token.kind = k) (hk : k ≠ .eof) {g : Token → IndexedReader α}
    {f : Unit → Reader α} (h : ∀ c₁, c₁.On tokens → c₁.position = c.position + 1 →
      Tracks tokens enough (g c.token) (f ()) c₁ anyResult) :
    Tracks tokens enough (IndexedReader.advance >>= g) (Reader.advance >>= f) c (movedOn c) := by
  refine tracks_advance hend hc hkind hk fun c₁ hc₁ hmoved => ?_
  exact (h c₁ hc₁ hmoved).mono id fun c₂ _ hle _ => by show _ < _; omega

lemma tracks_declarationRule (hend : EndsOnce tokens) (ih : DeclarationsTrack tokens n)
    (hc : c.On tokens) :
    Tracks tokens (Suffices tokens c 12 (n + 1)) (IndexedReader.declarationRule (n + 1))
      (Reader.declarationRule (n + 1)) c (movedOn c) := by
  rw [IndexedReader.declarationRule, Reader.declarationRule]
  refine tracks_peek hc ?_
  have hstatement : Tracks tokens (Suffices tokens c 12 (n + 1)) (IndexedReader.statement n)
      (Reader.statement n) c (movedOn c) :=
    (ih.statement c hc).of_enough (by simp only [Suffices]; omega)
  generalize hkind : c.token.kind = k
  cases k with
  | eof | number | string | identifier | mark => exact hstatement
  | keyword word =>
    cases word
    case class_ =>
      refine tracks_behind hend hc hkind (by simp) fun c₁ hc₁ hmoved => ?_
      exact (ih.classDeclaration c₁ hc₁).of_enough (by simp only [Suffices]; omega)
    case fun_ =>
      refine tracks_behind hend hc hkind (by simp) fun c₁ hc₁ hmoved => ?_
      exact ((ih.function .function c₁ hc₁).of_enough (by simp only [Suffices]; omega)).bind
        fun decl c₂ hc₂ _ _ => tracks_pure hc₂ trivial
    case var_ =>
      refine tracks_behind hend hc hkind (by simp) fun c₁ hc₁ hmoved => ?_
      refine (tracks_varDeclaration hend hc₁ ?_).mono id fun _ _ _ _ => trivial
      simp only [Suffices]
      omega
    all_goals exact hstatement

lemma tracks_classDeclaration (hend : EndsOnce tokens) (ih : DeclarationsTrack tokens n)
    (hc : c.On tokens) :
    Tracks tokens (Suffices tokens c 1 (n + 1)) (IndexedReader.classDeclaration (n + 1))
      (Reader.classDeclaration (n + 1)) c anyResult := by
  -- The body of a class, behind its name and the name of its superclass.
  have hbody : ∀ (name : Token) (superclass : Option Expr) (c₁ : Cursor), c₁.On tokens →
      c.position < c₁.position →
      Tracks tokens (Suffices tokens c 1 (n + 1))
        (do
          let _ ← IndexedReader.expectMark .leftBrace .classBody
          let methods ← IndexedReader.methodList n
          let _ ← IndexedReader.expectMark .rightBrace .classEnd
          pure (Stmt.classDecl name superclass methods))
        (do
          let _ ← Reader.expectMark .leftBrace .classBody
          let methods ← Reader.methodList n
          let _ ← Reader.expectMark .rightBrace .classEnd
          pure (Stmt.classDecl name superclass methods)) c₁ anyResult := by
    intro name superclass c₁ hc₁ hlt₁
    refine (tracks_expect hend hc₁).bind fun left c₂ hc₂ hle₂ _ => ?_
    refine ((ih.methodList c₂ hc₂).of_enough (by simp only [Suffices]; omega)).bind
      fun methods c₃ hc₃ _ _ => ?_
    exact (tracks_expect hend hc₃).bind fun right c₄ hc₄ _ _ => tracks_pure hc₄ trivial
  rw [IndexedReader.classDeclaration, Reader.classDeclaration]
  refine (tracks_expect hend hc).bind fun name c₁ hc₁ _ hlt₁ => ?_
  refine (tracks_accept? hend hc₁).bind fun less c₂ hc₂ hle₂ _ => ?_
  rcases less with _ | less
  · exact hbody name none c₂ hc₂ (by omega)
  · refine (tracks_expect hend hc₂).bind fun parent c₃ hc₃ hle₃ _ => ?_
    refine (tracks_freshRef hc₃).bind fun ref c₄ hc₄ hle₄ _ => ?_
    exact hbody name (some (.variable ref parent)) c₄ hc₄ (by omega)

lemma tracks_methodList (ih : DeclarationsTrack tokens n) (hc : c.On tokens) :
    Tracks tokens (Suffices tokens c 2 (n + 1)) (IndexedReader.methodList (n + 1))
      (Reader.methodList (n + 1)) c anyResult := by
  rw [IndexedReader.methodList, Reader.methodList]
  refine tracks_check hc (tracks_isAtEnd hc ?_)
  split
  · exact tracks_pure hc trivial
  · refine ((ih.function .method c hc).of_enough (by simp only [Suffices]; omega)).bind
      fun first c₁ hc₁ hle₁ hlt₁ => ?_
    refine ((ih.methodList c₁ hc₁).of_enough (by simp only [Suffices]; omega)).bind
      fun others c₂ hc₂ _ _ => tracks_pure hc₂ trivial

lemma tracks_function (hend : EndsOnce tokens) (ih : DeclarationsTrack tokens n)
    (role : Reader.Role) (hc : c.On tokens) :
    Tracks tokens (Suffices tokens c 1 (n + 1)) (IndexedReader.function (n + 1) role)
      (Reader.function (n + 1) role) c (movedOn c) := by
  rw [IndexedReader.function, Reader.function]
  refine (tracks_expect hend hc).bind fun name c₁ hc₁ hle₁ hlt₁ => ?_
  refine (tracks_expect hend hc₁).bind fun left c₂ hc₂ hle₂ _ => ?_
  refine (tracks_parameterList hend hc₂ (by simp only [Suffices]; omega)).bind
    fun params c₃ hc₃ hle₃ _ => ?_
  refine (tracks_expect hend hc₃).bind fun right c₄ hc₄ hle₄ _ => ?_
  refine (tracks_expect hend hc₄).bind fun brace c₅ hc₅ hle₅ _ => ?_
  refine ((ih.block c₅ hc₅).of_enough (by simp only [Suffices]; omega)).bind
    fun body c₆ hc₆ hle₆ _ => ?_
  exact tracks_pure hc₆ (by show _ < _; omega)

lemma tracks_block (hend : EndsOnce tokens) (ih : DeclarationsTrack tokens n) (hc : c.On tokens) :
    Tracks tokens (Suffices tokens c 15 (n + 1)) (IndexedReader.block (n + 1))
      (Reader.block (n + 1)) c anyResult := by
  rw [IndexedReader.block, Reader.block]
  refine ((ih.blockItems c hc).of_enough (by simp only [Suffices]; omega)).bind
    fun body c₁ hc₁ _ _ => ?_
  exact (tracks_expect hend hc₁).bind fun right c₂ hc₂ _ _ => tracks_pure hc₂ trivial

lemma tracks_blockItems (ih : DeclarationsTrack tokens n) (hc : c.On tokens) :
    Tracks tokens (Suffices tokens c 14 (n + 1)) (IndexedReader.blockItems (n + 1))
      (Reader.blockItems (n + 1)) c anyResult := by
  rw [IndexedReader.blockItems, Reader.blockItems]
  refine tracks_check hc (tracks_isAtEnd hc ?_)
  split
  · exact tracks_pure hc trivial
  · next hgo =>
    have hopen : c.isAtEnd = false := by
      simp only [Bool.or_eq_true, not_or, Bool.not_eq_true] at hgo
      exact hgo.2
    refine ((ih.declaration c hc hopen).of_enough (by simp only [Suffices]; omega)).bind
      fun first c₁ hc₁ hle₁ hlt₁ => ?_
    refine ((ih.blockItems c₁ hc₁).of_enough (by simp only [Suffices]; omega)).bind
      fun others c₂ hc₂ _ _ => tracks_pure hc₂ trivial

lemma tracks_statement (hend : EndsOnce tokens) (ih : DeclarationsTrack tokens n)
    (hc : c.On tokens) :
    Tracks tokens (Suffices tokens c 11 (n + 1)) (IndexedReader.statement (n + 1))
      (Reader.statement (n + 1)) c (movedOn c) := by
  rw [IndexedReader.statement, Reader.statement]
  refine tracks_peek hc ?_
  have hexpression : Tracks tokens (Suffices tokens c 11 (n + 1))
      (IndexedReader.expressionStatement n) (Reader.expressionStatement n) c (movedOn c) :=
    tracks_expressionStatement hend hc (by simp only [Suffices]; omega)
  generalize hkind : c.token.kind = k
  cases k with
  | eof | number | string | identifier => exact hexpression
  | mark m =>
    cases m
    case leftBrace =>
      refine tracks_behind hend hc hkind (by simp) fun c₁ hc₁ hmoved => ?_
      exact ((ih.block c₁ hc₁).of_enough (by simp only [Suffices]; omega)).bind
        fun body c₂ hc₂ _ _ => tracks_pure hc₂ trivial
    all_goals exact hexpression
  | keyword word =>
    cases word
    case break_ =>
      exact tracks_behind hend hc hkind (by simp) fun c₁ hc₁ _ => tracks_breakStatement hend hc₁ _
    case for_ =>
      refine tracks_behind hend hc hkind (by simp) fun c₁ hc₁ hmoved => ?_
      exact (ih.forStatement c₁ hc₁).of_enough (by simp only [Suffices]; omega)
    case if_ =>
      refine tracks_behind hend hc hkind (by simp) fun c₁ hc₁ hmoved => ?_
      exact (ih.ifStatement c₁ hc₁).of_enough (by simp only [Suffices]; omega)
    case while_ =>
      refine tracks_behind hend hc hkind (by simp) fun c₁ hc₁ hmoved => ?_
      exact (ih.whileStatement c₁ hc₁).of_enough (by simp only [Suffices]; omega)
    case return_ =>
      refine tracks_behind hend hc hkind (by simp) fun c₁ hc₁ hmoved => ?_
      exact tracks_returnStatement hend hc₁ _ (by simp only [Suffices]; omega)
    case print_ =>
      refine tracks_behind hend hc hkind (by simp) fun c₁ hc₁ hmoved => ?_
      exact tracks_printStatement hend hc₁ (by simp only [Suffices]; omega)
    all_goals exact hexpression

lemma tracks_forStatement (hend : EndsOnce tokens) (ih : DeclarationsTrack tokens n)
    (hc : c.On tokens) :
    Tracks tokens (Suffices tokens c 1 (n + 1)) (IndexedReader.forStatement (n + 1))
      (Reader.forStatement (n + 1)) c anyResult := by
  rw [IndexedReader.forStatement, Reader.forStatement]
  refine (tracks_expect hend hc).bind fun left c₁ hc₁ hle₁ hlt₁ => ?_
  refine (tracks_forInitializer hend hc₁ (by simp only [Suffices]; omega)).bind
    fun initializer c₂ hc₂ hle₂ _ => ?_
  refine (tracks_expressionUnless hend hc₂ _ (by simp only [Suffices]; omega)).bind
    fun condition c₃ hc₃ hle₃ _ => ?_
  refine (tracks_expect hend hc₃).bind fun semicolon c₄ hc₄ hle₄ _ => ?_
  refine (tracks_expressionUnless hend hc₄ _ (by simp only [Suffices]; omega)).bind
    fun increment c₅ hc₅ hle₅ _ => ?_
  refine (tracks_expect hend hc₅).bind fun right c₆ hc₆ hle₆ _ => ?_
  exact ((ih.statement c₆ hc₆).of_enough (by simp only [Suffices]; omega)).bind
    fun body c₇ hc₇ _ _ => tracks_pure hc₇ trivial

lemma tracks_ifStatement (hend : EndsOnce tokens) (ih : DeclarationsTrack tokens n)
    (hc : c.On tokens) :
    Tracks tokens (Suffices tokens c 1 (n + 1)) (IndexedReader.ifStatement (n + 1))
      (Reader.ifStatement (n + 1)) c anyResult := by
  rw [IndexedReader.ifStatement, Reader.ifStatement]
  refine (tracks_expect hend hc).bind fun left c₁ hc₁ hle₁ hlt₁ => ?_
  refine (tracks_inner hend hc₁ (by simp only [Suffices]; omega)).bind
    fun condition c₂ hc₂ hle₂ _ => ?_
  refine (tracks_expect hend hc₂).bind fun right c₃ hc₃ hle₃ _ => ?_
  refine ((ih.statement c₃ hc₃).of_enough (by simp only [Suffices]; omega)).bind
    fun thenBranch c₄ hc₄ hle₄ _ => ?_
  refine (tracks_accept? hend hc₄).bind fun keyword c₅ hc₅ hle₅ _ => ?_
  rcases keyword with _ | keyword
  · exact tracks_pure hc₅ trivial
  · exact ((ih.statement c₅ hc₅).of_enough (by simp only [Suffices]; omega)).bind
      fun elseBranch c₆ hc₆ _ _ => tracks_pure hc₆ trivial

lemma tracks_whileStatement (hend : EndsOnce tokens) (ih : DeclarationsTrack tokens n)
    (hc : c.On tokens) :
    Tracks tokens (Suffices tokens c 1 (n + 1)) (IndexedReader.whileStatement (n + 1))
      (Reader.whileStatement (n + 1)) c anyResult := by
  rw [IndexedReader.whileStatement, Reader.whileStatement]
  refine (tracks_expect hend hc).bind fun left c₁ hc₁ hle₁ hlt₁ => ?_
  refine (tracks_inner hend hc₁ (by simp only [Suffices]; omega)).bind
    fun condition c₂ hc₂ hle₂ _ => ?_
  refine (tracks_expect hend hc₂).bind fun right c₃ hc₃ hle₃ _ => ?_
  exact ((ih.statement c₃ hc₃).of_enough (by simp only [Suffices]; omega)).bind
    fun body c₄ hc₄ _ _ => tracks_pure hc₄ trivial

end Declarations

/-- **Declarations are read by position as they are read over a cursor.** -/
lemma declarationsTrack {tokens : List Token} (hend : EndsOnce tokens) (n : Nat) :
    DeclarationsTrack tokens n := by
  induction n with
  | zero =>
    constructor
    all_goals
      intros
      exact tracks_exhausted (not_suffices_zero (by assumption) (by decide))
  | succ n ih =>
    exact {
      declaration := fun _ hc hopen => tracks_declaration hend ih hc hopen
      declarationRule := fun _ hc => tracks_declarationRule hend ih hc
      classDeclaration := fun _ hc => tracks_classDeclaration hend ih hc
      methodList := fun _ hc => tracks_methodList ih hc
      function := fun role _ hc => tracks_function hend ih role hc
      block := fun _ hc => tracks_block hend ih hc
      blockItems := fun _ hc => tracks_blockItems ih hc
      statement := fun _ hc => tracks_statement hend ih hc
      forStatement := fun _ hc => tracks_forStatement hend ih hc
      ifStatement := fun _ hc => tracks_ifStatement hend ih hc
      whileStatement := fun _ hc => tracks_whileStatement hend ih hc }

/-- A declaration before the end of the source moves on, unless the fuel runs out. -/
lemma declaration_moves_on {tokens : List Token} (hend : EndsOnce tokens) {c : Cursor}
    (hc : c.On tokens) (hopen : c.isAtEnd = false) (n : Nat) :
    ¬Suffices tokens c 13 n ∧ IndexedReader.declaration n tokens c.stand = .exhausted ∨
      ∃ o c', Reader.declaration n c = (some o, c') ∧
        IndexedReader.declaration n tokens c.stand = .read o c'.stand ∧ c'.On tokens ∧
        c.position < c'.position := by
  cases (declarationsTrack hend n).declaration c hc hopen with
  | read hp hq hon hle herrors hadded hlt => exact .inr ⟨_, _, hp, hq, hon, hlt⟩
  | failed hp hq =>
    -- Recovery has a result in any case.
    rcases n with _ | n
    · cases hq
    · rw [Reader.declaration, Reader.recover] at hp
      split at hp <;> simp at hp
  | exhausted hq hscarce => exact .inl ⟨hscarce, hq⟩

/-- A whole program ends at the end of the source. -/
lemma tracks_declarations {tokens : List Token} (hend : EndsOnce tokens) {n : Nat} {c : Cursor}
    (hc : c.On tokens) :
    Tracks tokens (Suffices tokens c 14 n) (IndexedReader.declarations n) (Reader.declarations n) c
      fun c' _ => c'.isAtEnd = true := by
  induction n generalizing c with
  | zero => exact tracks_exhausted (not_suffices_zero hc (by decide))
  | succ n ih =>
    rw [IndexedReader.declarations, Reader.declarations]
    refine tracks_isAtEnd hc ?_
    split
    · next hclosed => exact tracks_pure hc hclosed
    · next hopen =>
      refine (((declarationsTrack hend n).declaration c hc (by simpa using hopen)).of_enough
        (by simp only [Suffices]; omega)).bind fun first c₁ hc₁ hle₁ hlt₁ => ?_
      exact ((ih hc₁).of_enough (by simp only [Suffices]; omega)).bind
        fun others c₂ hc₂ _ hclosed => tracks_pure hc₂ hclosed

/-- A whole program has a result, since every declaration recovers. -/
lemma declarations_ne_failed {tokens : List Token} (hend : EndsOnce tokens) {n : Nat} {c : Cursor}
    (hc : c.On tokens) (s : Stand) : IndexedReader.declarations n tokens c.stand ≠ .failed s := by
  induction n generalizing c with
  | zero => exact nofun
  | succ n ih =>
    rw [IndexedReader.declarations, IndexedReader.run_bind, run_isAtEnd hc]
    cases hopen : c.isAtEnd with
    | true => simp
    | false =>
      rcases declaration_moves_on hend hc hopen n with ⟨-, hrun⟩ | ⟨o, c', -, hrun, hon, -⟩
      · simp [hrun]
      · have hothers := ih hon
        simp only [Bool.false_eq_true, if_false, IndexedReader.run_bind, hrun]
        cases hcase : IndexedReader.declarations n tokens c'.stand <;> simp_all

/-- With enough fuel a whole program is read, up to the end of the source. -/
lemma declarations_read {tokens : List Token} (hend : EndsOnce tokens) {n : Nat} {c : Cursor}
    (hc : c.On tokens) (henough : Suffices tokens c 14 n) :
    ∃ program c' added, Reader.declarations n c = (some program, c') ∧
      IndexedReader.declarations n tokens c.stand = .read program c'.stand ∧ c'.On tokens ∧
      c'.isAtEnd = true ∧ c'.errors = c.errors ++ added ∧
      Orderly tokens c.position c'.position added := by
  cases tracks_declarations hend hc (n := n) with
  | read hp hq hon hle herrors hadded hclosed =>
    exact ⟨_, _, _, hp, hq, hon, hclosed, herrors, hadded⟩
  | failed hp hq => exact absurd hq (declarations_ne_failed hend hc _)
  | exhausted hq hscarce => exact absurd henough hscarce

lemma declarations_ne_outOfRange {tokens : List Token} (hend : EndsOnce tokens) {n : Nat}
    {c : Cursor} (hc : c.On tokens) :
    IndexedReader.declarations n tokens c.stand ≠ .outOfRange := by
  intro hout
  cases tracks_declarations hend hc (n := n) with
  | read hp hq => exact nomatch hq.symm.trans hout
  | failed hp hq => exact nomatch hq.symm.trans hout
  | exhausted hq => exact nomatch hq.symm.trans hout

/-! ## Whole programs -/

section Programs

variable {ts : List Token} {e : Token}

/-- Tokens with the end of the source behind them and nowhere else. -/
lemma endsOnce_append (hts : ∀ t ∈ ts, t.kind ≠ .eof) (he : e.kind = .eof) :
    EndsOnce (ts ++ [e]) := by
  refine ⟨fun i t ht => ?_⟩
  have hlength : (ts ++ [e]).length = ts.length + 1 := by simp
  rcases Nat.lt_or_ge i ts.length with hlt | hge
  · rw [List.getElem?_append_left hlt] at ht
    have hne : t.isEof ≠ true := by simpa [Token.isEof] using hts t (List.mem_of_getElem? ht)
    exact iff_of_false hne (by omega)
  · obtain ⟨hi, -⟩ := List.getElem?_eq_some_iff.mp ht
    have hlast : i = ts.length := by omega
    subst hlast
    obtain rfl : e = t := by simpa using ht
    exact iff_of_true (by simp [Token.isEof, he]) (by omega)

/-- The fuel of a whole program is enough for every rule, wherever the cursor is. -/
lemma suffices_fuelPerToken {tokens : List Token} {c : Cursor} {rank fuel : Nat}
    (hrank : rank ≤ 16) (hfuel : fuelPerToken * (tokens.length + 1) ≤ fuel) :
    Suffices tokens c rank fuel := by
  unfold fuelPerToken at hfuel
  unfold Suffices
  omega

/-- **Reading makes progress and stays in range.**  The tokens are arbitrary, except that the end of
the source stands behind them and nowhere else.

Read by position they give what `readProgram` gives, so no reader looks where there is no token, and
reading comes to its end with the end of the source next.  That no reader looks out of range is so
with less fuel, too.  A declaration that starts before the end of the source moves the cursor on,
whether it can be read or not.  A complaint that ends a declaration is about the token at its
position, and where that is not the end of the source, each such position is behind the one
before. -/
theorem readProgram_progresses (hts : ∀ t ∈ ts, t.kind ≠ .eof) (he : e.kind = .eof) (n : RefId) :
    let tokens := ts ++ [e]
    let reading := readProgram tokens n
    let enough := fuelPerToken * (tokens.length + 1)
    IndexedReader.declarations enough tokens ⟨0, n, []⟩ =
        .read reading.program ⟨ts.length, reading.nextRef, reading.errors⟩ ∧
      reading.rest = [e] ∧
      (∀ fuel, IndexedReader.declarations fuel tokens ⟨0, n, []⟩ ≠ .outOfRange) ∧
      (∀ (fuel : Nat) (c : Cursor), c.rest = tokens.drop c.position → c.position < ts.length →
        fuel < enough ∧ IndexedReader.declaration fuel tokens c.stand = .exhausted ∨
        ∃ o c', Reader.declaration fuel c = (some o, c') ∧
          IndexedReader.declaration fuel tokens c.stand = .read o c'.stand ∧
          c'.rest = tokens.drop c'.position ∧
          c.position < c'.position ∧ c'.position ≤ ts.length) ∧
      (∀ x ∈ reading.errors, x.cause.isFatal = true → tokens[x.position]? = some x.token) ∧
      (reading.errors.filter fun x => x.cause.isFatal && !x.token.isEof).Pairwise
        (·.position < ·.position) := by
  intro tokens reading enough
  have hend : EndsOnce tokens := endsOnce_append hts he
  have hlength : tokens.length = ts.length + 1 := by simp [tokens]
  have hstart : Cursor.On ⟨tokens, 0, n, []⟩ tokens := ⟨rfl, by show 0 < _; omega⟩
  obtain ⟨program, c', added, hp, hq, hon, hclosed, herrors, hadded⟩ :=
    declarations_read hend hstart (suffices_fuelPerToken (by decide) (Nat.le_refl enough))
  have hreading : reading = ⟨program, c'.errors, c'.nextRef, c'.rest⟩ := by
    simp only [reading, readProgram]
    rw [hp]
    rfl
  have hposition : c'.position = ts.length := by
    have := (hon.isAtEnd_iff hend).mp hclosed
    omega
  have hrest : c'.rest = [e] := by
    rw [hon.rest, hposition]
    simp [tokens]
  rw [List.nil_append] at herrors
  rw [hreading]
  refine ⟨hposition ▸ hq, hrest, fun fuel => declarations_ne_outOfRange hend hstart, ?_,
    herrors ▸ hadded.located, herrors ▸ hadded.ascending⟩
  intro fuel c hrest hposition
  have hc : c.On tokens := ⟨hrest, by omega⟩
  have hopen : c.isAtEnd = false := by
    rw [Bool.eq_false_iff, ne_eq, hc.isAtEnd_iff hend]
    omega
  rcases declaration_moves_on hend hc hopen fuel with ⟨hscarce, hq⟩ | ⟨o, c', hp, hq, hon, hlt⟩
  · refine .inl ⟨Nat.lt_of_not_le fun hfuel => ?_, hq⟩
    exact hscarce (suffices_fuelPerToken (by decide) hfuel)
  · have := hon.position
    exact .inr ⟨o, c', hp, hq, hon.rest, hlt, by omega⟩

/-- The tokens of `} fun ; fun`.  The first two complaints are about the brace and the semicolon,
the third one is about the end of the source. -/
theorem readProgram_progresses_garbage :
    let ts : List Token := [⟨.mark .rightBrace, "\x7d", 1⟩, ⟨.keyword .fun_, "fun", 1⟩,
      ⟨.mark .semicolon, ";", 1⟩, ⟨.keyword .fun_, "fun", 1⟩]
    let reading := readProgram (ts ++ [⟨.eof, "", 1⟩]) 0
    reading.rest = [⟨.eof, "", 1⟩] ∧ reading.errors.map (·.position) = [0, 2, 4] ∧
      (∀ fuel, IndexedReader.declarations fuel (ts ++ [⟨.eof, "", 1⟩]) ⟨0, 0, []⟩ ≠ .outOfRange) ∧
      (reading.errors.filter fun x => x.cause.isFatal && !x.token.isEof).Pairwise
        (·.position < ·.position) := by
  intro ts reading
  obtain ⟨-, hrest, hrange, -, -, hascending⟩ :=
    @readProgram_progresses ts ⟨.eof, "", 1⟩ (by decide) rfl 0
  exact ⟨hrest, by decide +kernel, hrange, hascending⟩

end Programs

end LoxLang
