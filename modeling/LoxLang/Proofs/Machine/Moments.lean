import LoxLang.Proofs.Machine.Activity
import LoxLang.Proofs.Machine.Inheritance

/-!
# Moments of a run

An activity has two moments, the one at which it is begun and the one at which it has ended, in
whatever way.  Between them lie both moments of everything that it starts.  So the moments of a run
are ordered: the store at one of them becomes the store at every later one, step by step, and no
step binds a keyword (`Underway.leads`).  What lasts through steps like that lasts from any moment
of a run to any later one.

That no keyword is bound is a property of the text.  It is carried along the starts together with
the invariant of a run (`Activity.Provided`).
-/

namespace LoxLang

/-! ## Activities of tidy programs -/

/-- **A task is about known things**: tidy text, or known values. -/
def Task.Known (K : ClassDecl → Prop) (trace : List Observation) : Task → Prop
  | .evaluate e => e.Tidy
  | .evaluateAll es => Expr.AllTidy es
  | .invoke value arguments _ => value.Known K trace ∧ ∀ v ∈ arguments, v.Known K trace
  | .call c arguments _ => c.Known K trace ∧ ∀ v ∈ arguments, v.Known K trace
  | .execute s => s.Tidy K
  | .executeAll body => Stmt.AllTidy K body
  | .repeatWhile condition body => condition.Tidy ∧ body.Tidy K

namespace Activity

/-- An activity is about known things, on a machine that provides what they rely on. -/
def Provided (K : ClassDecl → Prop) (a : Activity) : Prop :=
  ∃ trace, LoxLang.Provided K ⟨a.machine, trace⟩ ∧ a.task.Known K trace

/-- The machine when an activity has ended, in whatever way. -/
def after (a : Activity) : Machine :=
  match a.task with
  | .evaluate e => (LoxLang.evaluate a.fuel e a.machine).2
  | .evaluateAll es => (LoxLang.evaluateAll a.fuel es a.machine).2
  | .invoke value arguments paren => (LoxLang.invoke a.fuel value arguments paren a.machine).2
  | .call c arguments paren => (LoxLang.call a.fuel c arguments paren a.machine).2
  | .execute s => (LoxLang.execute a.fuel s a.machine).2
  | .executeAll body => (LoxLang.executeAll a.fuel body a.machine).2
  | .repeatWhile condition body => (LoxLang.repeatWhile a.fuel condition body a.machine).2

end Activity

/-- A machine that a run leads to from another one. -/
def Machine.Leads (m m' : Machine) : Prop := m.store.Becomes IsBindableName m'.store

/-- What a watched effect provides, said of the effect itself. -/
lemma Provides.of_run {α : Type} {K : ClassDecl → Prop} {m m₁ : Machine} {trace : List Observation}
    {x : Watched α} {y : Effect α} {Q : α → Watch → Prop} {outcome : Outcome α}
    (h : Provides K ⟨m, trace⟩ x Q) (herases : Watched.Erases x y) (hrun : y m = (outcome, m₁)) :
    ∃ trace', m.Leads m₁ ∧ trace <+: trace' ∧ Provided K ⟨m₁, trace'⟩ ∧
      ∀ a, outcome = .ok a → Q a ⟨m₁, trace'⟩ := by
  obtain ⟨hleads, hprovided, hend⟩ := h
  have hsame := herases ⟨m, trace⟩
  simp only [hrun, Prod.mk.injEq] at hsame
  obtain ⟨houtcome, rfl⟩ := hsame
  exact ⟨_, hleads.store, hleads.isPrefix, hprovided, fun a ha => hend a (houtcome.trans ha)⟩

namespace Machine.Leads

variable {α β : Type} {x : Effect α} {f : α → Effect β} {m m₁ m' m'' : Machine}

lemma refl (m : Machine) : m.Leads m := Store.Becomes.refl _ _

lemma trans (h : m.Leads m') (h' : m'.Leads m'') : m.Leads m'' := Store.Becomes.trans h h'

/-- Where the first of two effects ends lies before where both end. -/
lemma after (hf : ∀ a m₁, x m = (.ok a, m₁) → m₁.Leads (f a m₁).2) :
    (x m).2.Leads ((x >>= f) m).2 := by
  rw [Effect.run_bind]
  rcases hrun : x m with ⟨outcome, m₁⟩
  cases outcome with
  | ok a => exact hf a m₁ hrun
  | error | fault | exhausted => exact refl m₁

lemma bind (hx : m.Leads (x m).2) (hf : ∀ a m₁, x m = (.ok a, m₁) → m₁.Leads (f a m₁).2) :
    m.Leads ((x >>= f) m).2 := hx.trans (after hf)

/-- Two effects of which the first has been done. -/
lemma done {a : α} (hx : x m = (.ok a, m₁)) (hf : m'.Leads (f a m₁).2) :
    m'.Leads ((x >>= f) m).2 := by
  rwa [Effect.run_bind, hx]

end Machine.Leads

section Results

variable {K : ClassDecl → Prop} {n : Nat} {m m₁ : Machine} {trace : List Observation}

lemma Provided.evaluate (h : Provided K ⟨m, trace⟩) {e : Expr} (he : e.Tidy)
    {outcome : Outcome Value} (hrun : LoxLang.evaluate n e m = (outcome, m₁)) :
    ∃ trace', m.Leads m₁ ∧ trace <+: trace' ∧ Provided K ⟨m₁, trace'⟩ ∧
      ∀ value, outcome = .ok value → value.Known K trace' :=
  ((providesAt K n).evaluate e he h).of_run ((Watched.erasesAt n).evaluate e) hrun

lemma Provided.evaluateAll (h : Provided K ⟨m, trace⟩) {es : List Expr} (hes : Expr.AllTidy es)
    {outcome : Outcome (List Value)} (hrun : LoxLang.evaluateAll n es m = (outcome, m₁)) :
    ∃ trace', m.Leads m₁ ∧ trace <+: trace' ∧ Provided K ⟨m₁, trace'⟩ ∧
      ∀ values, outcome = .ok values → ∀ v ∈ values, v.Known K trace' :=
  ((providesAt K n).evaluateAll es hes h).of_run ((Watched.erasesAt n).evaluateAll es) hrun

lemma Provided.execute (h : Provided K ⟨m, trace⟩) {s : Stmt} (hs : s.Tidy K)
    {outcome : Outcome Flow} (hrun : LoxLang.execute n s m = (outcome, m₁)) :
    ∃ trace', m.Leads m₁ ∧ trace <+: trace' ∧ Provided K ⟨m₁, trace'⟩ ∧
      ∀ flow, outcome = .ok flow → flow.Known K trace' :=
  ((providesAt K n).execute s hs h).of_run ((Watched.erasesAt n).execute s) hrun

end Results

namespace Activity

variable {K : ClassDecl → Prop} {a b : Activity} {link : Link}

/-- **What is started is about known things too**, and later. -/
lemma Starts.provided (h : a.Starts link b) (ha : a.Provided K) :
    b.Provided K ∧ a.machine.Leads b.machine := by
  obtain ⟨trace, hm, htask⟩ := ha
  have hfirst : ∀ {n e m₁ value}, Expr.Tidy e → LoxLang.evaluate n e a.machine = (.ok value, m₁) →
      ∃ trace', a.machine.Leads m₁ ∧ trace <+: trace' ∧ LoxLang.Provided K ⟨m₁, trace'⟩ ∧
        value.Known K trace' := by
    intro n e m₁ value he hrun
    obtain ⟨trace', hleads, hlater, h₁, hvalue⟩ := hm.evaluate he hrun
    exact ⟨trace', hleads, hlater, h₁, hvalue value rfl⟩
  cases h with
  | grouping | unary | get | expression | print | returnValue =>
    exact ⟨⟨trace, hm, htask⟩, .refl _⟩
  | binaryLeft | logicalLeft | callee | setObject | first | head | whileCondition =>
    exact ⟨⟨trace, hm, htask.1⟩, .refl _⟩
  | whileLoop => exact ⟨⟨trace, hm, htask⟩, .refl _⟩
  | var | assign => exact ⟨⟨trace, hm, htask.2⟩, .refl _⟩
  | @condition n condition thenBranch elseBranch m =>
    cases elseBranch <;> exact ⟨⟨trace, hm, htask.1⟩, .refl _⟩
  | binaryRight h | logicalRight h | arguments h | setValue h | others h =>
    obtain ⟨trace', hleads, -, h₁, -⟩ := hfirst htask.1 h
    exact ⟨⟨trace', h₁, htask.2⟩, hleads⟩
  | @thenBranch n condition thenBranch elseBranch value m m₁ h htrue =>
    cases elseBranch with
    | none =>
      obtain ⟨trace', hleads, -, h₁, -⟩ := hfirst htask.1 h
      exact ⟨⟨trace', h₁, htask.2⟩, hleads⟩
    | some s =>
      obtain ⟨trace', hleads, -, h₁, -⟩ := hfirst htask.1 h
      exact ⟨⟨trace', h₁, htask.2.1⟩, hleads⟩
  | elseBranch h hfalse =>
    obtain ⟨trace', hleads, -, h₁, -⟩ := hfirst htask.1 h
    exact ⟨⟨trace', h₁, htask.2.2⟩, hleads⟩
  | round h htrue =>
    obtain ⟨trace', hleads, -, h₁, -⟩ := hfirst htask.1 h
    exact ⟨⟨trace', h₁, htask.2⟩, hleads⟩
  | again h htrue hround =>
    obtain ⟨trace₁, hleads₁, -, h₁, -⟩ := hfirst htask.1 h
    obtain ⟨trace₂, hleads₂, -, h₂, -⟩ := h₁.execute htask.2 hround
    exact ⟨⟨trace₂, h₂, htask⟩, hleads₁.trans hleads₂⟩
  | invoke hcallee harguments =>
    obtain ⟨trace₁, hleads₁, -, h₁, hvalue⟩ := hfirst htask.1 hcallee
    obtain ⟨trace₂, hleads₂, hlater, h₂, hvalues⟩ := h₁.evaluateAll htask.2 harguments
    exact ⟨⟨trace₂, h₂, hvalue.mono hlater, hvalues _ rfl⟩, hleads₁.trans hleads₂⟩
  | enter harity hroom => exact ⟨⟨trace, hm.congr rfl rfl, htask⟩, .refl _⟩
  | body hframe =>
    obtain ⟨trace₁, hleads, -, h₁, -⟩ := (Provides.openCall hm htask.1 htask.2).of_run
      (Watched.erases_noting _ _) hframe
    exact ⟨⟨trace₁, h₁.congr rfl rfl, FunDecl.Tidy.body htask.1⟩, hleads⟩
  | @construct _ _ method _ _ _ _ _ _ _ hid hmethod hbound =>
    obtain ⟨trace₁, hleads₁, hlater₁, h₁, hsize⟩ := (Provides.addInstance hm htask.1).of_run
      (Watched.erases_quietly _) hid
    have htidy : ∀ closure, method = .declared closure → closure.decl.Tidy K := fun _ hclosure =>
      (htask.1 initializerName).tidy hm.tidy (hmethod.trans (congrArg some hclosure))
    obtain ⟨trace₂, hleads₂, hlater₂, h₂, hknown⟩ :=
      (Provides.bindMethod h₁ htidy (hsize _ rfl)).of_run (Watched.erases_noting _ _) hbound
    exact ⟨⟨trace₂, h₂, hknown _ rfl, fun v hv => (htask.2 v hv).mono (hlater₁.trans hlater₂)⟩,
      hleads₁.trans hleads₂⟩
  | @block n body frame m m₁ hframe =>
    obtain ⟨trace₁, hleads, -, h₁, -⟩ := (Provides.openFrame hm (.block body) [] (by simp)).of_run
      (Watched.erases_noting _ _) hframe
    exact ⟨⟨trace₁, h₁.congr rfl rfl, htask⟩, hleads⟩
  | superclass hname =>
    obtain ⟨hc, hbindable, hsuperclass, -⟩ := htask
    obtain ⟨trace₁, hleads, -, h₁, -⟩ := (Provides.defineNil hm hbindable).of_run
      (Watched.erases_quietly _) hname
    obtain ⟨ref, token, rfl⟩ := hsuperclass _ rfl
    exact ⟨⟨trace₁, h₁, trivial⟩, hleads⟩
  | tail hhead =>
    obtain ⟨trace₁, hleads, -, h₁, -⟩ := hm.execute htask.1 hhead
    exact ⟨⟨trace₁, h₁, htask.2⟩, hleads⟩

/-- **An activity leads from its beginning to its end.** -/
lemma Provided.leads (h : a.Provided K) : a.machine.Leads a.after := by
  obtain ⟨n, task, m⟩ := a
  obtain ⟨trace, hm, htask⟩ := h
  have hat := providesAt K n
  cases task with
  | evaluate e =>
    obtain ⟨-, hleads, -⟩ := hm.evaluate htask rfl
    exact hleads
  | evaluateAll es =>
    obtain ⟨-, hleads, -⟩ := hm.evaluateAll htask rfl
    exact hleads
  | invoke value arguments paren =>
    obtain ⟨-, hleads, -⟩ := (hat.invoke value arguments paren hm htask.1 htask.2).of_run
      ((Watched.erasesAt n).invoke value arguments paren) rfl
    exact hleads
  | call c arguments paren =>
    obtain ⟨-, hleads, -⟩ := (hat.call c arguments paren hm htask.1 htask.2).of_run
      ((Watched.erasesAt n).call c arguments paren) rfl
    exact hleads
  | execute s =>
    obtain ⟨-, hleads, -⟩ := hm.execute htask rfl
    exact hleads
  | executeAll body =>
    obtain ⟨-, hleads, -⟩ := (hat.executeAll body htask hm).of_run
      ((Watched.erasesAt n).executeAll body) rfl
    exact hleads
  | repeatWhile condition body =>
    obtain ⟨-, hleads, -⟩ := (hat.repeatWhile condition body htask.1 htask.2 hm).of_run
      ((Watched.erasesAt n).repeatWhile condition body) rfl
    exact hleads

/-- What has been started ends before what started it. -/
lemma Starts.leads_after (h : a.Starts link b) (ha : a.Provided K) : b.after.Leads a.after := by
  have R := Effect.leading IsBindableName
  -- What is started next, on the machine that the activity `b` has left.
  have hnext : ∀ {link b'}, a.Starts link b' → b'.machine.Leads b'.after :=
    fun h' => (h'.provided ha).1.leads
  cases h with
  | grouping | whileLoop => exact .refl _
  | unary => exact .after fun v m₁ _ => R.applyUnary _ v m₁
  | binaryLeft =>
    exact .after fun x m₁ hleft => .bind (hnext (.binaryRight hleft)) fun y m₂ _ =>
      R.applyBinary _ x y m₂
  | binaryRight hleft => exact .done hleft (.after fun y m₂ _ => R.applyBinary _ _ y m₂)
  | @logicalLeft n left right operator m =>
    refine .after fun x m₁ hleft => ?_
    by_cases hdecided : isDecided operator x = true
    · rw [if_pos hdecided]
      exact .refl m₁
    · rw [if_neg hdecided]
      exact hnext (.logicalRight hleft (by simpa using hdecided))
  | logicalRight hleft hopen =>
    refine .done hleft ?_
    rw [if_neg (by simp [hopen])]
    exact .refl _
  | assign =>
    obtain ⟨-, -, hname, -⟩ := ha
    exact .after fun v m₁ _ => .bind (R.writeRef _ hname v m₁) fun _ m₂ _ => .refl m₂
  | callee =>
    exact .after fun c m₁ hcallee => .bind (hnext (.arguments hcallee)) fun values m₂ hvalues =>
      hnext (.invoke hcallee hvalues)
  | arguments hcallee =>
    exact .done hcallee (.after fun values m₂ hvalues => hnext (.invoke hcallee hvalues))
  | invoke hcallee hvalues => exact .done hcallee (.done hvalues (.refl _))
  | get =>
    refine .after fun value m₁ _ => ?_
    split
    · exact R.property _ _ m₁
    · exact .refl m₁
  | setObject =>
    refine .after fun target m₁ hobject => ?_
    split
    · refine .bind (hnext (.setValue hobject)) fun v m₂ _ => ?_
      exact .bind (R.setField _ _ v m₂) fun _ m₃ _ => .refl m₃
    · exact .refl m₁
  | setValue hobject =>
    exact .done hobject (.after fun v m₂ _ => .bind (R.setField _ _ v m₂) fun _ m₃ _ => .refl m₃)
  | first =>
    exact .after fun v m₁ hfirst => .bind (hnext (.others hfirst)) fun vs m₂ _ => .refl m₂
  | others hfirst => exact .done hfirst (.after fun vs m₂ _ => .refl m₂)
  | @enter n c arguments paren m harity hroom =>
    have hroomy : Effect.counted paren (LoxLang.call n c arguments paren) m =
        Effect.deeper (LoxLang.call n c arguments paren) m := Effect.counted_of_lt hroom
    have hcounted : LoxLang.invoke (n + 1) (.callable c) arguments paren m =
        Effect.deeper (LoxLang.call n c arguments paren) m := by
      rw [← hroomy]
      simp only [LoxLang.invoke, harity, ne_eq, not_true_eq_false, if_false]
      rfl
    show Machine.Leads _ (LoxLang.invoke (n + 1) (.callable c) arguments paren m).2
    rw [hcounted]
    exact .refl _
  | @body n stamp closure arguments paren frame m m₁ hframe =>
    have hrest : (Effect.within (frame :: closure.scope)
        (LoxLang.executeAll n closure.decl.body) m₁).2.Leads _ :=
      .after fun flow m₂ _ => R.closureResult closure flow m₂
    exact .done hframe hrest
  | construct hid hmethod hbound =>
    refine .done hid ?_
    rw [hmethod]
    exact .done hbound (.after fun _ m₃ _ => .refl m₃)
  | expression => exact .after fun _ m₁ _ => .refl m₁
  | print =>
    exact .after fun value m₁ _ => .bind (R.text value m₁) fun line m₂ _ =>
      .bind (R.write _ m₂) fun _ m₃ _ => .refl m₃
  | var =>
    obtain ⟨-, -, hname, -⟩ := ha
    exact .after fun value m₁ _ => .bind (R.define hname value m₁) fun _ m₂ _ => .refl m₂
  | @block n body frame m m₁ hframe => exact .done hframe (.refl _)
  | @condition n condition thenBranch elseBranch m =>
    refine .after fun value m₁ hvalue => ?_
    by_cases htrue : value.isTruthy = true
    · rw [if_pos htrue]
      exact hnext (.thenBranch hvalue htrue)
    · rw [if_neg htrue]
      cases elseBranch with
      | none => exact .refl m₁
      | some s => exact hnext (.elseBranch hvalue (by simpa using htrue))
  | thenBranch hcondition htrue =>
    refine .done hcondition ?_
    rw [if_pos htrue]
    exact .refl _
  | elseBranch hcondition hfalse =>
    refine .done hcondition ?_
    rw [if_neg (by simp [hfalse])]
    exact .refl _
  | returnValue => exact .after fun _ m₁ _ => .refl m₁
  | superclass hname =>
    obtain ⟨-, -, -, hbindable, -⟩ := ha
    refine .done hname (.after fun value m₂ _ => ?_)
    refine .bind (R.expectClass _ value m₂) fun parent m₃ _ => ?_
    exact .bind (R.defineClass hbindable _ _ m₃) fun _ m₄ _ => .refl m₄
  | head =>
    refine .after fun flow m₁ hhead => ?_
    cases flow with
    | normal => exact hnext (.tail hhead)
    | broken | returned => exact .refl m₁
  | tail hhead => exact .done hhead (.refl _)
  | @whileCondition n condition body m =>
    refine .after fun value m₁ hvalue => ?_
    by_cases htrue : value.isTruthy = true
    · rw [if_pos htrue]
      refine .bind (hnext (.round hvalue htrue)) fun flow m₂ hround => ?_
      cases flow with
      | normal => exact hnext (.again hvalue htrue hround)
      | broken | returned => exact .refl m₂
    · rw [if_neg htrue]
      exact .refl m₁
  | round hcondition htrue =>
    refine .done hcondition ?_
    rw [if_pos htrue]
    refine .after fun flow m₂ hround => ?_
    cases flow with
    | normal => exact hnext (.again hcondition htrue hround)
    | broken | returned => exact .refl m₂
  | again hcondition htrue hround =>
    refine .done hcondition ?_
    rw [if_pos htrue]
    exact .done hround (.refl _)

end Activity

/-! ## Programs -/

section Underway

variable {K : ClassDecl → Prop} {fuel : Nat} {program : List Stmt} {m : Machine}

lemma Stmt.allTidy_append {before rest : List Stmt} :
    Stmt.AllTidy K (before ++ rest) ↔ Stmt.AllTidy K before ∧ Stmt.AllTidy K rest := by
  induction before with
  | nil => simp [Stmt.AllTidy]
  | cons s before ih => simp only [List.cons_append, Stmt.AllTidy, ih, and_assoc]

/-- The run of a tidy program leads from where it begins to where it ends. -/
lemma leads_runProgram {trace : List Observation} (hprogram : Stmt.AllTidy K program)
    (hm : Provided K ⟨m, trace⟩) : m.Leads (runProgram fuel program m).2 := by
  obtain ⟨-, hleads, -⟩ := (provides_runProgram fuel program hprogram hm).of_run
    (Watched.erases_runProgram fuel program) rfl
  exact hleads

/-- **Whatever is under way lies between the beginning and the end of the run**, with both of its
moments. -/
lemma Underway.leads {trace : List Observation} (hprogram : Stmt.AllTidy K program)
    (hm : Provided K ⟨m, trace⟩) {links : List Link} {a : Activity}
    (h : Underway fuel program m links a) :
    a.Provided K ∧ m.Leads a.machine ∧ a.after.Leads (runProgram fuel program m).2 := by
  refine Underway.induct (P := fun _ a => a.Provided K ∧ m.Leads a.machine ∧
    a.after.Leads (runProgram fuel program m).2) ?_ ?_ h
  · intro before s rest m₁ heq hbefore
    subst heq
    obtain ⟨hearlier, hs, hrest⟩ := Stmt.allTidy_append.mp hprogram
    obtain ⟨trace₁, hleads, -, h₁, -⟩ := (provides_runProgram fuel before hearlier hm).of_run
      (Watched.erases_runProgram fuel before) hbefore
    refine ⟨⟨trace₁, h₁, hs⟩, hleads, ?_⟩
    rw [runProgram_append]
    refine .done hbefore (.after fun flow m₂ hflow => ?_)
    obtain ⟨trace₂, -, -, h₂, -⟩ := h₁.execute hs hflow
    exact leads_runProgram hrest h₂
  · intro _ _ _ _ _ ha hstart
    obtain ⟨hprovided, hbegin, hend⟩ := ha
    obtain ⟨hstarted, hlater⟩ := hstart.provided hprovided
    exact ⟨hstarted, hbegin.trans hlater, (hstart.leads_after hprovided).trans hend⟩

end Underway

end LoxLang
