import LoxLang.Proofs.Machine.Activity
import LoxLang.Proofs.Machine.Agreement
import LoxLang.Proofs.Machine.Mirror

/-!
# Where activities stand

What goes on during a run has a place in the text: an expression or a statement that is run stands
somewhere in an accepted program, and the scope of the machine is aligned with the scopes around
that place (`Activity.Stands`).  Values that are called fit.  This holds of the statements at top
level, and whatever is started stands somewhere again (`Activity.Starts.stands`).

On such a machine everything mirrors itself (`Sound.mirror`).
-/

namespace LoxLang

/-! ## Machines that mirror themselves -/

/-- Every frame is its own image. -/
def Images.identity (n : Nat) : Images := (List.range n).map .own

lemma Images.getElem?_identity {n : Nat} {id : FrameId} (h : id < n) :
    (Images.identity n)[id]? = some (.own id) := by
  simp [identity, h]

lemma Images.eq_of_getElem?_identity {n : Nat} {id : FrameId} {x : Image}
    (h : (Images.identity n)[id]? = some x) : id < n ∧ x = .own id := by
  have hlt : id < n := by simpa [identity] using (List.getElem?_eq_some_iff.mp h).1
  exact ⟨hlt, Option.some.inj (h.symm.trans (getElem?_identity hlt))⟩

section Itself

variable {S : Site → Prop} {w : Watch}

lemma Aligned.mirror {pending : Option String} {Γ : LexicalContext} {scope : Scope}
    (h : Aligned w pending Γ scope) :
    scope.Mirror (.identity w.machine.store.frames.size) Γ scope := by
  induction h with
  | globals => exact .globals
  | cons hframe _ _ _ ih => exact .own (Images.getElem?_identity hframe) ih

lemma Closure.Fits.mirror {c : Closure} (h : c.Fits S w) :
    c.Mirror S (.identity w.machine.store.frames.size) c := by
  obtain ⟨Γ, halign, hsites, hthis⟩ := h
  refine ⟨rfl, rfl, Γ, halign.mirror, hsites, fun hinitializer => ?_⟩
  obtain ⟨σ, outer, rfl, hσ⟩ := hthis hinitializer
  exact ⟨σ, rfl, List.ne_nil_of_mem hσ⟩

lemma Method.Fits.mirror {m : Method} (h : m.Fits S w) :
    m.Mirror S (.identity w.machine.store.frames.size) m := by
  cases m with
  | declared c =>
    obtain ⟨Γ, halign, hsites⟩ := h
    exact .declared rfl rfl halign.mirror hsites
  | builtin b => exact .builtin b

lemma Class.Fits.mirror {c : Class} (h : c.Fits S w) :
    c.Mirror S (.identity w.machine.store.frames.size) c := by
  refine ⟨rfl, rfl, fun method => ?_⟩
  cases hfound : c.lookup? method with
  | none => exact .none
  | some m => exact .some (h method m hfound).mirror

lemma Value.Fits.mirror {v : Value} (h : v.Fits S w) :
    v.Mirror S (.identity w.machine.store.frames.size) v := by
  rcases v with _ | b | x | s | (_ | ⟨stamp, closure⟩ | c) | id
  · exact .nil
  · exact .bool b
  · exact .number x
  · exact .string s
  · exact .callable (.builtin ..)
  · exact .callable (.function stamp (Closure.Fits.mirror h))
  · exact .callable (.cls (Class.Fits.mirror h))
  · exact .object id

lemma Bindings.like_self {α : Type} {R : α → α → Prop} {b : Bindings α}
    (h : ∀ name value, b.find? name = some value → R value value) : b.Like R .identity b := by
  intro name
  rw [Renaming.identity_apply]
  cases hfound : b.find? name with
  | none => exact .none
  | some value => exact .some (h name value hfound)

lemma Instance.Fits.mirror {i : Instance} (h : i.Fits S w) :
    i.Mirror S (.identity w.machine.store.frames.size) i := by
  refine ⟨h.cls.mirror, Bindings.like_self fun name value hvalue => ?_, rfl, fun k => ?_⟩
  · exact (h.fields name value hvalue).mirror
  · cases hfound : i.elements[k]? with
    | none => exact .none
    | some value => exact .some (h.elements value (Array.mem_of_getElem? hfound)).mirror

/-- The distance of a site that was accepted is that of the text. -/
lemma Sound.resolved (h : Sound S w) {s : Site} (hs : S s) : s.Resolved w.machine.distances := by
  refine ⟨h.distances s hs, fun huse d hvisible => ?_⟩
  have hplaced := h.placed s hs
  have hfound : s.scopes.findIdx? (·.declares "super") = some d := by
    simpa [Site.visible?, Site.isOwnRead, huse, hplaced.super huse] using hvisible
  obtain ⟨j, τ, rfl, hτ, hthis⟩ := hplaced.paired.exists_this hfound
  exact ⟨τ, hτ, List.ne_nil_of_mem hthis⟩

/-- **A machine with the invariant mirrors itself.** -/
lemma Sound.mirror (h : Sound S w) (hglobal : globalFrame < w.machine.store.frames.size) :
    w.machine.Mirror S (.identity w.machine.store.frames.size) w.machine where
  store :=
    { size := by simp [Images.identity]
      frame := fun {id id'} hid => by
        obtain ⟨-, heq⟩ := Images.eq_of_getElem?_identity hid
        cases heq
        exact Bindings.like_self fun name value hvalue => (h.frames id name value hvalue).mirror
      below := fun {id id'} hid => by
        obtain ⟨hlt, heq⟩ := Images.eq_of_getElem?_identity hid
        cases heq
        exact hlt
      apart := fun {i j id'} hi hj => by
        obtain ⟨-, heq⟩ := Images.eq_of_getElem?_identity hi
        cases heq
        obtain ⟨-, heq⟩ := Images.eq_of_getElem?_identity hj
        cases heq
        rfl
      instances := ⟨rfl, fun k => by
        cases hfound : w.machine.store.instances[k]? with
        | none => exact .none
        | some i => exact .some (h.instances k i hfound).mirror⟩
      nextStamp := rfl
      opened := Images.getElem?_identity hglobal }
  depth := rfl
  limit := rfl
  distances := rfl
  resolved s hs := h.resolved hs
  console := rfl
  clock := rfl

end Itself

/-! ## Places of activities -/

/-- **A task stands somewhere** in an accepted program, or is a call of values that fit. -/
def Task.Stands (S : Site → Prop) (w : Watch) : Task → Prop
  | .evaluate e => ∃ Γ pending, Aligned w pending Γ w.machine.scope ∧ ∀ s ∈ e.sites Γ pending, S s
  | .evaluateAll es =>
    ∃ Γ pending, Aligned w pending Γ w.machine.scope ∧ ∀ s ∈ Expr.sitesAll Γ pending es, S s
  | .invoke value arguments _ => value.Fits S w ∧ ∀ v ∈ arguments, v.Fits S w
  | .call c arguments _ =>
    c.Fits S w ∧ (∀ v ∈ arguments, v.Fits S w) ∧ arguments.length = c.arity
  | .execute s => ∃ Γ, Aligned w none Γ w.machine.scope ∧ ∀ site ∈ s.sites Γ, S site
  | .executeAll body =>
    ∃ Γ, Aligned w none Γ w.machine.scope ∧ ∀ site ∈ Stmt.sitesAll Γ body, S site
  | .repeatWhile condition body => ∃ Γ, Aligned w none Γ w.machine.scope ∧
    (∀ site ∈ condition.sites Γ none, S site) ∧ ∀ site ∈ body.sites Γ, S site

/-- An activity stands somewhere, on a machine with the invariant of a run. -/
def Activity.Stands (S : Site → Prop) (a : Activity) : Prop :=
  ∃ w : Watch, w.machine = a.machine ∧ LoxLang.Sound S w ∧
    globalFrame < w.machine.store.frames.size ∧ a.task.Stands S w

/-- What a watched effect keeps, said of the effect itself. -/
lemma Meets.of_run {α : Type} {S : Site → Prop} {w : Watch} {m₁ : Machine} {x : Watched α}
    {y : Effect α} {Q : α → Watch → Prop} {a : α} (h : Meets S w x Q)
    (herases : Watched.Erases x y) (hrun : y w.machine = (.ok a, m₁)) :
    ∃ w₁ : Watch, w₁.machine = m₁ ∧ w.Extends w₁ ∧ Sound S w₁ ∧ Q a w₁ := by
  obtain ⟨hextends, hsound, hend⟩ := h
  have hsame := herases w
  rw [hrun, Prod.mk.injEq] at hsame
  rw [hsame.1] at hend
  exact ⟨(x w).2, hsame.2, hextends, hsound, hend⟩

namespace Activity

variable {S : Site → Prop} {a b : Activity} {link : Link}

/-- **What is started stands somewhere too.** -/
lemma Starts.stands (h : a.Starts link b) (ha : a.Stands S) : b.Stands S := by
  obtain ⟨w, hm, hsound, hglobal, htask⟩ := ha
  have hlater : ∀ {w₁ : Watch}, w.Extends w₁ → globalFrame < w₁.machine.store.frames.size :=
    fun hw => Nat.lt_of_lt_of_le hglobal hw.size
  -- What has been done before ended on a machine with the invariant.
  have hevaluate : ∀ {w : Watch} {n e m₁ value Γ pending}, LoxLang.Sound S w →
      Aligned w pending Γ w.machine.scope → (∀ s ∈ Expr.sites Γ pending e, S s) →
      LoxLang.evaluate n e w.machine = (.ok value, m₁) →
      ∃ w₁ : Watch, w₁.machine = m₁ ∧ w.Extends w₁ ∧ LoxLang.Sound S w₁ ∧ value.Fits S w₁ :=
    fun hsound halign hsites hrun =>
      ((keepsAt S _).evaluate _ hsound halign hsites).of_run ((Watched.erasesAt _).evaluate _) hrun
  have hexecute : ∀ {w : Watch} {n s m₁ flow Γ},
      LoxLang.Sound S w → Aligned w none Γ w.machine.scope →
      (∀ site ∈ Stmt.sites Γ s, S site) → LoxLang.execute n s w.machine = (.ok flow, m₁) →
      ∃ w₁ : Watch, w₁.machine = m₁ ∧ w.Extends w₁ ∧ LoxLang.Sound S w₁ ∧ flow.Fits S w₁ ∧
        (flow = .normal → Aligned w₁ none (s.after Γ) w₁.machine.scope) :=
    fun hsound halign hsites hrun =>
      ((keepsAt S _).execute _ hsound halign hsites).of_run ((Watched.erasesAt _).execute _) hrun
  cases h with
  | grouping | unary | get => exact ⟨w, hm, hsound, hglobal, htask⟩
  | expression | print | returnValue =>
    obtain ⟨Γ, halign, hsites⟩ := htask
    exact ⟨w, hm, hsound, hglobal, Γ, none, halign, hsites⟩
  | binaryLeft | logicalLeft | assign | callee | first =>
    obtain ⟨Γ, pending, halign, hsites⟩ := htask
    exact ⟨w, hm, hsound, hglobal, Γ, pending, halign, (List.forall_mem_append.mp hsites).1⟩
  | setObject =>
    obtain ⟨Γ, pending, halign, hsites⟩ := htask
    exact ⟨w, hm, hsound, hglobal, Γ, pending, halign, (List.forall_mem_append.mp hsites).2⟩
  | binaryRight hfirst | logicalRight hfirst | arguments hfirst | others hfirst =>
    subst hm
    obtain ⟨Γ, pending, halign, hsites⟩ := htask
    obtain ⟨hleft, hright⟩ := List.forall_mem_append.mp hsites
    obtain ⟨w₁, hm₁, hw, hsound₁, -⟩ := hevaluate hsound halign hleft hfirst
    exact ⟨w₁, hm₁, hsound₁, hlater hw, Γ, pending, halign.later hw, hright⟩
  | setValue hobject =>
    subst hm
    obtain ⟨Γ, pending, halign, hsites⟩ := htask
    obtain ⟨hvalue, htarget⟩ := List.forall_mem_append.mp hsites
    obtain ⟨w₁, hm₁, hw, hsound₁, -⟩ := hevaluate hsound halign htarget hobject
    exact ⟨w₁, hm₁, hsound₁, hlater hw, Γ, pending, halign.later hw, hvalue⟩
  | invoke hcallee harguments =>
    subst hm
    obtain ⟨Γ, pending, halign, hsites⟩ := htask
    obtain ⟨hfirst, hrest⟩ := List.forall_mem_append.mp hsites
    obtain ⟨w₁, rfl, hw, hsound₁, hvalue⟩ := hevaluate hsound halign hfirst hcallee
    obtain ⟨w₂, hm₂, hw₂, hsound₂, hvalues⟩ :=
      ((keepsAt S _).evaluateAll _ hsound₁ (halign.later hw) hrest).of_run
        ((Watched.erasesAt _).evaluateAll _) harguments
    exact ⟨w₂, hm₂, hsound₂, hlater (hw.trans hw₂), hvalue.mono hw₂, hvalues⟩
  | enter harity hroom =>
    -- The invariant does not look at the depth.
    subst hm
    refine ⟨⟨{ w.machine with depth := w.machine.depth + 1 }, w.trace⟩, rfl,
      hsound.congr rfl rfl rfl, hglobal, ?_, ?_, harity⟩
    · exact Value.Fits.congr (v := .callable _) htask.1 rfl rfl
    · exact fun v hv => (htask.2 v hv).congr rfl rfl
  | @body n stamp closure arguments paren frame m m₁ hframe =>
    subst hm
    obtain ⟨hclosure, harguments, harity⟩ := htask
    obtain ⟨w₁, hm₁, hw, hsound₁, Γ, hscope, hsites⟩ :=
      (Meets.openCall hsound hclosure harguments harity).of_run (Watched.erases_noting _ _) hframe
    exact ⟨⟨{ w₁.machine with scope := frame :: closure.scope }, w₁.trace⟩, by rw [hm₁],
      hsound₁.congr rfl rfl rfl, Nat.lt_of_lt_of_le hglobal hw.size, _, hscope.congr rfl rfl,
      hsites⟩
  | construct hid hmethod hbound =>
    subst hm
    obtain ⟨hc, harguments, harity⟩ := htask
    obtain ⟨w₁, rfl, hw, hsound₁, -⟩ := (Meets.addInstance hsound hc).of_run
      (Watched.erases_quietly _) hid
    have hfits : Method.Fits S w₁ _ := Method.Fits.mono (hc _ _ hmethod) hw
    obtain ⟨w₂, hm₂, hw₂, hsound₂, hinitializer, hsame⟩ := (Meets.bindMethod hsound₁ hfits _).of_run
      (Watched.erases_noting _ _) hbound
    refine ⟨w₂, hm₂, hsound₂, hlater (hw.trans hw₂), hinitializer,
      fun v hv => (harguments v hv).mono (hw.trans hw₂), ?_⟩
    rw [harity, Callable.arity, Class.arity, hmethod, hsame]
  | var =>
    obtain ⟨Γ, halign, hsites⟩ := htask
    exact ⟨w, hm, hsound, hglobal, _, _, halign.declare _, hsites⟩
  | @block n body frame m m₁ hframe =>
    subst hm
    obtain ⟨Γ, halign, hsites⟩ := htask
    obtain ⟨w₁, hm₁, hw, hsound₁, hsize, hopened, -⟩ :=
      (Meets.openFrame hsound (.block body) w.machine.scope (by simp)).of_run
        (Watched.erases_noting _ _) hframe
    have hinside : Aligned w₁ none (⟨.block body, []⟩ :: Γ) (frame :: w₁.machine.scope) := by
      rw [hw.scope]
      exact .cons hsize hopened (by simp) (halign.mono hw)
    exact ⟨⟨{ w₁.machine with scope := frame :: w₁.machine.scope }, w₁.trace⟩, by rw [hm₁],
      hsound₁.congr rfl rfl rfl, Nat.lt_of_lt_of_le hglobal hw.size, _, hinside.congr rfl rfl,
      hsites⟩
  | @condition n condition thenBranch elseBranch m =>
    obtain ⟨Γ, halign, hsites⟩ := htask
    refine ⟨w, hm, hsound, hglobal, Γ, none, halign, ?_⟩
    cases elseBranch with
    | none => exact (List.forall_mem_append.mp hsites).1
    | some s => exact (List.forall_mem_append.mp (List.forall_mem_append.mp hsites).1).1
  | @thenBranch n condition thenBranch elseBranch value m m₁ hcondition htrue =>
    subst hm
    obtain ⟨Γ, halign, hsites⟩ := htask
    have hparts : (∀ s ∈ condition.sites Γ none, S s) ∧ ∀ s ∈ thenBranch.sites Γ, S s := by
      cases elseBranch with
      | none => exact List.forall_mem_append.mp hsites
      | some s => exact List.forall_mem_append.mp (List.forall_mem_append.mp hsites).1
    obtain ⟨w₁, hm₁, hw, hsound₁, -⟩ := hevaluate hsound halign hparts.1 hcondition
    exact ⟨w₁, hm₁, hsound₁, hlater hw, Γ, halign.later hw, hparts.2⟩
  | elseBranch hcondition hfalse =>
    subst hm
    obtain ⟨Γ, halign, hsites⟩ := htask
    obtain ⟨hfirst, helse⟩ := List.forall_mem_append.mp hsites
    obtain ⟨w₁, hm₁, hw, hsound₁, -⟩ :=
      hevaluate hsound halign (List.forall_mem_append.mp hfirst).1 hcondition
    exact ⟨w₁, hm₁, hsound₁, hlater hw, Γ, halign.later hw, helse⟩
  | whileLoop =>
    obtain ⟨Γ, halign, hsites⟩ := htask
    exact ⟨w, hm, hsound, hglobal, Γ, halign, List.forall_mem_append.mp hsites⟩
  | superclass hname =>
    subst hm
    obtain ⟨Γ, halign, hsites⟩ := htask
    obtain ⟨w₁, hm₁, hw, hsound₁, hbound⟩ := (Meets.defineNil hsound _).of_run
      (Watched.erases_quietly _) hname
    exact ⟨w₁, hm₁, hsound₁, hlater hw, _, none, (halign.later hw).define hbound,
      (List.forall_mem_append.mp hsites).1⟩
  | head =>
    obtain ⟨Γ, halign, hsites⟩ := htask
    exact ⟨w, hm, hsound, hglobal, Γ, halign, (List.forall_mem_append.mp hsites).1⟩
  | tail hhead =>
    subst hm
    obtain ⟨Γ, halign, hsites⟩ := htask
    obtain ⟨hfirst, hrest⟩ := List.forall_mem_append.mp hsites
    obtain ⟨w₁, hm₁, hw, hsound₁, -, hafter⟩ := hexecute hsound halign hfirst hhead
    exact ⟨w₁, hm₁, hsound₁, hlater hw, _, hafter rfl, hrest⟩
  | whileCondition =>
    obtain ⟨Γ, halign, hcondition, -⟩ := htask
    exact ⟨w, hm, hsound, hglobal, Γ, none, halign, hcondition⟩
  | round hcondition htrue =>
    subst hm
    obtain ⟨Γ, halign, hfirst, hbody⟩ := htask
    obtain ⟨w₁, hm₁, hw, hsound₁, -⟩ := hevaluate hsound halign hfirst hcondition
    exact ⟨w₁, hm₁, hsound₁, hlater hw, Γ, halign.later hw, hbody⟩
  | again hcondition htrue hround =>
    subst hm
    obtain ⟨Γ, halign, hfirst, hbody⟩ := htask
    obtain ⟨w₁, rfl, hw, hsound₁, -⟩ := hevaluate hsound halign hfirst hcondition
    obtain ⟨w₂, hm₂, hw₂, hsound₂, -⟩ := hexecute hsound₁ (halign.later hw) hbody hround
    have hext := hw.trans hw₂
    exact ⟨w₂, hm₂, hsound₂, hlater hext, Γ, halign.later hext, hfirst, hbody⟩

end Activity

/-! ## Programs -/

/-- **Whatever is under way stands somewhere**, if the program was accepted. -/
lemma Underway.stands {S : Site → Prop} {w : Watch} {fuel : Nat} {program : List Stmt}
    {links : List Link} {a : Activity} (hsound : Sound S w)
    (hglobal : globalFrame < w.machine.store.frames.size) (hscope : w.machine.scope = globalScope)
    (hsites : ∀ s ∈ programSites program, S s) (h : Underway fuel program w.machine links a) :
    a.Stands S := by
  refine Underway.induct (P := fun _ a => a.Stands S) ?_ (fun _ ha hstart => hstart.stands ha) h
  intro before s rest m₁ heq hbefore
  rw [heq, programSites_append, List.forall_mem_append] at hsites
  obtain ⟨hearlier, hlater⟩ := hsites
  rw [programSites_cons, List.forall_mem_append] at hlater
  obtain ⟨w₁, rfl, hw, hsound₁, -⟩ := (meets_runProgram fuel before hsound hscope hearlier).of_run
    (Watched.erases_runProgram fuel before) hbefore
  refine ⟨w₁, rfl, hsound₁, Nat.lt_of_lt_of_le hglobal hw.size, [], ?_, hlater.1⟩
  rw [hw.scope, hscope]
  exact .globals

end LoxLang
