import LoxLang.Proofs.Machine.Changes
import LoxLang.Proofs.Machine.Watched
import LoxLang.Proofs.Scope.Placement

/-!
# Scopes of a run and scopes of the text

The chain of frames of a running machine and the scopes around a place in the text are built by
different code.  They are *aligned* when frame after frame was made for the region of the scope at
the same place, in front of the frames that follow it, and binds the names that the scope declares.
The chain ends in the frame of the globals where the text reaches the top level.

Alignment at the current place is not enough to run on: a function that is called later runs in the
scope it was made in.  So every closure that the machine can reach has to carry a scope that is
aligned with the place of its declaration (`Closure.Fits`), and every method with the place of its
class.  Frames are never removed and names never unbound, so what is aligned stays so
(`Aligned.mono`), however the run goes on.
-/

namespace LoxLang

/-! ## Growing -/

/-- What stays as it is from one point of a run to a later one: frames and their names are kept,
notes are added at the end, and scope and distances are the same again. -/
structure Watch.Extends (w w' : Watch) : Prop where
  size : w.machine.store.frames.size ≤ w'.machine.store.frames.size
  bound : ∀ frame name, (w.machine.store.frame frame).contains name = true →
    (w'.machine.store.frame frame).contains name = true
  trace : w.trace <+: w'.trace
  scope : w'.machine.scope = w.machine.scope
  distances : w'.machine.distances = w.machine.distances

namespace Watch.Extends

variable {w w₁ w₂ : Watch}

lemma refl (w : Watch) : w.Extends w := ⟨Nat.le_refl _, fun _ _ h => h, List.prefix_rfl, rfl, rfl⟩

lemma trans (h₁ : w.Extends w₁) (h₂ : w₁.Extends w₂) : w.Extends w₂ where
  size := Nat.le_trans h₁.size h₂.size
  bound frame name h := h₂.bound frame name (h₁.bound frame name h)
  trace := h₁.trace.trans h₂.trace
  scope := h₂.scope.trans h₁.scope
  distances := h₂.distances.trans h₁.distances

end Watch.Extends

/-- The innermost frame of the current scope binds a name. -/
def Watch.Binds (w : Watch) (name : String) : Prop :=
  ∀ frame outer, w.machine.scope = frame :: outer → frame < w.machine.store.frames.size →
    (w.machine.store.frame frame).contains name = true

/-! ## Alignment -/

/-- **The frames of a scope are those of the scopes around a place**, innermost first.  The pending
variable is declared in the innermost scope, but not bound yet. -/
inductive Aligned (w : Watch) : Option String → LexicalContext → Scope → Prop
  | globals : Aligned w none [] globalScope
  | cons {pending σ Γ frame outer} (hframe : frame < w.machine.store.frames.size)
      (hopened : .opened σ.region frame outer ∈ w.trace)
      (hnames : ∀ x ∈ σ.names, pending ≠ some x →
        (w.machine.store.frame frame).contains x = true)
      (h : Aligned w none Γ outer) : Aligned w pending (σ :: Γ) (frame :: outer)

namespace Aligned

variable {w w' : Watch} {pending : Option String} {Γ : LexicalContext} {scope : Scope}

/-- Only frames, names and notes matter, and these are kept. -/
lemma weaken (h : Aligned w pending Γ scope)
    (hsize : w.machine.store.frames.size ≤ w'.machine.store.frames.size)
    (hbound : ∀ frame name, (w.machine.store.frame frame).contains name = true →
      (w'.machine.store.frame frame).contains name = true)
    (htrace : ∀ o ∈ w.trace, o ∈ w'.trace) : Aligned w' pending Γ scope := by
  induction h with
  | globals => exact .globals
  | cons hframe hopened hnames _ ih =>
    refine .cons (Nat.lt_of_lt_of_le hframe hsize) (htrace _ hopened) (fun x hx hpending => ?_) ih
    exact hbound _ x (hnames x hx hpending)

lemma mono (h : Aligned w pending Γ scope) (hw : w.Extends w') : Aligned w' pending Γ scope :=
  h.weaken hw.size hw.bound fun _ ho => hw.trace.subset ho

lemma congr (h : Aligned w pending Γ scope) (hstore : w'.machine.store = w.machine.store)
    (htrace : w'.trace = w.trace) : Aligned w' pending Γ scope := by
  apply h.weaken
  · exact Nat.le_of_eq (by rw [hstore])
  · rw [hstore]
    exact fun _ _ hname => hname
  · rw [htrace]
    exact fun _ ho => ho

/-- The frame at a distance was made for the scope at that distance, in front of the rest of the
chain. -/
lemma exists_frame (h : Aligned w pending Γ scope) {d : Nat} {σ : LexicalScope}
    (hσ : Γ[d]? = some σ) : ∃ frame, scope[d]? = some frame ∧
      .opened σ.region frame (scope.drop (d + 1)) ∈ w.trace ∧
      ∀ x ∈ σ.names, (d = 0 → pending ≠ some x) →
        (w.machine.store.frame frame).contains x = true := by
  induction h generalizing d with
  | globals => simp at hσ
  | @cons pending τ Γ frame outer _ hopened hnames _ ih =>
    cases d with
    | zero =>
      simp only [List.getElem?_cons_zero, Option.some.injEq] at hσ
      subst hσ
      exact ⟨frame, rfl, hopened, fun x hx hpending => hnames x hx (hpending rfl)⟩
    | succ d =>
      rw [List.getElem?_cons_succ] at hσ
      obtain ⟨frame', hframe', hopened', hnames'⟩ := ih hσ
      exact ⟨frame', hframe', hopened', fun x hx _ => hnames' x hx (by simp)⟩

/-- What is aligned with nothing pending is aligned with anything pending that is only declared. -/
lemma declare (h : Aligned w none Γ scope) (name : Token) :
    Aligned w (Γ.pending name) (Γ.declare name) scope := by
  cases h with
  | globals => exact .globals
  | cons hframe hopened hnames h =>
    refine .cons hframe hopened (fun x hx hpending => ?_) h
    rcases List.mem_cons.mp hx with rfl | hx
    · exact absurd rfl hpending
    · exact hnames x hx (by simp)

/-- A declared name that is bound is pending no longer. -/
lemma define (h : Aligned w none Γ w.machine.scope) {name : Token} (hbound : w.Binds name.lexeme) :
    Aligned w none (Γ.declare name) w.machine.scope := by
  generalize hscope : w.machine.scope = scope at h
  cases h with
  | globals => exact .globals
  | cons hframe hopened hnames h =>
    refine .cons hframe hopened (fun x hx _ => ?_) h
    rcases List.mem_cons.mp hx with rfl | hx
    · exact hbound _ _ hscope hframe
    · exact hnames x hx (by simp)

end Aligned

/-! ## What a site denotes -/

namespace Site

variable {s : Site} {d : Nat}

/-- The visible declaration is in a scope around the site, not in that of a variable whose
initializer the site reads it in. -/
lemma exists_scope (h : s.visible? = some d) :
    ∃ σ, s.scopes[d]? = some σ ∧ s.name ∈ σ.names ∧ (s.isOwnRead = true → d ≠ 0) := by
  have hfound : ∀ {Γ : LexicalContext} {k : Nat}, Γ.findIdx? (·.declares s.name) = some k →
      ∃ σ, Γ[k]? = some σ ∧ s.name ∈ σ.names := by
    intro Γ k hk
    obtain ⟨hlt, hdeclares, -⟩ := List.findIdx?_eq_some_iff_getElem.mp hk
    exact ⟨Γ[k], List.getElem?_eq_getElem hlt, by simpa [LexicalScope.declares] using hdeclares⟩
  unfold visible? at h
  by_cases hown : s.isOwnRead = true
  · rw [if_pos hown, Option.map_eq_some_iff] at h
    obtain ⟨k, hk, rfl⟩ := h
    obtain ⟨σ, hσ, hname⟩ := hfound hk
    exact ⟨σ, by rwa [List.getElem?_tail] at hσ, hname, by simp⟩
  · rw [if_neg hown] at h
    obtain ⟨σ, hσ, hname⟩ := hfound h
    exact ⟨σ, hσ, hname, fun hread => absurd hread hown⟩

/-- Of all sites only an assignment can mean a variable that is pending. -/
lemma Placed.ne_pending (hs : s.Placed) (hvisible : s.visible? = some d)
    (hown : s.isOwnAssignment = false) : d = 0 → s.pending ≠ some s.name := by
  intro hd hpending
  obtain ⟨-, -, -, hread⟩ := exists_scope hvisible
  have hkeyword : ∀ k : Keyword, s.name ≠ k.spelling := by
    intro k hk
    have hword := hs.pending _ hpending
    rw [hk, Keyword.ofWord?_spelling] at hword
    cases hword
  cases huse : s.reference.use with
  | read => exact hread (by simp [isOwnRead, huse, hpending]) hd
  | assign => simp [isOwnAssignment, huse, hpending] at hown
  | this => exact hkeyword .this_ (hs.this huse)
  | super => exact hkeyword .super_ (hs.super huse)

end Site

/-- **Where the machine finds what a site denotes**: the frame that was made for the scope of the
visible declaration.  The name is bound there, unless the site assigns to a pending variable. -/
lemma Aligned.exists_visible {w : Watch} {scope : Scope} {s : Site} {d : Nat}
    (h : Aligned w s.pending s.scopes scope) (hs : s.Placed) (hvisible : s.visible? = some d) :
    ∃ σ frame, s.scopes[d]? = some σ ∧ s.name ∈ σ.names ∧ scope[d]? = some frame ∧
      .opened σ.region frame (scope.drop (d + 1)) ∈ w.trace ∧
      (s.isOwnAssignment = false → (w.machine.store.frame frame).contains s.name = true) := by
  obtain ⟨σ, hσ, hname, -⟩ := Site.exists_scope hvisible
  obtain ⟨frame, hframe, hopened, hnames⟩ := h.exists_frame hσ
  refine ⟨σ, frame, hσ, hname, hframe, hopened, fun hown => ?_⟩
  exact hnames _ hname (hs.ne_pending hvisible hown)

/-! ## What the machine can reach

`S` holds the sites of all programs that were accepted so far. -/

section Fits

variable (S : Site → Prop) (w : Watch)

/-- A closure runs in a scope that is aligned with the place of its declaration.  An initializer is
bound to an instance. -/
def Closure.Fits (c : Closure) : Prop :=
  ∃ Γ, Aligned w none Γ c.scope ∧ (∀ s ∈ c.decl.sites Γ, S s) ∧
    (c.isInitializer = true → ∃ σ outer, Γ = σ :: outer ∧ "this" ∈ σ.names)

/-- A method will run in the scope of its class, with the scope of an instance inside it. -/
def Method.Fits : Method → Prop
  | .declared c =>
    ∃ Γ, Aligned w none Γ c.scope ∧ ∀ s ∈ c.decl.sites (c.decl.receiverScope :: Γ), S s
  | .builtin _ => True

/-- All methods of a class fit, inherited ones included. -/
def Class.Fits (c : Class) : Prop := ∀ name method, c.lookup? name = some method → method.Fits S w

/-- A callable fits. -/
def Callable.Fits : Callable → Prop
  | .function _ closure => closure.Fits S w
  | .cls c => c.Fits S w
  | .builtin .. => True

/-- A value fits, if it is not callable or its callable does. -/
def Value.Fits : Value → Prop
  | .callable c => c.Fits S w
  | _ => True

/-- All that an instance holds fits. -/
structure Instance.Fits (i : Instance) : Prop where
  cls : i.cls.Fits S w
  fields : ∀ name value, i.fields.find? name = some value → value.Fits S w
  elements : ∀ value ∈ i.elements, value.Fits S w

end Fits

section Mono

variable {S S' : Site → Prop} {w w' : Watch}

/-- How much the machine has grown, as far as `Fits` can tell. -/
lemma Closure.Fits.weaken {c : Closure} (h : c.Fits S w)
    (hw : ∀ Γ scope, Aligned w none Γ scope → Aligned w' none Γ scope) (hS : ∀ s, S s → S' s) :
    c.Fits S' w' := by
  obtain ⟨Γ, halign, hsites, hthis⟩ := h
  exact ⟨Γ, hw _ _ halign, fun s hs => hS s (hsites s hs), hthis⟩

lemma Method.Fits.weaken {m : Method} (h : m.Fits S w)
    (hw : ∀ Γ scope, Aligned w none Γ scope → Aligned w' none Γ scope) (hS : ∀ s, S s → S' s) :
    m.Fits S' w' := by
  cases m with
  | declared c =>
    obtain ⟨Γ, halign, hsites⟩ := h
    exact ⟨Γ, hw _ _ halign, fun s hs => hS s (hsites s hs)⟩
  | builtin b => trivial

lemma Class.Fits.weaken {c : Class} (h : c.Fits S w)
    (hw : ∀ Γ scope, Aligned w none Γ scope → Aligned w' none Γ scope) (hS : ∀ s, S s → S' s) :
    c.Fits S' w' := fun name method hmethod => (h name method hmethod).weaken hw hS

lemma Value.Fits.weaken {v : Value} (h : v.Fits S w)
    (hw : ∀ Γ scope, Aligned w none Γ scope → Aligned w' none Γ scope) (hS : ∀ s, S s → S' s) :
    v.Fits S' w' := by
  rcases v with _ | _ | _ | _ | (_ | ⟨_, closure⟩ | c) | _
  case callable.function => exact Closure.Fits.weaken h hw hS
  case callable.cls => exact Class.Fits.weaken h hw hS
  all_goals trivial

lemma Instance.Fits.weaken {i : Instance} (h : i.Fits S w)
    (hw : ∀ Γ scope, Aligned w none Γ scope → Aligned w' none Γ scope) (hS : ∀ s, S s → S' s) :
    i.Fits S' w' where
  cls := h.cls.weaken hw hS
  fields name value hvalue := (h.fields name value hvalue).weaken hw hS
  elements value hvalue := (h.elements value hvalue).weaken hw hS

lemma Value.Fits.congr {v : Value} (h : v.Fits S w) (hstore : w'.machine.store = w.machine.store)
    (htrace : w'.trace = w.trace) : v.Fits S w' :=
  h.weaken (fun _ _ halign => halign.congr hstore htrace) fun _ hs => hs

lemma Method.Fits.mono {m : Method} (h : m.Fits S w) (hw : w.Extends w') : m.Fits S w' :=
  h.weaken (fun _ _ halign => halign.mono hw) fun _ hs => hs

lemma Class.Fits.mono {c : Class} (h : c.Fits S w) (hw : w.Extends w') : c.Fits S w' :=
  h.weaken (fun _ _ halign => halign.mono hw) fun _ hs => hs

lemma Value.Fits.mono {v : Value} (h : v.Fits S w) (hw : w.Extends w') : v.Fits S w' :=
  h.weaken (fun _ _ halign => halign.mono hw) fun _ hs => hs

lemma Instance.Fits.mono {i : Instance} (h : i.Fits S w) (hw : w.Extends w') : i.Fits S w' :=
  h.weaken (fun _ _ halign => halign.mono hw) fun _ hs => hs

end Mono

/-! ## The invariant of a run -/

/-- The frame that an observation tells was made. -/
def Observation.frame? : Observation → Option FrameId
  | .opened _ frame _ => some frame
  | .followed .. => none

/-- The frames that were made, in order. -/
def openedFrames (trace : List Observation) : List FrameId := trace.filterMap Observation.frame?

/-- A reference was followed as the text says: the reference has a site, the machine had the
distance of the visible declaration, and its scope was aligned with the place of the site. -/
def Agrees (S : Site → Prop) (before : List Observation) (reference : Reference) (m : Machine) :
    Prop :=
  ∃ s, S s ∧ s.reference = reference ∧ m.distances.find? reference.ref = s.visible? ∧
    Aligned ⟨m, before⟩ s.pending s.scopes m.scope

/-- **The invariant of a run.** -/
structure Sound (S : Site → Prop) (w : Watch) : Prop where
  frames : ∀ frame name value, (w.machine.store.frame frame).find? name = some value →
    value.Fits S w
  instances : ∀ (id : InstanceId) i, w.machine.store.instances[id]? = some i → i.Fits S w
  distances : ∀ s, S s → w.machine.distances.find? s.reference.ref = s.visible?
  placed : ∀ s, S s → s.Placed
  opened : ∀ frame ∈ openedFrames w.trace, frame < w.machine.store.frames.size
  apart : (openedFrames w.trace).Nodup
  followed : ∀ before reference m after,
    w.trace = before ++ .followed reference m :: after → Agrees S before reference m

/-- What held whenever a reference was followed still does, with one more note at the end. -/
lemma followed_concat {P : List Observation → Reference → Machine → Prop}
    {trace : List Observation} {o : Observation}
    (h : ∀ before reference m after, trace = before ++ .followed reference m :: after →
      P before reference m)
    (ho : ∀ reference m, o = .followed reference m → P trace reference m) :
    ∀ before reference m after, trace ++ [o] = before ++ .followed reference m :: after →
      P before reference m := by
  intro before reference m after heq
  rcases List.eq_nil_or_concat after with rfl | ⟨after', last, rfl⟩
  · obtain ⟨rfl, hlast⟩ := List.append_inj' heq rfl
    simp only [List.cons.injEq, and_true] at hlast
    exact ho reference m hlast
  · have hsplit : trace ++ [o] = (before ++ .followed reference m :: after') ++ [last] := by
      simpa using heq
    obtain ⟨htrace, -⟩ := List.append_inj' hsplit rfl
    exact h before reference m after' htrace

namespace Sound

variable {S S' : Site → Prop} {w w' : Watch}

/-- The invariant after a quiet step that keeps what has to be kept: whatever is in a frame or an
instance now was there before, or fits. -/
lemma step (h : Sound S w) (hw : w.Extends w') (htrace : w'.trace = w.trace)
    (hframes : ∀ frame name value, (w'.machine.store.frame frame).find? name = some value →
      (w.machine.store.frame frame).find? name = some value ∨ value.Fits S w')
    (hinstances : ∀ (id : InstanceId) i, w'.machine.store.instances[id]? = some i →
      w.machine.store.instances[id]? = some i ∨ i.Fits S w') : Sound S w' where
  frames frame name value hvalue := by
    rcases hframes frame name value hvalue with hold | hnew
    · exact (h.frames frame name value hold).mono hw
    · exact hnew
  instances id i hi := by
    rcases hinstances id i hi with hold | hnew
    · exact (h.instances id i hold).mono hw
    · exact hnew
  distances s hs := by
    rw [hw.distances]
    exact h.distances s hs
  placed := h.placed
  opened frame hframe := by
    rw [htrace] at hframe
    exact Nat.lt_of_lt_of_le (h.opened frame hframe) hw.size
  apart := by
    rw [htrace]
    exact h.apart
  followed := by
    rw [htrace]
    exact h.followed

/-- The invariant once more sites are known and distances were recorded for them. -/
lemma load (h : Sound S w) (hS : ∀ s, S s → S' s) (hplaced : ∀ s, S' s → s.Placed)
    (hdistances : ∀ s, S' s → w'.machine.distances.find? s.reference.ref = s.visible?)
    (hstore : w'.machine.store = w.machine.store) (htrace : w'.trace = w.trace) : Sound S' w' := by
  have hw : ∀ Γ scope, Aligned w none Γ scope → Aligned w' none Γ scope := fun Γ scope halign =>
    halign.congr hstore htrace
  refine ⟨?_, ?_, hdistances, hplaced, ?_, ?_, ?_⟩
  · rw [hstore]
    exact fun frame name value hvalue => (h.frames frame name value hvalue).weaken hw hS
  · rw [hstore]
    exact fun id i hi => (h.instances id i hi).weaken hw hS
  · rw [htrace, hstore]
    exact h.opened
  · rw [htrace]
    exact h.apart
  · rw [htrace]
    intro before reference m after heq
    obtain ⟨s, hs, hagrees⟩ := h.followed before reference m after heq
    exact ⟨s, hS s hs, hagrees⟩

/-- The invariant does not depend on the scope, the depth or the world outside. -/
lemma congr (h : Sound S w) (hstore : w'.machine.store = w.machine.store)
    (hdistances : w'.machine.distances = w.machine.distances) (htrace : w'.trace = w.trace) :
    Sound S w' := by
  refine h.load (fun _ hs => hs) h.placed ?_ hstore htrace
  rw [hdistances]
  exact h.distances

/-- The invariant after a reference was noted. -/
lemma note (h : Sound S w) {reference : Reference}
    (hagrees : Agrees S w.trace reference w.machine) :
    Sound S ⟨w.machine, w.trace ++ [.followed reference w.machine]⟩ := by
  have hw : w.Extends ⟨w.machine, w.trace ++ [.followed reference w.machine]⟩ :=
    ⟨Nat.le_refl _, fun _ _ hname => hname, List.prefix_append _ _, rfl, rfl⟩
  have hopened : openedFrames (w.trace ++ [.followed reference w.machine]) =
      openedFrames w.trace := by
    simp [openedFrames, List.filterMap_append, Observation.frame?]
  refine ⟨fun frame name value hvalue => (h.frames frame name value hvalue).mono hw,
    fun id i hi => (h.instances id i hi).mono hw, h.distances, h.placed, ?_, ?_, ?_⟩
  · rw [hopened]
    exact h.opened
  · rw [hopened]
    exact h.apart
  · refine followed_concat h.followed fun reference' m heq => ?_
    cases heq
    exact hagrees

/-- The invariant after a frame was made and noted. -/
lemma openFrame (h : Sound S w) (region : Region) (outer : Scope) {bindings : Bindings Value}
    (hbindings : ∀ name value, bindings.find? name = some value → value.Fits S w)
    (hmachine : w'.machine =
      { w.machine with store := (w.machine.store.addFrame bindings).2 })
    (htrace : w'.trace = w.trace ++ [.opened region w.machine.store.frames.size outer]) :
    w.Extends w' ∧ Sound S w' := by
  have hframes : w'.machine.store.frames = w.machine.store.frames.push bindings := by
    rw [hmachine]
    rfl
  have hw : w.Extends w' := by
    refine ⟨?_, fun frame name hname => ?_, ?_, by rw [hmachine], by rw [hmachine]⟩
    · rw [hframes, Array.size_push]
      exact Nat.le_succ _
    · rw [hmachine]
      exact Store.contains_addFrame hname
    · rw [htrace]
      exact List.prefix_append _ _
  have hopened : openedFrames w'.trace = openedFrames w.trace ++ [w.machine.store.frames.size] := by
    rw [htrace]
    simp [openedFrames, List.filterMap_append, Observation.frame?]
  refine ⟨hw, ⟨fun frame name value hvalue => ?_, fun id i hi => ?_, ?_, h.placed, ?_, ?_, ?_⟩⟩
  · rw [hmachine] at hvalue
    rcases Store.find?_addFrame hvalue with hnew | hold
    · exact (hbindings name value hnew).mono hw
    · exact (h.frames frame name value hold).mono hw
  · rw [hmachine] at hi
    exact (h.instances id i hi).mono hw
  · rw [hw.distances]
    exact h.distances
  · intro frame hframe
    rw [hopened, List.mem_append, List.mem_singleton] at hframe
    rw [hframes, Array.size_push]
    rcases hframe with hframe | rfl
    · exact Nat.lt_succ_of_lt (h.opened frame hframe)
    · exact Nat.lt_succ_self _
  · rw [hopened, List.nodup_append]
    refine ⟨h.apart, by simp, fun frame hframe frame' hframe' => ?_⟩
    rw [List.mem_singleton] at hframe'
    rw [hframe']
    exact Nat.ne_of_lt (h.opened frame hframe)
  · rw [htrace]
    exact followed_concat h.followed fun _ _ heq => by cases heq

end Sound

end LoxLang
