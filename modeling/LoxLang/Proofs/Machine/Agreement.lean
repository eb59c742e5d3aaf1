import LoxLang.Proofs.Machine.Alignment

/-!
# Runs keep the scopes aligned

Every watched effect, started where the invariant holds and the scope is aligned with the place of
what is run, ends where the invariant holds again, however it ends (`Meets`).  An effect that ends
by itself gives a value that fits; one that ends in a fault has just followed an assignment to a
variable in its own initializer, and nothing else ends so.

The proof follows the run: one lemma for each effect, then one case for each expression and
statement, by induction on the fuel.
-/

namespace LoxLang

/-! ## What an effect has to keep -/

/-- The last thing that happened since a start is that an assignment to a variable in its own
initializer was followed, and the fault is that of this assignment. -/
def EndsInOwnAssignment (S : Site → Prop) (f : Fault) (start trace : List Observation) : Prop :=
  ∃ added s value m, S s ∧ s.isOwnAssignment = true ∧
    trace = start ++ (added ++ [.followed s.reference m]) ∧
    Effect.writeRef s.reference.ref s.reference.token value m = (.fault f, m)

/-- So it is if the start was earlier. -/
lemma EndsInOwnAssignment.earlier {S : Site → Prop} {f : Fault}
    {start start' trace : List Observation} (h : EndsInOwnAssignment S f start' trace)
    (hstart : start <+: start') : EndsInOwnAssignment S f start trace := by
  obtain ⟨first, rfl⟩ := hstart
  obtain ⟨added, s, value, m, hs, hown, htrace, hwrite⟩ := h
  exact ⟨first ++ added, s, value, m, hs, hown, by simpa using htrace, hwrite⟩

/-- **The effect, started at `w`, keeps the invariant**, and gives what `Q` asks for. -/
def Meets {α : Type} (S : Site → Prop) (w : Watch) (x : Watched α) (Q : α → Watch → Prop) : Prop :=
  w.Extends (x w).2 ∧ Sound S (x w).2 ∧
    match (x w).1 with
    | .ok a => Q a (x w).2
    | .fault f => EndsInOwnAssignment S f w.trace (x w).2.trace
    | _ => True

namespace Meets

variable {α β : Type} {S : Site → Prop} {w : Watch}

lemma pure (h : Sound S w) {a : α} {Q : α → Watch → Prop} (hQ : Q a w) :
    Meets S w (pure a) Q := ⟨.refl w, h, hQ⟩

lemma raise (h : Sound S w) (token : Token) (cause : RuntimeCause) {Q : α → Watch → Prop} :
    Meets S w (Watched.quietly (Effect.raise token cause)) Q := ⟨.refl w, h, trivial⟩

lemma exhausted (h : Sound S w) {Q : α → Watch → Prop} :
    Meets S w (Watched.quietly Effect.exhausted) Q := ⟨.refl w, h, trivial⟩

lemma bind {x : Watched α} {f : α → Watched β} {Q : α → Watch → Prop} {R : β → Watch → Prop}
    (hx : Meets S w x Q)
    (hf : ∀ a w', w.Extends w' → Sound S w' → Q a w' → Meets S w' (f a) R) :
    Meets S w (x >>= f) R := by
  obtain ⟨hextends, hsound, hend⟩ := hx
  unfold Meets
  rw [Watched.run_bind]
  rcases hxw : x w with ⟨a | _ | _ | _, w'⟩
  all_goals
    rw [hxw] at hextends hsound hend
  · obtain ⟨hextends', hsound', hend'⟩ := hf a w' hextends hsound hend
    refine ⟨hextends.trans hextends', hsound', ?_⟩
    simp only
    rcases hfw : (f a w').1 with b | _ | _ | _
    all_goals rw [hfw] at hend'
    · exact hend'
    · trivial
    · exact hend'.earlier hextends.trace
    · trivial
  · exact ⟨hextends, hsound, trivial⟩
  · exact ⟨hextends, hsound, hend⟩
  · exact ⟨hextends, hsound, trivial⟩

lemma weaken {x : Watched α} {Q R : α → Watch → Prop} (hx : Meets S w x Q)
    (hQ : ∀ a w', w.Extends w' → Q a w' → R a w') : Meets S w x R := by
  obtain ⟨hextends, hsound, hend⟩ := hx
  refine ⟨hextends, hsound, ?_⟩
  rcases hxw : x w with ⟨a | _ | _ | _, w'⟩
  all_goals
    rw [hxw] at hextends hend
    simp only at hend ⊢
  · exact hQ a w' hextends hend
  · exact hend

/-- Only what the effect does at `w` matters. -/
lemma of_eq {x y : Watched α} {Q : α → Watch → Prop} (hrun : x w = y w) (hy : Meets S w y Q) :
    Meets S w x Q := by
  unfold Meets
  rw [hrun]
  exact hy

lemma ite {c : Prop} [Decidable c] {x y : Watched α} {Q : α → Watch → Prop}
    (hx : c → Meets S w x Q) (hy : ¬c → Meets S w y Q) : Meets S w (if c then x else y) Q := by
  by_cases hc : c
  · rw [if_pos hc]
    exact hx hc
  · rw [if_neg hc]
    exact hy hc

/-- In another scope the same holds, and the old scope is put back. -/
lemma within {x : Watched α} {Q R : α → Watch → Prop} {scope : Scope}
    (hx : Meets S { w with machine := { w.machine with scope := scope } } x Q)
    (hQ : ∀ a w', Q a w' →
      R a { w' with machine := { w'.machine with scope := w.machine.scope } }) :
    Meets S w (Watched.within scope x) R := by
  obtain ⟨hextends, hsound, hend⟩ := hx
  have hrun : Watched.within scope x w =
      ((x { w with machine := { w.machine with scope := scope } }).1,
        { (x { w with machine := { w.machine with scope := scope } }).2 with
          machine := { (x { w with machine := { w.machine with scope := scope } }).2.machine with
            scope := w.machine.scope } }) := rfl
  unfold Meets
  rw [hrun]
  rcases hxw : x { w with machine := { w.machine with scope := scope } } with ⟨a | _ | _ | _, w'⟩
  all_goals
    rw [hxw] at hextends hsound hend
    refine ⟨⟨hextends.size, hextends.bound, hextends.trace, rfl, hextends.distances⟩,
      hsound.congr rfl rfl rfl, ?_⟩
  · exact hQ a w' hend
  · trivial
  · exact hend
  · trivial

lemma deeper {x : Watched α} {Q R : α → Watch → Prop}
    (hx : Meets S { w with machine := { w.machine with depth := w.machine.depth + 1 } } x Q)
    (hQ : ∀ a w', Q a w' →
      R a { w' with machine := { w'.machine with depth := w.machine.depth } }) :
    Meets S w (Watched.deeper x) R := by
  obtain ⟨hextends, hsound, hend⟩ := hx
  have hrun : Watched.deeper x w =
      ((x { w with machine := { w.machine with depth := w.machine.depth + 1 } }).1,
        { (x { w with machine := { w.machine with depth := w.machine.depth + 1 } }).2 with
          machine :=
            { (x { w with machine := { w.machine with depth := w.machine.depth + 1 } }).2.machine
              with depth := w.machine.depth } }) := rfl
  unfold Meets
  rw [hrun]
  rcases hxw : x { w with machine := { w.machine with depth := w.machine.depth + 1 } } with
    ⟨a | _ | _ | _, w'⟩
  all_goals
    rw [hxw] at hextends hsound hend
    refine ⟨⟨hextends.size, hextends.bound, hextends.trace, hextends.scope, hextends.distances⟩,
      hsound.congr rfl rfl rfl, ?_⟩
  · exact hQ a w' hend
  · trivial
  · exact hend
  · trivial

end Meets

/-! ## Effects that leave the store alone -/

/-- The effect changes nothing that scopes depend on, does not end in a fault, and gives what `P`
asks for. -/
def Effect.Calm {α : Type} (x : Effect α) (P : α → Prop) : Prop :=
  ∀ m, (x m).2.store = m.store ∧ (x m).2.scope = m.scope ∧ (x m).2.distances = m.distances ∧
    match (x m).1 with
    | .ok a => P a
    | .fault _ => False
    | _ => True

/-- A value that is not callable. -/
def Value.IsPlain (v : Value) : Prop := ∀ c, v ≠ .callable c

lemma Value.IsPlain.fits {v : Value} (h : v.IsPlain) (S : Site → Prop) (w : Watch) :
    v.Fits S w := by
  cases v with
  | callable c => exact absurd rfl (h c)
  | _ => trivial

namespace Effect.Calm

variable {α β : Type}

lemma pure {a : α} {P : α → Prop} (h : P a) : Calm (Pure.pure a : Effect α) P :=
  fun _ => ⟨rfl, rfl, rfl, h⟩

lemma raise (token : Token) (cause : RuntimeCause) {P : α → Prop} :
    Calm (Effect.raise token cause) P := fun _ => ⟨rfl, rfl, rfl, trivial⟩

lemma text (value : Value) : Calm (Effect.text value) fun _ => True :=
  fun _ => ⟨rfl, rfl, rfl, trivial⟩

lemma write (event : Event) : Calm (Effect.write event) fun _ => True :=
  fun _ => ⟨rfl, rfl, rfl, trivial⟩

lemma readLine : Calm Effect.readLine fun _ => True := fun _ => ⟨rfl, rfl, rfl, trivial⟩

lemma readClock : Calm Effect.readClock fun _ => True := fun _ => ⟨rfl, rfl, rfl, trivial⟩

lemma isAtLimit : Calm Effect.isAtLimit fun _ => True := fun _ => ⟨rfl, rfl, rfl, trivial⟩

lemma bind {x : Effect α} {f : α → Effect β} {P : α → Prop} {Q : β → Prop} (hx : Calm x P)
    (hf : ∀ a, P a → Calm (f a) Q) : Calm (x >>= f) Q := by
  intro m
  obtain ⟨hstore, hscope, hdistances, hend⟩ := hx m
  rw [Effect.run_bind]
  rcases hxm : x m with ⟨a | _ | _ | _, m'⟩
  all_goals rw [hxm] at hstore hscope hdistances hend
  · obtain ⟨hstore', hscope', hdistances', hend'⟩ := hf a hend m'
    exact ⟨hstore'.trans hstore, hscope'.trans hscope, hdistances'.trans hdistances, hend'⟩
  · exact ⟨hstore, hscope, hdistances, trivial⟩
  · exact hend.elim
  · exact ⟨hstore, hscope, hdistances, trivial⟩

end Effect.Calm

section Operators

open Effect (Calm)

lemma calm_applyUnary (operator : Token) (right : Value) :
    Calm (applyUnary operator right) Value.IsPlain := by
  unfold applyUnary
  split
  · split
    · exact .pure (by simp [Value.IsPlain])
    · exact .raise _ _
  · exact .pure (by simp [Value.IsPlain])
  · exact .raise _ _

lemma calm_onNumbers (operator : Token) (left right : Value) {f : Float → Float → Effect Value}
    (hf : ∀ a b, Calm (f a b) Value.IsPlain) :
    Calm (onNumbers operator left right f) Value.IsPlain := by
  unfold onNumbers
  split
  · exact hf _ _
  · exact .raise _ _

lemma calm_applyBinary (operator : Token) (left right : Value) :
    Calm (applyBinary operator left right) Value.IsPlain := by
  have hplain : ∀ {v : Value}, v.IsPlain → Calm (Pure.pure v) Value.IsPlain := fun h => .pure h
  unfold applyBinary
  split
  case h_1 =>
    unfold applyPlus
    split
    · exact hplain (by simp [Value.IsPlain])
    · exact hplain (by simp [Value.IsPlain])
    · exact .raise _ _
  case h_4 =>
    refine calm_onNumbers operator left right fun a b => ?_
    unfold applySlash
    split
    · exact .raise _ _
    · exact hplain (by simp [Value.IsPlain])
  case h_9 | h_10 => exact hplain (by simp [Value.IsPlain])
  case h_11 => exact .raise _ _
  all_goals exact calm_onNumbers operator left right fun a b => hplain (by simp [Value.IsPlain])

lemma calm_readPrompted (paren : Token) (arguments : List Value) :
    Calm (Builtin.readPrompted paren arguments) fun _ => True := by
  unfold Builtin.readPrompted
  simp only
  have hprompt : ∀ value, Calm (Effect.text value) fun _ => True := Calm.text
  have hnone : Calm (Pure.pure "") fun _ => True := .pure trivial
  split
  all_goals
    refine Calm.bind (by first | exact hprompt _ | exact hnone) fun prompt _ => ?_
    refine (Calm.write _).bind fun _ _ => Calm.readLine.bind fun line _ => ?_
    rcases line with _ | (_ | _)
    · exact .raise _ _
    · exact .pure trivial
    · exact .raise _ _

lemma calm_numberOfLine (paren : Token) (line : String) :
    Calm (Builtin.numberOfLine paren line) Value.IsPlain := by
  unfold Builtin.numberOfLine
  simp only
  split
  · exact .pure (by simp [Value.IsPlain])
  · exact .raise _ _

end Operators

/-- An effect that leaves the store alone keeps the invariant. -/
lemma Meets.calm {α : Type} {S : Site → Prop} {w : Watch} (h : Sound S w) {x : Effect α}
    {P : α → Prop} (hx : x.Calm P) {Q : α → Watch → Prop}
    (hQ : ∀ a w', w.Extends w' → P a → Q a w') : Meets S w (Watched.quietly x) Q := by
  obtain ⟨hstore, hscope, hdistances, hend⟩ := hx w.machine
  have hextends : w.Extends { w with machine := (x w.machine).2 } := by
    refine ⟨?_, ?_, List.prefix_rfl, hscope, hdistances⟩
    · simp only [hstore, Nat.le_refl]
    · simp only [hstore]
      exact fun _ _ hname => hname
  refine ⟨hextends, h.congr hstore hdistances rfl, ?_⟩
  have hrun : (Watched.quietly x w).1 = (x w.machine).1 := rfl
  rw [hrun]
  rcases hxm : (x w.machine).1 with a | _ | _ | _
  all_goals rw [hxm] at hend
  · exact hQ a _ hextends hend
  · trivial
  · exact hend.elim
  · trivial

/-! ## Effects on the store -/

section StoreEffects

variable {α : Type} {S : Site → Prop} {w : Watch}

/-- A change of the store keeps the invariant, if whatever it puts there fits afterwards. -/
lemma Meets.onStore (h : Sound S w) {f : Store → α × Store} {Q : α → Watch → Prop}
    (hsize : w.machine.store.frames.size ≤ (f w.machine.store).2.frames.size)
    (hbound : ∀ frame name, (w.machine.store.frame frame).contains name = true →
      ((f w.machine.store).2.frame frame).contains name = true)
    (hframes : ∀ w', w.Extends w' → w'.machine.store = (f w.machine.store).2 →
      ∀ frame name value, (w'.machine.store.frame frame).find? name = some value →
        (w.machine.store.frame frame).find? name = some value ∨ value.Fits S w')
    (hinstances : ∀ (id : InstanceId) i, (f w.machine.store).2.instances[id]? = some i →
      w.machine.store.instances[id]? = some i ∨ i.Fits S w)
    (hQ : ∀ w', w.Extends w' → w'.machine.store = (f w.machine.store).2 →
      Q (f w.machine.store).1 w') : Meets S w (Watched.quietly (Effect.onStore f)) Q := by
  have hextends : w.Extends
      { w with machine := { w.machine with store := (f w.machine.store).2 } } :=
    ⟨hsize, hbound, List.prefix_rfl, rfl, rfl⟩
  refine ⟨hextends, h.step hextends rfl (hframes _ hextends rfl) ?_, hQ _ hextends rfl⟩
  intro id i hi
  exact (hinstances id i hi).imp_right fun hfits => hfits.mono hextends

/-- A change of instances leaves the frames alone. -/
lemma Meets.onInstances (h : Sound S w) {f : Store → α × Store} {Q : α → Watch → Prop}
    (hframes : (f w.machine.store).2.frames = w.machine.store.frames)
    (hinstances : ∀ (id : InstanceId) i, (f w.machine.store).2.instances[id]? = some i →
      w.machine.store.instances[id]? = some i ∨ i.Fits S w)
    (hQ : ∀ w', w.Extends w' → Q (f w.machine.store).1 w') :
    Meets S w (Watched.quietly (Effect.onStore f)) Q := by
  have hframe : ∀ frame, (f w.machine.store).2.frame frame = w.machine.store.frame frame := by
    intro frame
    rw [Store.frame, hframes, Store.frame]
  refine .onStore h (Nat.le_of_eq (by rw [hframes])) ?_ ?_ hinstances fun w' hw' _ => hQ w' hw'
  · intro frame name hname
    rwa [hframe]
  · intro w' _ hstore frame name value hvalue
    rw [hstore, hframe] at hvalue
    exact .inl hvalue

/-- Binding a value in a frame. -/
lemma Meets.bindIn (h : Sound S w) {id : FrameId} {name : String} {value : Value}
    {Q : Unit → Watch → Prop}
    (hvalue : ∀ w', w.Extends w' → w'.machine.store = w.machine.store.bindIn id name value →
      value.Fits S w')
    (hQ : ∀ w', w.Extends w' → w'.machine.store = w.machine.store.bindIn id name value → Q () w') :
    Meets S w (Watched.quietly (Effect.onStore fun s => ((), s.bindIn id name value))) Q := by
  refine .onStore h ?_ (fun _ _ hname => Store.contains_bindIn hname) ?_ (fun _ _ hi => .inl hi) hQ
  · simp [Store.bindIn]
  · intro w' hw' hstore frame other found hfound
    rw [hstore] at hfound
    rcases Store.find?_bindIn hfound with rfl | hold
    · exact .inr (hvalue w' hw' hstore)
    · exact .inl hold

lemma Meets.freshStamp (h : Sound S w) :
    Meets S w (Watched.quietly Effect.freshStamp) fun _ _ => True :=
  .onInstances h rfl (fun _ _ hi => .inl hi) fun _ _ => trivial

lemma Meets.scope (h : Sound S w) :
    Meets S w (Watched.quietly Effect.scope) fun scope w' => scope = w.machine.scope ∧ w' = w :=
  ⟨.refl w, h, rfl, rfl⟩

/-- Binding a name in the innermost frame.  The value may rely on the name being bound. -/
lemma Meets.define (h : Sound S w) {name : String} {value : Value}
    (hvalue : ∀ w', w.Extends w' → w'.Binds name → value.Fits S w') :
    Meets S w (Watched.quietly (Effect.define name value)) fun _ w' => w'.Binds name := by
  have hrun : Watched.quietly (Effect.define name value) w =
      Watched.quietly (Effect.onStore fun s => ((), s.define w.machine.scope name value)) w := rfl
  refine .of_eq hrun ?_
  rcases hscope : w.machine.scope with _ | ⟨id, outer⟩
  · refine .onInstances h rfl (fun _ _ hi => .inl hi) fun w' hw' frame outer hcons => ?_
    rw [hw'.scope, hscope] at hcons
    cases hcons
  · have hbinds : ∀ w', w.Extends w' → w'.machine.store = w.machine.store.bindIn id name value →
        w'.Binds name := by
      intro w' hw' hstore frame outer' hcons hlt
      rw [hw'.scope, hscope] at hcons
      cases hcons
      rw [hstore] at hlt ⊢
      simp only [Store.bindIn, Array.size_modify] at hlt
      rw [Store.frame_bindIn_self _ hlt]
      exact Bindings.contains_insert_self
    exact .bindIn h (fun w' hw' hstore => hvalue w' hw' (hbinds w' hw' hstore)) hbinds

lemma Meets.defineNil (h : Sound S w) (name : String) :
    Meets S w (Watched.quietly (Effect.define name .nil)) fun _ w' => w'.Binds name :=
  .define h fun _ _ _ => trivial

/-- A change of one instance keeps the invariant, if the instance fits afterwards. -/
lemma Meets.modifyInstance (h : Sound S w) {id : InstanceId} {f : Instance → Instance} {a : α}
    {Q : α → Watch → Prop} (hf : ∀ i, i.Fits S w → (f i).Fits S w)
    (hQ : ∀ w', w.Extends w' → Q a w') :
    Meets S w (Watched.quietly (Effect.onStore fun s =>
      (a, { s with instances := s.instances.modify id f }))) Q := by
  refine .onInstances h rfl (fun other i hi => ?_) hQ
  simp only [Array.getElem?_modify] at hi
  split at hi
  · obtain ⟨old, hold, rfl⟩ := Option.map_eq_some_iff.mp hi
    exact .inr (hf old (h.instances other old hold))
  · exact .inl hi

lemma Meets.setField (h : Sound S w) {id : InstanceId} {name : String} {value : Value}
    (hvalue : value.Fits S w) {Q : Unit → Watch → Prop} (hQ : ∀ w', w.Extends w' → Q () w') :
    Meets S w (Watched.quietly (Effect.setField id name value)) Q := by
  refine .modifyInstance h (fun i hi => ⟨hi.cls, fun other found hfound => ?_, hi.elements⟩) hQ
  rcases Bindings.find?_insert hfound with rfl | hold
  · exact hvalue
  · exact hi.fields other found hold

lemma Meets.addInstance (h : Sound S w) {c : Class} (hc : c.Fits S w) :
    Meets S w (Watched.quietly (Effect.addInstance c)) fun _ _ => True := by
  refine .onInstances h rfl (fun id i hi => ?_) fun _ _ => trivial
  simp only [Store.addInstance, Array.getElem?_push] at hi
  split at hi
  · cases hi
    exact .inr ⟨hc, by simp, by simp⟩
  · exact .inl hi

/-- What a store with the invariant has in a frame fits. -/
lemma Sound.lookup? (h : Sound S w) {name : String} {value : Value} {scope : Scope}
    (hvalue : w.machine.store.lookup? name scope = some value) : value.Fits S w := by
  induction scope with
  | nil => simp [Store.lookup?] at hvalue
  | cons id outer ih =>
    simp only [Store.lookup?] at hvalue
    split at hvalue
    · next hfound =>
      cases hvalue
      exact h.frames id name value hfound
    · exact ih hvalue

/-- A read by distance that finds the name. -/
lemma Meets.readAt (h : Sound S w) {scope : Scope} {d : Nat} {frame : FrameId} {name : String}
    (hframe : scope[d]? = some frame)
    (hname : (w.machine.store.frame frame).contains name = true) :
    Meets S w (Watched.quietly (Effect.readAt scope d name)) fun value w' =>
      value.Fits S w' ∧ w' = w := by
  obtain ⟨value, hvalue⟩ := Bindings.exists_of_contains hname
  have hrun : Watched.quietly (Effect.readAt scope d name) w = (.ok value, w) := by
    simp only [Watched.quietly, Effect.readAt, Store.readAt, hframe, hvalue]
  unfold Meets
  rw [hrun]
  exact ⟨.refl w, h, h.frames frame name value hvalue, rfl⟩

lemma Meets.readGlobal (h : Sound S w) (name : Token) :
    Meets S w (Watched.quietly (Effect.readGlobal name)) fun value w' => value.Fits S w' := by
  cases hvalue : w.machine.store.lookup? name.lexeme globalScope with
  | none =>
    have hrun : Watched.quietly (Effect.readGlobal name) w =
        Watched.quietly (Effect.raise name (.undefinedVariable name.lexeme)) w := by
      simp only [Watched.quietly, Effect.readGlobal, hvalue, Effect.raise]
    exact .of_eq hrun (.raise h _ _)
  | some value =>
    have hrun : Watched.quietly (Effect.readGlobal name) w =
        (Pure.pure value : Watched Value) w := by
      simp only [Watched.quietly, Effect.readGlobal, hvalue]
      rfl
    exact .of_eq hrun (.pure h (h.lookup? hvalue))

end StoreEffects

/-! ## Frames that are noted -/

section Frames

variable {S : Site → Prop} {w : Watch}

/-- A new frame, with all that is known about it. -/
lemma Meets.openFrame (h : Sound S w) (region : Region) (outer : Scope) {bindings : Bindings Value}
    (hbindings : ∀ name value, bindings.find? name = some value → value.Fits S w) :
    Meets S w (Watched.openFrame region outer bindings) fun frame w' =>
      frame < w'.machine.store.frames.size ∧ .opened region frame outer ∈ w'.trace ∧
        w'.machine.store.frame frame = bindings := by
  have hrun : Watched.openFrame region outer bindings w = (.ok w.machine.store.frames.size,
      ⟨{ w.machine with store := (w.machine.store.addFrame bindings).2 },
        w.trace ++ [.opened region w.machine.store.frames.size outer]⟩) := rfl
  obtain ⟨hextends, hsound⟩ : w.Extends (Watched.openFrame region outer bindings w).2 ∧
      Sound S (Watched.openFrame region outer bindings w).2 :=
    h.openFrame region outer hbindings (by rw [hrun]) (by rw [hrun])
  refine ⟨hextends, hsound, ?_, ?_, Store.frame_addFrame_self _ _⟩
  · exact Nat.lt_of_lt_of_eq (Nat.lt_succ_self _) (Array.size_push _).symm
  · exact List.mem_append_right _ (List.mem_singleton_self _)

/-- A method that fits gives a function that fits. -/
lemma Meets.bindMethod (h : Sound S w) {method : Method} (hmethod : method.Fits S w)
    (id : InstanceId) : Meets S w (Watched.bindMethod method id) fun c w' =>
      c.Fits S w' ∧ c.arity = method.arity := by
  cases method with
  | builtin b =>
    have hrun : Watched.bindMethod (.builtin b) id w = (Watched.quietly Effect.freshStamp >>=
        fun stamp => Pure.pure (Callable.builtin stamp b (some id))) w := by
      simp only [Watched.bindMethod, Watched.noting, Watched.receiverNotes, List.append_nil]
      rfl
    refine .of_eq hrun ((Meets.freshStamp h).bind fun stamp w' _ hw' _ => .pure hw' ?_)
    exact ⟨trivial, rfl⟩
  | declared closure =>
    have hrun : Watched.bindMethod (.declared closure) id w = (do
        let stamp ← Watched.quietly Effect.freshStamp
        let frame ← Watched.openFrame (.receiver closure.decl) closure.scope
          (Bindings.empty.insert "this" (.object id))
        Pure.pure (Callable.function stamp { closure with scope := frame :: closure.scope })) w :=
      rfl
    obtain ⟨Γ, halign, hsites⟩ := hmethod
    refine .of_eq hrun ((Meets.freshStamp h).bind fun stamp w₁ hw₁ hsound₁ _ => ?_)
    refine (Meets.openFrame hsound₁ _ _ fun name value hvalue => ?_).bind
      fun frame w₂ hw₂ hsound₂ hnew => .pure hsound₂ ⟨?_, rfl⟩
    · rcases Bindings.find?_insert hvalue with rfl | hvalue
      · trivial
      · simp at hvalue
    · obtain ⟨hframe, hopened, hbindings⟩ := hnew
      refine ⟨closure.decl.receiverScope :: Γ, ?_, hsites, fun _ => ⟨_, _, rfl, by
        simp [FunDecl.receiverScope]⟩⟩
      refine .cons hframe hopened (fun x hx _ => ?_) (halign.mono (hw₁.trans hw₂))
      simp only [FunDecl.receiverScope, List.mem_singleton] at hx
      rw [hx, hbindings]
      exact Bindings.contains_insert_self

end Frames

/-! ## References -/

section References

variable {α : Type} {S : Site → Prop} {w : Watch} {site : Site}

/-- A reference that is followed where the scope is aligned with its site agrees with the text. -/
lemma Sound.note_site (h : Sound S w) (hsite : S site)
    (halign : Aligned w site.pending site.scopes w.machine.scope) :
    w.Extends ⟨w.machine, w.trace ++ [.followed site.reference w.machine]⟩ ∧
      Sound S ⟨w.machine, w.trace ++ [.followed site.reference w.machine]⟩ := by
  have hagrees : Agrees S w.trace site.reference w.machine :=
    ⟨site, hsite, rfl, h.distances site hsite, halign⟩
  exact ⟨⟨Nat.le_refl _, fun _ _ hname => hname, List.prefix_append _ _, rfl, rfl⟩, h.note hagrees⟩

/-- What comes after a reference that is followed may rely on the distance. -/
lemma Meets.followed (h : Sound S w) (hsite : S site)
    (halign : Aligned w site.pending site.scopes w.machine.scope) {x : Effect α}
    {Q : α → Watch → Prop}
    (hx : ∀ w', w.Extends w' → Sound S w' → w'.machine = w.machine →
      Meets S w' (Watched.quietly x) Q) :
    Meets S w (Watched.noting (fun m => [.followed site.reference m]) x) Q := by
  obtain ⟨hextends, hsound⟩ := h.note_site hsite halign
  have hnoted : Meets S w (Watched.noting (fun m => [.followed site.reference m])
      (Pure.pure () : Effect Unit)) fun _ w' => w'.machine = w.machine :=
    ⟨hextends, hsound, rfl⟩
  exact hnoted.bind fun _ w' => hx w'

lemma Meets.readRef (h : Sound S w) (hsite : S site)
    (halign : Aligned w site.pending site.scopes w.machine.scope)
    (huse : site.reference.use ≠ .assign) :
    Meets S w (Watched.readRef site.reference.use site.reference.ref site.reference.token)
      fun value w' => value.Fits S w' := by
  have hown : site.isOwnAssignment = false := by simp [Site.isOwnAssignment, huse]
  refine Meets.followed h hsite halign fun w' hw' hsound hmachine => ?_
  have hdistance := hsound.distances site hsite
  cases hvisible : site.visible? with
  | none =>
    rw [hvisible] at hdistance
    have hrun : Watched.quietly (Effect.readRef site.reference.ref site.reference.token) w' =
        Watched.quietly (Effect.readGlobal site.reference.token) w' := by
      simp only [Watched.quietly, Effect.readRef, hdistance]
    exact .of_eq hrun (.readGlobal hsound _)
  | some d =>
    rw [hvisible] at hdistance
    have hrun : Watched.quietly (Effect.readRef site.reference.ref site.reference.token) w' =
        Watched.quietly (Effect.readAt w'.machine.scope d site.name) w' := by
      simp only [Watched.quietly, Effect.readRef, hdistance, Site.name]
    obtain ⟨σ, frame, -, -, hframe, -, hbound⟩ :=
      (halign.mono hw').exists_visible (hsound.placed site hsite) hvisible
    rw [← hmachine] at hframe
    exact .of_eq hrun
      ((Meets.readAt hsound hframe (hbound hown)).weaken fun _ _ _ hvalue => hvalue.1)

/-- An assignment ends in a fault only where the variable is pending. -/
lemma Meets.writeRef (h : Sound S w) (hsite : S site)
    (halign : Aligned w site.pending site.scopes w.machine.scope)
    (huse : site.reference.use = .assign) {value : Value} (hvalue : value.Fits S w) :
    Meets S w (Watched.writeRef site.reference.ref site.reference.token value) fun _ _ => True := by
  have hnote : Watched.writeRef site.reference.ref site.reference.token value =
      Watched.noting (fun m => [.followed site.reference m])
        (Effect.writeRef site.reference.ref site.reference.token value) := by
    rw [Watched.writeRef, ← huse]
  rw [hnote]
  have hdistance := h.distances site hsite
  have hbindIn : ∀ w', w.Extends w' → Sound S w' → ∀ id,
      Meets S w' (Watched.quietly (Effect.onStore fun s => ((), s.bindIn id site.name value)))
        fun _ _ => True := fun w' hw' hsound id =>
    .bindIn hsound (fun w'' hw'' _ => hvalue.mono (hw'.trans hw'')) fun _ _ _ => trivial
  cases hvisible : site.visible? with
  | none =>
    rw [hvisible] at hdistance
    refine Meets.followed h hsite halign fun w' hw' hsound hmachine => ?_
    rw [← hmachine] at hdistance
    cases hfound : w'.machine.store.frameOf? site.name globalScope with
    | none =>
      have hrun :
          Watched.quietly (Effect.writeRef site.reference.ref site.reference.token value) w' =
          Watched.quietly
            (Effect.raise site.reference.token (.undefinedVariable site.name)) w' := by
        simp only [Site.name] at hfound
        simp only [Watched.quietly, Effect.writeRef, hdistance, Effect.writeGlobal, hfound,
          Effect.raise, Site.name]
      exact .of_eq hrun (.raise hsound _ _)
    | some id =>
      have hrun :
          Watched.quietly (Effect.writeRef site.reference.ref site.reference.token value) w' =
          Watched.quietly (Effect.onStore fun s => ((), s.bindIn id site.name value)) w' := by
        simp only [Site.name] at hfound
        simp only [Watched.quietly, Effect.writeRef, hdistance, Effect.writeGlobal, hfound,
          Site.name]
      exact .of_eq hrun (hbindIn w' hw' hsound id)
  | some d =>
    rw [hvisible] at hdistance
    obtain ⟨σ, frame, -, -, hframe, -, hbound⟩ :=
      halign.exists_visible (h.placed site hsite) hvisible
    by_cases hname : (w.machine.store.frame frame).contains site.name = true
    · refine Meets.followed h hsite halign fun w' hw' hsound hmachine => ?_
      rw [← hmachine] at hdistance hframe hname
      have hrun :
          Watched.quietly (Effect.writeRef site.reference.ref site.reference.token value) w' =
          Watched.quietly (Effect.onStore fun s => ((), s.bindIn frame site.name value)) w' := by
        simp only [Site.name] at hname
        simp only [Watched.quietly, Effect.writeRef, hdistance, Effect.writeAt, Store.frameAt,
          hframe, hname, if_true, Site.name]
      exact .of_eq hrun (hbindIn w' hw' hsound frame)
    · have hown : site.isOwnAssignment = true := by
        by_contra hnot
        exact hname (hbound (by simpa using hnot))
      have hfault : Effect.writeRef site.reference.ref site.reference.token value w.machine =
          (.fault (.missingLocal site.name d), w.machine) := by
        simp only [Site.name, Bool.not_eq_true] at hname
        simp only [Effect.writeRef, hdistance, Effect.writeAt, Store.frameAt, hframe, hname,
          Site.name, Bool.false_eq_true, if_false]
      have hrun : Watched.noting (fun m => [.followed site.reference m])
          (Effect.writeRef site.reference.ref site.reference.token value) w =
          (.fault (.missingLocal site.name d),
            ⟨w.machine, w.trace ++ [.followed site.reference w.machine]⟩) := by
        simp only [Watched.noting, hfault]
      obtain ⟨hextends, hsound⟩ := h.note_site hsite halign
      unfold Meets
      rw [hrun]
      exact ⟨hextends, hsound, [], site, value, w.machine, hsite, hown, rfl, hfault⟩

end References

/-! ## Properties, classes and calls of builtins -/

section Classes

variable {S : Site → Prop} {w : Watch}

lemma Meets.property (h : Sound S w) (id : InstanceId) (name : Token) :
    Meets S w (Watched.property id name) fun value w' => value.Fits S w' := by
  cases hfield : (w.machine.store.fields id).find? name.lexeme with
  | some value =>
    have hrun : Watched.property id name w = (Pure.pure value : Watched Value) w := by
      simp only [Watched.property, hfield]
      rfl
    refine .of_eq hrun (.pure h ?_)
    cases hi : w.machine.store.instances[id]? with
    | none => simp [Store.fields, hi] at hfield
    | some i =>
      simp only [Store.fields, hi, Option.map_some, Option.getD_some] at hfield
      exact (h.instances id i hi).fields _ _ hfield
  | none =>
    cases hmethod : (w.machine.store.instances[id]?).bind fun i => i.cls.lookup? name.lexeme with
    | none =>
      have hrun : Watched.property id name w =
          (Watched.quietly (Effect.raise name (.undefinedProperty name.lexeme))) w := by
        simp only [Watched.property, hfield, hmethod]
        rfl
      exact .of_eq hrun (.raise h _ _)
    | some method =>
      have hrun : Watched.property id name w =
          (Watched.bindMethod method id >>= fun c => Pure.pure (Value.callable c)) w := by
        simp only [Watched.property, hfield, hmethod]
      obtain ⟨i, hi, hlookup⟩ := Option.bind_eq_some_iff.mp hmethod
      have hfits := (h.instances id i hi).cls _ _ hlookup
      exact .of_eq hrun ((Meets.bindMethod h hfits id).bind fun c w' _ hw' hc => .pure hw' hc.1)

/-- The scope before a visible `super` is that of an instance, so both reads succeed. -/
lemma Meets.superMethod (h : Sound S w) {ref : RefId} {keyword method : Token}
    {Γ : LexicalContext} {pending : Option String} (hsite : S ⟨⟨.super, ref, keyword⟩, Γ, pending⟩)
    (halign : Aligned w pending Γ w.machine.scope) :
    Meets S w (Watched.superMethod ref keyword method) fun value w' => value.Fits S w' := by
  have hplaced := h.placed _ hsite
  have hname : keyword.lexeme = "super" := hplaced.super rfl
  have hnote : Meets S w
      (Watched.noting (fun m => [.followed ⟨.super, ref, keyword⟩ m]) (Effect.distance? ref))
      fun distance w' => distance = Site.visible? ⟨⟨.super, ref, keyword⟩, Γ, pending⟩ := by
    refine Meets.followed h hsite halign fun w' _ hsound hmachine => ⟨.refl w', hsound, ?_⟩
    exact hsound.distances _ hsite
  refine hnote.bind fun distance w₁ hw₁ hsound₁ hdistance => ?_
  cases distance with
  | none => exact .raise hsound₁ _ _
  | some d =>
    have halign₁ := halign.mono hw₁
    obtain ⟨σ, frame, -, -, hframe, -, hbound⟩ :=
      halign₁.exists_visible hplaced hdistance.symm
    have hsuper : (w₁.machine.store.frame frame).contains "super" = true := by
      rw [← hname]
      exact hbound (by simp [Site.isOwnAssignment])
    have hfound : Γ.findIdx? (·.declares "super") = some d := by
      simpa [Site.visible?, Site.isOwnRead, Site.name, hname] using hdistance.symm
    obtain ⟨j, τ, rfl, hτ, hthis⟩ := hplaced.paired.exists_this hfound
    obtain ⟨frame', hframe', -, hbound'⟩ := halign₁.exists_frame hτ
    have hinstance : (w₁.machine.store.frame frame').contains "this" = true := by
      refine hbound' _ hthis fun _ hpending => ?_
      have hword := hplaced.pending _ hpending
      rw [show ("this" : String) = Keyword.this_.spelling from rfl,
        Keyword.ofWord?_spelling] at hword
      cases hword
    refine (Meets.scope hsound₁).bind fun current w₂ hw₂ _ hscope => ?_
    obtain ⟨rfl, rfl⟩ := hscope
    rw [← hw₁.scope] at hframe hframe'
    refine (Meets.readAt hsound₁ hframe hsuper).bind fun parent w₃ _ hsound₃ hread => ?_
    obtain ⟨hparent, rfl⟩ := hread
    rcases parent with _ | _ | _ | _ | (_ | _ | parent) | _
    case callable.cls =>
      refine (Meets.readAt hsound₁ hframe' hinstance).bind fun this w₄ _ _ hread => ?_
      obtain ⟨-, rfl⟩ := hread
      cases this with
      | object id =>
        simp only
        cases hmethod : parent.lookup? method.lexeme with
        | none => exact .raise hsound₁ _ _
        | some m =>
          exact (Meets.bindMethod hsound₁ (hparent _ _ hmethod) id).bind
            fun bound w' _ hw' hbound => .pure hw' hbound.1
      | _ => exact .raise hsound₁ _ _
    all_goals exact .raise hsound₁ _ _

lemma Bindings.mem_of_find?_insertAll {α : Type} {b : Bindings α} {entries : List (String × α)}
    {name : String} {value : α} (h : (b.insertAll entries).find? name = some value) :
    (name, value) ∈ entries ∨ b.find? name = some value := by
  induction entries generalizing b with
  | nil => exact .inr h
  | cons entry rest ih =>
    rcases ih h with hrest | hfirst
    · exact .inl (List.mem_cons_of_mem _ hrest)
    · by_cases hname : name = entry.1
      · rw [hname, find?_insert_self, Option.some.injEq] at hfirst
        exact .inl (by simp [hname, ← hfirst])
      · rw [find?_insert_of_ne b hname] at hfirst
        exact .inr hfirst

lemma Bindings.contains_insertAll {α : Type} {b : Bindings α} {entries : List (String × α)}
    {name : String} (h : name ∈ entries.map Prod.fst ∨ b.contains name = true) :
    (b.insertAll entries).contains name = true := by
  induction entries generalizing b with
  | nil => simpa [insertAll] using h
  | cons entry rest ih =>
    refine ih ?_
    rw [List.map_cons, List.mem_cons] at h
    rcases h with (rfl | hrest) | hb
    · exact .inr contains_insert_self
    · exact .inl hrest
    · exact .inr (contains_insert hb)

/-- The methods in a table are those of the class statement. -/
lemma fits_methodTable {scope : Scope} {Γ : LexicalContext} {methods : List FunDecl}
    (halign : Aligned w none Γ scope) (hsites : ∀ s ∈ FunDecl.methodSites Γ methods, S s)
    {name : String} {method : Method}
    (hmethod : (methodTable scope methods).find? name = some method) : method.Fits S w := by
  rcases Bindings.mem_of_find?_insertAll hmethod with hmem | hnone
  · obtain ⟨d, hd, heq⟩ := List.mem_map.mp hmem
    cases heq
    exact ⟨Γ, halign, fun s hs => hsites s (FunDecl.mem_methodSites hd hs)⟩
  · simp at hnone

lemma Class.fits_extend {own : ClassLayer} {superclass : Option Class}
    (hown : ∀ name method, own.methods.find? name = some method → method.Fits S w)
    (hsuperclass : ∀ c, superclass = some c → c.Fits S w) :
    (Class.extend own superclass).Fits S w := by
  intro name method hmethod
  simp only [Class.lookup?, Class.layers, Class.extend, List.findSome?_cons] at hmethod
  split at hmethod
  · next hfound =>
    cases hmethod
    exact hown name method hfound
  · cases superclass with
    | none => simp at hmethod
    | some c => exact hsuperclass c rfl name method hmethod

/-- A class statement binds a class that fits. -/
lemma Meets.defineClass (h : Sound S w) (name : Token) {Γ : LexicalContext}
    (superclass : Option Class) (methods : List FunDecl)
    (halign : Aligned w none Γ w.machine.scope)
    (hsuperclass : ∀ c, superclass = some c → c.Fits S w)
    (hsites : ∀ s ∈ FunDecl.methodSites (match superclass with
      | none => Γ
      | some _ => ⟨.parent name methods, ["super"]⟩ :: Γ) methods, S s) :
    Meets S w (Watched.defineClass name superclass methods) fun _ _ => True := by
  refine (Meets.scope h).bind fun outer w₁ _ _ hscope => ?_
  obtain ⟨rfl, rfl⟩ := hscope
  -- What is left to do once it is known in which scope the methods will be.
  have hrest : ∀ inner Γ' w', w₁.Extends w' → Sound S w' → Aligned w' none Γ' inner →
      (∀ s ∈ FunDecl.methodSites Γ' methods, S s) →
      Meets S w' (Watched.quietly Effect.freshStamp >>= fun stamp =>
        Watched.quietly (Effect.define name.lexeme (.callable (.cls (.extend
          ⟨stamp, name.lexeme, methodTable inner methods⟩ superclass))))) fun _ _ => True := by
    intro inner Γ' w' hw' hsound' halign' hsites'
    refine (Meets.freshStamp hsound').bind fun stamp w₂ hw₂ hsound₂ _ => ?_
    refine (Meets.define hsound₂ fun w₃ hw₃ _ => ?_).weaken fun _ _ _ _ => trivial
    refine Class.fits_extend (fun _ _ hmethod => ?_) fun c hc => ?_
    · exact fits_methodTable (halign'.mono (hw₂.trans hw₃)) hsites' hmethod
    · exact (hsuperclass c hc).mono ((hw'.trans hw₂).trans hw₃)
  cases superclass with
  | none => exact hrest w₁.machine.scope Γ w₁ (.refl w₁) h halign hsites
  | some c =>
    refine Meets.bind (Meets.openFrame h (.parent name methods) w₁.machine.scope
      fun other value hvalue => ?_)
      fun frame w' hw' hsound' hnew => hrest (frame :: w₁.machine.scope)
        (⟨.parent name methods, ["super"]⟩ :: Γ) w' hw' hsound' ?_ hsites
    · rcases Bindings.find?_insert hvalue with rfl | hvalue
      · exact hsuperclass c rfl
      · simp at hvalue
    · obtain ⟨hframe, hopened, hbindings⟩ := hnew
      refine .cons hframe hopened (fun x hx _ => ?_) (halign.mono hw')
      rw [List.mem_singleton] at hx
      rw [hx, hbindings]
      exact Bindings.contains_insert_self

/-- The frame of a call is aligned with the scope of the body. -/
lemma Meets.openCall (h : Sound S w) {closure : Closure} (hclosure : closure.Fits S w)
    {arguments : List Value} (harguments : ∀ v ∈ arguments, v.Fits S w)
    (harity : arguments.length = closure.decl.params.length) :
    Meets S w (Watched.openFrame (.call closure.decl) closure.scope
      (bindParameters closure.decl.params arguments)) fun frame w' =>
      ∃ Γ, Aligned w' none (closure.decl.scope :: Γ) (frame :: closure.scope) ∧
        ∀ s ∈ Stmt.sitesAll (closure.decl.scope :: Γ) closure.decl.body, S s := by
  obtain ⟨Γ, halign, hsites, -⟩ := hclosure
  rw [FunDecl.sites_eq] at hsites
  refine (Meets.openFrame h (.call closure.decl) closure.scope fun name value hvalue => ?_).weaken
    fun frame w₁ hw₁ hnew => ?_
  · rcases Bindings.mem_of_find?_insertAll hvalue with hmem | hnone
    · exact harguments value (List.of_mem_zip hmem).2
    · simp at hnone
  · obtain ⟨hframe, hopened, hbindings⟩ := hnew
    refine ⟨Γ, .cons hframe hopened (fun x hx _ => ?_) (halign.mono hw₁), hsites⟩
    rw [hbindings]
    refine Bindings.contains_insertAll (.inl ?_)
    rw [List.map_fst_zip (by simp [harity])]
    exact hx

/-- What a call gives once the body ended: the instance, for an initializer. -/
lemma Meets.closureResult (h : Sound S w) {closure : Closure} (hclosure : closure.Fits S w)
    {flow : Flow} (hflow : ∀ value, flow = .returned value → value.Fits S w) :
    Meets S w (Watched.quietly (closureResult closure flow)) fun value w' => value.Fits S w' := by
  unfold LoxLang.closureResult
  by_cases hinit : closure.isInitializer = true
  · obtain ⟨Γ, halign, -, hthis⟩ := hclosure
    obtain ⟨σ, outer, rfl, hσ⟩ := hthis hinit
    obtain ⟨frame, hframe, -, hbound⟩ := halign.exists_frame (List.getElem?_cons_zero ..)
    rw [if_pos hinit]
    exact (Meets.readAt h hframe (hbound _ hσ (by simp))).weaken fun _ _ _ hvalue => hvalue.1
  · rw [if_neg hinit]
    cases flow with
    | returned value => exact .pure h (hflow value rfl)
    | normal => exact .pure h trivial
    | broken => exact .pure h trivial

/-- Builtins give plain values, or elements of an array. -/
lemma Meets.callBuiltin (h : Sound S w) (b : Builtin) (receiver : Option InstanceId)
    {arguments : List Value} (harguments : ∀ v ∈ arguments, v.Fits S w) (paren : Token) :
    Meets S w (Watched.quietly (b.call receiver arguments paren)) fun value w' =>
      value.Fits S w' := by
  have hcalm : ∀ {x : Effect Value}, x.Calm Value.IsPlain →
      Meets S w (Watched.quietly x) fun value w' => value.Fits S w' := fun hx =>
    .calm h hx fun value w' _ hplain => hplain.fits S w'
  have hreceiver : ∀ f, (∀ id, Meets S w (Watched.quietly (f id)) fun value w' => value.Fits S w') →
      Meets S w (Watched.quietly (Builtin.onReceiver paren receiver f)) fun value w' =>
        value.Fits S w' := by
    intro f hf
    cases receiver with
    | none => exact .raise h _ _
    | some id => exact hf id
  have helements : ∀ id : InstanceId, ∀ v ∈ w.machine.store.elements id, v.Fits S w := by
    intro id v hv
    cases hi : w.machine.store.instances[id]? with
    | none => simp [Store.elements, hi] at hv
    | some i =>
      simp only [Store.elements, hi, Option.map_some, Option.getD_some] at hv
      exact (h.instances id i hi).elements v hv
  cases b with
  | clock => exact hcalm (Effect.Calm.readClock.bind fun _ _ => .pure (by simp [Value.IsPlain]))
  | inputString =>
    exact hcalm ((calm_readPrompted _ _).bind fun _ _ => .pure (by simp [Value.IsPlain]))
  | inputNumber => exact hcalm ((calm_readPrompted _ _).bind fun _ _ => calm_numberOfLine _ _)
  | arrayLength =>
    refine hreceiver _ fun id => ?_
    exact .onInstances h rfl (fun _ _ hi => .inl hi) fun _ _ => trivial
  | arrayGet =>
    refine hreceiver _ fun id => ?_
    rcases arguments.head? with _ | _ | _ | x | _ | _ | _
    case some.number =>
      cases hvalue : (Builtin.index? x).bind fun n => (w.machine.store.elements id)[n]? with
      | none =>
        have hrun : Watched.quietly (Builtin.elementAt paren id x) w =
            Watched.quietly (Effect.raise paren (.indexOutOfBounds x)) w := by
          simp only [Watched.quietly, Builtin.elementAt, hvalue, Effect.raise]
        exact .of_eq hrun (.raise h _ _)
      | some value =>
        have hrun : Watched.quietly (Builtin.elementAt paren id x) w =
            (Pure.pure value : Watched Value) w := by
          simp only [Watched.quietly, Builtin.elementAt, hvalue]
          rfl
        obtain ⟨n, -, hn⟩ := Option.bind_eq_some_iff.mp hvalue
        exact .of_eq hrun (.pure h (helements id value (Array.mem_of_getElem? hn)))
    all_goals exact .raise h _ _
  | arrayPush =>
    refine hreceiver _ fun id => .modifyInstance h (fun i hi => ⟨hi.cls, hi.fields, ?_⟩)
      fun _ _ => trivial
    intro v hv
    rcases Array.mem_push.mp hv with hv | rfl
    · exact hi.elements v hv
    · cases arguments with
      | nil => trivial
      | cons first rest => exact harguments first (List.mem_cons_self ..)
  | arrayPop =>
    refine hreceiver _ fun id => ?_
    refine .onInstances h rfl (fun other i hi => ?_) fun w' hw' => ?_
    · simp only [Store.updateElements, Array.getElem?_modify] at hi
      split at hi
      · obtain ⟨old, hold, rfl⟩ := Option.map_eq_some_iff.mp hi
        have hfits := h.instances other old hold
        refine .inr ⟨hfits.cls, hfits.fields, fun v hv => hfits.elements v ?_⟩
        rw [← Array.mem_toList_iff, Array.toList_pop] at hv
        exact Array.mem_toList_iff.mp (List.dropLast_subset _ hv)
      · exact .inl hi
    · cases hlast : (w.machine.store.elements id).back? with
      | none => trivial
      | some v => exact (helements id v (Array.mem_of_back? hlast)).mono hw'

end Classes

/-! ## Runs -/

/-- A value that is returned fits. -/
def Flow.Fits (S : Site → Prop) (w : Watch) (flow : Flow) : Prop :=
  ∀ value, flow = .returned value → value.Fits S w

/-- The current scope is still aligned later. -/
lemma Aligned.later {w w' : Watch} {pending : Option String} {Γ : LexicalContext}
    (h : Aligned w pending Γ w.machine.scope) (hw : w.Extends w') :
    Aligned w' pending Γ w'.machine.scope := by
  rw [hw.scope]
  exact h.mono hw

/-- **Runs with a given amount of fuel keep the invariant.** -/
structure KeepsAt (S : Site → Prop) (n : Nat) : Prop where
  evaluate : ∀ {w Γ pending} (e : Expr), Sound S w → Aligned w pending Γ w.machine.scope →
    (∀ s ∈ e.sites Γ pending, S s) →
    Meets S w (Watched.evaluate n e) fun value w' => value.Fits S w'
  evaluateAll : ∀ {w Γ pending} (es : List Expr), Sound S w →
    Aligned w pending Γ w.machine.scope → (∀ s ∈ Expr.sitesAll Γ pending es, S s) →
    Meets S w (Watched.evaluateAll n es) fun values w' => ∀ v ∈ values, v.Fits S w'
  invoke : ∀ {w} (value : Value) (arguments : List Value) (paren : Token), Sound S w →
    value.Fits S w → (∀ v ∈ arguments, v.Fits S w) →
    Meets S w (Watched.invoke n value arguments paren) fun value w' => value.Fits S w'
  call : ∀ {w} (c : Callable) (arguments : List Value) (paren : Token), Sound S w →
    c.Fits S w → (∀ v ∈ arguments, v.Fits S w) → arguments.length = c.arity →
    Meets S w (Watched.call n c arguments paren) fun value w' => value.Fits S w'
  execute : ∀ {w Γ} (s : Stmt), Sound S w → Aligned w none Γ w.machine.scope →
    (∀ site ∈ s.sites Γ, S site) →
    Meets S w (Watched.execute n s) fun flow w' => flow.Fits S w' ∧
      (flow = .normal → Aligned w' none (s.after Γ) w'.machine.scope)
  executeAll : ∀ {w Γ} (body : List Stmt), Sound S w → Aligned w none Γ w.machine.scope →
    (∀ site ∈ Stmt.sitesAll Γ body, S site) →
    Meets S w (Watched.executeAll n body) fun flow w' => flow.Fits S w'
  repeatWhile : ∀ {w Γ} (condition : Expr) (body : Stmt), Sound S w →
    Aligned w none Γ w.machine.scope → (∀ site ∈ condition.sites Γ none, S site) →
    (∀ site ∈ body.sites Γ, S site) →
    Meets S w (Watched.repeatWhile n condition body) fun flow w' => flow.Fits S w'

namespace KeepsAt

variable {S : Site → Prop} {n : Nat} {w : Watch} {Γ : LexicalContext} {pending : Option String}

/-- The same run, once more at a later point. -/
lemma evaluate_later (h : KeepsAt S n) {w' : Watch} (e : Expr)
    (halign : Aligned w pending Γ w.machine.scope) (hw : w.Extends w') (hsound : Sound S w')
    (hsites : ∀ s ∈ e.sites Γ pending, S s) :
    Meets S w' (Watched.evaluate n e) fun value w' => value.Fits S w' :=
  h.evaluate e hsound (halign.later hw) hsites

lemma succ_evaluate (h : KeepsAt S n) (e : Expr) (hsound : Sound S w)
    (halign : Aligned w pending Γ w.machine.scope) (hsites : ∀ s ∈ e.sites Γ pending, S s) :
    Meets S w (Watched.evaluate (n + 1) e) fun value w' => value.Fits S w' := by
  cases e with
  | literal value =>
    refine .pure hsound ?_
    cases value <;> trivial
  | grouping inner => exact h.evaluate inner hsound halign hsites
  | unary operator right =>
    refine (h.evaluate right hsound halign hsites).bind fun value w₁ _ hsound₁ _ => ?_
    exact .calm hsound₁ (calm_applyUnary operator value) fun _ w' _ hplain => hplain.fits S w'
  | binary left operator right =>
    rw [Expr.sites, List.forall_mem_append] at hsites
    refine (h.evaluate left hsound halign hsites.1).bind fun a w₁ hw₁ hsound₁ _ => ?_
    refine (h.evaluate_later right halign hw₁ hsound₁ hsites.2).bind fun b w₂ _ hsound₂ _ => ?_
    exact .calm hsound₂ (calm_applyBinary operator a b) fun _ w' _ hplain => hplain.fits S w'
  | logical left operator right =>
    rw [Expr.sites, List.forall_mem_append] at hsites
    refine (h.evaluate left hsound halign hsites.1).bind fun a w₁ hw₁ hsound₁ ha => ?_
    exact .ite (fun _ => .pure hsound₁ ha)
      fun _ => h.evaluate_later right halign hw₁ hsound₁ hsites.2
  | «variable» ref name =>
    rw [Expr.sites, List.forall_mem_singleton] at hsites
    exact .readRef hsound hsites halign (by simp)
  | this ref keyword =>
    rw [Expr.sites, List.forall_mem_singleton] at hsites
    exact .readRef hsound hsites halign (by simp)
  | assign ref name value =>
    rw [Expr.sites, List.forall_mem_append, List.forall_mem_singleton] at hsites
    refine (h.evaluate value hsound halign hsites.1).bind fun v w₁ hw₁ hsound₁ hv => ?_
    refine (Meets.writeRef hsound₁ hsites.2 (halign.later hw₁) rfl hv).bind
      fun _ w₂ hw₂ hsound₂ _ => ?_
    exact .pure hsound₂ (hv.mono hw₂)
  | call callee paren arguments =>
    rw [Expr.sites, List.forall_mem_append] at hsites
    refine (h.evaluate callee hsound halign hsites.1).bind fun c w₁ hw₁ hsound₁ hc => ?_
    refine (h.evaluateAll arguments hsound₁ (halign.later hw₁) hsites.2).bind
      fun values w₂ hw₂ hsound₂ hvalues => ?_
    exact h.invoke c values paren hsound₂ (hc.mono hw₂) hvalues
  | get object name =>
    refine (h.evaluate object hsound halign hsites).bind fun value w₁ _ hsound₁ _ => ?_
    cases value with
    | object id => exact .property hsound₁ id name
    | _ => exact .raise hsound₁ _ _
  | set object name value =>
    rw [Expr.sites, List.forall_mem_append] at hsites
    refine (h.evaluate object hsound halign hsites.2).bind fun target w₁ hw₁ hsound₁ _ => ?_
    cases target with
    | object id =>
      refine (h.evaluate_later value halign hw₁ hsound₁ hsites.1).bind
        fun v w₂ _ hsound₂ hv => ?_
      refine (Meets.setField hsound₂ hv fun w₃ hw₃ => hv.mono hw₃).bind
        fun _ w₃ _ hsound₃ hv => .pure hsound₃ hv
    | _ => exact .raise hsound₁ _ _
  | super ref keyword method =>
    rw [Expr.sites, List.forall_mem_singleton] at hsites
    exact .superMethod hsound hsites halign

lemma succ_evaluateAll (h : KeepsAt S n) (es : List Expr) (hsound : Sound S w)
    (halign : Aligned w pending Γ w.machine.scope)
    (hsites : ∀ s ∈ Expr.sitesAll Γ pending es, S s) :
    Meets S w (Watched.evaluateAll (n + 1) es) fun values w' => ∀ v ∈ values, v.Fits S w' := by
  cases es with
  | nil => exact .pure hsound (by simp)
  | cons e rest =>
    rw [Expr.sitesAll, List.forall_mem_append] at hsites
    refine (h.evaluate e hsound halign hsites.1).bind fun first w₁ hw₁ hsound₁ hfirst => ?_
    refine (h.evaluateAll rest hsound₁ (halign.later hw₁) hsites.2).bind
      fun others w₂ hw₂ hsound₂ hothers => ?_
    exact .pure hsound₂ (List.forall_mem_cons.mpr ⟨hfirst.mono hw₂, hothers⟩)

lemma succ_invoke (h : KeepsAt S n) (value : Value) (arguments : List Value) (paren : Token)
    (hsound : Sound S w) (hvalue : value.Fits S w) (harguments : ∀ v ∈ arguments, v.Fits S w) :
    Meets S w (Watched.invoke (n + 1) value arguments paren) fun value w' => value.Fits S w' := by
  cases value with
  | callable c =>
    refine .ite (fun _ => .raise hsound _ _) fun harity => ?_
    refine (Meets.calm hsound .isAtLimit fun _ w' hw' _ => hw').bind
      fun full w₁ _ hsound₁ hw₁ => .ite (fun _ => .raise hsound₁ _ _) fun _ => ?_
    -- The invariant does not look at the depth.
    have hdeep :
        w.Extends { w₁ with machine := { w₁.machine with depth := w₁.machine.depth + 1 } } :=
      ⟨hw₁.size, hw₁.bound, hw₁.trace, hw₁.scope, hw₁.distances⟩
    refine .deeper (h.call c arguments paren (hsound₁.congr rfl rfl rfl)
      (Value.Fits.mono hvalue hdeep) (fun v hv => (harguments v hv).mono hdeep)
      (not_not.mp harity)) fun v w' hv => ?_
    exact hv.congr rfl rfl
  | _ => exact .raise hsound _ _

/-- A call of a closure: its body runs in the frame of the call. -/
lemma succ_callClosure (h : KeepsAt S n) {stamp : Stamp} (closure : Closure)
    (arguments : List Value) (paren : Token) (hsound : Sound S w) (hclosure : closure.Fits S w)
    (harguments : ∀ v ∈ arguments, v.Fits S w)
    (harity : arguments.length = closure.decl.params.length) :
    Meets S w (Watched.call (n + 1) (.function stamp closure) arguments paren) fun value w' =>
      value.Fits S w' := by
  refine (Meets.openCall hsound hclosure harguments harity).bind fun frame w₁ hw₁ hsound₁ hnew => ?_
  obtain ⟨Γ, hscope, hsites⟩ := hnew
  have hbody : Meets S w₁ (Watched.within (frame :: closure.scope)
      (Watched.executeAll n closure.decl.body)) fun flow w' => flow.Fits S w' := by
    refine .within (h.executeAll closure.decl.body (hsound₁.congr rfl rfl rfl)
      (hscope.congr rfl rfl) hsites) fun flow w' hflow value hvalue => ?_
    exact (hflow value hvalue).congr rfl rfl
  refine hbody.bind fun flow w₂ hw₂ hsound₂ hflow => .closureResult hsound₂ ?_ hflow
  exact hclosure.weaken (fun _ _ halign => halign.mono (hw₁.trans hw₂)) fun _ hs => hs

lemma succ_call (h : KeepsAt S n) (c : Callable) (arguments : List Value) (paren : Token)
    (hsound : Sound S w) (hc : c.Fits S w) (harguments : ∀ v ∈ arguments, v.Fits S w)
    (harity : arguments.length = c.arity) :
    Meets S w (Watched.call (n + 1) c arguments paren) fun value w' => value.Fits S w' := by
  cases c with
  | builtin stamp b receiver => exact .callBuiltin hsound b receiver harguments paren
  | function stamp closure =>
    exact h.succ_callClosure closure arguments paren hsound hc harguments harity
  | cls c =>
    refine (Meets.addInstance hsound hc).bind fun id w₁ hw₁ hsound₁ _ => ?_
    cases hmethod : c.lookup? initializerName with
    | none => exact .pure hsound₁ trivial
    | some method =>
      have hfits : method.Fits S w₁ := Method.Fits.mono (hc _ _ hmethod) hw₁
      have hlength : arguments.length = method.arity := by
        rw [harity, Callable.arity, Class.arity, hmethod]
      refine (Meets.bindMethod hsound₁ hfits id).bind
        fun initializer w₂ hw₂ hsound₂ hbound => ?_
      obtain ⟨hinitializer, hsame⟩ := hbound
      refine (h.call initializer arguments paren hsound₂ hinitializer
        (fun v hv => (harguments v hv).mono (hw₁.trans hw₂)) (hlength.trans hsame.symm)).bind
        fun _ w₃ _ hsound₃ _ => ?_
      exact .pure hsound₃ trivial

/-- A statement that declares nothing leaves the scopes around as they are. -/
lemma normal_of_fits {flow : Flow} {w' : Watch} {s : Stmt} (hafter : s.after Γ = Γ)
    (halign : Aligned w none Γ w.machine.scope) (hw : w.Extends w') (hflow : flow.Fits S w') :
    flow.Fits S w' ∧ (flow = .normal → Aligned w' none (s.after Γ) w'.machine.scope) := by
  rw [hafter]
  exact ⟨hflow, fun _ => halign.later hw⟩

lemma fits_normal {w : Watch} : Flow.Fits S w .normal := by
  intro value hvalue
  cases hvalue

lemma succ_execute (h : KeepsAt S n) (s : Stmt) (hsound : Sound S w)
    (halign : Aligned w none Γ w.machine.scope) (hsites : ∀ site ∈ s.sites Γ, S site) :
    Meets S w (Watched.execute (n + 1) s) fun flow w' => flow.Fits S w' ∧
      (flow = .normal → Aligned w' none (s.after Γ) w'.machine.scope) := by
  cases s with
  | expression e =>
    refine (h.evaluate e hsound halign hsites).bind fun _ w₁ hw₁ hsound₁ _ => .pure hsound₁ ?_
    exact normal_of_fits rfl halign hw₁ fits_normal
  | print e =>
    refine (h.evaluate e hsound halign hsites).bind fun value w₁ hw₁ hsound₁ _ => ?_
    refine (Meets.calm hsound₁ (.text value) fun _ _ hw₂ _ => hw₂).bind
      fun line w₂ _ hsound₂ hw₂ => ?_
    refine (Meets.calm hsound₂ (.write _) fun _ _ hw₃ _ => hw₃).bind
      fun _ w₃ _ hsound₃ hw₃ => .pure hsound₃ ?_
    exact normal_of_fits rfl halign ((hw₁.trans hw₂).trans hw₃) fits_normal
  | var name initializer =>
    cases initializer with
    | none =>
      refine (Meets.defineNil hsound name.lexeme).bind
        fun _ w₁ hw₁ hsound₁ hbound => .pure hsound₁ ?_
      exact ⟨fits_normal, fun _ => (halign.later hw₁).define hbound⟩
    | some e =>
      -- The name is declared while its initializer runs, and bound only afterwards.
      refine (h.evaluate e hsound (halign.declare name) hsites).bind
        fun value w₁ hw₁ hsound₁ hvalue => ?_
      refine (Meets.define hsound₁ fun _ hw' _ => hvalue.mono hw').bind
        fun _ w₂ hw₂ hsound₂ hbound => .pure hsound₂ ?_
      exact ⟨fits_normal, fun _ => (halign.later (hw₁.trans hw₂)).define hbound⟩
  | block body =>
    refine (Meets.scope hsound).bind fun outer w₁ _ _ hcurrent => ?_
    obtain ⟨rfl, rfl⟩ := hcurrent
    refine (Meets.openFrame hsound (.block body) w₁.machine.scope (by simp)).bind
      fun frame w₂ hw₂ hsound₂ hnew => ?_
    obtain ⟨hframe, hopened, -⟩ := hnew
    have hscope : Aligned w₂ none (⟨.block body, []⟩ :: Γ) (frame :: w₁.machine.scope) :=
      .cons hframe hopened (by simp) (halign.mono hw₂)
    have hbody : Meets S w₂ (Watched.within (frame :: w₁.machine.scope)
        (Watched.executeAll n body)) fun flow w' => flow.Fits S w' := by
      refine .within (h.executeAll body (hsound₂.congr rfl rfl rfl) (hscope.congr rfl rfl) hsites)
        fun flow w' hflow value hvalue => ?_
      exact (hflow value hvalue).congr rfl rfl
    exact hbody.weaken fun flow w' hw' hflow => normal_of_fits rfl halign (hw₂.trans hw') hflow
  | ifThen condition thenBranch elseBranch =>
    -- A branch may bind names, and the conditional still declares none.
    have hbranch : ∀ {w₁} (branch : Stmt), w.Extends w₁ → Sound S w₁ →
        (∀ site ∈ branch.sites Γ, S site) →
        Meets S w₁ (Watched.execute n branch) fun flow w' => flow.Fits S w' ∧
          (flow = .normal → Aligned w' none
            ((Stmt.ifThen condition thenBranch elseBranch).after Γ) w'.machine.scope) :=
      fun branch hw₁ hsound₁ hbranch => (h.execute branch hsound₁ (halign.later hw₁) hbranch).weaken
        fun flow w' hw' hflow => normal_of_fits rfl halign (hw₁.trans hw') hflow.1
    cases elseBranch with
    | none =>
      rw [Stmt.sites, List.forall_mem_append] at hsites
      refine (h.evaluate condition hsound halign hsites.1).bind fun value w₁ hw₁ hsound₁ _ =>
        .ite (fun _ => hbranch thenBranch hw₁ hsound₁ hsites.2) fun _ => .pure hsound₁ ?_
      exact normal_of_fits rfl halign hw₁ fits_normal
    | some s =>
      rw [Stmt.sites, List.forall_mem_append, List.forall_mem_append] at hsites
      refine (h.evaluate condition hsound halign hsites.1.1).bind fun value w₁ hw₁ hsound₁ _ => ?_
      exact .ite (fun _ => hbranch thenBranch hw₁ hsound₁ hsites.1.2)
        fun _ => hbranch s hw₁ hsound₁ hsites.2
  | whileLoop condition body =>
    rw [Stmt.sites, List.forall_mem_append] at hsites
    refine (h.repeatWhile condition body hsound halign hsites.1 hsites.2).weaken
      fun flow w' hw' hflow => normal_of_fits rfl halign hw' hflow
  | breakLoop keyword =>
    refine .pure hsound ⟨fun value hvalue => ?_, fun hnormal => ?_⟩
    · cases hvalue
    · cases hnormal
  | returnValue keyword value =>
    cases value with
    | none =>
      refine .pure hsound ⟨fun value hvalue => ?_, fun hnormal => by cases hnormal⟩
      cases hvalue
      trivial
    | some e =>
      refine (h.evaluate e hsound halign hsites).bind fun value w₁ _ hsound₁ hvalue => ?_
      refine .pure hsound₁ ⟨fun value' heq => ?_, fun hnormal => by cases hnormal⟩
      cases heq
      exact hvalue
  | function decl =>
    refine (Meets.freshStamp hsound).bind fun stamp w₁ hw₁ hsound₁ _ => ?_
    refine (Meets.scope hsound₁).bind fun current w₂ _ _ hcurrent => ?_
    obtain ⟨rfl, rfl⟩ := hcurrent
    -- The function can see itself, so it fits only once its name is bound.
    refine (Meets.define hsound₁ fun w' hw' hbound => ?_).bind
      fun _ w₃ hw₃ hsound₃ hbound => .pure hsound₃ ?_
    · refine ⟨Γ.declare decl.name, ?_, hsites, by simp⟩
      rw [← hw'.scope]
      exact (halign.later (hw₁.trans hw')).define hbound
    · exact ⟨fits_normal, fun _ => (halign.later (hw₁.trans hw₃)).define hbound⟩
  | classDecl name superclass methods =>
    cases superclass with
    | none =>
      refine (Meets.defineNil hsound name.lexeme).bind fun _ w₁ hw₁ hsound₁ hbound => ?_
      have hinside := (halign.later hw₁).define hbound
      refine (Meets.defineClass hsound₁ name none methods hinside (by simp) hsites).bind
        fun _ w₂ hw₂ hsound₂ _ => .pure hsound₂ ?_
      exact ⟨fits_normal, fun _ => hinside.later hw₂⟩
    | some e =>
      rw [Stmt.sites, List.forall_mem_append] at hsites
      refine (Meets.defineNil hsound name.lexeme).bind fun _ w₁ hw₁ hsound₁ hbound => ?_
      have hinside := (halign.later hw₁).define hbound
      refine (h.evaluate e hsound₁ hinside hsites.1).bind fun value w₂ hw₂ hsound₂ hvalue => ?_
      have hexpect : Meets S w₂ (Watched.quietly (expectClass (superclassToken e name) value))
          fun parent w' => parent.Fits S w' := by
        rcases value with _ | _ | _ | _ | (_ | _ | parent) | _
        case callable.cls => exact .pure hsound₂ hvalue
        all_goals exact .raise hsound₂ _ _
      refine hexpect.bind fun parent w₃ hw₃ hsound₃ hparent => ?_
      refine (Meets.defineClass hsound₃ name (some parent) methods
        (hinside.later (hw₂.trans hw₃)) (fun c hc => ?_) hsites.2).bind
        fun _ w₄ hw₄ hsound₄ _ => .pure hsound₄ ?_
      · cases hc
        exact hparent
      · exact ⟨fits_normal, fun _ => hinside.later ((hw₂.trans hw₃).trans hw₄)⟩

lemma succ_executeAll (h : KeepsAt S n) (body : List Stmt) (hsound : Sound S w)
    (halign : Aligned w none Γ w.machine.scope) (hsites : ∀ site ∈ Stmt.sitesAll Γ body, S site) :
    Meets S w (Watched.executeAll (n + 1) body) fun flow w' => flow.Fits S w' := by
  cases body with
  | nil => exact .pure hsound fits_normal
  | cons s rest =>
    rw [Stmt.sitesAll, List.forall_mem_append] at hsites
    refine (h.execute s hsound halign hsites.1).bind fun flow w₁ _ hsound₁ hend => ?_
    obtain ⟨hflow, hafter⟩ := hend
    cases flow with
    | normal => exact h.executeAll rest hsound₁ (hafter rfl) hsites.2
    | broken => exact .pure hsound₁ hflow
    | returned value => exact .pure hsound₁ hflow

lemma succ_repeatWhile (h : KeepsAt S n) (condition : Expr) (body : Stmt) (hsound : Sound S w)
    (halign : Aligned w none Γ w.machine.scope)
    (hcondition : ∀ site ∈ condition.sites Γ none, S site)
    (hbody : ∀ site ∈ body.sites Γ, S site) :
    Meets S w (Watched.repeatWhile (n + 1) condition body) fun flow w' => flow.Fits S w' := by
  refine (h.evaluate condition hsound halign hcondition).bind fun value w₁ hw₁ hsound₁ _ =>
    .ite (fun _ => ?_) fun _ => .pure hsound₁ fits_normal
  refine (h.execute body hsound₁ (halign.later hw₁) hbody).bind
    fun flow w₂ hw₂ hsound₂ hend => ?_
  obtain ⟨hflow, -⟩ := hend
  cases flow with
  | normal =>
    exact h.repeatWhile condition body hsound₂ (halign.later (hw₁.trans hw₂)) hcondition hbody
  | broken => exact .pure hsound₂ fits_normal
  | returned value => exact .pure hsound₂ hflow

end KeepsAt

/-- Runs keep the invariant, whatever fuel they have. -/
lemma keepsAt (S : Site → Prop) (n : Nat) : KeepsAt S n := by
  induction n with
  | zero => refine ⟨?_, ?_, ?_, ?_, ?_, ?_, ?_⟩ <;> intros <;> exact .exhausted ‹_›
  | succ n ih =>
    exact ⟨ih.succ_evaluate, ih.succ_evaluateAll, ih.succ_invoke, ih.succ_call, ih.succ_execute,
      ih.succ_executeAll, ih.succ_repeatWhile⟩

/-- **The run of a program keeps the invariant**, started in the scope of the globals. -/
lemma meets_runProgram {S : Site → Prop} {w : Watch} (fuel : Nat) (program : List Stmt)
    (hsound : Sound S w) (hscope : w.machine.scope = globalScope)
    (hsites : ∀ s ∈ programSites program, S s) :
    Meets S w (Watched.runProgram fuel program) fun _ _ => True := by
  induction program generalizing w with
  | nil => exact .pure hsound trivial
  | cons s rest ih =>
    have halign : Aligned w none [] w.machine.scope := hscope ▸ .globals
    rw [programSites_cons, List.forall_mem_append] at hsites
    refine ((keepsAt S fuel).execute s hsound halign hsites.1).bind fun _ w₁ hw₁ hsound₁ _ => ?_
    exact ih hsound₁ (hw₁.scope.trans hscope) hsites.2

end LoxLang
