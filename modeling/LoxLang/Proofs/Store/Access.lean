import LoxLang.Machine.Basic
import LoxLang.Proofs.Machine.Changes

/-!
# Two ways to a binding

A binding is reached through a chain of frames either dynamically, by a walk to the innermost frame
that has the name (`Store.get`, `Store.assign`), or by the number of hops to that frame
(`Store.readAt`, `Store.writeAt`).  The two are separate code.  They agree where the number of hops
is the least one at which the name is bound, and then a write changes one binding of one frame.

Frames are shared: a chain is the list of the frames on it, and the frames of one chain may be on
any number of others.  So what a write changes is said for all chains at once (`Store.Rebound`): the
new value is seen from those that come to the written frame before any other that binds the name,
and nothing else is seen to change.

The main statement is about forests of environments, which grow by the operations that make, extend
and write them (`Forest.build`).
-/

namespace LoxLang

/-! ## Dynamic access in running programs -/

/-- A running program reads its globals dynamically. -/
lemma Effect.readGlobal_eq (name : Token) (m : Machine) :
    Effect.readGlobal name m =
      match m.store.get globalScope name with
      | .ok value => (.ok value, m)
      | .error e => (.error e, m) := by
  unfold Effect.readGlobal Store.get
  cases m.store.lookup? name.lexeme globalScope <;> rfl

/-- A running program writes its globals dynamically. -/
lemma Effect.writeGlobal_eq (name : Token) (value : Value) (m : Machine) :
    Effect.writeGlobal name value m =
      match m.store.assign globalScope name value with
      | .ok s => (.ok (), { m with store := s })
      | .error e => (.error e, m) := by
  unfold Effect.writeGlobal Store.assign Store.assign?
  cases m.store.frameOf? name.lexeme globalScope <;> rfl

/-! ## The least distance at which a name is bound -/

/-- The chain a number of hops out has the name in its innermost frame. -/
def Store.IsBoundAt (s : Store) (scope : Scope) (name : String) (distance : Nat) : Prop :=
  ∃ outer, scope.ancestor distance = .ok outer ∧ s.isDefined outer name = true

/-- A name is bound a number of hops out, and not at any smaller number of hops. -/
def Store.IsNearest (s : Store) (scope : Scope) (name : String) (distance : Nat) : Prop :=
  s.IsBoundAt scope name distance ∧ ∀ hops < distance, ¬ s.IsBoundAt scope name hops

/-- The innermost frame of a chain that has the name is the given one. -/
def Store.Reaches (s : Store) (scope : Scope) (name : String) (frame : FrameId) : Prop :=
  ∃ distance, s.IsNearest scope name distance ∧ scope[distance]? = some frame

namespace Store

variable {s : Store} {scope outer : Scope} {name : String} {distance : Nat} {id : FrameId}
  {value : Value}

lemma isBoundAt_iff :
    s.IsBoundAt scope name distance ↔
      ∃ id, scope[distance]? = some id ∧ (s.frame id).contains name = true := by
  unfold IsBoundAt Scope.ancestor
  by_cases hlt : distance < scope.length
  · rw [if_pos hlt, List.drop_eq_getElem_cons hlt, List.getElem?_eq_getElem hlt]
    simp only [Except.ok.injEq, exists_eq_left', Option.some.injEq]
    rfl
  · rw [if_neg hlt, List.getElem?_eq_none (Nat.le_of_not_lt hlt)]
    simp

lemma isBoundAt_zero :
    s.IsBoundAt (id :: outer) name 0 ↔ (s.frame id).contains name = true := by
  simp [isBoundAt_iff]

lemma isBoundAt_succ :
    s.IsBoundAt (id :: outer) name (distance + 1) ↔ s.IsBoundAt outer name distance := by
  simp [isBoundAt_iff]

/-- Behind a frame without the name, every distance is one more. -/
lemma isNearest_succ (h : (s.frame id).contains name = false) :
    s.IsNearest (id :: outer) name (distance + 1) ↔ s.IsNearest outer name distance := by
  unfold IsNearest
  rw [isBoundAt_succ]
  apply and_congr_right
  intro _
  constructor
  · intro hfirst hops hlt
    have hnext := hfirst (hops + 1) (Nat.succ_lt_succ hlt)
    rwa [isBoundAt_succ] at hnext
  · intro hrest hops hlt
    cases hops with
    | zero => simp [isBoundAt_zero, h]
    | succ hops =>
      rw [isBoundAt_succ]
      exact hrest hops (Nat.lt_of_succ_lt_succ hlt)

lemma isNearest_of_contains (h : (s.frame id).contains name = true) :
    s.IsNearest (id :: outer) name distance ↔ distance = 0 := by
  constructor
  · intro hnearest
    by_contra hne
    exact hnearest.2 0 (Nat.pos_of_ne_zero hne) (isBoundAt_zero.mpr h)
  · rintro rfl
    exact ⟨isBoundAt_zero.mpr h, fun hops hlt => absurd hlt (Nat.not_lt_zero hops)⟩

lemma not_isNearest_nil : ¬ s.IsNearest [] name distance := by
  intro h
  obtain ⟨_, hget, -⟩ := isBoundAt_iff.mp h.1
  simp at hget

lemma frameOf?_cons_of_contains (h : (s.frame id).contains name = true) :
    s.frameOf? name (id :: outer) = some id := by
  unfold frameOf?
  rw [List.find?_cons_of_pos]
  exact h

lemma frameOf?_cons_of_not_contains (h : (s.frame id).contains name = false) :
    s.frameOf? name (id :: outer) = s.frameOf? name outer := by
  unfold frameOf?
  rw [List.find?_cons_of_neg]
  simp [h]

/-- **The walk to a name stops at its least distance.** -/
lemma frameOf?_eq_some_iff : s.frameOf? name scope = some id ↔ s.Reaches scope name id := by
  unfold Reaches
  induction scope with
  | nil => simp [frameOf?, not_isNearest_nil]
  | cons first outer ih =>
    cases hfirst : (s.frame first).contains name with
    | true =>
      rw [frameOf?_cons_of_contains hfirst]
      simp [isNearest_of_contains hfirst]
    | false =>
      rw [frameOf?_cons_of_not_contains hfirst, ih]
      constructor
      · rintro ⟨distance, hnearest, hget⟩
        exact ⟨distance + 1, (isNearest_succ hfirst).mpr hnearest, hget⟩
      · rintro ⟨distance, hnearest, hget⟩
        cases distance with
        | zero =>
          have hbound := isBoundAt_zero.mp hnearest.1
          rw [hfirst] at hbound
          cases hbound
        | succ distance => exact ⟨distance, (isNearest_succ hfirst).mp hnearest, hget⟩

/-- A name that is bound nowhere on a chain is not found on it. -/
lemma frameOf?_eq_none (h : ∀ distance, ¬ s.IsBoundAt scope name distance) :
    s.frameOf? name scope = none := by
  cases hfound : s.frameOf? name scope with
  | none => rfl
  | some id =>
    obtain ⟨distance, hnearest, -⟩ := frameOf?_eq_some_iff.mp hfound
    exact absurd hnearest.1 (h distance)

/-- A value is read in the frame at which the walk to its name stops. -/
lemma lookup?_eq_bind :
    s.lookup? name scope = (s.frameOf? name scope).bind fun id => (s.frame id).find? name := by
  induction scope with
  | nil => rfl
  | cons first outer ih =>
    cases hfound : (s.frame first).find? name with
    | some value =>
      have hfirst : (s.frame first).contains name = true := by simp [Bindings.contains, hfound]
      rw [frameOf?_cons_of_contains hfirst, Option.bind_some]
      simp only [lookup?, hfound]
    | none =>
      have hfirst : (s.frame first).contains name = false := by simp [Bindings.contains, hfound]
      rw [frameOf?_cons_of_not_contains hfirst, ← ih]
      simp only [lookup?, hfound]

end Store

/-! ## What a write changes -/

/-- **One binding of one frame has a new value.**  The other fields say what follows for those who
look at it through a chain of frames. -/
structure Store.Rebound (s : Store) (id : FrameId) (name : String) (value : Value) (s' : Store) :
    Prop where
  /-- No binding but one has changed. -/
  binding : ∀ frame other, (s'.frame frame).find? other =
    if frame = id ∧ other = name then some value else (s.frame frame).find? other
  /-- No frame has come or gone. -/
  frames : s'.frames.size = s.frames.size
  /-- Nothing but frames has changed. -/
  rest : s'.instances = s.instances ∧ s'.nextStamp = s.nextStamp
  /-- The new value is seen where the chain comes to the frame unshadowed. -/
  seen : ∀ scope, s.Reaches scope name id → s'.lookup? name scope = some value
  /-- From all other chains, the name has the value that it had. -/
  elsewhere : ∀ scope, ¬ s.Reaches scope name id → s'.lookup? name scope = s.lookup? name scope
  /-- All other names have the value that they had. -/
  others : ∀ scope other, other ≠ name → s'.lookup? other scope = s.lookup? other scope

namespace Store

variable {s : Store} {scope : Scope} {name : String} {distance : Nat} {id : FrameId}
  {value : Value}

lemma lt_size_of_contains (h : (s.frame id).contains name = true) : id < s.frames.size := by
  by_contra hle
  rw [frame_of_size_le (Nat.le_of_not_lt hle)] at h
  simp [Bindings.contains] at h

lemma find?_bindIn_eq (h : (s.frame id).contains name = true) (frame : FrameId) (other : String) :
    ((s.bindIn id name value).frame frame).find? other =
      if frame = id ∧ other = name then some value else (s.frame frame).find? other := by
  by_cases hframe : frame = id
  · subst hframe
    rw [frame_bindIn_self s (lt_size_of_contains h)]
    by_cases hname : other = name
    · subst hname
      simp
    · rw [Bindings.find?_insert_of_ne _ hname, if_neg (fun hboth => hname hboth.2)]
  · rw [frame_bindIn_of_ne s hframe, if_neg (fun hboth => hframe hboth.1)]

/-- A frame has the same names before and after. -/
lemma contains_bindIn_eq (h : (s.frame id).contains name = true) (frame : FrameId)
    (other : String) : ((s.bindIn id name value).frame frame).contains other =
      (s.frame frame).contains other := by
  unfold Bindings.contains
  rw [find?_bindIn_eq h]
  by_cases hboth : frame = id ∧ other = name
  · obtain ⟨rfl, rfl⟩ := hboth
    unfold Bindings.contains at h
    simp [h]
  · rw [if_neg hboth]

/-- Every walk stops where it stopped before. -/
lemma frameOf?_bindIn (h : (s.frame id).contains name = true) (other : String) (scope : Scope) :
    (s.bindIn id name value).frameOf? other scope = s.frameOf? other scope := by
  unfold frameOf?
  congr
  funext frame
  exact contains_bindIn_eq h frame other

lemma rebound_bindIn (h : (s.frame id).contains name = true) (value : Value) :
    s.Rebound id name value (s.bindIn id name value) where
  binding := find?_bindIn_eq h
  frames := by simp [bindIn]
  rest := ⟨rfl, rfl⟩
  seen scope hreaches := by
    rw [lookup?_eq_bind, frameOf?_bindIn h, frameOf?_eq_some_iff.mpr hreaches, Option.bind_some,
      find?_bindIn_eq h, if_pos ⟨rfl, rfl⟩]
  elsewhere scope hreaches := by
    rw [lookup?_eq_bind, lookup?_eq_bind, frameOf?_bindIn h]
    cases hfound : s.frameOf? name scope with
    | none => rfl
    | some frame =>
      have hne : frame ≠ id := by
        rintro rfl
        exact hreaches (frameOf?_eq_some_iff.mp hfound)
      rw [Option.bind_some, Option.bind_some, find?_bindIn_eq h, if_neg (fun hboth => hne hboth.1)]
  others scope other hother := by
    rw [lookup?_eq_bind, lookup?_eq_bind, frameOf?_bindIn h]
    congr
    funext frame
    rw [find?_bindIn_eq h, if_neg (fun hboth => hother hboth.2)]

/-! ## The two ways agree -/

/-- **At the least distance, both ways read the same value.** -/
lemma IsNearest.get_eq {name : Token} (h : s.IsNearest scope name.lexeme distance) :
    ∃ value, s.get scope name = .ok value ∧ s.readAt scope distance name.lexeme = .ok value := by
  obtain ⟨id, hget, hcontains⟩ := isBoundAt_iff.mp h.1
  obtain ⟨value, hvalue⟩ := Bindings.exists_of_contains hcontains
  have hframe : s.frameOf? name.lexeme scope = some id :=
    frameOf?_eq_some_iff.mpr ⟨distance, h, hget⟩
  have hlookup : s.lookup? name.lexeme scope = some value := by
    rw [lookup?_eq_bind, hframe, Option.bind_some, hvalue]
  refine ⟨value, ?_, ?_⟩
  · rw [Store.get, hlookup]
  · simp only [readAt, hget, hvalue]

/-- **At the least distance, both ways write the same binding.** -/
lemma IsNearest.assign_eq {name : Token} (h : s.IsNearest scope name.lexeme distance)
    (value : Value) :
    ∃ id s', scope[distance]? = some id ∧ s.assign scope name value = .ok s' ∧
      s.writeAt scope distance name.lexeme value = .ok s' ∧
      s.Rebound id name.lexeme value s' := by
  obtain ⟨id, hget, hcontains⟩ := isBoundAt_iff.mp h.1
  have hframe : s.frameOf? name.lexeme scope = some id :=
    frameOf?_eq_some_iff.mpr ⟨distance, h, hget⟩
  refine ⟨id, s.bindIn id name.lexeme value, hget, ?_, ?_, rebound_bindIn hcontains value⟩
  · simp only [assign, assign?, hframe]
  · simp only [writeAt, frameAt, hget, hcontains, if_true]

lemma get_of_unbound {name : Token} (h : ∀ distance, ¬ s.IsBoundAt scope name.lexeme distance) :
    s.get scope name = .error ⟨name, .undefinedVariable name.lexeme⟩ := by
  rw [get, lookup?_eq_bind, frameOf?_eq_none h]
  rfl

lemma assign_of_unbound {name : Token} (h : ∀ distance, ¬ s.IsBoundAt scope name.lexeme distance)
    (value : Value) :
    s.assign scope name value = .error ⟨name, .undefinedVariable name.lexeme⟩ := by
  rw [assign, assign?, frameOf?_eq_none h]

end Store

/-! ## Forests of environments -/

/-- Environments, each with the chain of its frames, over one store. -/
structure Forest where
  store : Store
  environments : List Scope

namespace Forest

/-- What can be done to a forest.  An environment is named by its place in the list. -/
inductive Operation where
  /-- Makes an environment that is in no other one. -/
  | root
  /-- Makes an environment inside of one that is there. -/
  | child (environment : Nat)
  | define (environment : Nat) (name : Token) (value : Value)
  | assign (environment : Nat) (name : Token) (value : Value)
  | assignAt (environment distance : Nat) (name : Token) (value : Value)

/-- Adds an environment with an empty frame of its own. -/
def grow (f : Forest) (enclosing : Scope) : Forest :=
  let (id, store) := f.store.addFrame .empty
  ⟨store, f.environments ++ [id :: enclosing]⟩

/-- The forest after an operation.  One that fails leaves the forest as it is, and so does one on
an environment that is not there. -/
def perform (f : Forest) : Operation → Forest
  | .root => f.grow []
  | .child i => (f.environments[i]?).elim f f.grow
  | .define i name value =>
    (f.environments[i]?).elim f fun scope =>
      { f with store := f.store.define scope name.lexeme value }
  | .assign i name value =>
    (f.environments[i]?).elim f fun scope =>
      match f.store.assign scope name value with
      | .ok store => { f with store := store }
      | .error _ => f
  | .assignAt i distance name value =>
    (f.environments[i]?).elim f fun scope =>
      match f.store.writeAt scope distance name.lexeme value with
      | .ok store => { f with store := store }
      | .error _ => f

/-- The forest that operations build, one after the other, from nothing. -/
def build (operations : List Operation) : Forest :=
  operations.foldl perform ⟨⟨#[], #[], 0⟩, []⟩

/-- **Dynamic access and access by distance agree** in every forest that operations build.

Where a name is bound on the chain of an environment and `k` is the least distance at which it is,
both ways read the same value, and both ways write the same: one binding of the frame at that
distance has the new value, it is seen through every chain that comes to this frame unshadowed, and
nothing else changes.  Where the name is bound nowhere on the chain, both dynamic operations fail
with the same error, and the forest stays as it is. -/
theorem dynamic_access_agrees (operations : List Operation) (i : Nat) (scope : Scope)
    (hi : (build operations).environments[i]? = some scope) (name : Token) :
    (∀ k, (build operations).store.IsNearest scope name.lexeme k →
      (∃ value, (build operations).store.get scope name = .ok value ∧
        (build operations).store.readAt scope k name.lexeme = .ok value) ∧
      ∀ value, (build operations).perform (.assign i name value) =
          (build operations).perform (.assignAt i k name value) ∧
        ∃ id store', scope[k]? = some id ∧
          (build operations).store.assign scope name value = .ok store' ∧
          (build operations).store.writeAt scope k name.lexeme value = .ok store' ∧
          (build operations).perform (.assign i name value) =
            { build operations with store := store' } ∧
          (build operations).store.Rebound id name.lexeme value store') ∧
    ((∀ k, ¬ (build operations).store.IsBoundAt scope name.lexeme k) →
      (build operations).store.get scope name =
          .error ⟨name, .undefinedVariable name.lexeme⟩ ∧
        ∀ value, (build operations).store.assign scope name value =
            .error ⟨name, .undefinedVariable name.lexeme⟩ ∧
          (build operations).perform (.assign i name value) = build operations) := by
  generalize build operations = f at hi
  constructor
  · intro k hk
    refine ⟨hk.get_eq, fun value => ?_⟩
    obtain ⟨id, store', hid, hassign, hwrite, hrebound⟩ := hk.assign_eq value
    have hperform : f.perform (.assign i name value) = { f with store := store' } := by
      simp only [perform, hi, Option.elim_some, hassign]
    have hperformAt : f.perform (.assignAt i k name value) = { f with store := store' } := by
      simp only [perform, hi, Option.elim_some, hwrite]
    exact ⟨hperform.trans hperformAt.symm, id, store', hid, hassign, hwrite, hperform, hrebound⟩
  · intro hunbound
    refine ⟨Store.get_of_unbound hunbound, fun value => ?_⟩
    have hassign := Store.assign_of_unbound hunbound value
    refine ⟨hassign, ?_⟩
    simp only [perform, hi, Option.elim_some, hassign]

/-- Two environments inside of a third one, one of which shadows the name of the outermost. -/
def shadowing (name : Token) : List Operation :=
  [.root, .define 0 name (.bool true), .child 0, .define 1 name (.bool false), .child 1, .child 0]

theorem dynamic_access_agrees_shadowing :
    let x : Token := ⟨.identifier, "x", 1⟩
    let f := build (shadowing x)
    f.environments[2]? = some [2, 1, 0] ∧ f.environments[3]? = some [3, 0] ∧
      f.store.IsNearest [2, 1, 0] "x" 1 ∧ f.store.IsNearest [3, 0] "x" 1 ∧
      (∃ value, f.store.get [2, 1, 0] x = .ok value ∧
        f.store.readAt [2, 1, 0] 1 "x" = .ok value) ∧
      f.perform (.assign 2 x .nil) = f.perform (.assignAt 2 1 x .nil) ∧
      f.perform (.assign 3 x .nil) = f.perform (.assignAt 3 1 x .nil) := by
  have hinner : (build (shadowing ⟨.identifier, "x", 1⟩)).store.IsNearest [2, 1, 0] "x" 1 := by
    refine ⟨⟨[1, 0], rfl, rfl⟩, fun hops hlt => ?_⟩
    obtain rfl : hops = 0 := by omega
    rintro ⟨_, ⟨⟩, hdefined⟩
    cases hdefined
  have houter : (build (shadowing ⟨.identifier, "x", 1⟩)).store.IsNearest [3, 0] "x" 1 := by
    refine ⟨⟨[0], rfl, rfl⟩, fun hops hlt => ?_⟩
    obtain rfl : hops = 0 := by omega
    rintro ⟨_, ⟨⟩, hdefined⟩
    cases hdefined
  obtain ⟨hread, hwrite⟩ := (dynamic_access_agrees (shadowing ⟨.identifier, "x", 1⟩) 2 [2, 1, 0]
    rfl ⟨.identifier, "x", 1⟩).1 1 hinner
  obtain ⟨-, hother⟩ := (dynamic_access_agrees (shadowing ⟨.identifier, "x", 1⟩) 3 [3, 0]
    rfl ⟨.identifier, "x", 1⟩).1 1 houter
  exact ⟨rfl, rfl, hinner, houter, hread, (hwrite .nil).1, (hother .nil).1⟩

end Forest

end LoxLang
