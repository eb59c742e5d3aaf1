import LoxLang.Machine.Console
import LoxLang.Scope.Distance
import LoxLang.Store.Basic

/-!
# Machines and effects

A machine is everything that a run can read or change.  An effect on it ends in one of four ways:
with a result, with an error of the running program, with a fault (an access by distance that does
not fit), or because its fuel is used up.  The machine is kept however an effect ends; what an
effect did before it failed has been done.

Two combinators change the machine for the time of an effect only: `within` runs it in another
scope, `deeper` one call further down.  Both put the old scope or depth back however it ends.
-/

namespace LoxLang

/-! ## Machines -/

/-- How deep calls may nest unless a limit is set. -/
def defaultLimit : Nat := 1000

/-- Everything that a run can read or change. -/
structure Machine where
  store : Store
  /-- The current scope. -/
  scope : Scope
  /-- How many calls are being made. -/
  depth : Nat
  /-- How many calls may be made inside each other. -/
  limit : Nat
  distances : Distances
  console : Console
  clock : Clock

/-! ## Effects -/

/-- How an effect ends. -/
inductive Outcome (α : Type) where
  | ok (value : α)
  | error (e : RuntimeError)
  | fault (f : Fault)
  | exhausted

/-- An effect on a machine. -/
def Effect (α : Type) : Type := Machine → Outcome α × Machine

namespace Effect

@[always_inline]
instance : Monad Effect where
  pure a := fun m => (.ok a, m)
  bind x f := fun m =>
    match x m with
    | (.ok a, m) => f a m
    | (.error e, m) => (.error e, m)
    | (.fault f, m) => (.fault f, m)
    | (.exhausted, m) => (.exhausted, m)

@[simp] theorem run_pure {α : Type} (a : α) (m : Machine) :
    (pure a : Effect α) m = (.ok a, m) := rfl

@[simp] theorem run_bind {α β : Type} (x : Effect α) (f : α → Effect β) (m : Machine) :
    (x >>= f) m = match x m with
      | (.ok a, m) => f a m
      | (.error e, m) => (.error e, m)
      | (.fault f, m) => (.fault f, m)
      | (.exhausted, m) => (.exhausted, m) := rfl

variable {α : Type}

/-- Ends with an error at a token. -/
def raise (token : Token) (cause : RuntimeCause) : Effect α := fun m => (.error ⟨token, cause⟩, m)

/-- Ends because the fuel is used up. -/
def exhausted : Effect α := fun m => (.exhausted, m)

/-- The current scope. -/
def scope : Effect Scope := fun m => (.ok m.scope, m)

/-- The recorded distance of a reference. -/
def distance? (ref : RefId) : Effect (Option Nat) := fun m => (.ok (m.distances.find? ref), m)

/-- Runs an effect in another scope and puts the old one back. -/
@[inline] def within (scope : Scope) (x : Effect α) : Effect α := fun m =>
  let old := m.scope
  let (outcome, m) := x { m with scope := scope }
  (outcome, { m with scope := old })

/-- Runs an effect one call further down and puts the old depth back. -/
@[inline] def deeper (x : Effect α) : Effect α := fun m =>
  let old := m.depth
  let (outcome, m) := x { m with depth := old + 1 }
  (outcome, { m with depth := old })

@[simp] theorem scope_within (scope : Scope) (x : Effect α) (m : Machine) :
    (within scope x m).2.scope = m.scope := rfl

@[simp] theorem depth_deeper (x : Effect α) (m : Machine) :
    (deeper x m).2.depth = m.depth := rfl

/-- Is there no room for one more call? -/
def isAtLimit : Effect Bool := fun m => (.ok (m.limit ≤ m.depth), m)

/-! ### Effects on the store -/

/-- Changes the store and gives a result.  The machine is taken apart first, so that the store has
one owner and is changed in place. -/
@[inline] def onStore (f : Store → α × Store) : Effect α := fun m =>
  match m with
  | { store, scope, depth, limit, distances, console, clock } =>
    let (a, store) := f store
    (.ok a, { store, scope, depth, limit, distances, console, clock })

@[simp] theorem run_onStore (f : Store → α × Store) (m : Machine) :
    onStore f m = (.ok (f m.store).1, { m with store := (f m.store).2 }) := rfl

/-- Adds a frame. -/
def addFrame (bindings : Bindings Value) : Effect FrameId := onStore (·.addFrame bindings)

/-- Adds an instance of a class. -/
def addInstance (c : Class) : Effect InstanceId := onStore (·.addInstance c)

/-- A stamp that was not used before. -/
def freshStamp : Effect Stamp := onStore Store.freshStamp

/-- A method bound to an instance. -/
def bindMethod (method : Method) (id : InstanceId) : Effect Callable :=
  onStore (·.bindMethod method id)

/-- Binds a name in the innermost frame of the current scope. -/
def define (name : String) (value : Value) : Effect Unit := fun m =>
  let current := m.scope
  onStore (fun s => ((), s.define current name value)) m

/-- Sets a field of an instance. -/
def setField (id : InstanceId) (name : String) (value : Value) : Effect Unit :=
  onStore fun s => ((), s.setField id name value)

/-- The value of a name a number of hops out from a scope. -/
def readAt (scope : Scope) (distance : Nat) (name : String) : Effect Value := fun m =>
  match m.store.readAt scope distance name with
  | .ok value => (.ok value, m)
  | .error fault => (.fault fault, m)

/-- Changes the value of a name a number of hops out from the current scope. -/
def writeAt (distance : Nat) (name : String) (value : Value) : Effect Unit := fun m =>
  match m.store.frameAt m.scope distance name with
  | .ok id => onStore (fun s => ((), s.bindIn id name value)) m
  | .error fault => (.fault fault, m)

/-- The value of a global. -/
def readGlobal (name : Token) : Effect Value := fun m =>
  match m.store.lookup? name.lexeme globalScope with
  | some value => (.ok value, m)
  | none => (.error ⟨name, .undefinedVariable name.lexeme⟩, m)

/-- Changes the value of a global, which has to exist. -/
def writeGlobal (name : Token) (value : Value) : Effect Unit := fun m =>
  match m.store.frameOf? name.lexeme globalScope with
  | some id => onStore (fun s => ((), s.bindIn id name.lexeme value)) m
  | none => (.error ⟨name, .undefinedVariable name.lexeme⟩, m)

/-- The value that a reference denotes: by its distance if it has one, and otherwise a global. -/
def readRef (ref : RefId) (name : Token) : Effect Value := fun m =>
  match m.distances.find? ref with
  | some d => readAt m.scope d name.lexeme m
  | none => readGlobal name m

/-- Changes the value that a reference denotes. -/
def writeRef (ref : RefId) (name : Token) (value : Value) : Effect Unit := fun m =>
  match m.distances.find? ref with
  | some d => writeAt d name.lexeme value m
  | none => writeGlobal name value m

/-- The value of a property: a field if there is one, and otherwise a method bound to the
instance. -/
def property (id : InstanceId) (name : Token) : Effect Value := fun m =>
  match (m.store.fields id).find? name.lexeme with
  | some value => (.ok value, m)
  | none =>
    match (m.store.instances[id]?).bind fun i => i.cls.lookup? name.lexeme with
    | some method =>
      onStore (fun s =>
        let (c, s) := s.bindMethod method id
        (.callable c, s)) m
    | none => (.error ⟨name, .undefinedProperty name.lexeme⟩, m)

/-! ### Effects on the console and the clock -/

/-- The text of a value. -/
def text (value : Value) : Effect String := fun m => (.ok (m.store.text value), m)

/-- Writes an event. -/
def write (event : Event) : Effect Unit := fun m =>
  (.ok (), { m with console := m.console.write event })

/-- Takes the next line of input, if there is one. -/
def readLine : Effect (Option InputLine) := fun m =>
  let (line, console) := m.console.readLine
  (.ok line, { m with console := console })

/-- Takes a clock reading. -/
def readClock : Effect Float := fun m =>
  let (time, clock) := m.clock.read
  (.ok time, { m with clock := clock })

end Effect

end LoxLang
