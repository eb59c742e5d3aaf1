import LoxLang.RuntimeError
import LoxLang.Store.Value
import LoxLang.Text.Quoted

/-!
# The store

The store holds what a running program can change: frames, which bind names, and instances, which
have fields and, for arrays, elements.  Both are only ever added, never removed, so a place in the
store stays valid.  The store also hands out stamps.

A scope is a chain of frames.  There are two ways to reach a binding through it: *dynamically*,
in the innermost frame that has the name (`get`, `assign`), and *by distance*, in the frame a known
number of hops out (`readAt`, `writeAt`).  The first way fails with an error where no frame has the
name.  The second way relies on the analysis of scopes; where the distance does not fit the chain
there is no sensible answer, and the access is a fault.
-/

namespace LoxLang

/-- An instance of a class. -/
structure Instance where
  cls : Class
  fields : Bindings Value
  elements : Array Value

/-- What a running program can change. -/
structure Store where
  frames : Array (Bindings Value)
  instances : Array Instance
  /-- The next free stamp. -/
  nextStamp : Stamp

/-- Why an access by distance has no answer. -/
inductive Fault where
  | missingLocal (name : String) (distance : Nat)
  | chainEnded (hops distance : Nat)
  deriving DecidableEq, Repr

/-- The wording of a fault. -/
def Fault.message : Fault → String
  | .missingLocal name distance =>
    "resolved local '" ++ name ++ "' missing at distance " ++ toString distance
  | .chainEnded hops distance =>
    "scope chain ended after " ++ toString hops ++ " of " ++ toString distance ++
      " hops for a resolved local"

/-- The chain a number of hops out. -/
def Scope.ancestor (scope : Scope) (distance : Nat) : Except Fault Scope :=
  if distance < scope.length then .ok (scope.drop distance)
  else .error (.chainEnded (scope.length - 1) distance)

namespace Store

/-- A store with an empty frame for the globals. -/
def empty : Store := ⟨#[.empty], #[], 0⟩

/-! ## Frames -/

/-- The bindings of a frame. -/
def frame (s : Store) (id : FrameId) : Bindings Value := s.frames.getD id .empty

/-- Adds a frame. -/
def addFrame (s : Store) (bindings : Bindings Value) : FrameId × Store :=
  (s.frames.size, { s with frames := s.frames.push bindings })

/-- Binds a name in a frame. -/
def bindIn (s : Store) (id : FrameId) (name : String) (value : Value) : Store :=
  { s with frames := s.frames.modify id (·.insert name value) }

@[simp] theorem frame_addFrame_self (s : Store) (bindings : Bindings Value) :
    (s.addFrame bindings).2.frame (s.addFrame bindings).1 = bindings := by
  simp [frame, addFrame]

theorem frame_addFrame_of_lt (s : Store) (bindings : Bindings Value) {id : FrameId}
    (h : id < s.frames.size) : (s.addFrame bindings).2.frame id = s.frame id := by
  simp [frame, addFrame, Array.getElem?_push_lt, h]

theorem frame_bindIn_self (s : Store) {id : FrameId} (h : id < s.frames.size) (name : String)
    (value : Value) : (s.bindIn id name value).frame id = (s.frame id).insert name value := by
  simp [frame, bindIn, Array.getElem_modify, h]

theorem frame_bindIn_of_ne (s : Store) {id other : FrameId} (h : other ≠ id) (name : String)
    (value : Value) : (s.bindIn id name value).frame other = s.frame other := by
  simp [frame, bindIn, Array.getElem?_modify, Ne.symm h]

/-- Binds a name in the innermost frame of a scope, replacing an older binding of it there. -/
def define (s : Store) (scope : Scope) (name : String) (value : Value) : Store :=
  match scope with
  | [] => s
  | id :: _ => s.bindIn id name value

/-- Is a name bound in the innermost frame of a scope? -/
def isDefined (s : Store) (scope : Scope) (name : String) : Bool :=
  match scope with
  | [] => false
  | id :: _ => (s.frame id).contains name

/-- The value of a name in the innermost frame that binds it. -/
def lookup? (s : Store) (name : String) : Scope → Option Value
  | [] => none
  | id :: outer =>
    match (s.frame id).find? name with
    | some value => some value
    | none => s.lookup? name outer

/-- The innermost frame that binds a name. -/
def frameOf? (s : Store) (name : String) (scope : Scope) : Option FrameId :=
  scope.find? fun id => (s.frame id).contains name

/-- Changes the value of a name in the innermost frame that binds it. -/
def assign? (s : Store) (name : String) (value : Value) (scope : Scope) : Option Store :=
  match s.frameOf? name scope with
  | some id => some (s.bindIn id name value)
  | none => none

/-- The value of a name, as seen from a scope. -/
def get (s : Store) (scope : Scope) (name : Token) : Except RuntimeError Value :=
  match s.lookup? name.lexeme scope with
  | some value => .ok value
  | none => .error ⟨name, .undefinedVariable name.lexeme⟩

/-- Changes the value of a name, as seen from a scope. -/
def assign (s : Store) (scope : Scope) (name : Token) (value : Value) :
    Except RuntimeError Store :=
  match s.assign? name.lexeme value scope with
  | some s' => .ok s'
  | none => .error ⟨name, .undefinedVariable name.lexeme⟩

/-- The frame `distance` hops out, which has to bind a name. -/
def frameAt (s : Store) (scope : Scope) (distance : Nat) (name : String) : Except Fault FrameId :=
  match scope[distance]? with
  | none => .error (.chainEnded (scope.length - 1) distance)
  | some id =>
    if (s.frame id).contains name then .ok id else .error (.missingLocal name distance)

/-- The value of a name in the frame `distance` hops out. -/
def readAt (s : Store) (scope : Scope) (distance : Nat) (name : String) : Except Fault Value :=
  match scope[distance]? with
  | none => .error (.chainEnded (scope.length - 1) distance)
  | some id =>
    match (s.frame id).find? name with
    | some value => .ok value
    | none => .error (.missingLocal name distance)

/-- Changes the value of a name in the frame `distance` hops out. -/
def writeAt (s : Store) (scope : Scope) (distance : Nat) (name : String) (value : Value) :
    Except Fault Store :=
  match s.frameAt scope distance name with
  | .error fault => .error fault
  | .ok id => .ok (s.bindIn id name value)

/-- The names of a scope, as a report shows them. -/
def scopeSummary (s : Store) (scope : Scope) : String :=
  let names := match scope with
    | [] => []
    | id :: _ => (s.frame id).names
  let nested := if 1 < scope.length then "true" else "false"
  "Environment \x7b names: " ++ Text.quoteNames names ++ ", has_enclosing: " ++ nested ++ " \x7d"

/-! ## Instances -/

/-- Adds an instance without fields and elements. -/
def addInstance (s : Store) (c : Class) : InstanceId × Store :=
  (s.instances.size, { s with instances := s.instances.push ⟨c, .empty, #[]⟩ })

/-- The fields of an instance. -/
def fields (s : Store) (id : InstanceId) : Bindings Value :=
  ((s.instances[id]?).map Instance.fields).getD .empty

/-- The elements of an instance. -/
def elements (s : Store) (id : InstanceId) : Array Value :=
  ((s.instances[id]?).map Instance.elements).getD #[]

/-- Sets a field of an instance. -/
def setField (s : Store) (id : InstanceId) (name : String) (value : Value) : Store :=
  { s with instances :=
      s.instances.modify id fun i => { i with fields := i.fields.insert name value } }

/-- Changes the elements of an instance. -/
def updateElements (s : Store) (id : InstanceId) (f : Array Value → Array Value) : Store :=
  { s with instances := s.instances.modify id fun i => { i with elements := f i.elements } }

/-! ## Stamps and methods -/

/-- A stamp that was not used before. -/
def freshStamp (s : Store) : Stamp × Store := (s.nextStamp, { s with nextStamp := s.nextStamp + 1 })

/-- A method bound to an instance.  A declared method gets a frame of its own, in which `this` is
the instance; so every look-up of a method gives a new function. -/
def bindMethod (s : Store) (method : Method) (id : InstanceId) : Callable × Store :=
  let (stamp, s) := s.freshStamp
  match method with
  | .builtin b => (.builtin stamp b (some id), s)
  | .declared closure =>
    let (frame, s) := s.addFrame (Bindings.empty.insert "this" (.object id))
    (.function stamp { closure with scope := frame :: closure.scope }, s)

/-! ## Texts of values -/

/-- The name of the class of an instance. -/
def className (s : Store) (id : InstanceId) : String :=
  ((s.instances[id]?).map fun i => i.cls.name).getD ""

/-- The text of a value, as `print` writes it. -/
def text (s : Store) : Value → String
  | .nil => "nil"
  | .bool true => "true"
  | .bool false => "false"
  | .number x => Number.valueText x
  | .string contents => contents
  | .callable (.builtin _ b _) => "<native fn " ++ b.name ++ ">"
  | .callable (.function _ closure) => "<fn " ++ closure.decl.name.lexeme ++ ">"
  | .callable (.cls c) => c.name
  | .object id => s.className id ++ " instance"

end Store

/-- The parts of a class, as a report shows them: its name, its superclass, and the methods it
declares itself. -/
def Class.summary (c : Class) : String :=
  let parent := match c.ancestors with
    | [] => "None"
    | layer :: _ => "Some(" ++ Text.quoteName layer.name ++ ")"
  "LoxClass \x7b name: " ++ Text.quoteName c.name ++ ", superclass: " ++ parent ++
    ", methods: " ++ Text.quoteNames c.own.methods.names ++ " \x7d"

end LoxLang
