import LoxLang.Bindings
import LoxLang.Syntax.Basic

/-!
# Values

A running program computes with constants, with things that can be called, and with instances of
classes.  Functions, builtins and classes are immutable, so a value holds them outright; what
tells two of them apart is a *stamp*, handed out afresh whenever one comes into being.  Instances
can change, so a value holds only the place of an instance in the store.

**A class is the list of its layers**: its own declaration first, then that of its superclass, and
so on.  A chain of superclasses is therefore finite by construction, and looking up a method takes
the first layer that declares it.
-/

namespace LoxLang

/-- Tells things apart that are compared by identity. -/
abbrev Stamp := Nat

/-- The place of a frame in the store. -/
abbrev FrameId := Nat

/-- The place of an instance in the store. -/
abbrev InstanceId := Nat

/-- A chain of frames, innermost first.  The last frame of every chain is that of the globals. -/
abbrev Scope := List FrameId

/-- The frame of the globals. -/
def globalFrame : FrameId := 0

/-- The scope of the globals. -/
def globalScope : Scope := [globalFrame]

/-! ## Things that can be called -/

/-- Functions that come with the language. -/
inductive Builtin where
  | clock
  | arrayGet
  | arrayPush
  | arrayLength
  | arrayPop
  | inputString
  | inputNumber
  deriving DecidableEq, Repr

/-- The name of a builtin. -/
def Builtin.name : Builtin → String
  | .clock => "clock"
  | .arrayGet => "get"
  | .arrayPush => "push"
  | .arrayLength => "length"
  | .arrayPop => "pop"
  | .inputString => "string"
  | .inputNumber => "number"

/-- How many arguments a builtin takes. -/
def Builtin.arity : Builtin → Nat
  | .clock => 0
  | .arrayGet => 1
  | .arrayPush => 1
  | .arrayLength => 0
  | .arrayPop => 0
  | .inputString => 1
  | .inputNumber => 1

/-- A declaration together with the scope it was executed in. -/
structure Closure where
  decl : FunDecl
  scope : Scope
  /-- Does a call give back the instance that the closure is bound to? -/
  isInitializer : Bool

/-- A method as a class holds it, not yet bound to an instance. -/
inductive Method where
  | declared (closure : Closure)
  | builtin (b : Builtin)

/-- How many arguments a method takes. -/
def Method.arity : Method → Nat
  | .declared closure => closure.decl.params.length
  | .builtin b => b.arity

/-- One class declaration: its name and the methods it declares itself. -/
structure ClassLayer where
  stamp : Stamp
  name : String
  methods : Bindings Method

/-- A class: its own layer, and those of its superclasses, nearest first. -/
structure Class where
  own : ClassLayer
  ancestors : List ClassLayer

namespace Class

/-- All layers, the own one first. -/
def layers (c : Class) : List ClassLayer := c.own :: c.ancestors

/-- The name of a class. -/
def name (c : Class) : String := c.own.name

/-- The method that a name stands for, in the first layer that declares it. -/
def lookup? (c : Class) (method : String) : Option Method :=
  c.layers.findSome? (·.methods.find? method)

/-- How many arguments a call of the class takes: those of its initializer, if it has one. -/
def arity (c : Class) : Nat :=
  match c.lookup? initializerName with
  | some method => method.arity
  | none => 0

/-- The class with the given own layer below an optional superclass. -/
def extend (own : ClassLayer) (superclass : Option Class) : Class :=
  ⟨own, (superclass.map layers).getD []⟩

/-- A method is looked up in the own layer first. -/
theorem lookup?_extend (own : ClassLayer) (superclass : Option Class) (name : String) :
    (extend own superclass).lookup? name =
      (own.methods.find? name).or (superclass.bind (·.lookup? name)) := by
  cases hown : own.methods.find? name with
  | some method => simp [lookup?, layers, extend, hown]
  | none => cases superclass <;> simp [lookup?, layers, extend, hown]

end Class

/-- Things that can be called. -/
inductive Callable where
  | builtin (stamp : Stamp) (b : Builtin) (receiver : Option InstanceId)
  | function (stamp : Stamp) (closure : Closure)
  | cls (c : Class)

namespace Callable

/-- How many arguments a call takes. -/
def arity : Callable → Nat
  | .builtin _ b _ => b.arity
  | .function _ closure => closure.decl.params.length
  | .cls c => c.arity

/-- Are two callables the same thing? -/
def same : Callable → Callable → Bool
  | .builtin s _ _, .builtin t _ _ => s = t
  | .function s _, .function t _ => s = t
  | .cls c, .cls d => c.own.stamp = d.own.stamp
  | _, _ => false

end Callable

/-! ## Values -/

/-- Values. -/
inductive Value where
  | nil
  | bool (b : Bool)
  | number (x : Float)
  | string (s : String)
  | callable (c : Callable)
  | object (id : InstanceId)

namespace Value

/-- The value of a constant. -/
def ofLiteral : Literal → Value
  | .nil => .nil
  | .bool b => .bool b
  | .number x => .number x
  | .string s => .string s

/-- Everything is true but `nil` and `false`. -/
def isTruthy : Value → Bool
  | .nil => false
  | .bool b => b
  | _ => true

/-- Equality of the language: constants by value, all else by identity, and values of different
kinds never.  A number that is not a number differs from itself. -/
def same : Value → Value → Bool
  | .nil, .nil => true
  | .bool a, .bool b => a = b
  | .number a, .number b => a == b
  | .string a, .string b => a = b
  | .callable a, .callable b => a.same b
  | .object a, .object b => a = b
  | _, _ => false

/-- The name of the kind of a value. -/
def kind : Value → String
  | .nil => "nil"
  | .bool _ => "bool"
  | .number _ => "number"
  | .string _ => "string"
  | .callable (.builtin ..) => "native"
  | .callable (.function ..) => "function"
  | .callable (.cls _) => "class"
  | .object _ => "instance"

end Value

end LoxLang
