import LoxLang.Machine.Basic
import LoxLang.Text.Blank

/-!
# Builtins

The language comes with a function `clock` and two classes.  `Array` gives each of its instances a
list of elements, which no field can reach; `Input` reads lines after showing a prompt.  Failures
are reported at the call.
-/

namespace LoxLang

namespace Builtin

open Effect

/-- The index that a number stands for, if it is whole and not negative. -/
def index? (x : Float) : Option Nat :=
  let s := Number.Shape.of x
  match s.magnitude? with
  | some n => if s.isNegative && n != 0 then none else some n
  | none => none

/-- The element at an index. -/
def elementAt (paren : Token) (id : InstanceId) (x : Float) : Effect Value := fun m =>
  match (index? x).bind fun n => (m.store.elements id)[n]? with
  | some value => (.ok value, m)
  | none => (.error ⟨paren, .indexOutOfBounds x⟩, m)

/-- Adds an element at the end. -/
def pushElement (id : InstanceId) (value : Value) : Effect Value :=
  onStore fun s => (.nil, s.updateElements id (·.push value))

/-- How many elements there are. -/
def countElements (id : InstanceId) : Effect Value :=
  onStore fun s => (.number (Float.ofNat (s.elements id).size), s)

/-- Removes and gives the last element; nothing happens without one. -/
def popElement (id : InstanceId) : Effect Value :=
  onStore fun s => ((s.elements id).back?.getD .nil, s.updateElements id Array.pop)

/-- Shows a prompt and reads a line. -/
def readPrompted (paren : Token) (arguments : List Value) : Effect String := do
  let prompt ←
    match arguments.head? with
    | some value => text value
    | none => pure ""
  write (.prompted prompt)
  match ← readLine with
  | some (.text line) => pure line
  | some .undecodable => raise paren .undecodableInput
  | none => raise paren .endOfInput

/-- The number that a line of input writes, white space around it left aside. -/
def numberOfLine (paren : Token) (line : String) : Effect Value :=
  let trimmed := Text.trim line.toList
  match Number.ofText? trimmed with
  | some x => pure (.number x)
  | none => raise paren (.notANumber (String.ofList trimmed))

/-- An effect on the instance that a builtin is bound to. -/
def onReceiver (paren : Token) (receiver : Option InstanceId) (f : InstanceId → Effect Value) :
    Effect Value :=
  match receiver with
  | some id => f id
  | none => raise paren .noReceiver

/-- Calls a builtin.  Arguments beyond those it uses are ignored, and a missing one is `nil` or an
empty prompt. -/
def call (b : Builtin) (receiver : Option InstanceId) (arguments : List Value) (paren : Token) :
    Effect Value :=
  match b with
  | .clock => do
    let time ← readClock
    pure (.number time)
  | .arrayGet => onReceiver paren receiver fun id =>
    match arguments.head? with
    | some (.number x) => elementAt paren id x
    | _ => raise paren .indexNotNumber
  | .arrayPush => onReceiver paren receiver fun id =>
    pushElement id (arguments.head?.getD .nil)
  | .arrayLength => onReceiver paren receiver countElements
  | .arrayPop => onReceiver paren receiver popElement
  | .inputString => do
    let line ← readPrompted paren arguments
    pure (.string line)
  | .inputNumber => do
    let line ← readPrompted paren arguments
    numberOfLine paren line

end Builtin

/-! ## What a new store holds -/

/-- A class whose methods are builtins. -/
def builtinClass (stamp : Stamp) (name : String) (methods : List Builtin) : Class :=
  let table := methods.map fun b => (b.name, Method.builtin b)
  ⟨⟨stamp, name, Bindings.empty.insertAll table⟩, []⟩

/-- The class of arrays. -/
def arrayClass (stamp : Stamp) : Class :=
  builtinClass stamp "Array" [.arrayGet, .arrayPush, .arrayLength, .arrayPop]

/-- The class of line readers. -/
def inputClass (stamp : Stamp) : Class :=
  builtinClass stamp "Input" [.inputString, .inputNumber]

/-- The store at the start of a session: the globals are the builtins. -/
def Store.initial : Store :=
  let globals := Bindings.empty.insertAll
    [("clock", .callable (.builtin 0 .clock none)),
     ("Array", .callable (.cls (arrayClass 1))),
     ("Input", .callable (.cls (inputClass 2)))]
  ⟨#[globals], #[], 3⟩

/-- The machine at the start of a session. -/
def Machine.initial (input : List InputLine) (clock : Clock) : Machine where
  store := .initial
  scope := globalScope
  depth := 0
  limit := defaultLimit
  distances := .empty
  console := .ofLines input
  clock := clock

end LoxLang
