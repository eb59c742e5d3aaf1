import LoxLang.Machine.Builtin
import LoxLang.Machine.Operator

/-!
# Running programs

Expressions give values, statements give a *flow* that tells what surrounds them how they ended:
normally, by `break`, or by `return`.  Loops end a `break`, calls end a `return`.

The functions below are defined by recursion on fuel, one unit for each nested step; a loop uses
one unit for each round.  Fuel decides nothing but whether the run is finished: with more fuel a
finished run ends in the same way.

**Where a call counts.**  A call expression counts as one call further down, and is refused when
the limit is reached.  A call of a class runs the initializer as part of that same call.
-/

namespace LoxLang

/-- How a statement ends. -/
inductive Flow where
  | normal
  | broken
  | returned (value : Value)

open Effect

/-- The bindings of parameters to arguments. -/
def bindParameters (params : List Token) (arguments : List Value) : Bindings Value :=
  Bindings.empty.insertAll ((params.map Token.lexeme).zip arguments)

/-- The methods of a class statement in a scope; of two methods with one name the later counts. -/
def methodTable (scope : Scope) (methods : List FunDecl) : Bindings Method :=
  Bindings.empty.insertAll
    (methods.map fun d => (d.name.lexeme, .declared ⟨d, scope, d.isInitializer⟩))

/-- Where a superclass that is no class is reported: at its name, or at the name of the class. -/
def superclassToken (superclass : Expr) (name : Token) : Token :=
  match superclass with
  | .variable _ parent => parent
  | _ => name

/-- The class that a superclass expression gave. -/
def expectClass (token : Token) (value : Value) : Effect Class :=
  match value with
  | .callable (.cls c) => pure c
  | _ => raise token .superclassNotClass

/-- Binds a class with its methods.  Below a superclass the methods close over a frame in which
`super` is the superclass. -/
def defineClass (name : Token) (superclass : Option Class) (methods : List FunDecl) :
    Effect Unit := do
  let outer ← scope
  let inner ←
    match superclass with
    | none => pure outer
    | some c =>
      let frame ← addFrame (Bindings.empty.insert "super" (.callable (.cls c)))
      pure (frame :: outer)
  let stamp ← freshStamp
  let own : ClassLayer := ⟨stamp, name.lexeme, methodTable inner methods⟩
  define name.lexeme (.callable (.cls (.extend own superclass)))

/-- A method of the superclass, bound to the instance at hand.  The superclass is in the frame at
the recorded distance, and `this` in the frame one hop nearer. -/
def superMethod (ref : RefId) (keyword method : Token) : Effect Value := do
  match ← distance? ref with
  | none => raise keyword (.undefinedVariable "super")
  | some d =>
    let current ← scope
    match ← readAt current d "super" with
    | .callable (.cls parent) =>
      match ← readAt current (d - 1) "this" with
      | .object id =>
        match parent.lookup? method.lexeme with
        | some m =>
          let bound ← bindMethod m id
          pure (.callable bound)
        | none => raise method (.undefinedProperty method.lexeme)
      | _ => raise keyword .superWithoutThis
    | _ => raise keyword .superclassNotClass

/-- What a call of a closure gives once its body ended. -/
def closureResult (closure : Closure) (flow : Flow) : Effect Value :=
  if closure.isInitializer then readAt closure.scope 0 "this"
  else
    match flow with
    | .returned value => pure value
    | _ => pure .nil

mutual

/-- Evaluates an expression. -/
def evaluate : Nat → Expr → Effect Value
  | 0, _ => exhausted
  | n + 1, e =>
    match e with
    | .literal value => pure (.ofLiteral value)
    | .grouping inner => evaluate n inner
    | .unary operator right => do
      let value ← evaluate n right
      applyUnary operator value
    | .binary left operator right => do
      let a ← evaluate n left
      let b ← evaluate n right
      applyBinary operator a b
    | .logical left operator right => do
      let a ← evaluate n left
      if isDecided operator a then pure a else evaluate n right
    | .variable ref name => readRef ref name
    | .this ref keyword => readRef ref keyword
    | .assign ref name value => do
      let v ← evaluate n value
      writeRef ref name v
      pure v
    | .call callee paren arguments => do
      let c ← evaluate n callee
      let values ← evaluateAll n arguments
      invoke n c values paren
    | .get object name => do
      match ← evaluate n object with
      | .object id => property id name
      | _ => raise name .noProperties
    | .set object name value => do
      match ← evaluate n object with
      | .object id =>
        let v ← evaluate n value
        setField id name.lexeme v
        pure v
      | _ => raise name .noFields
    | .super ref keyword method => superMethod ref keyword method

/-- Evaluates expressions from left to right. -/
def evaluateAll : Nat → List Expr → Effect (List Value)
  | 0, _ => exhausted
  | _ + 1, [] => pure []
  | n + 1, e :: rest => do
    let first ← evaluate n e
    let others ← evaluateAll n rest
    pure (first :: others)

/-- Calls a value, if it can be called with these arguments and there is room for a call. -/
def invoke : Nat → Value → List Value → Token → Effect Value
  | 0, _, _, _ => exhausted
  | n + 1, value, arguments, paren =>
    match value with
    | .callable c => do
      if arguments.length ≠ c.arity then raise paren (.wrongArity c.arity arguments.length)
      else if ← isAtLimit then raise paren .stackOverflow
      else deeper (call n c arguments paren)
    | _ => raise paren .notCallable

/-- Calls a builtin, a function or a class. -/
def call : Nat → Callable → List Value → Token → Effect Value
  | 0, _, _, _ => exhausted
  | n + 1, c, arguments, paren =>
    match c with
    | .builtin _ b receiver => b.call receiver arguments paren
    | .function _ closure => do
      let frame ← addFrame (bindParameters closure.decl.params arguments)
      let flow ← within (frame :: closure.scope) (executeAll n closure.decl.body)
      closureResult closure flow
    | .cls c => do
      let id ← addInstance c
      match c.lookup? initializerName with
      | none => pure (.object id)
      | some method =>
        let initializer ← bindMethod method id
        let _ ← call n initializer arguments paren
        pure (.object id)

/-- Executes a statement. -/
def execute : Nat → Stmt → Effect Flow
  | 0, _ => exhausted
  | n + 1, s =>
    match s with
    | .expression e => do
      let _ ← evaluate n e
      pure .normal
    | .print e => do
      let value ← evaluate n e
      let line ← text value
      write (.printed line)
      pure .normal
    | .var name none => do
      define name.lexeme .nil
      pure .normal
    | .var name (some e) => do
      let value ← evaluate n e
      define name.lexeme value
      pure .normal
    | .block body => do
      let frame ← addFrame .empty
      let outer ← scope
      within (frame :: outer) (executeAll n body)
    | .ifThen condition thenBranch elseBranch => do
      let value ← evaluate n condition
      if value.isTruthy then execute n thenBranch
      else
        match elseBranch with
        | some s => execute n s
        | none => pure .normal
    | .whileLoop condition body => repeatWhile n condition body
    | .breakLoop _ => pure .broken
    | .returnValue _ none => pure (.returned .nil)
    | .returnValue _ (some e) => do
      let value ← evaluate n e
      pure (.returned value)
    | .function decl => do
      let stamp ← freshStamp
      let current ← scope
      define decl.name.lexeme (.callable (.function stamp ⟨decl, current, false⟩))
      pure .normal
    | .classDecl name none methods => do
      define name.lexeme .nil
      defineClass name none methods
      pure .normal
    | .classDecl name (some e) methods => do
      define name.lexeme .nil
      let value ← evaluate n e
      let parent ← expectClass (superclassToken e name) value
      defineClass name (some parent) methods
      pure .normal

/-- Executes statements in order, until one does not end normally. -/
def executeAll : Nat → List Stmt → Effect Flow
  | 0, _ => exhausted
  | _ + 1, [] => pure .normal
  | n + 1, s :: rest => do
    match ← execute n s with
    | .normal => executeAll n rest
    | flow => pure flow

/-- Executes a loop. -/
def repeatWhile : Nat → Expr → Stmt → Effect Flow
  | 0, _, _ => exhausted
  | n + 1, condition, body => do
    let value ← evaluate n condition
    if value.isTruthy then
      match ← execute n body with
      | .normal => repeatWhile n condition body
      | .broken => pure .normal
      | .returned v => pure (.returned v)
    else pure .normal

end

/-- **Runs a program**: its statements in order, each with the same fuel.  A `break` or `return`
that reaches the top level ends only the statement it is in. -/
def runProgram (fuel : Nat) : List Stmt → Effect Unit
  | [] => pure ()
  | s :: rest => do
    let _ ← execute fuel s
    runProgram fuel rest

end LoxLang
