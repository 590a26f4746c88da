import PageScript.Evaluation.State
import PageScript.Tree.Rendering
import PageScript.Word

/-!
# One layer of evaluation

What each kind of tree does, when the evaluation of the trees inside it is given as `eval`. Nothing
here is recursive in the trees: whatever holds of `eval` and survives one layer holds at any depth.

* `hoist`, `declareFunction` — the declarations of a body, before it runs;
* `evalAdditive`, `evalAssignment`, `evalCall` — the operations;
* `readProperty`, `writeProperty` — access to the objects of the host;
* `callFunction` — a call of a function of the script;
* `perform` — what a host callable does;
* `layer` — the tree at hand.

Operands are evaluated from left to right. A hole has no value, and an operation on no value has
none itself, but its other operand is evaluated all the same.
-/

namespace PageScript.Evaluation

open Eval

/-- The name of a parameter. A hole has none. -/
def paramName : Tree → Option String
  | .identifier name => some name
  | _ => none

/-- Binds a function in the active frame. -/
def declareFunction (name : String) (params : List Tree) (body : Tree) : Eval Unit := do
  let closure : Closure := ⟨name, params.map paramName, body⟩
  modifyScope (·.declareFunction closure)
  let listing := ", ".intercalate (closure.params.map fun param => param.getD "None")
  note s!"Declared function {name}({listing})"

/-- Binds the functions that are declared directly in a body. -/
def hoist : List Tree → Eval Unit
  | [] => return ()
  | .function (.identifier name) params body :: rest => do
    declareFunction name params body
    hoist rest
  | _ :: rest => hoist rest

/-- What a name stands for. -/
def lookup (engine : Engine) (name : String) : Eval Value := do
  match (← get).scope.lookup? name with
  | some value => return value
  | none => fail engine (.undefinedVariable name)

/-- A value as a script prints it. -/
def textOf (value : Value) : Eval String := do
  match (← get).world.store.text? value with
  | some text => return text
  | none => failTooLong

/-- A tree as a message names it. -/
def describe (tree : Tree) : Eval String :=
  match tree.describe? with
  | some text => return text
  | none => failTooLong

/-! ### Properties -/

/-- Reads a property. An object that is refused in the name of no file is refused in the name of
the running script. -/
def readProperty (engine : Engine) (target : Value) (name : String) : Eval Value := do
  match (← get).world.store.read name target with
  | some (.ok value) => return value.orUndefined
  | some (.error refusal) =>
    throw (.failed (.script (refusal.inFile engine.file).failure))
  | none => fail engine (.undefinedProperty name (← textOf target))

/-- Writes a property, with the same refusals. -/
def writeProperty (engine : Engine) (target : Value) (name : String) (value : Value) :
    Eval Unit := do
  match (← get).world.store.write name value target with
  | some (.ok store) => modifyWorld ({ · with store })
  | some (.error refusal) =>
    throw (.failed (.script (refusal.inFile engine.file).failure))
  | none => fail engine (.invalidAssignment ((← textOf target) ++ "." ++ name))

/-! ### Operations -/

/-- The sum or difference of two values. Numbers wrap, and texts can be joined. -/
def combine (engine : Engine) (operator : Operator) (left right : Value) : Eval Value := do
  match operator, left, right with
  | .add, .number a, .number b => return .number (wrap (a + b))
  | .add, .string a, .string b => return .string (a ++ b)
  | .sub, .number a, .number b => return .number (wrap (a - b))
  | .add, _, _ | .sub, _, _ =>
    let store := (← get).world.store
    fail engine (.operandTypes operator.text (store.typeName left) (store.typeName right))
  | _, _, _ => fail engine (.unknownOperation operator.text)

section

variable (engine : Engine) (eval : Tree → Eval Value)

/-- Evaluates trees for their effects. -/
def evalSequence : List Tree → Eval Unit
  | [] => return ()
  | tree :: rest => do
    let _ ← eval tree
    evalSequence rest

/-- Evaluates the arguments of a call. -/
def evalArguments : List Tree → Eval (List Value)
  | [] => return []
  | tree :: rest => do
    let value ← eval tree
    let values ← evalArguments rest
    return value.orUndefined :: values

/-- An addition or a subtraction. -/
def evalAdditive (operator : Operator) (left right : Tree) : Eval Value := do
  let lhs ← eval left
  let rhs ← eval right
  if lhs = .nothing ∨ rhs = .nothing then return .nothing
  combine engine operator lhs rhs

/-- An assignment. Its value is the value assigned. -/
def evalAssignment (left right : Tree) : Eval Value := do
  match left with
  | .member object property =>
    let target ← eval object
    let value ← eval right
    if target = .nothing ∨ value = .nothing then return .nothing
    match property with
    | .identifier name =>
      writeProperty engine target name value
      return value
    | _ => return .nothing
  | _ =>
    let value ← eval right
    if value = .nothing then return .nothing
    match left with
    | .hole => return .nothing
    | .identifier name =>
      modifyScope (·.assign name value)
      return value
    | _ => fail engine (.invalidAssignment (← describe left))

/-! ### Calls -/

/-- A frame with the parameters of a call. Missing arguments are undefined, arguments in excess are
dropped, and of parameters of one name the last one counts. -/
def bindParams : List (Option String) → List Value → Frame → Frame
  | [], _, frame => frame
  | none :: params, values, frame => bindParams params values.tail frame
  | some name :: params, values, frame =>
    bindParams params values.tail (frame.declare name (values.headD .undefined))

/-- Calls a function of the script, in a frame of its own above the global one. -/
def callFunction (closure : Closure) (values : List Value) : Eval Value := do
  if engine.limits.maxCallDepth ≤ (← get).callDepth then
    fail engine (.callDepth engine.limits.maxCallDepth closure.name)
  note s!"Calling {closure.name} with {values.length} argument(s)"
  inCall (bindParams closure.params values .vacant) (returning (eval closure.body))

/-- Carries out what a host callable does. -/
def perform (call : Closure → List Value → Eval Value) : Act → Eval Value
  | .done value => return value
  | .fail fault => throw (.failed fault)
  | .look next => do perform call (next (← get).world)
  | .print text next => do
    modifyWorld (·.print text)
    perform call next
  | .record name values next => do
    modifyWorld (·.record name values)
    perform call next
  | .build blueprint next => do
    let (value, store) := blueprint.build (← get).world.store
    modifyWorld ({ · with store })
    perform call (next value)
  | .put id name value next => do
    modifyWorld fun world => { world with store := world.store.put id name value }
    perform call next
  | .invoke closure values next => do
    perform call (next (← attempt (call closure values)))

/-- What a callable value does with its arguments. Other values do nothing that way. -/
def actOf? : Value → List Value → Option Act
  | .logger _, values => some (.log values)
  | .callable callable, values => some (engine.host callable values)
  | _, _ => none

/-- Calls a host callable. A fault of the host becomes a failure of the call unless it is fatal, and
a failure of the script passes through as it is. -/
def callHost (callee : Tree) (act : Act) : Eval Value := do
  match ← attempt (perform (callFunction engine eval) act) with
  | .ok value => return value.orUndefined
  | .error (.script failure) => throw (.failed (.script failure))
  | .error (.host fault) =>
    if fault.isFatal then throw (.failed (.host fault))
    else fail engine (.hostCall (← describe callee) fault)

/-- What is called. A name that is not bound is an unknown function rather than an unknown
variable. -/
def resolveCallee (callee : Tree) : Eval Value := do
  match callee with
  | .identifier name =>
    match (← get).scope.lookup? name with
    | some value => return value
    | none => fail engine (.undefinedFunction name)
  | _ => eval callee

/-- A call. The callee comes first, then the arguments, then the call itself. -/
def evalCall (callee : Tree) (arguments : List Tree) : Eval Value := do
  if callee.isHole then return .nothing
  let function ← resolveCallee engine eval callee
  if function = .nothing then return .nothing
  let values ← evalArguments eval arguments
  match function with
  | .function closure => callFunction engine eval closure values
  | _ =>
    match actOf? engine function values with
    | some act => callHost engine eval callee act
    | none => fail engine (.notCallable (← describe callee))

/-! ### Trees -/

/-- What a tree does, given what the trees inside it do. -/
def layer : Tree → Eval Value
  | .hole => return .nothing
  | .number value => return .number (wrap value)
  | .string text => return .string text
  | .identifier name => lookup engine name
  | .expressionStatement expression => eval expression
  | .additive operator left right => evalAdditive engine eval operator left right
  | .assignment _ left right => evalAssignment engine eval left right
  | .member object property => do
    let target ← eval object
    if target = .nothing then return .nothing
    match property with
    | .identifier name => readProperty engine target name
    | _ => return .nothing
  | .declaration declarators => do
    evalSequence eval declarators
    return .nothing
  | .declarator target init => do
    let value ← eval init
    match target with
    | .identifier name =>
      modifyScope (·.declare name value.orUndefined)
      return .nothing
    | _ => return .nothing
  | .block body => do
    hoist body
    evalSequence eval body
    return .nothing
  | .returnStatement argument => do
    let value ← eval argument
    throw (.returned value.orUndefined)
  | .function (.identifier name) params body => do
    if !(← get).scope.active.functions.contains name then
      declareFunction name params body
    return .nothing
  | .function _ _ _ => return .nothing
  | .call callee arguments => evalCall engine eval callee arguments
  | .program _ => fail engine (.unknownOperation "Program")

end

end PageScript.Evaluation
