import PageScript.Embedding.Act

/-!
# Ready-made callables

A small stock of host functions for trying scripts out.

* `Stock` — the functions on offer;
* `Stock.act` — what each does with its arguments;
* `Stock.identity_act`, `Stock.invoke_act` — the arguments that they take;
* `Host.ofStock` — the host whose callables are the entries of a table.
-/

namespace PageScript

/-- A ready-made host function. -/
inductive Stock where
  /-- Takes down its arguments under a name and returns their number. -/
  | record (name : String)
  /-- Returns a value, built anew for each call. -/
  | const (blueprint : Blueprint)
  /-- Returns its only argument. -/
  | identity
  /-- Returns its last argument. -/
  | last
  /-- Raises a fault. -/
  | raise (fault : Fault)
  /-- Calls its first argument, a function of the script, with the others. -/
  | invoke

namespace Stock

/-- The fault of calling a function with the wrong arguments. -/
def typeFault (message : String) : Fault :=
  .host ⟨"TypeError", message⟩

/-- What a ready-made function does with its arguments. -/
def act : Stock → List Value → Act
  | record name, arguments => .record name arguments (.done (.number arguments.length))
  | const blueprint, _ => .build blueprint .done
  | identity, [value] => .done value
  | identity, [] => .fail (typeFault "identity() missing 1 required positional argument: 'x'")
  | identity, arguments =>
    .fail (typeFault
      s!"identity() takes 1 positional argument but {arguments.length} were given")
  | last, arguments => .done (arguments.getLast?.getD .nothing)
  | raise fault, _ => .fail fault
  | invoke, .function closure :: arguments =>
    .invoke closure arguments fun
      | .ok value => .done value
      | .error fault => .fail fault
  | invoke, _ => .fail (typeFault "invoke needs a function")

/-- Called with anything but one argument, the identity fails. -/
theorem identity_act (arguments : List Value) :
    (∃ value, arguments = [value]) ∨ ∃ message, identity.act arguments = .fail (typeFault message) := by
  match arguments with
  | [] => exact .inr ⟨_, rfl⟩
  | [value] => exact .inl ⟨value, rfl⟩
  | _ :: _ :: _ => exact .inr ⟨_, rfl⟩

/-- Called with anything but a function of the script first, `invoke` fails. -/
theorem invoke_act (arguments : List Value) :
    (∃ closure rest, arguments = .function closure :: rest) ∨
      ∃ message, invoke.act arguments = .fail (typeFault message) := by
  match arguments with
  | .function closure :: rest => exact .inl ⟨closure, rest, rfl⟩
  | [] => exact .inr ⟨_, rfl⟩
  | .nothing :: _ | .undefined :: _ | .number _ :: _ | .string _ :: _ | .boolean _ :: _
  | .object _ :: _ | .bare :: _ | .foreign _ _ :: _ | .logger _ :: _ | .callable _ :: _ =>
    exact .inr ⟨_, rfl⟩

end Stock

/-- The host whose callables are the entries of a table, by key. -/
def Host.ofStock (table : Array Stock) : Host := fun callable arguments =>
  match table[callable.key]? with
  | some entry => entry.act arguments
  | none => .done .nothing

end PageScript
