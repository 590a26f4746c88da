import PageScript.Embedding.Blueprint
import PageScript.Embedding.World
import PageScript.Value.Rendering

/-!
# What a host callable does

The functions of the embedding application act on the outside of a script and may call back into
the script. What such a function does with its arguments is an `Act`: a tree of single steps, whose
branches are the answers that the steps may get.

* `Act` — the steps: looking, printing, recording, building, writing, calling back, and the two ends;
* `Host` — the act of every callable on every list of arguments;
* `Act.log` — the act of a console's log function.

An act has only finitely many steps on each branch, so every callable comes to an end. It reaches
the running script by calling its functions and in no other way.
-/

namespace PageScript

/-- What a callable does, step by step. -/
inductive Act where
  /-- Ends with a value. -/
  | done (value : Value)
  /-- Ends with a fault. -/
  | fail (fault : Fault)
  /-- Looks at the world, which stays as it is. -/
  | look (next : World → Act)
  /-- Prints a line. -/
  | print (text : String) (next : Act)
  /-- Takes down a call. -/
  | record (name : String) (arguments : List Value) (next : Act)
  /-- Builds a value from its description. -/
  | build (blueprint : Blueprint) (next : Value → Act)
  /-- Gives a property of an object a value, even a property of a read-only object. -/
  | put (id : Nat) (name : String) (value : Value) (next : Act)
  /-- Calls a function of the script and goes on with its value or its fault. -/
  | invoke (closure : Closure) (arguments : List Value) (next : Except Fault Value → Act)

/-- The embedding application: what its callables do. -/
abbrev Host := Callable → List Value → Act

/-- The host whose callables do nothing. -/
def Host.idle : Host := fun _ _ => .done .nothing

/-- Prints the arguments on one line, as scripts see them. -/
def Act.log (arguments : List Value) : Act :=
  .look fun world =>
    match world.store.line? arguments with
    | some text => .print text (.done .nothing)
    | none => .fail (.host .numberTooLong)

end PageScript
