import PageScript.Embedding.Store

/-!
# What a script can change outside itself

* `World` — the objects of the embedding application, what has been printed, and the calls that
  recording functions have taken down;
* `World.print`, `World.record` — one more line, one more call.
-/

namespace PageScript

/-- The outside of a script. -/
structure World where
  store : Store
  /-- The printed lines, each with its end. -/
  output : Array String
  /-- The recorded calls: a name and the arguments. -/
  calls : Array (String × List Value)
deriving DecidableEq

namespace World

/-- A world with the given objects, in which nothing has happened. -/
def ofStore (store : Store) : World := ⟨store, #[], #[]⟩

/-- Prints a line. -/
def print (world : World) (text : String) : World :=
  { world with output := world.output.push (text ++ "\n") }

/-- Takes down a call. -/
def record (world : World) (name : String) (arguments : List Value) : World :=
  { world with calls := world.calls.push (name, arguments) }

/-- All that has been printed. -/
def printed (world : World) : String :=
  String.join world.output.toList

end World

end PageScript
