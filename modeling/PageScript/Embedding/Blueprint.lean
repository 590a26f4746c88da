import PageScript.Embedding.Store

/-!
# Blueprints of values

A blueprint describes a value that is built anew each time it is asked for, so that no two of the
built values share an object.

* `Blueprint` — the description: a plain value, a namespace of described properties, a console;
* `Blueprint.build` — the value and the store that holds its objects;
* `Blueprint.buildNamed` — several values under their names, in order.
-/

namespace PageScript

/-- The description of a value. -/
inductive Blueprint where
  /-- A value that needs no place in a store. -/
  | plain (value : Value)
  | space (name : String) (properties : List (String × Blueprint)) (writable : Bool)
  | console
deriving Inhabited

namespace Blueprint

mutual

/-- Builds a value, its properties first. -/
def build : Blueprint → Store → Value × Store
  | plain value, store => (value, store)
  | console, store =>
    let (id, store) := store.addConsole
    (.object id, store)
  | space name properties writable, store =>
    let (values, store) := buildNamed properties store
    let (id, store) := store.add ⟨name, .ofList values, writable, false⟩
    (.object id, store)

/-- Builds several values under their names. -/
def buildNamed : List (String × Blueprint) → Store → List (String × Value) × Store
  | [], store => ([], store)
  | (name, blueprint) :: rest, store =>
    let (value, store) := build blueprint store
    let (values, store) := buildNamed rest store
    ((name, value) :: values, store)

end

/-- Builds several values in order. -/
def buildAll : List Blueprint → Store → List Value × Store
  | [], store => ([], store)
  | blueprint :: rest, store =>
    let (value, store) := build blueprint store
    let (values, store) := buildAll rest store
    (value :: values, store)

end Blueprint

end PageScript
