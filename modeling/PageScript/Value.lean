import PageScript.Tree

/-!
# Values

What a script computes with.

* `Closure` — a function that a script has declared;
* `Callable` — a function of the embedding application, known by its kind and a key;
* `Value` — all values, the absent one included.

Numbers are integers of any size, since the embedding application may hand out any. Objects with
properties are referred to by their place in a store, so that all holders see every change.
-/

namespace PageScript

/-- A function that a script has declared. A parameter that could not be read has no name. -/
structure Closure where
  name : String
  params : List (Option String)
  body : Tree
deriving DecidableEq

/-- A function of the embedding application. -/
structure Callable where
  kind : String
  key : Nat
deriving DecidableEq

/-- A value. -/
inductive Value where
  /-- The absent value, which holes and statements give. -/
  | nothing
  | undefined
  | number (value : Int)
  | string (text : String)
  | boolean (value : Bool)
  | function (closure : Closure)
  /-- An object with properties, by its place in the store. -/
  | object (id : Nat)
  /-- An object without properties. -/
  | bare
  /-- An object that refuses every access, in the name of a file or of none. -/
  | foreign (name : String) (file : Option String)
  /-- The log function of a console, by the place of the console. -/
  | logger (id : Nat)
  | callable (callable : Callable)
deriving DecidableEq

namespace Value

/-- A value that can be bound or passed on: the absent one counts as undefined. -/
def orUndefined : Value → Value
  | nothing => undefined
  | value => value

/-- Whether a value is an object, which can be asked for properties. -/
def isObject : Value → Bool
  | object _ | bare | foreign .. => true
  | _ => false

/-- Whether a value counts as true. -/
def truthy : Value → Bool
  | nothing | undefined | number 0 | string "" | boolean false => false
  | _ => true

end Value

end PageScript
