import PageScript.Failure
import PageScript.Scope.Frame

/-!
# Objects of the embedding application

The objects that a script can reach, and how it reads and writes their properties.

* `Namespace` — an object with named properties;
* `Store` — all such objects, each at a place of its own;
* `Store.read`, `Store.write` — access to a property of any value;
* `Refusal` — why an object does not grant an access.

An object without properties refuses every access, and a foreign one refuses it in the name of a
file of its own. A console is a read-only namespace with a log function.
-/

namespace PageScript

/-- An object with named properties. -/
structure Namespace where
  name : String
  properties : Bindings Value
  writable : Bool
  isConsole : Bool
deriving DecidableEq

/-- What stands at a place that is not in use: a nameless object without properties. -/
def Namespace.vacant : Namespace := ⟨"", .empty, false, false⟩

/-- The console at a place of the store. -/
def Namespace.console (id : Nat) : Namespace where
  name := "console"
  properties := .ofList [("log", .logger id)]
  writable := false
  isConsole := true

/-- Objects by place. -/
structure Store where
  spaces : Array Namespace
deriving DecidableEq

/-- Why an object does not grant an access, and the file in whose name, if there is one. -/
structure Refusal where
  cause : ExecutionCause
  file : Option String
deriving DecidableEq

/-- The failure of a refused access. -/
def Refusal.failure (refusal : Refusal) : Failure :=
  .execution refusal.cause refusal.file

/-- A refusal in the name of `file`, unless it has a file already. -/
def Refusal.inFile (refusal : Refusal) (file : Option String) : Refusal :=
  { refusal with file := refusal.file.or file }

namespace Store

/-- No objects. -/
def empty : Store := ⟨#[]⟩

/-- The object at a place. -/
def space (store : Store) (id : Nat) : Namespace :=
  store.spaces.getD id .vacant

/-- Whether a value is a console. -/
def isConsole (store : Store) : Value → Bool
  | .object id => (store.space id).isConsole
  | _ => false

/-- A new object at a new place. -/
def add (store : Store) (space : Namespace) : Nat × Store :=
  (store.spaces.size, ⟨store.spaces.push space⟩)

/-- A new console at a new place. -/
def addConsole (store : Store) : Nat × Store :=
  store.add (.console store.spaces.size)

/-- Gives a property of an object a value, whether or not the object is writable. -/
def put (store : Store) (id : Nat) (name : String) (value : Value) : Store :=
  ⟨store.spaces.modify id fun space =>
    { space with properties := space.properties.insert name value }⟩

/-- Reads a property. There is no answer for a value that is no object. -/
def read (store : Store) (name : String) : Value → Option (Except Refusal Value)
  | .object id =>
    let space := store.space id
    match space.properties.get? name with
    | some value => some (.ok value)
    | none => some (.error ⟨.undefinedProperty name space.name, none⟩)
  | .bare => some (.error ⟨.undefinedProperty name "HostObject", none⟩)
  | .foreign owner file => some (.error ⟨.undefinedProperty name owner, file⟩)
  | _ => none

/-- Writes a property. There is no answer for a value that is no object. -/
def write (store : Store) (name : String) (value : Value) :
    Value → Option (Except Refusal Store)
  | .object id =>
    let space := store.space id
    if space.writable then some (.ok (store.put id name value))
    else some (.error ⟨.readOnlyProperty name space.name, none⟩)
  | .bare => some (.error ⟨.readOnlyProperty name "HostObject", none⟩)
  | .foreign owner file => some (.error ⟨.readOnlyProperty name owner, file⟩)
  | _ => none

end Store

end PageScript
