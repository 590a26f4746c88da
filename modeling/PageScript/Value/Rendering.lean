import PageScript.Embedding.Store
import PageScript.Text.Decimal

/-!
# Values as text

* `Store.typeName` — the name of a value's type in messages;
* `Store.describe` — the name that an object goes by;
* `Store.text?` — a value as a script prints it;
* `Store.shown?` — a value as a listing shows it.

Both texts fail on a number that is too long to be written. They agree but for the absent value,
texts and functions.
-/

namespace PageScript

/-- The name of a value's type. -/
def Store.typeName (store : Store) : Value → String
  | .nothing => "NoneType"
  | .undefined => "_Undefined"
  | .number _ => "int"
  | .string _ => "str"
  | .boolean _ => "bool"
  | .function _ => "FunctionValue"
  | .object id => if (store.space id).isConsole then "Console" else "HostNamespace"
  | .bare => "HostObject"
  | .foreign .. => "Foreign"
  | .logger _ => "method"
  | .callable _ => "HostFn"

/-- The name that an object goes by: its own, if it has properties, or else that of its type. -/
def Store.describe (store : Store) : Value → String
  | .object id => (store.space id).name
  | value => store.typeName value

/-- An object with properties: its name and the names of its properties. -/
def Namespace.shown (space : Namespace) : String :=
  let properties := Text.listed (space.properties.names.map Text.quoted)
  s!"HostNamespace({Text.quoted space.name}, {properties})"

/-- A function as a listing shows it. -/
def Closure.shown (closure : Closure) : String :=
  let params := Text.grouped (closure.params.map fun param => (param.map Text.quoted).getD "None")
  s!"FunctionValue({Text.quoted closure.name}, params={params})"

/-- A value as a script prints it. -/
def Store.text? (store : Store) : Value → Option String
  | .nothing | .undefined => some "undefined"
  | .number value => Text.writeInteger? value
  | .string text => some text
  | .boolean value => some (if value then "True" else "False")
  | .function closure => some ("function " ++ closure.name ++ "() \x7b [code] \x7d")
  | .object id => some (store.space id).shown
  | .bare => some "HostObject"
  | .foreign name _ => some name
  | .logger id => some s!"<bound method Console.log of {(store.space id).shown}>"
  | .callable callable => some s!"[host {callable.kind}]"

/-- A value as a listing shows it. -/
def Store.shown? (store : Store) : Value → Option String
  | .nothing => some "None"
  | .string text => some (Text.quoted text)
  | .function closure => some closure.shown
  | value => store.text? value

/-- Several values as a script prints them, with spaces between. -/
def Store.line? (store : Store) (values : List Value) : Option String :=
  (values.mapM store.text?).map (" ".intercalate ·)

end PageScript
