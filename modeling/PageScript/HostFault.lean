import PageScript.Text.Quoted

/-!
# Faults of the host

An error of the embedding application is no failure of the script: it has a kind and a message of
its own.

* `HostFault` — the kind and the message;
* `HostFault.make` — the fault of a named kind with a given text;
* `HostFault.isFatal` — whether a fault gets past the call of the function that raises it;
* `HostFault.numberTooLong`, `HostFault.noMember` — two faults that have a wording of their own.
-/

namespace PageScript

/-- An error raised by the embedding application. -/
structure HostFault where
  kind : String
  message : String
deriving DecidableEq

namespace HostFault

/-- The kinds of fault that have a second name, by that name. -/
def synonyms : List (String × String) :=
  [("IOError", "OSError"), ("EnvironmentError", "OSError")]

/-- The kinds of fault that need more than a text, and what making one from a text alone says. -/
def composite : List (String × String) :=
  [("UnicodeDecodeError", "function takes exactly 5 arguments (1 given)"),
    ("UnicodeEncodeError", "function takes exactly 5 arguments (1 given)"),
    ("UnicodeTranslateError", "function takes exactly 4 arguments (1 given)"),
    ("ExceptionGroup", "BaseExceptionGroup.__new__() takes exactly 2 arguments (1 given)"),
    ("BaseExceptionGroup", "BaseExceptionGroup.__new__() takes exactly 2 arguments (1 given)")]

/-- The fault of a named kind with a given text. A failed look-up gives its text in quotes. A kind
that needs more than a text cannot be made, which is a fault itself. -/
def make (name text : String) : Except HostFault HostFault :=
  match composite.lookup name with
  | some message => .error ⟨"TypeError", message⟩
  | none =>
    .ok ⟨(synonyms.lookup name).getD name, if name = "KeyError" then Text.quoted text else text⟩

/-- The kinds of fault that end the whole program. -/
def fatalKinds : List String :=
  ["BaseException", "GeneratorExit", "KeyboardInterrupt", "SystemExit"]

/-- Whether a fault gets past the call of the function that raises it. -/
def isFatal (fault : HostFault) : Bool :=
  fatalKinds.contains fault.kind

/-- The fault of writing down an integer of more than `Text.digitLimit` digits. -/
def numberTooLong : HostFault where
  kind := "ValueError"
  message := "Exceeds the limit (4300 digits) for integer string conversion; " ++
    "use sys.set_int_max_str_digits() to increase the limit"

/-- The fault of asking a value of a given type for something that its type does not offer. -/
def noMember (type member : String) : HostFault where
  kind := "AttributeError"
  message := s!"'{type}' object has no attribute '{member}'"

end HostFault

end PageScript
