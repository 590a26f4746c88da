import PageScript.HostFault
import PageScript.Token

/-!
# Failures

Everything that can stop a script, as causes, with the wording in one place.

* `LexicalCause` — the text holds something that is no token;
* `StructuralCause` — the tokens cannot form a program;
* `ExecutionCause` — the program does something it must not;
* `Failure` — a cause together with the place it names, or just a stage;
* `Fault` — a failure of the script or a fault of its host.

A message names the line if it is known and then the file if there is one (`located`).
-/

namespace PageScript

/-- Why a text cannot be cut into tokens. -/
inductive LexicalCause where
  /-- No token starts with this text. -/
  | unexpectedCharacter (text : String)
  /-- A quote is not closed on its line. -/
  | unterminatedString
deriving DecidableEq

/-- Why tokens cannot form a program. -/
inductive StructuralCause where
  /-- Another token, or the end of the input, stands where this punctuator has to. -/
  | expected (mark : String) (found : Option Token)
  /-- Expressions or function bodies nest too deeply. -/
  | nesting (limit : Int) (found : Option Token)
deriving DecidableEq

/-- Why a program cannot go on. -/
inductive ExecutionCause where
  | undefinedVariable (name : String)
  | undefinedFunction (name : String)
  /-- The callee is no function; the text describes it. -/
  | notCallable (callee : String)
  /-- The operator does not take values of these two types. -/
  | operandTypes (operator left right : String)
  | unknownOperation (operation : String)
  | invalidAssignment (target : String)
  | undefinedProperty (name owner : String)
  | readOnlyProperty (name owner : String)
  | stepLimit (limit : Int)
  | callDepth (limit : Int) (name : String)
  | evaluationDepth (limit : Int)
  /-- A host callable failed. -/
  | hostCall (callee : String) (fault : HostFault)
deriving DecidableEq

/-- The part of a script's way that a failure belongs to. -/
inductive Stage where
  | lexical
  | structural
  | execution
deriving DecidableEq

/-- What stops a script, and where. -/
inductive Failure where
  | lexical (cause : LexicalCause) (line : Option Int) (file : Option String)
  | structural (cause : StructuralCause) (file : Option String)
  | execution (cause : ExecutionCause) (file : Option String)
  /-- The embedding application says at most which stage has failed. -/
  | unspecified (stage : Option Stage)
deriving DecidableEq

/-- What stops the program that runs a script: a failure of the script or a fault of its host. -/
inductive Fault where
  | script (failure : Failure)
  | host (fault : HostFault)
deriving DecidableEq

/-! ### Wording -/

/-- A message with the place it speaks of. -/
def located (text : String) (line : Option Int) (file : Option String) : String :=
  text ++ (line.map fun n => s!" on line {n}").getD "" ++ (file.map (" in " ++ ·)).getD ""

namespace LexicalCause

/-- The name of the kind of failure. -/
def kind : LexicalCause → String
  | .unexpectedCharacter _ => "UnexpectedCharacterException"
  | .unterminatedString => "UnterminatedStringException"

/-- The message, without a place. -/
def text : LexicalCause → String
  | .unexpectedCharacter text => "Unexpected character " ++ Text.quoted text
  | .unterminatedString => "Unterminated string literal"

end LexicalCause

namespace StructuralCause

/-- The name of the kind of failure. -/
def kind : StructuralCause → String
  | .expected .. => "StructuralParseException"
  | .nesting .. => "NestingDepthException"

/-- The token that a failure stands at. There is none at the end of the input. -/
def found : StructuralCause → Option Token
  | .expected _ found => found
  | .nesting _ found => found

/-- The message, without a place. -/
def text : StructuralCause → String
  | .expected mark found =>
      let got := (found.map fun token => token.lexeme.shown).getD "end of input"
      s!"Expected {Text.quoted mark} but got {got}"
  | .nesting limit _ => s!"Nesting exceeds the limit of {limit} levels"

end StructuralCause

namespace ExecutionCause

/-- The name of the kind of failure. -/
def kind : ExecutionCause → String
  | .undefinedVariable _ => "UndefinedVariableException"
  | .undefinedFunction _ => "UndefinedFunctionException"
  | .notCallable _ => "NotCallableException"
  | .operandTypes .. => "OperandTypeException"
  | .unknownOperation _ => "UnknownOpException"
  | .invalidAssignment _ => "InvalidAssignmentException"
  | .undefinedProperty .. => "UndefinedPropertyException"
  | .readOnlyProperty .. => "ReadOnlyPropertyException"
  | .stepLimit _ => "StepLimitException"
  | .callDepth .. => "CallDepthException"
  | .evaluationDepth _ => "EvaluationDepthException"
  | .hostCall .. => "HostCallException"

/-- The message, without a place. -/
def text : ExecutionCause → String
  | .undefinedVariable name => s!"Undefined variable '{name}'"
  | .undefinedFunction name => s!"Undefined function '{name}'"
  | .notCallable callee => s!"Attempted to call non-function '{callee}'"
  | .operandTypes operator left right =>
      s!"Unsupported operand types for '{operator}': {left} and {right}"
  | .unknownOperation operation => s!"Unknown operation '{operation}'"
  | .invalidAssignment target => s!"Invalid assignment target '{target}'"
  | .undefinedProperty name owner => s!"'{owner}' has no property '{name}'"
  | .readOnlyProperty name owner => s!"Property '{name}' of '{owner}' is read-only"
  | .stepLimit limit => s!"Script exceeded the limit of {limit} evaluation steps"
  | .callDepth limit name => s!"Maximum call depth of {limit} exceeded calling '{name}'"
  | .evaluationDepth limit => s!"Evaluation nested deeper than {limit} levels"
  | .hostCall callee fault => s!"Call to '{callee}' failed: {fault.kind}: {fault.message}"

end ExecutionCause

/-- The name of a stage in messages. -/
def Stage.name : Stage → String
  | lexical => "LexError"
  | structural => "ParseError"
  | execution => "ScriptRuntimeError"

namespace Failure

/-- The stage that a failure belongs to, if it is known. -/
def stage : Failure → Option Stage
  | .lexical .. => some .lexical
  | .structural .. => some .structural
  | .execution .. => some .execution
  | .unspecified stage => stage

/-- The name of the kind of failure. -/
def kind : Failure → String
  | .lexical cause _ _ => cause.kind
  | .structural cause _ => cause.kind
  | .execution cause _ => cause.kind
  | .unspecified stage => (stage.map Stage.name).getD "ScriptException"

/-- The file that a failure names. -/
def file : Failure → Option String
  | .lexical _ _ file => file
  | .structural _ file => file
  | .execution _ file => file
  | .unspecified _ => none

/-- The message of a failure, with its place. -/
def message : Failure → String
  | .lexical cause line file => located cause.text line file
  | .structural cause file => located cause.text (cause.found.map (·.line)) file
  | .execution cause file => located cause.text none file
  | .unspecified _ => ""

/-- Kind and message on one line, as a prompt or a log shows them. -/
def headline (failure : Failure) : String :=
  s!"{failure.kind}: {failure.message}"

end Failure

end PageScript
