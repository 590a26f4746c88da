import PageScript.Grammar.Term

/-!
# Reading statements, functions and scripts

```text
script      := element*
element     := 'function' function | statement
statement   := ('var' declaration | 'return' assignment | assignment) ';'?
declaration := identifier ('=' assignment)?
function    := identifier '(' params ')' '{' element* '}'
params      := (identifier (',' identifier)*)?
```

The brackets of a function are the one thing that has to be there: without them the reading fails.
A declaration consumes the token behind its identifier, whatever it is.

* `bodyAt` — a function body, with a given number of levels left;
* `elementWith` — a function or a statement, over the assignment and the body that it nests;
* `script` — all elements up to the end of the input;
* `readScript` — the elements of a text.
-/

namespace PageScript.Grammar

open Reading

/-- The `=` and the value of a declaration. Any other token is consumed and gives no value. -/
def initializerWith (assignment : Reading Tree) : Reading Tree := do
  match ← advance with
  | some token => if token.isPunctuator "=" then assignment else return .hole
  | none => return .hole

/-- A declaration behind its keyword. It declares exactly one name. -/
def declarationWith (assignment : Reading Tree) : Reading Tree := do
  let target ← identifier
  let init ← initializerWith assignment
  return .declaration [.declarator target init]

/-- Consumes a semicolon, if one is ahead. -/
def skipSemicolon : Reading Unit := do
  if ← atPunctuator ";" then
    let _ ← advance

/-- A statement and the semicolon behind it. There is none at the end of the input, nor at a
keyword that starts no statement, which is not consumed. -/
def statementWith (assignment : Reading Tree) : Reading Tree := do
  match ← current with
  | none => return .hole
  | some ⟨.keyword "var", _⟩ =>
    let _ ← advance
    let tree ← declarationWith assignment
    skipSemicolon
    return tree
  | some ⟨.keyword "return", _⟩ =>
    let _ ← advance
    let argument ← assignment
    skipSemicolon
    return .returnStatement argument
  | some ⟨.keyword _, _⟩ =>
    skipSemicolon
    return .hole
  | some _ =>
    let expression ← assignment
    skipSemicolon
    return .expressionStatement expression

/-- The parameters of a function with both brackets. -/
def params : Reading (List Tree) := do
  let _ ← eat "("
  list ")" identifier

/-- A function behind its keyword. -/
def functionWith (body : Reading Tree) : Reading Tree := do
  let name ← identifier
  let parameters ← params
  let block ← body
  return .function name parameters block

/-- A function or a statement. There is none at the end of the input. -/
def elementWith (assignment body : Reading Tree) : Reading Tree := do
  match ← current with
  | none => return .hole
  | some token =>
    if token.isKeyword "function" then
      let _ ← advance
      functionWith body
    else statementWith assignment

/-- Elements up to the closing brace, which is consumed and must not be missing. Every round
consumes a token unless the reading has stalled. -/
def elementsUpToBrace (element : Reading Tree) : (rounds : Nat) → Reading (List Tree)
  | 0 => throw .stalled
  | rounds + 1 => do
    match ← current with
    | none => refuse (.expected "\x7d" none)
    | some token =>
      if token.isPunctuator "\x7d" then
        let _ ← advance
        return []
      else
        let first ← element
        let others ← elementsUpToBrace element rounds
        return first :: others

/-- A function body with both braces, over the elements that it nests. -/
def bodyWith (element : Reading Tree) : Reading Tree := do
  let _ ← eat "\x7b"
  let elements ← fun cursor => elementsUpToBrace element (cursor.pending.length + 1) cursor
  return .block elements

/-- A function body with the given number of levels left. -/
def bodyAt : (room : Nat) → Reading Tree
  | 0 => tooDeep
  | room + 1 => deeper (bodyWith (elementWith (assignmentAt room) (bodyAt room)))

/-- Elements up to the first one that is missing. -/
def elementsUpToHole (element : Reading Tree) : (rounds : Nat) → Reading (List Tree)
  | 0 => throw .stalled
  | rounds + 1 => do
    let first ← element
    if first.isHole then return []
    let others ← elementsUpToHole element rounds
    return first :: others

/-! ### At a cursor -/

/-- The `=` and the value of a declaration. -/
def initializer : Reading Tree := withRoom fun room => initializerWith (assignmentAt room)

/-- A declaration behind its keyword. -/
def declaration : Reading Tree := withRoom fun room => declarationWith (assignmentAt room)

/-- A statement and the semicolon behind it. -/
def statement : Reading Tree := withRoom fun room => statementWith (assignmentAt room)

/-- A function body with both braces. -/
def body : Reading Tree := withRoom bodyAt

/-- A function behind its keyword. -/
def function : Reading Tree := withRoom fun room => functionWith (bodyAt room)

/-- A function or a statement. -/
def element : Reading Tree :=
  withRoom fun room => elementWith (assignmentAt room) (bodyAt room)

/-- A whole script: its elements up to the end of the input. -/
def script : Reading (List Tree) := fun cursor =>
  elementsUpToHole element (cursor.pending.length + 1) cursor

/-- The elements that a stream of tokens reads as. -/
def readTokens (tokens : Scan) (file : Option String) : Except Stop (List Tree) :=
  match Cursor.start tokens file with
  | .error failure => .error (.failed failure)
  | .ok cursor =>
    match script cursor with
    | .ok body _ => .ok body
    | .error stop _ => .error stop

/-- The elements that a text reads as. -/
def readScript (source : String) (file : Option String) : Except Stop (List Tree) :=
  readTokens (scan source file) file

end PageScript.Grammar
