import PageScript.Token.Cursor
import PageScript.Tree

/-!
# Reading expressions

```text
assignment := additive ('=' assignment)?
additive   := callee (('+' | '-') assignment)?
callee     := member ('(' arguments ')')?
member     := primary ('.' identifier)?
primary    := identifier | string | number
arguments  := (assignment (',' assignment)*)?
```

All three operators group to the right, for the right operand is always a whole assignment. A
token that cannot start an expression is consumed and leaves a hole, so an expression never fails
on its own account: only the tokens can, or the nesting.

* `assignmentAt` — an assignment, with a given number of levels left;
* `additiveWith`, `calleeWith`, `argumentsWith` — the other productions, over the assignment that
  they nest;
* `listUpTo` — the one loop, which ends at its bracket, at the end of the input, or stalled.
-/

namespace PageScript.Grammar

open Reading

/-- The number of levels that expressions and function bodies may nest to. -/
def maxNesting : Nat := 64

/-- Stops because one more level is one too many. -/
def tooDeep {α : Type} : Reading α := do
  refuse (.nesting maxNesting (← current))

/-- An identifier. Anything else is consumed too and leaves a hole. -/
def identifier : Reading Tree := do
  match ← advance with
  | some ⟨.identifier name, _⟩ => return .identifier name
  | _ => return .hole

/-- An identifier, a text or a number. Anything else is consumed too and leaves a hole. -/
def primary : Reading Tree := do
  match ← advance with
  | some ⟨.identifier name, _⟩ => return .identifier name
  | some ⟨.string text, _⟩ => return .string text
  | some ⟨.number value, _⟩ => return .number value
  | _ => return .hole

/-- A primary expression, or one property of it. -/
def member : Reading Tree := do
  let object ← primary
  if ← atPunctuator "." then
    let _ ← advance
    let property ← identifier
    return .member object property
  return object

/-- Items up to the closing bracket, which is consumed. Commas are skipped wherever they stand,
and the end of the input ends the list as well. Every round consumes a token, so more rounds than
there are tokens mean that the reading has stalled. -/
def listUpTo (close : String) (item : Reading Tree) : (rounds : Nat) → Reading (List Tree)
  | 0 => throw .stalled
  | rounds + 1 => do
    match ← current with
    | none => return []
    | some token =>
      if token.isPunctuator close then
        let _ ← advance
        return []
      else if token.isPunctuator "," then
        let _ ← advance
        listUpTo close item rounds
      else
        let first ← item
        let others ← listUpTo close item rounds
        return first :: others

/-- Items up to the closing bracket, with rounds enough for the tokens that are left. -/
def list (close : String) (item : Reading Tree) : Reading (List Tree) := fun cursor =>
  listUpTo close item (cursor.pending.length + 1) cursor

/-- The arguments of a call, behind the opening bracket. -/
def argumentsWith (assignment : Reading Tree) : Reading (List Tree) :=
  list ")" assignment

/-- A member expression, or a call of one. -/
def calleeWith (assignment : Reading Tree) : Reading Tree := do
  let callee ← member
  if ← atPunctuator "(" then
    let _ ← advance
    let arguments ← argumentsWith assignment
    return .call callee arguments
  return callee

/-- The operator that a token stands for between two operands. -/
def additiveOperator? (token : Token) : Option Operator :=
  if token.isPunctuator "+" then some .add
  else if token.isPunctuator "-" then some .sub
  else none

/-- An addition or a subtraction, or just its left operand. -/
def additiveWith (assignment : Reading Tree) : Reading Tree := do
  let left ← calleeWith assignment
  match (← current).bind additiveOperator? with
  | some operator =>
    let _ ← advance
    let right ← assignment
    return .additive operator left right
  | none => return left

/-- An assignment, or just its left side. -/
def assignmentWith (assignment : Reading Tree) : Reading Tree := do
  let left ← additiveWith assignment
  if ← atPunctuator "=" then
    let _ ← advance
    let right ← assignment
    return .assignment .assign left right
  return left

/-- An assignment with the given number of levels left. -/
def assignmentAt : (room : Nat) → Reading Tree
  | 0 => tooDeep
  | room + 1 => deeper (assignmentWith (assignmentAt room))

/-- A production, with the levels left at the cursor. -/
def withRoom {α : Type} (production : (room : Nat) → Reading α) : Reading α := fun cursor =>
  production (maxNesting - cursor.depth) cursor

/-! ### At a cursor -/

/-- An assignment expression. -/
def assignment : Reading Tree := withRoom assignmentAt

/-- An addition, a subtraction, or a single operand. -/
def additive : Reading Tree := withRoom fun room => additiveWith (assignmentAt room)

/-- A member expression, or a call of one. -/
def callee : Reading Tree := withRoom fun room => calleeWith (assignmentAt room)

/-- The arguments of a call, behind the opening bracket. -/
def arguments : Reading (List Tree) := withRoom fun room => argumentsWith (assignmentAt room)

end PageScript.Grammar
