import PageScript.Text.Decimal
import PageScript.Text.Quoted
import PageScript.Tree

/-!
# Trees as text

* `Tree.describe?` — a tree as a message names it, close to the script it stands for;
* `Tree.shown` — a tree as a listing shows it, with every kind and field.

A description is short: it leaves out the bodies of functions and gives only the kind of a tree
that is no expression. It fails on a number that is too long to be written.
-/

namespace PageScript

/-- An operator as a listing shows it. -/
def Operator.shown : Operator → String
  | .add => "<Op.ADD: '+'>"
  | .sub => "<Op.SUB: '-'>"
  | .assign => "<Op.ASSIGN: '='>"
  | .other text => Text.quoted text
  | .missing => "None"

namespace Tree

mutual

/-- A tree as a message names it. -/
def describe? : Tree → Option String
  | hole => some "<missing>"
  | identifier name => some name
  | number value => Text.writeInteger? value
  | string text => some ("\"" ++ text ++ "\"")
  | member object property => do
      let owner ← describe? object
      let name ← describe? property
      return s!"{owner}.{name}"
  | call callee arguments => do
      let function ← describe? callee
      let items ← describeAll? arguments
      let listing := ", ".intercalate items
      return s!"{function}({listing})"
  | additive operator left right => do
      let lhs ← describe? left
      let rhs ← describe? right
      return s!"({lhs} {operator.text} {rhs})"
  | assignment _ left right => do
      let lhs ← describe? left
      let rhs ← describe? right
      return s!"{lhs} = {rhs}"
  | function name _ _ => do
      let name ← describe? name
      return s!"function {name}"
  | expressionStatement _ => some "<ExpressionStatement>"
  | declarator .. => some "<VariableDeclarator>"
  | declaration _ => some "<VariableDeclaration>"
  | block _ => some "<BlockStatement>"
  | returnStatement _ => some "<ReturnStatement>"
  | program _ => some "<Program>"

/-- Several trees as a message names them. -/
def describeAll? : List Tree → Option (List String)
  | [] => some []
  | tree :: trees => do
      let item ← describe? tree
      let items ← describeAll? trees
      return item :: items

end

mutual

/-- A tree as a listing shows it. -/
def shown : Tree → String
  | hole => "None"
  | expressionStatement expression => s!"ExpressionStatement(expression={shown expression})"
  | additive operator left right =>
      s!"AdditiveExpression(operator={operator.shown}, left={shown left}, right={shown right})"
  | assignment operator left right =>
      s!"AssignmentExpression(operator={operator.shown}, left={shown left}, right={shown right})"
  | member object property =>
      s!"MemberExpression(object={shown object}, property={shown property})"
  | number value => s!"NumericLiteral(value={value})"
  | string text => s!"StringLiteral(value={Text.quoted text})"
  | identifier name => s!"Identifier(name={Text.quoted name})"
  | declarator target init => s!"VariableDeclarator(id={shown target}, init={shown init})"
  | declaration declarators =>
      s!"VariableDeclaration(declarations={Text.grouped (shownAll declarators)})"
  | block body => s!"BlockStatement(body={Text.grouped (shownAll body)})"
  | returnStatement argument => s!"ReturnStatement(argument={shown argument})"
  | function name params body =>
      s!"FunctionDeclaration(id={shown name}, params={Text.grouped (shownAll params)}, " ++
        s!"body={shown body})"
  | call callee arguments =>
      s!"CallExpression(callee={shown callee}, arguments={Text.grouped (shownAll arguments)})"
  | program body => s!"Program(body={Text.grouped (shownAll body)})"

/-- Several trees as a listing shows them. -/
def shownAll : List Tree → List String
  | [] => []
  | tree :: trees => shown tree :: shownAll trees

end

end Tree

end PageScript
