/-!
# Programs as trees

What a script says, once it has been read.

* `Operator` — the operators, with room for texts that are none;
* `Tree` — expressions, statements, functions and whole programs;
* `Tree.same`, `Tree.same_iff` — structural equality, decided;
* `Tree.kind` — the name of a tree's kind;
* `Tree.element` — a tree of a body by its place, counted from either end.

A child that could not be read is a `hole`. The types also hold trees that no script reads as, so
that programs built by hand can be run too.
-/

namespace PageScript

/-- An operator as a tree names it. -/
inductive Operator where
  | add
  | sub
  | assign
  /-- A text that names no operation. -/
  | other (text : String)
  | missing
deriving DecidableEq

/-- The spelling of an operator. -/
def Operator.text : Operator → String
  | .add => "+"
  | .sub => "-"
  | .assign => "="
  | .other text => text
  | .missing => "None"

/-- A program or a part of one. -/
inductive Tree where
  /-- What could not be read. -/
  | hole
  | expressionStatement (expression : Tree)
  | additive (operator : Operator) (left right : Tree)
  | assignment (operator : Operator) (left right : Tree)
  | member (object property : Tree)
  | number (value : Int)
  | string (text : String)
  | identifier (name : String)
  | declarator (target init : Tree)
  | declaration (declarators : List Tree)
  | block (body : List Tree)
  | returnStatement (argument : Tree)
  | function (name : Tree) (params : List Tree) (body : Tree)
  | call (callee : Tree) (arguments : List Tree)
  | program (body : List Tree)
deriving Inhabited

namespace Tree

/-- The name of a tree's kind. -/
def kind : Tree → String
  | hole => "NoneType"
  | expressionStatement _ => "ExpressionStatement"
  | additive .. => "AdditiveExpression"
  | assignment .. => "AssignmentExpression"
  | member .. => "MemberExpression"
  | number _ => "NumericLiteral"
  | string _ => "StringLiteral"
  | identifier _ => "Identifier"
  | declarator .. => "VariableDeclarator"
  | declaration _ => "VariableDeclaration"
  | block _ => "BlockStatement"
  | returnStatement _ => "ReturnStatement"
  | function .. => "FunctionDeclaration"
  | call .. => "CallExpression"
  | program _ => "Program"

/-- Whether a tree is a hole. -/
def isHole : Tree → Bool
  | hole => true
  | _ => false

/-! ### Places -/

/-- Why there is no tree at a place. -/
inductive PlaceError where
  | outOfRange
  /-- The place does not fit into a signed word of 64 bits. -/
  | tooLarge
deriving DecidableEq

/-- The name of the kind of error. -/
def PlaceError.kind (_ : PlaceError) : String := "IndexError"

/-- The message of an error. -/
def PlaceError.message : PlaceError → String
  | outOfRange => "tuple index out of range"
  | tooLarge => "cannot fit 'int' into an index-sized integer"

/-- The tree at a place of a body. A negative place counts from the end. -/
def element (body : List Tree) (place : Int) : Except PlaceError Tree :=
  if place < -9223372036854775808 ∨ 9223372036854775807 < place then .error .tooLarge
  else
    let place := if place < 0 then place + body.length else place
    if place < 0 then .error .outOfRange
    else match body[place.toNat]? with
      | some tree => .ok tree
      | none => .error .outOfRange

/-! ### Equality -/

mutual

/-- Whether two trees are built alike. -/
def same : Tree → Tree → Bool
  | hole, hole => true
  | expressionStatement a, expressionStatement b => same a b
  | additive o a b, additive p c d => decide (o = p) && same a c && same b d
  | assignment o a b, assignment p c d => decide (o = p) && same a c && same b d
  | member a b, member c d => same a c && same b d
  | number a, number b => decide (a = b)
  | string a, string b => decide (a = b)
  | identifier a, identifier b => decide (a = b)
  | declarator a b, declarator c d => same a c && same b d
  | declaration as, declaration bs => sameAll as bs
  | block as, block bs => sameAll as bs
  | returnStatement a, returnStatement b => same a b
  | function a as b, function c bs d => same a c && sameAll as bs && same b d
  | call a as, call b bs => same a b && sameAll as bs
  | program as, program bs => sameAll as bs
  | _, _ => false

/-- Whether two lists of trees are built alike. -/
def sameAll : List Tree → List Tree → Bool
  | [], [] => true
  | a :: as, b :: bs => same a b && sameAll as bs
  | _, _ => false

end

mutual

theorem same_self : (tree : Tree) → same tree tree = true
  | hole => rfl
  | expressionStatement a => by simp only [same, same_self a]
  | additive _ a b => by simp [same, same_self a, same_self b]
  | assignment _ a b => by simp [same, same_self a, same_self b]
  | member a b => by simp [same, same_self a, same_self b]
  | number _ => by simp [same]
  | string _ => by simp [same]
  | identifier _ => by simp [same]
  | declarator a b => by simp [same, same_self a, same_self b]
  | declaration as => by simp only [same, sameAll_self as]
  | block as => by simp only [same, sameAll_self as]
  | returnStatement a => by simp only [same, same_self a]
  | function a as b => by simp [same, same_self a, sameAll_self as, same_self b]
  | call a as => by simp [same, same_self a, sameAll_self as]
  | program as => by simp only [same, sameAll_self as]

theorem sameAll_self : (trees : List Tree) → sameAll trees trees = true
  | [] => rfl
  | a :: as => by simp [sameAll, same_self a, sameAll_self as]

end

mutual

theorem eq_of_same : {a b : Tree} → same a b = true → a = b
  | hole, tree, h => by cases tree <;> simp [same] at h ⊢
  | expressionStatement a, tree, h => by
    cases tree with
    | expressionStatement b =>
      simp only [same] at h
      rw [eq_of_same h]
    | _ => simp [same] at h
  | returnStatement a, tree, h => by
    cases tree with
    | returnStatement b =>
      simp only [same] at h
      rw [eq_of_same h]
    | _ => simp [same] at h
  | additive o a b, tree, h => by
    cases tree with
    | additive p c d =>
      simp only [same, Bool.and_eq_true, decide_eq_true_eq] at h
      rw [h.1.1, eq_of_same h.1.2, eq_of_same h.2]
    | _ => simp [same] at h
  | assignment o a b, tree, h => by
    cases tree with
    | assignment p c d =>
      simp only [same, Bool.and_eq_true, decide_eq_true_eq] at h
      rw [h.1.1, eq_of_same h.1.2, eq_of_same h.2]
    | _ => simp [same] at h
  | member a b, tree, h => by
    cases tree with
    | member c d =>
      simp only [same, Bool.and_eq_true] at h
      rw [eq_of_same h.1, eq_of_same h.2]
    | _ => simp [same] at h
  | declarator a b, tree, h => by
    cases tree with
    | declarator c d =>
      simp only [same, Bool.and_eq_true] at h
      rw [eq_of_same h.1, eq_of_same h.2]
    | _ => simp [same] at h
  | number a, tree, h => by
    cases tree with
    | number b =>
      simp only [same, decide_eq_true_eq] at h
      rw [h]
    | _ => simp [same] at h
  | string a, tree, h => by
    cases tree with
    | string b =>
      simp only [same, decide_eq_true_eq] at h
      rw [h]
    | _ => simp [same] at h
  | identifier a, tree, h => by
    cases tree with
    | identifier b =>
      simp only [same, decide_eq_true_eq] at h
      rw [h]
    | _ => simp [same] at h
  | declaration as, tree, h => by
    cases tree with
    | declaration bs =>
      simp only [same] at h
      rw [eq_of_sameAll h]
    | _ => simp [same] at h
  | block as, tree, h => by
    cases tree with
    | block bs =>
      simp only [same] at h
      rw [eq_of_sameAll h]
    | _ => simp [same] at h
  | program as, tree, h => by
    cases tree with
    | program bs =>
      simp only [same] at h
      rw [eq_of_sameAll h]
    | _ => simp [same] at h
  | function a as b, tree, h => by
    cases tree with
    | function c bs d =>
      simp only [same, Bool.and_eq_true] at h
      rw [eq_of_same h.1.1, eq_of_sameAll h.1.2, eq_of_same h.2]
    | _ => simp [same] at h
  | call a as, tree, h => by
    cases tree with
    | call b bs =>
      simp only [same, Bool.and_eq_true] at h
      rw [eq_of_same h.1, eq_of_sameAll h.2]
    | _ => simp [same] at h

theorem eq_of_sameAll : {as bs : List Tree} → sameAll as bs = true → as = bs
  | [], trees, h => by cases trees <;> simp [sameAll] at h ⊢
  | a :: as, trees, h => by
    cases trees with
    | nil => simp [sameAll] at h
    | cons b bs =>
      simp only [sameAll, Bool.and_eq_true] at h
      rw [eq_of_same h.1, eq_of_sameAll h.2]

end

theorem same_iff {a b : Tree} : same a b = true ↔ a = b :=
  ⟨eq_of_same, fun h => h ▸ same_self a⟩

instance : DecidableEq Tree := fun _ _ =>
  decidable_of_iff _ same_iff

end Tree

end PageScript
