import PageScript.Grammar.Script
import PageScript.Proofs.Grammar.Reads

/-!
# Well-formed programs

Programs without a hole, apart from any text: what a program says, how it is written as lexemes, and
the tree that it stands for.

* `Name`, `Quotable`, `Primary`, `Member` — the parts that do not nest;
* `Callee`, `Expression`, `Statement` — the parts that do;
* `lexemes` — how each of them is written, every statement but a function with a semicolon behind it;
* `tree` — the tree that each of them stands for;
* `levels` — how many levels it opens inside one another, one for each expression that is read as an
  assignment and one for each function body.

A lone `return` opens a level, for it is read with its semicolon as its argument.
-/

namespace PageScript.Source

/-! ### Parts that do not nest -/

/-- A name that is no keyword. -/
structure Name where
  first : Char
  more : List Char
  starts : isNameStart first
  goesOn : ∀ c ∈ more, isNamePart c
  free : keywords.contains (String.ofList (first :: more)) = false

def Name.text (name : Name) : String :=
  String.ofList (name.first :: name.more)

/-- A text that fits between quotes on one line. -/
structure Quotable where
  chars : List Char
  oneLine : '\n' ∉ chars
  notBoth : '"' ∉ chars ∨ '\'' ∉ chars

def Quotable.text (quotable : Quotable) : String :=
  String.ofList quotable.chars

inductive Primary where
  | name (name : Name)
  | text (text : Quotable)
  | number (value : Fin wordModulus)

/-- A primary expression, or one property of it. -/
structure Member where
  object : Primary
  property : Option Name

inductive Sign where
  | plus
  | minus

/-! ### Parts that nest -/

mutual

/-- A member expression, or a call of one. -/
inductive Callee where
  | plain (callee : Member)
  | call (callee : Member) (arguments : List Expression)

inductive Expression where
  | single (operand : Callee)
  | additive (sign : Sign) (left : Callee) (right : Expression)
  | assignment (left : Callee) (right : Expression)

end

inductive Statement where
  | expression (value : Expression)
  | returns (value : Expression)
  | returnsNothing
  | declares (name : Name) (value : Expression)
  | declaresNothing (name : Name)
  | function (name : Name) (params : List Name) (body : List Statement)

/-! ### Trees -/

def Name.tree (name : Name) : Tree := .identifier name.text

def Primary.tree : Primary → Tree
  | .name identifier => identifier.tree
  | .text quoted => .string quoted.text
  | .number value => .number value.val

def Member.tree : Member → Tree
  | ⟨object, none⟩ => object.tree
  | ⟨object, some property⟩ => .member object.tree property.tree

def Sign.operator : Sign → Operator
  | .plus => .add
  | .minus => .sub

mutual

def Callee.tree : Callee → Tree
  | .plain callee => callee.tree
  | .call callee arguments => .call callee.tree (Expression.trees arguments)

def Expression.tree : Expression → Tree
  | .single operand => operand.tree
  | .additive sign left right => .additive sign.operator left.tree right.tree
  | .assignment left right => .assignment .assign left.tree right.tree

def Expression.trees : List Expression → List Tree
  | [] => []
  | first :: others => first.tree :: Expression.trees others

end

mutual

def Statement.tree : Statement → Tree
  | .expression value => .expressionStatement value.tree
  | .returns value => .returnStatement value.tree
  | .returnsNothing => .returnStatement .hole
  | .declares name value => .declaration [.declarator name.tree value.tree]
  | .declaresNothing name => .declaration [.declarator name.tree .hole]
  | .function name params body =>
    .function name.tree (params.map Name.tree) (.block (Statement.trees body))

def Statement.trees : List Statement → List Tree
  | [] => []
  | first :: others => first.tree :: Statement.trees others

end

/-! ### Lexemes -/

def Name.lexeme (name : Name) : Lexeme := .identifier name.text

def Primary.lexeme : Primary → Lexeme
  | .name identifier => identifier.lexeme
  | .text quoted => .string quoted.text
  | .number value => .number value.val

def Member.lexemes : Member → List Lexeme
  | ⟨object, none⟩ => [object.lexeme]
  | ⟨object, some property⟩ => [object.lexeme, .punctuator ".", property.lexeme]

def Sign.mark : Sign → String
  | .plus => "+"
  | .minus => "-"

mutual

def Callee.lexemes : Callee → List Lexeme
  | .plain callee => callee.lexemes
  | .call callee arguments => callee.lexemes ++ .punctuator "(" ::
      (Grammar.commaSeparated (Expression.lexemesOfEach arguments) ++ [.punctuator ")"])

def Expression.lexemes : Expression → List Lexeme
  | .single operand => operand.lexemes
  | .additive sign left right => left.lexemes ++ .punctuator sign.mark :: right.lexemes
  | .assignment left right => left.lexemes ++ .punctuator "=" :: right.lexemes

def Expression.lexemesOfEach : List Expression → List (List Lexeme)
  | [] => []
  | first :: others => first.lexemes :: Expression.lexemesOfEach others

end

mutual

def Statement.lexemes : Statement → List Lexeme
  | .expression value => value.lexemes ++ [.punctuator ";"]
  | .returns value => .keyword "return" :: (value.lexemes ++ [.punctuator ";"])
  | .returnsNothing => [.keyword "return", .punctuator ";"]
  | .declares name value => .keyword "var" :: name.lexeme :: .punctuator "=" ::
      (value.lexemes ++ [.punctuator ";"])
  | .declaresNothing name => [.keyword "var", name.lexeme, .punctuator ";"]
  | .function name params body => .keyword "function" :: name.lexeme :: .punctuator "(" ::
      (Grammar.commaSeparated (params.map ([·.lexeme])) ++ .punctuator ")" ::
        .punctuator "\x7b" :: (Statement.lexemesOfAll body ++ [.punctuator "\x7d"]))

def Statement.lexemesOfAll : List Statement → List Lexeme
  | [] => []
  | first :: others => first.lexemes ++ Statement.lexemesOfAll others

end

/-! ### Levels -/

mutual

def Callee.levels : Callee → Nat
  | .plain _ => 0
  | .call _ arguments => Expression.levelsOfAll arguments

def Expression.levels : Expression → Nat
  | .single operand => operand.levels + 1
  | .additive _ left right | .assignment left right => max left.levels right.levels + 1

def Expression.levelsOfAll : List Expression → Nat
  | [] => 0
  | first :: others => max first.levels (Expression.levelsOfAll others)

end

mutual

def Statement.levels : Statement → Nat
  | .expression value | .returns value | .declares _ value => value.levels
  | .returnsNothing => 1
  | .declaresNothing _ => 0
  | .function _ _ body => Statement.levelsOfAll body + 1

def Statement.levelsOfAll : List Statement → Nat
  | [] => 0
  | first :: others => max first.levels (Statement.levelsOfAll others)

end

/-- Every expression opens a level of its own. -/
theorem Expression.levels_pos (value : Expression) : 0 < value.levels := by
  cases value <;> exact Nat.succ_pos _

/-! ### All parts of a list -/

theorem Expression.trees_eq (expressions : List Expression) :
    Expression.trees expressions = expressions.map Expression.tree := by
  induction expressions with
  | nil => rfl
  | cons first others ih => rw [Expression.trees, ih, List.map_cons]

theorem Expression.lexemesOfEach_eq (expressions : List Expression) :
    Expression.lexemesOfEach expressions = expressions.map Expression.lexemes := by
  induction expressions with
  | nil => rfl
  | cons first others ih => rw [Expression.lexemesOfEach, ih, List.map_cons]

theorem Statement.trees_eq (statements : List Statement) :
    Statement.trees statements = statements.map Statement.tree := by
  induction statements with
  | nil => rfl
  | cons first others ih => rw [Statement.trees, ih, List.map_cons]

theorem Statement.lexemesOfAll_eq (statements : List Statement) :
    Statement.lexemesOfAll statements = statements.flatMap Statement.lexemes := by
  induction statements with
  | nil => rfl
  | cons first others ih => rw [Statement.lexemesOfAll, ih, List.flatMap_cons]

end PageScript.Source
