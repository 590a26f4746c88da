import PageScript.Proofs.Grammar.Yields
import PageScript.Proofs.Token.Decomposition

/-!
# The shape of what is read

Holes stand almost anywhere in a tree that has been read, but nothing else stands out of its place.

* `Tree.inside`, `Tree.partsAll` — all the trees that a tree, or several, are made of;
* `Tree.partsAll_closed` — the parts of parts are among them;
* `Tree.isLabel`, `Tree.isOperand`, `Tree.isObject`, `Tree.isTerm`, `Tree.isFormula`,
  `Tree.isElement` — what can stand where, with holes;
* `Tree.WellShaped` — a tree whose own children stand where they can;
* `Token.IsSpelled` — what the tokens of a text have in common;
* `Harvest.shaped` — the productions give such trees only;
* `readScript_shaped` — and so does every script.
-/

namespace PageScript

/-! ### Parts -/

mutual

/-- All trees inside of a tree, at any depth. -/
def Tree.inside : Tree → List Tree
  | .hole | .number _ | .string _ | .identifier _ => []
  | .expressionStatement tree | .returnStatement tree => tree :: tree.inside
  | .additive _ left right | .assignment _ left right | .member left right
  | .declarator left right => (left :: left.inside) ++ (right :: right.inside)
  | .declaration trees | .block trees | .program trees => Tree.partsAll trees
  | .function name params body =>
    (name :: name.inside) ++ Tree.partsAll params ++ (body :: body.inside)
  | .call callee arguments => (callee :: callee.inside) ++ Tree.partsAll arguments

/-- Several trees, and all trees inside of them. -/
def Tree.partsAll : List Tree → List Tree
  | [] => []
  | tree :: trees => (tree :: tree.inside) ++ Tree.partsAll trees

end

namespace Tree

theorem mem_partsAll {trees : List Tree} {part : Tree} :
    part ∈ partsAll trees ↔ ∃ tree ∈ trees, part = tree ∨ part ∈ tree.inside := by
  induction trees with
  | nil => simp [partsAll]
  | cons tree trees ih => simp [partsAll, ih, or_assoc]

/-- Trees among which is all that is inside of them. -/
def Closed (trees : List Tree) : Prop :=
  ∀ tree ∈ trees, ∀ part ∈ tree.inside, part ∈ trees

theorem closed_nil : Closed [] := fun _ htree => absurd htree List.not_mem_nil

theorem Closed.cons {tree : Tree} (h : Closed tree.inside) : Closed (tree :: tree.inside) := by
  intro whole hwhole part hpart
  rcases List.mem_cons.1 hwhole with rfl | hwhole
  · exact List.mem_cons_of_mem _ hpart
  · exact List.mem_cons_of_mem _ (h whole hwhole part hpart)

theorem Closed.append {trees others : List Tree} (h : Closed trees) (hothers : Closed others) :
    Closed (trees ++ others) := by
  intro whole hwhole part hpart
  rcases List.mem_append.1 hwhole with hwhole | hwhole
  · exact List.mem_append_left _ (h whole hwhole part hpart)
  · exact List.mem_append_right _ (hothers whole hwhole part hpart)

mutual

theorem inside_closed : (tree : Tree) → Closed tree.inside
  | hole | number _ | string _ | identifier _ => closed_nil
  | expressionStatement tree | returnStatement tree => (inside_closed tree).cons
  | additive _ left right | assignment _ left right | member left right | declarator left right =>
    (inside_closed left).cons.append (inside_closed right).cons
  | declaration trees | block trees | program trees => partsAll_closed trees
  | function name params body =>
    ((inside_closed name).cons.append (partsAll_closed params)).append (inside_closed body).cons
  | call callee arguments => (inside_closed callee).cons.append (partsAll_closed arguments)

/-- **Parts of parts are parts.** -/
theorem partsAll_closed : (trees : List Tree) → Closed (partsAll trees)
  | [] => closed_nil
  | tree :: trees => (inside_closed tree).cons.append (partsAll_closed trees)

end

/-! ### What stands where -/

/-- A name, or a hole in its place. -/
def isLabel : Tree → Bool
  | hole | identifier _ => true
  | _ => false

/-- A label, a number or a text. -/
def isOperand : Tree → Bool
  | number _ | string _ => true
  | tree => tree.isLabel

/-- An operand, or a property of one. -/
def isObject : Tree → Bool
  | member .. => true
  | tree => tree.isOperand

/-- An object, or a call of one. -/
def isTerm : Tree → Bool
  | call .. => true
  | tree => tree.isObject

/-- A term, or an operation on one. -/
def isFormula : Tree → Bool
  | additive .. | assignment .. => true
  | tree => tree.isTerm

theorem isOperand_of_isLabel {tree : Tree} (h : tree.isLabel = true) : tree.isOperand = true := by
  cases tree with
  | number | string => rfl
  | _ => exact h

theorem isObject_of_isOperand {tree : Tree} (h : tree.isOperand = true) : tree.isObject = true := by
  cases tree with
  | member => rfl
  | _ => exact h

theorem isTerm_of_isObject {tree : Tree} (h : tree.isObject = true) : tree.isTerm = true := by
  cases tree with
  | call => rfl
  | _ => exact h

theorem isFormula_of_isTerm {tree : Tree} (h : tree.isTerm = true) : tree.isFormula = true := by
  cases tree with
  | additive | assignment => rfl
  | _ => exact h

/-- A statement or a function, and not a hole. A declaration declares one name. -/
def isElement : Tree → Bool
  | expressionStatement _ | returnStatement _ | function .. => true
  | declaration [declarator _ _] => true
  | _ => false

/-- A tree that can be read, so far as its own children go. -/
def WellShaped : Tree → Prop
  | hole => True
  | number value => 0 ≤ value ∧ value < wordModulus
  | string text => '\n' ∉ text.toList
  | identifier name => name ∉ keywords
  | member object property => object.isOperand = true ∧ property.isLabel = true
  | call callee arguments =>
    callee.isObject = true ∧ ∀ argument ∈ arguments, argument.isFormula = true
  | additive operator left right =>
    (operator = .add ∨ operator = .sub) ∧ left.isTerm = true ∧ right.isFormula = true
  | assignment operator left right =>
    operator = .assign ∧ left.isTerm = true ∧ right.isFormula = true
  | expressionStatement tree | returnStatement tree => tree.isFormula = true
  | declarator target init => target.isLabel = true ∧ init.isFormula = true
  | declaration declarators => ∃ target init, declarators = [declarator target init]
  | function name params body =>
    name.isLabel = true ∧ (∀ param ∈ params, param.isLabel = true) ∧
      ∃ elements, body = block elements
  | block elements => ∀ element ∈ elements, element.isElement = true
  | program _ => False

/-- A tree that can be read, as can all inside of it. -/
structure Shaped (tree : Tree) : Prop where
  here : tree.WellShaped
  inside : ∀ part ∈ tree.inside, part.WellShaped

theorem Shaped.parts {tree : Tree} (h : tree.Shaped) :
    ∀ part ∈ tree :: tree.inside, part.WellShaped :=
  List.forall_mem_cons.2 ⟨h.here, h.inside⟩

theorem shaped_all {trees : List Tree} (h : ∀ tree ∈ trees, tree.Shaped) :
    ∀ part ∈ partsAll trees, part.WellShaped := by
  intro part hpart
  obtain ⟨tree, htree, rfl | hinside⟩ := mem_partsAll.1 hpart
  · exact (h part htree).here
  · exact (h tree htree).inside part hinside

/-- A tree with nothing inside. -/
theorem Shaped.leaf {tree : Tree} (h : tree.WellShaped) (hinside : tree.inside = []) :
    tree.Shaped where
  here := h
  inside part hpart := by
    rw [hinside] at hpart
    exact absurd hpart List.not_mem_nil

/-- A tree with two trees inside. -/
theorem Shaped.both {tree left right : Tree} (h : tree.WellShaped)
    (hinside : tree.inside = (left :: left.inside) ++ (right :: right.inside)) (hleft : left.Shaped)
    (hright : right.Shaped) : tree.Shaped where
  here := h
  inside := by
    rw [hinside]
    exact List.forall_mem_append.2 ⟨hleft.parts, hright.parts⟩

end Tree

/-! ### Tokens -/

/-- A token that is spelled as its kind is. -/
def Token.IsSpelled (token : Token) : Prop :=
  ∃ text, token.lexeme.SpelledAs text

theorem Token.IsSpelled.isPlain {token : Token} (h : token.IsSpelled) : token.IsPlain := by
  intro word hword
  obtain ⟨text, htext⟩ := h
  rw [hword] at htext
  exact htext.2.2

/-- The tokens of a text are spelled. -/
theorem scan_isSpelled (source : String) (file : Option String) :
    ∀ token ∈ (scan source file).tokens, token.IsSpelled := by
  intro token htoken
  obtain ⟨segments, -, -, htokens, -⟩ := scanFrom_decomposes file [] source.toList
  have hlexeme : token.lexeme ∈ segments.map (·.lexeme) := by
    rw [← Segment.map_lexeme_tokens [], ← htokens]
    exact List.mem_map_of_mem htoken
  obtain ⟨segment, -, hsegment⟩ := List.mem_map.1 hlexeme
  exact ⟨segment.spelled, hsegment ▸ segment.fits⟩

namespace Grammar

open PageScript.Tree

/-- **All that is read is well-shaped,** whichever production it comes from. -/
def Harvest.shaped : Harvest Token.IsSpelled where
  label tree := tree.isLabel = true ∧ tree.Shaped
  operand tree := tree.isOperand = true ∧ tree.Shaped
  object tree := tree.isObject = true ∧ tree.Shaped
  callee _ tree := tree.isTerm = true ∧ tree.Shaped
  expression _ tree := tree.isFormula = true ∧ tree.Shaped
  element _ tree := tree.isElement = true ∧ tree.Shaped
  block _ tree := (∃ elements, tree = .block elements) ∧ tree.Shaped
  words h := h.isPlain
  hole := ⟨rfl, .leaf trivial rfl⟩
  identifier token name htoken hname := by
    obtain ⟨text, htext⟩ := htoken
    rw [hname] at htext
    exact ⟨rfl, .leaf htext.2.2 rfl⟩
  string token text htoken htext := by
    obtain ⟨spelled, hspelled⟩ := htoken
    rw [htext] at hspelled
    obtain ⟨mark, -, -, hline, -⟩ := hspelled
    exact ⟨rfl, .leaf hline rfl⟩
  number token value htoken hvalue := by
    obtain ⟨text, htext⟩ := htoken
    rw [hvalue] at htext
    obtain ⟨-, -, rfl⟩ := htext
    have hword : Nat.ofDigitChars 10 text 0 % wordModulus < wordModulus :=
      Nat.mod_lt _ (by decide)
    refine ⟨rfl, .leaf ⟨Int.natCast_nonneg _, ?_⟩ rfl⟩
    exact_mod_cast hword
  labelled h := ⟨isOperand_of_isLabel h.1, h.2⟩
  plain h := ⟨isObject_of_isOperand h.1, h.2⟩
  member hobject hproperty :=
    ⟨rfl, .both ⟨hobject.1, hproperty.1⟩ rfl hobject.2 hproperty.2⟩
  uncalled h := ⟨isTerm_of_isObject h.1, h.2⟩
  call hcallee harguments := by
    refine ⟨rfl, ⟨hcallee.1, fun argument hargument => (harguments argument hargument).1⟩, ?_⟩
    exact List.forall_mem_append.2 ⟨hcallee.2.parts,
      shaped_all fun argument hargument => (harguments argument hargument).2⟩
  single h := ⟨isFormula_of_isTerm h.1, h.2⟩
  additive hoperator hleft hright :=
    ⟨rfl, .both ⟨hoperator, hleft.1, hright.1⟩ rfl hleft.2 hright.2⟩
  assignment hleft hright := ⟨rfl, .both ⟨rfl, hleft.1, hright.1⟩ rfl hleft.2 hright.2⟩
  declaration {room target init} htarget hinit := by
    have hvalue : init.isFormula = true ∧ init.Shaped := by
      rcases hinit with rfl | hinit
      · exact ⟨rfl, .leaf trivial rfl⟩
      · exact hinit
    have hdeclarator : (declarator target init).Shaped :=
      .both ⟨htarget.1, hvalue.1⟩ rfl htarget.2 hvalue.2
    refine ⟨rfl, ⟨target, init, rfl⟩, shaped_all ?_⟩
    exact List.forall_mem_singleton.2 hdeclarator
  returnStatement h := ⟨rfl, h.1, h.2.parts⟩
  expressionStatement h := ⟨rfl, h.1, h.2.parts⟩
  function hname hparams hbody := by
    refine ⟨rfl, ⟨hname.1, fun param hparam => (hparams param hparam).1, hbody.1⟩, ?_⟩
    have hparts := shaped_all fun param hparam => (hparams param hparam).2
    exact List.forall_mem_append.2
      ⟨List.forall_mem_append.2 ⟨hname.2.parts, hparts⟩, hbody.2.parts⟩
  body helements :=
    ⟨⟨_, rfl⟩, fun element helement => (helements element helement).1,
      shaped_all fun element helement => (helements element helement).2⟩

theorem readScript_elements {source : String} {file : Option String} {body : List Tree}
    (h : readScript source file = .ok body) :
    ∀ tree ∈ body, tree.isElement = true ∧ tree.Shaped := by
  intro tree htree
  obtain ⟨_, _, helement⟩ := Harvest.shaped.readScript (scan_isSpelled source file) h tree htree
  exact helement

/-- **Every script has the shape of the grammar.** Its elements, and those of every function body in
it, are there and are expression statements, declarations of one name, return statements or
functions. And whatever stands in it, at any depth, has its children where they can stand: a function
a block for its body and labels for its name and its parameters; a sum or an assignment a term on its
left, which is neither of the two itself, and its own operator; a call an object to call, and a
property an operand to belong to and a label to its name. Numbers are script numbers, texts stand on
one line, and names are no keywords. -/
theorem readScript_shaped {source : String} {file : Option String} {body : List Tree}
    (h : readScript source file = .ok body) :
    (∀ tree ∈ body, tree.isElement = true) ∧ ∀ part ∈ partsAll body, part.WellShaped := by
  have hshaped := readScript_elements h
  exact ⟨fun tree htree => (hshaped tree htree).1,
    shaped_all fun tree htree => (hshaped tree htree).2⟩

/-- A script full of holes: a function without a name, with a hole among its parameters, that returns
a brace; operators without operands; a declaration whose name is a keyword; and a call that is not
closed, of a property whose name is a text. -/
def holesText : String :=
  "function 1(a, 2) \x7b return \x7d \x7d + = ( - ) var return; 18446744073709551616.'p'("

/-- The trees of that script. -/
def holes : List Tree :=
  [.function .hole [.identifier "a", .hole] (.block [.returnStatement .hole]),
    .expressionStatement (.assignment .assign .hole (.additive .sub .hole .hole)),
    .declaration [.declarator .hole .hole],
    .expressionStatement (.call (.member (.number 0) .hole) [])]

theorem readScript_shaped_holes :
    readScript holesText none = .ok holes ∧ (∀ tree ∈ holes, tree.isElement = true) ∧
      ∀ part ∈ partsAll holes, part.WellShaped := by
  have hread : readScript holesText none = .ok holes := by
    cbv
  exact ⟨hread, readScript_shaped hread⟩

end Grammar

end PageScript
