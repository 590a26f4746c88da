import PageScript.Proofs.Source.Syntax

/-!
# Reading well-formed programs

The lexemes of each part of a well-formed program read as its tree, with as many levels as the part
opens. What may not come next grows with the production, for each of them would read on.

* `afterExpression`, `afterStatement` — the marks that must not follow;
* `Expression.reads` — an expression, by induction on its parts;
* `Statement.reads` — a statement or a function, likewise.
-/

namespace PageScript.Source

open Grammar

/-- The marks that an expression would go on with. -/
def afterExpression : List String := [".", "(", "+", "-", "="]

/-- The marks that a statement could still take. A semicolon is among them for the sake of those
statements that have spent theirs on an operand that is missing. -/
def afterStatement : List String := ";" :: afterExpression

variable {depth : Nat} {marks : List String}

/-! ### Parts that do not nest -/

theorem Name.reads (name : Name) : Reads depth marks identifier [name.lexeme] name.tree :=
  .advance fun _ => .pure _

theorem Primary.reads (object : Primary) :
    Reads depth marks primary [object.lexeme] object.tree := by
  apply Reads.advance
  intro line
  cases object <;> exact .pure _

/-- An operand, whatever it is, that is read as a member of nothing. -/
theorem member_alone {lexemes : List Lexeme} {object : Tree} (hdot : "." ∈ marks)
    (h : Reads depth marks primary lexemes object) : Reads depth marks member lexemes object := by
  apply h.ending
  apply Reads.absent "."
  · intro next hclear
    exact hclear "." hdot
  · exact .pure object

theorem Member.reads (callee : Member) (hdot : "." ∈ marks) :
    Reads depth marks member callee.lexemes callee.tree := by
  obtain ⟨object, property⟩ := callee
  cases property with
  | none => exact member_alone hdot object.reads
  | some property =>
    have hproperty : Reads depth marks identifier [property.lexeme] property.tree :=
      property.reads
    apply object.reads.andThen
    apply Reads.found "."
    exact .advance fun _ => hproperty.giving (Tree.member object.tree)

/-! ### The first lexeme -/

theorem Member.starts (callee : Member) :
    ∃ object : Primary, ∃ rest, callee.lexemes = object.lexeme :: rest := by
  obtain ⟨object, property⟩ := callee
  cases property with
  | none => exact ⟨object, _, rfl⟩
  | some property => exact ⟨object, _, rfl⟩

theorem Callee.starts (callee : Callee) :
    ∃ object : Primary, ∃ rest, callee.lexemes = object.lexeme :: rest := by
  cases callee with
  | plain callee => exact callee.starts
  | call callee arguments =>
    obtain ⟨object, rest, h⟩ := callee.starts
    exact ⟨object, _, by rw [Callee.lexemes, h, List.cons_append]⟩

/-- An expression starts with an operand. -/
theorem Expression.starts (value : Expression) :
    ∃ object : Primary, ∃ rest, value.lexemes = object.lexeme :: rest := by
  cases value with
  | single operand => exact operand.starts
  | additive sign left right =>
    obtain ⟨object, rest, h⟩ := left.starts
    exact ⟨object, _, by rw [Expression.lexemes, h, List.cons_append]⟩
  | assignment left right =>
    obtain ⟨object, rest, h⟩ := left.starts
    exact ⟨object, _, by rw [Expression.lexemes, h, List.cons_append]⟩

theorem Expression.opens (value : Expression) : Opens value.lexemes := by
  obtain ⟨object, rest, h⟩ := value.starts
  refine ⟨object.lexeme, rest, h, fun mark => ?_⟩
  cases object <;> exact Lexeme.noConfusion

theorem Statement.opens (statement : Statement) : Opens statement.lexemes := by
  cases statement with
  | expression value => exact value.opens.append _
  | returns value => exact ⟨_, _, rfl, fun _ => Lexeme.noConfusion⟩
  | returnsNothing => exact ⟨_, _, rfl, fun _ => Lexeme.noConfusion⟩
  | declares name value => exact ⟨_, _, rfl, fun _ => Lexeme.noConfusion⟩
  | declaresNothing name => exact ⟨_, _, rfl, fun _ => Lexeme.noConfusion⟩
  | function name params body => exact ⟨_, _, rfl, fun _ => Lexeme.noConfusion⟩

/-! ### Expressions -/

section

variable {nested : Reading Tree} {lexemes lexemes' : List Lexeme} {left right : Tree}

theorem callee_alone (hparen : "(" ∈ marks) (h : Reads depth marks member lexemes left) :
    Reads depth marks (calleeWith nested) lexemes left := by
  apply h.ending
  apply Reads.absent "("
  · intro next hclear
    exact hclear "(" hparen
  · exact .pure left

theorem additive_alone (h : Reads depth [".", "("] (calleeWith nested) lexemes left) :
    Reads depth [".", "(", "+", "-"] (additiveWith nested) lexemes left := by
  have hmono : Reads depth [".", "(", "+", "-"] (calleeWith nested) lexemes left :=
    h.mono (by simp)
  apply hmono.ending
  apply Reads.current
  intro token next hclear htoken
  have hnone : token.bind additiveOperator? = none := by
    rcases token with _ | ⟨lexeme, line⟩
    · rfl
    · obtain rfl : some lexeme = next := htoken
      have hplus := hclear "+" (by simp)
      have hminus := hclear "-" (by simp)
      simp only [ne_eq, Option.some.injEq] at hplus hminus
      simp [additiveOperator?, Token.isPunctuator, hplus, hminus]
  rw [hnone]
  exact .pure left

theorem additive_signed (sign : Sign)
    (hleft : Reads depth [".", "("] (calleeWith nested) lexemes left)
    (hright : Reads depth marks nested lexemes' right) :
    Reads depth marks (additiveWith nested) (lexemes ++ .punctuator sign.mark :: lexemes')
      (.additive sign.operator left right) := by
  apply hleft.bind
  · apply Reads.current_cons
    intro line
    have hsign : additiveOperator? ⟨.punctuator sign.mark, line⟩ = some sign.operator := by
      cases sign <;> rfl
    simp only [Option.bind_some, hsign]
    exact .advance fun _ => hright.giving (Tree.additive sign.operator left)
  · intro next _
    cases sign <;> simp [Clear, Sign.mark]

theorem assignment_alone (h : Reads depth afterExpression (additiveWith nested) lexemes left) :
    Reads depth afterExpression (assignmentWith nested) lexemes left := by
  apply h.ending
  apply Reads.absent "="
  · intro next hclear
    exact hclear "=" (by decide)
  · exact .pure left

theorem assignment_equals (hleft : Reads depth [".", "("] (calleeWith nested) lexemes left)
    (hright : Reads depth marks nested lexemes' right) :
    Reads depth marks (assignmentWith nested) (lexemes ++ .punctuator "=" :: lexemes')
      (.assignment .assign left right) := by
  apply (additive_alone hleft).bind
  · apply Reads.found "="
    exact .advance fun _ => hright.giving (Tree.assignment .assign left)
  · intro next _
    simp [Clear]

end

mutual

theorem Callee.reads (callee : Callee) (room : Nat) (hroom : callee.levels ≤ room) (depth : Nat) :
    Reads depth [".", "("] (calleeWith (assignmentAt room)) callee.lexemes callee.tree := by
  match callee with
  | .plain callee => exact callee_alone (by simp) (callee.reads (by simp))
  | .call callee arguments =>
    have hcallee : Reads depth ["."] member callee.lexemes callee.tree := callee.reads (by simp)
    have hlist : Reads depth [".", "("] (argumentsWith (assignmentAt room))
        (commaSeparated (arguments.map Expression.lexemes) ++ [.punctuator ")"])
        (arguments.map Expression.tree) :=
      .list (by decide) (by decide) fun value hvalue =>
        ⟨Expression.reads_each arguments room hroom depth value hvalue, value.opens⟩
    rw [Callee.lexemes, Callee.tree, Expression.lexemesOfEach_eq, Expression.trees_eq]
    apply hcallee.bind
    · apply Reads.found "("
      exact .advance fun _ => hlist.giving (Tree.call callee.tree)
    · intro next _
      simp [Clear]

theorem Expression.reads (value : Expression) (room : Nat) (hroom : value.levels ≤ room)
    (depth : Nat) :
    Reads depth afterExpression (assignmentAt room) value.lexemes value.tree := by
  have hpos := value.levels_pos
  obtain ⟨room, rfl⟩ : ∃ n, room = n + 1 := ⟨room - 1, by omega⟩
  match value with
  | .single operand =>
    rw [Expression.levels] at hroom
    have hoperand := operand.reads room (by omega) (depth + 1)
    exact .deeper (assignment_alone ((additive_alone hoperand).mono (by decide)))
  | .additive sign left right =>
    rw [Expression.levels] at hroom
    have hleft := left.reads room (by omega) (depth + 1)
    have hright := right.reads room (by omega) (depth + 1)
    exact .deeper (assignment_alone (additive_signed sign hleft hright))
  | .assignment left right =>
    rw [Expression.levels] at hroom
    have hleft := left.reads room (by omega) (depth + 1)
    have hright := right.reads room (by omega) (depth + 1)
    exact .deeper (assignment_equals hleft hright)

theorem Expression.reads_each (expressions : List Expression) (room : Nat)
    (hroom : Expression.levelsOfAll expressions ≤ room) (depth : Nat) :
    ∀ value ∈ expressions,
      Reads depth afterExpression (assignmentAt room) value.lexemes value.tree := by
  match expressions with
  | [] => exact fun _ h => absurd h List.not_mem_nil
  | first :: others =>
    rw [Expression.levelsOfAll] at hroom
    intro value hvalue
    rcases List.mem_cons.1 hvalue with hfirst | hvalue
    · rw [hfirst]
      exact first.reads room (by omega) depth
    · exact Expression.reads_each others room (by omega) depth value hvalue

end

/-! ### Statements -/

section

variable {α : Type} {nested body : Reading Tree} {lexemes : List Lexeme} {tree : Tree}

theorem skipSemicolon_found : Reads depth marks skipSemicolon [.punctuator ";"] () :=
  .found ";" (.advance fun _ => .pure ())

theorem skipSemicolon_absent (h : ";" ∈ marks) : Reads depth marks skipSemicolon [] () := by
  apply Reads.absent ";"
  · intro next hclear
    exact hclear ";" h
  · exact .pure ()

/-- A part of a statement that stops in front of the semicolon. -/
theorem terminated {x : Reading α} {value : α} (build : α → Tree)
    (h : Reads depth afterExpression x lexemes value) :
    Reads depth marks (do
      let value ← x
      skipSemicolon
      return build value) (lexemes ++ [.punctuator ";"]) (build value) := by
  have hnext : ∀ next, Clear afterExpression ([Lexeme.punctuator ";"].head?.or next) := by
    intro next
    simp [Clear, afterExpression]
  apply h.bind (Reads.giving (fun _ => build value) skipSemicolon_found)
  intro next _
  exact hnext next

/-- A part of a statement that has taken the semicolon for its own. -/
theorem unterminated {x : Reading α} {value : α} (build : α → Tree) (hmark : ";" ∈ marks)
    (h : Reads depth marks x lexemes value) :
    Reads depth marks (do
      let value ← x
      skipSemicolon
      return build value) lexemes (build value) :=
  h.ending ((skipSemicolon_absent hmark).giving fun _ => build value)

/-- With its semicolon for an operand, an expression is a hole. -/
theorem missing_reads (room : Nat) :
    Reads depth afterExpression (assignmentAt (room + 1)) [.punctuator ";"] .hole := by
  have hprimary : Reads (depth + 1) [".", "("] primary [.punctuator ";"] .hole :=
    .advance fun _ => .pure _
  have hcallee : Reads (depth + 1) [".", "("] (calleeWith (assignmentAt room))
      [.punctuator ";"] .hole :=
    callee_alone (by simp) (member_alone (by simp) hprimary)
  exact .deeper (assignment_alone ((additive_alone hcallee).mono (by decide)))

theorem declaration_equals (name : Name) (h : Reads depth marks nested lexemes tree) :
    Reads depth marks (declarationWith nested) (name.lexeme :: .punctuator "=" :: lexemes)
      (.declaration [.declarator name.tree tree]) := by
  have hinit : Reads depth marks (initializerWith nested) (.punctuator "=" :: lexemes) tree :=
    .advance fun _ => h
  exact name.reads.andThen (hinit.giving fun init => Tree.declaration [.declarator name.tree init])

theorem declaration_nothing (name : Name) :
    Reads depth marks (declarationWith nested) [name.lexeme, .punctuator ";"]
      (.declaration [.declarator name.tree .hole]) := by
  have hinit : Reads depth marks (initializerWith nested) [.punctuator ";"] .hole :=
    .advance fun _ => .pure _
  exact name.reads.andThen (hinit.giving fun init => Tree.declaration [.declarator name.tree init])

/-- A statement that starts with an operand, and so with no keyword. -/
theorem statement_operand {value : Expression} {behind : List Lexeme} (h : Reads depth marks (do
      let expression ← nested
      skipSemicolon
      return Tree.expressionStatement expression) (value.lexemes ++ behind) tree) :
    Reads depth marks (elementWith nested body) (value.lexemes ++ behind) tree := by
  obtain ⟨object, rest, hlexemes⟩ := value.starts
  rw [hlexemes, List.cons_append] at h ⊢
  refine .current_cons fun line => ?_
  cases object <;> exact .current_cons fun line => h

/-- A statement that is an expression. -/
theorem statement_expression (value : Expression)
    (h : Reads depth afterExpression nested value.lexemes value.tree) :
    Reads depth marks (elementWith nested body) (value.lexemes ++ [.punctuator ";"])
      (.expressionStatement value.tree) :=
  statement_operand (terminated Tree.expressionStatement h)

/-- A statement that is an expression and has no semicolon behind it. -/
theorem statement_unterminated (value : Expression)
    (h : Reads depth afterExpression nested value.lexemes value.tree) :
    Reads depth afterStatement (elementWith nested body) value.lexemes
      (.expressionStatement value.tree) := by
  have hopen : Reads depth afterStatement nested value.lexemes value.tree := h.mono (by decide)
  have hstatement : Reads depth afterStatement (elementWith nested body) (value.lexemes ++ [])
      (.expressionStatement value.tree) := by
    apply statement_operand
    rw [List.append_nil]
    exact unterminated Tree.expressionStatement (by decide) hopen
  rwa [List.append_nil] at hstatement

/-- A declaration, from its keyword on. -/
theorem statement_var (h : Reads depth marks (do
      let tree ← declarationWith nested
      skipSemicolon
      return tree) lexemes tree) :
    Reads depth marks (elementWith nested body) (.keyword "var" :: lexemes) tree := by
  have hstatement : Reads depth marks (statementWith nested) (.keyword "var" :: lexemes) tree :=
    .current_cons fun line => .advance fun line => h
  exact .current_cons fun line => hstatement

/-- A `return`, from its keyword on. -/
theorem statement_return (h : Reads depth marks (do
      let argument ← nested
      skipSemicolon
      return Tree.returnStatement argument) lexemes tree) :
    Reads depth marks (elementWith nested body) (.keyword "return" :: lexemes) tree := by
  have hstatement : Reads depth marks (statementWith nested) (.keyword "return" :: lexemes) tree :=
    .current_cons fun line => .advance fun line => h
  exact .current_cons fun line => hstatement

theorem params_reads (params : List Name) : Reads depth marks Grammar.params
    (.punctuator "(" :: (commaSeparated (params.map ([·.lexeme])) ++ [.punctuator ")"]))
    (params.map Name.tree) := by
  have hitems : ∀ name ∈ params,
      Reads depth [] identifier [name.lexeme] name.tree ∧ Opens [name.lexeme] :=
    fun name _ => ⟨name.reads, _, _, rfl, fun _ => Lexeme.noConfusion⟩
  exact .eat (.list (by decide) (by decide) hitems)

theorem function_reads (name : Name) (params : List Name)
    (hbody : Reads depth marks body lexemes tree) :
    Reads depth marks (elementWith nested body) (.keyword "function" :: name.lexeme ::
      .punctuator "(" :: (commaSeparated (params.map ([·.lexeme])) ++ .punctuator ")" :: lexemes))
      (.function name.tree (params.map Name.tree) tree) := by
  have hall : Reads depth marks (functionWith body)
      ([name.lexeme] ++ ((.punctuator "(" :: (commaSeparated (params.map ([·.lexeme])) ++
        [.punctuator ")"])) ++ lexemes))
      (.function name.tree (params.map Name.tree) tree) :=
    name.reads.andThen ((params_reads params).andThen
      (hbody.giving fun block => Tree.function name.tree (params.map Name.tree) block))
  rw [List.append_cons]
  exact .current_cons fun line => .advance fun line => hall

end

/-- Elements between braces. -/
theorem body_reads {σ : Type} {element : Reading Tree} {items : List σ} {lexemes : σ → List Lexeme}
    {tree : σ → Tree} (hitems : ∀ item ∈ items,
      Reads depth afterStatement element (lexemes item) (tree item) ∧ Opens (lexemes item)) :
    Reads depth marks (bodyWith element)
      (.punctuator "\x7b" :: (items.flatMap lexemes ++ [.punctuator "\x7d"]))
      (.block (items.map tree)) := by
  have helements : Reads depth marks
      (fun cursor => elementsUpToBrace element (cursor.pending.length + 1) cursor)
      (items.flatMap lexemes ++ [.punctuator "\x7d"]) (items.map tree) :=
    .rounds fun rounds hrounds => .elementsUpToBrace (by decide) hitems rounds (by
      rw [List.length_append] at hrounds
      omega)
  exact .eat (helements.giving Tree.block)

mutual

theorem Statement.reads (statement : Statement) (room : Nat) (hroom : statement.levels ≤ room)
    (depth : Nat) :
    Reads depth afterStatement (elementWith (assignmentAt room) (bodyAt room))
      statement.lexemes statement.tree := by
  match statement with
  | .expression value => exact statement_expression value (value.reads room hroom depth)
  | .returns value =>
    have hvalue := value.reads room hroom depth
    exact statement_return (terminated Tree.returnStatement hvalue)
  | .returnsNothing =>
    rw [Statement.levels] at hroom
    obtain ⟨room, rfl⟩ : ∃ n, room = n + 1 := ⟨room - 1, by omega⟩
    have hmissing : Reads depth afterStatement (assignmentAt (room + 1)) [.punctuator ";"] .hole :=
      (missing_reads room).mono (by decide)
    exact statement_return (unterminated Tree.returnStatement (by decide) hmissing)
  | .declares name value =>
    have hvalue := value.reads room hroom depth
    exact statement_var (terminated id (declaration_equals name hvalue))
  | .declaresNothing name =>
    exact statement_var (unterminated id (by decide) (declaration_nothing name))
  | .function name params body =>
    rw [Statement.levels] at hroom
    obtain ⟨room, rfl⟩ : ∃ n, room = n + 1 := ⟨room - 1, by omega⟩
    have hstatements := Statement.reads_each body room (by omega) (depth + 1)
    rw [Statement.lexemes, Statement.tree, Statement.lexemesOfAll_eq, Statement.trees_eq]
    exact function_reads name params (.deeper (body_reads fun statement hstatement =>
      ⟨hstatements statement hstatement, statement.opens⟩))

theorem Statement.reads_each (statements : List Statement) (room : Nat)
    (hroom : Statement.levelsOfAll statements ≤ room) (depth : Nat) :
    ∀ statement ∈ statements,
      Reads depth afterStatement (elementWith (assignmentAt room) (bodyAt room))
        statement.lexemes statement.tree := by
  match statements with
  | [] => exact fun _ h => absurd h List.not_mem_nil
  | first :: others =>
    rw [Statement.levelsOfAll] at hroom
    intro statement hstatement
    rcases List.mem_cons.1 hstatement with hfirst | hstatement
    · rw [hfirst]
      exact first.reads room (by omega) depth
    · exact Statement.reads_each others room (by omega) depth statement hstatement

end

end PageScript.Source
