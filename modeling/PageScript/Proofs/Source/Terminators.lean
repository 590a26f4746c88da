import PageScript.Proofs.Grammar.Weights
import PageScript.Proofs.Source.RoundTrip

/-!
# Leaving out semicolons

The semicolons behind the statements of a program can be left out, any of them, but for one thing:
the declaration of a name without a value takes the token behind the name for its initializer,
whatever it is. So it has to end in its semicolon, or else with the text.

* `Statement.complete` — no `return` stands alone in a statement, for it would go on with what
  follows;
* `Omits` — some lexemes, from which semicolons are missing;
* `Statement.weigh_lexemes` — a program weighs as much as its lexemes;
* `Statement.reads_omitting` — a statement reads as its tree without semicolons, unless it swallows
  something;
* `readScript_omitting` — a program is read without its semicolons as it is with all of them, exactly
  if no declaration swallows anything.
-/

namespace PageScript.Source

open Grammar

mutual

/-- Whether every `return` in a statement has an argument. -/
def Statement.complete : Statement → Bool
  | .returnsNothing => false
  | .function _ _ body => Statement.completeAll body
  | .expression _ | .returns _ | .declares _ _ | .declaresNothing _ => true

def Statement.completeAll : List Statement → Bool
  | [] => true
  | first :: others => first.complete && Statement.completeAll others

end

/-- Some lexemes, and the same with some of the semicolons left out. -/
inductive Omits : List Lexeme → List Lexeme → Prop
  | nil : Omits [] []
  | keep (lexeme : Lexeme) {full lexemes : List Lexeme} : Omits full lexemes →
      Omits (lexeme :: full) (lexeme :: lexemes)
  | leave {full lexemes : List Lexeme} : Omits full lexemes →
      Omits (.punctuator ";" :: full) lexemes

/-! ### What is left -/

namespace Omits

variable {full full' lexemes : List Lexeme}

theorem weigh_eq (h : Omits full lexemes) : weigh lexemes = weigh full := by
  induction h with
  | nil => rfl
  | keep lexeme _ ih => rw [weigh_cons, weigh_cons, ih]
  | leave _ ih =>
    rw [weigh_cons, ih]
    exact (Nat.zero_add _).symm

theorem split (h : Omits (full ++ full') lexemes) :
    ∃ front behind, lexemes = front ++ behind ∧ Omits full front ∧ Omits full' behind := by
  induction full generalizing lexemes with
  | nil => exact ⟨[], lexemes, rfl, .nil, h⟩
  | cons first full ih =>
    cases h with
    | keep _ hrest =>
      obtain ⟨front, behind, rfl, hfront, hbehind⟩ := ih hrest
      exact ⟨first :: front, behind, rfl, .keep first hfront, hbehind⟩
    | leave hrest =>
      obtain ⟨front, behind, rfl, hfront, hbehind⟩ := ih hrest
      exact ⟨front, behind, rfl, .leave hfront, hbehind⟩

/-- Without a semicolon there is nothing to leave out. -/
theorem eq_of_not_mem (h : Omits full lexemes) (hfree : .punctuator ";" ∉ full) :
    lexemes = full := by
  induction h with
  | nil => rfl
  | keep lexeme _ ih => rw [ih fun hmem => hfree (List.mem_cons_of_mem lexeme hmem)]
  | leave _ _ => exact absurd List.mem_cons_self hfree

/-- The last semicolon is there or not. -/
theorem terminated (h : Omits (full ++ [.punctuator ";"]) lexemes)
    (hfree : .punctuator ";" ∉ full) :
    lexemes = full ++ [.punctuator ";"] ∨ lexemes = full := by
  obtain ⟨front, behind, rfl, hfront, hbehind⟩ := h.split
  obtain rfl := hfront.eq_of_not_mem hfree
  cases hbehind with
  | keep _ hrest =>
    cases hrest
    exact .inl rfl
  | leave hrest =>
    cases hrest
    exact .inr (List.append_nil _)

/-- A lexeme that is no mark stays in front. -/
theorem opens (h : Omits full lexemes) (hopens : Opens full) : Opens lexemes := by
  obtain ⟨first, rest, rfl, hfirst⟩ := hopens
  cases h with
  | keep _ hrest => exact ⟨first, _, rfl, hfirst⟩
  | leave _ => exact absurd rfl (hfirst ";")

theorem subset (h : Omits full lexemes) : lexemes ⊆ full := by
  induction h with
  | nil => exact List.Subset.refl _
  | keep lexeme _ ih => exact List.cons_subset_cons lexeme ih
  | leave _ ih => exact List.subset_cons_of_subset _ ih

/-- What is left of a program can be written down. -/
theorem typeset {program : List Statement} (h : Omits (Statement.lexemesOfAll program) lexemes) :
    Typeset 1 (lexemes.map (⟨·, (1 : Nat)⟩)) (spelledOut lexemes) :=
  typeset_spelledOut 1 fun lexeme hlexeme => Statement.writable_all program lexeme (h.subset hlexeme)

end Omits

/-! ### What a program weighs -/

theorem Primary.weight_lexeme (object : Primary) : object.lexeme.weight = object.tree.weight := by
  cases object <;> rfl

theorem Member.weigh_lexemes (callee : Member) : weigh callee.lexemes = callee.tree.weight := by
  obtain ⟨object, property⟩ := callee
  have hobject := object.weight_lexeme
  cases property with
  | none => simp [Member.lexemes, Member.tree, hobject]
  | some property =>
    have hproperty : property.lexeme.weight = property.tree.weight := rfl
    have hdot : (Lexeme.punctuator ".").weight = 0 := rfl
    simp [Member.lexemes, Member.tree, hobject, hproperty, hdot]

theorem Sign.weight_mark (sign : Sign) : (Lexeme.punctuator sign.mark).weight = 0 := by
  cases sign <;> rfl

/-- Commas weigh nothing. -/
theorem weigh_commaSeparated {σ : Type} {items : List σ} {lexemes : σ → List Lexeme}
    {tree : σ → Tree} (h : ∀ item ∈ items, weigh (lexemes item) = (tree item).weight) :
    weigh (commaSeparated (items.map lexemes)) = Tree.weightOfAll (items.map tree) := by
  have hcomma : (Lexeme.punctuator ",").weight = 0 := rfl
  have hmore : ∀ others : List σ, (∀ item ∈ others, weigh (lexemes item) = (tree item).weight) →
      weigh ((others.map lexemes).flatMap (.punctuator "," :: ·)) =
        Tree.weightOfAll (others.map tree) := by
    intro others hothers
    induction others with
    | nil => rfl
    | cons first others ih =>
      obtain ⟨hfirst, hrest⟩ := List.forall_mem_cons.1 hothers
      simp [hcomma, hfirst, ih hrest]
  cases items with
  | nil => rfl
  | cons first others =>
    obtain ⟨hfirst, hrest⟩ := List.forall_mem_cons.1 h
    rw [List.map_cons, commaSeparated, weigh_append, hfirst, hmore others hrest]
    rfl

mutual

theorem Callee.weigh_lexemes (callee : Callee) : weigh callee.lexemes = callee.tree.weight := by
  match callee with
  | .plain callee => exact callee.weigh_lexemes
  | .call callee arguments =>
    have harguments := weigh_commaSeparated (Expression.weigh_each arguments)
    have hopen : (Lexeme.punctuator "(").weight = 0 := rfl
    have hclose : (Lexeme.punctuator ")").weight = 0 := rfl
    rw [Callee.lexemes, Expression.lexemesOfEach_eq, Callee.tree, Expression.trees_eq]
    simp [callee.weigh_lexemes, harguments, hopen, hclose]

theorem Expression.weigh_lexemes (value : Expression) :
    weigh value.lexemes = value.tree.weight := by
  match value with
  | .single operand => exact operand.weigh_lexemes
  | .additive sign left right =>
    simp [Expression.lexemes, Expression.tree, left.weigh_lexemes, right.weigh_lexemes,
      sign.weight_mark]
  | .assignment left right =>
    have hequals : (Lexeme.punctuator "=").weight = 0 := rfl
    simp [Expression.lexemes, Expression.tree, left.weigh_lexemes, right.weigh_lexemes, hequals]

theorem Expression.weigh_each (expressions : List Expression) :
    ∀ value ∈ expressions, weigh value.lexemes = value.tree.weight := by
  match expressions with
  | [] => exact fun _ h => absurd h List.not_mem_nil
  | first :: others =>
    exact List.forall_mem_cons.2 ⟨first.weigh_lexemes, Expression.weigh_each others⟩

end

mutual

theorem Statement.weigh_lexemes (statement : Statement) :
    weigh statement.lexemes = statement.tree.weight := by
  have hend : (Lexeme.punctuator ";").weight = 0 := rfl
  have hname : ∀ name : Name, name.lexeme.weight = name.tree.weight := fun _ => rfl
  have hword : ∀ word, (Lexeme.keyword word).weight = 1 := fun _ => rfl
  match statement with
  | .expression value =>
    simp [Statement.lexemes, Statement.tree, value.weigh_lexemes, hend]
  | .returns value =>
    simp [Statement.lexemes, Statement.tree, value.weigh_lexemes, hend, hword, Nat.add_comm]
  | .returnsNothing => rfl
  | .declares name value =>
    have hequals : (Lexeme.punctuator "=").weight = 0 := rfl
    simp [Statement.lexemes, Statement.tree, value.weigh_lexemes, hend, hword, hname, hequals,
      Nat.add_comm]
  | .declaresNothing name => rfl
  | .function name params body =>
    have hparams : weigh (commaSeparated (params.map ([·.lexeme]))) =
        Tree.weightOfAll (params.map Name.tree) := weigh_commaSeparated fun _ _ => rfl
    have hopen : (Lexeme.punctuator "(").weight = 0 := rfl
    have hclose : (Lexeme.punctuator ")").weight = 0 := rfl
    have hbegin : (Lexeme.punctuator "\x7b").weight = 0 := rfl
    have hbrace : (Lexeme.punctuator "\x7d").weight = 1 := rfl
    simp only [Statement.lexemes, Statement.tree, Tree.weight_function, Tree.weight_block,
      weigh_cons, weigh_append, weigh_nil, hparams, Statement.weigh_all body, hword, hname, hopen,
      hclose, hbegin, hbrace]
    omega

/-- **A program weighs as much as its lexemes.** -/
theorem Statement.weigh_all (program : List Statement) :
    weigh (Statement.lexemesOfAll program) = Tree.weightOfAll (Statement.trees program) := by
  match program with
  | [] => rfl
  | first :: others =>
    rw [Statement.lexemesOfAll, weigh_append, first.weigh_lexemes, Statement.weigh_all others]
    rfl

end

/-! ### Reading without semicolons -/

/-- A declaration without a value whose semicolon is missing. -/
def Open (part : Statement × List Lexeme) : Prop :=
  ∃ name, part = (.declaresNothing name, [.keyword "var", name.lexeme])

/-- The lexemes of the statements of a program, one statement after the other. -/
theorem Omits.parts {program : List Statement} {lexemes : List Lexeme}
    (h : Omits (Statement.lexemesOfAll program) lexemes) :
    ∃ parts : List (Statement × List Lexeme), parts.map Prod.fst = program ∧
      parts.flatMap Prod.snd = lexemes ∧ ∀ part ∈ parts, Omits part.1.lexemes part.2 := by
  induction program generalizing lexemes with
  | nil =>
    cases h
    exact ⟨[], rfl, rfl, fun _ h => absurd h List.not_mem_nil⟩
  | cons first others ih =>
    obtain ⟨front, behind, rfl, hfront, hbehind⟩ := h.split
    obtain ⟨parts, rfl, rfl, hparts⟩ := ih hbehind
    exact ⟨(first, front) :: parts, rfl, rfl, List.forall_mem_cons.2 ⟨hfront, hparts⟩⟩

/-- Statements with something behind them end, each of them, if nothing is swallowed. -/
theorem closed_of_followed {parts : List (Statement × List Lexeme)} {next : Lexeme}
    {behind : List Lexeme} (hnext : ∀ mark, next = .punctuator mark → mark = "\x7d")
    (hopens : ∀ part ∈ parts, Opens part.2)
    (h : ¬Swallows (parts.flatMap Prod.snd ++ next :: behind)) :
    ∀ part ∈ parts, ¬Swallows part.2 ∧ ¬Open part := by
  induction parts with
  | nil => exact fun _ h => absurd h List.not_mem_nil
  | cons first others ih =>
    obtain ⟨-, hothers⟩ := List.forall_mem_cons.1 hopens
    rw [List.flatMap_cons, List.append_assoc] at h
    -- the first lexeme behind the first statement is no mark, unless it is the brace
    obtain ⟨second, more, hsecond, hmark⟩ : ∃ second more,
        others.flatMap Prod.snd ++ next :: behind = second :: more ∧
          ∀ mark, second = .punctuator mark → mark = "\x7d" := by
      cases others with
      | nil => exact ⟨next, behind, rfl, hnext⟩
      | cons part others =>
        obtain ⟨second, rest, hsecond, hmark⟩ := hothers part List.mem_cons_self
        exact ⟨second, _, by rw [List.flatMap_cons, hsecond]; rfl,
          fun mark heq => absurd heq (hmark mark)⟩
    refine List.forall_mem_cons.2 ⟨⟨fun hfirst => h ?_, ?_⟩, ih hothers fun hrest => h ?_⟩
    · exact hfirst.append [] _
    · rintro ⟨name, rfl⟩
      rw [hsecond] at h
      exact h ⟨[], _, rfl, name.text, second, more, rfl, hmark⟩
    · simpa using hrest.append first.2 []

/-- What stands in front of the body of a function has no semicolon. -/
theorem header_unterminated (name : Name) (params : List Name) :
    .punctuator ";" ∉ .keyword "function" :: name.lexeme :: .punctuator "(" ::
      (commaSeparated (params.map ([·.lexeme])) ++ [.punctuator ")", .punctuator "\x7b"]) := by
  have hparams : ∀ part ∈ params.map ([·.lexeme]), ∀ lexeme ∈ part,
      lexeme ≠ .punctuator ";" := by
    intro part hpart lexeme hlexeme
    obtain ⟨param, -, rfl⟩ := List.mem_map.1 hpart
    rw [List.mem_singleton.1 hlexeme]
    exact Lexeme.noConfusion
  have hall := forall_mem_commaSeparated (by simp) hparams
  simp only [List.mem_cons, List.mem_append, Name.lexeme, List.not_mem_nil]
  rintro (h | h | h | h | h | h | h)
  all_goals first
    | exact hall _ h rfl
    | simp at h

theorem Expression.unterminated (value : Expression) : .punctuator ";" ∉ value.lexemes := by
  intro hmem
  rcases value.parts _ hmem with ⟨object, hobject⟩ | ⟨mark, hmark, heq⟩
  · cases object <;> cases hobject
  · cases heq
    exact absurd hmark (by decide)

/-- The statements in the body of a function, none of which swallows the next or the brace. -/
theorem function_parts {name : Name} {params : List Name} {body : List Statement}
    {lexemes : List Lexeme} (h : Omits (Statement.function name params body).lexemes lexemes)
    (hswallows : ¬Swallows lexemes) :
    ∃ parts : List (Statement × List Lexeme), parts.map Prod.fst = body ∧
      lexemes = .keyword "function" :: name.lexeme :: .punctuator "(" ::
        (commaSeparated (params.map ([·.lexeme])) ++ .punctuator ")" :: .punctuator "\x7b" ::
          (parts.flatMap Prod.snd ++ [.punctuator "\x7d"])) ∧
      ∀ part ∈ parts, Omits part.1.lexemes part.2 ∧ ¬Swallows part.2 ∧ ¬Open part := by
  have hfull : Omits ((.keyword "function" :: name.lexeme :: .punctuator "(" ::
      (commaSeparated (params.map ([·.lexeme])) ++ [.punctuator ")", .punctuator "\x7b"])) ++
      (Statement.lexemesOfAll body ++ [.punctuator "\x7d"])) lexemes := by
    simpa [Statement.lexemes] using h
  obtain ⟨front, behind, rfl, hfront, hbehind⟩ := hfull.split
  obtain rfl := hfront.eq_of_not_mem (header_unterminated name params)
  obtain ⟨inside, last, rfl, hinside, hlast⟩ := hbehind.split
  obtain rfl := hlast.eq_of_not_mem (by simp)
  obtain ⟨parts, hbody, rfl, hparts⟩ := hinside.parts
  have hopens : ∀ part ∈ parts, Opens part.2 := fun part hpart =>
    (hparts part hpart).opens part.1.opens
  have hrest : ¬Swallows (parts.flatMap Prod.snd ++ [.punctuator "\x7d"]) := by
    intro hrest
    refine hswallows ?_
    rw [← List.append_nil (_ ++ _)]
    exact hrest.append _ []
  have hclosed := closed_of_followed (by simp) hopens hrest
  exact ⟨parts, hbody, by simp, fun part hpart => ⟨hparts part hpart, hclosed part hpart⟩⟩

mutual

theorem Statement.reads_omitting (statement : Statement) (hcomplete : statement.complete = true)
    (room : Nat) (hroom : statement.levels ≤ room) (depth : Nat) {lexemes : List Lexeme}
    (h : Omits statement.lexemes lexemes)
    (hclosed : ¬Swallows lexemes ∧ ¬Open (statement, lexemes)) :
    Reads depth afterStatement (elementWith (assignmentAt room) (bodyAt room)) lexemes
      statement.tree := by
  match statement with
  | .expression value =>
    have hvalue := value.reads room hroom depth
    rcases h.terminated value.unterminated with rfl | rfl
    · exact statement_expression value hvalue
    · exact statement_unterminated value hvalue
  | .returns value =>
    have hvalue := value.reads room hroom depth
    have hfull : Omits ((.keyword "return" :: value.lexemes) ++ [.punctuator ";"]) lexemes := h
    have hfree : .punctuator ";" ∉ .keyword "return" :: value.lexemes := by
      simpa using value.unterminated
    rcases hfull.terminated hfree with rfl | rfl
    · exact statement_return (terminated Tree.returnStatement hvalue)
    · exact statement_return
        (unterminated Tree.returnStatement (by decide) (hvalue.mono (by decide)))
  | .returnsNothing => cases hcomplete
  | .declares name value =>
    have hvalue := value.reads room hroom depth
    have hfull : Omits ((.keyword "var" :: name.lexeme :: .punctuator "=" :: value.lexemes) ++
      [.punctuator ";"]) lexemes := h
    have hfree : .punctuator ";" ∉
        .keyword "var" :: name.lexeme :: .punctuator "=" :: value.lexemes := by
      simpa [Name.lexeme] using value.unterminated
    rcases hfull.terminated hfree with rfl | rfl
    · exact statement_var (terminated id (declaration_equals name hvalue))
    · exact statement_var
        (unterminated id (by decide) (declaration_equals name (hvalue.mono (by decide))))
  | .declaresNothing name =>
    have hfull : Omits ([.keyword "var", name.lexeme] ++ [.punctuator ";"]) lexemes := h
    rcases hfull.terminated (by simp [Name.lexeme]) with rfl | rfl
    · exact statement_var (unterminated id (by decide) (declaration_nothing name))
    · exact absurd ⟨name, rfl⟩ hclosed.2
  | .function name params body =>
    rw [Statement.levels] at hroom
    obtain ⟨room, rfl⟩ : ∃ n, room = n + 1 := ⟨room - 1, by omega⟩
    obtain ⟨parts, hbody, rfl, hparts⟩ := function_parts h hclosed.1
    have hstatements := Statement.reads_omitting_each body hcomplete room (by omega) (depth + 1)
    have hitems : ∀ part ∈ parts,
        Reads (depth + 1) afterStatement (elementWith (assignmentAt room) (bodyAt room)) part.2
          part.1.tree ∧ Opens part.2 := by
      intro part hpart
      obtain ⟨homits, hclosed⟩ := hparts part hpart
      have hmem : part.1 ∈ body := hbody ▸ List.mem_map_of_mem hpart
      exact ⟨hstatements part.1 hmem part.2 homits hclosed, homits.opens part.1.opens⟩
    have htrees : Statement.trees body = parts.map fun part => part.1.tree := by
      rw [Statement.trees_eq, ← hbody, List.map_map]
      rfl
    rw [Statement.tree, htrees]
    exact function_reads name params (.deeper (body_reads hitems))

/-- The statements of a body. -/
theorem Statement.reads_omitting_each (statements : List Statement)
    (hcomplete : Statement.completeAll statements = true) (room : Nat)
    (hroom : Statement.levelsOfAll statements ≤ room) (depth : Nat) :
    ∀ statement ∈ statements, ∀ lexemes, Omits statement.lexemes lexemes →
      ¬Swallows lexemes ∧ ¬Open (statement, lexemes) →
        Reads depth afterStatement (elementWith (assignmentAt room) (bodyAt room)) lexemes
          statement.tree := by
  match statements with
  | [] => exact fun _ h => absurd h List.not_mem_nil
  | first :: others =>
    rw [Statement.levelsOfAll] at hroom
    rw [Statement.completeAll, Bool.and_eq_true] at hcomplete
    intro statement hstatement lexemes h hclosed
    rcases List.mem_cons.1 hstatement with hfirst | hstatement
    · rw [hfirst] at h hclosed ⊢
      exact first.reads_omitting hcomplete.1 room (by omega) depth h hclosed
    · exact Statement.reads_omitting_each others hcomplete.2 room (by omega) depth statement
        hstatement lexemes h hclosed

end

/-! ### Programs without semicolons -/

variable {program : List Statement}

/-- At the end of a text a declaration without a value needs no semicolon. -/
theorem readTokens_open (name : String) (line line' : Int) (file : Option String) :
    readTokens ⟨[⟨.keyword "var", line⟩, ⟨.identifier name, line'⟩], none⟩ file =
      .ok [.declaration [.declarator (.identifier name) .hole]] := by
  rfl

/-- The last statement of a text, which may be such a declaration. -/
theorem readTokens_last {part : Statement × List Lexeme} {tokens : List Token}
    (htokens : tokens.map (·.lexeme) = part.2)
    (hitem : ¬Open part → Item afterStatement part.2 part.1.tree) (file : Option String) :
    readTokens ⟨tokens, none⟩ file = .ok [part.1.tree] := by
  by_cases hopen : Open part
  · obtain ⟨name, rfl⟩ := hopen
    obtain ⟨⟨_, line⟩, others, rfl, rfl, hothers⟩ := List.map_eq_cons_iff.1 htokens
    obtain ⟨⟨_, line'⟩, rest, rfl, rfl, hrest⟩ := List.map_eq_cons_iff.1 hothers
    obtain rfl := List.map_eq_nil_iff.1 hrest
    exact readTokens_open name.text line line' file
  · have hitems : ∀ item ∈ [part], Item afterStatement item.2 item.1.tree :=
      List.forall_mem_singleton.2 (hitem hopen)
    have hall : tokens.map (·.lexeme) = [part].flatMap Prod.snd := by simpa using htokens
    have hread : readTokens ((⟨[], none⟩ : Scan).prepend tokens) file =
        (readTokens ⟨[], none⟩ file).map ([part.1.tree] ++ ·) :=
      readTokens_items hitems hall fun _ _ => by simp [Scan.first]
    rw [Scan.prepend, List.append_nil] at hread
    exact hread

/-- A statement of a program that ends, with its semicolon or without. -/
theorem item_omitting (hcomplete : Statement.completeAll program = true)
    (hroom : Statement.levelsOfAll program ≤ maxNesting) {part : Statement × List Lexeme}
    (hmem : part.1 ∈ program) (h : Omits part.1.lexemes part.2)
    (hclosed : ¬Swallows part.2 ∧ ¬Open part) : Item afterStatement part.2 part.1.tree :=
  ⟨.room (Statement.reads_omitting_each program hcomplete maxNesting hroom 0 part.1 hmem part.2 h
    hclosed), h.opens part.1.opens, part.1.tree_isHole⟩

/-- **Statement after statement is read,** if nothing is swallowed. All but the last have something
behind them, and the last ends with the text. -/
theorem readTokens_omitting (hcomplete : Statement.completeAll program = true)
    (hroom : Statement.levelsOfAll program ≤ maxNesting) {tokens : List Token}
    (h : Omits (Statement.lexemesOfAll program) (tokens.map (·.lexeme)))
    (hswallows : ¬Swallows (tokens.map (·.lexeme))) (file : Option String) :
    readTokens ⟨tokens, none⟩ file = .ok (Statement.trees program) := by
  obtain ⟨parts, hprogram, hlexemes, hparts⟩ := h.parts
  have hitem : ∀ part ∈ parts, ¬Swallows part.2 ∧ ¬Open part →
      Item afterStatement part.2 part.1.tree := fun part hpart =>
    item_omitting hcomplete hroom (hprogram ▸ List.mem_map_of_mem hpart) (hparts part hpart)
  have hopens : ∀ part ∈ parts, Opens part.2 := fun part hpart =>
    (hparts part hpart).opens part.1.opens
  have htrees : Statement.trees program = parts.map fun part => part.1.tree := by
    rw [Statement.trees_eq, ← hprogram, List.map_map]
    rfl
  rw [htrees]
  rcases List.eq_nil_or_concat parts with rfl | ⟨front, last, hconcat⟩
  · obtain rfl := List.map_eq_nil_iff.1 hlexemes.symm
    rfl
  · rw [List.concat_eq_append] at hconcat
    subst hconcat
    obtain ⟨hfront, hend⟩ := List.forall_mem_append.1 hopens
    rw [List.flatMap_append, List.flatMap_singleton] at hlexemes
    obtain ⟨before, behind, rfl, hbefore, hbehind⟩ := List.map_eq_append_iff.1 hlexemes.symm
    rw [← hlexemes] at hswallows
    obtain ⟨first, rest, hfirst, hmark⟩ := hend last List.mem_cons_self
    have hclosed : ∀ part ∈ front, ¬Swallows part.2 ∧ ¬Open part := by
      rw [hfirst] at hswallows
      exact closed_of_followed (fun mark heq => absurd heq (hmark mark)) hfront hswallows
    have hread : readTokens ((⟨behind, none⟩ : Scan).prepend before) file =
        (readTokens ⟨behind, none⟩ file).map (front.map (fun part => part.1.tree) ++ ·) := by
      refine readTokens_items (fun part hpart =>
        hitem part (List.mem_append_left _ hpart) (hclosed part hpart)) hbefore ?_
      have hclear := (hend last List.mem_cons_self).clear afterStatement none
      rwa [← hbehind, List.head?_map, Option.or_none] at hclear
    have hlast : readTokens ⟨behind, none⟩ file = .ok [last.1.tree] := by
      refine readTokens_last hbehind (fun hopen => hitem last (by simp) ⟨fun h => ?_, hopen⟩) file
      have hwhole := h.append (front.flatMap Prod.snd) []
      rw [List.append_nil] at hwhole
      exact hswallows hwhole
    rw [Scan.prepend, hlast] at hread
    rw [List.map_append]
    exact hread

/-- **Semicolons are optional.** Take a well-formed program of at most `maxNesting` levels without a
lone `return`, written down with all of its semicolons, and again with any of them left out, either
in any layout. Both texts read as the same program, exactly if no declaration without a value has
lost its semicolon in front of another statement or of the brace that closes its body. -/
theorem readScript_omitting (hcomplete : Statement.completeAll program = true)
    (hroom : Statement.levelsOfAll program ≤ maxNesting) {full : String}
    (hfull : Written program full) {lexemes : List Lexeme}
    (h : Omits (Statement.lexemesOfAll program) lexemes) {tokens : List Token} {text : String}
    (htypeset : Typeset 1 tokens text.toList) (htokens : tokens.map (·.lexeme) = lexemes)
    (file : Option String) :
    readScript full file = .ok (Statement.trees program) ∧
      (readScript text file = readScript full file ↔ ¬Swallows lexemes) := by
  have hall := readScript_of_written hfull hroom file
  subst htokens
  refine ⟨hall, ?_⟩
  rw [hall, readScript, scan_typeset htypeset]
  constructor
  · intro hread
    -- the program weighs as much as its lexemes, so none of them has been lost
    refine (readTokens_saves hread).2 ?_
    rw [h.weigh_eq, Statement.weigh_all]
  · exact fun hswallows => readTokens_omitting hcomplete hroom h hswallows file

/-- `var now = 7; var then; then = now;` -/
def later : List Statement :=
  let now : Name := ⟨'n', ['o', 'w'], by decide, List.all_eq_true.1 (by decide), by decide⟩
  let next : Name := ⟨'t', ['h', 'e', 'n'], by decide, List.all_eq_true.1 (by decide), by decide⟩
  [.declares now (.single (.plain ⟨.number ⟨7, by decide⟩, none⟩)), .declaresNothing next,
    .expression (.assignment (.plain ⟨.name next, none⟩) (.single (.plain ⟨.name now, none⟩)))]

/-- The same with a single semicolon, which is the one that is needed. -/
def laterTersely : List Lexeme :=
  [.keyword "var", .identifier "now", .punctuator "=", .number 7, .keyword "var",
    .identifier "then", .punctuator ";", .identifier "then", .punctuator "=", .identifier "now"]

theorem readScript_omitting_later :
    Statement.completeAll later = true ∧ Statement.levelsOfAll later ≤ maxNesting ∧
      Omits (Statement.lexemesOfAll later) laterTersely ∧ ¬Swallows laterTersely ∧
      readScript "var now = 7 var then ; then = now " none =
        readScript "var now = 7 ; var then ; then = now ; " none := by
  have hcomplete : Statement.completeAll later = true := by decide
  have hroom : Statement.levelsOfAll later ≤ maxNesting := by decide
  have homits : Omits (Statement.lexemesOfAll later) laterTersely :=
    .keep _ <| .keep _ <| .keep _ <| .keep _ <| .leave <| .keep _ <| .keep _ <| .keep _ <| .keep _ <|
      .keep _ <| .keep _ <| .leave .nil
  have hfull : Written later "var now = 7 ; var then ; then = now ; " := by
    have hprint : print later = "var now = 7 ; var then ; then = now ; " := by decide +kernel
    exact hprint ▸ written_print later
  have htypeset : Typeset 1 (laterTersely.map (⟨·, (1 : Nat)⟩))
      "var now = 7 var then ; then = now ".toList := by
    have hterse : "var now = 7 var then ; then = now ".toList = spelledOut laterTersely := by
      decide +kernel
    rw [hterse]
    exact homits.typeset
  obtain ⟨hall, hiff⟩ := readScript_omitting hcomplete hroom hfull homits htypeset rfl none
  have hread : readScript "var now = 7 var then ; then = now " none =
      .ok (Statement.trees later) := by
    cbv
  exact ⟨hcomplete, hroom, homits, hiff.1 (hread.trans hall.symm), hread.trans hall.symm⟩

/-- `var now; then;` -/
def swallowing : List Statement :=
  let now : Name := ⟨'n', ['o', 'w'], by decide, List.all_eq_true.1 (by decide), by decide⟩
  let next : Name := ⟨'t', ['h', 'e', 'n'], by decide, List.all_eq_true.1 (by decide), by decide⟩
  [.declaresNothing now, .expression (.single (.plain ⟨.name next, none⟩))]

/-- The same without the semicolon behind the declaration. -/
def swallowed : List Lexeme :=
  [.keyword "var", .identifier "now", .identifier "then", .punctuator ";"]

/-- The declaration takes the next statement for its initializer. -/
theorem readScript_swallowed :
    Statement.completeAll swallowing = true ∧ Statement.levelsOfAll swallowing ≤ maxNesting ∧
      Written swallowing "var now ; then ; " ∧ Omits (Statement.lexemesOfAll swallowing) swallowed ∧
      (∃ tokens, Typeset 1 tokens "var now then ; ".toList ∧ tokens.map (·.lexeme) = swallowed) ∧
      readScript "var now then ; " none =
        .ok [.declaration [.declarator (.identifier "now") .hole]] ∧
      readScript "var now then ; " none ≠ readScript "var now ; then ; " none := by
  have hroom : Statement.levelsOfAll swallowing ≤ maxNesting := by decide
  have hwritten : Written swallowing "var now ; then ; " := by
    have hprint : print swallowing = "var now ; then ; " := by decide +kernel
    exact hprint ▸ written_print swallowing
  have homits : Omits (Statement.lexemesOfAll swallowing) swallowed :=
    .keep _ <| .keep _ <| .leave <| .keep _ <| .keep _ .nil
  have htypeset : Typeset 1 (swallowed.map (⟨·, (1 : Nat)⟩)) "var now then ; ".toList := by
    have hterse : "var now then ; ".toList = spelledOut swallowed := by decide +kernel
    rw [hterse]
    exact homits.typeset
  have hread : readScript "var now then ; " none =
      .ok [.declaration [.declarator (.identifier "now") .hole]] := by
    cbv
  refine ⟨by decide, hroom, hwritten, homits, ⟨_, htypeset, rfl⟩, hread, ?_⟩
  rw [hread, readScript_of_written hwritten hroom none]
  intro heq
  cases Except.ok.inj heq

end PageScript.Source
