import PageScript.Proofs.Grammar.Lines
import PageScript.Proofs.Grammar.Scripts
import PageScript.Proofs.Source.Printing
import PageScript.Proofs.Source.Reading

/-!
# Reading a program back

A well-formed program that is written down and read again gives its own trees, and whatever text
stands behind it is read as it would be by itself.

* `readTokens_reads` — the tokens of a program read as its trees, followed by those of the rest;
* `scan_written` — a text that a program is written as is cut into the tokens of the program;
* `readScript_of_written` — a text that a program is written as reads as its trees;
* `readScript_written` — and so does its beginning, whatever text is behind it.
-/

namespace PageScript

theorem Scan.first_shift (lines : Int) (scan : Scan) : (scan.shift lines).first = scan.first := by
  obtain ⟨tokens, failure⟩ := scan
  cases tokens <;> rfl

namespace Source

open Grammar

theorem Statement.tree_isHole (statement : Statement) : statement.tree.isHole = false := by
  cases statement <;> rfl

/-- **The tokens of a program** read as its trees, and the tokens behind them as if there had been
none before. -/
theorem readTokens_reads {program : List Statement}
    (hroom : Statement.levelsOfAll program ≤ maxNesting) {tokens : List Token} {rest : Scan}
    {file : Option String} (htokens : tokens.map (·.lexeme) = Statement.lexemesOfAll program)
    (hclear : Clear afterStatement rest.first) :
    readTokens (rest.prepend tokens) file =
      (readTokens rest file).map (Statement.trees program ++ ·) := by
  have hitems : ∀ statement ∈ program,
      Item afterStatement statement.lexemes statement.tree := fun statement h =>
    ⟨.room (Statement.reads_each program maxNesting hroom 0 statement h), statement.opens,
      statement.tree_isHole⟩
  rw [Statement.lexemesOfAll_eq] at htokens
  rw [Statement.trees_eq, readTokens_items hitems htokens hclear]

/-! ### Texts -/

/-- Every statement ends in a mark. -/
theorem Statement.ends (statement : Statement) :
    ∃ front mark, statement.lexemes = front ++ [.punctuator mark] := by
  cases statement with
  | expression value => exact ⟨_, _, rfl⟩
  | returns value => exact ⟨.keyword "return" :: value.lexemes, _, rfl⟩
  | returnsNothing => exact ⟨[.keyword "return"], _, rfl⟩
  | declares name value =>
    exact ⟨.keyword "var" :: name.lexeme :: .punctuator "=" :: value.lexemes, _, rfl⟩
  | declaresNothing name => exact ⟨[.keyword "var", name.lexeme], _, rfl⟩
  | function name params body =>
    refine ⟨.keyword "function" :: name.lexeme :: .punctuator "(" ::
      (commaSeparated (params.map ([·.lexeme])) ++ .punctuator ")" :: .punctuator "\x7b" ::
        Statement.lexemesOfAll body), "\x7d", ?_⟩
    simp [Statement.lexemes]

/-- The last lexeme of a program is a mark, so it swallows nothing of what follows. -/
theorem Statement.last_absorbs (program : List Statement) :
    ∀ last ∈ (Statement.lexemesOfAll program).getLast?, ∀ c, last.absorbs c = false := by
  induction program with
  | nil => exact fun _ h => absurd h (Option.not_mem_none _)
  | cons first others ih =>
    intro last hlast c
    rw [Statement.lexemesOfAll, List.getLast?_append] at hlast
    cases hothers : (Statement.lexemesOfAll others).getLast? with
    | some other =>
      rw [hothers] at hlast
      obtain rfl := Option.some.inj hlast
      exact ih other hothers c
    | none =>
      obtain ⟨front, mark, hfirst⟩ := first.ends
      rw [hothers, hfirst, List.getLast?_append] at hlast
      obtain rfl := Option.some.inj hlast
      rfl

/-- **A program that is written down** is cut into its tokens, and the text behind it as it would be
some lines further down. -/
theorem scan_written {program : List Statement} {text : String} (hwritten : Written program text)
    (source : String) (file : Option String) :
    ∃ tokens, tokens.map (·.lexeme) = Statement.lexemesOfAll program ∧
      scan (text ++ source) file =
        ((scan source file).shift (text.toList.count '\n' : Nat)).prepend tokens := by
  obtain ⟨tokens, htypeset, htokens⟩ := hwritten
  refine ⟨tokens, htokens, ?_⟩
  have hlast : ∀ last ∈ tokens.getLast?, ∀ c ∈ source.toList.head?,
      last.lexeme.absorbs c = false := by
    intro last hlast c _
    refine Statement.last_absorbs program last.lexeme ?_ c
    rw [← htokens, List.getLast?_map, Option.mem_def.1 hlast]
    rfl
  rw [scan, String.toList_append, htypeset.scanFrom_append file source.toList hlast,
    scanFrom_shift, scan]

section

variable {program : List Statement} {text : String} {file : Option String}

/-- A text that is cut into the tokens of a program reads as its trees. -/
theorem readScript_of_scan (hroom : Statement.levelsOfAll program ≤ maxNesting)
    {tokens : List Token} (htokens : tokens.map (·.lexeme) = Statement.lexemesOfAll program)
    (hscan : scan text file = ⟨tokens, none⟩) :
    readScript text file = .ok (Statement.trees program) := by
  have hread : readTokens ((⟨[], none⟩ : Scan).prepend tokens) file =
      (readTokens ⟨[], none⟩ file).map (Statement.trees program ++ ·) :=
    readTokens_reads hroom htokens fun _ _ => nofun
  have hrest : (⟨[], none⟩ : Scan).prepend tokens = ⟨tokens, none⟩ := by
    rw [Scan.prepend, List.append_nil]
  have hnone : readTokens ⟨[], none⟩ file = .ok [] := rfl
  rw [hrest, hnone] at hread
  rw [readScript, hscan, hread]
  show Except.ok (Statement.trees program ++ []) = _
  rw [List.append_nil]

/-- A text that a program is written as is cut into the tokens of the program. -/
theorem scan_of_written (h : Written program text) (file : Option String) :
    ∃ tokens, tokens.map (·.lexeme) = Statement.lexemesOfAll program ∧
      scan text file = ⟨tokens, none⟩ := by
  obtain ⟨tokens, htypeset, htokens⟩ := h
  exact ⟨tokens, htokens, scan_typeset htypeset file⟩

theorem readScript_of_written (h : Written program text)
    (hroom : Statement.levelsOfAll program ≤ maxNesting) (file : Option String) :
    readScript text file = .ok (Statement.trees program) := by
  obtain ⟨tokens, htokens, hscan⟩ := scan_of_written h file
  exact readScript_of_scan hroom htokens hscan

end

/-- **Reading undoes writing, whatever text follows.** A well-formed program of at most `maxNesting`
levels, written down in any layout in front of a text that does not go on with its last statement,
reads as its own trees followed by what that text reads as. If the text fails to read, so does the
whole, in the same way and on the same line of that text. -/
theorem readScript_written {program : List Statement} {text : String}
    (hwritten : Written program text) (hroom : Statement.levelsOfAll program ≤ maxNesting)
    (source : String) (file : Option String)
    (hnext : Clear afterStatement (scan source file).first) :
    readScript (text ++ source) file =
      ((readScript source file).mapError (Stop.shift (text.toList.count '\n' : Nat))).map
        (Statement.trees program ++ ·) := by
  obtain ⟨tokens, htokens, hscan⟩ := scan_written hwritten source file
  have hclear : Clear afterStatement
      ((scan source file).shift (text.toList.count '\n' : Nat)).first := by
    rw [Scan.first_shift]
    exact hnext
  rw [readScript, hscan, readTokens_reads hroom htokens hclear, readTokens_shift, readScript]

/-- `function f(a) { return a + 1; } var x = f(2); return;` -/
def sample : List Statement :=
  let name (c : Char) (hc : isNameStart c) (hfree : keywords.contains (String.ofList [c]) = false) :
      Name := ⟨c, [], hc, fun _ h => absurd h List.not_mem_nil, hfree⟩
  let plain (object : Primary) : Callee := .plain ⟨object, none⟩
  let f := name 'f' (by decide) (by decide)
  let a := name 'a' (by decide) (by decide)
  [.function f [a] [.returns (.additive .plus (plain (.name a))
      (.single (plain (.number ⟨1, by decide⟩))))],
    .declares (name 'x' (by decide) (by decide))
      (.single (.call ⟨.name f, none⟩ [.single (plain (.number ⟨2, by decide⟩))])),
    .returnsNothing]

/-- The sample in front of an assignment on the next line. -/
theorem readScript_written_sample :
    Statement.levelsOfAll sample ≤ maxNesting ∧
      Clear afterStatement (scan "x = 3" none).first ∧
      (readScript (print sample ++ "\n" ++ "x = 3") none).toOption =
        some (Statement.trees sample ++
          [.expressionStatement (.assignment .assign (.identifier "x") (.number 3))]) := by
  have hwritten : Written sample (print sample ++ "\n") :=
    (written_print sample).append_gaps (by simp [isGap])
  have hroom : Statement.levelsOfAll sample ≤ maxNesting := by decide
  have hnext : Clear afterStatement (scan "x = 3" none).first := by
    have hfirst : (scan "x = 3" none).first = some (.identifier "x") := by decide +kernel
    rw [hfirst]
    simp [Clear]
  have hsource : (readScript "x = 3" none).toOption =
      some [.expressionStatement (.assignment .assign (.identifier "x") (.number 3))] := by
    decide +kernel
  refine ⟨hroom, hnext, ?_⟩
  rw [readScript_written hwritten hroom "x = 3" none hnext]
  cases hread : readScript "x = 3" none with
  | ok trees =>
    rw [hread] at hsource
    obtain rfl := Option.some.inj hsource
    rfl
  | error stop =>
    rw [hread] at hsource
    exact absurd hsource (by simp [Except.toOption])

end Source

end PageScript
