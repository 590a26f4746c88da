import PageScript.Proofs.Evaluation.Piecemeal
import PageScript.Proofs.Source.RoundTrip
import PageScript.Proofs.Source.Continuation

/-!
# Programs on lines of their own

A program can be laid out so that no line holds parts of two statements: a function takes up one or
more lines of its own, and every other statement exactly one.

* `OnLines` — some lines with a statement on them, as they could be typed at the prompt;
* `Layout` — the lines of a program, statement by statement;
* `fileText` — lines as the text of a file;
* `Layout.reads`, `OnLines.reads` — the lines of a program read as its trees when they are taken
  together, and those of a statement as its tree;
* `written_rows` — a program over several lines, with as many lexemes on each as one likes.
-/

namespace PageScript.Source

open Grammar

/-- Whether a statement is the declaration of a function. -/
def Statement.isFunction : Statement → Bool
  | .function .. => true
  | _ => false

theorem Statement.tree_isFunction (statement : Statement) :
    statement.tree.isFunction = statement.isFunction := by
  cases statement <;> rfl

/-- Some lines with a statement on them and nothing else. None of them is vacant, and none would end
a session. -/
structure OnLines (statement : Statement) (lines : List String) : Prop where
  written : Written [statement] ("\n".intercalate lines)
  nonempty : lines ≠ []
  single : statement.isFunction = false → lines.length = 1
  filled : ∀ line ∈ lines, (scan line Prompt.file).tokens ≠ []
  unreturned : ∀ line ∈ lines, '\r' ∉ line.toList
  stays : ∀ line ∈ lines, Prompt.farewells.contains (Text.strip line) = false

/-- The lines of a program, statement by statement. -/
inductive Layout : List Statement → List (List String) → Prop
  | nil : Layout [] []
  | cons {statement : Statement} {program : List Statement} {lines : List String}
      {paragraphs : List (List String)} : OnLines statement lines → Layout program paragraphs →
      Layout (statement :: program) (lines :: paragraphs)

/-! ### Reading -/

variable {program : List Statement} {text : String} {paragraphs : List (List String)}

/-- The lines of a statement read as its tree. -/
theorem OnLines.reads {statement : Statement} {lines : List String} (h : OnLines statement lines)
    (hroom : statement.levels ≤ maxNesting) (file : Option String) :
    readScript ("\n".intercalate lines) file = .ok [statement.tree] := by
  have hlevels : Statement.levelsOfAll [statement] ≤ maxNesting := by
    simpa [Statement.levelsOfAll] using hroom
  exact readScript_of_written h.written hlevels file

/-- The lines of a program, taken together, are cut into its tokens. -/
theorem Layout.scans (h : Layout program paragraphs) (file : Option String) :
    ∃ tokens, tokens.map (·.lexeme) = Statement.lexemesOfAll program ∧
      scan ("\n".intercalate paragraphs.flatten) file = ⟨tokens, none⟩ := by
  induction h with
  | nil => exact ⟨[], rfl, rfl⟩
  | @cons statement program lines paragraphs hlines hprogram ih =>
    obtain ⟨first, hfirst, hscan⟩ := scan_of_written hlines.written file
    rw [Statement.lexemesOfAll, Statement.lexemesOfAll, List.append_nil] at hfirst
    obtain ⟨others, hothers, hrest⟩ := ih
    rw [Statement.lexemesOfAll, ← hfirst, ← hothers, List.flatten_cons]
    by_cases hne : paragraphs.flatten = []
    · -- the text of no lines has no tokens
      rw [hne] at hrest ⊢
      obtain rfl : others = [] := (congrArg Scan.tokens hrest).symm
      rw [List.append_nil]
      exact ⟨first, (List.append_nil _).symm, hscan⟩
    · let below : List Token := others.map
        (.shift (("\n".intercalate lines).toList.count '\n' + 1 : Nat))
      refine ⟨first ++ below, ?_, ?_⟩
      · rw [List.map_append, List.map_map]
        rfl
      · rw [String.intercalate_append_of_ne_nil hlines.nonempty hne, scan_below, hscan, hrest]
        rfl

/-- The end of a line at the end of a text makes no difference. -/
theorem scan_ended (text : String) (file : Option String) :
    scan (text ++ "\n") file = scan text file := by
  have hbelow := scan_below text "" file
  rw [String.append_empty] at hbelow
  rw [hbelow]
  obtain ⟨tokens, failure⟩ := scan text file
  cases failure with
  | some failure => rfl
  | none =>
    show (⟨tokens ++ [], none⟩ : Scan) = _
    rw [List.append_nil]

/-- The text of a file with some lines. Its last line may be ended or not. -/
def fileText (lines : List String) (ended : Bool) : String :=
  if ended then "\n".intercalate lines ++ "\n" else "\n".intercalate lines

/-- **The lines of a program,** taken together, read as its trees. -/
theorem Layout.reads (h : Layout program paragraphs)
    (hroom : Statement.levelsOfAll program ≤ maxNesting) (ended : Bool) (file : Option String) :
    readScript (fileText paragraphs.flatten ended) file = .ok (Statement.trees program) := by
  obtain ⟨tokens, htokens, hscan⟩ := h.scans file
  have hended : scan (fileText paragraphs.flatten ended) file = ⟨tokens, none⟩ := by
    cases ended with
    | false => exact hscan
    | true => exact (scan_ended _ file).trans hscan
  exact readScript_of_scan hroom htokens hended

/-! ### Characters -/

theorem Layout.forall_lines {p : String → Prop} (h : Layout program paragraphs)
    (hp : ∀ statement lines, OnLines statement lines → ∀ line ∈ lines, p line) :
    ∀ line ∈ paragraphs.flatten, p line := by
  induction h with
  | nil => exact fun _ h => absurd h List.not_mem_nil
  | cons hlines _ ih =>
    rw [List.flatten_cons, List.forall_mem_append]
    exact ⟨hp _ _ hlines, ih⟩

/-- Lines that are joined hold no characters but their own and the ends of lines. -/
theorem not_mem_joined {c : Char} (hc : c ≠ '\n') {lines : List String}
    (h : ∀ line ∈ lines, c ∉ line.toList) : c ∉ ("\n".intercalate lines).toList := by
  induction lines with
  | nil => exact List.not_mem_nil
  | cons line lines ih =>
    obtain ⟨hline, hlines⟩ := List.forall_mem_cons.1 h
    cases lines with
    | nil => rwa [String.intercalate_singleton]
    | cons next lines =>
      rw [String.intercalate_cons_cons, String.toList_append, String.toList_append]
      intro hmem
      rcases List.mem_append.1 hmem with hmem | hmem
      · rcases List.mem_append.1 hmem with hmem | hmem
        · exact hline hmem
        · exact hc (List.mem_singleton.1 hmem)
      · exact ih hlines hmem

/-- A file with the lines of a program holds no carriage return. -/
theorem Layout.unreturned (h : Layout program paragraphs) (ended : Bool) :
    '\r' ∉ (fileText paragraphs.flatten ended).toList := by
  have hjoined := not_mem_joined (by decide) (h.forall_lines fun _ _ h => h.unreturned)
  cases ended with
  | false => exact hjoined
  | true =>
    show '\r' ∉ (_ ++ "\n").toList
    rw [String.toList_append, List.mem_append]
    rintro (hmem | hmem)
    · exact hjoined hmem
    · exact absurd (List.mem_singleton.1 hmem) (by decide)

/-! ### Several lines -/

/-- Lexemes on several lines, each with a blank behind it. -/
def rowsText (rows : List (List Lexeme)) : List String :=
  rows.map fun row => String.ofList (spelledOut row)

theorem typeset_rows (line : Nat) {rows : List (List Lexeme)}
    (h : ∀ row ∈ rows, ∀ lexeme ∈ row, lexeme.Writable) :
    ∃ tokens, tokens.map (·.lexeme) = rows.flatten ∧
      Typeset line tokens ("\n".intercalate (rowsText rows)).toList := by
  induction rows generalizing line with
  | nil => exact ⟨[], rfl, .nil⟩
  | cons row rows ih =>
    obtain ⟨hrow, hrows⟩ := List.forall_mem_cons.1 h
    have hfirst := typeset_spelledOut line hrow
    have hlexemes : (row.map (⟨·, line⟩ : Lexeme → Token)).map (·.lexeme) = row := by
      rw [List.map_map]
      exact List.map_id _
    cases rows with
    | nil =>
      refine ⟨row.map (⟨·, line⟩), ?_, ?_⟩
      · rw [hlexemes, List.flatten_cons, List.flatten_nil, List.append_nil]
      · simpa [rowsText] using hfirst
    | cons next rows =>
      obtain ⟨below, hbelow, htypeset⟩ := ih (line + (spelledOut row).count '\n' + 1) hrows
      refine ⟨row.map (⟨·, line⟩) ++ below, ?_, ?_⟩
      · rw [List.map_append, hlexemes, hbelow]
        rfl
      · have hall := hfirst.append_line htypeset
        simpa [rowsText, String.intercalate_cons_cons] using hall

/-- **A program over several lines,** with as many lexemes on each as one likes. -/
theorem written_rows {rows : List (List Lexeme)}
    (h : rows.flatten = Statement.lexemesOfAll program) :
    Written program ("\n".intercalate (rowsText rows)) := by
  have hwritable : ∀ row ∈ rows, ∀ lexeme ∈ row, lexeme.Writable := fun row hrow lexeme hlexeme =>
    Statement.writable_all program lexeme (h ▸ List.mem_flatten.2 ⟨row, hrow, hlexeme⟩)
  obtain ⟨tokens, htokens, htypeset⟩ := typeset_rows 1 hwritable
  exact ⟨tokens, htypeset, htokens.trans h⟩

theorem onLines_rows {statement : Statement} {rows : List (List Lexeme)}
    (hjoin : rows.flatten = statement.lexemes) (hne : rows ≠ [])
    (hsingle : statement.isFunction = false → rows.length = 1)
    (hlines : ∀ line ∈ rowsText rows, (scan line Prompt.file).tokens ≠ [] ∧ '\r' ∉ line.toList ∧
      Prompt.farewells.contains (Text.strip line) = false) :
    OnLines statement (rowsText rows) where
  written := written_rows (hjoin.trans (List.append_nil _).symm)
  nonempty h := hne (List.map_eq_nil_iff.1 h)
  single h := (List.length_map _).trans (hsingle h)
  filled line h := (hlines line h).1
  unreturned line h := (hlines line h).2.1
  stays line h := (hlines line h).2.2

end PageScript.Source
