import PageScript.Proofs.Source.Syntax

/-!
# Printing well-formed programs

Every well-formed program can be written down. How it is laid out, which quotes its texts stand
between and how many zeros its numbers start with is left to the writer.

* `Written` — the texts that a program may be written as;
* `Lexeme.Writable` — the lexemes that a text can hold;
* `Lexeme.spelled` — one spelling for each of them;
* `IsPart`, `Expression.parts` — the lexemes of expressions;
* `Statement.writable` — a well-formed program has no lexemes that cannot be written;
* `print`, `written_print` — one text for each program.
-/

namespace PageScript

/-! ### Lexemes -/

/-- The lexemes that a text can hold. -/
def Lexeme.Writable : Lexeme → Prop
  | .punctuator mark => ∃ c ∈ punctuators, mark = String.singleton c
  | .number value => ∃ n : Nat, n < wordModulus ∧ value = n
  | .identifier name => keywords.contains name = false ∧
      ∃ c more, isNameStart c ∧ (∀ d ∈ more, isNamePart d) ∧ name = String.ofList (c :: more)
  | .keyword word => word ∈ keywords
  | .string text => '\n' ∉ text.toList ∧ ('"' ∉ text.toList ∨ '\'' ∉ text.toList)
  | .other .. => False

/-- One spelling of a lexeme: a number in decimal, and a text in double quotes if it has none. -/
def Lexeme.spelled : Lexeme → List Char
  | .number value => Nat.toDigits 10 value.toNat
  | .string text =>
    let mark := if '"' ∈ text.toList then '\'' else '"'
    mark :: (text.toList ++ [mark])
  | .punctuator text | .identifier text | .keyword text | .other _ text => text.toList

theorem Lexeme.Writable.spelling {lexeme : Lexeme} (h : lexeme.Writable) :
    Spelling lexeme lexeme.spelled := by
  cases lexeme with
  | punctuator mark =>
    obtain ⟨c, hc, rfl⟩ := h
    rw [spelled, String.toList_singleton]
    exact .punctuator hc
  | number value =>
    obtain ⟨n, hn, rfl⟩ := h
    have hdigits : ∀ d ∈ Nat.toDigits 10 n, isDigit d := fun d hd =>
      Nat.isDigit_of_mem_toDigits (by decide) (by decide) hd
    have hvalue := wordOfDigits_toDigits hn
    show Spelling (.number n) (Nat.toDigits 10 n)
    cases hall : Nat.toDigits 10 n with
    | nil => exact absurd hall Nat.toDigits_ne_nil
    | cons c digits =>
      rw [hall] at hdigits hvalue
      rw [← hvalue]
      exact .number (hdigits c (List.mem_cons_self ..))
        fun d hd => hdigits d (List.mem_cons_of_mem c hd)
  | identifier name =>
    obtain ⟨hfree, c, more, hc, hmore, rfl⟩ := h
    have hname : lexemeOfName (String.ofList (c :: more)) =
        .identifier (String.ofList (c :: more)) := by
      rw [lexemeOfName, hfree]
      rfl
    rw [spelled, String.toList_ofList, ← hname]
    exact .name hc hmore
  | keyword word =>
    have hword : word = "var" ∨ word = "return" ∨ word = "function" := by
      simpa [Writable, keywords] using h
    rcases hword with rfl | rfl | rfl
    · show Spelling (lexemeOfName (String.ofList ['v', 'a', 'r'])) ['v', 'a', 'r']
      exact .name (by decide) (List.all_eq_true.1 (by decide))
    · show Spelling (lexemeOfName (String.ofList ['r', 'e', 't', 'u', 'r', 'n']))
        ['r', 'e', 't', 'u', 'r', 'n']
      exact .name (by decide) (List.all_eq_true.1 (by decide))
    · show Spelling (lexemeOfName (String.ofList ['f', 'u', 'n', 'c', 't', 'i', 'o', 'n']))
        ['f', 'u', 'n', 'c', 't', 'i', 'o', 'n']
      exact .name (by decide) (List.all_eq_true.1 (by decide))
  | string text =>
    obtain ⟨hline, hquotes⟩ := h
    have hspelling : ∀ mark : Char, mark = '"' ∨ mark = '\'' → mark ∉ text.toList →
        Spelling (.string text) (mark :: (text.toList ++ [mark])) := by
      intro mark hmark hfree
      have hinside : ∀ d ∈ text.toList, isInside mark d := by
        intro d hd
        have hother : d ≠ mark := fun h => hfree (h ▸ hd)
        have hsame : d ≠ '\n' := fun h => hline (h ▸ hd)
        simp [isInside, hother, hsame]
      have hstring := Spelling.string hmark hinside
      rwa [String.ofList_toList] at hstring
    by_cases hdouble : '"' ∈ text.toList
    · have hsingle : '\'' ∉ text.toList := hquotes.resolve_left fun h => h hdouble
      simpa [spelled, hdouble] using hspelling '\'' (.inr rfl) hsingle
    · simpa [spelled, hdouble] using hspelling '"' (.inl rfl) hdouble
  | other kind text => exact h.elim

/-- Lexemes on one line, each with a blank behind it. -/
def spelledOut (lexemes : List Lexeme) : List Char :=
  lexemes.flatMap fun lexeme => lexeme.spelled ++ [' ']

theorem typeset_spelledOut (line : Nat) {lexemes : List Lexeme}
    (h : ∀ lexeme ∈ lexemes, lexeme.Writable) :
    Typeset line (lexemes.map (⟨·, line⟩)) (spelledOut lexemes) := by
  induction lexemes with
  | nil => exact .nil
  | cons first others ih =>
    have hothers := ih fun lexeme hlexeme => h lexeme (List.mem_cons_of_mem first hlexeme)
    have hblank : Typeset line (others.map (⟨·, line⟩)) (' ' :: spelledOut others) :=
      .gap (by decide) hothers
    have hfirst : ∀ c ∈ (' ' :: spelledOut others).head?, first.absorbs c = false := by
      rintro c hc
      obtain rfl := Option.some.inj hc
      cases first <;> rfl
    rw [spelledOut, List.flatMap_cons, List.append_assoc]
    exact .token (h first (List.mem_cons_self ..)).spelling hfirst hblank

/-! ### Programs -/

namespace Source

open Grammar

theorem Name.writable (name : Name) : name.lexeme.Writable :=
  ⟨name.free, name.first, name.more, name.starts, name.goesOn, rfl⟩

theorem Primary.writable (object : Primary) : object.lexeme.Writable := by
  cases object with
  | name identifier => exact identifier.writable
  | text quoted =>
    show '\n' ∉ quoted.text.toList ∧ ('"' ∉ quoted.text.toList ∨ '\'' ∉ quoted.text.toList)
    rw [Quotable.text, String.toList_ofList]
    exact ⟨quoted.oneLine, quoted.notBoth⟩
  | number value => exact ⟨value.val, value.isLt, rfl⟩

theorem mark_writable {mark : String} (h : mark ∈ punctuators.map String.singleton) :
    (Lexeme.punctuator mark).Writable := by
  obtain ⟨c, hc, rfl⟩ := List.mem_map.1 h
  exact ⟨c, hc, rfl⟩

/-- The marks in expressions. -/
def expressionMarks : List String := [".", "(", ")", ",", "+", "-", "="]

/-- A lexeme that an expression can hold: an operand, or one of the marks. -/
def IsPart (lexeme : Lexeme) : Prop :=
  (∃ object : Primary, lexeme = object.lexeme) ∨ ∃ mark ∈ expressionMarks, lexeme = .punctuator mark

theorem IsPart.writable {lexeme : Lexeme} (h : IsPart lexeme) : lexeme.Writable := by
  have hmarks : ∀ mark ∈ expressionMarks, mark ∈ punctuators.map String.singleton := by decide
  rcases h with ⟨object, rfl⟩ | ⟨mark, hmark, rfl⟩
  · exact object.writable
  · exact mark_writable (hmarks mark hmark)

theorem isPart_mark {mark : String} (h : mark ∈ expressionMarks) : IsPart (.punctuator mark) :=
  .inr ⟨mark, h, rfl⟩

theorem Sign.isPart (sign : Sign) : IsPart (.punctuator sign.mark) := by
  cases sign <;> exact isPart_mark (by decide)

theorem Member.parts (callee : Member) : ∀ lexeme ∈ callee.lexemes, IsPart lexeme := by
  obtain ⟨object, property⟩ := callee
  have hobject : IsPart object.lexeme := .inl ⟨object, rfl⟩
  cases property with
  | none => simpa [Member.lexemes] using hobject
  | some property =>
    have hproperty : IsPart property.lexeme := .inl ⟨.name property, rfl⟩
    simpa [Member.lexemes] using ⟨hobject, isPart_mark (by decide), hproperty⟩

/-- What holds of all items and of commas holds of everything between the brackets. -/
theorem forall_mem_commaSeparated {p : Lexeme → Prop} {parts : List (List Lexeme)}
    (hcomma : p (.punctuator ",")) (h : ∀ part ∈ parts, ∀ lexeme ∈ part, p lexeme) :
    ∀ lexeme ∈ commaSeparated parts, p lexeme := by
  cases parts with
  | nil => exact fun _ h => absurd h List.not_mem_nil
  | cons first others =>
    intro lexeme hlexeme
    rcases List.mem_append.1 hlexeme with hlexeme | hlexeme
    · exact h first (List.mem_cons_self ..) lexeme hlexeme
    · obtain ⟨part, hpart, hlexeme⟩ := List.mem_flatMap.1 hlexeme
      rcases List.mem_cons.1 hlexeme with rfl | hlexeme
      · exact hcomma
      · exact h part (List.mem_cons_of_mem first hpart) lexeme hlexeme

theorem keyword_writable {word : String} (h : word ∈ keywords) : (Lexeme.keyword word).Writable := h

mutual

theorem Callee.parts (callee : Callee) : ∀ lexeme ∈ callee.lexemes, IsPart lexeme := by
  match callee with
  | .plain callee => exact callee.parts
  | .call callee arguments =>
    simp only [Callee.lexemes, List.forall_mem_append, List.forall_mem_cons]
    exact ⟨callee.parts, isPart_mark (by decide),
      forall_mem_commaSeparated (isPart_mark (by decide)) (Expression.parts_each arguments),
      isPart_mark (by decide), fun _ h => absurd h List.not_mem_nil⟩

theorem Expression.parts (value : Expression) : ∀ lexeme ∈ value.lexemes, IsPart lexeme := by
  match value with
  | .single operand => exact operand.parts
  | .additive sign left right =>
    simp only [Expression.lexemes, List.forall_mem_append, List.forall_mem_cons]
    exact ⟨left.parts, sign.isPart, right.parts⟩
  | .assignment left right =>
    simp only [Expression.lexemes, List.forall_mem_append, List.forall_mem_cons]
    exact ⟨left.parts, isPart_mark (by decide), right.parts⟩

theorem Expression.parts_each (expressions : List Expression) :
    ∀ part ∈ Expression.lexemesOfEach expressions, ∀ lexeme ∈ part, IsPart lexeme := by
  match expressions with
  | [] => exact fun _ h => absurd h List.not_mem_nil
  | first :: others =>
    rw [Expression.lexemesOfEach, List.forall_mem_cons]
    exact ⟨first.parts, Expression.parts_each others⟩

end

theorem Expression.writable (value : Expression) : ∀ lexeme ∈ value.lexemes, lexeme.Writable :=
  fun lexeme hlexeme => (value.parts lexeme hlexeme).writable

mutual

theorem Statement.writable (statement : Statement) :
    ∀ lexeme ∈ statement.lexemes, lexeme.Writable := by
  have hend : ∀ {mark : String}, mark ∈ punctuators.map String.singleton →
      ∀ lexeme ∈ [Lexeme.punctuator mark], lexeme.Writable := by
    intro mark hmark lexeme hlexeme
    rw [List.mem_singleton.1 hlexeme]
    exact mark_writable hmark
  match statement with
  | .expression value =>
    rw [Statement.lexemes, List.forall_mem_append]
    exact ⟨value.writable, hend (by decide)⟩
  | .returns value =>
    rw [Statement.lexemes, List.forall_mem_cons, List.forall_mem_append]
    exact ⟨keyword_writable (by decide), value.writable, hend (by decide)⟩
  | .returnsNothing =>
    rw [Statement.lexemes, List.forall_mem_cons]
    exact ⟨keyword_writable (by decide), hend (by decide)⟩
  | .declares name value =>
    rw [Statement.lexemes, List.forall_mem_cons, List.forall_mem_cons, List.forall_mem_cons,
      List.forall_mem_append]
    exact ⟨keyword_writable (by decide), name.writable, mark_writable (by decide), value.writable,
      hend (by decide)⟩
  | .declaresNothing name =>
    rw [Statement.lexemes, List.forall_mem_cons, List.forall_mem_cons]
    exact ⟨keyword_writable (by decide), name.writable, hend (by decide)⟩
  | .function name params body =>
    have hparams : ∀ part ∈ params.map ([·.lexeme]), ∀ lexeme ∈ part, lexeme.Writable := by
      intro part hpart lexeme hlexeme
      obtain ⟨param, -, rfl⟩ := List.mem_map.1 hpart
      rw [List.mem_singleton.1 hlexeme]
      exact param.writable
    rw [Statement.lexemes, List.forall_mem_cons, List.forall_mem_cons, List.forall_mem_cons,
      List.forall_mem_append, List.forall_mem_cons, List.forall_mem_cons, List.forall_mem_append]
    exact ⟨keyword_writable (by decide), name.writable, mark_writable (by decide),
      forall_mem_commaSeparated (mark_writable (by decide)) hparams, mark_writable (by decide),
      mark_writable (by decide), Statement.writable_all body, hend (by decide)⟩

/-- A well-formed program can be written down, lexeme by lexeme. -/
theorem Statement.writable_all (program : List Statement) :
    ∀ lexeme ∈ Statement.lexemesOfAll program, lexeme.Writable := by
  match program with
  | [] => exact fun _ h => absurd h List.not_mem_nil
  | first :: others =>
    rw [Statement.lexemesOfAll, List.forall_mem_append]
    exact ⟨first.writable, Statement.writable_all others⟩

end

/-- The texts that a program may be written as, in whatever layout and spelling. -/
def Written (program : List Statement) (text : String) : Prop :=
  ∃ tokens, Typeset 1 tokens text.toList ∧
    tokens.map (·.lexeme) = Statement.lexemesOfAll program

/-- Blanks and line ends may stand behind a program as well. -/
theorem Written.append_gaps {program : List Statement} {text gaps : String}
    (h : Written program text) (hgaps : ∀ c ∈ gaps.toList, isGap c) :
    Written program (text ++ gaps) := by
  obtain ⟨tokens, htypeset, htokens⟩ := h
  refine ⟨tokens, ?_, htokens⟩
  rw [String.toList_append]
  exact htypeset.append_gaps hgaps

/-- A program on one line, each lexeme with a blank behind it. -/
def print (program : List Statement) : String :=
  String.ofList (spelledOut (Statement.lexemesOfAll program))

/-- **Every program can be written down.** -/
theorem written_print (program : List Statement) : Written program (print program) := by
  refine ⟨(Statement.lexemesOfAll program).map (⟨·, (1 : Nat)⟩), ?_, ?_⟩
  · rw [print, String.toList_ofList]
    exact typeset_spelledOut 1 (Statement.writable_all program)
  · rw [List.map_map]
    exact List.map_id _

end Source

end PageScript
