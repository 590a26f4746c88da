import PageScript.Token.Scan

/-!
# Writing tokens down

The other side of cutting a text into tokens: which texts spell a token, and which texts are a list
of tokens written one after the other.

* `Spelling` — the texts that spell a lexeme: any digits of its value for a number, either quote
  for a string that does not contain it;
* `Lexeme.absorbs` — whether a lexeme would swallow a character written right behind it;
* `Typeset` — a text with the given tokens in it, each on its line, with blanks wherever one likes,
  and only nowhere a token that swallows the beginning of the next;
* `wordOfDigits_eq` — what a run of digits is worth;
* `Typeset.scanFrom_append`, `scan_typeset` — such a text is cut into just these tokens, whatever
  text follows, and if none does.
-/

namespace PageScript

/-- A character that may stand between tokens: a blank or the end of a line. -/
def isGap (c : Char) : Bool :=
  c = '\n' || isSpace c

/-- The texts that spell a lexeme. -/
inductive Spelling : Lexeme → List Char → Prop
  | punctuator {c : Char} : c ∈ punctuators → Spelling (.punctuator (String.singleton c)) [c]
  | number {c : Char} {digits : List Char} : isDigit c → (∀ d ∈ digits, isDigit d) →
      Spelling (.number (wordOfDigits (c :: digits))) (c :: digits)
  | string {mark : Char} {inside : List Char} : mark = '"' ∨ mark = '\'' →
      (∀ d ∈ inside, isInside mark d) →
      Spelling (.string (String.ofList inside)) (mark :: (inside ++ [mark]))
  | name {c : Char} {more : List Char} : isNameStart c → (∀ d ∈ more, isNamePart d) →
      Spelling (lexemeOfName (String.ofList (c :: more))) (c :: more)

/-- Whether a lexeme goes on with a character that is written right behind it. -/
def Lexeme.absorbs : Lexeme → Char → Bool
  | .number _, c => isDigit c
  | .identifier _, c | .keyword _, c => isNamePart c
  | _, _ => false

/-- The texts in which the given tokens are written, the first line having the given number. -/
inductive Typeset : Nat → List Token → List Char → Prop
  | nil {line : Nat} : Typeset line [] []
  | gap {line : Nat} {tokens : List Token} {c : Char} {text : List Char} : isGap c →
      Typeset (if c = '\n' then line + 1 else line) tokens text → Typeset line tokens (c :: text)
  | token {line : Nat} {tokens : List Token} {lexeme : Lexeme} {spelled text : List Char} :
      Spelling lexeme spelled → (∀ c ∈ text.head?, lexeme.absorbs c = false) →
      Typeset line tokens text → Typeset line (⟨lexeme, line⟩ :: tokens) (spelled ++ text)

/-- A stream with more tokens in front. -/
def Scan.prepend (tokens : List Token) (scan : Scan) : Scan :=
  ⟨tokens ++ scan.tokens, scan.failure⟩

theorem Scan.prepend_cons (token : Token) (tokens : List Token) (scan : Scan) :
    Scan.prepend (token :: tokens) scan = .push token (.prepend tokens scan) := rfl

/-! ### Numbers -/

/-- A run of digits is worth its decimal value, as far as a script number holds it. -/
theorem wordOfDigits_eq (digits : List Char) :
    wordOfDigits digits = Nat.ofDigitChars 10 digits 0 % wordModulus := by
  have hfold : ∀ value, digits.foldl
      (fun value digit => (value * 10 + (digit.toNat - 48)) % wordModulus) (value % wordModulus) =
        Nat.ofDigitChars 10 digits value % wordModulus := by
    induction digits with
    | nil => intro value; rw [Nat.ofDigitChars_nil]; rfl
    | cons digit digits ih =>
      intro value
      rw [Nat.ofDigitChars_cons, ← ih]
      have hzero : '0'.toNat = 48 := rfl
      rw [List.foldl_cons, hzero]
      congr 1
      rw [wordModulus]
      omega
  exact hfold 0

theorem wordOfDigits_toDigits {value : Nat} (h : value < wordModulus) :
    wordOfDigits (Nat.toDigits 10 value) = value := by
  rw [wordOfDigits_eq, Nat.ofDigitChars_ten_toDigits, Nat.mod_eq_of_lt h]

/-! ### Kinds of characters -/

theorem isGap_cases {c : Char} (h : isGap c) : c = '\n' ∨ c = ' ' ∨ c = '\t' ∨ c = '\x0d' := by
  simpa [isGap, isSpace, or_assoc] using h

/-- A character of a kind that has none of the gaps in it is no gap. -/
theorem isGap_eq_false {p : Char → Bool} {c : Char} (h : p c)
    (hline : p '\n' = false) (hspace : p ' ' = false) (htab : p '\t' = false)
    (hreturn : p '\x0d' = false) : c ≠ '\n' ∧ isSpace c = false := by
  have hgap : ¬isGap c := by
    intro hc
    rcases isGap_cases hc with rfl | rfl | rfl | rfl
    · exact Bool.false_ne_true (hline.symm.trans h)
    · exact Bool.false_ne_true (hspace.symm.trans h)
    · exact Bool.false_ne_true (htab.symm.trans h)
    · exact Bool.false_ne_true (hreturn.symm.trans h)
  simpa [isGap] using hgap

theorem isDigit_eq_false {c : Char} (h : isNameStart c) : isDigit c = false := by
  simp only [isNameStart, isDigit, Bool.or_eq_true, Bool.and_eq_true, decide_eq_true_eq,
    Char.le_def, UInt32.le_iff_toNat_le, Bool.and_eq_false_iff, decide_eq_false_iff_not] at h ⊢
  rcases h with (⟨hlow, -⟩ | ⟨hlow, -⟩) | rfl
  · right
    have : 'A'.val.toNat = 65 := rfl
    have : '9'.val.toNat = 57 := rfl
    omega
  · right
    have : 'a'.val.toNat = 97 := rfl
    have : '9'.val.toNat = 57 := rfl
    omega
  · right
    decide

theorem ne_of_class {p : Char → Bool} {c d : Char} (h : p c) (hd : p d = false) : c ≠ d := by
  rintro rfl
  exact Bool.false_ne_true (hd.symm.trans h)

/-! ### One token -/

section

variable (file : Option String) (line : Nat)

theorem scanFrom_gap {c : Char} (h : isGap c) (rest : List Char) :
    scanFrom file line 0 (c :: rest) =
      scanFrom file (if c = '\n' then line + 1 else line) 0 rest := by
  rcases isGap_cases h with rfl | rfl | rfl | rfl <;> rfl

theorem takeWhile_run {p : Char → Bool} {run rest : List Char} (hrun : ∀ d ∈ run, p d)
    (hrest : ∀ d ∈ rest.head?, p d = false) : (run ++ rest).takeWhile p = run := by
  rw [List.takeWhile_append_of_pos hrun]
  cases rest with
  | nil => simp
  | cons d rest => simp [hrest d rfl]

theorem scanFrom_number {c : Char} {digits rest : List Char} (hc : isDigit c)
    (hdigits : ∀ d ∈ digits, isDigit d) (hrest : ∀ d ∈ rest.head?, isDigit d = false) :
    scanFrom file line 0 (c :: (digits ++ rest)) =
      .push ⟨.number (wordOfDigits (c :: digits)), line⟩ (scanFrom file line 0 rest) := by
  obtain ⟨hline, hspace⟩ := isGap_eq_false hc rfl rfl rfl rfl
  simp only [scanFrom, if_neg hline, hspace, hc, if_true, Bool.false_eq_true, if_false]
  rw [takeWhile_run hdigits hrest, scanFrom_covered, List.drop_left]

theorem scanFrom_name {c : Char} {more rest : List Char} (hc : isNameStart c)
    (hmore : ∀ d ∈ more, isNamePart d) (hrest : ∀ d ∈ rest.head?, isNamePart d = false) :
    scanFrom file line 0 (c :: (more ++ rest)) =
      .push ⟨lexemeOfName (String.ofList (c :: more)), line⟩ (scanFrom file line 0 rest) := by
  obtain ⟨hline, hspace⟩ := isGap_eq_false hc rfl rfl rfl rfl
  have hquotes : ¬(c = '"' ∨ c = '\'') := by
    rintro (h | h)
    · exact ne_of_class hc rfl h
    · exact ne_of_class hc rfl h
  simp only [scanFrom, if_neg hline, hspace, isDigit_eq_false hc, if_neg hquotes, hc, if_true,
    Bool.false_eq_true, if_false]
  rw [takeWhile_run hmore hrest, scanFrom_covered, List.drop_left]

theorem scanFrom_string {mark : Char} {inside rest : List Char} (hmark : mark = '"' ∨ mark = '\'')
    (hinside : ∀ d ∈ inside, isInside mark d) :
    scanFrom file line 0 (mark :: (inside ++ mark :: rest)) =
      .push ⟨.string (String.ofList inside), line⟩ (scanFrom file line 0 rest) := by
  have hrun : (inside ++ mark :: rest).takeWhile (isInside mark) = inside :=
    takeWhile_run hinside fun d hd => by
      obtain rfl := Option.some.inj hd
      simp [isInside]
  have hclosed : (inside ++ mark :: rest)[inside.length]? = some mark := by
    rw [List.getElem?_append_right (Nat.le_refl _), Nat.sub_self]
    rfl
  have hplain : mark ≠ '\n' ∧ isSpace mark = false ∧ isDigit mark = false := by
    rcases hmark with rfl | rfl <;> decide
  simp only [scanFrom, if_neg hplain.1, hplain.2.1, hplain.2.2, if_pos hmark, hrun, if_pos hclosed,
    Bool.false_eq_true, if_false]
  rw [scanFrom_covered, ← List.drop_drop, List.drop_left]
  rfl

theorem scanFrom_punctuator {c : Char} (h : c ∈ punctuators) (rest : List Char) :
    scanFrom file line 0 (c :: rest) =
      .push ⟨.punctuator (String.singleton c), line⟩ (scanFrom file line 0 rest) := by
  have hplain : c ≠ '\n' ∧ isSpace c = false ∧ isDigit c = false ∧
      ¬(c = '"' ∨ c = '\'') ∧ isNameStart c = false := by
    simp only [punctuators, List.mem_cons, List.not_mem_nil, or_false] at h
    rcases h with rfl | rfl | rfl | rfl | rfl | rfl | rfl | rfl | rfl | rfl <;> decide
  obtain ⟨hline, hspace, hdigit, hquotes, hname⟩ := hplain
  simp only [scanFrom, if_neg hline, hspace, hdigit, if_neg hquotes, hname, Bool.false_eq_true,
    if_false]
  rw [if_pos (List.contains_iff_mem.2 h)]

/-- **One token.** A spelled lexeme is cut off as one token, unless what follows would belong to
it. -/
theorem scanFrom_spelling {lexeme : Lexeme} {spelled rest : List Char} (h : Spelling lexeme spelled)
    (hrest : ∀ c ∈ rest.head?, lexeme.absorbs c = false) :
    scanFrom file line 0 (spelled ++ rest) =
      .push ⟨lexeme, line⟩ (scanFrom file line 0 rest) := by
  cases h with
  | punctuator hc => exact scanFrom_punctuator file line hc rest
  | number hc hdigits => exact scanFrom_number file line hc hdigits hrest
  | string hmark hinside =>
    rw [List.cons_append, List.append_assoc]
    exact scanFrom_string file line hmark hinside
  | @name c more hc hmore =>
    refine scanFrom_name file line hc hmore fun d hd => ?_
    have habsorbs := hrest d hd
    unfold lexemeOfName at habsorbs
    split at habsorbs <;> exact habsorbs

end

/-! ### Many tokens -/

theorem Spelling.ne_nil {lexeme : Lexeme} {spelled : List Char} (h : Spelling lexeme spelled) :
    spelled ≠ [] := by
  cases h <;> exact List.cons_ne_nil _ _

theorem Spelling.count_newline {lexeme : Lexeme} {spelled : List Char}
    (h : Spelling lexeme spelled) : spelled.count '\n' = 0 := by
  rw [List.count_eq_zero]
  intro hmem
  cases h with
  | punctuator hc =>
    rw [List.mem_singleton] at hmem
    subst hmem
    exact absurd hc (by decide)
  | number hc hdigits =>
    rcases List.mem_cons.1 hmem with rfl | hmem
    · exact absurd hc (by decide)
    · exact absurd (hdigits _ hmem) (by decide)
  | string hmark hinside =>
    rcases List.mem_cons.1 hmem with rfl | hmem
    · exact absurd hmark (by decide)
    · rcases List.mem_append.1 hmem with hmem | hmem
      · have := hinside _ hmem
        simp [isInside] at this
      · rw [List.mem_singleton] at hmem
        subst hmem
        exact absurd hmark (by decide)
  | name hc hmore =>
    rcases List.mem_cons.1 hmem with rfl | hmem
    · exact absurd hc (by decide)
    · exact absurd (hmore _ hmem) (by decide)

theorem Typeset.eq_nil {line : Nat} {tokens : List Token} (h : Typeset line tokens []) :
    tokens = [] := by
  generalize htext : ([] : List Char) = text at h
  cases h with
  | nil => rfl
  | gap _ _ => exact absurd htext (List.cons_ne_nil _ _).symm
  | token hspell _ _ => exact absurd (List.append_eq_nil_iff.1 htext.symm).1 hspell.ne_nil

theorem Lexeme.absorbs_gap (lexeme : Lexeme) {c : Char} (h : isGap c) :
    lexeme.absorbs c = false := by
  rcases isGap_cases h with rfl | rfl | rfl | rfl <;> cases lexeme <;> rfl

/-- Gaps may stand in front of the first token. -/
theorem Typeset.prepend_gaps {line : Nat} {tokens : List Token} {gaps text : List Char}
    (hgaps : ∀ c ∈ gaps, isGap c) (h : Typeset (line + gaps.count '\n') tokens text) :
    Typeset line tokens (gaps ++ text) := by
  induction gaps generalizing line with
  | nil => exact h
  | cons c gaps ih =>
    refine .gap (hgaps c (List.mem_cons_self ..)) ?_
    refine ih (fun d hd => hgaps d (List.mem_cons_of_mem c hd)) ?_
    by_cases hnewline : c = '\n'
    · subst hnewline
      rw [List.count_cons_self] at h
      rwa [if_pos rfl, Nat.add_right_comm]
    · rw [List.count_cons_of_ne hnewline] at h
      rwa [if_neg hnewline]

theorem typeset_gaps (line : Nat) {gaps : List Char} (h : ∀ c ∈ gaps, isGap c) :
    Typeset line [] gaps := by
  have hnil : Typeset (line + gaps.count '\n') [] [] := .nil
  simpa using Typeset.prepend_gaps h hnil

/-- Gaps may stand behind the last token as well. -/
theorem Typeset.append_gaps {line : Nat} {tokens : List Token} {text gaps : List Char}
    (h : Typeset line tokens text) (hgaps : ∀ c ∈ gaps, isGap c) :
    Typeset line tokens (text ++ gaps) := by
  induction h with
  | nil => exact typeset_gaps _ hgaps
  | gap hc _ ih => exact .gap hc ih
  | @token line tokens lexeme spelled text hspell hnext htail ih =>
    rw [List.append_assoc]
    refine .token hspell (fun c hc => ?_) ih
    cases text with
    | nil => exact lexeme.absorbs_gap (hgaps c (List.mem_of_mem_head? hc))
    | cons d text => exact hnext c hc

/-- Texts may stand one below the other. -/
theorem Typeset.append_line {line : Nat} {tokens below : List Token} {text text' : List Char}
    (h : Typeset line tokens text) (hbelow : Typeset (line + text.count '\n' + 1) below text') :
    Typeset line (tokens ++ below) (text ++ '\n' :: text') := by
  induction h with
  | nil => exact .gap (by decide) hbelow
  | @gap line tokens c text hc _ ih =>
    refine .gap hc (ih ?_)
    by_cases hnewline : c = '\n'
    · subst hnewline
      rw [List.count_cons_self] at hbelow
      rwa [if_pos rfl, Nat.add_right_comm line 1]
    · rw [List.count_cons_of_ne hnewline] at hbelow
      rwa [if_neg hnewline]
  | @token line tokens lexeme spelled text hspell hnext htail ih =>
    rw [List.append_assoc, List.cons_append]
    refine .token hspell (fun c hc => ?_) (ih ?_)
    · cases text with
      | nil =>
        obtain rfl := Option.some.inj hc
        exact lexeme.absorbs_gap (by decide)
      | cons d text => exact hnext c hc
    · rwa [List.count_append, hspell.count_newline, Nat.zero_add] at hbelow

/-- **Writing tokens down and cutting the text again** gives the tokens back, and then those of the
text that follows, so long as the last token written does not swallow the beginning of that text. -/
theorem Typeset.scanFrom_append (file : Option String) {line : Nat} {tokens : List Token}
    {text : List Char} (h : Typeset line tokens text) (rest : List Char)
    (hrest : ∀ last ∈ tokens.getLast?, ∀ c ∈ rest.head?, last.lexeme.absorbs c = false) :
    scanFrom file line 0 (text ++ rest) =
      .prepend tokens (scanFrom file (line + text.count '\n') 0 rest) := by
  induction h with
  | nil => rfl
  | @gap line tokens c text hc _ ih =>
    rw [List.cons_append, scanFrom_gap file line hc, ih hrest]
    congr 2
    by_cases hnewline : c = '\n'
    · subst hnewline
      simp only [if_true, List.count_cons_self]
      omega
    · simp only [if_neg hnewline, List.count_cons_of_ne hnewline]
  | @token line tokens lexeme spelled text hspell hnext htail ih =>
    have hfollow : ∀ c ∈ (text ++ rest).head?, lexeme.absorbs c = false := by
      intro c hc
      cases text with
      | nil =>
        -- nothing is written behind the token, so it is the last one
        obtain rfl := htail.eq_nil
        exact hrest ⟨lexeme, line⟩ rfl c hc
      | cons d text => exact hnext c hc
    have hlast : ∀ last ∈ tokens.getLast?, ∀ c ∈ rest.head?, last.lexeme.absorbs c = false := by
      intro last hlast
      refine hrest last ?_
      rw [List.getLast?_cons, Option.mem_def.1 hlast]
      rfl
    rw [List.append_assoc, scanFrom_spelling file line hspell hfollow, ih hlast, List.count_append,
      hspell.count_newline, Nat.zero_add, Scan.prepend_cons]

/-- A text is cut into the tokens that are written in it. -/
theorem scan_typeset {tokens : List Token} {text : String} (h : Typeset 1 tokens text.toList)
    (file : Option String) : scan text file = ⟨tokens, none⟩ := by
  have hscan := h.scanFrom_append file [] fun _ _ c hc => absurd hc (Option.not_mem_none c)
  rw [List.append_nil] at hscan
  rw [scan, hscan]
  show (⟨tokens ++ [], none⟩ : Scan) = _
  rw [List.append_nil]

end PageScript
