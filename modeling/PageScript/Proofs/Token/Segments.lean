import Mathlib.Data.List.Chain
import PageScript.Proofs.Token.Typeset

/-!
# Texts, segment by segment

A text that is made of tokens falls into segments: a gap, and behind it a token as it is spelled.

* `Lexeme.SpelledAs` — how each lexeme is spelled, said without the scanner: a number by any digits
  of its value, a name or a keyword by itself, a string between quotes that it does not contain;
* `Lexeme.SpelledAs.spelling`, `Spelling.spelledAs` — these are the spellings that are cut off as one
  token;
* `Segment` — a lexeme with its spelling and the gap in front of it;
* `Segment.written`, `Segment.tokens` — the text that segments make up, and their tokens, each on
  the line that it starts on;
* `Segment.Separate` — no segment swallows a character of what follows it;
* `Segment.Apart` — the neighbours that need a gap between them have one;
* `scan_segments` — if all of them have, cutting the text gives just these tokens.
-/

namespace PageScript

/-! ### Spellings -/

/-- A text that starts like a name and goes on like one. -/
def IsName (text : List Char) : Prop :=
  ∃ first more, text = first :: more ∧ isNameStart first ∧ ∀ c ∈ more, isNamePart c

/-- The texts that spell a lexeme. -/
def Lexeme.SpelledAs : Lexeme → List Char → Prop
  | .punctuator mark, text => ∃ c ∈ punctuators, mark = String.singleton c ∧ text = [c]
  | .number value, text => text ≠ [] ∧ (∀ c ∈ text, isDigit c) ∧
      value = (Nat.ofDigitChars 10 text 0 % wordModulus : Nat)
  | .identifier name, text => IsName text ∧ name = String.ofList text ∧ name ∉ keywords
  | .keyword word, text => IsName text ∧ word = String.ofList text ∧ word ∈ keywords
  | .string inside, text => ∃ mark, (mark = '"' ∨ mark = '\'') ∧ mark ∉ inside.toList ∧
      '\n' ∉ inside.toList ∧ text = mark :: (inside.toList ++ [mark])
  | .other .., _ => False

theorem isInside_iff {mark c : Char} : isInside mark c = true ↔ c ≠ mark ∧ c ≠ '\n' := by
  simp [isInside]

theorem lexemeOfName_keyword {name : String} (h : name ∈ keywords) :
    lexemeOfName name = .keyword name :=
  if_pos (List.contains_iff_mem.2 h)

theorem lexemeOfName_identifier {name : String} (h : name ∉ keywords) :
    lexemeOfName name = .identifier name :=
  if_neg (mt List.contains_iff_mem.1 h)

theorem Lexeme.SpelledAs.spelling {lexeme : Lexeme} {text : List Char}
    (h : lexeme.SpelledAs text) : Spelling lexeme text := by
  cases lexeme with
  | punctuator mark =>
    obtain ⟨c, hc, rfl, rfl⟩ := h
    exact .punctuator hc
  | number value =>
    obtain ⟨hne, hdigits, rfl⟩ := h
    obtain ⟨c, digits, rfl⟩ := List.exists_cons_of_ne_nil hne
    obtain ⟨hc, hdigits⟩ := List.forall_mem_cons.1 hdigits
    rw [← wordOfDigits_eq]
    exact .number hc hdigits
  | identifier name =>
    obtain ⟨⟨c, more, rfl, hc, hmore⟩, rfl, hfree⟩ := h
    rw [← lexemeOfName_identifier hfree]
    exact .name hc hmore
  | keyword word =>
    obtain ⟨⟨c, more, rfl, hc, hmore⟩, rfl, hword⟩ := h
    rw [← lexemeOfName_keyword hword]
    exact .name hc hmore
  | string inside =>
    obtain ⟨mark, hmark, hfree, hline, rfl⟩ := h
    have hinside : ∀ d ∈ inside.toList, isInside mark d := fun d hd =>
      isInside_iff.2 ⟨fun heq => hfree (heq ▸ hd), fun heq => hline (heq ▸ hd)⟩
    have hspelling := Spelling.string hmark hinside
    rwa [String.ofList_toList] at hspelling
  | other kind text => exact h.elim

theorem Spelling.spelledAs {lexeme : Lexeme} {text : List Char} (h : Spelling lexeme text) :
    lexeme.SpelledAs text := by
  cases h with
  | punctuator hc => exact ⟨_, hc, rfl, rfl⟩
  | number hc hdigits =>
    exact ⟨List.cons_ne_nil _ _, List.forall_mem_cons.2 ⟨hc, hdigits⟩,
      congrArg Int.ofNat (wordOfDigits_eq _)⟩
  | @string mark inside hmark hinside =>
    refine ⟨mark, hmark, ?_, ?_, ?_⟩
    · rw [String.toList_ofList]
      exact fun hmem => (isInside_iff.1 (hinside mark hmem)).1 rfl
    · rw [String.toList_ofList]
      exact fun hmem => (isInside_iff.1 (hinside '\n' hmem)).2 rfl
    · rw [String.toList_ofList]
  | @name c more hc hmore =>
    by_cases hword : String.ofList (c :: more) ∈ keywords
    · rw [lexemeOfName_keyword hword]
      exact ⟨⟨c, more, rfl, hc, hmore⟩, rfl, hword⟩
    · rw [lexemeOfName_identifier hword]
      exact ⟨⟨c, more, rfl, hc, hmore⟩, rfl, hword⟩

/-! ### Segments -/

/-- A lexeme as it stands in a text. -/
structure Segment where
  /-- What stands between the segment before and the lexeme. -/
  gap : List Char
  lexeme : Lexeme
  spelled : List Char
  blank : ∀ c ∈ gap, isGap c
  fits : lexeme.SpelledAs spelled

namespace Segment

/-- The characters of a segment. -/
def chars (segment : Segment) : List Char :=
  segment.gap ++ segment.spelled

/-- The text that segments make up, one behind the other. -/
def written (segments : List Segment) : List Char :=
  segments.flatMap chars

/-- The tokens of segments behind the given text. The line of a token is one more than the number of
line ends in front of it. -/
def tokens : (before : List Char) → List Segment → List Token
  | _, [] => []
  | before, segment :: behind =>
    ⟨segment.lexeme, ((before ++ segment.gap).count '\n' + 1 : Nat)⟩ ::
      tokens (before ++ segment.chars) behind

/-- No segment would go on with the first character of what follows it. -/
def Separate (segments : List Segment) (rest : List Char) : Prop :=
  ∀ front segment behind, segments = front ++ segment :: behind →
    ∀ c ∈ (written behind ++ rest).head?, segment.lexeme.absorbs c = false

theorem written_cons (segment : Segment) (behind : List Segment) :
    written (segment :: behind) = segment.gap ++ (segment.spelled ++ written behind) := by
  rw [written, List.flatMap_cons, chars, List.append_assoc]
  rfl

theorem tokens_append (before : List Char) (first second : List Segment) :
    tokens before (first ++ second) =
      tokens before first ++ tokens (before ++ written first) second := by
  induction first generalizing before with
  | nil => rw [written, List.flatMap_nil, List.append_nil, List.nil_append, tokens, List.nil_append]
  | cons segment behind ih =>
    have hwritten : written (segment :: behind) = segment.chars ++ written behind :=
      List.flatMap_cons
    rw [List.cons_append, tokens, ih, hwritten, tokens, List.cons_append, List.append_assoc]

theorem map_lexeme_tokens (before : List Char) (segments : List Segment) :
    (tokens before segments).map (·.lexeme) = segments.map (·.lexeme) := by
  induction segments generalizing before with
  | nil => rfl
  | cons segment behind ih => rw [tokens, List.map_cons, List.map_cons, ih]

theorem separate_cons {segment : Segment} {behind : List Segment} {rest : List Char} :
    Separate (segment :: behind) rest ↔
      (∀ c ∈ (written behind ++ rest).head?, segment.lexeme.absorbs c = false) ∧
        Separate behind rest := by
  constructor
  · intro h
    exact ⟨h [] segment behind rfl, fun front other after heq =>
      h (segment :: front) other after (by rw [heq, List.cons_append])⟩
  · rintro ⟨hfirst, hbehind⟩ front other after heq
    cases front with
    | nil =>
      obtain ⟨rfl, rfl⟩ := List.cons.inj heq
      exact hfirst
    | cons first front =>
      obtain ⟨-, hafter⟩ := List.cons.inj heq
      exact hbehind front other after hafter

theorem count_chars (before : List Char) (segment : Segment) :
    (before ++ segment.chars).count '\n' = (before ++ segment.gap).count '\n' := by
  simp only [chars, List.count_append, segment.fits.spelling.count_newline, Nat.add_zero]

/-- **Segments are typeset.** Behind any text, and in front of gaps, they make up a text in which
their tokens are written. -/
theorem typeset {segments : List Segment} {rest : List Char} (h : Separate segments rest)
    (hrest : ∀ c ∈ rest, isGap c) (before : List Char) :
    Typeset (before.count '\n' + 1) (tokens before segments) (written segments ++ rest) := by
  induction segments generalizing before with
  | nil => exact typeset_gaps _ hrest
  | cons segment behind ih =>
    obtain ⟨hfirst, hbehind⟩ := separate_cons.1 h
    have htail := ih hbehind (before ++ segment.chars)
    rw [count_chars, List.count_append] at htail
    rw [written_cons, List.append_assoc, List.append_assoc, tokens]
    refine .prepend_gaps segment.blank ?_
    rw [List.count_append, Nat.add_right_comm]
    exact .token segment.fits.spelling hfirst htail

/-- Segments that are separate, with gaps behind the last of them, are cut into their tokens. -/
theorem scanFrom_written (file : Option String) {segments : List Segment} {rest : List Char}
    (h : Separate segments rest) (hrest : ∀ c ∈ rest, isGap c) (before : List Char) :
    scanFrom file (before.count '\n' + 1) 0 (written segments ++ rest) =
      .ofTokens (tokens before segments) := by
  have hscan := (typeset h hrest before).scanFrom_append file [] (by simp)
  rw [List.append_nil] at hscan
  rw [hscan]
  simp [scanFrom, Scan.prepend, Scan.finished, Scan.ofTokens]

end Segment

/-! ### Neighbours -/

/-- Whether a lexeme is a name or a keyword. -/
def Lexeme.isWord : Lexeme → Bool
  | .identifier _ | .keyword _ => true
  | _ => false

def Lexeme.isNumber : Lexeme → Bool
  | .number _ => true
  | _ => false

/-- Whether two lexemes would run into one another with nothing between them: a word and the word or
number behind it, and two numbers. -/
def Lexeme.fuses (first second : Lexeme) : Bool :=
  first.isWord && (second.isWord || second.isNumber) || first.isNumber && second.isNumber

/-- Between two segments that would run into one another there is a gap. -/
def Segment.Apart (first second : Segment) : Prop :=
  first.lexeme.fuses second.lexeme → second.gap ≠ []

/-- A mark or a quote is no part of a name or a number. -/
theorem isNamePart_eq_false {c : Char} (h : c ∈ punctuators ∨ c = '"' ∨ c = '\'') :
    isNamePart c = false := by
  rcases h with h | rfl | rfl
  · simp only [punctuators, List.mem_cons, List.not_mem_nil, or_false] at h
    rcases h with rfl | rfl | rfl | rfl | rfl | rfl | rfl | rfl | rfl | rfl <;> decide
  · decide
  · decide

theorem isDigit_of_isNamePart {c : Char} (h : isNamePart c = false) : isDigit c = false := by
  rw [isNamePart, Bool.or_eq_false_iff] at h
  exact h.2

/-- The first character of a lexeme is swallowed only by a lexeme that would run into it. -/
theorem Lexeme.absorbs_spelled {first second : Lexeme} {c : Char} {more : List Char}
    (h : Spelling second (c :: more)) (hfuses : first.fuses second = false) :
    first.absorbs c = false := by
  cases h with
  | punctuator hc =>
    have hpart := isNamePart_eq_false (.inl hc)
    cases first <;> simp [absorbs, hpart, isDigit_of_isNamePart hpart]
  | string hmark _ =>
    have hpart := isNamePart_eq_false (.inr hmark)
    cases first <;> simp [absorbs, hpart, isDigit_of_isNamePart hpart]
  | number hc _ => cases first <;> simp [fuses, isWord, isNumber, absorbs] at hfuses ⊢
  | name hc _ =>
    have hword : (lexemeOfName (String.ofList (c :: more))).isWord = true := by
      unfold lexemeOfName
      split <;> rfl
    have hfirst : first.isWord = false := by
      rw [fuses, hword, Bool.or_eq_false_iff] at hfuses
      simpa using hfuses.1
    cases first <;> simp [isWord, absorbs, isDigit_eq_false hc] at hfirst ⊢

/-- Neighbours that are apart are separate segments. -/
theorem Segment.separate_of_apart {segments : List Segment} {rest : List Char}
    (h : segments.IsChain Segment.Apart) (hrest : ∀ c ∈ rest, isGap c) :
    Separate segments rest := by
  induction segments with
  | nil => exact fun front segment behind heq => absurd heq (by simp)
  | cons first others ih =>
    refine separate_cons.2 ⟨fun c hc => ?_, ih h.tail⟩
    cases others with
    | nil => exact first.lexeme.absorbs_gap (hrest c (List.mem_of_mem_head? hc))
    | cons second others =>
      have hapart : Segment.Apart first second := by
        rw [List.isChain_cons_cons] at h
        exact h.1
      rw [written_cons] at hc
      cases hgap : second.gap with
      | cons d gap =>
        rw [hgap] at hc
        obtain rfl : d = c := Option.some.inj hc
        exact first.lexeme.absorbs_gap (second.blank d (hgap ▸ List.mem_cons_self ..))
      | nil =>
        -- nothing stands between the two, so the next character starts the second
        have hspelling := second.fits.spelling
        obtain ⟨d, more, hspelled⟩ := List.exists_cons_of_ne_nil hspelling.ne_nil
        rw [hgap, hspelled] at hc
        obtain rfl : d = c := Option.some.inj hc
        rw [hspelled] at hspelling
        refine Lexeme.absorbs_spelled hspelling ?_
        exact Bool.eq_false_iff.2 fun hfuses => hapart hfuses hgap

/-- **Cutting undoes writing tokens down.** Segments that are apart, with gaps behind the last of
them, make up a text that is cut into their tokens, each on the line that it stands on. -/
theorem scan_segments (file : Option String) {segments : List Segment} {rest : List Char}
    (hapart : segments.IsChain Segment.Apart) (hrest : ∀ c ∈ rest, isGap c) :
    scan (String.ofList (Segment.written segments ++ rest)) file =
      .ofTokens (Segment.tokens [] segments) := by
  have hseparate : Segment.Separate segments rest := Segment.separate_of_apart hapart hrest
  rw [scan, String.toList_ofList]
  exact Segment.scanFrom_written file hseparate hrest []

/-- A line end, and then `18446744073709551617var x="it's"'"'`, with a tabulator for the blank: only
the keyword and the name have to be kept apart. -/
def sampleSegments : List Segment :=
  [⟨['\n'], .number 1, "18446744073709551617".toList, List.all_eq_true.1 (by decide),
      by decide, List.all_eq_true.1 (by decide), by decide⟩,
    ⟨[], .keyword "var", ['v', 'a', 'r'], List.all_eq_true.1 (by decide),
      ⟨'v', ['a', 'r'], rfl, by decide, List.all_eq_true.1 (by decide)⟩, rfl, by decide⟩,
    ⟨['\t'], .identifier "x", ['x'], List.all_eq_true.1 (by decide),
      ⟨'x', [], rfl, by decide, List.all_eq_true.1 (by decide)⟩, rfl, by decide⟩,
    ⟨[], .punctuator "=", ['='], List.all_eq_true.1 (by decide), '=', by decide, rfl, rfl⟩,
    ⟨[], .string "it's", ['"', 'i', 't', '\'', 's', '"'], List.all_eq_true.1 (by decide),
      '"', by decide, by decide, by decide, rfl⟩,
    ⟨[], .string "\"", ['\'', '"', '\''], List.all_eq_true.1 (by decide),
      '\'', by decide, by decide, by decide, rfl⟩]

theorem scan_segments_sample :
    sampleSegments.IsChain Segment.Apart ∧ (∀ c ∈ ['\x0d', '\n'], isGap c) ∧
      scan "\n18446744073709551617var\tx=\"it's\"'\"'\x0d\n" none = .ofTokens
        [⟨.number 1, 2⟩, ⟨.keyword "var", 2⟩, ⟨.identifier "x", 2⟩, ⟨.punctuator "=", 2⟩,
          ⟨.string "it's", 2⟩, ⟨.string "\"", 2⟩] := by
  have hapart : sampleSegments.IsChain Segment.Apart := by
    simp [sampleSegments, Segment.Apart, Lexeme.fuses, Lexeme.isWord, Lexeme.isNumber]
  have hrest : ∀ c ∈ ['\x0d', '\n'], isGap c := List.all_eq_true.1 (by decide)
  have hscan := scan_segments none hapart hrest
  have htext : Segment.written sampleSegments ++ ['\x0d', '\n'] =
      "\n18446744073709551617var\tx=\"it's\"'\"'\x0d\n".toList := by decide +kernel
  have htokens : Segment.tokens [] sampleSegments =
      [⟨.number 1, 2⟩, ⟨.keyword "var", 2⟩, ⟨.identifier "x", 2⟩, ⟨.punctuator "=", 2⟩,
        ⟨.string "it's", 2⟩, ⟨.string "\"", 2⟩] := by decide +kernel
  rw [htext, String.ofList_toList, htokens] at hscan
  exact ⟨hapart, hrest, hscan⟩

end PageScript
